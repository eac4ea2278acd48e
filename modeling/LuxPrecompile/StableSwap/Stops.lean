import LuxPrecompile.StableSwap.Solvers

/-!
# Where `computeD` stops

A run of `computeD` stops at the first round that changes its iterate by at most one.  Its
rounds start at or above every integer whose exact curve the balances reach, since the
truncated products only push a round up; and a round that falls by two or more at an integer
does so at every larger one.  Between these two bounds, a few units around the curve, lie
the values at which a search can stop, whatever its path: often there is only one.
-/

namespace LuxPrecompile.StableSwap

open Evm Support

/-- The balances lie on or above the exact curve of the invariant `d`. -/
def OnCurve (balances : List ℤ) (ann nn d : ℤ) : Prop :=
  d ^ (balances.length + 1) ≤ (ann * balances.sum - (ann - 1) * d) * scaled nn balances

instance (balances : List ℤ) (ann nn d : ℤ) : Decidable (OnCurve balances ann nn d) :=
  inferInstanceAs (Decidable (_ ≤ _))

/-! ## `computeD` from below -/

section Below

variable {p : Pool} {d d' m : ℤ}

/-- A round of `computeD`, from any positive iterate, stays at or above every integer
whose exact curve the balances reach. -/
theorem nextD_ge (hpos : ∀ x ∈ p.balances, 0 < x) (hm : 0 ≤ m)
    (hcurve : OnCurve p.balances p.ann p.coins m) (hd : 1 ≤ d)
    (h : nextD p.balances p.ann p.coins p.balances.sum d = .ok d') : m ≤ d' := by
  obtain ⟨dP, hprod, rfl⟩ := nextD_ok h
  have hcoins := p.coins_ge
  obtain ⟨hdP, -, hle⟩ := curveProduct_spec (by omega) (by omega) p.nonneg hprod
  rw [Int.le_ediv_iff_mul_le (denomD_pos hd hdP)]
  have hscaled : 0 < scaled p.coins p.balances := scaled_pos (by omega) hpos
  have hbernoulli := mul_pow_le_add_pow hm (show 0 < d by omega) p.coins
  rw [OnCurve] at hcurve
  have hlength : p.balances.length = p.coins := rfl
  rw [hlength] at hle hcurve
  have hfirst : d * m ^ (p.coins + 1) ≤
      d * ((p.ann * p.balances.sum - (p.ann - 1) * m) * scaled p.coins p.balances) :=
    Int.mul_le_mul_of_nonneg_left hcurve (by omega)
  have hsecond : d ^ (p.coins + 1) * (p.coins * d - (p.coins + 1) * m) ≤
        dP * scaled p.coins p.balances * (p.coins * d - (p.coins + 1) * m) ∨
      0 ≤ dP * scaled p.coins p.balances * (p.coins * d - (p.coins + 1) * m) := by
    rcases le_total 0 (p.coins * d - (p.coins + 1) * m) with hsign | hsign
    · exact .inr (Int.mul_nonneg (Int.mul_nonneg hdP hscaled.le) hsign)
    · exact .inl (mul_le_mul_of_nonpos_right hle hsign)
  have hdm : 0 ≤ d * m ^ (p.coins + 1) := Int.mul_nonneg (by omega) (pow_nonneg hm _)
  have hmean : 0 ≤ d * m ^ (p.coins + 1) +
      d ^ (p.coins + 1) * (p.coins * d - (p.coins + 1) * m) := by
    have hscale := Int.mul_le_mul_of_nonneg_left hbernoulli (show 0 ≤ d by omega)
    have hleft : d * (((p.coins : ℤ) + 1) * d ^ p.coins * m) =
        d ^ (p.coins + 1) * ((p.coins + 1) * m) := by ring
    have hright : d * (m ^ (p.coins + 1) + p.coins * d ^ (p.coins + 1)) =
        d * m ^ (p.coins + 1) + d ^ (p.coins + 1) * (p.coins * d) := by ring
    rw [hleft, hright] at hscale
    linarith
  have htotal : 0 ≤ (numD p.ann p.coins p.balances.sum d dP -
      m * denomD p.ann p.coins d dP) * scaled p.coins p.balances := by
    have hsplit : (numD p.ann p.coins p.balances.sum d dP -
          m * denomD p.ann p.coins d dP) * scaled p.coins p.balances =
        d * ((p.ann * p.balances.sum - (p.ann - 1) * m) * scaled p.coins p.balances) +
          dP * scaled p.coins p.balances * (p.coins * d - (p.coins + 1) * m) := by
      rw [numD, denomD]
      ring
    rw [hsplit]
    rcases hsecond with hsecond | hsecond <;> linarith
  have hdiff := nonneg_of_mul_nonneg_left htotal hscaled
  linarith

end Below

/-! ## `computeD` from above -/

/-- A round of `computeD` from `m` falls by two or more. -/
def Falls (p : Pool) (m : ℤ) : Prop :=
  match nextD p.balances p.ann p.coins p.balances.sum m with
  | .ok d => d + 2 ≤ m
  | .error _ => False

instance decidableFalls (p : Pool) (m : ℤ) : Decidable (Falls p m) := by
  unfold Falls
  cases nextD p.balances p.ann p.coins p.balances.sum m with
  | ok d => exact inferInstanceAs (Decidable (d + 2 ≤ m))
  | error e => exact inferInstanceAs (Decidable False)

section Above

variable {p : Pool} {balances : List ℤ} {nn d d' m v acc acc' dP dP' : ℤ}

/-- The product of the curve is monotone, truncations included. -/
theorem foldlM_dPStep_mono (hnn : 0 < nn) (hbal : ∀ x ∈ balances, 0 ≤ x) (hd : 0 ≤ d)
    (hdd : d ≤ d') (hacc : 0 ≤ acc) (hle : acc ≤ acc')
    (h : balances.foldlM (dPStep d nn) acc = .ok dP)
    (h' : balances.foldlM (dPStep d' nn) acc' = .ok dP') : dP ≤ dP' := by
  induction balances generalizing acc acc' with
  | nil =>
      cases h
      cases h'
      exact hle
  | cons x xs ih =>
      rw [List.foldlM_cons, dPStep] at h h'
      split_ifs at h h' with hx
      · cases h
      · have hx0 := hbal x List.mem_cons_self
        have hdiv : 0 < x * nn := Int.mul_pos (by omega) hnn
        rw [div_eq_ok hdiv.ne'] at h h'
        refine ih (fun z hz => hbal z (List.mem_cons_of_mem _ hz)) ?_ ?_ h h'
        · exact Int.ediv_nonneg (Int.mul_nonneg hacc hd) hdiv.le
        · exact Int.ediv_le_ediv hdiv (mul_le_mul hle hdd hd (hacc.trans hle))

theorem curveProduct_sum (h : curveProduct p.balances p.coins m = .ok dP) (hm : 0 ≤ m) :
    (∀ x ∈ p.balances, 0 < x) ∧ 0 ≤ dP ∧ (p.coins : ℤ) ≤ p.balances.sum := by
  have hcoins := p.coins_ge
  obtain ⟨hdP, hpos, -⟩ := curveProduct_spec (by omega) hm p.nonneg h
  refine ⟨hpos, hdP, ?_⟩
  have hcard := List.card_nsmul_le_sum p.balances 1 fun x hx => hpos x hx
  simpa [Pool.coins] using hcard

/-- When a round from a positive `m` falls by two or more, as an inequality without a
division. -/
theorem falls_iff (hm : 1 ≤ m) (h : curveProduct p.balances p.coins m = .ok dP) :
    Falls p m ↔ p.ann * p.balances.sum * m <
      (p.ann - 1) * m * (m - 1) + dP * (m - (p.coins + 1)) := by
  obtain ⟨-, hdP, -⟩ := curveProduct_sum h (by omega)
  have hden := denomD_pos (p := p) hm hdP
  rw [Falls, nextD_of_product h, div_eq_ok hden.ne']
  have hround : numD p.ann p.coins p.balances.sum m dP / denomD p.ann p.coins m dP + 2 ≤ m ↔
      numD p.ann p.coins p.balances.sum m dP < (m - 1) * denomD p.ann p.coins m dP := by
    rw [← Int.ediv_lt_iff_lt_mul hden]
    omega
  dsimp only
  rw [hround, numD, denomD]
  constructor
  · intro hlt
    linarith
  · intro hlt
    linarith

/-- A round that falls by two or more does so from every larger iterate. -/
theorem Falls.mono (hm : 1 ≤ m) (hle : m ≤ v) (h : Falls p m)
    (hv : nextD p.balances p.ann p.coins p.balances.sum v = .ok d) : d + 2 ≤ v := by
  obtain ⟨dP', hprod', -⟩ := nextD_ok hv
  obtain ⟨d₀, hd₀⟩ : ∃ d₀, nextD p.balances p.ann p.coins p.balances.sum m = .ok d₀ := by
    rw [Falls] at h
    cases hround : nextD p.balances p.ann p.coins p.balances.sum m with
    | ok d₀ => exact ⟨d₀, rfl⟩
    | error e =>
        rw [hround] at h
        exact h.elim
  obtain ⟨dP, hprod, -⟩ := nextD_ok hd₀
  have hcoins := p.coins_ge
  have hann := p.ann_pos
  obtain ⟨-, hdP, hsum⟩ := curveProduct_sum hprod (by omega)
  have hmono : dP ≤ dP' :=
    foldlM_dPStep_mono (by omega) p.nonneg (by omega) hle (by omega) hle hprod hprod'
  have hfall := (falls_iff hm hprod).mp h
  -- up to the coin count the product does not help the fall, and the sum is no smaller
  have hbeyond : (p.coins : ℤ) + 1 ≤ m := by
    by_contra hlow
    have hsecond : dP * (m - (p.coins + 1)) ≤ 0 :=
      mul_nonpos_of_nonneg_of_nonpos hdP (by omega)
    have hfirst : (p.ann - 1) * m * (m - 1) ≤ p.ann * m * (m - 1) := by nlinarith
    have hscaled : p.ann * m * p.balances.sum < p.ann * m * (m - 1) := by linarith
    have hlt : p.balances.sum < m - 1 :=
      lt_of_mul_lt_mul_left hscaled (Int.mul_pos hann (by omega)).le
    omega
  have hfalls : Falls p v := by
    rw [falls_iff (by omega) hprod']
    -- compared over the common factor `m * v`
    have hgrow : 0 ≤ (p.ann - 1) * m * v * (v - m) :=
      mul_nonneg (mul_nonneg (mul_nonneg (by omega) (by omega)) (by omega)) (by omega)
    have hproducts : dP * ((m - (p.coins + 1)) * v) ≤ dP' * ((v - (p.coins + 1)) * m) := by
      apply mul_le_mul hmono _ (mul_nonneg (by omega) (by omega)) (by omega)
      nlinarith
    have hscaled := mul_lt_mul_of_pos_right hfall (show 0 < v by omega)
    have hcompare : p.ann * p.balances.sum * v * m <
        ((p.ann - 1) * v * (v - 1) + dP' * (v - (p.coins + 1))) * m := by
      linarith
    exact lt_of_mul_lt_mul_right hcompare (by omega)
  rw [Falls, hv] at hfalls
  exact hfalls

end Above

/-! ## Empty pools -/

section Empty

variable {p : Pool} {d m : ℤ}

/-- A nonempty pool whose invariant is computed has no zero balance. -/
theorem computeD_pos (h : computeD p.balances p.amp p.coins = .ok d) :
    (∀ x ∈ p.balances, x = 0) ∨ ∀ x ∈ p.balances, 0 < x := by
  rw [computeD] at h
  rcases sum_eq_zero_or_pos p with hs | hs
  · refine .inl fun x hx => ?_
    have hle := List.single_le_sum p.nonneg x hx
    have hx0 := p.nonneg x hx
    omega
  · rw [if_neg (by omega)] at h
    obtain ⟨v, hv, hstep⟩ := seek_ok h
    obtain ⟨dP, hprod, -⟩ := nextD_ok hstep
    have hvpos := atHead_pos hs hv
    exact .inr (curveProduct_sum hprod (by omega)).1

theorem OnCurve.not_empty (hm : 1 ≤ m) (h : OnCurve p.balances p.ann p.coins m) :
    ¬∀ x ∈ p.balances, x = 0 := by
  intro hempty
  have hne : p.balances ≠ [] := List.ne_nil_of_length_pos (by have := p.two_le; omega)
  have hzero : (0 : ℤ) ∈ p.balances := by
    have hhead := List.head_mem hne
    rwa [hempty _ hhead] at hhead
  have hpower : 0 < m ^ (p.balances.length + 1) := pow_pos (by omega) _
  rw [OnCurve, scaled_eq, List.prod_eq_zero hzero, mul_zero, mul_zero] at h
  omega

end Empty

/-! ## The stops -/

/-- The values a round can start from: no integer whose exact curve the balances reach is
above one. -/
def Above (p : Pool) (v : ℤ) : Prop :=
  1 ≤ v ∧ ∀ m, OnCurve p.balances p.ann p.coins m → m ≤ v

/-- A value at which a search for the invariant of a pool can stop. -/
def Stop (p : Pool) (d : ℤ) : Prop :=
  (p.balances.sum = 0 ∧ d = 0) ∨
    StopsAt (nextD p.balances p.ann p.coins p.balances.sum) Close (Above p) d

/-- The searches of a pool can stop at one value only. -/
def Settled (p : Pool) : Prop := ∀ d d', Stop p d → Stop p d' → d = d'

section Stops

variable {p : Pool} {d m M : ℤ}

/-- The sum, where a search starts, is above the curve: the arithmetic mean is above the
geometric one. -/
theorem above_sum (hpos : ∀ x ∈ p.balances, 0 < x) : Above p p.balances.sum := by
  have hsum : 1 ≤ p.balances.sum :=
    List.sum_pos _ hpos (List.ne_nil_of_length_pos (by have := p.two_le; omega))
  refine ⟨hsum, fun m hcurve => ?_⟩
  by_contra hgt
  have hann := p.ann_pos
  have hcoins := p.coins_ge
  have hscaled : 0 < scaled p.coins p.balances := scaled_pos (by omega) hpos
  have hmean : scaled p.coins p.balances ≤ m ^ p.balances.length := by
    rw [scaled_eq]
    calc (p.coins : ℤ) ^ p.balances.length * p.balances.prod
        ≤ p.balances.sum ^ p.balances.length := pow_length_mul_prod_le p.nonneg
      _ ≤ m ^ p.balances.length := pow_le_pow_left₀ (by omega) (by omega) _
  have hlinear : p.ann * p.balances.sum - (p.ann - 1) * m < m := by
    have hgap : 0 < p.ann * (m - p.balances.sum) := Int.mul_pos hann (by omega)
    linarith
  have hpower : (p.ann * p.balances.sum - (p.ann - 1) * m) * scaled p.coins p.balances <
      m ^ (p.balances.length + 1) := by
    calc (p.ann * p.balances.sum - (p.ann - 1) * m) * scaled p.coins p.balances
        < m * scaled p.coins p.balances := Int.mul_lt_mul_of_pos_right hlinear hscaled
      _ ≤ m * m ^ p.balances.length := Int.mul_le_mul_of_nonneg_left hmean (by omega)
      _ = m ^ (p.balances.length + 1) := (pow_succ' m _).symm
  exact absurd hcurve (not_le.mpr hpower)

/-- `computeD` returns one of the stops. -/
theorem computeD_stop (h : computeD p.balances p.amp p.coins = .ok d) : Stop p d := by
  have hbalances := computeD_pos h
  rw [computeD] at h
  rcases sum_eq_zero_or_pos p with hs | hs
  · rw [if_pos hs] at h
    cases h
    exact .inl ⟨hs, rfl⟩
  · rw [if_neg (by omega)] at h
    obtain hempty | hpos := hbalances
    · have hzero := List.sum_eq_zero hempty
      omega
    · right
      refine seek_stopsAt (above_sum hpos) (fun v v' hv hstep _ => ?_) h
      refine ⟨nextD_pos hs hv.1 hstep, fun m hcurve => ?_⟩
      rcases le_or_gt 0 m with hm | hm
      · exact nextD_ge hpos hm hcurve hv.1 hstep
      · have hnext := nextD_pos hs hv.1 hstep
        omega

theorem nextD_balances {v d' : ℤ} (hv : 1 ≤ v)
    (h : nextD p.balances p.ann p.coins p.balances.sum v = .ok d') :
    (∀ x ∈ p.balances, 0 < x) ∧ 1 ≤ p.balances.sum := by
  obtain ⟨dP, hprod, -⟩ := nextD_ok h
  obtain ⟨hpos, -, hsum⟩ := curveProduct_sum hprod (by omega)
  have hcoins := p.coins_ge
  exact ⟨hpos, by omega⟩

theorem Stop.nonneg (h : Stop p d) : 0 ≤ d := by
  obtain ⟨-, rfl⟩ | ⟨v, ⟨hv, -⟩, hstep, -⟩ := h
  · exact le_rfl
  · have hpos := nextD_pos (nextD_balances hv hstep).2 hv hstep
    omega

theorem Stop.empty (hempty : ∀ x ∈ p.balances, x = 0) (h : Stop p d) : d = 0 := by
  obtain ⟨-, hd⟩ | ⟨v, ⟨hv, -⟩, hstep, -⟩ := h
  · exact hd
  · have hsum := (nextD_balances hv hstep).2
    rw [List.sum_eq_zero hempty] at hsum
    omega

theorem Stop.ge (hcurve : OnCurve p.balances p.ann p.coins m) (h : Stop p d) : m ≤ d := by
  rcases le_or_gt m 0 with hm | hm
  · exact hm.trans h.nonneg
  · obtain ⟨hs, -⟩ | ⟨v, ⟨hv, -⟩, hstep, -⟩ := h
    · refine absurd (fun x hx => ?_) (hcurve.not_empty hm)
      have hle := List.single_le_sum p.nonneg x hx
      have hx0 := p.nonneg x hx
      omega
    · exact nextD_ge (nextD_balances hv hstep).1 hm.le hcurve hv hstep

/-- The value a search can stop at from `v`. -/
def stopAt (p : Pool) (v : ℤ) : Option ℤ :=
  match nextD p.balances p.ann p.coins p.balances.sum v with
  | .ok d => if Close d v then some d else none
  | .error _ => none

/-- The values searches can stop at from `n` integers in a row. -/
def stopsFrom (p : Pool) (m : ℤ) (n : ℕ) : List ℤ :=
  (List.range n).filterMap fun k : ℕ => stopAt p (m + k)

/-- All stops of a pool are found between an integer whose exact curve it reaches and one
from which its rounds fall. -/
theorem Stop.mem_stopsFrom {n : ℕ} (hm : 1 ≤ m) (hcurve : OnCurve p.balances p.ann p.coins m)
    (hfalls : Falls p (m + n)) (h : Stop p d) : d ∈ stopsFrom p m n := by
  have hge := h.ge hcurve
  obtain ⟨-, hd⟩ | ⟨v, ⟨hv, habove⟩, hstep, hnear⟩ := h
  · omega
  · have hmv := habove m hcurve
    have hbelow : v < m + n := by
      by_contra hle
      have hfar := hfalls.mono (show 1 ≤ m + n by omega) (not_lt.mp hle) hstep
      obtain ⟨hlow, -⟩ := abs_le.mp hnear
      omega
    have hk : (v - m).toNat < n := by omega
    rw [stopsFrom, List.mem_filterMap]
    refine ⟨(v - m).toNat, List.mem_range.mpr hk, ?_⟩
    have hv' : m + ((v - m).toNat : ℤ) = v := by omega
    rw [hv', stopAt, hstep]
    exact if_pos hnear

end Stops

end LuxPrecompile.StableSwap
