import LuxPrecompile.StableSwap.Contract

/-!
# The Newton solvers of the pool

Each round of `computeD` and of `computeY` divides by a positive number and ends on the
side of the root that favours the pool; both solvers fail with their own errors only.
-/

namespace LuxPrecompile.StableSwap

open Evm Support

/-- What the entry points check before they solve: at least two coins, a positive
amplification, and balances read as unsigned words. -/
structure Pool where
  balances : List ℤ
  amp : ℤ
  nonneg : ∀ x ∈ balances, 0 ≤ x
  two_le : 2 ≤ balances.length
  amp_pos : 0 < amp

namespace Pool

variable (p : Pool)

/-- The coin count. -/
def coins : ℕ := p.balances.length

def ann : ℤ := p.amp * p.coins

theorem coins_ge : (2 : ℤ) ≤ p.coins := by
  exact_mod_cast p.two_le

theorem ann_pos : 0 < p.ann := by
  have hcoins := p.coins_ge
  exact Int.mul_pos p.amp_pos (by omega)

theorem sum_nonneg : 0 ≤ p.balances.sum := List.sum_nonneg p.nonneg

end Pool

/-! ## Divisions -/

theorem div_eq_ok {x y : ℤ} (hy : y ≠ 0) : div x y = .ok (x / y) := if_neg hy

theorem div_ok {x y z : ℤ} (h : div x y = .ok z) : y ≠ 0 ∧ z = x / y := by
  rw [div] at h
  split_ifs at h with hy
  cases h
  exact ⟨hy, rfl⟩

theorem divCeil_ok {x y z : ℤ} (hy : 0 < y) (h : divCeil x y = .ok z) :
    x ≤ z * y ∧ (0 ≤ x → (z - 1) * y < x) := by
  rw [divCeil, if_neg hy.ne'] at h
  have hdiv := Int.tdiv_mul_add_tmod x y
  have hupper := Int.tmod_lt_of_pos x hy
  dsimp only at h
  cases h
  split_ifs with hrem
  · refine ⟨by linarith, fun _ => by linarith⟩
  · refine ⟨by linarith, fun hx => ?_⟩
    have hrem0 := Int.tmod_nonneg y hx
    linarith

theorem divCeil_eq_ok {x y : ℤ} (hy : 0 < y) : ∃ z, divCeil x y = .ok z :=
  ⟨_, if_neg hy.ne'⟩

/-! ## The product of the curve -/

/-- The product of the balances, each times the coin count. -/
def scaled (nn : ℤ) (balances : List ℤ) : ℤ := (balances.map (· * nn)).prod

theorem scaled_eq (nn : ℤ) (balances : List ℤ) :
    scaled nn balances = nn ^ balances.length * balances.prod := by
  induction balances with
  | nil => simp [scaled]
  | cons x xs ih =>
      rw [scaled] at ih
      rw [scaled, List.map_cons, List.prod_cons, ih, List.length_cons, List.prod_cons]
      ring

theorem scaled_pos {nn : ℤ} {balances : List ℤ} (hnn : 0 < nn) (h : ∀ x ∈ balances, 0 < x) :
    0 < scaled nn balances := by
  rw [scaled_eq]
  exact Int.mul_pos (pow_pos hnn _) (List.prod_pos h)

section Product

variable {balances : List ℤ} {nn d acc dP : ℤ}

/-- The truncated product is at most the exact one, and no balance was zero. -/
theorem foldlM_dPStep (hnn : 0 < nn) (hd : 0 ≤ d) (hacc : 0 ≤ acc)
    (hbal : ∀ x ∈ balances, 0 ≤ x) (h : balances.foldlM (dPStep d nn) acc = .ok dP) :
    0 ≤ dP ∧ (∀ x ∈ balances, 0 < x) ∧ dP * scaled nn balances ≤ acc * d ^ balances.length := by
  induction balances generalizing acc with
  | nil =>
      cases h
      exact ⟨hacc, fun _ hx => absurd hx List.not_mem_nil, by simp [scaled]⟩
  | cons x xs ih =>
      have hx0 := hbal x List.mem_cons_self
      rw [List.foldlM_cons, dPStep] at h
      split_ifs at h with hx
      · cases h
      · have hxpos : 0 < x := lt_of_le_of_ne hx0 (Ne.symm hx)
        have hdiv : 0 < x * nn := Int.mul_pos hxpos hnn
        rw [div_eq_ok hdiv.ne'] at h
        have hnext : 0 ≤ acc * d / (x * nn) := Int.ediv_nonneg (Int.mul_nonneg hacc hd) hdiv.le
        obtain ⟨hdP, hpos, hle⟩ := ih hnext (fun z hz => hbal z (List.mem_cons_of_mem _ hz)) h
        refine ⟨hdP, ?_, ?_⟩
        · intro z hz
          rcases List.mem_cons.mp hz with rfl | hz
          · exact hxpos
          · exact hpos z hz
        · have hfloor : acc * d / (x * nn) * (x * nn) ≤ acc * d :=
            Int.ediv_mul_le _ hdiv.ne'
          calc dP * scaled nn (x :: xs) = dP * scaled nn xs * (x * nn) := by
                rw [scaled, List.map_cons, List.prod_cons, scaled]
                ring
            _ ≤ acc * d / (x * nn) * d ^ xs.length * (x * nn) :=
                Int.mul_le_mul_of_nonneg_right hle hdiv.le
            _ = acc * d / (x * nn) * (x * nn) * d ^ xs.length := by ring
            _ ≤ acc * d * d ^ xs.length :=
                Int.mul_le_mul_of_nonneg_right hfloor (pow_nonneg hd _)
            _ = acc * d ^ (x :: xs).length := by
                rw [List.length_cons, pow_succ]
                ring

theorem foldlM_dPStep_error {e : Error} (hnn : 0 < nn)
    (h : balances.foldlM (dPStep d nn) acc = .error e) : e = .zeroLiquidity := by
  induction balances generalizing acc with
  | nil => cases h
  | cons x xs ih =>
      rw [List.foldlM_cons, dPStep] at h
      split_ifs at h with hx
      · cases h
        rfl
      · rw [div_eq_ok (mul_ne_zero hx hnn.ne')] at h
        exact ih h

theorem curveProduct_spec (hnn : 0 < nn) (hd : 0 ≤ d) (hbal : ∀ x ∈ balances, 0 ≤ x)
    (h : curveProduct balances nn d = .ok dP) :
    0 ≤ dP ∧ (∀ x ∈ balances, 0 < x) ∧
      dP * scaled nn balances ≤ d ^ (balances.length + 1) := by
  obtain ⟨hdP, hpos, hle⟩ := foldlM_dPStep hnn hd hd hbal h
  exact ⟨hdP, hpos, by rwa [pow_succ']⟩

end Product

/-! ## `computeD` -/

section ComputeD

variable {p : Pool} {d d' dP : ℤ}

theorem curveProduct_one (h : curveProduct p.balances p.coins 1 = .ok dP) : dP = 0 := by
  have hcoins := p.coins_ge
  obtain ⟨hdP, hpos, hle⟩ := curveProduct_spec (by omega) zero_le_one p.nonneg h
  rw [one_pow] at hle
  have hscaled : 2 ≤ scaled p.coins p.balances := by
    rw [scaled_eq]
    have hprod : 1 ≤ p.balances.prod := List.prod_pos hpos
    have hpow : (p.coins : ℤ) ^ 1 ≤ (p.coins : ℤ) ^ p.balances.length :=
      pow_le_pow_right₀ (by omega) (by have := p.two_le; omega)
    rw [pow_one] at hpow
    nlinarith
  nlinarith

theorem denomD_pos (hd : 1 ≤ d) (hdP : 0 ≤ dP) : 0 < denomD p.ann p.coins d dP := by
  have hann := p.ann_pos
  have hcoins := p.coins_ge
  have hamp := p.amp_pos
  have hann2 : 2 ≤ p.ann := by
    rw [Pool.ann]
    nlinarith
  have hfirst : 0 < (p.ann - 1) * d := Int.mul_pos (by omega) (by omega)
  have hsecond : 0 ≤ ((p.coins : ℤ) + 1) * dP := Int.mul_nonneg (by omega) hdP
  rw [denomD]
  omega

/-- A round keeps the iterate at 1 or more while the balances do not sum to zero. -/
theorem denomD_le_numD {s : ℤ} (hs : 1 ≤ s) (hd : 1 ≤ d)
    (h : curveProduct p.balances p.coins d = .ok dP) :
    denomD p.ann p.coins d dP ≤ numD p.ann p.coins s d dP := by
  have hann := p.ann_pos
  have hcoins := p.coins_ge
  obtain ⟨hdP, -, -⟩ := curveProduct_spec (by omega) (by omega) p.nonneg h
  have hlinear : (p.ann - 1) * d ≤ p.ann * s * d :=
    Int.mul_le_mul_of_nonneg_right (by nlinarith) (by omega)
  rw [denomD, numD]
  rcases hd.eq_or_lt with rfl | hd2
  · rw [curveProduct_one h]
    linarith
  · have hproduct : ((p.coins : ℤ) + 1) * dP ≤ p.coins * dP * d := by
      have hstep : ((p.coins : ℤ) + 1) ≤ p.coins * d := by nlinarith
      calc ((p.coins : ℤ) + 1) * dP ≤ p.coins * d * dP :=
            Int.mul_le_mul_of_nonneg_right hstep hdP
        _ = p.coins * dP * d := by ring
    linarith

theorem nextD_of_product {s : ℤ} (h : curveProduct p.balances p.coins d = .ok dP) :
    nextD p.balances p.ann p.coins s d =
      div (numD p.ann p.coins s d dP) (denomD p.ann p.coins d dP) := by
  rw [nextD, h]
  rfl

theorem nextD_ok {s : ℤ} (h : nextD p.balances p.ann p.coins s d = .ok d') :
    ∃ dP, curveProduct p.balances p.coins d = .ok dP ∧
      d' = numD p.ann p.coins s d dP / denomD p.ann p.coins d dP := by
  cases hprod : curveProduct p.balances p.coins d with
  | error e =>
      rw [nextD, hprod] at h
      cases h
  | ok dP =>
      rw [nextD_of_product hprod] at h
      exact ⟨dP, rfl, (div_ok h).2⟩

theorem nextD_pos {s : ℤ} (hs : 1 ≤ s) (hd : 1 ≤ d)
    (h : nextD p.balances p.ann p.coins s d = .ok d') : 1 ≤ d' := by
  obtain ⟨dP, hprod, rfl⟩ := nextD_ok h
  have hcoins := p.coins_ge
  obtain ⟨hdP, -, -⟩ := curveProduct_spec (by omega) (by omega) p.nonneg hprod
  have hpos := denomD_pos (p := p) hd hdP
  rw [Int.le_ediv_iff_mul_le hpos, one_mul]
  exact denomD_le_numD hs hd hprod

theorem atHead_pos {s : ℤ} (hs : 1 ≤ s)
    (h : AtHead (nextD p.balances p.ann p.coins s) Close s d) : 1 ≤ d :=
  h.invariant hs fun _ _ hv hstep _ => nextD_pos hs hv hstep

theorem nextD_error {s : ℤ} {e : Error} (hd : 1 ≤ d)
    (h : nextD p.balances p.ann p.coins s d = .error e) : e = .zeroLiquidity := by
  have hcoins := p.coins_ge
  cases hprod : curveProduct p.balances p.coins d with
  | error e' =>
      rw [nextD, hprod] at h
      cases h
      exact foldlM_dPStep_error (by omega) hprod
  | ok dP =>
      obtain ⟨hdP, -, -⟩ := curveProduct_spec (by omega) (by omega) p.nonneg hprod
      rw [nextD_of_product hprod, div_eq_ok (denomD_pos hd hdP).ne'] at h
      cases h

variable (p) in
theorem sum_eq_zero_or_pos : p.balances.sum = 0 ∨ 1 ≤ p.balances.sum := by
  have h := p.sum_nonneg
  omega

theorem computeD_error {e : Error} (h : computeD p.balances p.amp p.coins = .error e) :
    e = .zeroLiquidity ∨ e = .convergence := by
  rw [computeD] at h
  rcases sum_eq_zero_or_pos p with hs | hs
  · rw [if_pos hs] at h
    cases h
  · rw [if_neg (by omega)] at h
    rcases seek_error h with he | ⟨v, hv, hstep⟩
    · exact .inr he
    · exact .inl (nextD_error (atHead_pos hs hv) hstep)

theorem computeD_nonneg (h : computeD p.balances p.amp p.coins = .ok d) :
    0 ≤ d ∧ (0 < p.balances.sum → 1 ≤ d) := by
  rw [computeD] at h
  rcases sum_eq_zero_or_pos p with hs | hs
  · rw [if_pos hs] at h
    cases h
    exact ⟨le_rfl, fun hpos => by omega⟩
  · rw [if_neg (by omega)] at h
    obtain ⟨v, hv, hstep⟩ := seek_ok h
    have hpos := nextD_pos hs (atHead_pos hs hv) hstep
    exact ⟨by omega, fun _ => hpos⟩

end ComputeD

/-! ## The coefficients of `computeY` -/

section Coefficients

variable {balances : List ℤ} {nn d : ℤ} {j : ℕ}

/-- The loop over the balances is a loop over those other than token `j`'s. -/
theorem foldlM_otherStep {m : ℕ} (hm : m ≤ balances.length) (cs : ℤ × ℤ) :
    (List.range m).foldlM (otherStep balances nn d j) cs =
      ((balances.take m).eraseIdx j).foldlM (otherFactor nn d) cs := by
  induction m with
  | zero => simp
  | succ m ih =>
      have hlt : m < balances.length := hm
      have htake : balances.take (m + 1) = balances.take m ++ [balances[m]] := by
        rw [List.take_succ_eq_append_getElem hlt]
      have hlength : (balances.take m).length = m := by
        rw [List.length_take]
        omega
      rw [List.range_succ, List.foldlM_append, ih (by omega), htake]
      rcases lt_trichotomy j m with hj | rfl | hj
      · have hstep : ∀ cs', otherStep balances nn d j cs' m =
            otherFactor nn d cs' balances[m] := by
          intro cs'
          rw [otherStep, if_neg (by omega), entry, List.getElem?_eq_getElem hlt]
          rfl
        rw [List.eraseIdx_append_of_lt_length (by omega), List.foldlM_append]
        simp only [List.foldlM_cons, hstep, List.foldlM_nil]
      · have hstep : ∀ cs', otherStep balances nn d j cs' j = .ok cs' := fun cs' =>
          if_pos rfl
        rw [List.eraseIdx_append_of_length_le (by omega), hlength, Nat.sub_self,
          List.eraseIdx_cons_zero, List.append_nil, List.eraseIdx_of_length_le (by omega)]
        simp only [List.foldlM_cons, hstep, List.foldlM_nil]
        exact bind_pure _
      · have hstep : ∀ cs', otherStep balances nn d j cs' m =
            otherFactor nn d cs' balances[m] := by
          intro cs'
          rw [otherStep, if_neg (by omega), entry, List.getElem?_eq_getElem hlt]
          rfl
        rw [List.eraseIdx_of_length_le (by omega),
          List.eraseIdx_of_length_le (by rw [List.length_append, hlength]; simp; omega),
          List.foldlM_append]
        simp only [List.foldlM_cons, hstep, List.foldlM_nil]

/-- `c` is the product of the curve over the other balances; the sum is theirs. -/
theorem foldlM_otherFactor {xs : List ℤ} (c s : ℤ) :
    xs.foldlM (otherFactor nn d) (c, s) =
      (xs.foldlM (dPStep d nn) c).map fun c' => (c', s + xs.sum) := by
  induction xs generalizing c s with
  | nil =>
      simp only [List.foldlM_nil, List.sum_nil, add_zero]
      rfl
  | cons x xs ih =>
      rw [List.foldlM_cons, List.foldlM_cons, otherFactor, dPStep]
      split_ifs with hx
      · rfl
      · cases hdiv : div (c * d) (x * nn) with
        | error e => rfl
        | ok c' =>
            have hsum : s + (x :: xs).sum = s + x + xs.sum := by
              rw [List.sum_cons]
              ring
            rw [hsum]
            exact ih c' (s + x)

/-- The balances `computeY` reads. -/
def Pool.others (p : Pool) (j : ℕ) : List ℤ := p.balances.eraseIdx j

variable {p : Pool} {b c : ℤ}

theorem Pool.others_nonneg : ∀ x ∈ p.others j, 0 ≤ x := fun x hx =>
  p.nonneg x (List.mem_of_mem_eraseIdx hx)

theorem foldlM_otherStep_pool :
    (List.range p.coins).foldlM (otherStep p.balances p.coins d j) (d, 0) =
      ((p.others j).foldlM (dPStep d p.coins) d).map fun c' => (c', (p.others j).sum) := by
  have hloop := @foldlM_otherStep p.balances p.coins d j p.coins le_rfl (d, 0)
  rw [Pool.coins, List.take_length, foldlM_otherFactor, zero_add] at hloop
  exact hloop

theorem ann_mul_coins_pos : 0 < p.ann * p.coins := by
  have hcoins := p.coins_ge
  exact Int.mul_pos p.ann_pos (by omega)

/-- What `computeY` computes before its loop. -/
theorem coefficients_ok (h : coefficients p.balances p.amp p.coins j d = .ok (b, c)) :
    ∃ c', (p.others j).foldlM (dPStep d p.coins) d = .ok c' ∧
      c = c' * d / (p.ann * p.coins) ∧ b = (p.others j).sum + d / p.ann := by
  rw [coefficients] at h
  dsimp only at h
  rw [foldlM_otherStep_pool] at h
  cases hprod : (p.others j).foldlM (dPStep d p.coins) d with
  | error e =>
      rw [hprod] at h
      cases h
  | ok c' =>
      rw [hprod] at h
      have hc : div (c' * d) (p.amp * p.coins * p.coins) =
          .ok (c' * d / (p.ann * p.coins)) := div_eq_ok ann_mul_coins_pos.ne'
      have hb : div d (p.amp * p.coins) = .ok (d / p.ann) := div_eq_ok p.ann_pos.ne'
      simp only [Except.map, bind, Except.bind, hc, hb, Except.ok.injEq, Prod.mk.injEq] at h
      exact ⟨c', rfl, h.2.symm, h.1.symm⟩

theorem coefficients_error {e : Error}
    (h : coefficients p.balances p.amp p.coins j d = .error e) : e = .zeroLiquidity := by
  have hcoins := p.coins_ge
  rw [coefficients] at h
  dsimp only at h
  rw [foldlM_otherStep_pool] at h
  cases hprod : (p.others j).foldlM (dPStep d p.coins) d with
  | error e' =>
      rw [hprod] at h
      cases h
      exact foldlM_dPStep_error (by omega) hprod
  | ok c' =>
      rw [hprod] at h
      have hc : div (c' * d) (p.amp * p.coins * p.coins) =
          .ok (c' * d / (p.ann * p.coins)) := div_eq_ok ann_mul_coins_pos.ne'
      have hb : div d (p.amp * p.coins) = .ok (d / p.ann) := div_eq_ok p.ann_pos.ne'
      simp only [Except.map, bind, Except.bind, hc, hb] at h
      cases h

/-- The constant of the quadratic is never negative, and its linear part exceeds `-D`. -/
theorem coefficients_pos (hj : j < p.coins) (hd : 0 ≤ d)
    (h : coefficients p.balances p.amp p.coins j d = .ok (b, c)) : 0 ≤ c ∧ 1 ≤ b := by
  have hcoins := p.coins_ge
  obtain ⟨c', hprod, rfl, rfl⟩ := coefficients_ok h
  obtain ⟨hc', hpos, -⟩ := foldlM_dPStep (by omega) hd hd p.others_nonneg hprod
  have hquot : 0 ≤ d / p.ann := Int.ediv_nonneg hd p.ann_pos.le
  refine ⟨Int.ediv_nonneg (Int.mul_nonneg hc' hd) ann_mul_coins_pos.le, ?_⟩
  have hlength : 0 < (p.others j).length := by
    rw [Pool.others, List.length_eraseIdx_of_lt hj]
    have := p.two_le
    omega
  have hsum : 0 < (p.others j).sum :=
    List.sum_pos _ hpos (List.length_pos_iff.mp hlength)
  omega

end Coefficients

/-! ## `computeY` -/

section ComputeY

variable {b c d y y' : ℤ}

theorem nextY_ok (h : nextY b c d y = .ok y') :
    0 < denomY b d y ∧ y * y + c ≤ y' * denomY b d y ∧
      (0 ≤ y * y + c → (y' - 1) * denomY b d y < y * y + c) := by
  rw [nextY] at h
  split_ifs at h with hle
  have hpos : 0 < denomY b d y := not_le.mp hle
  exact ⟨hpos, divCeil_ok hpos h⟩

theorem nextY_error {e : Error} (h : nextY b c d y = .error e) :
    e = .convergence := by
  rw [nextY] at h
  split_ifs at h with hle
  · cases h
    rfl
  · obtain ⟨z, hz⟩ := divCeil_eq_ok (x := y * y + c) (not_le.mp hle)
    rw [hz] at h
    cases h

theorem computeY_error {p : Pool} {j : ℕ} {e : Error}
    (h : computeY p.balances p.amp p.coins j d = .error e) :
    e = .zeroLiquidity ∨ e = .convergence := by
  rw [computeY] at h
  cases hco : coefficients p.balances p.amp p.coins j d with
  | error e' =>
      rw [hco] at h
      cases h
      exact .inl (coefficients_error hco)
  | ok bc =>
      rw [hco] at h
      rcases seek_error h with he | ⟨v, -, hstep⟩
      · exact .inr he
      · exact .inr (nextY_error hstep)

theorem denomY_eq (b d y : ℤ) : denomY b d y = 2 * y + (b - d) := by
  rw [denomY]
  ring

theorem nextY_above (h : nextY b c d y = .ok y') : c ≤ y' * y' + (b - d) * y' := by
  obtain ⟨-, hceil, -⟩ := nextY_ok h
  rw [denomY_eq] at hceil
  have hovershoot := newton_quadratic hceil
  have hsquare := mul_self_nonneg (y' - y)
  linarith

theorem nextY_rising (hc : 0 ≤ c) (h : nextY b c d y = .ok y') : 0 ≤ 2 * y' + (b - d) := by
  obtain ⟨hpos, hceil, -⟩ := nextY_ok h
  rw [denomY_eq] at hpos hceil
  nlinarith [sq_nonneg (2 * y + (b - d)), sq_nonneg (b - d)]

theorem nextY_descends (hc : 0 ≤ c) (hroot : c ≤ y * y + (b - d) * y)
    (h : nextY b c d y = .ok y') : y' ≤ y := by
  obtain ⟨hpos, -, hfloor⟩ := nextY_ok h
  rw [denomY_eq] at hpos hfloor
  have hnum : 0 ≤ y * y + c := by
    have := mul_self_nonneg y
    linarith
  exact newton_quadratic_descends hroot hpos (hfloor hnum)

/-- Every round of `computeY` divides by a positive number: the first by `b + D`, a later
one starts from a positive value at or above the root. -/
theorem denomY_pos (hb : 1 ≤ b) (hc : 0 ≤ c) (hd : 0 ≤ d)
    (h : AtHead (nextY b c d) Close d y) : 0 < denomY b d y := by
  have hgood : y = d ∨ (1 ≤ y ∧ c ≤ y * y + (b - d) * y) := by
    refine h.invariant (I := fun y => y = d ∨ (1 ≤ y ∧ c ≤ y * y + (b - d) * y)) (.inl rfl) ?_
    intro v v' hv hstep hfar
    right
    obtain ⟨hpos, hceil, -⟩ := nextY_ok hstep
    have hv0 : 0 ≤ v := by
      rcases hv with rfl | ⟨hv, -⟩
      · exact hd
      · omega
    have hv'0 : 0 ≤ v' := by
      by_contra hneg
      have hsquare := mul_self_nonneg v
      have hprod : v' * denomY b d v < 0 := mul_neg_of_neg_of_pos (by omega) hpos
      linarith
    refine ⟨?_, nextY_above hstep⟩
    rcases hv with rfl | ⟨hv, -⟩
    · by_contra hzero
      have hv'eq : v' = 0 := by omega
      rw [hv'eq, zero_mul] at hceil
      have hvzero : v = 0 := by nlinarith
      exact hfar (by rw [hv'eq, hvzero]; decide)
    · by_contra hzero
      have hv'eq : v' = 0 := by omega
      rw [hv'eq, zero_mul] at hceil
      nlinarith
  rcases hgood with rfl | ⟨hy, hroot⟩
  · rw [denomY]
    omega
  · rw [denomY_eq]
    have hfactor : 0 ≤ y + (b - d) := by
      by_contra hneg
      have hprod : y * (y + (b - d)) < 0 := mul_neg_of_pos_of_neg (by omega) (by omega)
      nlinarith
    omega

end ComputeY

/-! ## Where `computeY` lands -/

section Landing

variable {balances : List ℤ} {amp b c d y : ℤ} {n j : ℕ}

/-- The loop over the balances keeps `c` from going negative. -/
theorem foldlM_otherStep_nonneg {nn : ℤ} (hbal : ∀ x ∈ balances, 0 ≤ x) (hnn : 0 ≤ nn)
    (hd : 0 ≤ d) {ks : List ℕ} {cs cs' : ℤ × ℤ} (hcs : 0 ≤ cs.1)
    (h : ks.foldlM (otherStep balances nn d j) cs = .ok cs') : 0 ≤ cs'.1 := by
  induction ks generalizing cs with
  | nil =>
      cases h
      exact hcs
  | cons k ks ih =>
      rw [List.foldlM_cons] at h
      cases hk : otherStep balances nn d j cs k with
      | error e =>
          rw [hk] at h
          cases h
      | ok cs₁ =>
          rw [hk] at h
          refine ih ?_ h
          rw [otherStep] at hk
          split_ifs at hk with hkj
          · cases hk
            exact hcs
          · rw [entry] at hk
            cases hget : balances[k]? with
            | none =>
                rw [hget] at hk
                cases hk
            | some x =>
                have hx : 0 ≤ x := hbal x (List.mem_of_getElem? hget)
                rw [hget] at hk
                replace hk : otherFactor nn d cs x = .ok cs₁ := hk
                rw [otherFactor] at hk
                split_ifs at hk with hx0
                cases hdiv : div (cs.1 * d) (x * nn) with
                | error e =>
                    rw [hdiv] at hk
                    cases hk
                | ok c₁ =>
                    rw [hdiv] at hk
                    cases hk
                    rw [(div_ok hdiv).2]
                    exact Int.ediv_nonneg (Int.mul_nonneg hcs hd) (Int.mul_nonneg hx hnn)

theorem coefficients_nonneg (hbal : ∀ x ∈ balances, 0 ≤ x) (hamp : 0 ≤ amp) (hd : 0 ≤ d)
    (h : coefficients balances amp n j d = .ok (b, c)) : 0 ≤ c := by
  rw [coefficients] at h
  dsimp only at h
  cases hloop : (List.range n).foldlM (otherStep balances n d j) (d, 0) with
  | error e =>
      rw [hloop] at h
      cases h
  | ok cs =>
      have hcs : 0 ≤ cs.1 := foldlM_otherStep_nonneg hbal (Int.natCast_nonneg n) hd hd hloop
      have hdivisor : 0 ≤ amp * n * n := by positivity
      rw [hloop] at h
      simp only [bind, Except.bind] at h
      cases hc : div (cs.1 * d) (amp * n * n) with
      | error e =>
          rw [hc] at h
          cases h
      | ok c₁ =>
          rw [hc] at h
          simp only at h
          cases hb : div d (amp * n) with
          | error e =>
              rw [hb] at h
              cases h
          | ok q =>
              rw [hb] at h
              cases h
              rw [(div_ok hc).2]
              exact Int.ediv_nonneg (Int.mul_nonneg hcs hd) hdivisor

/-- A solve of `computeY` that converges ends with a round of its loop. -/
theorem computeY_ok (hbal : ∀ x ∈ balances, 0 ≤ x) (hamp : 0 ≤ amp) (hd : 0 ≤ d)
    (h : computeY balances amp n j d = .ok y) :
    ∃ b c, coefficients balances amp n j d = .ok (b, c) ∧ 0 ≤ c ∧
      seek (nextY b c d) Close .convergence maxIterations d = .ok y ∧
      positiveRoot (b - d) c ≤ y := by
  rw [computeY] at h
  cases hco : coefficients balances amp n j d with
  | error e =>
      rw [hco] at h
      cases h
  | ok bc =>
      obtain ⟨b, c⟩ := bc
      rw [hco] at h
      have hc := coefficients_nonneg hbal hamp hd hco
      obtain ⟨v, -, hstep⟩ := seek_ok h
      exact ⟨b, c, rfl, hc, h, positiveRoot_le (nextY_rising hc hstep) (nextY_above hstep)⟩

/-- A solve of `computeY` that converges lands at or above the root of the quadratic it
set up, with every value its loop assigns on the way: the values descend, from `D` itself
when `D` is not below the root. -/
theorem computeY_lands_above_root (hbal : ∀ x ∈ balances, 0 ≤ x) (hamp : 0 ≤ amp)
    (hd : 0 ≤ d) (h : computeY balances amp n j d = .ok y) :
    ∃ b c, coefficients balances amp n j d = .ok (b, c) ∧
      c ≤ y ^ 2 + (b - d) * y ∧
      (iterates (nextY b c d) Close maxIterations d).getLast? = some y ∧
      (∀ v ∈ iterates (nextY b c d) Close maxIterations d, positiveRoot (b - d) c ≤ v) ∧
      (iterates (nextY b c d) Close maxIterations d).Pairwise (· ≥ ·) ∧
      (c ≤ d ^ 2 + (b - d) * d → ∀ v ∈ iterates (nextY b c d) Close maxIterations d, v ≤ d) := by
  obtain ⟨b, c, hco, hc, hsolve, -⟩ := computeY_ok hbal hamp hd h
  have hdescend : ∀ fuel x, c ≤ x * x + (b - d) * x →
      (∀ v ∈ iterates (nextY b c d) Close fuel x, v ≤ x) ∧
        (iterates (nextY b c d) Close fuel x).Pairwise (· ≥ ·) := fun fuel x hx =>
    iterates_descend (fun v => c ≤ v * v + (b - d) * v) fuel hx fun v v' hv hstep =>
      ⟨nextY_above hstep, nextY_descends hc hv hstep⟩
  refine ⟨b, c, hco, ?_, seek_getLast hsolve, ?_, ?_, ?_⟩
  · obtain ⟨v, -, hstep⟩ := seek_ok hsolve
    rw [sq]
    exact nextY_above hstep
  · intro v hv
    obtain ⟨u, -, hstep⟩ := mem_iterates hv
    exact positiveRoot_le (nextY_rising hc hstep) (nextY_above hstep)
  · -- The start may lie below the root, so the descent begins at the first value.
    rw [maxIterations, iterates]
    cases hfirst : nextY b c d d with
    | error e => exact List.Pairwise.nil
    | ok y₁ =>
        obtain ⟨hbelow, hpair⟩ := hdescend 255 y₁ (nextY_above hfirst)
        dsimp only
        split_ifs with hnear
        · exact List.pairwise_singleton _ _
        · exact List.Pairwise.cons hbelow hpair
  · intro hstart
    rw [sq] at hstart
    exact (hdescend _ d hstart).1

/-- A solve for the second coin of an unbalanced pool. -/
theorem computeY_lands_above_root_sample :
    ∃ b c, coefficients [36, 1] 2 2 1 23 = .ok (b, c) ∧
      c ≤ 2 ^ 2 + (b - 23) * 2 ∧
      (iterates (nextY b c 23) Close maxIterations 23).getLast? = some 2 ∧
      (∀ v ∈ iterates (nextY b c 23) Close maxIterations 23, positiveRoot (b - 23) c ≤ v) ∧
      (iterates (nextY b c 23) Close maxIterations 23).Pairwise (· ≥ ·) ∧
      (c ≤ 23 ^ 2 + (b - 23) * 23 →
        ∀ v ∈ iterates (nextY b c 23) Close maxIterations 23, v ≤ 23) :=
  computeY_lands_above_root (by decide) (by decide) (by decide) (by decide)

end Landing

end LuxPrecompile.StableSwap
