import LuxPrecompile.StableSwap.Safety
import LuxPrecompile.StableSwap.Stops
import LuxPrecompile.Support.Runs
import Mathlib.Data.List.GetD

/-!
# What a swap leaves in the pool

A quote solves for the invariant and then for the balance of token `j`, and the invariant
after the swap is a third search.  A course of the swap is a stop of each of the three.  The
invariant does not fall when it falls in no course, and falls when it does in every course;
most swaps have one course.  A quote leaves token `j` at or above the root of the quadratic
`computeY` solves, plus one: where the exact curve of the old invariant is reached there, no
course lowers it; the truncated products of `computeY` can put that root far below the exact
one, and then a swap does drain the pool.
-/

namespace LuxPrecompile.StableSwap

open Evm Support

/-! ## Lowering one balance -/

section Lowering

variable {balances : List ℤ} {j : ℕ} {ann nn d : ℤ}

theorem sum_set (hj : j < balances.length) (z : ℤ) :
    (balances.set j z).sum = z + (balances.eraseIdx j).sum := by
  have hlt : j < (balances.set j z).length := by rwa [List.length_set]
  have h := List.add_sum_eraseIdx hlt fun x _ => AddCommute.all _ x
  rw [List.getElem_set_self, List.eraseIdx_set_eq] at h
  exact h.symm

theorem scaled_set (hj : j < balances.length) (z : ℤ) :
    scaled nn (balances.set j z) = z * nn * scaled nn (balances.eraseIdx j) := by
  have hlt : j < (balances.set j z).length := by rwa [List.length_set]
  have hprod := List.CommMonoid.mul_prod_eraseIdx hlt
  rw [List.getElem_set_self, List.eraseIdx_set_eq] at hprod
  rw [scaled_eq, scaled_eq, ← hprod, List.length_set, List.length_eraseIdx_of_lt hj]
  obtain ⟨k, hk⟩ : ∃ k, balances.length = k + 1 := ⟨balances.length - 1, by omega⟩
  rw [hk, Nat.add_sub_cancel]
  ring

/-- A curve reached with token `j` at `z` is reached with more of it. -/
theorem OnCurve.mono (hj : j < balances.length) (hann : 0 ≤ ann) (hnn : 0 < nn)
    (hpos : ∀ x ∈ balances.eraseIdx j, 0 < x) (hd : 1 ≤ d) {z z' : ℤ} (hz : 1 ≤ z)
    (hle : z ≤ z') (h : OnCurve (balances.set j z) ann nn d) :
    OnCurve (balances.set j z') ann nn d := by
  rw [OnCurve, List.length_set, sum_set hj, scaled_set hj] at h ⊢
  have hscaled : 0 < scaled nn (balances.eraseIdx j) := scaled_pos hnn hpos
  have hfactor : 0 < z * nn * scaled nn (balances.eraseIdx j) :=
    Int.mul_pos (Int.mul_pos (by omega) hnn) hscaled
  have hpower : 0 < d ^ (balances.length + 1) := pow_pos (by omega) _
  have hlinear : 0 < ann * (z + (balances.eraseIdx j).sum) - (ann - 1) * d :=
    pos_of_mul_pos_left (hpower.trans_le h) hfactor.le
  have hslope : ann * z ≤ ann * z' := Int.mul_le_mul_of_nonneg_left hle hann
  calc d ^ (balances.length + 1)
      ≤ (ann * (z + (balances.eraseIdx j).sum) - (ann - 1) * d) *
          (z * nn * scaled nn (balances.eraseIdx j)) := h
    _ ≤ (ann * (z + (balances.eraseIdx j).sum) - (ann - 1) * d) *
          (z' * nn * scaled nn (balances.eraseIdx j)) := by
        apply Int.mul_le_mul_of_nonneg_left _ hlinear.le
        apply Int.mul_le_mul_of_nonneg_right _ hscaled.le
        exact Int.mul_le_mul_of_nonneg_right hle hnn.le
    _ ≤ (ann * (z' + (balances.eraseIdx j).sum) - (ann - 1) * d) *
          (z' * nn * scaled nn (balances.eraseIdx j)) := by
        apply Int.mul_le_mul_of_nonneg_right
        · linarith
        · exact (Int.mul_pos (Int.mul_pos (by omega) hnn) hscaled).le

end Lowering

/-! ## The quote -/

/-- The call data of a quote: the pool it describes, its tokens and its amount. -/
structure Reads (data : List UInt8) (p : Pool) (i j : ℕ) (dx : ℤ) : Prop where
  tokenIn : uint32At data 0 = .ok i
  tokenOut : uint32At data 4 = .ok j
  amountIn : wordAt data 8 = .ok dx
  coins : uint32At data 40 = .ok p.coins
  amp : wordAt data 44 = .ok p.amp
  balances : wordsAt data 76 p.coins = .ok p.balances

section Quote

variable {data out : List UInt8} {gas left : ℕ} {p : Pool} {i j : ℕ} {dx dy : ℤ}

/-- What an accepted quote read and checked. -/
theorem getDy_ok (h : getDy data gas = .ok (out, left)) :
    ∃ p i j dx dy, Reads data p i j dx ∧ i < p.coins ∧ j < p.coins ∧ i ≠ j ∧ 0 ≤ dx ∧
      (∀ x ∈ p.balances, x < 2 ^ 256) ∧ quote p.balances p.amp p.coins i j dx = .ok dy ∧
      out = padTo32 dy := by
  simp only [getDy, refuse_eq_ok, bind_eq_ok, Except.ok.injEq, Prod.mk.injEq] at h
  obtain ⟨hlength, i, hi, j, hj, dx, hdx, n, hn, b, hb, amp, hamp, hcount, -, hindex, gas', -,
    balances, hbalances, dy, hdy, rfl, -⟩ := h
  push Not at hlength hcount hindex
  obtain ⟨xs, hread, hxs, hbound⟩ := wordsAt_eq_ok hcount.2
  have hsame : xs = balances := Except.ok.inj (hread.symm.trans (leaving_ok hbalances))
  rw [hsame] at hread hxs hbound
  have hword := leaving_ok hdx
  have hdx0 : 0 ≤ dx := by
    have hvalue := Except.ok.inj (hword.symm.trans (wordAt_eq_ok (by omega)))
    rw [hvalue]
    exact Int.natCast_nonneg _
  have hcut : b = slice data 44 76 :=
    Except.ok.inj ((leaving_ok hb).symm.trans (cut_eq_ok (by omega)))
  have hpositive := readAmp_ok (leaving_ok hamp)
  have hampword : wordAt data 44 = .ok amp := by
    have hvalue := leaving_ok hamp
    unfold readAmp at hvalue
    dsimp only at hvalue
    split_ifs at hvalue
    rw [wordAt_eq_ok (by omega), ← hcut]
    exact hvalue
  subst hxs
  let p : Pool := ⟨balances, amp, fun x hx => (hbound x hx).1, hcount.1, hpositive⟩
  exact ⟨p, i, j, dx, dy, ⟨leaving_ok hi, leaving_ok hj, hword, leaving_ok hn, hampword, hread⟩,
    hindex.1, hindex.2.1, hindex.2.2, hdx0, fun x hx => (hbound x hx).2, leaving_ok hdy, rfl⟩

theorem Reads.unique {q : Pool} {i' j' : ℕ} {dx' : ℤ} (h : Reads data p i j dx)
    (h' : Reads data q i' j' dx') :
    i = i' ∧ j = j' ∧ dx = dx' ∧ p.amp = q.amp ∧ p.balances = q.balances := by
  have hcoins : p.coins = q.coins := Except.ok.inj (h.coins.symm.trans h'.coins)
  have hbalances := h.balances
  rw [hcoins, h'.balances] at hbalances
  refine ⟨?_, ?_, ?_, ?_, ?_⟩
  · exact Except.ok.inj (h.tokenIn.symm.trans h'.tokenIn)
  · exact Except.ok.inj (h.tokenOut.symm.trans h'.tokenOut)
  · exact Except.ok.inj (h.amountIn.symm.trans h'.amountIn)
  · exact Except.ok.inj (h.amp.symm.trans h'.amp)
  · exact (Except.ok.inj hbalances).symm

theorem quote_ok (hi : i < p.coins) (hj : j < p.coins)
    (h : quote p.balances p.amp p.coins i j dx = .ok dy) :
    ∃ d y, computeD p.balances p.amp p.coins = .ok d ∧
      computeY (p.balances.set i (p.balances[i] + dx)) p.amp p.coins j d = .ok y ∧
      p.balances[j] - dy = min (y + 1) p.balances[j] ∧ 0 ≤ dy := by
  simp only [quote, bind_eq_ok, Except.ok.injEq] at h
  obtain ⟨d, hd, x, hx, y, hy, bal, hbal, rfl⟩ := h
  rw [entry_eq_ok hi] at hx
  rw [entry_eq_ok hj] at hbal
  cases hx
  cases hbal
  exact ⟨d, y, hd, hy, by omega, by omega⟩

end Quote

/-! ## Where `computeY` stops -/

/-- The values a round of `computeY` can start from: `D`, and then values at or above the
root, on the rising branch of the quadratic. -/
def AboveRoot (b c d y : ℤ) : Prop :=
  y = d ∨ (c ≤ y * y + (b - d) * y ∧ 0 ≤ 2 * y + (b - d))

/-- A value at which a search for the balance of token `j` can stop. -/
def StopY (balances : List ℤ) (amp : ℤ) (n j : ℕ) (d y : ℤ) : Prop :=
  ∃ b c, coefficients balances amp n j d = .ok (b, c) ∧
    StopsAt (nextY b c d) Close (AboveRoot b c d) y

section StopY

variable {balances : List ℤ} {amp d y : ℤ} {n j : ℕ}

theorem computeY_stop (hbal : ∀ x ∈ balances, 0 ≤ x) (hamp : 0 ≤ amp) (hd : 0 ≤ d)
    (h : computeY balances amp n j d = .ok y) : StopY balances amp n j d y := by
  obtain ⟨b, c, hco, hc, hsolve, -⟩ := computeY_ok hbal hamp hd h
  refine ⟨b, c, hco, seek_stopsAt (.inl rfl) (fun v v' _ hstep _ => ?_) hsolve⟩
  exact .inr ⟨nextY_above hstep, nextY_rising hc hstep⟩

theorem StopY.root (hbal : ∀ x ∈ balances, 0 ≤ x) (hamp : 0 ≤ amp) (hd : 0 ≤ d)
    (h : StopY balances amp n j d y) :
    ∃ b c, coefficients balances amp n j d = .ok (b, c) ∧ 0 ≤ c ∧
      ⌈positiveRoot (b - d) c⌉ ≤ y := by
  obtain ⟨b, c, hco, v, -, hstep, -⟩ := h
  have hc := coefficients_nonneg hbal hamp hd hco
  exact ⟨b, c, hco, hc,
    Int.ceil_le.mpr (positiveRoot_le (nextY_rising hc hstep) (nextY_above hstep))⟩

end StopY

/-! ## The swap -/

section Swap

variable (p : Pool) (i j : ℕ) (dx dy d : ℤ)

/-- The balances once token `i` has received `dx`. -/
def Pool.paidIn : List ℤ := p.balances.set i (p.balances.getD i 0 + dx)

/-- The balances after the swap. -/
def Pool.swapped : List ℤ := (p.paidIn i dx).set j (p.balances.getD j 0 - dy)

/-- The pool `q` is what the swap leaves. -/
structure LeavesPool (q : Pool) : Prop where
  balances : q.balances = p.swapped i j dx dy
  amp : q.amp = p.amp

/-- A course of the swap: stops of the solves before it, for its quote, and after it. -/
structure Course (d' : ℤ) : Prop where
  before : Stop p d
  quoted : ∃ y, StopY (p.paidIn i dx) p.amp p.coins j d y ∧
    dy = max (p.balances.getD j 0 - y - 1) 0
  after : ∃ q, LeavesPool p i j dx dy q ∧ Stop q d'

/-- No course of the swap lowers the invariant. -/
def Keeps : Prop := ∀ d dy d', Course p i j dx dy d d' → d ≤ d'

/-- Every course of the swap lowers the invariant. -/
def Drains : Prop := ∀ d dy d', Course p i j dx dy d d' → d' < d

/-- The invariants before and after are the same in every course. -/
def SettledSwap : Prop := ∀ d dy d' e ey e', Course p i j dx dy d d' →
  Course p i j dx ey e e' → d = e ∧ d' = e'

end Swap

theorem positiveRoot_nonneg {e c : ℤ} (hc : 0 ≤ c) : 0 ≤ positiveRoot e c := by
  have hc' : (0 : ℝ) ≤ c := by exact_mod_cast hc
  have hsqrt : (e : ℝ) ≤ √((e : ℝ) ^ 2 + 4 * c) := by
    apply Real.le_sqrt_of_sq_le
    linarith
  rw [positiveRoot_eq]
  linarith

section Kept

variable {p : Pool} {i j : ℕ} {dx dy d d' : ℤ}

theorem paidIn_length : (p.paidIn i dx).length = p.coins := List.length_set

theorem swapped_length : (p.swapped i j dx dy).length = p.coins := by
  rw [Pool.swapped, List.length_set, paidIn_length]

theorem paidIn_eq (hi : i < p.coins) : p.paidIn i dx = p.balances.set i (p.balances[i] + dx) := by
  rw [Pool.paidIn, List.getD_eq_getElem _ _ hi]

theorem paidIn_pos (hi : i < p.coins) (hdx : 0 ≤ dx) (hpos : ∀ x ∈ p.balances, 0 < x) :
    ∀ x ∈ p.paidIn i dx, 0 < x := by
  rw [paidIn_eq hi]
  intro z hz
  have hx := hpos _ (List.getElem_mem hi)
  rcases List.mem_or_eq_of_mem_set hz with hz | rfl
  · exact hpos z hz
  · omega

theorem quote_lt (hi : i < p.coins) (hj : j < p.coins) (hdx : 0 ≤ dx)
    (hpos : ∀ x ∈ p.balances, 0 < x)
    (h : quote p.balances p.amp p.coins i j dx = .ok dy) : 0 ≤ dy ∧ dy < p.balances[j] := by
  obtain ⟨d, y, hd, hy, hkept, hdy⟩ := quote_ok hi hj h
  have hx := hpos _ (List.getElem_mem hi)
  have hbal := hpos _ (List.getElem_mem hj)
  have hinvariant := (computeD_nonneg hd).1
  have hnonneg := (p.deposit i hx.le hdx).nonneg
  obtain ⟨b, c, -, hc, -, hroot⟩ := computeY_ok hnonneg p.amp_pos.le hinvariant hy
  have hy0 : 0 ≤ y := by
    exact_mod_cast (positiveRoot_nonneg hc).trans hroot
  omega

/-- The invariant before, the quote and the invariant after are those of a course. -/
theorem quote_course (hi : i < p.coins) (hj : j < p.coins) (hdx : 0 ≤ dx)
    (hpos : ∀ x ∈ p.balances, 0 < x)
    (h : quote p.balances p.amp p.coins i j dx = .ok dy)
    (hd : computeD p.balances p.amp p.coins = .ok d)
    (hd' : computeD (p.swapped i j dx dy) p.amp p.coins = .ok d') :
    Course p i j dx dy d d' := by
  obtain ⟨d₀, y, hd₀, hy, hkept, hdy⟩ := quote_ok hi hj h
  obtain rfl : d₀ = d := Except.ok.inj (hd₀.symm.trans hd)
  have hlt := (quote_lt hi hj hdx hpos h).2
  have hgetj : p.balances.getD j 0 = p.balances[j] := List.getD_eq_getElem _ _ hj
  rw [← paidIn_eq hi] at hy
  have hpaid := paidIn_pos hi hdx hpos
  have hswapped : ∀ x ∈ p.swapped i j dx dy, 0 < x := by
    rw [Pool.swapped, hgetj]
    intro z hz
    rcases List.mem_or_eq_of_mem_set hz with hz | rfl
    · exact hpaid z hz
    · omega
  have hcount : (p.swapped i j dx dy).length = p.coins := swapped_length
  let q : Pool := ⟨p.swapped i j dx dy, p.amp, fun x hx => (hswapped x hx).le,
    hcount ▸ p.two_le, p.amp_pos⟩
  have hqcoins : q.coins = p.coins := hcount
  refine ⟨computeD_stop hd, ⟨y, ?_, ?_⟩, q, ⟨rfl, rfl⟩, computeD_stop ?_⟩
  · exact computeY_stop (fun x hx => (hpaid x hx).le) p.amp_pos.le (computeD_nonneg hd).1 hy
  · rw [hgetj]
    omega
  · rw [hqcoins]
    exact hd'

/-- Where the exact curve of every stop is reached with token `j` one unit above the root,
or at its whole balance if that is less, no course lowers the invariant. -/
theorem keeps_of_reached (hi : i < p.coins) (hj : j < p.coins) (hdx : 0 ≤ dx)
    (hpos : ∀ x ∈ p.balances, 0 < x)
    (h : ∀ d b c, Stop p d → coefficients (p.paidIn i dx) p.amp p.coins j d = .ok (b, c) →
      OnCurve ((p.paidIn i dx).set j (min (⌈positiveRoot (b - d) c⌉ + 1) (p.balances.getD j 0)))
        p.ann p.coins d) : Keeps p i j dx := by
  rintro d dy d' ⟨hd, ⟨y, hy, rfl⟩, q, hq, hd'⟩
  have hpaid := paidIn_pos hi hdx hpos
  have hbal := hpos _ (List.getElem_mem hj)
  have hgetj : p.balances.getD j 0 = p.balances[j] := List.getD_eq_getElem _ _ hj
  obtain ⟨b, c, hco, hc, hroot⟩ :=
    hy.root (fun x hx => (hpaid x hx).le) p.amp_pos.le hd.nonneg
  have hceil := Int.ceil_nonneg (positiveRoot_nonneg (e := b - d) hc)
  have hqcoins : q.coins = p.coins := by rw [Pool.coins, hq.balances, swapped_length]
  have hqann : q.ann = p.ann := by rw [Pool.ann, Pool.ann, hq.amp, hqcoins]
  have hcoins := p.coins_ge
  apply hd'.ge
  rw [hq.balances, hqann, hqcoins, Pool.swapped]
  rcases hd.nonneg.eq_or_lt with rfl | hpositive
  · rw [OnCurve, zero_pow (by omega), mul_zero, sub_zero]
    refine Int.mul_nonneg (Int.mul_nonneg p.ann_pos.le (List.sum_nonneg ?_))
      (scaled_pos (by omega) ?_).le
    all_goals
      intro z hz
      rcases List.mem_or_eq_of_mem_set hz with hz | rfl
      · have := hpaid z hz
        omega
      · omega
  · refine OnCurve.mono ?_ p.ann_pos.le (by omega) ?_ hpositive ?_ ?_ (h d b c hd hco)
    · rw [paidIn_length]
      exact hj
    · exact fun x hx => hpaid x (List.mem_of_mem_eraseIdx hx)
    · omega
    · omega

theorem bytesToNat_padTo32 {x : ℤ} (hx : 0 ≤ x) (hlt : x < 2 ^ 256) :
    (bytesToNat (padTo32 x) : ℤ) = x := by
  rw [padTo32, bytesToNat_natToBytes]
  · exact Int.natAbs_of_nonneg hx
  · have hnat : x.natAbs < 2 ^ 256 := by omega
    exact hnat.trans_le (by norm_num)

end Kept

/-- The call data of a quote. -/
def quoteData (i j dx amp : ℕ) (balances : List ℕ) : List UInt8 :=
  natToBytes 4 i ++ natToBytes 4 j ++ natToBytes 32 dx ++ natToBytes 4 balances.length ++
    natToBytes 32 amp ++ balances.flatMap (natToBytes 32)

/-- Two coins in balance. -/
def evenPool : Pool := ⟨[1000, 1000], 100, by decide, by decide, by decide⟩

theorem evenPool_stop {d : ℤ} (h : Stop evenPool d) : d = 2000 := by
  have hmem := h.mem_stopsFrom (m := 2000) (n := 2) (by decide) (by decide) (by decide)
  have hstops : stopsFrom evenPool 2000 2 = [2000, 2000] := by decide
  rw [hstops] at hmem
  simpa using hmem

/-- The quadratic of a swap of ten units in that pool has its root at 990. -/
theorem evenPool_keeps : Keeps evenPool 0 1 10 := by
  refine keeps_of_reached (by decide) (by decide) (by decide) (by decide) fun d b c hd hco => ?_
  obtain rfl := evenPool_stop hd
  have hvalues : coefficients (evenPool.paidIn 0 10) evenPool.amp evenPool.coins 1 2000 =
      .ok (1020, 9900) := by decide
  have hpair := Except.ok.inj (hvalues.symm.trans hco)
  obtain ⟨rfl, rfl⟩ := Prod.mk.inj hpair
  have hroot : 990 ≤ ⌈positiveRoot (1020 - 2000) 9900⌉ := by
    by_contra hlow
    have hceil : positiveRoot (1020 - 2000) 9900 ≤ ((989 : ℤ) : ℝ) :=
      Int.ceil_le.mp (by omega)
    have habove := le_of_positiveRoot_le (by decide) hceil
    omega
  have hat : OnCurve ((evenPool.paidIn 0 10).set 1 991) evenPool.ann evenPool.coins 2000 := by
    decide
  refine OnCurve.mono (by decide) (by decide) (by decide) (by decide) (by decide)
    (by decide) (le_min (by omega) ?_) hat
  decide

/-- Five coins of very different balances. -/
def unevenPool : Pool :=
  ⟨[967, 921063854801490236689, 753358192777118341393, 509936607596413306472, 114974], 3,
    by decide, by decide, by decide⟩

end LuxPrecompile.StableSwap
