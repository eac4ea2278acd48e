import Mathlib.Algebra.BigOperators.Intervals
import Mathlib.Algebra.Order.Floor.Div
import Mathlib.Tactic.Ring
import LuxPrecompile.Evm.Bytes

/-!
# Fixed-point arithmetic

`math/contract.go`: the quotient `mulDiv` and the exponential series `exp` of a Q128.128
number.  The code adds the floored terms of the series up to the thirtieth power; `expSeries`
is the same series followed until a term is zero.  Both depend monotonically on the argument,
and so does what the cut-off leaves out, which decides where the two are close.
-/

namespace LuxPrecompile.Math

open Evm

/-- The errors of the precompile. -/
inductive MathError where
  | invalidInput
  | divByZero
  | overflow
  deriving DecidableEq, Repr

/-- `q128`: one in Q128.128. -/
def q128 : ℕ := 2 ^ 128

def maxU256 : ℕ := 2 ^ 256 - 1

def padTo32 (b : List UInt8) : List UInt8 :=
  if 32 ≤ b.length then b.drop (b.length - 32) else leftPadBytes b 32

/-- The range check `mulDiv` and `exp` end with. -/
def checkedResult (result : ℕ) : Except MathError (List UInt8) :=
  if maxU256 < result then .error .overflow else .ok (padTo32 (bigBytes result))

def mulDiv (data : List UInt8) (roundUp : Bool) : Except MathError (List UInt8) :=
  if data.length < 96 then .error .invalidInput
  else
    let a := bytesToNat (data.take 32)
    let b := bytesToNat (slice data 32 64)
    let d := bytesToNat (slice data 64 96)
    if d = 0 then .error .divByZero
    else
      let result := if roundUp then a * b + (d - 1) else a * b
      checkedResult (result / d)

/-- The loop of `exp`: the next term is `term * x / (n * 2^128)`, and a zero term ends it. -/
def expLoop (x : ℕ) : ℕ → ℕ → ℕ → ℕ → ℕ
  | 0, _, result, _ => result
  | rounds + 1, n, result, term =>
      let term := term * x / (n * q128)
      if term = 0 then result else expLoop x rounds (n + 1) (result + term) term

def exp (data : List UInt8) : Except MathError (List UInt8) :=
  if data.length < 32 then .error .invalidInput
  else
    let x := bytesToNat (data.take 32)
    checkedResult (expLoop x 30 1 q128 q128)

/-! ## The series of floored terms -/

/-- The `n`-th floored term of the series. -/
def expTerm (x : ℕ) : ℕ → ℕ
  | 0 => q128
  | n + 1 => expTerm x n * x / ((n + 1) * q128)

/-- The sum of the first `count` terms. -/
def expSum (x count : ℕ) : ℕ := ∑ n ∈ Finset.range count, expTerm x n

@[simp]
theorem expSum_succ (x count : ℕ) :
    expSum x (count + 1) = expSum x count + expTerm x count :=
  Finset.sum_range_succ _ _

theorem expTerm_mono {x y : ℕ} (h : x ≤ y) (n : ℕ) : expTerm x n ≤ expTerm y n := by
  induction n with
  | zero => exact le_rfl
  | succ n ih => exact Nat.div_le_div_right (Nat.mul_le_mul ih h)

theorem expTerm_eq_zero_of_le {x n m : ℕ} (h : expTerm x n = 0) (hle : n ≤ m) :
    expTerm x m = 0 := by
  induction m, hle using Nat.le_induction with
  | base => exact h
  | succ m _ ih => simp [expTerm, ih]

theorem expSum_eq_of_le {x n m : ℕ} (h : expTerm x n = 0) (hle : n ≤ m) :
    expSum x m = expSum x n := by
  induction m, hle using Nat.le_induction with
  | base => rfl
  | succ m hle ih => rw [expSum_succ, ih, expTerm_eq_zero_of_le h hle, add_zero]

theorem expSum_le_of_le (x : ℕ) {n m : ℕ} (hle : n ≤ m) : expSum x n ≤ expSum x m := by
  induction m, hle using Nat.le_induction with
  | base => exact le_rfl
  | succ m _ ih =>
      rw [expSum_succ]
      omega

theorem expSum_gap_mono {x y n m : ℕ} (hxy : x ≤ y) (hle : n ≤ m) :
    expSum x m + expSum y n ≤ expSum y m + expSum x n := by
  induction m, hle using Nat.le_induction with
  | base => rw [add_comm]
  | succ m _ ih =>
      have hterm := expTerm_mono hxy m
      rw [expSum_succ, expSum_succ]
      omega

theorem expSum_mono {x y : ℕ} (hxy : x ≤ y) (n : ℕ) : expSum x n ≤ expSum y n := by
  simpa [expSum] using expSum_gap_mono hxy (Nat.zero_le n)

theorem expTerm_succ_lt {x n : ℕ} (hn : x ≤ n * q128) (hpos : 0 < expTerm x n) :
    expTerm x (n + 1) < expTerm x n := by
  have hq : 0 < q128 := by decide
  have hx : x < (n + 1) * q128 := by
    rw [Nat.succ_mul]
    omega
  rw [expTerm, Nat.div_lt_iff_lt_mul (by omega)]
  exact Nat.mul_lt_mul_of_pos_left hx hpos

/-- Every series ends. -/
theorem exists_expTerm_eq_zero (x : ℕ) : ∃ n, expTerm x n = 0 := by
  have hq : 0 < q128 := by decide
  have hshrink : ∀ k, expTerm x (x + k) ≤ expTerm x x - k := by
    intro k
    induction k with
    | zero => exact le_rfl
    | succ k ih =>
        rcases Nat.eq_zero_or_pos (expTerm x (x + k)) with hzero | hpos
        · have hnext := expTerm_eq_zero_of_le hzero (Nat.le_succ (x + k))
          rw [← Nat.add_assoc, hnext]
          exact Nat.zero_le _
        · have hle : x ≤ (x + k) * q128 :=
            (Nat.le_add_right x k).trans (Nat.le_mul_of_pos_right _ hq)
          have hnext := expTerm_succ_lt hle hpos
          rw [← Nat.add_assoc]
          omega
  refine ⟨x + expTerm x x, ?_⟩
  have hend := hshrink (expTerm x x)
  omega

/-- The series of floored terms, followed until a term is zero. -/
def expSeries (x : ℕ) : ℕ := expSum x (Nat.find (exists_expTerm_eq_zero x))

theorem expSeries_eq {x n : ℕ} (h : expTerm x n = 0) : expSeries x = expSum x n :=
  (expSum_eq_of_le (Nat.find_spec (exists_expTerm_eq_zero x)) (Nat.find_min' _ h)).symm

theorem expSeries_eq_expSum (x least : ℕ) : ∃ m, least ≤ m ∧ expSeries x = expSum x m := by
  obtain ⟨n, hn⟩ := exists_expTerm_eq_zero x
  exact ⟨max least n, le_max_left _ _, expSeries_eq (expTerm_eq_zero_of_le hn (le_max_right _ _))⟩

theorem expLoop_eq (x rounds n : ℕ) :
    expLoop x rounds (n + 1) (expSum x (n + 1)) (expTerm x n) = expSum x (n + 1 + rounds) := by
  induction rounds generalizing n with
  | zero => rfl
  | succ rounds ih =>
      have hterm : expTerm x n * x / ((n + 1) * q128) = expTerm x (n + 1) := rfl
      simp only [expLoop, hterm]
      split_ifs with hzero
      · rw [expSum_eq_of_le hzero (Nat.le_add_right _ _)]
      · rw [← expSum_succ, ih, Nat.add_right_comm (n + 1) 1 rounds]
        rfl

theorem expLoop_start (x rounds : ℕ) :
    expLoop x rounds 1 q128 q128 = expSum x (rounds + 1) := by
  have h := expLoop_eq x rounds 0
  have hone : expSum x (0 + 1) = q128 := by simp [expSum, expTerm]
  rw [hone, Nat.add_comm _ rounds] at h
  exact h

/-! ## Where the cut-off is harmless -/

/-- The largest argument whose terms past the thirtieth add up to at most 30 units. -/
def lastClose : ℕ := 269791878586712306335309733821954521376

/-- The least argument whose first thirty-one terms leave 256 bits. -/
def firstOverflow : ℕ := 78526707197422640107033825909581871893796

theorem expSum_lastClose : expSum lastClose 41 = expSum lastClose 31 + 30 := by
  rw [← expLoop_start lastClose 40, ← expLoop_start lastClose 30]
  decide

theorem expTerm_lastClose : expTerm lastClose 41 = 0 := by decide

theorem expSum_lastClose_succ : expSum (lastClose + 1) 31 + 31 ≤ expSum (lastClose + 1) 41 := by
  rw [← expLoop_start (lastClose + 1) 40, ← expLoop_start (lastClose + 1) 30]
  decide

theorem expSum_lastClose_lt : expSum lastClose 41 < 2 ^ 256 := by
  rw [← expLoop_start lastClose 40]
  decide

theorem le_expSum_firstOverflow : 2 ^ 256 ≤ expSum firstOverflow 31 := by
  rw [← expLoop_start firstOverflow 30]
  decide

theorem expSum_firstOverflow_pred : expSum (firstOverflow - 1) 31 < 2 ^ 256 := by
  rw [← expLoop_start (firstOverflow - 1) 30]
  decide

theorem expSum_le_expSeries (x n : ℕ) : expSum x n ≤ expSeries x := by
  obtain ⟨m, hm, heq⟩ := expSeries_eq_expSum x n
  rw [heq]
  exact expSum_le_of_le x hm

/-- The sum of the code is within 30 units of the series exactly up to `lastClose`. -/
theorem expSeries_close_iff (x : ℕ) : expSeries x ≤ expSum x 31 + 30 ↔ x ≤ lastClose := by
  obtain ⟨m, hm, heq⟩ := expSeries_eq_expSum x 41
  rw [heq]
  constructor
  · intro hclose
    by_contra hlt
    have hgap := expSum_gap_mono (Nat.lt_of_not_le hlt) (show 31 ≤ 41 by decide)
    have hsucc := expSum_lastClose_succ
    have hlong := expSum_le_of_le x hm
    rw [Nat.succ_eq_add_one] at hgap
    omega
  · intro hle
    have hgap := expSum_gap_mono hle (show 31 ≤ m by omega)
    rw [expSum_eq_of_le expTerm_lastClose hm, expSum_lastClose] at hgap
    omega

theorem expSum_lt_iff (x : ℕ) : expSum x 31 < 2 ^ 256 ↔ x < firstOverflow := by
  constructor
  · intro hlt
    by_contra hle
    have hmono := expSum_mono (Nat.le_of_not_lt hle) 31
    have hover := le_expSum_firstOverflow
    omega
  · intro hlt
    exact (expSum_mono (Nat.le_pred_of_lt hlt) 31).trans_lt expSum_firstOverflow_pred

theorem expSeries_lt_of_le {x : ℕ} (h : x ≤ lastClose) : expSeries x < 2 ^ 256 := by
  obtain ⟨m, hm, heq⟩ := expSeries_eq_expSum x 41
  rw [heq]
  have hmono := expSum_mono h m
  rw [expSum_eq_of_le expTerm_lastClose hm] at hmono
  exact hmono.trans_lt expSum_lastClose_lt

/-! ## What a call returns -/

theorem bytesToNat_padTo32_bigBytes {n : ℕ} (h : n ≤ maxU256) :
    bytesToNat (padTo32 (bigBytes n)) = n := by
  have hlt : n < 256 ^ 32 := by
    have hmax : maxU256 < 256 ^ 32 := by decide
    omega
  have hlen := bigBytes_length_le_iff.mpr hlt
  unfold padTo32
  split_ifs with h32
  · rw [show (bigBytes n).length - 32 = 0 by omega, List.drop_zero, bytesToNat_bigBytes]
  · rw [bytesToNat_leftPadBytes, bytesToNat_bigBytes]

/-- A result is returned exactly when it fits a word, and then in full. -/
theorem checkedResult_eq_ok_iff {result : ℕ} {out : List UInt8} :
    checkedResult result = .ok out ↔ result < 2 ^ 256 ∧ out = padTo32 (bigBytes result) := by
  have hmax : maxU256 = 2 ^ 256 - 1 := rfl
  unfold checkedResult
  split_ifs with h
  · constructor
    · intro hout
      cases hout
    · intro hout
      omega
  · constructor
    · intro hout
      exact ⟨by omega, (Except.ok.inj hout).symm⟩
    · intro hout
      rw [hout.2]

theorem checkedResult_eq_overflow_iff {result : ℕ} :
    checkedResult result = .error .overflow ↔ 2 ^ 256 ≤ result := by
  have hmax : maxU256 = 2 ^ 256 - 1 := rfl
  unfold checkedResult
  split_ifs with h
  · simp
    omega
  · simp
    omega

theorem checkedResult_value {result : ℕ} {out : List UInt8}
    (h : checkedResult result = .ok out) : bytesToNat out = result := by
  obtain ⟨hlt, rfl⟩ := checkedResult_eq_ok_iff.mp h
  have hmax : maxU256 = 2 ^ 256 - 1 := rfl
  exact bytesToNat_padTo32_bigBytes (by omega)

theorem exp_eq {data : List UInt8} (h : 32 ≤ data.length) :
    exp data = checkedResult (expSum (bytesToNat (data.take 32)) 31) := by
  simp only [exp, if_neg (Nat.not_lt.mpr h), expLoop_start]

/-- What is expected of one call: overflow where the series leaves 256 bits, and elsewhere a
value within 30 units of it. -/
structure ExpSound (data : List UInt8) : Prop where
  overflow : 2 ^ 256 ≤ expSeries (bytesToNat (data.take 32)) → exp data = .error .overflow
  close : expSeries (bytesToNat (data.take 32)) < 2 ^ 256 →
    ∃ out, exp data = .ok out ∧
      bytesToNat out ≤ expSeries (bytesToNat (data.take 32)) + 30 ∧
      expSeries (bytesToNat (data.take 32)) ≤ bytesToNat out + 30

theorem expSound_iff {data : List UInt8} (h : 32 ≤ data.length) :
    ExpSound data ↔
      bytesToNat (data.take 32) ≤ lastClose ∨ firstOverflow ≤ bytesToNat (data.take 32) := by
  have hexp := exp_eq h
  generalize hx : bytesToNat (data.take 32) = x at hexp
  constructor
  · intro hsound
    by_contra hbetween
    rw [not_or, ← expSeries_close_iff, @Nat.not_le firstOverflow, ← expSum_lt_iff] at hbetween
    have hok := checkedResult_eq_ok_iff.mpr ⟨hbetween.2, rfl⟩
    rw [← hexp] at hok
    rcases Nat.lt_or_ge (expSeries x) (2 ^ 256) with hlt | hge
    · obtain ⟨out, hout, -, hclose⟩ := hsound.close (by rw [hx]; exact hlt)
      rw [hexp] at hout
      rw [hx, checkedResult_value hout] at hclose
      exact hbetween.1 hclose
    · have hover := hsound.overflow (by rw [hx]; exact hge)
      rw [hok] at hover
      cases hover
  · rintro (hle | hge)
    · have hlt := expSeries_lt_of_le hle
      have hsum := expSum_le_expSeries x 31
      refine ⟨fun hge => ?_, fun _ => ?_⟩
      · rw [hx] at hge
        omega
      · have hok := checkedResult_eq_ok_iff.mpr ⟨hsum.trans_lt hlt, rfl⟩
        refine ⟨_, hexp.trans hok, ?_, ?_⟩
        · rw [hx, checkedResult_value hok]
          omega
        · rw [hx, checkedResult_value hok]
          exact (expSeries_close_iff x).mpr hle
    · have hover : 2 ^ 256 ≤ expSum x 31 := by
        rw [← Nat.not_lt, expSum_lt_iff, Nat.not_lt]
        exact hge
      refine ⟨fun _ => ?_, fun hlt => ?_⟩
      · rw [hexp]
        exact checkedResult_eq_overflow_iff.mpr hover
      · rw [hx] at hlt
        have hsum := expSum_le_expSeries x 31
        omega

/-- The returned values grow with the argument. -/
theorem exp_mono {data data' out out' : List UInt8} (hdata : exp data = .ok out)
    (hdata' : exp data' = .ok out')
    (hle : bytesToNat (data.take 32) ≤ bytesToNat (data'.take 32)) :
    bytesToNat out ≤ bytesToNat out' := by
  have hlong : ∀ {bs res : List UInt8}, exp bs = .ok res → 32 ≤ bs.length := by
    intro bs res hok
    by_contra hshort
    rw [exp, if_pos (Nat.lt_of_not_le hshort)] at hok
    cases hok
  rw [exp_eq (hlong hdata)] at hdata
  rw [exp_eq (hlong hdata')] at hdata'
  rw [checkedResult_value hdata, checkedResult_value hdata']
  exact expSum_mono hle 31

/-- The exponential is monotone wherever it returns; it is close to the series, and refuses what
the series cannot fit, exactly outside the gap between `lastClose` and `firstOverflow`. -/
theorem exp_monotone_and_sound_iff (data data' : List UInt8) :
    (∀ out out', exp data = .ok out → exp data' = .ok out' →
      bytesToNat (data.take 32) ≤ bytesToNat (data'.take 32) →
      bytesToNat out ≤ bytesToNat out') ∧
    (32 ≤ data.length →
      (ExpSound data ↔ bytesToNat (data.take 32) ≤ lastClose ∨
        firstOverflow ≤ bytesToNat (data.take 32))) :=
  ⟨fun _ _ hdata hdata' hle => exp_mono hdata hdata' hle, expSound_iff⟩

/-- At one the terms past the cut-off still add up to thousands of units, and at one hundred a
value is returned for a series that left 256 bits long before. -/
theorem exp_unrelated :
    ¬ ExpSound (natToBytes 32 q128) ∧
      (∃ out, exp (natToBytes 32 (100 * q128)) = .ok out) ∧
      2 ^ 256 ≤ expSeries (100 * q128) := by
  have hdata : ∀ n, n < 256 ^ 32 → bytesToNat ((natToBytes 32 n).take 32) = n := by
    intro n hn
    rw [List.take_of_length_le (by rw [natToBytes_length]), bytesToNat_natToBytes hn]
  refine ⟨?_, ?_, ?_⟩
  · rw [expSound_iff (by rw [natToBytes_length]), hdata _ (by decide)]
    decide
  · refine ⟨padTo32 (bigBytes (expSum (100 * q128) 31)), ?_⟩
    rw [exp_eq (by rw [natToBytes_length]), hdata _ (by decide), checkedResult_eq_ok_iff]
    exact ⟨(expSum_lt_iff _).mpr (by decide), rfl⟩
  · refine le_trans ?_ (expSum_le_expSeries (100 * q128) 101)
    rw [← expLoop_start _ 100]
    decide +kernel

end LuxPrecompile.Math
