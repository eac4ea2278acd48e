import LuxPrecompile.Inference.Kernels
import LuxPrecompile.Support.DigitRoots

/-!
# The square root of the kernels

`isqrtU64` of `inference/inference.go`.  The first loop finds the highest digit that the root
can have, and every pass of the second one finds the next digit, down to the last.  The sums
and the difference that a pass computes are those of the numbers.
-/

namespace LuxPrecompile.Inference

open Support.DigitRoots

/-! ## The loops -/

/-- The variables of the second loop. -/
structure IsqrtState where
  n : UInt64
  res : UInt64
  bit : UInt64

/-- The second loop from a state. -/
def IsqrtState.result (s : IsqrtState) : UInt64 := isqrtLoop s.n s.res s.bit

/-- One pass of the second loop, if it has not ended. -/
def IsqrtState.next (s : IsqrtState) : Option IsqrtState :=
  if s.bit = 0 then none
  else if s.n ≥ s.res + s.bit then
    some ⟨s.n - (s.res + s.bit), (s.res >>> 1) + s.bit, s.bit >>> 2⟩
  else some ⟨s.n, s.res >>> 1, s.bit >>> 2⟩

/-- The state that the first loop leaves. -/
def isqrtStart (n : UInt64) : IsqrtState := ⟨n, 0, isqrtBit n ((1 : UInt64) <<< (62 : UInt64))⟩

/-- The states that the second loop comes through. -/
inductive IsqrtReached (n : UInt64) : IsqrtState → Prop
  | start : IsqrtReached n (isqrtStart n)
  | pass {s s' : IsqrtState} : IsqrtReached n s → s.next = some s' → IsqrtReached n s'

/-- What a pass computes is what it would compute with numbers of any size. -/
structure IsqrtState.NoWrap (s : IsqrtState) : Prop where
  taken : (s.res + s.bit).toNat = s.res.toNat + s.bit.toNat
  left : s.n ≥ s.res + s.bit → (s.n - (s.res + s.bit)).toNat = s.n.toNat - (s.res + s.bit).toNat
  root : ((s.res >>> 1) + s.bit).toNat = (s.res >>> 1).toNat + s.bit.toNat

theorem IsqrtState.result_of_end {s : IsqrtState} (h : s.next = none) : s.result = s.res := by
  have hbit : s.bit = 0 := by
    by_contra hne
    rw [IsqrtState.next, if_neg hne] at h
    split_ifs at h
  rw [IsqrtState.result, isqrtLoop, if_pos hbit]

theorem IsqrtState.result_next {s s' : IsqrtState} (h : s.next = some s') :
    s.result = s'.result := by
  rw [IsqrtState.next] at h
  by_cases hbit : s.bit = 0
  · rw [if_pos hbit] at h
    cases h
  rw [if_neg hbit] at h
  by_cases hle : s.n ≥ s.res + s.bit
  · rw [if_pos hle, Option.some.injEq] at h
    rw [IsqrtState.result, isqrtLoop, if_neg hbit, if_pos hle, ← h]
    rfl
  · rw [if_neg hle, Option.some.injEq] at h
    rw [IsqrtState.result, isqrtLoop, if_neg hbit, if_neg hle, ← h]
    rfl

/-! ## Digits -/

/-- The bit of the digit before the place `k`; there is none before the last place. -/
def digitBit : ℕ → ℕ
  | 0 => 0
  | k + 1 => 4 ^ k

theorem digitBit_shift (k : ℕ) : digitBit (k + 1) / 4 = digitBit k := by
  rcases k with _ | k
  · rfl
  · rw [digitBit, digitBit, pow_succ, Nat.mul_div_cancel _ (by norm_num)]

theorem toNat_shift_two (x : UInt64) : (x >>> 2).toNat = x.toNat / 4 := by
  rw [UInt64.toNat_shiftRight, Nat.shiftRight_eq_div_pow]
  rfl

theorem toNat_shift_one (x : UInt64) : (x >>> 1).toNat = x.toNat / 2 := by
  rw [UInt64.toNat_shiftRight, Nat.shiftRight_eq_div_pow]
  rfl

/-- A state of the second loop is a root of `N` whose digits from a place on are known. -/
def IsqrtState.Knows (N : ℕ) (s : IsqrtState) (k : ℕ) : Prop :=
  k ≤ 32 ∧ s.bit.toNat = digitBit k ∧ ∃ root, Partial 32 N k root s.n.toNat s.res.toNat

/-- The first loop stops at a digit above which the root has none. -/
theorem isqrtBit_spec {n : UInt64} :
    ∀ {k : ℕ} {bit : UInt64}, k ≤ 32 → bit.toNat = digitBit k → n.toNat < 2 ^ k * 2 ^ k →
      ∃ j ≤ k, (isqrtBit n bit).toNat = digitBit j ∧ n.toNat < 2 ^ j * 2 ^ j := by
  intro k
  induction k with
  | zero =>
      intro bit _ hbit hn
      have hstop : ¬ bit > n := by
        rw [gt_iff_lt, UInt64.lt_iff_toNat_lt, hbit]
        exact Nat.not_lt_zero _
      exact ⟨0, le_rfl, by rw [isqrtBit, if_neg hstop, hbit], hn⟩
  | succ k ih =>
      intro bit hk hbit hn
      by_cases hgt : bit > n
      · have hbelow : n.toNat < 2 ^ k * 2 ^ k := by
          rw [gt_iff_lt, UInt64.lt_iff_toNat_lt, hbit, digitBit, four_pow] at hgt
          exact hgt
        have hshift : (bit >>> 2).toNat = digitBit k := by
          rw [toNat_shift_two, hbit, digitBit_shift]
        obtain ⟨j, hj, hfound⟩ := ih (by omega) hshift hbelow
        refine ⟨j, by omega, ?_⟩
        rw [isqrtBit, if_pos hgt]
        exact hfound
      · exact ⟨k + 1, le_rfl, by rw [isqrtBit, if_neg hgt, hbit], hn⟩

theorem isqrtStart_knows (n : UInt64) : ∃ k, (isqrtStart n).Knows n.toNat k := by
  have hn : n.toNat < 2 ^ 32 * 2 ^ 32 := n.toNat_lt
  have hhighest : ((1 : UInt64) <<< (62 : UInt64)).toNat = digitBit 32 := rfl
  obtain ⟨j, hj, hbit, hbelow⟩ := isqrtBit_spec le_rfl hhighest hn
  exact ⟨j, hj, hbit, 0, Partial.start hbelow hj⟩

section Pass

variable {N k : ℕ} {s s' : IsqrtState}

theorem digitBit_le (hk : k ≤ 32) : digitBit k ≤ 4 ^ 31 := by
  rcases k with _ | k
  · exact Nat.zero_le _
  · exact Nat.pow_le_pow_right (by norm_num) (by omega)

theorem IsqrtState.Knows.noWrap (h : s.Knows N k) : s.NoWrap := by
  obtain ⟨hk, hbit, root, hpartial⟩ := h
  have hres := hpartial.shifted_le
  have hbound := digitBit_le hk
  rw [← hbit] at hbound
  refine ⟨?_, fun hle => UInt64.toNat_sub_of_le _ _ hle, ?_⟩
  · rw [UInt64.toNat_add, Nat.mod_eq_of_lt (by omega)]
  · rw [UInt64.toNat_add, Nat.mod_eq_of_lt (by rw [toNat_shift_one]; omega)]

/-- A state before the last place has a next one, where one more digit is known. -/
theorem IsqrtState.Knows.next (h : s.Knows N (k + 1)) :
    ∃ s', s.next = some s' ∧ s'.Knows N k := by
  have hwrap := h.noWrap
  obtain ⟨hk, hbit, root, hpartial⟩ := h
  have hpos : 0 < s.bit.toNat := by
    rw [hbit, digitBit]
    positivity
  have hne : s.bit ≠ 0 := by
    intro hzero
    rw [hzero] at hpos
    exact absurd hpos (Nat.lt_irrefl 0)
  have hshift : (s.bit >>> 2).toNat = digitBit k := by
    rw [toNat_shift_two, hbit, digitBit_shift]
  have hfour : s.bit.toNat = 4 ^ k := hbit
  by_cases hle : s.n ≥ s.res + s.bit
  · have htaken : s.res.toNat + 4 ^ k ≤ s.n.toNat := by
      rw [ge_iff_le, UInt64.le_iff_toNat_le, hwrap.taken, hfour] at hle
      exact hle
    refine ⟨⟨s.n - (s.res + s.bit), (s.res >>> 1) + s.bit, s.bit >>> 2⟩,
      by rw [IsqrtState.next, if_neg hne, if_pos hle], by omega, hshift, root + 2 ^ k, ?_⟩
    have hone := hpartial.one htaken
    rw [← hfour, ← hwrap.taken, ← hwrap.left hle, ← toNat_shift_one, ← hwrap.root] at hone
    exact hone
  · have hkept : s.n.toNat < s.res.toNat + 4 ^ k := by
      rw [ge_iff_le, UInt64.le_iff_toNat_le, hwrap.taken, hfour] at hle
      exact not_le.mp hle
    refine ⟨⟨s.n, s.res >>> 1, s.bit >>> 2⟩,
      by rw [IsqrtState.next, if_neg hne, if_neg hle], by omega, hshift, root, ?_⟩
    have hzero := hpartial.zero hkept
    rw [← toNat_shift_one] at hzero
    exact hzero

theorem IsqrtState.Knows.ends (h : s.Knows N 0) : s.next = none := by
  have hbit : s.bit = 0 := UInt64.toNat_inj.mp h.2.1
  rw [IsqrtState.next, if_pos hbit]

end Pass

theorem IsqrtReached.knows {n : UInt64} {s : IsqrtState} (h : IsqrtReached n s) :
    ∃ k, s.Knows n.toNat k := by
  induction h with
  | start => exact isqrtStart_knows n
  | pass _ hnext ih =>
      obtain ⟨k, hk⟩ := ih
      rcases k with _ | k
      · rw [hk.ends] at hnext
        cases hnext
      · obtain ⟨s', hs', hknows⟩ := hk.next
        obtain rfl := Option.some.inj (hs'.symm.trans hnext)
        exact ⟨k, hknows⟩

theorem IsqrtReached.ends {n : UInt64} :
    ∀ {k : ℕ} {s : IsqrtState}, IsqrtReached n s → s.Knows n.toNat k →
      ∃ e, IsqrtReached n e ∧ e.next = none ∧ e.Knows n.toNat 0 ∧ e.result = s.result := by
  intro k
  induction k with
  | zero => exact fun {s} hs hknows => ⟨s, hs, hknows.ends, hknows, rfl⟩
  | succ k ih =>
      intro s hs hknows
      obtain ⟨s', hnext, hknows'⟩ := hknows.next
      obtain ⟨e, he, hend, hdone, hresult⟩ := ih (hs.pass hnext) hknows'
      exact ⟨e, he, hend, hdone, hresult.trans (IsqrtState.result_next hnext).symm⟩

/-- The result is the square root rounded down, at the end of a loop in which nothing wraps. -/
theorem isqrtU64_exact (n : UInt64) :
    ((isqrtU64 n).toNat * (isqrtU64 n).toNat ≤ n.toNat ∧
      n.toNat < ((isqrtU64 n).toNat + 1) * ((isqrtU64 n).toNat + 1)) ∧
      (∃ s, IsqrtReached n s ∧ s.next = none ∧ s.res = isqrtU64 n) ∧
        ∀ s, IsqrtReached n s → s.NoWrap := by
  obtain ⟨k, hk⟩ := isqrtStart_knows n
  obtain ⟨e, he, hend, hdone, hresult⟩ := IsqrtReached.ends .start hk
  have hres : e.res = isqrtU64 n := (IsqrtState.result_of_end hend).symm.trans hresult
  refine ⟨?_, ⟨e, he, hend, hres⟩, fun s hs => ?_⟩
  · obtain ⟨-, -, root, hpartial⟩ := hdone
    have hsqrt := hpartial.done
    rw [hres] at hsqrt
    exact hsqrt
  · obtain ⟨k, hknows⟩ := hs.knows
    exact hknows.noWrap

end LuxPrecompile.Inference
