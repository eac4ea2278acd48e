import Mathlib.Tactic

/-!
# Square roots digit by digit

The square root of a number is found by its binary digits, the highest first.  The digits
below the place `k` are still zero; what is left of the number after the square of the root is
carried along with the root, shifted by `k` places, so that one sum is what the next digit
takes off.
-/

namespace LuxPrecompile.Support.DigitRoots

theorem four_pow (k : ℕ) : 4 ^ k = 2 ^ k * 2 ^ k := by
  rw [← Nat.mul_pow]

/-- The digits from the place `k` on are those of the root of `N`, which has at most `w`
digits: `n` is what its square leaves of `N`, and `res` is the root shifted. -/
structure Partial (w N k root n res : ℕ) : Prop where
  remainder : n + root * root = N
  shifted : res = root * 2 ^ k
  below : N < (root + 2 ^ k) * (root + 2 ^ k)
  fits : root + 2 ^ k ≤ 2 ^ w

/-- No digit is known of a number whose root has at most `k` digits. -/
theorem Partial.start {w N k : ℕ} (hN : N < 2 ^ k * 2 ^ k) (hk : k ≤ w) :
    Partial w N k 0 N 0 where
  remainder := by rw [Nat.zero_mul, Nat.add_zero]
  shifted := (Nat.zero_mul _).symm
  below := by
    rw [Nat.zero_add]
    exact hN
  fits := by
    rw [Nat.zero_add]
    exact Nat.pow_le_pow_right (by norm_num) hk

section Step

variable {w N k root n res : ℕ}

theorem Partial.square_next (h : Partial w N (k + 1) root n res) :
    (root + 2 ^ k) * (root + 2 ^ k) = root * root + (res + 4 ^ k) := by
  rw [h.shifted, four_pow, pow_succ]
  ring

theorem Partial.half_shifted (h : Partial w N (k + 1) root n res) : res / 2 = root * 2 ^ k := by
  rw [h.shifted, pow_succ, ← Nat.mul_assoc, Nat.mul_div_cancel _ (by norm_num)]

/-- The digit is one where it leaves something. -/
theorem Partial.one (h : Partial w N (k + 1) root n res) (hle : res + 4 ^ k ≤ n) :
    Partial w N k (root + 2 ^ k) (n - (res + 4 ^ k)) (res / 2 + 4 ^ k) where
  remainder := by
    have hremainder := h.remainder
    rw [h.square_next]
    omega
  shifted := by
    rw [h.half_shifted, four_pow, Nat.add_mul]
  below := by
    have hbelow := h.below
    rw [pow_succ, Nat.mul_two, ← Nat.add_assoc] at hbelow
    exact hbelow
  fits := by
    have hfits := h.fits
    rw [pow_succ, Nat.mul_two, ← Nat.add_assoc] at hfits
    exact hfits

/-- It is zero where it would take off more than there is. -/
theorem Partial.zero (h : Partial w N (k + 1) root n res) (hlt : n < res + 4 ^ k) :
    Partial w N k root n (res / 2) where
  remainder := h.remainder
  shifted := h.half_shifted
  below := by
    have hremainder := h.remainder
    rw [h.square_next]
    omega
  fits := by
    have hfits := h.fits
    rw [pow_succ] at hfits
    omega

end Step

theorem Partial.shifted_le {w N k root n res : ℕ} (h : Partial w N k root n res) :
    4 * res ≤ 4 ^ w := by
  have hmean : 4 * (root * 2 ^ k) ≤ (root + 2 ^ k) * (root + 2 ^ k) := by
    nlinarith [sq_nonneg ((root : ℤ) - 2 ^ k)]
  calc 4 * res = 4 * (root * 2 ^ k) := by rw [h.shifted]
    _ ≤ (root + 2 ^ k) * (root + 2 ^ k) := hmean
    _ ≤ 2 ^ w * 2 ^ w := Nat.mul_le_mul h.fits h.fits
    _ = 4 ^ w := (four_pow w).symm

/-- When every digit is known the root is the square root rounded down. -/
theorem Partial.done {w N root n res : ℕ} (h : Partial w N 0 root n res) :
    res * res ≤ N ∧ N < (res + 1) * (res + 1) := by
  have hres : res = root := by
    rw [h.shifted, pow_zero, Nat.mul_one]
  have hremainder := h.remainder
  have hbelow := h.below
  rw [pow_zero] at hbelow
  rw [hres]
  exact ⟨by omega, hbelow⟩

end LuxPrecompile.Support.DigitRoots
