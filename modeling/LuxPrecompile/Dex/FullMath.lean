import Mathlib.Data.Nat.Basic
import Mathlib.Tactic

/-!
# Full-precision multiplication and division

`dex/full_math.go` works on `big.Int`, so no intermediate product overflows.
The two `MulDiv` helpers panic on a non-positive denominator and on a quotient
that does not fit a `uint256`; a panic is `none`.  Go's integer division also
panics on a zero divisor, which is the only way `UnsafeDivRoundingUp` can fail.
-/

namespace LuxPrecompile.Dex

/-- `maxU256`, the largest `uint256`. -/
def maxU256 : ℕ := 2 ^ 256 - 1

/-- The range check both `MulDiv` helpers end with. -/
def checkU256 (result : ℕ) : Option ℕ :=
  if maxU256 < result then none else some result

/-- `MulDiv`: the product over the denominator, rounded toward zero. -/
def mulDiv (a b denominator : ℕ) : Option ℕ :=
  if denominator = 0 then none else checkU256 (a * b / denominator)

/-- One more than the quotient when the division leaves a remainder. -/
def divRoundingUp (x y : ℕ) : ℕ :=
  if 0 < x % y then x / y + 1 else x / y

/-- `MulDivRoundingUp`: the product over the denominator, rounded up. -/
def mulDivRoundingUp (a b denominator : ℕ) : Option ℕ :=
  if denominator = 0 then none
  else checkU256 (divRoundingUp (a * b) denominator)

/-- `UnsafeDivRoundingUp`: the caller promises a positive divisor. -/
def unsafeDivRoundingUp (x y : ℕ) : Option ℕ :=
  if y = 0 then none else some (divRoundingUp x y)

/-- `big.Int.Div` on non-negative operands. -/
def bigDiv (x y : ℕ) : Option ℕ :=
  if y = 0 then none else some (x / y)

theorem checkU256_eq_some {x r : ℕ} (h : checkU256 x = some r) :
    r = x ∧ r < 2 ^ 256 := by
  unfold checkU256 at h
  split_ifs at h with hx
  simp only [Option.some.injEq] at h
  subst h
  unfold maxU256 at hx
  exact ⟨rfl, by omega⟩

theorem mulDiv_eq_some {a b d r : ℕ} (h : mulDiv a b d = some r) :
    0 < d ∧ r = a * b / d ∧ r < 2 ^ 256 := by
  unfold mulDiv at h
  split_ifs at h with hd
  exact ⟨Nat.pos_of_ne_zero hd, checkU256_eq_some h⟩

theorem mulDivRoundingUp_eq_some {a b d r : ℕ}
    (h : mulDivRoundingUp a b d = some r) :
    0 < d ∧ r = divRoundingUp (a * b) d ∧ r < 2 ^ 256 := by
  unfold mulDivRoundingUp at h
  split_ifs at h with hd
  exact ⟨Nat.pos_of_ne_zero hd, checkU256_eq_some h⟩

theorem unsafeDivRoundingUp_eq_some {x y r : ℕ}
    (h : unsafeDivRoundingUp x y = some r) :
    0 < y ∧ r = divRoundingUp x y := by
  unfold unsafeDivRoundingUp at h
  split_ifs at h with hy
  simp only [Option.some.injEq] at h
  exact ⟨Nat.pos_of_ne_zero hy, h.symm⟩

theorem bigDiv_eq_some {x y r : ℕ} (h : bigDiv x y = some r) :
    0 < y ∧ r = x / y := by
  unfold bigDiv at h
  split_ifs at h with hy
  simp only [Option.some.injEq] at h
  exact ⟨Nat.pos_of_ne_zero hy, h.symm⟩

/-- Rounding up is the ceiling of the exact quotient. -/
theorem divRoundingUp_le_iff {x y k : ℕ} (hy : 0 < y) :
    divRoundingUp x y ≤ k ↔ x ≤ k * y := by
  unfold divRoundingUp
  have hdiv := Nat.div_add_mod x y
  have hmod := Nat.mod_lt x hy
  split_ifs with h
  · constructor
    · intro hk
      nlinarith
    · intro hk
      by_contra hlt
      have hle : k ≤ x / y := by omega
      have : k * y ≤ y * (x / y) := by
        rw [Nat.mul_comm y]
        exact Nat.mul_le_mul_right y hle
      omega
  · have hzero : x % y = 0 := by omega
    constructor
    · intro hk
      have : y * (x / y) ≤ y * k := Nat.mul_le_mul_left y hk
      rw [Nat.mul_comm k]
      omega
    · intro hk
      exact Nat.div_le_of_le_mul (by rw [Nat.mul_comm]; exact hk)

theorem le_divRoundingUp_mul (x : ℕ) {y : ℕ} (hy : 0 < y) :
    x ≤ divRoundingUp x y * y :=
  (divRoundingUp_le_iff hy).mp le_rfl

@[simp]
theorem divRoundingUp_zero (y : ℕ) : divRoundingUp 0 y = 0 := by
  simp [divRoundingUp]

end LuxPrecompile.Dex
