import Mathlib.Data.Int.Notation
import Mathlib.Tactic

/-!
# Decimal texts of integers

The text of an integer of any size and sign, and the reader of such texts: an
optional sign followed by at least one digit, and nothing else.
-/

namespace LuxPrecompile.Support.Decimal

/-- The decimal text of an integer. -/
def text (v : ℤ) : List Char :=
  if v < 0 then '-' :: Nat.toDigits 10 v.natAbs else Nat.toDigits 10 v.natAbs

/-- The value of a nonempty text of digits. -/
def readDigits (cs : List Char) : Option ℕ :=
  if cs ≠ [] ∧ cs.all Char.isDigit then some (Nat.ofDigitChars 10 cs 0) else none

/-- The value of a text. -/
def read : List Char → Option ℤ
  | '-' :: cs => (readDigits cs).map fun n : ℕ => -(n : ℤ)
  | '+' :: cs => (readDigits cs).map fun n : ℕ => (n : ℤ)
  | cs => (readDigits cs).map fun n : ℕ => (n : ℤ)

theorem readDigits_toDigits (n : ℕ) : readDigits (Nat.toDigits 10 n) = some n := by
  have hdigits : (Nat.toDigits 10 n).all Char.isDigit := by
    rw [List.all_eq_true]
    exact fun c hc => Nat.isDigit_of_mem_toDigits (by norm_num) (le_refl _) hc
  rw [readDigits, if_pos ⟨Nat.toDigits_ne_nil, hdigits⟩, Nat.ofDigitChars_ten_toDigits]

/-- A text of digits has no sign. -/
theorem read_toDigits (n : ℕ) : read (Nat.toDigits 10 n) = some (n : ℤ) := by
  have hread := readDigits_toDigits n
  cases hcs : Nat.toDigits 10 n with
  | nil => exact absurd hcs Nat.toDigits_ne_nil
  | cons c cs =>
      have hdigit : c.isDigit :=
        Nat.isDigit_of_mem_toDigits (by norm_num) (le_refl 10) (hcs ▸ List.mem_cons_self)
      have hminus : c ≠ '-' := by
        rintro rfl
        exact absurd hdigit (by decide)
      have hplus : c ≠ '+' := by
        rintro rfl
        exact absurd hdigit (by decide)
      rw [hcs] at hread
      rw [read, hread]
      · rfl
      · exact fun cs' heq => hminus (List.cons.inj heq).1
      · exact fun cs' heq => hplus (List.cons.inj heq).1

/-- The text of an integer is read back. -/
theorem read_text (v : ℤ) : read (text v) = some v := by
  rw [text]
  split_ifs with hneg
  · rw [read, readDigits_toDigits, Option.map_some]
    congr 1
    omega
  · rw [read_toDigits]
    congr 1
    omega

theorem text_ne_nil (v : ℤ) : text v ≠ [] := by
  rw [text]
  split_ifs
  · exact List.cons_ne_nil _ _
  · exact Nat.toDigits_ne_nil

end LuxPrecompile.Support.Decimal
