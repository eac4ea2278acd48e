import Mathlib.Data.List.Basic
import Mathlib.Tactic

/-!
# Lists cut into chunks of one length

A list cut into chunks of `n` entries is put together again from them, and the
encodings of its entries, all of one length, are cut where its entries are.
-/

namespace LuxPrecompile.Support

variable {α β : Type}

theorem flatMap_range_chunk (l : List α) (n k : ℕ) :
    ((List.range k).flatMap fun i => (l.drop (n * i)).take n) = l.take (n * k) := by
  induction k with
  | zero => simp
  | succ k ih =>
      rw [List.range_succ, List.flatMap_append, ih, List.flatMap_singleton, Nat.mul_succ,
        List.take_add]

section Encoded

variable {f : α → List β} {n : ℕ}

theorem length_flatMap_of_length (hf : ∀ a, (f a).length = n) (l : List α) :
    (l.flatMap f).length = n * l.length := by
  induction l with
  | nil => simp
  | cons a l ih =>
      rw [List.flatMap_cons, List.length_append, hf, ih, List.length_cons]
      ring

/-- Dropping encodings is dropping entries. -/
theorem drop_flatMap_of_length (hf : ∀ a, (f a).length = n) (l : List α) (i : ℕ) :
    (l.flatMap f).drop (n * i) = (l.drop i).flatMap f := by
  induction i generalizing l with
  | zero => simp
  | succ i ih =>
      cases l with
      | nil => simp
      | cons a l =>
          have hlength : n * (i + 1) = (f a).length + n * i := by
            rw [hf]
            ring
          rw [List.flatMap_cons, hlength, List.drop_length_add_append, ih, List.drop_succ_cons]

/-- Taking encodings is taking entries. -/
theorem take_flatMap_of_length (hf : ∀ a, (f a).length = n) (l : List α) (i : ℕ) :
    (l.flatMap f).take (n * i) = (l.take i).flatMap f := by
  induction i generalizing l with
  | zero => simp
  | succ i ih =>
      cases l with
      | nil => simp
      | cons a l =>
          have hlength : n * (i + 1) = (f a).length + n * i := by
            rw [hf]
            ring
          rw [List.flatMap_cons, hlength, List.take_length_add_append, ih, List.take_succ_cons,
            List.flatMap_cons]

end Encoded

end LuxPrecompile.Support

/-!
## Records of fixed widths

A record whose fields have known widths is written by putting its fields one after another.
Cutting a string of the right length into the widths gives back the fields, and putting the
pieces together gives back the string, so such a record has one spelling.
-/

namespace LuxPrecompile.Layout

variable {α : Type}

/-- The pieces of a string for a list of widths. -/
def cut : List ℕ → List α → List (List α)
  | [], _ => []
  | w :: ws, b => b.take w :: cut ws (b.drop w)

theorem cut_flatten (fields : List (List α)) :
    cut (fields.map List.length) fields.flatten = fields := by
  induction fields with
  | nil => rfl
  | cons f fields ih =>
      rw [List.map_cons, List.flatten_cons, cut, List.take_left' rfl, List.drop_left' rfl, ih]

/-- The pieces make up the string. -/
theorem flatten_cut {widths : List ℕ} {b : List α} (h : b.length = widths.sum) :
    (cut widths b).flatten = b := by
  induction widths generalizing b with
  | nil => exact (List.length_eq_zero_iff.mp h).symm
  | cons w ws ih =>
      rw [List.sum_cons] at h
      rw [cut, List.flatten_cons, ih, List.take_append_drop]
      rw [List.length_drop]
      omega

/-- Every piece has its width. -/
theorem map_length_cut {widths : List ℕ} {b : List α} (h : widths.sum ≤ b.length) :
    (cut widths b).map List.length = widths := by
  induction widths generalizing b with
  | nil => rfl
  | cons w ws ih =>
      rw [List.sum_cons] at h
      have hdrop : ws.sum ≤ (b.drop w).length := by
        rw [List.length_drop]
        omega
      rw [cut, List.map_cons, ih hdrop, List.length_take, Nat.min_eq_left (by omega)]

end LuxPrecompile.Layout
