import LuxPrecompile.Support.Faults

/-!
# Slices of arrays

A slice is a window of an array with a capacity, up to which the array can be reached through
it.  Cutting a slice is bounded by its capacity and not by its length, so a cut past the end of
the window gives what the array has behind it.
-/

namespace LuxPrecompile.Support

/-- A window of an array from `lo` to `hi`, with the array up to `cap` in reach.  The length of
an array is a machine integer. -/
structure Slice (α : Type) where
  array : List α
  lo : ℕ
  hi : ℕ
  cap : ℕ
  lo_le_hi : lo ≤ hi
  hi_le_cap : hi ≤ cap
  cap_le : cap ≤ array.length
  fits : array.length < 2 ^ 63

namespace Slice

variable {α ε : Type}

/-- `len(s)`. -/
def len (s : Slice α) : ℕ := s.hi - s.lo

/-- `cap(s)`. -/
def room (s : Slice α) : ℕ := s.cap - s.lo

/-- What is in the window. -/
def toList (s : Slice α) : List α := (s.array.drop s.lo).take s.len

/-- A whole array. -/
def ofList (l : List α) (h : l.length < 2 ^ 63) : Slice α :=
  ⟨l, 0, l.length, l.length, Nat.zero_le _, le_rfl, le_rfl, h⟩

/-- `s[i:j:k]`. -/
def cut (s : Slice α) (i j k : ℕ) : Checked ε (Slice α) :=
  if h : i ≤ j ∧ j ≤ k ∧ k ≤ s.room then
    .ok ⟨s.array, s.lo + i, s.lo + j, s.lo + k, Nat.add_le_add_left h.1 _,
      Nat.add_le_add_left h.2.1 _,
      by
        have hcap := s.cap_le
        have hhi := s.hi_le_cap
        have hlo := s.lo_le_hi
        have hroom := h.2.2
        rw [room] at hroom
        omega,
      s.fits⟩
  else .error .panic

/-- `w` is the part of `s` from `i` to `j`, inside its window. -/
structure IsPart (s : Slice α) (i j : ℕ) (w : Slice α) : Prop where
  le : i ≤ j
  inside : j ≤ s.len
  array : w.array = s.array
  lo : w.lo = s.lo + i
  hi : w.hi = s.lo + j

variable {s w : Slice α} {i j k : ℕ}

theorem len_lt (s : Slice α) : s.len < 2 ^ 63 := by
  have hfits := s.fits
  have hcap := s.cap_le
  have hhi := s.hi_le_cap
  rw [len]
  omega

theorem len_le_room (s : Slice α) : s.len ≤ s.room := Nat.sub_le_sub_right s.hi_le_cap _

@[simp]
theorem length_toList (s : Slice α) : s.toList.length = s.len := by
  have hcap := s.cap_le
  have hhi := s.hi_le_cap
  rw [toList, List.length_take, List.length_drop, len]
  omega

@[simp]
theorem toList_ofList (l : List α) (h : l.length < 2 ^ 63) : (ofList l h).toList = l :=
  List.take_of_length_le le_rfl

theorem cut_of_le (hij : i ≤ j) (hj : j ≤ s.len) (hjk : j ≤ k) (hk : k ≤ s.room) :
    ∃ w, (s.cut i j k : Checked ε (Slice α)) = .ok w ∧ s.IsPart i j w ∧ w.cap = s.lo + k :=
  ⟨_, dif_pos ⟨hij, hjk, hk⟩, ⟨hij, hj, rfl, rfl, rfl⟩, rfl⟩

theorem IsPart.len (h : s.IsPart i j w) : w.len = j - i := by
  have hlo := h.lo
  have hhi := h.hi
  rw [Slice.len]
  omega

theorem IsPart.toList (h : s.IsPart i j w) : w.toList = (s.toList.drop i).take (j - i) := by
  have hinside := h.inside
  rw [Slice.toList, Slice.toList, h.len, h.array, h.lo, List.drop_take, List.take_take,
    List.drop_drop, Nat.min_eq_left (by omega)]

end Slice

end LuxPrecompile.Support
