import Mathlib.Algebra.BigOperators.Group.Finset.Basic
import Mathlib.Algebra.Order.Floor.Ring
import Mathlib.Tactic

/-!
# Totals

A ledger keeps the total of a finite family of amounts.  When one member
changes, the total changes by as much.  A map of optional entries holds, after one was
written, that entry and the others.  Rounding the parts of a sum down loses less than
rounding down the sum only when the lost fractions do not add up to a whole unit.  A list of
entries is totalled key by key.
-/

namespace LuxPrecompile.Support

variable {K : Type} [Fintype K]

/-- Two families that differ at one member only. -/
theorem sum_add_of_eq_off {M : Type} [AddCommMonoid M] {f g : K → M} (i : K)
    (h : ∀ j, j ≠ i → g j = f j) : ∑ j, g j + f i = ∑ j, f j + g i := by
  classical
  have hrest : ∑ j ∈ Finset.univ.erase i, g j = ∑ j ∈ Finset.univ.erase i, f j := by
    apply Finset.sum_congr rfl
    intro j hj
    exact h j (Finset.ne_of_mem_erase hj)
  rw [← Finset.add_sum_erase Finset.univ f (Finset.mem_univ i),
    ← Finset.add_sum_erase Finset.univ g (Finset.mem_univ i), hrest]
  abel

theorem le_sum (f : K → ℕ) (i : K) : f i ≤ ∑ j, f j :=
  Finset.single_le_sum (fun _ _ => Nat.zero_le _) (Finset.mem_univ i)

/-! ## Maps with one entry written -/

section Updates

variable {κ α : Type} [DecidableEq κ] {f : κ → Option α} {k j : κ} {a b : α}

theorem update_eq_some :
    Function.update f k (some a) j = some b ↔ j = k ∧ a = b ∨ j ≠ k ∧ f j = some b := by
  by_cases hj : j = k
  · subst hj
    simp
  · simp [hj]

theorem update_eq_none : Function.update f k (some a) j = none ↔ j ≠ k ∧ f j = none := by
  by_cases hj : j = k
  · subst hj
    simp
  · simp [hj]

end Updates

/-! ## Amounts rounded down one by one -/

section Floors

variable {R : Type} [Field R] [LinearOrder R] [IsStrictOrderedRing R] [FloorRing R]

/-- What rounding down the members of a list drops. -/
def dropped (l : List R) : R := (l.map Int.fract).sum

theorem dropped_nonneg (l : List R) : 0 ≤ dropped l := by
  apply List.sum_nonneg
  intro x hx
  obtain ⟨y, -, rfl⟩ := List.mem_map.mp hx
  exact Int.fract_nonneg y

/-- The floor of a sum: the floors of its members and the whole units among the
fractions they drop. -/
theorem floor_sum (l : List R) : ⌊l.sum⌋ = (l.map Int.floor).sum + ⌊dropped l⌋ := by
  have hsplit : l.sum = (((l.map Int.floor).sum : ℤ) : R) + dropped l := by
    unfold dropped
    induction l with
    | nil => simp
    | cons x l ih =>
        simp only [List.sum_cons, List.map_cons, Int.cast_add]
        rw [ih]
        have hx := Int.floor_add_fract x
        linear_combination -hx
  rw [hsplit, Int.floor_intCast_add]

theorem floor_dropped_eq_zero_iff (l : List R) : ⌊dropped l⌋ = 0 ↔ dropped l < 1 := by
  rw [Int.floor_eq_zero_iff, Set.mem_Ico]
  exact ⟨fun h => h.2, fun h => ⟨dropped_nonneg l, h⟩⟩

end Floors

/-! ## Totals by key -/

section ByKey

variable {α κ M : Type} [DecidableEq κ] [AddCommMonoid M] (key : α → κ)

/-- The entries of one key. -/
def withKey (entries : List α) (k : κ) : List α := entries.filter fun a => key a = k

/-- A total is the sum of the totals of the keys. -/
theorem sum_by_key (f : α → M) {keys : Finset κ} :
    ∀ {entries : List α}, (∀ a ∈ entries, key a ∈ keys) →
      (entries.map f).sum = ∑ k ∈ keys, ((withKey key entries k).map f).sum
  | [], _ => by simp [withKey]
  | a :: entries, h => by
      have hrest : (entries.map f).sum =
          ∑ k ∈ keys, ((withKey key entries k).map f).sum :=
        sum_by_key f fun b hb => h b (List.mem_cons_of_mem _ hb)
      have hhead : ∀ k, ((withKey key (a :: entries) k).map f).sum =
          (if key a = k then f a else 0) + ((withKey key entries k).map f).sum := by
        intro k
        unfold withKey
        by_cases hk : key a = k
        · simp [hk]
        · simp [hk]
      have ha := h a List.mem_cons_self
      calc ((a :: entries).map f).sum = f a + (entries.map f).sum := by simp
        _ = f a + ∑ k ∈ keys, ((withKey key entries k).map f).sum := by rw [hrest]
        _ = ∑ k ∈ keys, ((withKey key (a :: entries) k).map f).sum := by
            simp only [hhead, Finset.sum_add_distrib, Finset.sum_ite_eq, ha, if_true]

theorem sum_by_every_key [Fintype κ] (f : α → M) (entries : List α) :
    (entries.map f).sum = ∑ k, ((withKey key entries k).map f).sum :=
  sum_by_key key f fun a _ => Finset.mem_univ (key a)

end ByKey

theorem eq_zero_of_sum_le {κ : Type} [Fintype κ] {f : κ → ℤ} (hf : ∀ k, 0 ≤ f k)
    (hsum : ∑ k, f k ≤ 0) (k : κ) : f k = 0 := by
  have hone := Finset.single_le_sum (fun j _ => hf j) (Finset.mem_univ k)
  have hk := hf k
  omega

end LuxPrecompile.Support
