import Mathlib.Data.List.Basic
import Mathlib.Data.List.Sort
import Mathlib.Tactic

/-!
# Sorting by a key

Entries with keys of their own have one order by key, whatever order they are
given in.
-/

namespace LuxPrecompile.Support

variable {α κ : Type} [LinearOrder κ] (key : α → κ)

/-- Entries in the order of their keys. -/
def sortBy (l : List α) : List α := l.mergeSort fun a b => key a ≤ key b

/-- Every entry has a greater key than the one before it. -/
def InKeyOrder (l : List α) : Prop := l.Pairwise fun a b => key a < key b

variable {key}

theorem sortBy_perm (l : List α) : (sortBy key l).Perm l := List.mergeSort_perm _ _

theorem sortBy_pairwise (l : List α) : (sortBy key l).Pairwise fun a b => key a ≤ key b := by
  have hsorted := @List.pairwise_mergeSort α (fun a b => decide (key a ≤ key b))
    (fun a b c hab hbc => by simpa using (of_decide_eq_true hab).trans (of_decide_eq_true hbc))
    (fun a b => by simpa using le_total (key a) (key b)) l
  exact hsorted.imp fun h => of_decide_eq_true h

theorem sortBy_map {β : Type} (f : β → α) (l : List β) :
    sortBy key (l.map f) = (sortBy (key ∘ f) l).map f :=
  (List.map_mergeSort (f := f) (r := fun a b => key (f a) ≤ key (f b)) fun _ _ _ _ => rfl).symm

theorem inKeyOrder_sortBy {l : List α} (h : (l.map key).Nodup) : InKeyOrder key (sortBy key l) := by
  have hkeys : ((sortBy key l).map key).Nodup := ((sortBy_perm l).map key).nodup_iff.mpr h
  have hne : (sortBy key l).Pairwise fun a b => key a ≠ key b := List.pairwise_map.mp hkeys
  exact ((sortBy_pairwise l).and hne).imp fun hab => lt_of_le_of_ne hab.1 hab.2

theorem InKeyOrder.nodup {l : List α} (h : InKeyOrder key l) : (l.map key).Nodup :=
  List.pairwise_map.mpr (h.imp fun hab => ne_of_lt hab)

theorem InKeyOrder.eq_of_perm {l l' : List α} (h : InKeyOrder key l) (h' : InKeyOrder key l')
    (hperm : l.Perm l') : l = l' :=
  hperm.eq_of_pairwise (fun _ _ _ _ hab hba => absurd (hab.trans hba) (lt_irrefl _)) h h'

theorem sortBy_eq {l l' : List α} (h : InKeyOrder key l) (hperm : l'.Perm l) :
    sortBy key l' = l :=
  (inKeyOrder_sortBy ((hperm.map key).nodup_iff.mpr h.nodup)).eq_of_perm h
    ((sortBy_perm l').trans hperm)

end LuxPrecompile.Support
