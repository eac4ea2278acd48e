import Mathlib.Data.List.Basic
import Mathlib.Data.List.Nodup
import Mathlib.Tactic

/-!
# Lists with distinct keys

A list whose entries have distinct keys is a finite map.  Appending an entry,
replacing one by an entry of its own key and removing one by moving the last
entry into its place are updates of that map.
-/

namespace LuxPrecompile.Support

section KeyedList

variable {α κ : Type} (key : α → κ)

/-- Every entry has a key of its own. -/
def DistinctKeys (entries : List α) : Prop := (entries.map key).Nodup

/-- The entry of a key. -/
def lookup [DecidableEq κ] (entries : List α) (k : κ) : Option α :=
  entries.find? fun a => key a = k

/-- Entry `i` removed, the last one in its place. -/
def swapRemove (entries : List α) (i : ℕ) : List α :=
  match entries.getLast? with
  | none => []
  | some last => (entries.set i last).dropLast

/-! ## Keys and positions -/

theorem DistinctKeys.perm {key : α → κ} {entries entries' : List α}
    (h : DistinctKeys key entries) (hperm : entries'.Perm entries) :
    DistinctKeys key entries' :=
  (hperm.map key).nodup_iff.mpr h

/-- Replacing an entry by one of the same key keeps the keys distinct. -/
theorem DistinctKeys.set {key : α → κ} {entries : List α} (h : DistinctKeys key entries)
    {i : ℕ} (hi : i < entries.length) {a : α} (ha : key a = key entries[i]) :
    DistinctKeys key (entries.set i a) := by
  have hkeys : (entries.set i a).map key = entries.map key := by
    rw [List.map_set, ha]
    apply List.ext_getElem (by simp)
    intro j hj hj'
    rw [List.getElem_set]
    split_ifs with hij
    · subst hij
      simp
    · rfl
  rw [DistinctKeys, hkeys]
  exact h

theorem length_le_of_lt {numbers : List ℕ} {n : ℕ} (h : numbers.Nodup)
    (hlt : ∀ x ∈ numbers, x < n) : numbers.length ≤ n := by
  have hsub : numbers.toFinset ⊆ Finset.range n := by
    intro x hx
    exact Finset.mem_range.mpr (hlt x (List.mem_toFinset.mp hx))
  have hcard := Finset.card_le_card hsub
  rwa [List.toFinset_card_of_nodup h, Finset.card_range] at hcard

/-! ## Removal -/

theorem swapRemove_append_singleton (front : List α) (last : α) {i : ℕ}
    (hi : i < front.length) : swapRemove (front ++ [last]) i = front.set i last := by
  simp [swapRemove, List.set_append_left _ _ hi]

theorem swapRemove_last (front : List α) (last : α) :
    swapRemove (front ++ [last]) front.length = front := by
  simp [swapRemove]

theorem swapRemove_length {entries : List α} {i : ℕ} (hi : i < entries.length) :
    (swapRemove entries i).length = entries.length - 1 := by
  have hne : entries ≠ [] := by
    rintro rfl
    simp at hi
  simp [swapRemove, List.getLast?_eq_some_getLast hne]

theorem getElem_swapRemove {entries : List α} {i j : ℕ} (hi : i < entries.length)
    (hj : j < (swapRemove entries i).length) :
    (swapRemove entries i)[j] =
      if j = i then entries[entries.length - 1] else
        entries.get ⟨j, by rw [swapRemove_length hi] at hj; omega⟩ := by
  have hne : entries ≠ [] := by
    rintro rfl
    simp at hi
  simp only [swapRemove, List.getLast?_eq_some_getLast hne, List.getElem_dropLast,
    List.getElem_set, List.getLast_eq_getElem]
  by_cases hij : i = j
  · subst hij
    simp
  · simp [hij, Ne.symm hij]

open scoped List in
/-- Moving the last entry into a place only reorders the entries that stay. -/
theorem swapRemove_perm {entries : List α} {i : ℕ} (hi : i < entries.length) :
    entries[i] :: swapRemove entries i ~ entries := by
  cases entries using List.reverseRecOn with
  | nil => simp at hi
  | append_singleton front last =>
      by_cases hlast : i = front.length
      · subst hlast
        rw [swapRemove_last, List.getElem_concat_length rfl]
        exact (List.perm_append_singleton last front).symm
      · have hfront : i < front.length := by
          rw [List.length_append, List.length_singleton] at hi
          omega
        rw [swapRemove_append_singleton front last hfront, List.getElem_append_left hfront,
          List.set_eq_take_append_cons_drop, if_pos hfront]
        calc front[i] :: (front.take i ++ last :: front.drop (i + 1))
            ~ front[i] :: last :: (front.take i ++ front.drop (i + 1)) :=
              List.perm_middle.cons _
          _ ~ last :: front[i] :: (front.take i ++ front.drop (i + 1)) := List.Perm.swap _ _ _
          _ ~ last :: (front.take i ++ front[i] :: front.drop (i + 1)) :=
              List.perm_middle.symm.cons _
          _ ~ last :: front := by rw [List.getElem_cons_drop, List.take_append_drop]
          _ ~ front ++ [last] := (List.perm_append_singleton last front).symm

/-- The other entries keep distinct keys, none of them the one of the removed entry. -/
theorem DistinctKeys.swapRemove {key : α → κ} {entries : List α} (h : DistinctKeys key entries)
    {i : ℕ} (hi : i < entries.length) :
    DistinctKeys key (swapRemove entries i) ∧
      ∀ a ∈ Support.swapRemove entries i, key a ≠ key entries[i] := by
  have hcons := h.perm (swapRemove_perm hi)
  rw [DistinctKeys, List.map_cons, List.nodup_cons] at hcons
  refine ⟨hcons.2, fun a ha hkey => hcons.1 ?_⟩
  rw [← hkey]
  exact List.mem_map_of_mem ha

/-! ## The map a list stands for -/

section Lookup

variable {key} [DecidableEq κ]

theorem mem_of_lookup {entries : List α} {k : κ} {a : α} (h : lookup key entries k = some a) :
    a ∈ entries ∧ key a = k :=
  ⟨List.mem_of_find?_eq_some h, by simpa using List.find?_some h⟩

theorem lookup_eq_none {entries : List α} {k : κ} :
    lookup key entries k = none ↔ ∀ a ∈ entries, key a ≠ k := by
  simp [lookup]

theorem lookup_eq_some {entries : List α} (h : DistinctKeys key entries) {k : κ} {a : α} :
    lookup key entries k = some a ↔ a ∈ entries ∧ key a = k := by
  refine ⟨mem_of_lookup, fun ⟨hmem, hkey⟩ => ?_⟩
  cases hlookup : lookup key entries k with
  | none => exact absurd hkey (lookup_eq_none.mp hlookup a hmem)
  | some b =>
      obtain ⟨hb, hbkey⟩ := mem_of_lookup hlookup
      rw [List.inj_on_of_nodup_map h hb hmem (hbkey.trans hkey.symm)]

/-- Appending an entry of a new key. -/
theorem lookup_append {entries : List α} {a : α} (hnew : lookup key entries (key a) = none) :
    lookup key (entries ++ [a]) = Function.update (lookup key entries) (key a) (some a) := by
  funext k
  by_cases hk : k = key a
  · subst hk
    rw [Function.update_self, lookup, List.find?_append]
    rw [lookup] at hnew
    simp [hnew]
  · rw [Function.update_of_ne hk, lookup, lookup, List.find?_append]
    simp [Ne.symm hk]

theorem DistinctKeys.append {entries : List α} (h : DistinctKeys key entries) {a : α}
    (hnew : lookup key entries (key a) = none) : DistinctKeys key (entries ++ [a]) := by
  rw [DistinctKeys, List.map_append, List.map_singleton]
  refine List.nodup_append.mpr ⟨h, List.nodup_singleton _, ?_⟩
  intro k hk k' hk' heq
  obtain ⟨b, hb, rfl⟩ := List.mem_map.mp hk
  rw [List.mem_singleton.mp hk'] at heq
  exact lookup_eq_none.mp hnew b hb heq

/-- Removing an entry. -/
theorem lookup_swapRemove {entries : List α} (h : DistinctKeys key entries) {i : ℕ}
    (hi : i < entries.length) :
    lookup key (swapRemove entries i) =
      Function.update (lookup key entries) (key entries[i]) none := by
  obtain ⟨hdistinct, hother⟩ := h.swapRemove hi
  funext k
  by_cases hk : k = key entries[i]
  · rw [hk, Function.update_self]
    exact lookup_eq_none.mpr hother
  · rw [Function.update_of_ne hk]
    ext a
    rw [lookup_eq_some hdistinct, lookup_eq_some h, ← (swapRemove_perm hi).mem_iff,
      List.mem_cons]
    constructor
    · rintro ⟨hmem, hkey⟩
      exact ⟨.inr hmem, hkey⟩
    · rintro ⟨rfl | hmem, hkey⟩
      · exact absurd hkey.symm hk
      · exact ⟨hmem, hkey⟩

/-- Replacing an entry by one of the same key. -/
theorem lookup_set {entries : List α} (h : DistinctKeys key entries) {i : ℕ}
    (hi : i < entries.length) {a : α} (ha : key a = key entries[i]) :
    lookup key (entries.set i a) = Function.update (lookup key entries) (key a) (some a) := by
  have hset := h.set hi ha
  funext k
  by_cases hk : k = key a
  · rw [hk, Function.update_self, lookup_eq_some hset]
    exact ⟨List.mem_set hi a, rfl⟩
  · rw [Function.update_of_ne hk]
    ext b
    rw [lookup_eq_some hset, lookup_eq_some h]
    refine and_congr_left fun hb => ?_
    rw [List.mem_iff_getElem, List.mem_iff_getElem]
    constructor
    · rintro ⟨j, hj, rfl⟩
      rw [List.length_set] at hj
      by_cases hij : i = j
      · subst hij
        rw [List.getElem_set_self] at hb
        exact absurd hb.symm hk
      · exact ⟨j, hj, by rw [List.getElem_set_ne hij]⟩
    · rintro ⟨j, hj, rfl⟩
      have hij : i ≠ j := by
        rintro rfl
        exact hk (hb.symm.trans ha.symm)
      exact ⟨j, by simpa using hj, by rw [List.getElem_set_ne hij]⟩

end Lookup

/-! ## Totals -/

/-- A total over all entries but one. -/
theorem sum_filter_ne_add {M : Type} [AddCommMonoid M] [DecidableEq κ] (f : α → M) {a : α} :
    ∀ {entries : List α}, DistinctKeys key entries → a ∈ entries →
      ((entries.filter fun b => key b ≠ key a).map f).sum + f a = (entries.map f).sum
  | [], _, ha => by cases ha
  | b :: entries, h, ha => by
      have hcons := List.nodup_cons.mp h
      by_cases hb : key b = key a
      · have hrest : ∀ c ∈ entries, key c ≠ key a := by
          intro c hc heq
          exact hcons.1 (List.mem_map.mpr ⟨c, hc, heq.trans hb.symm⟩)
        have hfilter : entries.filter (fun c => key c ≠ key a) = entries :=
          List.filter_eq_self.mpr (by simpa using hrest)
        have heq : b = a := by
          rcases List.mem_cons.mp ha with rfl | ha
          · rfl
          · exact absurd rfl (hrest a ha)
        rw [List.filter_cons_of_neg (by simp [hb]), hfilter, heq, List.map_cons, List.sum_cons,
          add_comm]
      · have ha' : a ∈ entries := by
          rcases List.mem_cons.mp ha with rfl | ha
          · exact absurd rfl hb
          · exact ha
        rw [List.filter_cons_of_pos (by simp [hb]), List.map_cons, List.sum_cons, List.map_cons,
          List.sum_cons, add_assoc, sum_filter_ne_add f hcons.2 ha']

end KeyedList

end LuxPrecompile.Support
