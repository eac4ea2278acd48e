import Mathlib.Data.List.Basic
import Mathlib.Data.List.Nodup
import Mathlib.Data.Set.Function
import Mathlib.Logic.Function.Basic
import Mathlib.Tactic

/-!
# Finite maps with an order of iteration

A finite map is the list of its entries in the order an iteration visits them,
with a key of its own for each.  Two maps are the same when they give the same
value to every key; the order is not part of what a map holds.

A store that keeps its entries at the hashes of their names does what a store by name does,
as long as no two of the names in use share an address.
-/

namespace LuxPrecompile.Support

/-- A finite map, with the order in which its entries are visited. -/
structure FinMap (κ ν : Type) where
  entries : List (κ × ν)
  distinct : (entries.map Prod.fst).Nodup

namespace FinMap

variable {κ ν μ : Type} [DecidableEq κ]

/-- The map without entries. -/
def empty : FinMap κ ν := ⟨[], List.nodup_nil⟩

/-- The value of a key. -/
def get (m : FinMap κ ν) (k : κ) : Option ν :=
  (m.entries.find? fun e => e.1 = k).map Prod.snd

/-- A key written, with a new value where it has one. -/
def insert (m : FinMap κ ν) (k : κ) (v : ν) : FinMap κ ν where
  entries := (k, v) :: m.entries.filter fun e => e.1 ≠ k
  distinct := by
    rw [List.map_cons, List.nodup_cons]
    refine ⟨fun hmem => ?_, m.distinct.sublist (List.filter_sublist.map _)⟩
    obtain ⟨e, he, hkey⟩ := List.mem_map.mp hmem
    simpa [hkey] using (List.mem_filter.mp he).2

/-- A key deleted. -/
def erase (m : FinMap κ ν) (k : κ) : FinMap κ ν where
  entries := m.entries.filter fun e => e.1 ≠ k
  distinct := m.distinct.sublist (List.filter_sublist.map _)

/-- Several keys written one after another. -/
def insertAll (m : FinMap κ ν) (l : List (κ × ν)) : FinMap κ ν :=
  l.foldl (fun m e => m.insert e.1 e.2) m

theorem get_eq_some {m : FinMap κ ν} {k : κ} {v : ν} : m.get k = some v ↔ (k, v) ∈ m.entries := by
  constructor
  · intro h
    obtain ⟨e, he, rfl⟩ := Option.map_eq_some_iff.mp h
    have hkey : e.1 = k := by simpa using List.find?_some he
    rw [← hkey]
    exact List.mem_of_find?_eq_some he
  · intro h
    cases hfind : m.entries.find? fun e => e.1 = k with
    | none => simpa using List.find?_eq_none.mp hfind _ h
    | some e =>
        have hkey : e.1 = k := by simpa using List.find?_some hfind
        have heq := List.inj_on_of_nodup_map m.distinct (List.mem_of_find?_eq_some hfind) h hkey
        rw [get, hfind, heq]
        rfl

theorem get_eq_none {m : FinMap κ ν} {k : κ} : m.get k = none ↔ ∀ v, (k, v) ∉ m.entries := by
  rw [Option.eq_none_iff_forall_not_mem]
  exact forall_congr' fun v => not_congr get_eq_some

@[simp]
theorem get_empty (k : κ) : (empty : FinMap κ ν).get k = none := rfl

/-- What is written is found, and nothing else changes. -/
theorem get_insert (m : FinMap κ ν) (k : κ) (v : ν) :
    (m.insert k v).get = Function.update m.get k (some v) := by
  funext j
  by_cases hj : j = k
  · subst hj
    rw [Function.update_self, get, insert, List.find?_cons_of_pos (by simp)]
    rfl
  · have hfind : (m.insert k v).entries.find? (fun e => e.1 = j) =
        m.entries.find? fun e => e.1 = j := by
      rw [insert, List.find?_cons_of_neg (by simpa using Ne.symm hj), List.find?_filter]
      congr 1
      funext e
      by_cases he : e.1 = j
      · simp [he, hj]
      · simp [he]
    rw [Function.update_of_ne hj, get, get, hfind]

theorem get_erase (m : FinMap κ ν) (k : κ) : (m.erase k).get = Function.update m.get k none := by
  funext j
  apply Option.ext
  intro v
  rw [get_eq_some, erase, List.mem_filter, ← get_eq_some]
  by_cases hj : j = k
  · simp [hj]
  · simp [hj]

@[simp]
theorem insertAll_nil (m : FinMap κ ν) : m.insertAll [] = m := rfl

theorem insertAll_cons (m : FinMap κ ν) (e : κ × ν) (l : List (κ × ν)) :
    m.insertAll (e :: l) = (m.insert e.1 e.2).insertAll l := rfl

theorem insertAll_append (m : FinMap κ ν) (l l' : List (κ × ν)) :
    m.insertAll (l ++ l') = (m.insertAll l).insertAll l' :=
  List.foldl_append

theorem get_insertAll_of_notMem {m : FinMap κ ν} {l : List (κ × ν)} {k : κ}
    (h : k ∉ l.map Prod.fst) : (m.insertAll l).get k = m.get k := by
  induction l generalizing m with
  | nil => rfl
  | cons e l ih =>
      rw [List.map_cons, List.mem_cons, not_or] at h
      rw [insertAll_cons, ih h.2, get_insert, Function.update_of_ne h.1]

/-- A key that is written once has the value it is written with. -/
theorem get_insertAll_of_mem {m : FinMap κ ν} {l : List (κ × ν)} {k : κ} {v : ν}
    (hl : (l.map Prod.fst).Nodup) (h : (k, v) ∈ l) : (m.insertAll l).get k = some v := by
  induction l generalizing m with
  | nil => cases h
  | cons e l ih =>
      rw [List.map_cons, List.nodup_cons] at hl
      rw [insertAll_cons]
      rcases List.mem_cons.mp h with rfl | h
      · rw [get_insertAll_of_notMem hl.1, get_insert, Function.update_self]
      · exact ih hl.2 h

/-- What a key holds depends on the writes to keys of its kind only. -/
theorem get_insertAll_filter (m : FinMap κ ν) (l : List (κ × ν)) {P : κ → Bool} {k : κ}
    (hk : P k = true) :
    (m.insertAll l).get k = (m.insertAll (l.filter fun e => P e.1)).get k := by
  induction l using List.reverseRecOn with
  | nil => rfl
  | append_singleton l e ih =>
      rw [List.filter_append, insertAll_append, insertAll_append, insertAll_cons, insertAll_nil,
        get_insert]
      by_cases he : P e.1 = true
      · have hfilter : [e].filter (fun e => P e.1) = [e] := List.filter_cons_of_pos he
        rw [hfilter, insertAll_cons, insertAll_nil, get_insert]
        by_cases hkey : k = e.1
        · rw [hkey, Function.update_self, Function.update_self]
        · rw [Function.update_of_ne hkey, Function.update_of_ne hkey, ih]
      · have hfilter : [e].filter (fun e => P e.1) = [] := List.filter_cons_of_neg he
        have hkey : k ≠ e.1 := by
          rintro rfl
          exact he hk
        rw [Function.update_of_ne hkey, hfilter, insertAll_nil, ih]

omit [DecidableEq κ] in
theorem entries_nodup (m : FinMap κ ν) : m.entries.Nodup := .of_map _ m.distinct

/-- The entries of a map, in any order, with their values changed, make the changed map. -/
theorem get_insertAll_perm {m : FinMap κ ν} {l : List (κ × μ)} {f : ν → μ}
    (h : l.Perm (m.entries.map fun e => (e.1, f e.2))) (k : κ) :
    ((empty : FinMap κ μ).insertAll l).get k = (m.get k).map f := by
  have hkeys : (l.map Prod.fst).Perm (m.entries.map Prod.fst) := by
    have hmap := h.map Prod.fst
    rwa [List.map_map] at hmap
  have hl : (l.map Prod.fst).Nodup := hkeys.nodup_iff.mpr m.distinct
  cases hget : m.get k with
  | none =>
      have hnot : k ∉ l.map Prod.fst := by
        rw [hkeys.mem_iff]
        intro hmem
        obtain ⟨e, he, rfl⟩ := List.mem_map.mp hmem
        exact get_eq_none.mp hget e.2 he
      rw [get_insertAll_of_notMem hnot]
      rfl
  | some v =>
      have hmem : (k, f v) ∈ l :=
        h.mem_iff.mpr (List.mem_map_of_mem (f := fun e => (e.1, f e.2)) (get_eq_some.mp hget))
      rw [get_insertAll_of_mem hl hmem]
      rfl

/-- The entries of one map written over another. -/
theorem get_insertAll_entries (m n : FinMap κ ν) (k : κ) :
    (m.insertAll n.entries).get k = (n.get k).or (m.get k) := by
  cases hget : n.get k with
  | none =>
      have hnot : k ∉ n.entries.map Prod.fst := by
        intro hmem
        obtain ⟨e, he, rfl⟩ := List.mem_map.mp hmem
        exact get_eq_none.mp hget e.2 he
      rw [get_insertAll_of_notMem hnot, Option.none_or]
  | some v => rw [get_insertAll_of_mem n.distinct (get_eq_some.mp hget), Option.some_or]

/-- Maps written one over another: the last that has the key decides. -/
theorem get_foldl_insertAll {α : Type} (m : FinMap κ ν) (l : List α) (f : α → FinMap κ ν) (k : κ) :
    (l.foldl (fun m a => m.insertAll (f a).entries) m).get k =
      (l.reverse.findSome? fun a => (f a).get k).or (m.get k) := by
  induction l using List.reverseRecOn with
  | nil => rfl
  | append_singleton l a ih =>
      rw [List.foldl_append, List.foldl_cons, List.foldl_nil, get_insertAll_entries, ih,
        List.reverse_append, List.reverse_singleton, List.singleton_append, List.findSome?_cons]
      cases (f a).get k with
      | none => rfl
      | some v => rfl

/-- Changing the values changes nothing where each value is kept. -/
theorem map_get_eq_iff {m : FinMap κ ν} {f : ν → ν} :
    (fun k => (m.get k).map f) = m.get ↔ ∀ k v, m.get k = some v → f v = v := by
  constructor
  · intro h k v hv
    have hk := congrFun h k
    simp only [hv, Option.map_some] at hk
    exact Option.some.inj hk
  · intro h
    funext k
    cases hv : m.get k with
    | none => rfl
    | some v => rw [Option.map_some, h k v hv]

end FinMap

/-! ## One store under two addressings -/

variable {Name A B V : Type}

/-- Two stores hold the same values at the names of a set. -/
def Mirrors (addr : Name → A) (addr' : Name → B) (names : Set Name) (st : A → V) (st' : B → V) :
    Prop :=
  ∀ n ∈ names, st (addr n) = st' (addr' n)

variable {addr : Name → A} {addr' : Name → B} {names : Set Name} {st : A → V} {st' : B → V}

theorem Mirrors.read (h : Mirrors addr addr' names st st') {n : Name} (hn : n ∈ names) :
    st (addr n) = st' (addr' n) := h n hn

/-- Writing one value at one name keeps the stores alike. -/
theorem Mirrors.write [DecidableEq A] [DecidableEq B]
    (h : Mirrors addr addr' names st st') (haddr : Set.InjOn addr names)
    (haddr' : Set.InjOn addr' names) {n : Name} (hn : n ∈ names) (v : V) :
    Mirrors addr addr' names (Function.update st (addr n) v)
      (Function.update st' (addr' n) v) := by
  intro m hm
  by_cases hsame : m = n
  · rw [hsame, Function.update_self, Function.update_self]
  · have hne : addr m ≠ addr n := fun hc => hsame (haddr hm hn hc)
    have hne' : addr' m ≠ addr' n := fun hc => hsame (haddr' hm hn hc)
    rw [Function.update_of_ne hne, Function.update_of_ne hne']
    exact h m hm

end LuxPrecompile.Support
