import Mathlib.Data.List.Basic
import Mathlib.Data.Set.Function
import Mathlib.Tactic

/-!
# Chains of hashes

A chain goes from state to state along a list: at each member it asks a query that depends on
the member and on the state, and the next state is the hash of the query.  Two chains that ask
different queries once never meet again, as long as a state can be read off the query it asks
and no two of the queries asked have the same hash.
-/

namespace LuxPrecompile.Support.HashChains

variable {α β σ : Type} (query : α → σ → Option β) (hash : β → σ)

/-- The state at the end of a chain, if every member has a query. -/
def walk : σ → List α → Option σ
  | c, [] => some c
  | c, a :: l =>
      match query a c with
      | none => none
      | some q => walk (hash q) l

/-- The queries that a chain asks. -/
def queries : σ → List α → List β
  | _, [] => []
  | c, a :: l =>
      match query a c with
      | none => []
      | some q => q :: queries (hash q) l

variable {query hash}

@[simp]
theorem walk_nil (c : σ) : walk query hash c [] = some c := rfl

theorem walk_cons_eq_some {c d : σ} {a : α} {l : List α} :
    walk query hash c (a :: l) = some d ↔
      ∃ q, query a c = some q ∧ walk query hash (hash q) l = some d := by
  rcases hq : query a c with _ | q
  · simp [walk, hq]
  · simp [walk, hq]

theorem queries_cons {c : σ} {a : α} {q : β} (l : List α) (hq : query a c = some q) :
    queries query hash c (a :: l) = q :: queries query hash (hash q) l := by
  rw [queries, hq]

/-- A chain along two lists goes along one and then along the other. -/
theorem walk_append {c d : σ} {l l' : List α} :
    walk query hash c (l ++ l') = some d ↔
      ∃ m, walk query hash c l = some m ∧ walk query hash m l' = some d := by
  induction l generalizing c with
  | nil => simp
  | cons a l ih =>
      rw [List.cons_append, walk_cons_eq_some]
      simp only [ih, walk_cons_eq_some]
      constructor
      · rintro ⟨q, hq, m, hm, hd⟩
        exact ⟨m, ⟨q, hq, hm⟩, hd⟩
      · rintro ⟨m, ⟨q, hq, hm⟩, hd⟩
        exact ⟨q, hq, m, hm, hd⟩

/-- The queries of a part of a chain are queries of the chain. -/
theorem queries_subset_append {c : σ} (l l' : List α) :
    queries query hash c l ⊆ queries query hash c (l ++ l') := by
  induction l generalizing c with
  | nil => simp [queries]
  | cons a l ih =>
      rw [List.cons_append, queries, queries]
      rcases query a c with _ | q
      · exact List.Subset.refl _
      · exact List.cons_subset_cons q ih

theorem queries_append_subset {c m : σ} {l : List α} (l' : List α)
    (h : walk query hash c l = some m) :
    queries query hash m l' ⊆ queries query hash c (l ++ l') := by
  induction l generalizing c with
  | nil =>
      obtain rfl := Option.some.inj h
      exact List.Subset.refl _
  | cons a l ih =>
      obtain ⟨q, hq, hm⟩ := walk_cons_eq_some.mp h
      rw [List.cons_append, queries_cons _ hq]
      exact fun p hp => List.mem_cons_of_mem q (ih hm hp)

/-- Two members ask different queries wherever both ask one. -/
def Differ (query : α → σ → Option β) (a a' : α) (c c' : σ) : Prop :=
  ∀ q q', query a c = some q → query a' c' = some q' → q ≠ q'

/-- Chains that begin with different queries end in different states. -/
theorem walk_ne_of_differ (hstate : ∀ a c c', c ≠ c' → Differ query a a c c') {l : List α} :
    ∀ {a a' : α} {c c' d d' : σ}, Differ query a a' c c' →
      Set.InjOn hash {q | q ∈ queries query hash c (a :: l) ++ queries query hash c' (a' :: l)} →
        walk query hash c (a :: l) = some d → walk query hash c' (a' :: l) = some d' → d ≠ d' := by
  induction l with
  | nil =>
      intro a a' c c' d d' hdiffer hinj hd hd'
      obtain ⟨q, hq, hd⟩ := walk_cons_eq_some.mp hd
      obtain ⟨q', hq', hd'⟩ := walk_cons_eq_some.mp hd'
      obtain rfl := Option.some.inj hd
      obtain rfl := Option.some.inj hd'
      rw [queries_cons [] hq, queries_cons [] hq'] at hinj
      exact fun heq => hdiffer q q' hq hq' (hinj (by simp) (by simp) heq)
  | cons b l ih =>
      intro a a' c c' d d' hdiffer hinj hd hd'
      obtain ⟨q, hq, hd⟩ := walk_cons_eq_some.mp hd
      obtain ⟨q', hq', hd'⟩ := walk_cons_eq_some.mp hd'
      rw [queries_cons _ hq, queries_cons _ hq'] at hinj
      have hne : hash q ≠ hash q' := fun heq =>
        hdiffer q q' hq hq' (hinj (by simp) (by simp) heq)
      refine ih (hstate b _ _ hne) (hinj.mono ?_) hd hd'
      intro p hp
      rcases List.mem_append.mp hp with hp | hp
      · exact List.mem_append_left _ (List.mem_cons_of_mem q hp)
      · exact List.mem_append_right _ (List.mem_cons_of_mem q' hp)

/-- Chains along one list from different states end in different states. -/
theorem walk_ne_of_ne (hstate : ∀ a c c', c ≠ c' → Differ query a a c c') {l : List α}
    {c c' d d' : σ} (hne : c ≠ c')
    (hinj : Set.InjOn hash {q | q ∈ queries query hash c l ++ queries query hash c' l})
    (hd : walk query hash c l = some d) (hd' : walk query hash c' l = some d') : d ≠ d' := by
  rcases l with _ | ⟨a, l⟩
  · obtain rfl := Option.some.inj hd
    obtain rfl := Option.some.inj hd'
    exact hne
  · exact walk_ne_of_differ hstate (hstate a c c' hne) hinj hd hd'

/-- A chain with one member replaced by one that asks other queries ends in another state. -/
theorem walk_replace_ne (hstate : ∀ a c c', c ≠ c' → Differ query a a c c')
    {before after : List α} {a a' : α} {c d d' : σ} (hdiffer : ∀ m, Differ query a a' m m)
    (hinj : Set.InjOn hash {q | q ∈ queries query hash c (before ++ a :: after) ++
      queries query hash c (before ++ a' :: after)})
    (hd : walk query hash c (before ++ a :: after) = some d)
    (hd' : walk query hash c (before ++ a' :: after) = some d') : d ≠ d' := by
  obtain ⟨m, hm, hd⟩ := walk_append.mp hd
  obtain ⟨m', hm', hd'⟩ := walk_append.mp hd'
  obtain rfl := Option.some.inj (hm.symm.trans hm')
  refine walk_ne_of_differ hstate (hdiffer m) (hinj.mono fun p hp => ?_) hd hd'
  rcases List.mem_append.mp hp with hp | hp
  · exact List.mem_append_left _ (queries_append_subset _ hm hp)
  · exact List.mem_append_right _ (queries_append_subset _ hm hp)

/-- The same for a member at a place of the list. -/
theorem walk_set_ne (hstate : ∀ a c c', c ≠ c' → Differ query a a c c') {l : List α} {i : ℕ}
    {a a' : α} {c d d' : σ} (hi : l[i]? = some a) (hdiffer : ∀ m, Differ query a a' m m)
    (hinj : Set.InjOn hash {q | q ∈ queries query hash c l ++ queries query hash c (l.set i a')})
    (hd : walk query hash c l = some d) (hd' : walk query hash c (l.set i a') = some d') :
    d ≠ d' := by
  obtain ⟨hlt, rfl⟩ := List.getElem?_eq_some_iff.mp hi
  have hsplit : l = l.take i ++ l[i] :: l.drop (i + 1) := by
    rw [← List.drop_eq_getElem_cons hlt, List.take_append_drop]
  have hset : l.set i a' = l.take i ++ a' :: l.drop (i + 1) := by
    rw [List.set_eq_take_append_cons_drop, if_pos hlt]
  rw [hset] at hinj hd'
  rw [hsplit] at hd
  refine walk_replace_ne hstate hdiffer ?_ hd hd'
  rw [← hsplit]
  exact hinj

theorem walk_take {c d : σ} {l : List α} (h : walk query hash c l = some d) (i : ℕ) :
    ∃ m, walk query hash c (l.take i) = some m := by
  rw [← List.take_append_drop i l] at h
  obtain ⟨m, hm, -⟩ := walk_append.mp h
  exact ⟨m, hm⟩

/-- The state after one more member is the hash of its query. -/
theorem walk_take_succ {c m m' : σ} {l : List α} {i : ℕ} {a : α} (hi : l[i]? = some a)
    (hm : walk query hash c (l.take i) = some m)
    (hm' : walk query hash c (l.take (i + 1)) = some m') :
    ∃ q, query a m = some q ∧ m' = hash q := by
  rw [List.take_add_one, hi, Option.toList_some] at hm'
  obtain ⟨m₀, hm₀, hlast⟩ := walk_append.mp hm'
  obtain rfl := Option.some.inj (hm.symm.trans hm₀)
  obtain ⟨q, hq, hend⟩ := walk_cons_eq_some.mp hlast
  exact ⟨q, hq, (Option.some.inj hend).symm⟩

end LuxPrecompile.Support.HashChains
