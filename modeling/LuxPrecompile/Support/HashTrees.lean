import Mathlib.Data.Nat.Bitwise
import Mathlib.Data.Nat.Log
import Mathlib.Data.Set.Function
import Mathlib.Tactic

/-!
# Binary hash trees

A tree is given by its level of leaves and a function `node` that makes a parent from two
neighbours.  A path climbs from one leaf to the root with one sibling a level.  As long as
`node` does not collide on the pairs that occur, the root determines the leaves of a tree of
known height, and a path that reaches the root is the path of the tree.
-/

namespace LuxPrecompile.HashTrees

variable {α β : Type}

/-! ## Levels -/

/-- The height of the least full tree over some leaves. -/
def height (leaves : List α) : ℕ := Nat.clog 2 leaves.length

theorem length_le_pow_height (leaves : List α) : leaves.length ≤ 2 ^ height leaves :=
  Nat.le_pow_clog (by decide) _

/-- The neighbours of a level. -/
def neighbours : List α → List (α × α)
  | a :: b :: rest => (a, b) :: neighbours rest
  | _ => []

theorem neighbours_length (level : List α) : (neighbours level).length = level.length / 2 := by
  induction level using neighbours.induct with
  | case1 a b rest ih =>
      rw [neighbours, List.length_cons, ih, List.length_cons, List.length_cons]
      omega
  | case2 level hshort =>
      rcases level with _ | ⟨a, _ | ⟨b, rest⟩⟩
      · simp [neighbours]
      · simp [neighbours]
      · exact (hshort a b rest rfl).elim

theorem neighbours_getElem?_eq_some {level : List α} {i : ℕ} {a b : α} :
    (neighbours level)[i]? = some (a, b) ↔
      level[2 * i]? = some a ∧ level[2 * i + 1]? = some b := by
  induction level using neighbours.induct generalizing i with
  | case1 x y rest ih =>
      cases i with
      | zero => simp [neighbours]
      | succ i => simp [neighbours, Nat.mul_succ, ih]
  | case2 level hshort =>
      rcases level with _ | ⟨x, _ | ⟨y, rest⟩⟩
      · simp [neighbours]
      · simp [neighbours]
      · exact (hshort x y rest rfl).elim

/-- A level of even length is determined by its neighbours. -/
theorem neighbours_inj {n : ℕ} {level level' : List α} (h : level.length = 2 * n)
    (h' : level'.length = 2 * n) (heq : neighbours level = neighbours level') :
    level = level' := by
  induction n generalizing level level' with
  | zero => rw [List.length_eq_zero_iff.mp h, List.length_eq_zero_iff.mp h']
  | succ n ih =>
      rcases level with _ | ⟨a, _ | ⟨b, rest⟩⟩
      · simp at h
      · simp at h
        omega
      rcases level' with _ | ⟨a', _ | ⟨b', rest'⟩⟩
      · simp at h'
      · simp at h'
        omega
      simp only [neighbours, List.cons.injEq, Prod.mk.injEq] at heq
      obtain ⟨⟨rfl, rfl⟩, hrest⟩ := heq
      simp only [List.length_cons] at h h'
      rw [ih (by omega) (by omega) hrest]

variable (node : α → α → α)

/-- The parents of the neighbours of a level. -/
def levelUp (level : List α) : List α := (neighbours level).map fun p => node p.1 p.2

/-- The level `k` above. -/
def levelsUp : ℕ → List α → List α
  | 0, level => level
  | k + 1, level => levelsUp k (levelUp node level)

theorem levelUp_length_pow {k : ℕ} {level : List α} (h : level.length = 2 ^ (k + 1)) :
    (levelUp node level).length = 2 ^ k := by
  rw [levelUp, List.length_map, neighbours_length, h, pow_succ,
    Nat.mul_div_cancel _ (by decide)]

theorem levelsUp_length {k : ℕ} (m : ℕ) {level : List α} (h : level.length = 2 ^ (m + k)) :
    (levelsUp node m level).length = 2 ^ k := by
  induction m generalizing level with
  | zero =>
      rw [Nat.zero_add] at h
      exact h
  | succ m ih =>
      apply ih
      apply levelUp_length_pow
      rw [h, Nat.add_right_comm]

theorem levelsUp_add (m k : ℕ) (level : List α) :
    levelsUp node (m + k) level = levelsUp node k (levelsUp node m level) := by
  induction m generalizing level with
  | zero => rw [Nat.zero_add, levelsUp]
  | succ m ih => rw [Nat.succ_add, levelsUp, levelsUp, ih]

theorem exists_root {k : ℕ} {level : List α} (h : level.length = 2 ^ k) :
    ∃ root, levelsUp node k level = [root] :=
  List.length_eq_one_iff.mp (levelsUp_length (k := 0) node k h)

/-- A parent is made from the two values below it. -/
theorem levelUp_getElem?_eq_some {level : List α} {i : ℕ} {c : α} :
    (levelUp node level)[i]? = some c ↔
      ∃ a b, level[2 * i]? = some a ∧ level[2 * i + 1]? = some b ∧ c = node a b := by
  rw [levelUp, List.getElem?_map, Option.map_eq_some_iff]
  constructor
  · rintro ⟨⟨a, b⟩, hpair, rfl⟩
    obtain ⟨ha, hb⟩ := neighbours_getElem?_eq_some.mp hpair
    exact ⟨a, b, ha, hb, rfl⟩
  · rintro ⟨a, b, ha, hb, rfl⟩
    exact ⟨(a, b), neighbours_getElem?_eq_some.mpr ⟨ha, hb⟩, rfl⟩

/-! ## Paths -/

/-- The siblings met from position `i` on the way up `k` levels. -/
def siblings : ℕ → List α → ℕ → List α
  | 0, _, _ => []
  | k + 1, level, i => level[i ^^^ 1]?.toList ++ siblings k (levelUp node level) (i / 2)

/-- One step of a climb from position `i`. -/
def climbStep (i : ℕ) (a s : α) : α := if i % 2 = 0 then node a s else node s a

/-- The value reached from position `i` along a path of siblings. -/
def climb : List α → ℕ → α → α
  | [], _, a => a
  | s :: path, i, a => climb path (i / 2) (climbStep node i a s)

theorem climb_append (path path' : List α) (i : ℕ) (a : α) :
    climb node (path ++ path') i a =
      climb node path' (i / 2 ^ path.length) (climb node path i a) := by
  induction path generalizing i a with
  | nil => simp [climb]
  | cons s path ih =>
      rw [List.cons_append, climb, climb, ih, List.length_cons, pow_succ',
        Nat.div_div_eq_div_mul]

/-- The sibling of a position in a level of even length. -/
theorem exists_sibling {n i : ℕ} {level : List α} (h : level.length = 2 * n)
    (hi : i < 2 * n) : ∃ s, level[i ^^^ 1]? = some s := by
  have hlt : i ^^^ 1 < level.length := by
    rcases Nat.even_or_odd i with heven | hodd
    · obtain ⟨m, rfl⟩ := heven
      rw [Nat.xor_one_of_even ⟨m, rfl⟩]
      omega
    · rw [Nat.xor_one_of_odd hodd]
      omega
  exact ⟨_, List.getElem?_eq_getElem hlt⟩

/-- A value and its sibling make the parent. -/
theorem levelUp_getElem?_half {level : List α} {i : ℕ} {a s : α} (ha : level[i]? = some a)
    (hs : level[i ^^^ 1]? = some s) :
    (levelUp node level)[i / 2]? = some (climbStep node i a s) := by
  rw [levelUp_getElem?_eq_some, climbStep]
  rcases Nat.even_or_odd' i with ⟨m, rfl | rfl⟩
  · rw [Nat.xor_one_of_even (even_two_mul m)] at hs
    refine ⟨a, s, ?_, ?_, if_pos (by omega)⟩
    · rw [Nat.mul_div_cancel_left m (by decide)]
      exact ha
    · rw [Nat.mul_div_cancel_left m (by decide)]
      exact hs
  · rw [Nat.xor_one_of_odd (odd_two_mul_add_one m), Nat.add_sub_cancel] at hs
    have hhalf : (2 * m + 1) / 2 = m := by omega
    refine ⟨s, a, ?_, ?_, if_neg (by omega)⟩
    · rw [hhalf]
      exact hs
    · rw [hhalf]
      exact ha

theorem siblings_length {k : ℕ} {level : List α} (h : level.length = 2 ^ k) {i : ℕ}
    (hi : i < 2 ^ k) : (siblings node k level i).length = k := by
  induction k generalizing level i with
  | zero => rfl
  | succ k ih =>
      rw [pow_succ'] at hi
      obtain ⟨s, hs⟩ := exists_sibling (h.trans (pow_succ' 2 k)) hi
      rw [siblings, hs, Option.toList_some, List.singleton_append, List.length_cons,
        ih (levelUp_length_pow node h) (by omega)]

/-- The siblings of a leaf lead to the root. -/
theorem climb_siblings {k : ℕ} {level : List α} (h : level.length = 2 ^ k) {i : ℕ} {a : α}
    (ha : level[i]? = some a) :
    levelsUp node k level = [climb node (siblings node k level i) i a] := by
  induction k generalizing level i a with
  | zero =>
      obtain ⟨b, rfl⟩ := List.length_eq_one_iff.mp h
      cases i with
      | zero =>
          obtain rfl := Option.some.inj ha
          rfl
      | succ i => cases ha
  | succ k ih =>
      have hi : i < 2 * 2 ^ k := by
        rw [← pow_succ', ← h]
        exact (List.getElem?_eq_some_iff.mp ha).1
      obtain ⟨s, hs⟩ := exists_sibling (h.trans (pow_succ' 2 k)) hi
      rw [siblings, hs, levelsUp, Option.toList_some, List.singleton_append, climb]
      exact ih (levelUp_length_pow node h) (levelUp_getElem?_half node ha hs)

/-! ## Binding -/

/-- The pairs hashed in `k` levels. -/
def treePairs : ℕ → List α → List (α × α)
  | 0, _ => []
  | k + 1, level => neighbours level ++ treePairs k (levelUp node level)

/-- The pairs hashed along a path. -/
def climbPairs : List α → ℕ → α → List (α × α)
  | [], _, _ => []
  | s :: path, i, a =>
      (if i % 2 = 0 then (a, s) else (s, a)) :: climbPairs path (i / 2) (climbStep node i a s)

/-- No two of the listed pairs have one parent. -/
def CollisionFree (pairs : List (α × α)) : Prop :=
  Set.InjOn (fun p : α × α => node p.1 p.2) {p | p ∈ pairs}

variable {node}

theorem CollisionFree.of_nodup {pairs : List (α × α)}
    (h : (pairs.map fun p => node p.1 p.2).Nodup) : CollisionFree node pairs :=
  fun _ hp _ hq heq => List.inj_on_of_nodup_map h hp hq heq

theorem CollisionFree.mono {pairs pairs' : List (α × α)} (h : CollisionFree node pairs)
    (hsub : pairs' ⊆ pairs) : CollisionFree node pairs' :=
  Set.InjOn.mono (fun _ hp => hsub hp) h

theorem CollisionFree.eq {pairs : List (α × α)} (h : CollisionFree node pairs) {a b c d : α}
    (hab : (a, b) ∈ pairs) (hcd : (c, d) ∈ pairs) (heq : node a b = node c d) :
    a = c ∧ b = d :=
  Prod.mk.inj (h hab hcd heq)

/-- Two lists of pairs with the same parents are the same. -/
theorem CollisionFree.map_inj {pairs l l' : List (α × α)} (h : CollisionFree node pairs)
    (hl : l ⊆ pairs) (hl' : l' ⊆ pairs)
    (heq : l.map (fun p => node p.1 p.2) = l'.map fun p => node p.1 p.2) : l = l' := by
  induction l generalizing l' with
  | nil => exact (List.map_eq_nil_iff.mp heq.symm).symm
  | cons p l ih =>
      cases l' with
      | nil => cases heq
      | cons p' l' =>
          rw [List.cons_subset] at hl hl'
          obtain ⟨hhead, htail⟩ := List.cons.inj heq
          rw [h hl.1 hl'.1 hhead, ih hl.2 hl'.2 htail]

/-- Two trees of one height with one root have the same leaves. -/
theorem levelsUp_inj {k : ℕ} {level level' : List α} (h : level.length = 2 ^ k)
    (h' : level'.length = 2 ^ k)
    (hfree : CollisionFree node (treePairs node k level ++ treePairs node k level'))
    (heq : levelsUp node k level = levelsUp node k level') : level = level' := by
  induction k generalizing level level' with
  | zero => exact heq
  | succ k ih =>
      have hup : levelUp node level = levelUp node level' := by
        apply ih (levelUp_length_pow node h) (levelUp_length_pow node h') _ heq
        apply hfree.mono
        simp only [treePairs]
        intro p hp
        simp only [List.mem_append] at hp ⊢
        tauto
      rw [pow_succ'] at h h'
      apply neighbours_inj h h'
      apply hfree.map_inj _ _ hup
      · intro p hp
        simp only [treePairs, List.mem_append]
        exact .inl (.inl hp)
      · intro p hp
        simp only [treePairs, List.mem_append]
        exact .inr (.inl hp)

theorem neighbours_subset_treePairs {k : ℕ} {level : List α} :
    neighbours level ⊆ treePairs node (k + 1) level :=
  List.subset_append_left _ _

/-- A path that reaches the root of a tree of its length starts at a leaf of the tree and is
the path of that leaf. -/
theorem climb_eq_root {k : ℕ} {level path : List α} {i : ℕ} {a : α}
    (h : level.length = 2 ^ k) (hpath : path.length = k) (hi : i < 2 ^ k)
    (hfree : CollisionFree node (treePairs node k level ++ climbPairs node path i a))
    (hroot : levelsUp node k level = [climb node path i a]) :
    level[i]? = some a ∧ path = siblings node k level i := by
  induction k generalizing level path i a with
  | zero =>
      obtain rfl := List.length_eq_zero_iff.mp hpath
      obtain rfl : i = 0 := by simpa using hi
      rw [levelsUp] at hroot
      rw [hroot]
      exact ⟨rfl, rfl⟩
  | succ k ih =>
      obtain ⟨s, path, rfl⟩ := List.exists_cons_of_length_eq_add_one hpath
      rw [List.length_cons, Nat.succ_inj] at hpath
      rw [pow_succ'] at hi
      obtain ⟨hparent, hrest⟩ := ih (levelUp_length_pow node h) hpath (by omega)
        (hfree.mono (by
          intro p hp
          simp only [treePairs, climbPairs, List.mem_append, List.mem_cons] at hp ⊢
          tauto)) hroot
      obtain ⟨b, c, hb, hc, hnode⟩ := (levelUp_getElem?_eq_some node).mp hparent
      have hbelow : (b, c) ∈ neighbours level := by
        have hat := neighbours_getElem?_eq_some.mpr ⟨hb, hc⟩
        exact List.mem_of_getElem? hat
      have hmem : (b, c) ∈ treePairs node (k + 1) level ++ climbPairs node (s :: path) i a :=
        List.mem_append_left _ (neighbours_subset_treePairs hbelow)
      have hlast : (if i % 2 = 0 then (a, s) else (s, a)) ∈
          treePairs node (k + 1) level ++ climbPairs node (s :: path) i a :=
        List.mem_append_right _ List.mem_cons_self
      rw [siblings, ← hrest]
      rcases Nat.even_or_odd' i with ⟨m, rfl | rfl⟩
      · rw [if_pos (by omega)] at hlast
        rw [climbStep, if_pos (by omega)] at hnode
        obtain ⟨rfl, rfl⟩ := hfree.eq hlast hmem hnode
        rw [Nat.mul_div_cancel_left m (by decide)] at hb hc
        rw [Nat.xor_one_of_even (even_two_mul m), hc]
        exact ⟨hb, rfl⟩
      · rw [if_neg (by omega)] at hlast
        rw [climbStep, if_neg (by omega)] at hnode
        obtain ⟨rfl, rfl⟩ := hfree.eq hlast hmem hnode
        have hhalf : (2 * m + 1) / 2 = m := by omega
        rw [hhalf] at hb hc
        rw [Nat.xor_one_of_odd (odd_two_mul_add_one m), Nat.add_sub_cancel, hb]
        exact ⟨hc, rfl⟩

variable (node) in
/-- The pairs hashed above a level of a tree are pairs of the tree. -/
theorem treePairs_levelsUp_subset (m k : ℕ) (level : List α) :
    treePairs node k (levelsUp node m level) ⊆ treePairs node (m + k) level := by
  induction m generalizing level with
  | zero =>
      rw [levelsUp, Nat.zero_add]
      exact List.Subset.refl _
  | succ m ih =>
      rw [Nat.succ_add, levelsUp, treePairs]
      exact List.Subset.trans (ih _) (List.subset_append_right _ _)

variable (node) in
theorem treePairs_subset_add (m k : ℕ) (level : List α) :
    treePairs node m level ⊆ treePairs node (m + k) level := by
  induction m generalizing level with
  | zero => exact List.nil_subset _
  | succ m ih =>
      rw [Nat.succ_add, treePairs, treePairs]
      exact List.append_subset.mpr ⟨List.subset_append_left _ _,
        List.Subset.trans (ih _) (List.subset_append_right _ _)⟩

/-- A value above the leaves is the parent of a hashed pair. -/
theorem exists_pair_of_mem_levelsUp {m : ℕ} {level : List α} {a : α}
    (h : a ∈ levelsUp node (m + 1) level) :
    ∃ p ∈ treePairs node (m + 1) level, node p.1 p.2 = a := by
  induction m generalizing level with
  | zero =>
      obtain ⟨p, hp, rfl⟩ := List.mem_map.mp h
      exact ⟨p, neighbours_subset_treePairs hp, rfl⟩
  | succ m ih =>
      obtain ⟨p, hp, rfl⟩ := ih h
      exact ⟨p, List.mem_append_right _ hp, rfl⟩

variable (node) in
theorem climbPairs_append (path path' : List α) (i : ℕ) (a : α) :
    climbPairs node (path ++ path') i a =
      climbPairs node path i a ++
        climbPairs node path' (i / 2 ^ path.length) (climb node path i a) := by
  induction path generalizing i a with
  | nil => simp [climb, climbPairs]
  | cons s path ih =>
      rw [List.cons_append, climbPairs, ih, climbPairs, climb, List.length_cons, pow_succ',
        Nat.div_div_eq_div_mul, List.cons_append]

variable (node) in
/-- A climb of at least one step ends in the parent of a hashed pair. -/
theorem exists_pair_of_climb {path : List α} (hpath : path ≠ []) (i : ℕ) (a : α) :
    ∃ p ∈ climbPairs node path i a, node p.1 p.2 = climb node path i a := by
  obtain ⟨path, s, rfl⟩ := (List.eq_nil_or_concat path).resolve_left hpath
  rw [List.concat_eq_append, climb_append, climbPairs_append]
  refine ⟨_, List.mem_append_right _ List.mem_cons_self, ?_⟩
  rw [climb, climb, climbStep]
  split_ifs
  · rfl
  · rfl

/-- Where no leaf is a parent, a path that reaches the root has the length of the tree. -/
theorem climb_length_eq {k : ℕ} {level path : List α} {i : ℕ} {a : α}
    (h : level.length = 2 ^ k) (hi : i < 2 ^ path.length)
    (hfree : CollisionFree node (treePairs node k level ++ climbPairs node path i a))
    (hleaf : ∀ p ∈ treePairs node k level ++ climbPairs node path i a,
      node p.1 p.2 ≠ a ∧ node p.1 p.2 ∉ level)
    (hroot : levelsUp node k level = [climb node path i a]) : path.length = k := by
  rcases Nat.lt_trichotomy path.length k with hshort | heq | hlong
  · obtain ⟨m, rfl⟩ : ∃ m, k = (m + 1) + path.length := ⟨k - path.length - 1, by omega⟩
    rw [levelsUp_add] at hroot
    have hsub := treePairs_levelsUp_subset node (m + 1) path.length level
    obtain ⟨hat, -⟩ := climb_eq_root (levelsUp_length node (m + 1) h) rfl hi
      (hfree.mono (List.append_subset.mpr
        ⟨List.Subset.trans hsub (List.subset_append_left _ _),
          List.subset_append_right _ _⟩)) hroot
    obtain ⟨p, hp, hparent⟩ := exists_pair_of_mem_levelsUp (List.mem_of_getElem? hat)
    have hp' := treePairs_subset_add node (m + 1) path.length level hp
    exact ((hleaf p (List.mem_append_left _ hp')).1 hparent).elim
  · exact heq
  · have hsplit := List.take_append_drop (path.length - k) path
    have hdrop : (path.drop (path.length - k)).length = k := by
      rw [List.length_drop]
      omega
    have htake : (path.take (path.length - k)).length = path.length - k := by
      rw [List.length_take]
      omega
    have hne : path.take (path.length - k) ≠ [] := by
      intro hnil
      rw [hnil, List.length_nil] at htake
      omega
    have hindex : i / 2 ^ (path.length - k) < 2 ^ k := by
      rw [Nat.div_lt_iff_lt_mul (by positivity), ← pow_add]
      exact lt_of_lt_of_eq hi (by congr 1; omega)
    have hpairs := climbPairs_append node (path.take (path.length - k))
      (path.drop (path.length - k)) i a
    rw [hsplit, htake] at hpairs
    have hclimb := climb_append node (path.take (path.length - k))
      (path.drop (path.length - k)) i a
    rw [hsplit, htake] at hclimb
    rw [hpairs] at hfree hleaf
    rw [hclimb] at hroot
    obtain ⟨hat, -⟩ := climb_eq_root h hdrop hindex
      (hfree.mono (List.append_subset.mpr ⟨List.subset_append_left _ _,
        List.Subset.trans (List.subset_append_right _ _) (List.subset_append_right _ _)⟩)) hroot
    obtain ⟨p, hp, hparent⟩ := exists_pair_of_climb node hne i a
    rw [← hparent] at hat
    exact ((hleaf p (List.mem_append_right _ (List.mem_append_left _ hp))).2
      (List.mem_of_getElem? hat)).elim

/-- Along one path two starting values with one end are the same. -/
theorem climb_inj {path : List α} {i : ℕ} {a b : α}
    (hfree : CollisionFree node (climbPairs node path i a ++ climbPairs node path i b))
    (heq : climb node path i a = climb node path i b) : a = b := by
  induction path generalizing i a b with
  | nil => exact heq
  | cons s path ih =>
      have hstep : climbStep node i a s = climbStep node i b s := by
        refine ih (hfree.mono ?_) heq
        intro p hp
        simp only [climbPairs, List.mem_append, List.mem_cons] at hp ⊢
        tauto
      have ha : (if i % 2 = 0 then (a, s) else (s, a)) ∈
          climbPairs node (s :: path) i a ++ climbPairs node (s :: path) i b :=
        List.mem_append_left _ List.mem_cons_self
      have hb : (if i % 2 = 0 then (b, s) else (s, b)) ∈
          climbPairs node (s :: path) i a ++ climbPairs node (s :: path) i b :=
        List.mem_append_right _ List.mem_cons_self
      simp only [climbStep] at hstep
      split_ifs at hstep ha hb
      · exact (hfree.eq ha hb hstep).1
      · exact (hfree.eq ha hb hstep).2

theorem map_climb {node' : β → β → β} {φ : α → β}
    (hφ : ∀ a b, φ (node a b) = node' (φ a) (φ b)) (path : List α) (i : ℕ) (a : α) :
    φ (climb node path i a) = climb node' (path.map φ) i (φ a) := by
  induction path generalizing i a with
  | nil => rfl
  | cons s path ih =>
      rw [climb, ih, List.map_cons, climb, climbStep, climbStep, apply_ite φ, hφ, hφ]

end LuxPrecompile.HashTrees
