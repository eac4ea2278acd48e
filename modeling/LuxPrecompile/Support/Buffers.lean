import Mathlib.Data.List.Basic
import Mathlib.Tactic

/-!
# Counted loops over flat buffers

A counted loop whose body may fail, and buffers that hold a matrix row by row.
A loop that stores one cell after another leaves the cells it computed between
an untouched prefix and an untouched suffix; a loop that stores one row after
another leaves the matrix of those rows.
-/

namespace LuxPrecompile.Buffers

section Loops

variable {σ : Type*}

/-- `for i := 0; i < n; i++` over a body that may fail. -/
def loop (n : ℕ) (body : ℕ → σ → Option σ) (s : σ) : Option σ :=
  (List.range n).foldlM (fun s i => body i s) s

@[simp]
theorem loop_zero (body : ℕ → σ → Option σ) (s : σ) : loop 0 body s = some s := rfl

theorem loop_succ (n : ℕ) (body : ℕ → σ → Option σ) (s : σ) :
    loop (n + 1) body s = loop n body s >>= body n := by
  simp [loop, List.range_succ, List.foldlM_append]

theorem loop_congr {n : ℕ} {body body' : ℕ → σ → Option σ} {s : σ}
    (h : ∀ i < n, ∀ s, body i s = body' i s) : loop n body s = loop n body' s := by
  induction n with
  | zero => rfl
  | succ n ih =>
      rw [loop_succ, loop_succ, ih fun i hi => h i (by omega)]
      exact congrArg _ (funext fun s => h n n.lt_succ_self s)

/-- What every iteration establishes from the one before holds at the end. -/
theorem loop_invariant {n : ℕ} {body : ℕ → σ → Option σ} {s : σ} (I : ℕ → σ → Prop)
    (hstart : I 0 s) (hbody : ∀ i < n, ∀ s, I i s → ∃ s', body i s = some s' ∧ I (i + 1) s') :
    ∃ s', loop n body s = some s' ∧ I n s' := by
  induction n with
  | zero => exact ⟨s, rfl, hstart⟩
  | succ n ih =>
      obtain ⟨s', hs', hI⟩ := ih fun i hi => hbody i (by omega)
      obtain ⟨s'', hs'', hI'⟩ := hbody n n.lt_succ_self s' hI
      exact ⟨s'', by rw [loop_succ, hs']; exact hs'', hI'⟩

theorem loop_trace {n : ℕ} {body : ℕ → σ → Option σ} (f : ℕ → σ)
    (hbody : ∀ i < n, body i (f i) = some (f (i + 1))) : loop n body (f 0) = some (f n) := by
  have hrun : ∃ s', loop n body (f 0) = some s' ∧ s' = f n :=
    loop_invariant (fun i s => s = f i) rfl
      fun i hi s hs => ⟨f (i + 1), by rw [hs, hbody i hi], rfl⟩
  obtain ⟨s', hs', rfl⟩ := hrun
  exact hs'

theorem loop_eq_foldl {n : ℕ} {body : ℕ → σ → Option σ} {g : σ → ℕ → σ} {s : σ}
    (hbody : ∀ i < n, ∀ s, body i s = some (g s i)) :
    loop n body s = some ((List.range n).foldl g s) := by
  refine loop_trace (fun i => (List.range i).foldl g s) fun i hi => ?_
  rw [hbody i hi, List.range_succ, List.foldl_append, List.foldl_cons, List.foldl_nil]

/-- A loop with an iteration that fails from every state fails. -/
theorem loop_eq_none {n i : ℕ} {body : ℕ → σ → Option σ} {s : σ} (hi : i < n)
    (hbody : ∀ s, body i s = none) : loop n body s = none := by
  induction n with
  | zero => exact absurd hi i.not_lt_zero
  | succ n ih =>
      rw [loop_succ]
      rcases Nat.lt_succ_iff_lt_or_eq.mp hi with hlt | rfl
      · rw [ih hlt]
        rfl
      · cases loop i body s with
        | none => rfl
        | some s' => exact hbody s'

end Loops

section Stores

variable {α : Type*}

/-- `out[p] = v`, which fails outside the buffer. -/
def store (out : List α) (p : ℕ) (v : α) : Option (List α) :=
  if p < out.length then some (out.set p v) else none

theorem store_append {front rest : List α} {a v : α} {p : ℕ} (hp : p = front.length) :
    store (front ++ a :: rest) p v = some (front ++ v :: rest) := by
  subst hp
  rw [store, if_pos (by simp), List.set_append_right _ _ (le_refl _), Nat.sub_self,
    List.set_cons_zero]

/-- The part of a buffer from an offset on. -/
def sliceFrom (xs : List α) (off : ℕ) : Option (List α) :=
  if off ≤ xs.length then some (xs.drop off) else none

theorem sliceFrom_of_le {xs : List α} {off : ℕ} (h : off ≤ xs.length) :
    sliceFrom xs off = some (xs.drop off) := if_pos h

theorem getElem?_eq_getD {xs : List α} {i : ℕ} (h : i < xs.length) (a : α) :
    xs[i]? = some (xs.getD i a) := by
  rw [List.getD_eq_getElem?_getD, List.getElem?_eq_getElem h, Option.getD_some]

theorem getElem?_of_drop_eq {xs ys : List α} {i : ℕ} (h : xs.drop i = ys.drop i) :
    xs[i]? = ys[i]? := by
  have hfirst : (xs.drop i)[0]? = (ys.drop i)[0]? := by rw [h]
  rwa [List.getElem?_drop, List.getElem?_drop] at hfirst

/-- A loop that stores the cells `v 0, v 1, …` from position `p` on.  A cell may
be read from the part of the buffer that is not yet overwritten. -/
theorem loop_store {n p : ℕ} {out : List α} {cell : ℕ → List α → Option α} {v : ℕ → α}
    (hfit : p + n ≤ out.length)
    (hcell : ∀ i < n, ∀ out', out'.drop (p + i) = out.drop (p + i) → cell i out' = some (v i)) :
    loop n (fun i out => cell i out >>= store out (p + i)) out =
      some (out.take p ++ (List.range n).map v ++ out.drop (p + n)) := by
  have hfront : ∀ i, i ≤ n → (out.take p ++ (List.range i).map v).length = p + i := by
    intro i hi
    simp only [List.length_append, List.length_take, List.length_map, List.length_range]
    omega
  let state : ℕ → List α := fun i => out.take p ++ (List.range i).map v ++ out.drop (p + i)
  have htrace : loop n (fun i out => cell i out >>= store out (p + i)) (state 0) =
      some (state n) := by
    refine loop_trace state fun i hi => ?_
    have hrest : (state i).drop (p + i) = out.drop (p + i) :=
      List.drop_left' (hfront i hi.le)
    have hnext : out.drop (p + i) = out[p + i] :: out.drop (p + i + 1) :=
      List.drop_eq_getElem_cons (by omega)
    calc
      (cell i (state i) >>= store (state i) (p + i)) =
          store (state i) (p + i) (v i) := by rw [hcell i hi _ hrest]; rfl
      _ = store (out.take p ++ (List.range i).map v ++ out[p + i] :: out.drop (p + i + 1))
            (p + i) (v i) := by simp only [state, hnext]
      _ = some (out.take p ++ (List.range i).map v ++ v i :: out.drop (p + i + 1)) :=
          store_append (hfront i hi.le).symm
      _ = some (state (i + 1)) := by simp [state, List.range_succ, Nat.add_assoc]
  simpa [state] using htrace

end Stores

section Matrices

variable {α : Type*} {m n : ℕ} {f g : ℕ → ℕ → α}

/-- The buffer of `m` rows of `n` cells. -/
def matrix (m n : ℕ) (f : ℕ → ℕ → α) : List α :=
  (List.range m).flatMap fun r => (List.range n).map (f r)

theorem matrix_succ (m n : ℕ) (f : ℕ → ℕ → α) :
    matrix (m + 1) n f = matrix m n f ++ (List.range n).map (f m) := by
  simp [matrix, List.range_succ]

@[simp]
theorem length_matrix (m n : ℕ) (f : ℕ → ℕ → α) : (matrix m n f).length = m * n := by
  induction m with
  | zero => simp [matrix]
  | succ m ih =>
      rw [matrix_succ, List.length_append, ih, List.length_map, List.length_range,
        Nat.succ_mul]

theorem cell_lt {m n r c : ℕ} (hr : r < m) (hc : c < n) : r * n + c < m * n :=
  calc
    r * n + c < r * n + n := by omega
    _ = (r + 1) * n := by ring
    _ ≤ m * n := Nat.mul_le_mul_right n hr

/-- A cell of a matrix stands at its row-major position. -/
theorem matrix_getElem? {r c : ℕ} (hr : r < m) (hc : c < n) :
    (matrix m n f)[r * n + c]? = some (f r c) := by
  induction m with
  | zero => exact absurd hr r.not_lt_zero
  | succ m ih =>
      rw [matrix_succ]
      rcases Nat.lt_succ_iff_lt_or_eq.mp hr with hlt | rfl
      · rw [List.getElem?_append_left (by rw [length_matrix]; exact cell_lt hlt hc)]
        exact ih hlt
      · rw [List.getElem?_append_right (by rw [length_matrix]; omega), length_matrix,
          Nat.add_sub_cancel_left, List.getElem?_map, List.getElem?_range hc]
        rfl

theorem matrix_congr (h : ∀ r < m, ∀ c < n, f r c = g r c) : matrix m n f = matrix m n g := by
  induction m with
  | zero => rfl
  | succ m ih =>
      have hlast : (List.range n).map (f m) = (List.range n).map (g m) :=
        List.map_congr_left fun c hc => h m m.lt_succ_self c (List.mem_range.mp hc)
      rw [matrix_succ, matrix_succ, ih fun r hr => h r (by omega), hlast]

/-- The first rows of a matrix are a matrix. -/
theorem take_matrix {k : ℕ} (hk : k ≤ m) : (matrix m n f).take (k * n) = matrix k n f := by
  induction m with
  | zero =>
      obtain rfl : k = 0 := by omega
      simp [matrix]
  | succ m ih =>
      rcases Nat.eq_or_lt_of_le hk with rfl | hlt
      · rw [List.take_of_length_le (by rw [length_matrix])]
      · rw [matrix_succ, List.take_append_of_le_length
          (by rw [length_matrix]; exact Nat.mul_le_mul_right n (by omega)), ih (by omega)]

theorem matrix_getElem?_div {i : ℕ} (hi : i < m * n) :
    (matrix m n f)[i]? = some (f (i / n) (i % n)) := by
  have hn : 0 < n := Nat.pos_of_ne_zero fun h => by simp [h] at hi
  have hrow : i / n < m := Nat.div_lt_of_lt_mul (by rwa [Nat.mul_comm])
  have hcell := matrix_getElem? (f := f) hrow (Nat.mod_lt i hn)
  rwa [Nat.div_add_mod'] at hcell

theorem map_range_eq_matrix (m n : ℕ) (f : ℕ → ℕ → α) :
    ((List.range (m * n)).map fun i => f (i / n) (i % n)) = matrix m n f := by
  apply List.ext_getElem?
  intro i
  by_cases hi : i < m * n
  · rw [matrix_getElem?_div hi, List.getElem?_map, List.getElem?_range hi]
    rfl
  · rw [List.getElem?_eq_none (by simpa using hi), List.getElem?_eq_none (by simpa using hi)]

theorem matrix_one (f : ℕ → ℕ → α) : matrix 1 n f = (List.range n).map (f 0) := by
  simp [matrix]

/-- A loop that stores row after row leaves the matrix of the rows, whatever the
buffer held before.  The state may carry more than the buffer. -/
theorem loop_rows {σ : Type*} {body : ℕ → σ → Option σ} {s : σ} (buffer : σ → List α)
    (I : σ → Prop) (hlength : (buffer s).length = m * n) (hstart : I s)
    (hbody : ∀ r < m, ∀ s, I s → (buffer s).length = m * n →
      ∃ s', body r s = some s' ∧ I s' ∧
        buffer s' = (buffer s).take (r * n) ++ (List.range n).map (f r) ++
          (buffer s).drop (r * n + n)) :
    ∃ s', loop m body s = some s' ∧ I s' ∧ buffer s' = matrix m n f := by
  have hrows : ∃ s', loop m body s = some s' ∧ I s' ∧
      buffer s' = matrix m n f ++ (buffer s).drop (m * n) := by
    refine loop_invariant (fun r s' => I s' ∧ buffer s' = matrix r n f ++ (buffer s).drop (r * n))
      ⟨hstart, by simp [matrix]⟩ ?_
    rintro r hr s' ⟨hI, hs⟩
    have hle : r * n + n ≤ m * n := by
      rw [← Nat.succ_mul]
      exact Nat.mul_le_mul_right n hr
    have hlen : (buffer s').length = m * n := by
      rw [hs, List.length_append, length_matrix, List.length_drop, hlength]
      omega
    obtain ⟨s'', hs'', hI', hrow⟩ := hbody r hr s' hI hlen
    refine ⟨s'', hs'', hI', ?_⟩
    have hfront : (buffer s').take (r * n) = matrix r n f := by
      rw [hs, List.take_left' (length_matrix r n f)]
    have hrest : (buffer s').drop (r * n + n) = (buffer s).drop ((r + 1) * n) := by
      rw [hs, ← List.drop_drop, List.drop_left' (length_matrix r n f), List.drop_drop,
        Nat.succ_mul]
    rw [hrow, hfront, hrest, matrix_succ]
  obtain ⟨s', hs', hI, hs⟩ := hrows
  refine ⟨s', hs', hI, ?_⟩
  rw [hs, List.drop_of_length_le (by rw [hlength]), List.append_nil]

/-- A loop over a buffer alone that stores row after row. -/
theorem loop_matrix {body : ℕ → List α → Option (List α)} {out : List α}
    (hlength : out.length = m * n)
    (hbody : ∀ r < m, ∀ out, out.length = m * n →
      body r out = some (out.take (r * n) ++ (List.range n).map (f r) ++ out.drop (r * n + n))) :
    loop m body out = some (matrix m n f) := by
  obtain ⟨out', hout', -, hmatrix⟩ := loop_rows id (fun _ => True) hlength trivial
    fun r hr out _ hlen => ⟨_, hbody r hr out hlen, trivial, rfl⟩
  rw [hout', ← hmatrix]
  rfl

end Matrices

end LuxPrecompile.Buffers
