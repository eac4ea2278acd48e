import LuxPrecompile.Evm.Word

/-!
# The storage of one account

A contract's words by slot.  The slots of a precompile are hashes of the names it
gives them, so a model keeps them apart by name.  A vault keeps what it owes of
each asset in such words.
-/

namespace LuxPrecompile.Evm

/-- The words an account keeps, by slot. -/
abbrev Store (Slot : Type) := Slot → Word

namespace Store

variable {Slot : Type} [DecidableEq Slot]

/-- `SetState`. -/
def set (st : Store Slot) (slot : Slot) (value : Word) : Store Slot :=
  Function.update st slot value

@[simp]
theorem set_self (st : Store Slot) (slot : Slot) (value : Word) :
    st.set slot value slot = value := by
  simp [set]

@[simp]
theorem set_of_ne (st : Store Slot) {slot other : Slot} (value : Word) (h : other ≠ slot) :
    st.set slot value other = st other := by
  simp [set, h]

@[simp]
theorem set_set (st : Store Slot) (slot : Slot) (value value' : Word) :
    (st.set slot value).set slot value' = st.set slot value' := by
  simp [set]

theorem set_same (st : Store Slot) (slot : Slot) : st.set slot (st slot) = st := by
  simp [set]

theorem foldl_set_of_ne (slotAt : ℕ → Slot) (word : ℕ → Word) (st : Store Slot) (n : ℕ)
    {slot : Slot} (h : ∀ i < n, slot ≠ slotAt i) :
    ((List.range n).foldl (fun st i => st.set (slotAt i) (word i)) st) slot = st slot := by
  induction n with
  | zero => rfl
  | succ n ih =>
      rw [List.range_succ, List.foldl_append, List.foldl_cons, List.foldl_nil,
        set_of_ne _ _ (h n (Nat.lt_succ_self n))]
      exact ih fun i hi => h i (Nat.lt_succ_of_lt hi)

/-- After a loop of writes to distinct slots each holds its word. -/
theorem foldl_set_self (slotAt : ℕ → Slot) (word : ℕ → Word) (st : Store Slot) {n : ℕ}
    (hinj : ∀ i < n, ∀ j < n, slotAt i = slotAt j → i = j) {i : ℕ} (hi : i < n) :
    ((List.range n).foldl (fun st i => st.set (slotAt i) (word i)) st) (slotAt i) = word i := by
  induction n with
  | zero => exact absurd hi (Nat.not_lt_zero i)
  | succ n ih =>
      rw [List.range_succ, List.foldl_append, List.foldl_cons, List.foldl_nil]
      by_cases hlast : i = n
      · rw [hlast, set_self]
      · have hne : slotAt i ≠ slotAt n := fun hc =>
          hlast (hinj i hi n (Nat.lt_succ_self n) hc)
        rw [set_of_ne _ _ hne]
        exact ih (fun j hj k hk => hinj j (Nat.lt_succ_of_lt hj) k (Nat.lt_succ_of_lt hk))
          (by omega)

end Store

/-! ## Reserves -/

/-- What a vault owes of each asset, a word each. -/
abbrev Reserves := Store Address

namespace Reserves

variable (r : Reserves) (asset : Address)

def load : ℕ := wordToUint (r asset)

def store (v : ℕ) : Reserves := r.set asset (uintWord v)

def add (delta : ℕ) : Reserves := r.store asset (r.load asset + delta)

/-- `none` is a refusal: more than is owed. -/
def sub (amount : ℕ) : Option Reserves :=
  if r.load asset < amount then none else some (r.store asset (r.load asset - amount))

variable {r asset}

theorem load_store (v : ℕ) (a : Address) :
    (r.store asset v).load a = if a = asset then v % 2 ^ 256 else r.load a := by
  unfold load store
  split_ifs with h
  · rw [h, Store.set_self, wordToUint_uintWord]
  · rw [Store.set_of_ne _ _ h]

theorem sub_eq_some {amount : ℕ} {r' : Reserves} :
    r.sub asset amount = some r' ↔
      amount ≤ r.load asset ∧ r' = r.store asset (r.load asset - amount) := by
  unfold sub
  split_ifs with h
  · simp [not_le.mpr h]
  · simp [not_lt.mp h, eq_comm]

end Reserves

end LuxPrecompile.Evm
