import LuxPrecompile.Bridge.Registry

/-!
# Rows of a list of chains

The registry as a list of chains: adding a row appends to the list, removing one
moves the last chain into its place, and a patched header replaces one chain.
-/

namespace LuxPrecompile.Bridge

open Evm Support

/-! ## Frame lemmas

Row numbers stay below `2 ^ 33`, so the offsets of different words differ. -/

theorem offset_toNat {i : ℕ} (hi : i < 2 ^ 33) {k : UInt64} (hk : k < 3) :
    (1 + UInt64.ofNat i * 3 + k).toNat = 1 + i * 3 + k.toNat := by
  have hk' : k.toNat < 3 := UInt64.lt_iff_toNat_lt.mp hk
  rw [UInt64.toNat_add, UInt64.toNat_add, UInt64.toNat_mul, uint64_toNat_ofNat (by omega)]
  simp only [UInt64.reduceToNat]
  omega

theorem slotRow_inj {i j : ℕ} (hi : i < 2 ^ 33) (hj : j < 2 ^ 33) {k l : UInt64} (hk : k < 3)
    (hl : l < 3) (h : slotRow (UInt64.ofNat i) k = slotRow (UInt64.ofNat j) l) :
    i = j ∧ k = l := by
  have hoffset := congrArg UInt64.toNat (Slot.registry.inj h)
  rw [offset_toNat hi hk, offset_toNat hj hl] at hoffset
  have hk' : k.toNat < 3 := UInt64.lt_iff_toNat_lt.mp hk
  have hl' : l.toNat < 3 := UInt64.lt_iff_toNat_lt.mp hl
  exact ⟨by omega, UInt64.toNat_inj.mp (by omega)⟩

theorem slotRow_ne_count {i : ℕ} (hi : i < 2 ^ 33) {k : UInt64} (hk : k < 3) :
    slotRow (UInt64.ofNat i) k ≠ slotCount := by
  intro h
  have hoffset := congrArg UInt64.toNat (Slot.registry.inj h)
  rw [offset_toNat hi hk, UInt64.toNat_zero] at hoffset
  omega

/-- The words of a row: its header and its name. -/
def rowWord (k : UInt64) (header name : Word) : Word := if k = 0 then header else name

theorem setRow_apply (st : Storage) {i j : ℕ} (hi : i < 2 ^ 33) (hj : j < 2 ^ 33) {k : UInt64}
    (hk : k < 2) (header name : Word) :
    setRow st (UInt64.ofNat i) header name (slotRow (UInt64.ofNat j) k) =
      if j = i then rowWord k header name else st (slotRow (UInt64.ofNat j) k) := by
  have hk3 : k < 3 := UInt64.lt_of_lt_of_le hk (by decide)
  by_cases hij : j = i
  · subst hij
    rw [if_pos rfl, setRow, rowWord]
    by_cases hzero : k = 0
    · subst hzero
      have hne : slotRow (UInt64.ofNat j) 0 ≠ slotRow (UInt64.ofNat j) 1 :=
        fun h => absurd (slotRow_inj hj hj (by decide) (by decide) h).2 (by decide)
      rw [if_pos rfl, Store.set_of_ne _ _ hne, Store.set_self]
    · have hone : k = 1 := by
        rw [UInt64.lt_iff_toNat_lt] at hk
        rw [← UInt64.toNat_inj] at hzero ⊢
        simp only [UInt64.reduceToNat] at hk hzero ⊢
        omega
      rw [if_neg hzero, hone, Store.set_self]
  · have hne : ∀ l : UInt64, l < 3 → slotRow (UInt64.ofNat j) k ≠ slotRow (UInt64.ofNat i) l :=
      fun l hl h => hij (slotRow_inj hj hi hk3 hl h).1
    rw [if_neg hij, setRow, Store.set_of_ne _ _ (hne 1 (by decide)),
      Store.set_of_ne _ _ (hne 0 (by decide))]

theorem clearRow_apply (st : Storage) {i j : ℕ} (hi : i < 2 ^ 33) (hj : j < 2 ^ 33)
    (hij : j ≠ i) {k : UInt64} (hk : k < 3) :
    clearRow st (UInt64.ofNat i) (slotRow (UInt64.ofNat j) k) =
      st (slotRow (UInt64.ofNat j) k) := by
  have hne : ∀ l : UInt64, l < 3 → slotRow (UInt64.ofNat j) k ≠ slotRow (UInt64.ofNat i) l :=
    fun l hl h => hij (slotRow_inj hj hi hk hl h).1
  rw [clearRow, Store.set_of_ne _ _ (hne 2 (by decide)),
    Store.set_of_ne _ _ (hne 1 (by decide)), Store.set_of_ne _ _ (hne 0 (by decide))]

theorem setCount_apply (st : Storage) (n : UInt64) {i : ℕ} (hi : i < 2 ^ 33) {k : UInt64}
    (hk : k < 3) :
    setCount st n (slotRow (UInt64.ofNat i) k) = st (slotRow (UInt64.ofNat i) k) :=
  Store.set_of_ne _ _ (slotRow_ne_count hi hk)

@[simp]
theorem count_setCount (st : Storage) (n : UInt64) : count (setCount st n) = n := by
  have hlt := n.toNat_lt
  rw [count, setCount, Store.set_self, wordSlice, hashBytes, encodeU64, BitVec.toNat_ofNat,
    Nat.mod_eq_of_lt (by omega)]
  exact (congrArg bytesToUint64 (slice_natToBytes 24 8 n.toNat)).trans
    (bytesToUint64_uint64Bytes n)

/-! ## Rows of a list of chains -/

/-- The rows of a registry are the chains of a list, in its order. -/
structure Rows (st : Storage) (chains : List Chain) : Prop where
  few : chains.length ≤ 2 ^ 32
  names : ∀ c ∈ chains, c.name.length ≤ 32
  count_eq : count st = UInt64.ofNat chains.length
  words : ∀ i (h : i < chains.length), ∀ k < 2,
    st (slotRow (UInt64.ofNat i) k) = rowWord k (packHeader chains[i]) (packName chains[i])

theorem Rows.count_toNat {st : Storage} {chains : List Chain} (h : Rows st chains) :
    (count st).toNat = chains.length := by
  have hfew := h.few
  rw [h.count_eq, uint64_toNat_ofNat (by omega)]

theorem Rows.row_eq {st : Storage} {chains : List Chain} (h : Rows st chains) {i : ℕ}
    (hi : i < chains.length) : row st (UInt64.ofNat i) = chains[i].stored := by
  rw [row, h.words i hi 0 (by decide), h.words i hi 1 (by decide)]
  exact unpackRow_pack (h.names _ (List.getElem_mem hi))

theorem Rows.all_eq {st : Storage} {chains : List Chain} (h : Rows st chains) :
    all st = chains.map Chain.stored := by
  apply List.ext_getElem
  · simp [all, h.count_toNat]
  · intro i hi hi'
    rw [List.length_map] at hi'
    rw [List.getElem_map, ← h.row_eq hi']
    simp [all]

theorem Rows.get_eq {st : Storage} {chains : List Chain} (h : Rows st chains) (id : ChainID) :
    get st id = (lookup Chain.id chains id).map Chain.stored := by
  rw [get, h.all_eq, lookup, lookup, List.find?_map]
  rfl

theorem Rows.indexOf_eq {st : Storage} {chains : List Chain} (h : Rows st chains)
    (id : ChainID) :
    indexOf st id = (chains.findIdx? fun c => c.id = id).map UInt64.ofNat := by
  rw [indexOf, h.all_eq, List.findIdx?_map]
  rfl

theorem Rows.congr {st st' : Storage} {chains : List Chain} (h : Rows st chains)
    (heq : ∀ offset, st' (.registry offset) = st (.registry offset)) : Rows st' chains where
  few := h.few
  names := h.names
  count_eq := by rw [← h.count_eq, count, count, slotCount, heq]
  words i hi k hk := (heq _).trans (h.words i hi k hk)

theorem Rows.append {st : Storage} {chains : List Chain} (h : Rows st chains) {c : Chain}
    (hfew : chains.length < 2 ^ 32) (hname : c.name.length ≤ 32) :
    Rows (addRow st c) (chains ++ [c]) := by
  rw [addRow, h.count_eq]
  refine ⟨by simpa using hfew, ?_, by simp [UInt64.ofNat_add], fun i hi k hk => ?_⟩
  · intro c' hc'
    rcases List.mem_append.mp hc' with hc' | hc'
    · exact h.names c' hc'
    · rwa [List.mem_singleton.mp hc']
  · have hk3 : k < 3 := UInt64.lt_of_lt_of_le hk (by decide)
    rw [List.length_append, List.length_singleton] at hi
    rw [setCount_apply _ _ (by omega) hk3, setRow_apply _ (by omega) (by omega) hk]
    by_cases hlast : i = chains.length
    · subst hlast
      rw [if_pos rfl, List.getElem_concat_length rfl]
    · rw [if_neg hlast, h.words i (by omega) k hk, List.getElem_append_left (by omega)]

/-- The row of a chain that is removed is taken by the last row. -/
theorem Rows.swapRemove {st : Storage} {chains : List Chain} (h : Rows st chains) {i : ℕ}
    (hi : i < chains.length) :
    Rows (removeRow st (UInt64.ofNat i) (count st - 1)) (Support.swapRemove chains i) := by
  have hfew := h.few
  have hlength := swapRemove_length hi
  have hlast : count st - 1 = UInt64.ofNat (chains.length - 1) := by
    rw [h.count_eq, UInt64.ofNat_sub (by omega)]
    rfl
  have heq_iff : UInt64.ofNat i = UInt64.ofNat (chains.length - 1) ↔ i = chains.length - 1 :=
    ⟨uint64_ofNat_inj (by omega) (by omega), fun heq => by rw [heq]⟩
  refine ⟨by omega, ?_, by rw [hlength, removeRow, count_setCount, hlast], ?_⟩
  · intro c hc
    exact h.names c ((swapRemove_perm hi).subset (List.mem_cons_of_mem _ hc))
  · intro j hj k hk
    have hk3 : k < 3 := UInt64.lt_of_lt_of_le hk (by decide)
    rw [hlength] at hj
    rw [getElem_swapRemove hi, removeRow, hlast, setCount_apply _ _ (by omega) hk3,
      clearRow_apply _ (by omega) (by omega) (by omega) hk3]
    by_cases hmoved : i = chains.length - 1
    · rw [if_neg (by simpa using heq_iff.mpr hmoved), if_neg (by omega)]
      exact h.words j (by omega) k hk
    · rw [if_pos (mt heq_iff.mp hmoved), setRow_apply _ (by omega) (by omega) hk]
      by_cases hij : j = i
      · rw [if_pos hij, if_pos hij, h.words _ (by omega) 0 (by decide),
          h.words _ (by omega) 1 (by decide)]
        rfl
      · rw [if_neg hij, if_neg hij]
        exact h.words j (by omega) k hk

/-- Patching a header changes the gateway of its chain. -/
theorem Rows.patch {st : Storage} {chains : List Chain} (h : Rows st chains) {i : ℕ}
    (hi : i < chains.length) (gw : Address) :
    Rows (patchRow st (UInt64.ofNat i) gw)
      (chains.set i { chains[i] with gatewayAt := gw }) := by
  have hfew := h.few
  refine ⟨by simpa using hfew, ?_, ?_, ?_⟩
  · intro c hc
    rcases List.mem_or_eq_of_mem_set hc with hc | rfl
    · exact h.names c hc
    · exact h.names chains[i] (List.getElem_mem hi)
  · rw [List.length_set, ← h.count_eq, count, patchRow,
      Store.set_of_ne _ _ (slotRow_ne_count (by omega) (by decide)).symm, count]
  · intro j hj k hk
    have hk3 : k < 3 := UInt64.lt_of_lt_of_le hk (by decide)
    rw [List.length_set] at hj
    rw [patchRow, h.words i hi 0 (by decide), rowWord, if_pos rfl, patchGateway_packHeader]
    by_cases hij : j = i
    · subst hij
      rw [List.getElem_set_self]
      by_cases hzero : k = 0
      · subst hzero
        rw [Store.set_self]
        rfl
      · have hne : slotRow (UInt64.ofNat j) k ≠ slotRow (UInt64.ofNat j) 0 :=
          fun heq => hzero (slotRow_inj (by omega) (by omega) hk3 (by decide) heq).2
        rw [Store.set_of_ne _ _ hne, h.words j hi k hk, rowWord, rowWord, if_neg hzero,
          if_neg hzero]
        rfl
    · have hne : slotRow (UInt64.ofNat j) k ≠ slotRow (UInt64.ofNat i) 0 :=
        fun heq => hij (slotRow_inj (by omega) (by omega) hk3 (by decide) heq).1
      rw [Store.set_of_ne _ _ hne, h.words j hj k hk, List.getElem_set_ne (Ne.symm hij)]

/-- The rows a seed writes. -/
theorem seedRows_apply (st : Storage) (chains : List Chain) (hfew : chains.length ≤ 2 ^ 32)
    {i : ℕ} (hi : i < chains.length) {k : UInt64} (hk : k < 2) :
    seedRows st chains (slotRow (UInt64.ofNat i) k) =
      rowWord k (packHeader chains[i]) (packName chains[i]) := by
  induction chains using List.reverseRecOn with
  | nil => simp at hi
  | append_singleton chains c ih =>
      rw [List.length_append, List.length_singleton] at hi hfew
      have hseed : seedRows st (chains ++ [c]) =
          setRow (seedRows st chains) (UInt64.ofNat chains.length) (packHeader c)
            (packName c) := by
        simp [seedRows, List.zipIdx_append]
      rw [hseed, setRow_apply _ (by omega) (by omega) hk]
      by_cases hlast : i = chains.length
      · subst hlast
        rw [if_pos rfl, List.getElem_concat_length rfl]
      · rw [if_neg hlast, ih (by omega) (by omega), List.getElem_append_left (by omega)]

theorem Rows.seed {st : Storage} (hempty : count st = 0) {chains : List Chain}
    (hfew : chains.length ≤ 2 ^ 32) (hnames : ∀ c ∈ chains, c.name.length ≤ 32) :
    Rows (seedRegistry st chains).1 chains := by
  have haccepted : (chains.any fun c => decide (32 < c.name.length)) = false := by
    simpa using hnames
  rw [seedRegistry, hempty, if_neg (by decide), haccepted, if_neg (by decide)]
  refine ⟨hfew, hnames, count_setCount _ _, fun i hi k hk => ?_⟩
  have hk3 : k < 3 := UInt64.lt_of_lt_of_le hk (by decide)
  exact (setCount_apply _ _ (by omega) hk3).trans (seedRows_apply st chains hfew hi hk)

theorem Rows.seed_refused {st : Storage} (hempty : count st = 0) {chains : List Chain}
    (hnames : ¬ ∀ c ∈ chains, c.name.length ≤ 32) : Rows (seedRegistry st chains).1 [] := by
  have hrefused : (chains.any fun c => decide (32 < c.name.length)) = true := by
    push Not at hnames
    simpa using hnames
  rw [seedRegistry, hempty, if_neg (by decide), hrefused, if_pos rfl]
  exact ⟨by simp, by simp, hempty, by simp⟩

end LuxPrecompile.Bridge
