import LuxPrecompile.Settle.ByteRecords
import LuxPrecompile.Settle.Codec
import Mathlib.Data.Set.Card

/-!
# The key-value store of the synchronous DEX

`dex/core_store.go`: values of any length under any key, and for each pool an index
of the order rows that are stored.  Against a map from keys to values, `Get` returns
the last value put and not deleted, and the iterator of a pool visits its stored
order rows once each, up to the largest length `slotLen` accepts.
-/

namespace LuxPrecompile.Settle

open Evm Support

/-! ## Order rows -/

def coreOrderPrefix : List UInt8 := ascii ['o', 'r', 'd', 'e', 'r', ':']

/-- The prefix of the order rows of a pool. -/
def orderRowPrefix (poolID : Word) : List UInt8 := coreOrderPrefix ++ hashBytes poolID

def orderRowKey (poolID : Word) (orderID : UInt64) : List UInt8 :=
  orderRowPrefix poolID ++ natToBytes 8 orderID.toNat

def parseOrderKey (key : List UInt8) : Option (Word × UInt64) :=
  if key.length ≠ 6 + 32 + 8 then none
  else if key.take 6 ≠ coreOrderPrefix then none
  else some (bytesToHash (slice key 6 38), UInt64.ofNat (bytesToNat (key.drop 38)))

def parseOrderPrefix (pre : List UInt8) : Option Word :=
  if pre.length ≠ 6 + 32 then none
  else if pre.take 6 ≠ coreOrderPrefix then none
  else some (bytesToHash (pre.drop 6))

namespace EvmStore

/-! ## Values and the order index -/

/-- `evmStore.Get`; `none` is `database.ErrNotFound`. -/
def get (st : Storage) (key : List UInt8) : Option (List UInt8) :=
  readRecord (.coreValue key) st

def has (st : Storage) (key : List UInt8) : Bool :=
  decide ((st (.coreValue key 0)).toNat % 2 ^ 64 ≠ 0)

def indexIDs (st : Storage) (poolID : Word) : List UInt64 :=
  match slotLen (st (.coreIndex poolID 0)) with
  | none => []
  | some n =>
      (List.range n).map fun i =>
        UInt64.ofNat (bytesToNat (wordSlice
          (st (.coreIndex poolID (UInt64.ofNat (i / 4 + 1)))) (i % 4 * 8) (i % 4 * 8 + 8)))

/-- The eight bytes of an order id. -/
def idBytes (orderID : UInt64) : List UInt8 := natToBytes 8 orderID.toNat

/-- `indexWrite`: the count, then four ids a word. -/
def indexWrite (st : Storage) (poolID : Word) (ids : List UInt64) : Storage :=
  (List.range ((ids.length + 3) / 4)).foldl
    (fun st i => st.set (.coreIndex poolID (UInt64.ofNat (i + 1)))
      (packWord (((ids.drop (4 * i)).take 4).flatMap idBytes)))
    (st.set (.coreIndex poolID 0) (BitVec.ofNat 256 (UInt64.ofNat ids.length).toNat))

def indexAdd (st : Storage) (poolID : Word) (orderID : UInt64) : Storage :=
  if orderID ∈ indexIDs st poolID then st
  else indexWrite st poolID (indexIDs st poolID ++ [orderID])

def indexRemove (st : Storage) (poolID : Word) (orderID : UInt64) : Storage :=
  if orderID ∉ indexIDs st poolID then st
  else indexWrite st poolID ((indexIDs st poolID).filter fun id => id ≠ orderID)

def put (st : Storage) (key value : List UInt8) : Storage :=
  let st := writeRecord (.coreValue key) st value
  match parseOrderKey key with
  | some (poolID, orderID) => indexAdd st poolID orderID
  | none => st

def delete (st : Storage) (key : List UInt8) : Storage :=
  let st := st.set (.coreValue key 0) 0
  match parseOrderKey key with
  | some (poolID, orderID) => indexRemove st poolID orderID
  | none => st

/-! ## The iterator -/

/-- `Next` of an `evmOrderIterator` that has the given ids before it: the row it
stops at, with the ids after it. -/
def next (st : Storage) (poolID : Word) :
    List UInt64 → Option ((List UInt8 × List UInt8) × List UInt64)
  | [] => none
  | orderID :: ids =>
      match get st (orderRowKey poolID orderID) with
      | some value => some ((orderRowKey poolID orderID, value), ids)
      | none => next st poolID ids

theorem next_length {st : Storage} {poolID : Word} {ids rest : List UInt64}
    {row : List UInt8 × List UInt8} (h : next st poolID ids = some (row, rest)) :
    rest.length < ids.length := by
  induction ids with
  | nil => cases h
  | cons orderID ids ih =>
      simp only [next] at h
      cases hget : get st (orderRowKey poolID orderID) with
      | none =>
          simp only [hget] at h
          exact Nat.lt_succ_of_lt (ih h)
      | some value =>
          simp only [hget, Option.some.injEq, Prod.mk.injEq] at h
          rw [← h.2]
          exact Nat.lt_succ_self _

/-- The rows visited until `Next` answers false. -/
def visit (st : Storage) (poolID : Word) (ids : List UInt64) :
    List (List UInt8 × List UInt8) :=
  match _h : next st poolID ids with
  | none => []
  | some (row, rest) => row :: visit st poolID rest
termination_by ids.length
decreasing_by exact next_length _h

/-- The rows of `NewIteratorWithPrefix`; every other prefix has none. -/
def iterate (st : Storage) (pre : List UInt8) : List (List UInt8 × List UInt8) :=
  match parseOrderPrefix pre with
  | some poolID => visit st poolID (indexIDs st poolID)
  | none => []

end EvmStore

/-! ## Keys of order rows -/

theorem coreOrderPrefix_length : coreOrderPrefix.length = 6 := by decide

theorem orderRowPrefix_length (poolID : Word) : (orderRowPrefix poolID).length = 38 := by
  rw [orderRowPrefix, List.length_append, coreOrderPrefix_length, hashBytes_length]

theorem take_orderRowPrefix (poolID : Word) (rest : List UInt8) :
    (orderRowPrefix poolID ++ rest).take 6 = coreOrderPrefix := by
  rw [orderRowPrefix, List.append_assoc]
  exact List.take_left' coreOrderPrefix_length

theorem idBytes_read (orderID : UInt64) :
    UInt64.ofNat (bytesToNat (EvmStore.idBytes orderID)) = orderID := by
  have hlt : orderID.toNat < 256 ^ 8 := by
    have h := orderID.toNat_lt
    norm_num at h ⊢
    exact h
  rw [EvmStore.idBytes, bytesToNat_natToBytes hlt, UInt64.ofNat_toNat]

/-- The key of an order row is parsed into its pool and its id. -/
theorem parseOrderKey_orderRowKey (poolID : Word) (orderID : UInt64) :
    parseOrderKey (orderRowKey poolID orderID) = some (poolID, orderID) := by
  have hlength : (orderRowKey poolID orderID).length = 6 + 32 + 8 := by
    rw [orderRowKey, List.length_append, orderRowPrefix_length, natToBytes_length]
  have hpool : slice (orderRowKey poolID orderID) 6 38 = hashBytes poolID := by
    rw [orderRowKey, orderRowPrefix, List.append_assoc,
      slice_append_right (le_of_eq coreOrderPrefix_length), coreOrderPrefix_length,
      slice_append_left (by simp), slice_all (by simp)]
  have hid : (orderRowKey poolID orderID).drop 38 = EvmStore.idBytes orderID :=
    List.drop_left' (orderRowPrefix_length poolID)
  rw [parseOrderKey, if_neg (not_not.mpr hlength), if_neg, hpool, hid, idBytes_read]
  · rw [bytesToHash_hashBytes]
  · exact not_not.mpr (take_orderRowPrefix _ _)

/-- What is parsed as an order row is the key of that row. -/
theorem eq_orderRowKey {key : List UInt8} {poolID : Word} {orderID : UInt64}
    (h : parseOrderKey key = some (poolID, orderID)) : key = orderRowKey poolID orderID := by
  unfold parseOrderKey at h
  split_ifs at h with hlength hprefix
  have hlength := not_not.mp hlength
  have hprefix := not_not.mp hprefix
  simp only [Option.some.injEq, Prod.mk.injEq] at h
  obtain ⟨rfl, rfl⟩ := h
  have hpool : hashBytes (bytesToHash (slice key 6 38)) = slice key 6 38 := by
    apply hashBytes_bytesToHash
    rw [slice, List.length_take, List.length_drop]
    omega
  have hidLength : (key.drop 38).length = 8 := by
    rw [List.length_drop]
    omega
  have hidLt : bytesToNat (key.drop 38) < 2 ^ 64 := by
    have hlt := bytesToNat_lt (key.drop 38)
    rw [hidLength] at hlt
    norm_num at hlt ⊢
    exact hlt
  have hid : natToBytes 8 (UInt64.ofNat (bytesToNat (key.drop 38))).toNat = key.drop 38 := by
    rw [uint64_toNat_ofNat hidLt, ← hidLength, natToBytes_bytesToNat]
  rw [orderRowKey, orderRowPrefix, hpool, hid, ← hprefix]
  have hdrop : key.drop 38 = (key.drop 6).drop 32 := by rw [List.drop_drop]
  rw [hdrop, slice, List.append_assoc, List.take_append_drop, List.take_append_drop]

theorem orderRowKey_inj {poolID poolID' : Word} {orderID orderID' : UInt64}
    (h : orderRowKey poolID orderID = orderRowKey poolID' orderID') :
    poolID = poolID' ∧ orderID = orderID' := by
  have hparse := parseOrderKey_orderRowKey poolID orderID
  rw [h, parseOrderKey_orderRowKey] at hparse
  simp only [Option.some.injEq, Prod.mk.injEq] at hparse
  exact ⟨hparse.1.symm, hparse.2.symm⟩

theorem parseOrderPrefix_orderRowPrefix (poolID : Word) :
    parseOrderPrefix (orderRowPrefix poolID) = some poolID := by
  have hprefix : (orderRowPrefix poolID).take 6 = coreOrderPrefix := by
    have h := take_orderRowPrefix poolID []
    rwa [List.append_nil] at h
  have hpool : (orderRowPrefix poolID).drop 6 = hashBytes poolID :=
    List.drop_left' coreOrderPrefix_length
  rw [parseOrderPrefix, if_neg (not_not.mpr (orderRowPrefix_length poolID)),
    if_neg (not_not.mpr hprefix), hpool, bytesToHash_hashBytes]

namespace EvmStore

/-! ## The index read back -/

/-- The index of a pool holds these ids. -/
structure HoldsIds (st : Storage) (poolID : Word) (ids : List UInt64) : Prop where
  count : st (.coreIndex poolID 0) = BitVec.ofNat 256 ids.length
  data : HoldsData (.coreIndex poolID) st (ids.flatMap idBytes)

theorem idBytes_length (orderID : UInt64) : (idBytes orderID).length = 8 := natToBytes_length _ _

theorem wordCount_ids (ids : List UInt64) :
    wordCount (ids.flatMap idBytes).length = (ids.length + 3) / 4 := by
  rw [length_flatMap_of_length idBytes_length, wordCount]
  omega

theorem recordWord_ids (ids : List UInt64) (i : ℕ) :
    recordWord (ids.flatMap idBytes) i =
      packWord (((ids.drop (4 * i)).take 4).flatMap idBytes) := by
  have hstart : 32 * i = 8 * (4 * i) := by ring
  rw [recordWord, slice, Nat.add_sub_cancel_left, hstart,
    drop_flatMap_of_length idBytes_length, show 32 = 8 * 4 from rfl,
    take_flatMap_of_length idBytes_length]

theorem coreIndex_injective (poolID : Word) : Function.Injective (Slot.coreIndex poolID) :=
  fun _ _ h => (Slot.coreIndex.inj h).2

theorem coreValue_injective (key : List UInt8) : Function.Injective (Slot.coreValue key) :=
  fun _ _ h => (Slot.coreValue.inj h).2

theorem indexWrite_of_ne (st : Storage) (poolID : Word) (ids : List UInt64) {slot : Slot}
    (h : ∀ i, slot ≠ .coreIndex poolID i) : indexWrite st poolID ids slot = st slot := by
  rw [indexWrite]
  rw [foldl_set_of_ne (.coreIndex poolID) _ _ _ fun i _ => h _, Storage.set_of_ne (h 0)]

theorem indexWrite_holds (st : Storage) (poolID : Word) {ids : List UInt64}
    (hids : ids.length < 2 ^ 63) : HoldsIds (indexWrite st poolID ids) poolID ids := by
  have hinj := coreIndex_injective poolID
  constructor
  · rw [indexWrite, foldl_set_of_ne (.coreIndex poolID), Storage.set_self,
      uint64_toNat_ofNat (by omega)]
    intro i hi hc
    have h0 : UInt64.ofNat 0 = UInt64.ofNat (i + 1) := hinj hc
    have heq := uint64_ofNat_inj (by norm_num) (by omega) h0
    omega
  · intro i hi
    rw [wordCount_ids] at hi
    rw [recordWord_ids]
    exact foldl_set_self (.coreIndex poolID) _ _ hinj (by omega) hi

theorem slice_slice (b : List UInt8) {s e i j : ℕ} (h : s + j ≤ e) :
    slice (slice b s e) i j = slice b (s + i) (s + j) := by
  simp only [slice, List.drop_take, List.take_take, List.drop_drop]
  congr 1
  omega

/-- The ids of an index are read back from it. -/
theorem HoldsIds.read {st : Storage} {poolID : Word} {ids : List UInt64}
    (h : HoldsIds st poolID ids) (hids : ids.length ≤ maxSlotLen) :
    indexIDs st poolID = ids := by
  have hmax : maxSlotLen < 2 ^ 31 := by decide
  rw [indexIDs, h.count, slotLen_ofNat (by omega)]
  by_cases hempty : ids.length = 0
  · rw [if_pos (.inl hempty), List.length_eq_zero_iff.mp hempty]
  rw [if_neg (by omega)]
  apply List.ext_getElem
  · simp
  intro i hi hi'
  have hword : i / 4 < wordCount (ids.flatMap idBytes).length := by
    rw [wordCount_ids]
    omega
  have hlength := length_flatMap_of_length idBytes_length ids
  have hbytes : wordSlice (recordWord (ids.flatMap idBytes) (i / 4)) (i % 4 * 8)
      (i % 4 * 8 + 8) = idBytes ids[i] := by
    have hstart : 32 * (i / 4) + i % 4 * 8 = 8 * i := by omega
    rw [recordWord, wordSlice_packWord, slice_slice _ (by omega), ← add_assoc, hstart, slice,
      Nat.add_sub_cancel_left, drop_flatMap_of_length idBytes_length, ← Nat.mul_one 8,
      take_flatMap_of_length idBytes_length, List.take_one_drop_eq_of_lt_length hi']
    · simp
    · rw [slice, List.length_take]
      omega
    · rw [slice, List.length_take, List.length_drop, hlength]
      omega
  rw [List.getElem_map, List.getElem_range, h.data _ hword, hbytes, idBytes_read]

/-- The index of a pool holds the ids of a set, each once. -/
def Indexes (st : Storage) (poolID : Word) (live : Set UInt64) : Prop :=
  ∃ ids : List UInt64, HoldsIds st poolID ids ∧ ids.length ≤ maxSlotLen ∧ ids.Nodup ∧
    ∀ id, id ∈ ids ↔ id ∈ live

theorem Indexes.congr {st st' : Storage} {poolID : Word} {live : Set UInt64}
    (h : Indexes st poolID live)
    (hst : ∀ i, st' (.coreIndex poolID i) = st (.coreIndex poolID i)) :
    Indexes st' poolID live := by
  obtain ⟨ids, hholds, hlength, hnodup, hlive⟩ := h
  refine ⟨ids, ⟨?_, fun i hi => ?_⟩, hlength, hnodup, hlive⟩
  · rw [hst, hholds.count]
  · rw [hst, hholds.data i hi]

theorem length_le_encard {α : Type} [DecidableEq α] {l : List α} {s : Set α} (hnodup : l.Nodup)
    (hl : ∀ a ∈ l, a ∈ s) : (l.length : ℕ∞) ≤ s.encard := by
  rw [← List.toFinset_card_of_nodup hnodup, ← Set.encard_coe_eq_coe_finsetCard]
  apply Set.encard_le_encard
  intro a ha
  exact hl a (List.mem_toFinset.mp ha)

theorem Indexes.add {st : Storage} {poolID : Word} {live : Set UInt64}
    (h : Indexes st poolID live) (orderID : UInt64)
    (hroom : (insert orderID live).encard ≤ maxSlotLen) :
    Indexes (indexAdd st poolID orderID) poolID (insert orderID live) := by
  obtain ⟨ids, hholds, hlength, hnodup, hlive⟩ := h
  have hread := hholds.read hlength
  rw [indexAdd, hread]
  by_cases hmem : orderID ∈ ids
  · rw [if_pos hmem, Set.insert_eq_of_mem ((hlive orderID).mp hmem)]
    exact ⟨ids, hholds, hlength, hnodup, hlive⟩
  · rw [if_neg hmem]
    have hnodup' : (ids ++ [orderID]).Nodup := by
      rw [List.nodup_append_comm, List.singleton_append, List.nodup_cons]
      exact ⟨hmem, hnodup⟩
    have hlive' : ∀ id, id ∈ ids ++ [orderID] ↔ id ∈ insert orderID live := by
      intro id
      rw [List.mem_append, List.mem_singleton, hlive, Set.mem_insert_iff, or_comm]
    have hlength' : (ids ++ [orderID]).length ≤ maxSlotLen := by
      have hle := length_le_encard hnodup' fun id hid => (hlive' id).mp hid
      exact_mod_cast hle.trans hroom
    have hmax : maxSlotLen < 2 ^ 31 := by decide
    exact ⟨_, indexWrite_holds st poolID (by omega), hlength', hnodup', hlive'⟩

theorem Indexes.remove {st : Storage} {poolID : Word} {live : Set UInt64}
    (h : Indexes st poolID live) (orderID : UInt64) :
    Indexes (indexRemove st poolID orderID) poolID (live \ {orderID}) := by
  obtain ⟨ids, hholds, hlength, hnodup, hlive⟩ := h
  have hread := hholds.read hlength
  rw [indexRemove, hread]
  by_cases hmem : orderID ∈ ids
  · rw [if_neg (not_not.mpr hmem)]
    have hlength' : (ids.filter fun id => id ≠ orderID).length ≤ maxSlotLen :=
      (List.length_filter_le _ _).trans hlength
    have hmax : maxSlotLen < 2 ^ 31 := by decide
    refine ⟨_, indexWrite_holds st poolID (by omega), hlength', hnodup.filter _, fun id => ?_⟩
    simp [hlive]
  · rw [if_pos hmem]
    have hnot : orderID ∉ live := fun hc => hmem ((hlive orderID).mpr hc)
    rw [Set.sdiff_singleton_eq_self hnot]
    exact ⟨ids, hholds, hlength, hnodup, hlive⟩

/-! ## Iteration -/

theorem visit_of_none {st : Storage} {poolID : Word} {ids : List UInt64}
    (h : next st poolID ids = none) : visit st poolID ids = [] := by
  rw [visit]
  split
  · rfl
  · simp_all

theorem visit_of_some {st : Storage} {poolID : Word} {ids rest : List UInt64}
    {row : List UInt8 × List UInt8} (h : next st poolID ids = some (row, rest)) :
    visit st poolID ids = row :: visit st poolID rest := by
  rw [visit]
  split
  · simp_all
  · simp_all

theorem visit_skip {st : Storage} {poolID : Word} {orderID : UInt64} {ids : List UInt64}
    (h : get st (orderRowKey poolID orderID) = none) :
    visit st poolID (orderID :: ids) = visit st poolID ids := by
  have hnext : next st poolID (orderID :: ids) = next st poolID ids := by simp only [next, h]
  cases hrest : next st poolID ids with
  | none => rw [visit_of_none hrest, visit_of_none (hnext.trans hrest)]
  | some result => rw [visit_of_some hrest, visit_of_some (hnext.trans hrest)]

/-- The iterator visits the ids of the index that have a value. -/
theorem visit_eq (st : Storage) (poolID : Word) (ids : List UInt64) :
    visit st poolID ids = ids.filterMap fun orderID =>
      (get st (orderRowKey poolID orderID)).map fun value =>
        (orderRowKey poolID orderID, value) := by
  induction ids with
  | nil =>
      rw [visit]
      rfl
  | cons orderID ids ih =>
      cases hget : get st (orderRowKey poolID orderID) with
      | some value =>
          have hnext : next st poolID (orderID :: ids) =
              some ((orderRowKey poolID orderID, value), ids) := by
            simp only [next, hget]
          rw [visit_of_some hnext, ih, List.filterMap_cons_some (by rw [hget]; rfl)]
      | none => rw [visit_skip hget, ih, List.filterMap_cons_none (by rw [hget]; rfl)]

end EvmStore

/-! ## The map it implements -/

/-- A map from keys to values. -/
abbrev KeyValue := List UInt8 → Option (List UInt8)

/-- An operation on the store. -/
inductive StoreOp
  | put (key value : List UInt8)
  | delete (key : List UInt8)
  | get (key : List UInt8)

/-- The operation on the map. -/
def KeyValue.exec (m : KeyValue) : StoreOp → KeyValue
  | .put key value => Function.update m key (some value)
  | .delete key => Function.update m key none
  | .get _ => m

/-- The operation on the storage of the account. -/
def EvmStore.exec (st : Storage) : StoreOp → Storage
  | .put key value => EvmStore.put st key value
  | .delete key => EvmStore.delete st key
  | .get _ => st

/-- The order rows of a pool that the map holds. -/
def KeyValue.live (m : KeyValue) (poolID : Word) : Set UInt64 :=
  {orderID | m (orderRowKey poolID orderID) ≠ none}

/-- A value that is put: not empty, and no longer than a slice can be. -/
def StoreOp.Valid : StoreOp → Prop
  | .put _ value => value ≠ [] ∧ value.length + 31 < 2 ^ 63
  | _ => True

/-- The storage answers as the map does, except that a value `slotLen` rejects reads
as absent. -/
structure Refines (st : Storage) (m : KeyValue) : Prop where
  get : ∀ key, EvmStore.get st key =
    (m key).filter fun value => decide (value.length ≤ maxSlotLen)
  has : ∀ key, EvmStore.has st key = (m key).isSome
  rows : ∀ poolID key value, (key, value) ∈ EvmStore.iterate st (orderRowPrefix poolID) ↔
    (∃ orderID, key = orderRowKey poolID orderID) ∧ m key = some value ∧
      value.length ≤ maxSlotLen
  once : ∀ poolID, ((EvmStore.iterate st (orderRowPrefix poolID)).map Prod.fst).Nodup

/-! ## What the slots hold -/

/-- The slots hold the values of the map and an index of its order rows. -/
structure Stores (st : Storage) (m : KeyValue) : Prop where
  absent : ∀ key, m key = none → st (.coreValue key 0) = 0
  value : ∀ key value, m key = some value →
    (value ≠ [] ∧ value.length + 31 < 2 ^ 63) ∧ HoldsRecord (.coreValue key) st value
  index : ∀ poolID, EvmStore.Indexes st poolID (m.live poolID)

section Steps

variable {st st' : Storage} {m : KeyValue} {key value : List UInt8}

theorem KeyValue.live_update_of_none (m : KeyValue) (hkey : parseOrderKey key = none)
    (v : Option (List UInt8)) (poolID : Word) :
    KeyValue.live (Function.update m key v) poolID = m.live poolID := by
  ext orderID
  have hne : orderRowKey poolID orderID ≠ key := by
    rintro rfl
    rw [parseOrderKey_orderRowKey] at hkey
    cases hkey
  simp only [KeyValue.live, Set.mem_ofPred_eq, Function.update_of_ne hne]

theorem KeyValue.live_update_of_ne (m : KeyValue) {poolID poolID' : Word} (orderID : UInt64)
    (hpool : poolID' ≠ poolID) (v : Option (List UInt8)) :
    KeyValue.live (Function.update m (orderRowKey poolID orderID) v) poolID' =
      m.live poolID' := by
  ext id
  have hne : orderRowKey poolID' id ≠ orderRowKey poolID orderID :=
    fun hc => hpool (orderRowKey_inj hc).1
  simp only [KeyValue.live, Set.mem_ofPred_eq, Function.update_of_ne hne]

theorem KeyValue.live_put (m : KeyValue) (poolID : Word) (orderID : UInt64) :
    KeyValue.live (Function.update m (orderRowKey poolID orderID) (some value)) poolID =
      insert orderID (m.live poolID) := by
  ext id
  by_cases hid : id = orderID
  · simp [KeyValue.live, hid]
  · have hne : orderRowKey poolID id ≠ orderRowKey poolID orderID :=
      fun hc => hid (orderRowKey_inj hc).2
    simp [KeyValue.live, Function.update_of_ne hne, hid]

theorem KeyValue.live_delete (m : KeyValue) (poolID : Word) (orderID : UInt64) :
    KeyValue.live (Function.update m (orderRowKey poolID orderID) none) poolID =
      m.live poolID \ {orderID} := by
  ext id
  by_cases hid : id = orderID
  · simp [KeyValue.live, hid]
  · have hne : orderRowKey poolID id ≠ orderRowKey poolID orderID :=
      fun hc => hid (orderRowKey_inj hc).2
    simp [KeyValue.live, Function.update_of_ne hne, hid]

namespace EvmStore

theorem indexAdd_of_slot (st : Storage) (poolID : Word) (orderID : UInt64) {slot : Slot}
    (h : ∀ i, slot ≠ .coreIndex poolID i) : indexAdd st poolID orderID slot = st slot := by
  unfold indexAdd
  split_ifs
  · rfl
  · exact indexWrite_of_ne _ _ _ h

theorem indexRemove_of_slot (st : Storage) (poolID : Word) (orderID : UInt64) {slot : Slot}
    (h : ∀ i, slot ≠ .coreIndex poolID i) : indexRemove st poolID orderID slot = st slot := by
  unfold indexRemove
  split_ifs
  · exact indexWrite_of_ne _ _ _ h
  · rfl

theorem put_coreValue (st : Storage) (key value key' : List UInt8) (i : UInt64) :
    put st key value (.coreValue key' i) =
      writeRecord (.coreValue key) st value (.coreValue key' i) := by
  unfold put
  cases parseOrderKey key with
  | none => rfl
  | some row => exact indexAdd_of_slot _ _ _ (by simp)

theorem delete_coreValue (st : Storage) (key key' : List UInt8) (i : UInt64) :
    delete st key (.coreValue key' i) = st.set (.coreValue key 0) 0 (.coreValue key' i) := by
  unfold delete
  cases parseOrderKey key with
  | none => rfl
  | some row => exact indexRemove_of_slot _ _ _ (by simp)

/-- `Put` adds an order row to the index of its pool. -/
theorem put_indexes (h : ∀ poolID, Indexes st poolID (m.live poolID)) (poolID : Word)
    (hroom : (KeyValue.live (Function.update m key (some value)) poolID).encard ≤ maxSlotLen) :
    Indexes (put st key value) poolID
      (KeyValue.live (Function.update m key (some value)) poolID) := by
  have hwritten : ∀ poolID,
      Indexes (writeRecord (.coreValue key) st value) poolID (m.live poolID) :=
    fun poolID => (h poolID).congr fun i => writeRecord_of_ne _ _ _ (by simp)
  unfold put
  cases hparse : parseOrderKey key with
  | none =>
      rw [KeyValue.live_update_of_none m hparse]
      exact hwritten poolID
  | some row =>
      obtain ⟨pool, orderID⟩ := row
      have hkey := eq_orderRowKey hparse
      dsimp only
      by_cases hpool : poolID = pool
      · subst hpool
        rw [hkey, KeyValue.live_put] at hroom ⊢
        rw [← hkey]
        exact (hwritten poolID).add orderID hroom
      · rw [hkey, KeyValue.live_update_of_ne m orderID hpool, ← hkey]
        exact (hwritten poolID).congr fun i => indexAdd_of_slot _ _ _ (by simp [hpool])

/-- `Delete` removes an order row from the index of its pool. -/
theorem delete_indexes (h : ∀ poolID, Indexes st poolID (m.live poolID)) (poolID : Word) :
    Indexes (delete st key) poolID (KeyValue.live (Function.update m key none) poolID) := by
  have hwritten : ∀ poolID, Indexes (st.set (.coreValue key 0) 0) poolID (m.live poolID) :=
    fun poolID => (h poolID).congr fun i => Storage.set_of_ne (by simp) _ _
  unfold delete
  cases hparse : parseOrderKey key with
  | none =>
      rw [KeyValue.live_update_of_none m hparse]
      exact hwritten poolID
  | some row =>
      obtain ⟨pool, orderID⟩ := row
      have hkey := eq_orderRowKey hparse
      dsimp only
      by_cases hpool : poolID = pool
      · subst hpool
        rw [hkey, KeyValue.live_delete, ← hkey]
        exact (hwritten poolID).remove orderID
      · rw [hkey, KeyValue.live_update_of_ne m orderID hpool, ← hkey]
        exact (hwritten poolID).congr fun i => indexRemove_of_slot _ _ _ (by simp [hpool])

end EvmStore

theorem Stores.put (h : Stores st m) (hvalue : value ≠ [] ∧ value.length + 31 < 2 ^ 63)
    (hroom : ∀ poolID,
      (KeyValue.live (Function.update m key (some value)) poolID).encard ≤ maxSlotLen) :
    Stores (EvmStore.put st key value) (Function.update m key (some value)) := by
  have hsame : ∀ key' i, key' ≠ key →
      EvmStore.put st key value (.coreValue key' i) = st (.coreValue key' i) := by
    intro key' i hne
    rw [EvmStore.put_coreValue, writeRecord_of_ne _ _ _ (by simp [hne])]
  refine ⟨fun key' habsent => ?_, fun key' value' hpresent => ?_,
    fun poolID => EvmStore.put_indexes h.index poolID (hroom poolID)⟩
  · have hne : key' ≠ key := by
      rintro rfl
      simp at habsent
    rw [Function.update_of_ne hne] at habsent
    rw [hsame key' 0 hne, h.absent key' habsent]
  · by_cases hne : key' = key
    · subst hne
      simp only [Function.update_self, Option.some.injEq] at hpresent
      subst hpresent
      have hholds := writeRecord_holds (EvmStore.coreValue_injective key') st
        (b := value) (by omega)
      exact ⟨hvalue, hholds.congr fun i => EvmStore.put_coreValue st key' value key' i⟩
    · rw [Function.update_of_ne hne] at hpresent
      obtain ⟨hvalid, hholds⟩ := h.value key' value' hpresent
      exact ⟨hvalid, hholds.congr fun i => hsame key' i hne⟩

theorem Stores.delete (h : Stores st m) :
    Stores (EvmStore.delete st key) (Function.update m key none) := by
  refine ⟨fun key' habsent => ?_, fun key' value' hpresent => ?_,
    EvmStore.delete_indexes h.index⟩
  · rw [EvmStore.delete_coreValue]
    by_cases hne : key' = key
    · rw [hne, Storage.set_self]
    · rw [Function.update_of_ne hne] at habsent
      rw [Storage.set_of_ne (by simp [hne]), h.absent key' habsent]
  · have hne : key' ≠ key := by
      rintro rfl
      simp at hpresent
    rw [Function.update_of_ne hne] at hpresent
    obtain ⟨hvalid, hholds⟩ := h.value key' value' hpresent
    refine ⟨hvalid, hholds.congr fun i => ?_⟩
    rw [EvmStore.delete_coreValue, Storage.set_of_ne (by simp [hne])]

theorem Stores.exec (h : Stores st m) {op : StoreOp} (hop : op.Valid)
    (hroom : ∀ poolID, ((m.exec op).live poolID).encard ≤ maxSlotLen) :
    Stores (EvmStore.exec st op) (m.exec op) := by
  cases op with
  | put key value => exact h.put hop hroom
  | delete key => exact h.delete
  | get key => exact h

end Steps

/-! ## Refinement -/

section Answers

variable {st : Storage} {m : KeyValue}

theorem slotLen_zero : slotLen 0 = none := by decide

theorem Stores.get (h : Stores st m) (key : List UInt8) :
    EvmStore.get st key = (m key).filter fun value => decide (value.length ≤ maxSlotLen) := by
  cases hkey : m key with
  | none =>
      rw [EvmStore.get, readRecord, h.absent key hkey, slotLen_zero]
      rfl
  | some value =>
      obtain ⟨⟨hne, hlength⟩, hholds⟩ := h.value key value hkey
      rw [EvmStore.get, hholds.read (by omega) hne, Option.filter_some]
      simp only [decide_eq_true_eq]

theorem Stores.has (h : Stores st m) (key : List UInt8) :
    EvmStore.has st key = (m key).isSome := by
  cases hkey : m key with
  | none =>
      rw [EvmStore.has, h.absent key hkey]
      rfl
  | some value =>
      obtain ⟨⟨hne, hlength⟩, hholds⟩ := h.value key value hkey
      have hpositive : value.length ≠ 0 := fun hc => hne (List.length_eq_zero_iff.mp hc)
      have hword : (BitVec.ofNat 256 value.length).toNat % 2 ^ 64 = value.length := by
        rw [BitVec.toNat_ofNat, Nat.mod_eq_of_lt (by omega : value.length < 2 ^ 256),
          Nat.mod_eq_of_lt (by omega)]
      rw [EvmStore.has, hholds.length, hword]
      simpa using hpositive

theorem iterate_orderRowPrefix {poolID : Word} {ids : List UInt64}
    (hholds : EvmStore.HoldsIds st poolID ids) (hids : ids.length ≤ maxSlotLen) :
    EvmStore.iterate st (orderRowPrefix poolID) = ids.filterMap fun orderID =>
      (EvmStore.get st (orderRowKey poolID orderID)).map fun value =>
        (orderRowKey poolID orderID, value) := by
  rw [EvmStore.iterate, parseOrderPrefix_orderRowPrefix, ← EvmStore.visit_eq,
    ← hholds.read hids]

theorem Stores.rows (h : Stores st m) (poolID : Word) (key value : List UInt8) :
    (key, value) ∈ EvmStore.iterate st (orderRowPrefix poolID) ↔
      (∃ orderID, key = orderRowKey poolID orderID) ∧ m key = some value ∧
        value.length ≤ maxSlotLen := by
  obtain ⟨ids, hholds, hids, -, hlive⟩ := h.index poolID
  rw [iterate_orderRowPrefix hholds hids]
  simp only [List.mem_filterMap, Option.map_eq_some_iff, Prod.mk.injEq, h.get,
    Option.filter_eq_some_iff, decide_eq_true_eq]
  constructor
  · rintro ⟨orderID, -, value', ⟨hvalue, hlength⟩, rfl, rfl⟩
    exact ⟨⟨orderID, rfl⟩, hvalue, hlength⟩
  · rintro ⟨⟨orderID, rfl⟩, hvalue, hlength⟩
    refine ⟨orderID, (hlive orderID).mpr ?_, value, ⟨hvalue, hlength⟩, rfl, rfl⟩
    show m (orderRowKey poolID orderID) ≠ none
    rw [hvalue]
    simp

theorem Stores.once (h : Stores st m) (poolID : Word) :
    ((EvmStore.iterate st (orderRowPrefix poolID)).map Prod.fst).Nodup := by
  obtain ⟨ids, hholds, hids, hnodup, -⟩ := h.index poolID
  rw [iterate_orderRowPrefix hholds hids, List.map_filterMap]
  apply hnodup.filterMap
  intro orderID orderID' key hkey hkey'
  simp only [Option.mem_def, Option.map_map, Option.map_eq_some_iff, Function.comp_apply]
    at hkey hkey'
  obtain ⟨-, -, rfl⟩ := hkey
  obtain ⟨-, -, hsame⟩ := hkey'
  exact (orderRowKey_inj hsame).2.symm

theorem Stores.refines (h : Stores st m) : Refines st m :=
  ⟨h.get, h.has, h.rows, h.once⟩

theorem Stores.start (hvalues : ∀ key, st (.coreValue key 0) = 0)
    (hindex : ∀ poolID, st (.coreIndex poolID 0) = 0) : Stores st fun _ => none := by
  refine ⟨fun key _ => hvalues key, fun key value h => (by cases h), fun poolID => ?_⟩
  refine ⟨[], ⟨hindex poolID, fun i hi => absurd hi (Nat.not_lt_zero i)⟩, Nat.zero_le _,
    List.nodup_nil, fun id => ?_⟩
  simp [KeyValue.live]

theorem Stores.empty : Stores Storage.empty fun _ => none :=
  Stores.start (fun _ => rfl) fun _ => rfl

end Answers

theorem Stores.run {ops : List StoreOp} :
    ∀ {st : Storage} {m : KeyValue}, Stores st m → (∀ op ∈ ops, op.Valid) →
      Along KeyValue.exec
        (fun m op => ∀ poolID, ((m.exec op).live poolID).encard ≤ maxSlotLen) m ops →
      Stores (ops.foldl EvmStore.exec st) (ops.foldl KeyValue.exec m) := by
  induction ops with
  | nil => exact fun h _ _ => h
  | cons op ops ih =>
      intro st m h hvalid hrows
      have hnext := h.exec (hvalid op List.mem_cons_self) hrows.1
      exact ih hnext (fun op' hop' => hvalid op' (List.mem_cons_of_mem op hop')) hrows.2

/-- An operation stores at most one more order row. -/
theorem KeyValue.live_exec (m : KeyValue) (op : StoreOp) (poolID : Word) :
    ((m.exec op).live poolID).encard ≤ (m.live poolID).encard + 1 := by
  cases op with
  | get key => exact le_self_add
  | put key value =>
      cases hparse : parseOrderKey key with
      | none =>
          rw [KeyValue.exec, KeyValue.live_update_of_none m hparse]
          exact le_self_add
      | some row =>
          obtain ⟨pool, orderID⟩ := row
          rw [KeyValue.exec, eq_orderRowKey hparse]
          by_cases hpool : poolID = pool
          · rw [hpool, KeyValue.live_put]
            exact Set.encard_insert_le _ _
          · rw [KeyValue.live_update_of_ne m orderID hpool]
            exact le_self_add
  | delete key =>
      cases hparse : parseOrderKey key with
      | none =>
          rw [KeyValue.exec, KeyValue.live_update_of_none m hparse]
          exact le_self_add
      | some row =>
          obtain ⟨pool, orderID⟩ := row
          rw [KeyValue.exec, eq_orderRowKey hparse]
          by_cases hpool : poolID = pool
          · rw [hpool, KeyValue.live_delete]
            exact (Set.encard_le_encard Set.sdiff_subset).trans le_self_add
          · rw [KeyValue.live_update_of_ne m orderID hpool]
            exact le_self_add

/-- A short sequence of operations never stores too many order rows. -/
theorem along_of_length {ops : List StoreOp} :
    ∀ {m : KeyValue} {n : ℕ}, (∀ poolID, (m.live poolID).encard ≤ n) →
      n + ops.length ≤ maxSlotLen →
      Along KeyValue.exec
        (fun m op => ∀ poolID, ((m.exec op).live poolID).encard ≤ maxSlotLen) m ops := by
  induction ops with
  | nil => exact fun _ _ => trivial
  | cons op ops ih =>
      intro m n hm hn
      rw [List.length_cons] at hn
      have hnext : ∀ poolID, ((m.exec op).live poolID).encard ≤ ((n + 1 : ℕ) : ℕ∞) := by
        intro poolID
        push_cast
        exact (m.live_exec op poolID).trans (add_le_add_left (hm poolID) 1)
      refine ⟨fun poolID => (hnext poolID).trans ?_, ih hnext (by omega)⟩
      exact_mod_cast (by omega : n + 1 ≤ maxSlotLen)

theorem KeyValue.live_empty (poolID : Word) :
    (KeyValue.live (fun _ => none) poolID).encard ≤ ((0 : ℕ) : ℕ∞) := by
  simp [KeyValue.live]

/-- After every sequence of operations the store answers as the map, as long as no
pool ever has more order rows than `slotLen` can count. -/
theorem evmStore_refines {st : Storage} (hvalues : ∀ key, st (.coreValue key 0) = 0)
    (hindex : ∀ poolID, st (.coreIndex poolID 0) = 0) (ops : List StoreOp)
    (hvalid : ∀ op ∈ ops, op.Valid)
    (hrows : Along KeyValue.exec
      (fun m op => ∀ poolID, ((m.exec op).live poolID).encard ≤ maxSlotLen)
      (fun _ => none) ops) :
    Refines (ops.foldl EvmStore.exec st) (ops.foldl KeyValue.exec fun _ => none) :=
  ((Stores.start hvalues hindex).run hvalid hrows).refines

/-- Puts, an overwrite with a shorter value, a delete and a second put. -/
def sampleStoreOps : List StoreOp :=
  [.put (orderRowKey 7 1) (List.replicate 40 9), .put (orderRowKey 7 2) [5],
    .put (orderRowKey 7 1) [6], .delete (orderRowKey 7 2), .put (orderRowKey 7 2) [8]]

theorem evmStore_refines_sample :
    Refines (sampleStoreOps.foldl EvmStore.exec Storage.empty)
      (sampleStoreOps.foldl KeyValue.exec fun _ => none) := by
  apply evmStore_refines (fun _ => rfl) (fun _ => rfl)
  · simp [sampleStoreOps, StoreOp.Valid]
  · exact along_of_length KeyValue.live_empty (by decide)

/-! ## The two limits -/

/-- The first order rows of a pool, one byte each. -/
def fillRows (n : ℕ) : List StoreOp :=
  (List.range n).map fun i => .put (orderRowKey 0 (UInt64.ofNat i)) [1]

theorem fillRows_succ (n : ℕ) :
    fillRows (n + 1) = fillRows n ++ [.put (orderRowKey 0 (UInt64.ofNat n)) [1]] := by
  rw [fillRows, List.range_succ, List.map_append]
  rfl

theorem fillRows_live {n : ℕ} (hn : n < 2 ^ 64) :
    KeyValue.live ((fillRows n).foldl KeyValue.exec fun _ => none) 0 =
      {orderID | orderID.toNat < n} := by
  induction n with
  | zero => simp [fillRows, KeyValue.live]
  | succ n ih =>
      rw [fillRows_succ, List.foldl_append, List.foldl_cons, List.foldl_nil, KeyValue.exec,
        KeyValue.live_put, ih (by omega)]
      ext orderID
      have hlast : orderID = UInt64.ofNat n ↔ orderID.toNat = n := by
        constructor
        · rintro rfl
          exact uint64_toNat_ofNat (by omega)
        · rintro rfl
          exact UInt64.ofNat_toNat.symm
      rw [Set.mem_insert_iff, hlast]
      simp only [Set.mem_ofPred_eq]
      omega

theorem EvmStore.HoldsIds.read_long {st : Storage} {poolID : Word} {ids : List UInt64}
    (h : EvmStore.HoldsIds st poolID ids) (hlong : maxSlotLen < ids.length)
    (hids : ids.length < 2 ^ 63) : EvmStore.indexIDs st poolID = [] := by
  rw [EvmStore.indexIDs, h.count, slotLen_ofNat (by omega), if_pos (.inr hlong)]

/-- A full pool has as many ids in its index as it has rows. -/
theorem fillRows_stores {n : ℕ} (hn : n ≤ maxSlotLen) :
    ∃ ids, EvmStore.HoldsIds ((fillRows n).foldl EvmStore.exec Storage.empty) 0 ids ∧
      ids.length = n ∧ ∀ id ∈ ids, id.toNat < n := by
  have hmax : maxSlotLen < 2 ^ 31 := by decide
  have hvalid : ∀ op ∈ fillRows n, op.Valid := by
    intro op hop
    obtain ⟨i, -, rfl⟩ := List.mem_map.mp hop
    simp [StoreOp.Valid]
  have hlength : (fillRows n).length = n := by simp [fillRows]
  have hstores := Stores.empty.run hvalid
    (along_of_length KeyValue.live_empty (by omega))
  obtain ⟨ids, hholds, -, hnodup, hlive⟩ := hstores.index 0
  have hmem : ∀ id, id ∈ ids ↔ id.toNat < n := by
    intro id
    rw [hlive, fillRows_live (by omega)]
    rfl
  refine ⟨ids, hholds, ?_, fun id hid => (hmem id).mp hid⟩
  have hrange : ((List.range n).map UInt64.ofNat).Nodup := by
    refine List.Nodup.map_on ?_ List.nodup_range
    intro i hi j hj hij
    rw [List.mem_range] at hi hj
    exact uint64_ofNat_inj (by omega) (by omega) hij
  have hperm : ids.Perm ((List.range n).map UInt64.ofNat) := by
    rw [List.perm_ext_iff_of_nodup hnodup hrange]
    intro id
    rw [hmem, List.mem_map]
    constructor
    · intro hlt
      exact ⟨id.toNat, List.mem_range.mpr hlt, UInt64.ofNat_toNat⟩
    · rintro ⟨i, hi, rfl⟩
      rw [List.mem_range] at hi
      rwa [uint64_toNat_ofNat (by omega)]
  rw [hperm.length_eq, List.length_map, List.length_range]

/-- A value that is too long for `slotLen` is put and not found. -/
theorem put_long {key value : List UInt8} (hlong : maxSlotLen < value.length)
    (hvalue : value.length + 31 < 2 ^ 63) :
    EvmStore.get (EvmStore.exec Storage.empty (.put key value)) key = none := by
  have hne : value ≠ [] := by
    rintro rfl
    exact absurd hlong (Nat.not_lt_zero _)
  have hlive : ∀ poolID, ((KeyValue.exec (fun _ => none) (.put key value)).live poolID).encard ≤
      maxSlotLen := by
    intro poolID
    have hle := (KeyValue.live_exec (fun _ => none) (.put key value) poolID).trans
      (add_le_add_left (KeyValue.live_empty poolID) 1)
    exact hle.trans (by norm_num [maxSlotLen])
  have hvalid : StoreOp.Valid (.put key value) := ⟨hne, hvalue⟩
  have hstores := Stores.empty.exec hvalid hlive
  have hshort : ¬ decide (value.length ≤ maxSlotLen) = true := by
    rw [decide_eq_true_eq]
    omega
  rw [hstores.get, KeyValue.exec, Function.update_self, Option.filter_some, if_neg hshort]

/-- A value of `2 ^ 31` bytes is put and not found, and a pool of `2 ^ 31` order rows
is iterated as if it had none. -/
theorem evmStore_limits :
    (EvmStore.get
        (EvmStore.exec Storage.empty (.put [1] (List.replicate (2 ^ 31) 0))) [1] = none ∧
      KeyValue.exec (fun _ => none) (.put [1] (List.replicate (2 ^ 31) 0)) [1] ≠ none) ∧
    (EvmStore.iterate ((fillRows (2 ^ 31)).foldl EvmStore.exec Storage.empty)
        (orderRowPrefix 0) = [] ∧
      KeyValue.live ((fillRows (2 ^ 31)).foldl KeyValue.exec fun _ => none) 0 =
        {orderID | orderID.toNat < 2 ^ 31}) := by
  have hmax : maxSlotLen + 1 = 2 ^ 31 := by decide
  refine ⟨⟨?_, ?_⟩, ?_, fillRows_live (by norm_num)⟩
  · apply put_long
    · rw [List.length_replicate]
      omega
    · rw [List.length_replicate]
      norm_num
  · rw [KeyValue.exec, Function.update_self]
    exact Option.some_ne_none _
  · obtain ⟨ids, hholds, hlength, hlt⟩ := fillRows_stores le_rfl
    rw [← hmax, fillRows_succ, List.foldl_append, List.foldl_cons, List.foldl_nil,
      EvmStore.exec, EvmStore.put, parseOrderKey_orderRowKey]
    dsimp only
    generalize (fillRows maxSlotLen).foldl EvmStore.exec Storage.empty = st at hholds ⊢
    have hwritten : EvmStore.HoldsIds
        (writeRecord (.coreValue (orderRowKey 0 (UInt64.ofNat maxSlotLen))) st [1]) 0 ids := by
      refine ⟨?_, fun i hi => ?_⟩
      · rw [writeRecord_of_ne _ _ _ (by simp), hholds.count]
      · rw [writeRecord_of_ne _ _ _ (by simp), hholds.data i hi]
    have hnew : UInt64.ofNat maxSlotLen ∉ ids := by
      intro hmem
      have h := hlt _ hmem
      rw [uint64_toNat_ofNat (by omega)] at h
      exact Nat.lt_irrefl _ h
    have hlong : (ids ++ [UInt64.ofNat maxSlotLen]).length = 2 ^ 31 := by
      rw [List.length_append, hlength, List.length_singleton, hmax]
    rw [EvmStore.indexAdd, hwritten.read hlength.le, if_neg hnew, EvmStore.iterate,
      parseOrderPrefix_orderRowPrefix]
    dsimp only
    rw [(EvmStore.indexWrite_holds _ 0 (by omega)).read_long (by omega) (by omega),
      EvmStore.visit_eq]
    rfl

end LuxPrecompile.Settle
