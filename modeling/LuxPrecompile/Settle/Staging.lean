import LuxPrecompile.Settle.Effects
import LuxPrecompile.Support.Maps

/-!
# The flush of staged operations

`dex/native_staging.go`.  A crossing stages its operation on shared memory under a
sequence number; at block accept the host reads the operations between the numbers of the
parent and of the accepted state and applies them.  Staging is undone with the frame it
ran in.  The outbox is what this is for: the operations that were not undone, cut where a
block was accepted.  Over every sequence of events the host applies the blocks of the
outbox, and a block fails only on an object that is not a funding claim.
-/

namespace LuxPrecompile.Settle

open Dex Evm Support

/-! ## Requests to shared memory -/

/-- `atomic.Element`. -/
structure Element where
  key : List UInt8
  value : List UInt8
  traits : List (List UInt8)
deriving DecidableEq

/-- `atomic.Requests`. -/
structure Requests where
  removeRequests : List (List UInt8)
  putRequests : List Element
deriving DecidableEq

/-- The errors of a flush; each fails the accept of the block. -/
inductive FlushError
  | atomicSeqRegression
  | stagedOpMalformed
deriving DecidableEq, Repr

/-- `forChain`: the requests of a chain, new ones where it has none. -/
def forChain (out : FinMap Word Requests) (id : Word) : Requests := (out.get id).getD ⟨[], []⟩

/-- The staged operation of a sequence number, added to the requests of its chain. -/
def collectStaged (st : Storage) (i : UInt64) (out : FinMap Word Requests) :
    Except FlushError (FinMap Word Requests) :=
  let kind := (st (.stageKind i)).toNat % 256
  if kind = StageKind.put.toByte then
    let rec' := (readRecord (.stageRecord .put i) st).getD []
    if rec'.length ≠ 1 + 32 + 32 + claimSize ∨ rec'.getD 0 0 ≠ stagedOpVersion then
      .error .stagedOpMalformed
    else
      let dChainID := bytesToHash (slice rec' 1 33)
      let object := rec'.drop 65
      match decodeClaim object with
      | none => .error .stagedOpMalformed
      | some body =>
          let req := forChain out dChainID
          .ok (out.insert dChainID
            { req with
              putRequests := req.putRequests ++
                [⟨slice rec' 33 65, object, [addressBytes body.beneficiary]⟩] })
  else if kind = StageKind.remove.toByte then
    let rec' := (readRecord (.stageRecord .remove i) st).getD []
    if rec'.length < 1 + 32 + 32 ∨ rec'.getD 0 0 ≠ stagedOpVersion then
      .error .stagedOpMalformed
    else
      let dChainID := bytesToHash (slice rec' 1 33)
      let req := forChain out dChainID
      .ok (out.insert dChainID
        { req with removeRequests := req.removeRequests ++ [slice rec' 33 65] })
  else .error .stagedOpMalformed

/-- The loop of `collectRange`, with the number of operations left. -/
def collectFrom (st : Storage) : ℕ → UInt64 → FinMap Word Requests →
    Except FlushError (FinMap Word Requests)
  | 0, _, out => .ok out
  | n + 1, i, out => do
      let out ← collectStaged st i out
      collectFrom st n (i + 1) out

/-- `collectRange`; a nil map has no entries. -/
def collectRange (st : Storage) (fromSeq toSeq : UInt64) :
    Except FlushError (FinMap Word Requests) :=
  if toSeq ≤ fromSeq then .ok FinMap.empty
  else collectFrom st (toSeq.toNat - fromSeq.toNat) fromSeq FinMap.empty

/-- `FlushAcceptedAtomicOps`: the requests that are applied to shared memory. -/
def flushAcceptedAtomicOps (parent current : Storage) :
    Except FlushError (FinMap Word Requests) :=
  if stageSeq current < stageSeq parent then .error .atomicSeqRegression
  else collectRange current (stageSeq parent) (stageSeq current)

/-! ## Staged operations -/

/-- An operation a crossing stages. -/
inductive StagedOp
  | put (dChainID key : Word) (object : List UInt8)
  | remove (dChainID key : Word)
deriving DecidableEq

namespace StagedOp

def kind : StagedOp → StageKind
  | put _ _ _ => .put
  | remove _ _ => .remove

def chain : StagedOp → Word
  | put dChainID _ _ => dChainID
  | remove dChainID _ => dChainID

/-- The staged record. -/
def record : StagedOp → List UInt8
  | put dChainID key object => packPut dChainID key object
  | remove dChainID key => packRemove dChainID key

/-- `stageAtomicPut` and `stageAtomicRemove`. -/
def stage (st : Storage) : StagedOp → Storage
  | put dChainID key object => stageAtomicPut st dChainID key object
  | remove dChainID key => stageAtomicRemove st dChainID key

theorem stage_eq (st : Storage) (op : StagedOp) :
    op.stage st = stageAtomic st op.kind op.record := by
  cases op <;> rfl

/-- A put carries a funding claim. -/
def WellFormed : StagedOp → Prop
  | put _ _ object => object.length = claimSize
  | remove _ _ => True

instance : DecidablePred WellFormed := fun op => by
  cases op <;> unfold WellFormed <;> infer_instance

/-- What a put asks of a chain: the object under its key, found by its recipient. -/
def putFor (c : Word) : StagedOp → Option Element
  | put dChainID key object =>
      if dChainID = c then some ⟨hashBytes key, object, [object.take 20]⟩ else none
  | remove _ _ => none

/-- What a remove asks of a chain. -/
def removeFor (c : Word) : StagedOp → Option (List UInt8)
  | put _ _ _ => none
  | remove dChainID key => if dChainID = c then some (hashBytes key) else none

end StagedOp

/-- What operations ask of a chain, in their order. -/
def requestsFor (ops : List StagedOp) (c : Word) : Option Requests :=
  if ∃ op ∈ ops, op.chain = c then
    some ⟨ops.filterMap (StagedOp.removeFor c), ops.filterMap (StagedOp.putFor c)⟩
  else none

theorem requestsFor_nil (c : Word) : requestsFor [] c = none := by simp [requestsFor]

theorem requestsFor_getD (ops : List StagedOp) (c : Word) :
    (requestsFor ops c).getD ⟨[], []⟩ =
      ⟨ops.filterMap (StagedOp.removeFor c), ops.filterMap (StagedOp.putFor c)⟩ := by
  unfold requestsFor
  split_ifs with h
  · rfl
  · have hother : ∀ op ∈ ops, op.chain ≠ c := fun op hop hc => h ⟨op, hop, hc⟩
    have hremoves : ops.filterMap (StagedOp.removeFor c) = [] := by
      rw [List.filterMap_eq_nil_iff]
      intro op hop
      have hne := hother op hop
      cases op with
      | put dChainID key object => rfl
      | remove dChainID key => exact if_neg hne
    have hputs : ops.filterMap (StagedOp.putFor c) = [] := by
      rw [List.filterMap_eq_nil_iff]
      intro op hop
      have hne := hother op hop
      cases op with
      | put dChainID key object => exact if_neg hne
      | remove dChainID key => rfl
    rw [hremoves, hputs]
    rfl

theorem filterMap_concat {α β : Type} (l : List α) (a : α) (f : α → Option β) :
    (l ++ [a]).filterMap f = l.filterMap f ++ (f a).toList := by
  rw [List.filterMap_append]
  cases hf : f a with
  | none => rw [List.filterMap_cons_none hf, List.filterMap_nil, Option.toList_none]
  | some b => rw [List.filterMap_cons_some hf, List.filterMap_nil, Option.toList_some]

/-- One more operation joins the requests of its chain. -/
theorem requestsFor_concat (ops : List StagedOp) (op : StagedOp) (c : Word) :
    requestsFor (ops ++ [op]) c =
      if op.chain = c then
        some ⟨ops.filterMap (StagedOp.removeFor c) ++ (op.removeFor c).toList,
          ops.filterMap (StagedOp.putFor c) ++ (op.putFor c).toList⟩
      else requestsFor ops c := by
  unfold requestsFor
  rw [filterMap_concat, filterMap_concat]
  by_cases hchain : op.chain = c
  · rw [if_pos ⟨op, by simp, hchain⟩, if_pos hchain]
  · have hiff : (∃ op' ∈ ops ++ [op], op'.chain = c) ↔ ∃ op' ∈ ops, op'.chain = c := by
      simp [hchain]
    have hremove : op.removeFor c = none := by
      cases op with
      | put dChainID key object => rfl
      | remove dChainID key => exact if_neg hchain
    have hput : op.putFor c = none := by
      cases op with
      | put dChainID key object => exact if_neg hchain
      | remove dChainID key => rfl
    simp only [if_neg hchain, hiff, hremove, hput, Option.toList_none, List.append_nil]

/-! ## What the staging area holds -/

/-- The staged record of one operation under a sequence number. -/
structure StagedAt (st : Storage) (i : UInt64) (op : StagedOp) : Prop where
  kind : st (.stageKind i) = BitVec.ofNat 256 op.kind.toByte
  record : HoldsRecord (.stageRecord op.kind i) st op.record

/-- The staging area holds these operations, and the counter stands behind them. -/
structure Staged (st : Storage) (ops : List StagedOp) : Prop where
  seq : stageSeq st = UInt64.ofNat ops.length
  held : ∀ i op, ops[i]? = some op → StagedAt st (UInt64.ofNat i) op

theorem Staged.empty : Staged Storage.empty [] := ⟨rfl, fun i op h => by simp at h⟩

theorem Staged.congr {st st' : Storage} {ops : List StagedOp} (h : Staged st ops)
    (hst : ∀ slot : Slot, slot.IsStage → st' slot = st slot) : Staged st' ops := by
  have hseq : Slot.stageSeq.IsStage := trivial
  have hkind : ∀ i, (Slot.stageKind i).IsStage := fun i => trivial
  have hrecord : ∀ kind i word, (Slot.stageRecord kind i word).IsStage :=
    fun kind i word => trivial
  refine ⟨?_, fun i op hop => ⟨?_, ?_⟩⟩
  · rw [stageSeq, hst _ hseq, ← h.seq]
    rfl
  · rw [hst _ (hkind _), (h.held i op hop).kind]
  · exact (h.held i op hop).record.congr fun word => hst _ (hrecord _ _ _)

/-- A byte string of the host: its length is an `int`. -/
def StagedOp.Addressable (op : StagedOp) : Prop := op.record.length < 2 ^ 63

theorem stageSeq_setStageSeq (st : Storage) (n : UInt64) : stageSeq (setStageSeq st n) = n := by
  have hlt : n.toNat < 2 ^ 256 := lt_trans (UInt64.toNat_lt n) (by norm_num)
  rw [stageSeq, setStageSeq, Storage.set_self, BitVec.toNat_ofNat, Nat.mod_eq_of_lt hlt,
    UInt64.ofNat_toNat]

/-- One more operation is held behind the others, whatever its slots held before. -/
theorem Staged.stage {st : Storage} {ops : List StagedOp} (h : Staged st ops) {op : StagedOp}
    (hroom : ops.length < 2 ^ 64) (hop : op.Addressable) : Staged (op.stage st) (ops ++ [op]) := by
  rw [StagedOp.stage_eq]
  have hkeep : ∀ {slot : Slot}, slot ≠ .stageSeq → slot ≠ .stageKind (UInt64.ofNat ops.length) →
      (∀ word, slot ≠ .stageRecord op.kind (UInt64.ofNat ops.length) word) →
      stageAtomic st op.kind op.record slot = st slot := by
    intro slot hseq hkind hrecord
    simp only [stageAtomic, setStageSeq, h.seq]
    rw [Storage.set_of_ne hseq, Storage.set_of_ne hkind, writeRecord_of_ne _ _ _ hrecord]
  constructor
  · simp only [stageAtomic]
    rw [stageSeq_setStageSeq, h.seq, List.length_append, List.length_singleton, UInt64.ofNat_add]
    rfl
  · intro i op' hop'
    obtain hlt | heq | hgt := Nat.lt_trichotomy i ops.length
    · rw [List.getElem?_append_left hlt] at hop'
      have hheld := h.held i op' hop'
      have hne : UInt64.ofNat i ≠ UInt64.ofNat ops.length := by
        intro hc
        have heq := uint64_ofNat_inj (by omega) hroom hc
        omega
      refine ⟨?_, hheld.record.congr fun word => hkeep (by simp) (by simp) fun word' => ?_⟩
      · rw [hkeep (by simp) (by simpa using hne) (by simp), hheld.kind]
      · simp [hne]
    · subst heq
      rw [List.getElem?_append_right le_rfl, Nat.sub_self, List.getElem?_cons_zero,
        Option.some.injEq] at hop'
      subst hop'
      have hinj : Function.Injective (Slot.stageRecord op.kind (UInt64.ofNat ops.length)) :=
        fun a b hab => (Slot.stageRecord.inj hab).2.2
      have hwritten := writeRecord_holds hinj st hop
      simp only [stageAtomic, setStageSeq, h.seq]
      refine ⟨?_, hwritten.congr fun word => ?_⟩
      · rw [Storage.set_of_ne (by simp), Storage.set_self]
      · rw [Storage.set_of_ne (by simp), Storage.set_of_ne (by simp)]
    · have hnone : (ops ++ [op])[i]? = none := by
        rw [List.getElem?_eq_none_iff, List.length_append, List.length_singleton]
        omega
      rw [hnone] at hop'
      cases hop'

/-! ## Collecting -/

/-- The fields of a staged put; a remove is a put without an object. -/
theorem packPut_fields (dChainID key : Word) (object : List UInt8) :
    slice (packPut dChainID key object) 1 33 = hashBytes dChainID ∧
      slice (packPut dChainID key object) 33 65 = hashBytes key ∧
      (packPut dChainID key object).drop 65 = object ∧
      (packPut dChainID key object).length = 65 + object.length := by
  have hd : (hashBytes dChainID).length = 32 := hashBytes_length _
  have hk : (hashBytes key).length = 32 := hashBytes_length _
  have hv : [stagedOpVersion].length = 1 := rfl
  have hvd : ([stagedOpVersion] ++ hashBytes dChainID).length = 33 := by
    rw [List.length_append, hv, hd]
  have hvdk : ([stagedOpVersion] ++ hashBytes dChainID ++ hashBytes key).length = 65 := by
    rw [List.length_append, hvd, hk]
  refine ⟨?_, ?_, ?_, ?_⟩
  · rw [packPut, slice_append_left (by omega), slice_append_left (by omega),
      slice_append_right (by omega), hv]
    exact slice_all (by omega)
  · rw [packPut, slice_append_left (by omega), slice_append_right (by omega), hvd]
    exact slice_all (by omega)
  · exact List.drop_left' hvdk
  · rw [packPut, List.length_append, hvdk]

theorem packRemove_eq (dChainID key : Word) :
    packRemove dChainID key = packPut dChainID key [] :=
  (List.append_nil _).symm

theorem decodeClaim_isSome {object : List UInt8} (h : object.length = claimSize) :
    ∃ body, decodeClaim object = some body ∧
      addressBytes body.beneficiary = object.take 20 := by
  refine ⟨_, if_neg (not_not.mpr h), ?_⟩
  have hlength : (slice object 0 20).length = 20 := by
    rw [slice, List.drop_zero, List.length_take, h]
    rfl
  exact addressBytes_bytesToAddress hlength

section Collect

variable {st : Storage} {i : UInt64} {op : StagedOp} {ops : List StagedOp}
  {out : FinMap Word Requests}

theorem StagedAt.kind_byte (h : StagedAt st i op) :
    (st (.stageKind i)).toNat % 256 = op.kind.toByte := by
  rw [h.kind]
  cases op <;> rfl

theorem get_insert_requests (op : StagedOp) (hout : out.get = requestsFor ops) {r : Requests}
    (hr : r = ⟨ops.filterMap (StagedOp.removeFor op.chain) ++ (op.removeFor op.chain).toList,
      ops.filterMap (StagedOp.putFor op.chain) ++ (op.putFor op.chain).toList⟩) :
    (out.insert op.chain r).get = requestsFor (ops ++ [op]) := by
  funext c
  rw [FinMap.get_insert, hout, requestsFor_concat]
  by_cases hchain : op.chain = c
  · subst hchain
    rw [Function.update_self, if_pos rfl, hr]
  · rw [Function.update_of_ne (Ne.symm hchain), if_neg hchain]

theorem forChain_eq (hout : out.get = requestsFor ops) (c : Word) :
    forChain out c =
      ⟨ops.filterMap (StagedOp.removeFor c), ops.filterMap (StagedOp.putFor c)⟩ := by
  rw [forChain, hout, requestsFor_getD]

/-- A well-formed operation is read back into the requests of its chain. -/
theorem collectStaged_wellFormed (h : StagedAt st i op) (hop : op.WellFormed)
    (hout : out.get = requestsFor ops) :
    ∃ out', collectStaged st i out = .ok out' ∧ out'.get = requestsFor (ops ++ [op]) := by
  cases op with
  | put dChainID key object =>
      have hkind : (st (.stageKind i)).toNat % 256 = StageKind.put.toByte := h.kind_byte
      obtain ⟨hchain, hkey, hobject, hlength⟩ := packPut_fields dChainID key object
      obtain ⟨body, hdecode, hbeneficiary⟩ := decodeClaim_isSome hop
      have hsize : (packPut dChainID key object).length = 1 + 32 + 32 + claimSize := by
        rw [hlength, hop]
      have hread : readRecord (.stageRecord .put i) st = some (packPut dChainID key object) := by
        have hread := h.record.read (b := packPut dChainID key object)
          (by rw [hsize]; decide) (by simp [packPut])
        rwa [if_pos (by rw [hsize]; decide)] at hread
      have hok : ¬ ((packPut dChainID key object).length ≠ 1 + 32 + 32 + claimSize ∨
          (packPut dChainID key object).getD 0 0 ≠ stagedOpVersion) := by
        rintro (hc | hc)
        · exact hc hsize
        · exact hc rfl
      unfold collectStaged
      dsimp only
      rw [if_pos hkind, hread, Option.getD_some, if_neg hok, hobject, hdecode, hchain, hkey,
        bytesToHash_hashBytes]
      refine ⟨_, rfl, get_insert_requests (.put dChainID key object) hout ?_⟩
      rw [forChain_eq hout, hbeneficiary]
      simp [StagedOp.chain, StagedOp.putFor, StagedOp.removeFor]
  | remove dChainID key =>
      have hkind : (st (.stageKind i)).toNat % 256 = StageKind.remove.toByte := h.kind_byte
      obtain ⟨hchain, hkey, -, hlength⟩ := packPut_fields dChainID key []
      rw [← packRemove_eq] at hchain hkey hlength
      have hread : readRecord (.stageRecord .remove i) st = some (packRemove dChainID key) := by
        have hread := h.record.read (b := packRemove dChainID key)
          (by rw [hlength]; decide) (by simp [packRemove])
        rwa [if_pos (by rw [hlength]; decide)] at hread
      have hok : ¬ ((packRemove dChainID key).length < 1 + 32 + 32 ∨
          (packRemove dChainID key).getD 0 0 ≠ stagedOpVersion) := by
        rintro (hc | hc)
        · rw [hlength] at hc
          exact absurd hc (by decide)
        · exact hc rfl
      unfold collectStaged
      dsimp only
      rw [if_neg (by rw [hkind]; decide), if_pos hkind, hread, Option.getD_some, if_neg hok,
        hchain, hkey, bytesToHash_hashBytes]
      refine ⟨_, rfl, get_insert_requests (.remove dChainID key) hout ?_⟩
      rw [forChain_eq hout]
      simp [StagedOp.chain, StagedOp.putFor, StagedOp.removeFor]

/-- A put of anything but a funding claim fails the flush. -/
theorem collectStaged_malformed (h : StagedAt st i op) (haddr : op.Addressable)
    (hop : ¬ op.WellFormed) : collectStaged st i out = .error .stagedOpMalformed := by
  cases op with
  | put dChainID key object =>
      have hkind : (st (.stageKind i)).toNat % 256 = StageKind.put.toByte := h.kind_byte
      have hlength := (packPut_fields dChainID key object).2.2.2
      have hread : readRecord (.stageRecord .put i) st = _ :=
        h.record.read haddr (by simp [StagedOp.record, packPut])
      have hbad : ((readRecord (.stageRecord .put i) st).getD []).length ≠
          1 + 32 + 32 + claimSize := by
        rw [hread]
        split_ifs
        · show (packPut dChainID key object).length ≠ _
          intro hc
          rw [hlength] at hc
          exact hop (Nat.add_left_cancel hc)
        · exact fun hc => absurd hc (by decide)
      unfold collectStaged
      dsimp only
      rw [if_pos hkind, if_pos (.inl hbad)]
  | remove dChainID key => exact absurd trivial hop

end Collect

/-- Reading a window of staged operations back. -/
theorem collectFrom_staged {st : Storage} {before rest after done : List StagedOp}
    (h : Staged st (before ++ (rest ++ after))) (haddr : ∀ op ∈ rest, op.Addressable)
    {out : FinMap Word Requests} (hout : out.get = requestsFor done) :
    (collectFrom st rest.length (UInt64.ofNat before.length) out).map FinMap.get =
      if ∀ op ∈ rest, op.WellFormed then .ok (requestsFor (done ++ rest))
      else .error .stagedOpMalformed := by
  induction rest generalizing before done out with
  | nil =>
      rw [if_pos (by simp), List.append_nil, ← hout]
      rfl
  | cons op rest ih =>
      have hget : (before ++ (op :: rest ++ after))[before.length]? = some op := by
        rw [List.getElem?_append_right le_rfl, Nat.sub_self]
        rfl
      have hheld := h.held _ op hget
      have hnext : UInt64.ofNat before.length + 1 = UInt64.ofNat (before ++ [op]).length := by
        rw [List.length_append, List.length_singleton, UInt64.ofNat_add]
        rfl
      show (collectStaged st (UInt64.ofNat before.length) out >>= fun out =>
        collectFrom st rest.length (UInt64.ofNat before.length + 1) out).map FinMap.get = _
      by_cases hop : op.WellFormed
      · obtain ⟨out', hcollect, hout'⟩ := collectStaged_wellFormed hheld hop hout
        have hrest : Staged st ((before ++ [op]) ++ (rest ++ after)) := by
          rwa [List.append_assoc]
        have hih := ih hrest (fun op' hop' => haddr op' (List.mem_cons_of_mem op hop')) hout'
        rw [hcollect, hnext]
        show (collectFrom st rest.length (UInt64.ofNat (before ++ [op]).length) out').map
          FinMap.get = _
        rw [hih, List.append_assoc, List.singleton_append]
        simp only [List.forall_mem_cons, hop, true_and]
      · rw [collectStaged_malformed hheld (haddr op List.mem_cons_self) hop, if_neg]
        · rfl
        · exact fun hc => hop (hc op List.mem_cons_self)

/-- What a flush applies: the operations staged since the parent, chain by chain. -/
theorem flush_staged {parent current : Storage} {ops new : List StagedOp}
    (hparent : Staged parent ops) (hcurrent : Staged current (ops ++ new))
    (haddr : ∀ op ∈ new, op.Addressable) (hroom : (ops ++ new).length < 2 ^ 64) :
    (flushAcceptedAtomicOps parent current).map FinMap.get =
      if ∀ op ∈ new, op.WellFormed then .ok (requestsFor new)
      else .error .stagedOpMalformed := by
  have hlength : (ops ++ new).length = ops.length + new.length := List.length_append
  have hfrom : (stageSeq parent).toNat = ops.length := by
    rw [hparent.seq, uint64_toNat_ofNat (by omega)]
  have hto : (stageSeq current).toNat = ops.length + new.length := by
    rw [hcurrent.seq, uint64_toNat_ofNat hroom, hlength]
  have hregression : ¬ stageSeq current < stageSeq parent := by
    rw [UInt64.lt_iff_toNat_lt, hfrom, hto]
    omega
  rw [flushAcceptedAtomicOps, if_neg hregression, collectRange]
  by_cases hnone : new = []
  · subst hnone
    have hle : stageSeq current ≤ stageSeq parent := by
      rw [UInt64.le_iff_toNat_le, hfrom, hto]
      exact le_rfl
    rw [if_pos hle, if_pos (by simp)]
    exact congrArg Except.ok (funext fun c => (requestsFor_nil c).symm)
  · have hlt : ¬ stageSeq current ≤ stageSeq parent := by
      have hpositive := List.length_pos_iff.mpr hnone
      rw [UInt64.le_iff_toNat_le, hfrom, hto]
      omega
    have hheld : Staged current (ops ++ (new ++ [])) := by rwa [List.append_nil]
    have hempty : (FinMap.empty : FinMap Word Requests).get = requestsFor [] :=
      funext fun c => (requestsFor_nil c).symm
    rw [if_neg hlt, hfrom, hto, Nat.add_sub_cancel_left, hparent.seq]
    exact collectFrom_staged hheld haddr hempty

/-! ## The host -/

/-- What happens to the storage of the account from block to block. -/
inductive HostEvent
  | stage (op : StagedOp)
  /-- Any other write of the account. -/
  | write (slot : Slot) (hslot : ¬ slot.IsStage) (value : Word)
  | enter
  | leave
  | revert
  | accept

/-- The storage with the snapshots of the open frames, the last accepted state and what
was applied to shared memory for each accepted block. -/
structure HostState where
  current : Storage
  snapshots : List Storage
  accepted : Storage
  applied : List (FinMap Word Requests)

/-- The host before the first block. -/
def HostState.genesis : HostState := ⟨Storage.empty, [], Storage.empty, []⟩

/-- One event.  A block is accepted between transactions; a failed flush is fatal. -/
def HostState.step (s : HostState) : HostEvent → Except FlushError HostState
  | .stage op => .ok { s with current := op.stage s.current }
  | .write slot _ value => .ok { s with current := s.current.set slot value }
  | .enter => .ok { s with snapshots := s.current :: s.snapshots }
  | .leave => .ok { s with snapshots := s.snapshots.tail }
  | .revert =>
      match s.snapshots with
      | [] => .ok s
      | snapshot :: rest => .ok { s with current := snapshot, snapshots := rest }
  | .accept =>
      if s.snapshots ≠ [] then .ok s
      else do
        let reqs ← flushAcceptedAtomicOps s.accepted s.current
        .ok { s with accepted := s.current, applied := s.applied ++ [reqs] }

/-- A sequence of events. -/
def HostState.run (s : HostState) : List HostEvent → Except FlushError HostState
  | [] => .ok s
  | e :: events => do
      let s ← s.step e
      s.run events

/-! ## The outbox -/

/-- What staging is for: the operations of the open block, undone with the frames they
ran in, and the operations of each accepted block. -/
structure Outbox where
  pending : List StagedOp
  frames : List (List StagedOp)
  blocks : List (List StagedOp)

namespace Outbox

def empty : Outbox := ⟨[], [], []⟩

def step (o : Outbox) : HostEvent → Outbox
  | .stage op => { o with pending := o.pending ++ [op] }
  | .write _ _ _ => o
  | .enter => { o with frames := o.pending :: o.frames }
  | .leave => { o with frames := o.frames.tail }
  | .revert =>
      match o.frames with
      | [] => o
      | frame :: rest => { o with pending := frame, frames := rest }
  | .accept =>
      if o.frames ≠ [] then o
      else { o with pending := [], blocks := o.blocks ++ [o.pending] }

/-- The outbox of a sequence of events. -/
def run (o : Outbox) (events : List HostEvent) : Outbox := events.foldl step o

/-- All operations of the accepted blocks, in their order. -/
def flushed (o : Outbox) : List StagedOp := o.blocks.flatten

/-- Accepted blocks stay. -/
theorem blocks_step (o : Outbox) (e : HostEvent) : ∃ new, (o.step e).blocks = o.blocks ++ new := by
  cases e with
  | revert =>
      rcases hframes : o.frames with _ | ⟨frame, rest⟩
      · exact ⟨[], by simp [step, hframes]⟩
      · exact ⟨[], by simp [step, hframes]⟩
  | accept =>
      by_cases hframes : o.frames ≠ []
      · exact ⟨[], by simp [step, hframes]⟩
      · exact ⟨[o.pending], by simp [step, hframes]⟩
  | stage op => exact ⟨[], (List.append_nil _).symm⟩
  | write slot hslot value => exact ⟨[], (List.append_nil _).symm⟩
  | enter => exact ⟨[], (List.append_nil _).symm⟩
  | leave => exact ⟨[], (List.append_nil _).symm⟩

theorem blocks_run (o : Outbox) (events : List HostEvent) :
    ∃ new, (o.run events).blocks = o.blocks ++ new := by
  induction events generalizing o with
  | nil => exact ⟨[], (List.append_nil _).symm⟩
  | cons e events ih =>
      obtain ⟨first, hfirst⟩ := o.blocks_step e
      obtain ⟨rest, hrest⟩ := ih (o.step e)
      refine ⟨first ++ rest, ?_⟩
      show ((o.step e).run events).blocks = _
      rw [hrest, hfirst, List.append_assoc]

/-- Every accepted block can be flushed. -/
def WellFormed (o : Outbox) : Prop := ∀ block ∈ o.blocks, ∀ op ∈ block, op.WellFormed

instance (o : Outbox) : Decidable o.WellFormed :=
  inferInstanceAs (Decidable (∀ block ∈ o.blocks, ∀ op ∈ block, op.WellFormed))

end Outbox

/-- The host keeps an outbox: its storage and snapshots hold the operations, and it has
applied the accepted blocks.  There is room for `room` more operations. -/
structure Keeps (room : ℕ) (s : HostState) (o : Outbox) : Prop where
  current : Staged s.current (o.flushed ++ o.pending)
  snapshots : List.Forall₂ (fun st ops => Staged st (o.flushed ++ ops)) s.snapshots o.frames
  accepted : Staged s.accepted o.flushed
  applied : s.applied.map FinMap.get = o.blocks.map requestsFor
  wellFormed : o.WellFormed
  addressable : ∀ ops ∈ o.pending :: o.frames, ∀ op ∈ ops, op.Addressable
  fits : ∀ ops ∈ o.pending :: o.frames, (o.flushed ++ ops).length + room < 2 ^ 64

/-- The operation of an event is one the host can hold. -/
def HostEvent.Addressable : HostEvent → Prop
  | .stage op => op.Addressable
  | _ => True

theorem flushed_accept {o : Outbox} (h : o.frames = []) :
    (o.step .accept).flushed = o.flushed ++ o.pending ∧ (o.step .accept).pending = [] ∧
      (o.step .accept).frames = [] := by
  simp [Outbox.step, Outbox.flushed, h]

/-- A block is accepted with what its transactions left staged. -/
theorem Keeps.accept {room : ℕ} {s : HostState} {o : Outbox} (h : Keeps room s o)
    (hframes : o.frames = []) :
    (∃ s', s.step .accept = .ok s' ∧ Keeps room s' (o.step .accept)) ∨
      (s.step .accept = .error .stagedOpMalformed ∧ ¬ (o.step .accept).WellFormed) := by
  have hsnapshots : s.snapshots = [] := by
    have hforall := h.snapshots
    rwa [hframes, List.forall₂_nil_right_iff] at hforall
  have hfits := h.fits o.pending List.mem_cons_self
  have hflush := flush_staged h.accepted h.current (h.addressable _ List.mem_cons_self)
    (by omega)
  obtain ⟨hflushed, hpending, hnone⟩ := flushed_accept hframes
  have hblocks : (o.step .accept).blocks = o.blocks ++ [o.pending] := by
    simp [Outbox.step, hframes]
  have hstep : s.step .accept = flushAcceptedAtomicOps s.accepted s.current >>= fun reqs =>
      .ok { s with accepted := s.current, applied := s.applied ++ [reqs] } :=
    if_neg (not_not.mpr hsnapshots)
  rw [hstep]
  cases hresult : flushAcceptedAtomicOps s.accepted s.current with
  | error e =>
      rw [hresult] at hflush
      split_ifs at hflush with hall
      · cases hflush
      · obtain rfl : e = .stagedOpMalformed := Except.error.inj hflush
        refine .inr ⟨rfl, fun hc => hall ?_⟩
        exact hc o.pending (by simp [hblocks])
  | ok reqs =>
      rw [hresult] at hflush
      split_ifs at hflush with hall
      · have hreqs : reqs.get = requestsFor o.pending := Except.ok.inj hflush
        refine .inl ⟨_, rfl, ?_, ?_, ?_, ?_, ?_, ?_, ?_⟩
        · rw [hflushed, hpending, List.append_nil]
          exact h.current
        · rw [hnone, hsnapshots]
          exact .nil
        · rw [hflushed]
          exact h.current
        · rw [hblocks, List.map_append, List.map_append, h.applied]
          show _ ++ [reqs.get] = _ ++ [requestsFor o.pending]
          rw [hreqs]
        · intro block hblock
          rw [hblocks, List.mem_append, List.mem_singleton] at hblock
          obtain hold | rfl := hblock
          · exact h.wellFormed block hold
          · exact hall
        · rw [hpending, hnone]
          simp
        · rw [hpending, hnone, hflushed]
          simpa using hfits
      · cases hflush

theorem Keeps.snapshots_tail {room : ℕ} {s : HostState} {o : Outbox} (h : Keeps room s o) :
    List.Forall₂ (fun st ops => Staged st (o.flushed ++ ops)) s.snapshots.tail
      o.frames.tail := by
  obtain ⟨current, snapshots, accepted, applied⟩ := s
  obtain ⟨pending, frames, blocks⟩ := o
  cases h.snapshots with
  | nil => exact .nil
  | cons _ hrest => exact hrest

theorem Keeps.revert {room : ℕ} {s : HostState} {o : Outbox} (h : Keeps room s o) :
    ∃ s', s.step .revert = .ok s' ∧ Keeps room s' (o.step .revert) := by
  obtain ⟨current, snapshots, accepted, applied⟩ := s
  obtain ⟨pending, frames, blocks⟩ := o
  cases h.snapshots with
  | nil => exact ⟨_, rfl, h⟩
  | cons hfirst hrest =>
      refine ⟨_, rfl, hfirst, hrest, h.accepted, h.applied, h.wellFormed, ?_, ?_⟩
      · exact fun ops hops => h.addressable ops (List.mem_cons_of_mem _ hops)
      · exact fun ops hops => h.fits ops (List.mem_cons_of_mem _ hops)

/-- One event keeps the outbox, or it accepts a block that cannot be flushed. -/
theorem Keeps.step {room : ℕ} {s : HostState} {o : Outbox} (h : Keeps (room + 1) s o)
    {e : HostEvent} (he : e.Addressable) :
    (∃ s', s.step e = .ok s' ∧ Keeps room s' (o.step e)) ∨
      (s.step e = .error .stagedOpMalformed ∧ ¬ (o.step e).WellFormed) := by
  have hless : Keeps room s o :=
    { h with fits := fun ops hops => lt_trans (Nat.lt_succ_self _) (h.fits ops hops) }
  cases e with
  | stage op =>
      have hfits := h.fits o.pending List.mem_cons_self
      refine .inl ⟨_, rfl, ?_, h.snapshots, h.accepted, h.applied, h.wellFormed, ?_, ?_⟩
      · show Staged (op.stage s.current) (o.flushed ++ (o.pending ++ [op]))
        rw [← List.append_assoc]
        exact h.current.stage (by omega) he
      · intro ops hops op' hop'
        obtain rfl | hframe := List.mem_cons.mp hops
        · obtain hold | hnew := List.mem_append.mp hop'
          · exact h.addressable _ List.mem_cons_self op' hold
          · rw [List.mem_singleton.mp hnew]
            exact he
        · exact h.addressable ops (List.mem_cons_of_mem _ hframe) op' hop'
      · intro ops hops
        obtain rfl | hframe := List.mem_cons.mp hops
        · show (o.flushed ++ (o.pending ++ [op])).length + room < 2 ^ 64
          rw [← List.append_assoc, List.length_append, List.length_singleton]
          omega
        · exact hless.fits ops (List.mem_cons_of_mem _ hframe)
  | write slot hslot value =>
      refine .inl ⟨_, rfl, { hless with current := hless.current.congr fun other hother => ?_ }⟩
      have hne : other ≠ slot := by
        rintro rfl
        exact hslot hother
      exact Storage.set_of_ne hne _ _
  | enter =>
      refine .inl ⟨_, rfl, { hless with
        snapshots := .cons h.current h.snapshots, addressable := ?_, fits := ?_ }⟩
      · exact List.forall_mem_cons.mpr ⟨h.addressable _ List.mem_cons_self, h.addressable⟩
      · exact List.forall_mem_cons.mpr ⟨hless.fits _ List.mem_cons_self, hless.fits⟩
  | leave =>
      have hsub : ∀ ops ∈ o.pending :: o.frames.tail, ops ∈ o.pending :: o.frames := by
        intro ops hops
        obtain rfl | hframe := List.mem_cons.mp hops
        · exact List.mem_cons_self
        · exact List.mem_cons_of_mem _ (List.mem_of_mem_tail hframe)
      refine .inl ⟨_, rfl, { hless with snapshots := ?_, addressable := ?_, fits := ?_ }⟩
      · exact hless.snapshots_tail
      · exact fun ops hops => h.addressable ops (hsub ops hops)
      · exact fun ops hops => hless.fits ops (hsub ops hops)
  | revert => exact .inl hless.revert
  | accept =>
      by_cases hframes : o.frames = []
      · exact hless.accept hframes
      · have hsnapshots : s.snapshots ≠ [] := by
          intro hc
          have hforall := h.snapshots
          rw [hc, List.forall₂_nil_left_iff] at hforall
          exact hframes hforall
        refine .inl ⟨s, if_pos hsnapshots, ?_⟩
        have hsame : o.step .accept = o := if_pos hframes
        rwa [hsame]

/-- The host applies the accepted blocks of the outbox, or it stops at a block that
cannot be flushed. -/
theorem Keeps.run {s : HostState} {o : Outbox} {events : List HostEvent}
    (h : Keeps events.length s o) (he : ∀ e ∈ events, e.Addressable) :
    (s.run events).map (fun s' => s'.applied.map FinMap.get) =
      if (o.run events).WellFormed then .ok ((o.run events).blocks.map requestsFor)
      else .error .stagedOpMalformed := by
  induction events generalizing s o with
  | nil =>
      have hwell : (o.run []).WellFormed := h.wellFormed
      rw [if_pos hwell]
      exact congrArg Except.ok h.applied
  | cons e events ih =>
      show (s.step e >>= fun s => s.run events).map _ = _
      obtain ⟨s', hstep, hkeeps⟩ | ⟨hstep, hbad⟩ := h.step (he e List.mem_cons_self)
      · rw [hstep]
        exact ih hkeeps fun e' he' => he e' (List.mem_cons_of_mem e he')
      · have hstuck : ¬ (o.run (e :: events)).WellFormed := by
          obtain ⟨new, hnew⟩ := (o.step e).blocks_run events
          intro hc
          refine hbad fun block hblock => hc block ?_
          show block ∈ ((o.step e).run events).blocks
          rw [hnew]
          exact List.mem_append_left new hblock
        rw [hstep, if_neg hstuck]
        rfl

/-- Over every sequence of staged operations, other writes, frames that return or revert
and accepted blocks, the host applies to each chain, block by block, what the operations
of the block that were not undone ask of it, in their order; it stops only at a block with
an object that is not a funding claim. -/
theorem flush_outbox (events : List HostEvent) (haddr : ∀ e ∈ events, e.Addressable)
    (hroom : events.length < 2 ^ 64) :
    (HostState.genesis.run events).map (fun s => s.applied.map FinMap.get) =
      if (Outbox.empty.run events).WellFormed then
        .ok ((Outbox.empty.run events).blocks.map requestsFor)
      else .error .stagedOpMalformed := by
  apply Keeps.run _ haddr
  refine ⟨Staged.empty, .nil, Staged.empty, rfl, ?_, ?_, ?_⟩
  · exact fun block hblock => absurd hblock List.not_mem_nil
  · simp [Outbox.empty]
  · simpa [Outbox.empty, Outbox.flushed] using hroom

/-- A put, a remove in a frame that reverts, and a remove in the next block. -/
def sampleEvents : List HostEvent :=
  [.stage (.put 0xD 1 (List.replicate 60 7)), .enter, .stage (.remove 0xD 2), .revert, .accept,
    .stage (.remove 0xD 3), .accept]

theorem flush_outbox_sample :
    (HostState.genesis.run sampleEvents).map (fun s => s.applied.map FinMap.get) =
      .ok [requestsFor [.put 0xD 1 (List.replicate 60 7)], requestsFor [.remove 0xD 3]] := by
  have h := flush_outbox sampleEvents
    (by simp [sampleEvents, HostEvent.Addressable, StagedOp.Addressable, StagedOp.record,
      packPut, packRemove, hashBytes_length])
    (by decide)
  rw [if_pos (by decide)] at h
  exact h

end LuxPrecompile.Settle
