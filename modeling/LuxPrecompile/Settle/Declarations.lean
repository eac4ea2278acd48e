import LuxPrecompile.Settle.Books
import LuxPrecompile.Settle.Staging

/-!
# What a block declares

Every crossing writes a log of the account: an export the claim it funds, an import the
object it consumed (`dex/settle_import.go`).  The logs of a block say all that the host
needs: its flush applies exactly the operations the logs name, and the imports the host
decodes from them are exactly the claims the block has credited, each once.
-/

namespace LuxPrecompile.Settle

open Dex Evm Support

/-! ## Declarations -/

def settleImportDataLen : ℕ := 64

/-- `SettleImport`. -/
structure SettleImport where
  sourceChainID : Word
  outputID : Word
  objectHash : Word
deriving DecidableEq

/-- A log as a declaration of an import, if it is one. -/
def Log.settleImport (l : Log) : Option SettleImport :=
  if l.address ≠ vaultAddr then none
  else
    match l.topics with
    | [sig, outputID] =>
        if sig ≠ settleImportEventSig then none
        else if l.data.length ≠ settleImportDataLen then none
        else
          some ⟨bytesToHash (slice l.data 0 32), outputID, bytesToHash (slice l.data 32 64)⟩
    | _ => none

def decodeSettleImports (logs : List Log) : List SettleImport :=
  logs.filterMap Log.settleImport

/-- A log as a declaration of an export: the operation with the object of the claim. -/
def Log.settleExport (l : Log) : Option StagedOp :=
  if l.address ≠ vaultAddr then none
  else
    match l.topics with
    | [sig, claimID, dChainID] =>
        if sig ≠ claimExportedSig then none
        else some (.put dChainID claimID (slice l.data 44 96 ++ slice l.data 120 128))
    | _ => none

/-- The operation on shared memory a log names. -/
def Log.stagedOp (l : Log) : Option StagedOp :=
  (l.settleImport.map fun i => .remove i.sourceChainID i.outputID).or l.settleExport

/-- The operations the logs of a block name; a world has its latest log first. -/
def declaredOps (logs : List Log) : List StagedOp := logs.reverse.filterMap Log.stagedOp

theorem declaredOps_append (logs logs' : List Log) :
    declaredOps (logs ++ logs') = declaredOps logs' ++ declaredOps logs := by
  rw [declaredOps, List.reverse_append, List.filterMap_append]
  rfl

/-- Any other log names nothing. -/
theorem Log.settleImport_of_not_crossing {l : Log} (h : ¬ l.IsCrossing) :
    l.settleImport = none := by
  unfold Log.settleImport
  by_cases haddress : l.address ≠ vaultAddr
  · exact if_pos haddress
  rw [if_neg haddress]
  rcases htopics : l.topics with _ | ⟨sig, _ | ⟨outputID, _ | ⟨extra, rest⟩⟩⟩
  · rfl
  · rfl
  · have hsig : sig ≠ settleImportEventSig := by
      rintro rfl
      exact h ⟨not_not.mp haddress, .inr (by rw [htopics]; rfl)⟩
    exact if_pos hsig
  · rfl

theorem Log.settleExport_of_not_crossing {l : Log} (h : ¬ l.IsCrossing) :
    l.settleExport = none := by
  unfold Log.settleExport
  by_cases haddress : l.address ≠ vaultAddr
  · exact if_pos haddress
  rw [if_neg haddress]
  rcases htopics : l.topics with _ | ⟨sig, _ | ⟨claimID, _ | ⟨dChainID, _ | ⟨extra, rest⟩⟩⟩⟩
  · rfl
  · rfl
  · rfl
  · have hsig : sig ≠ claimExportedSig := by
      rintro rfl
      exact h ⟨not_not.mp haddress, .inl (by rw [htopics]; rfl)⟩
    exact if_pos hsig
  · rfl

theorem Log.stagedOp_of_not_crossing {l : Log} (h : ¬ l.IsCrossing) : l.stagedOp = none := by
  rw [Log.stagedOp, Log.settleImport_of_not_crossing h, Log.settleExport_of_not_crossing h]
  rfl

/-! ## The logs of a crossing -/

/-- The log of an export. -/
def exportLog (dChainID claimID : Word) (owner : Address) (body : ClaimBody) : Log :=
  ⟨vaultAddr, [claimExportedSig, claimID, dChainID],
    hashBytes (addressWord owner) ++ hashBytes (addressWord body.beneficiary) ++
      hashBytes body.asset ++ natToBytes 32 body.amount.toNat⟩

/-- The log of an import. -/
def importLog (hashes : Hashes) (dChainID claimID : Word) (object : List UInt8) : Log :=
  ⟨vaultAddr, [settleImportEventSig, claimID],
    hashBytes dChainID ++ hashBytes (settleObjectHash hashes object)⟩

theorem hashBytes_addressWord (a : Address) :
    slice (hashBytes (addressWord a)) 12 32 = addressBytes a := by
  have hlt : (a : ℕ) < 2 ^ 256 := lt_trans a.isLt (by norm_num)
  rw [hashBytes, addressWord, BitVec.toNat_ofNat, Nat.mod_eq_of_lt hlt]
  exact slice_natToBytes 12 20 a

/-- The claim a log of an export carries. -/
theorem exportLog_object (dChainID claimID : Word) (owner : Address) (body : ClaimBody) :
    slice (exportLog dChainID claimID owner body).data 44 96 ++
      slice (exportLog dChainID claimID owner body).data 120 128 = encodeClaim body := by
  have howner : (hashBytes (addressWord owner)).length = 32 := hashBytes_length _
  have hbeneficiary : (hashBytes (addressWord body.beneficiary)).length = 32 :=
    hashBytes_length _
  have hasset : (hashBytes body.asset).length = 32 := hashBytes_length _
  have hboth : (hashBytes (addressWord owner) ++
      hashBytes (addressWord body.beneficiary)).length = 64 := by
    rw [List.length_append, howner, hbeneficiary]
  have hthree : (hashBytes (addressWord owner) ++ hashBytes (addressWord body.beneficiary) ++
      hashBytes body.asset).length = 96 := by
    rw [List.length_append, hboth, hasset]
  have hfront : slice (exportLog dChainID claimID owner body).data 44 96 =
      addressBytes body.beneficiary ++ hashBytes body.asset := by
    have hsplit : slice (hashBytes (addressWord body.beneficiary) ++ hashBytes body.asset) 12 64 =
        slice (hashBytes (addressWord body.beneficiary)) 12 32 ++ hashBytes body.asset := by
      rw [slice, List.drop_append_of_le_length (by omega), slice]
      have hdrop : ((hashBytes (addressWord body.beneficiary)).drop 12).length = 20 := by
        rw [List.length_drop, hbeneficiary]
      rw [List.take_of_length_le (by rw [List.length_append, hdrop, hasset]),
        List.take_of_length_le (by rw [hdrop])]
    rw [exportLog, slice_append_left (by omega), List.append_assoc,
      slice_append_right (by omega), howner, hsplit, hashBytes_addressWord]
  have hback : slice (exportLog dChainID claimID owner body).data 120 128 =
      natToBytes 8 body.amount.toNat := by
    rw [exportLog, slice_append_right (by omega), hthree]
    exact slice_natToBytes 24 8 body.amount.toNat
  rw [hfront, hback]
  rfl

theorem exportLog_stagedOp (dChainID claimID : Word) (owner : Address) (body : ClaimBody) :
    (exportLog dChainID claimID owner body).stagedOp =
      some (.put dChainID claimID (encodeClaim body)) := by
  rw [← exportLog_object dChainID claimID owner body]
  rfl

/-- An import names its object and the operation it staged. -/
theorem importLog_settleImport (hashes : Hashes) (dChainID claimID : Word)
    (object : List UInt8) :
    (importLog hashes dChainID claimID object).settleImport =
      some ⟨dChainID, claimID, settleObjectHash hashes object⟩ := by
  have hchain : (hashBytes dChainID).length = 32 := hashBytes_length _
  have hhash : (hashBytes (settleObjectHash hashes object)).length = 32 := hashBytes_length _
  have hlength : (importLog hashes dChainID claimID object).data.length =
      settleImportDataLen := by
    rw [importLog, List.length_append, hchain, hhash]
    rfl
  have hfirst : slice (importLog hashes dChainID claimID object).data 0 32 =
      hashBytes dChainID := by
    rw [importLog, slice_append_left (by omega)]
    exact slice_all (by omega)
  have hsecond : slice (importLog hashes dChainID claimID object).data 32 64 =
      hashBytes (settleObjectHash hashes object) := by
    rw [importLog, slice_append_right (by omega), hchain]
    exact slice_all (by omega)
  have htopics : (importLog hashes dChainID claimID object).topics =
      [settleImportEventSig, claimID] := rfl
  have haddress : (importLog hashes dChainID claimID object).address = vaultAddr := rfl
  unfold Log.settleImport
  rw [if_neg (not_not.mpr haddress), htopics]
  dsimp only
  rw [if_neg (not_not.mpr rfl), if_neg (not_not.mpr hlength), hfirst, hsecond,
    bytesToHash_hashBytes, bytesToHash_hashBytes]

theorem importLog_stagedOp (hashes : Hashes) (dChainID claimID : Word) (object : List UInt8) :
    (importLog hashes dChainID claimID object).stagedOp = some (.remove dChainID claimID) := by
  rw [Log.stagedOp, importLog_settleImport]
  rfl

/-! ## Staging along a run -/

variable {hashes : Hashes} {blocks : Set UInt64} {w w' : World} {ops : List StagedOp}

theorem declaredOps_of_not_crossing {logs : List Log} (h : ∀ l ∈ logs, ¬ l.IsCrossing) :
    declaredOps logs = [] := by
  rw [declaredOps, List.filterMap_eq_nil_iff]
  exact fun l hl => Log.stagedOp_of_not_crossing (h l (List.mem_reverse.mp hl))

theorem encodeClaim_length (body : ClaimBody) : (encodeClaim body).length = claimSize := by
  rw [encodeClaim, List.length_append, List.length_append, natToBytes_length, hashBytes_length,
    natToBytes_length]
  rfl

theorem claimSize_addressable (dChainID key : Word) {object : List UInt8}
    (h : object.length = claimSize) : (StagedOp.put dChainID key object).Addressable := by
  show (packPut dChainID key object).length < 2 ^ 63
  rw [(packPut_fields dChainID key object).2.2.2, h]
  decide

theorem remove_addressable (dChainID key : Word) :
    (StagedOp.remove dChainID key).Addressable := by
  show (packRemove dChainID key).length < 2 ^ 63
  rw [packRemove_eq, (packPut_fields dChainID key []).2.2.2]
  decide

theorem Slot.IsStage.isBook {slot : Slot} (h : slot.IsStage) : slot.IsBook := by
  cases slot <;> trivial

theorem Staged.exported {st : Storage} (h : Staged st ops) (hroom : ops.length < 2 ^ 64)
    (fr : Frame) (atomic : Atomic) (claimID : Word) (t : Transfer) :
    Staged (exportedStorage fr atomic claimID t st)
      (ops ++ [.put atomic.dChainID claimID (encodeClaim t.body)]) := by
  have hcustody : ¬ (Slot.custody t.asset).IsStage := fun hc => hc
  have hwritten : ¬ (Slot.claimWritten claimID).IsStage := fun hc => hc
  refine Staged.stage (h.congr fun slot hslot => ?_) hroom
    (claimSize_addressable _ _ (encodeClaim_length _))
  rw [markClaimWritten, Storage.set_of_ne (Slot.ne_of hslot hwritten),
    Storage.set_of_ne (Slot.ne_of hslot hcustody)]

theorem Staged.imported {st : Storage} (h : Staged st ops) (hroom : ops.length < 2 ^ 64)
    (fr : Frame) (atomic : Atomic) (claimID : Word) (body : ClaimBody) :
    Staged (importedStorage fr atomic claimID body st)
      (ops ++ [.remove atomic.dChainID claimID]) := by
  have hcustody : ¬ (Slot.custody body.asset).IsStage := fun hc => hc
  have hconsumed : ¬ (Slot.claimConsumed claimID).IsStage := fun hc => hc
  have hmarked : Staged (markClaimConsumed st claimID fr.blockNumber) ops :=
    h.congr fun slot hslot => Storage.set_of_ne (Slot.ne_of hslot hconsumed) _ _
  refine (hmarked.stage hroom (remove_addressable atomic.dChainID claimID)).congr
    fun slot hslot => ?_
  exact Storage.set_of_ne (Slot.ne_of hslot hcustody) _ _

theorem Staged.unchanged {st : Storage}
    (hst : ∀ slot : Slot, slot.IsStage → st slot = w.storage slot) {ops : List StagedOp}
    (hops : Staged w.storage ops) : Staged st (ops ++ declaredOps []) := by
  show Staged st (ops ++ [])
  rw [List.append_nil]
  exact hops.congr hst

/-- A change of the books stages what the new logs name, and that can be flushed. -/
theorem BookStep.staged (h : BookStep hashes blocks w w') :
    ∃ added : List Log, w'.logs = added ++ w.logs ∧
      (∀ op ∈ declaredOps added, op.WellFormed ∧ op.Addressable) ∧
      (declaredOps added).length ≤ 1 ∧
      ∀ ops, Staged w.storage ops → ops.length < 2 ^ 64 →
        Staged w'.storage (ops ++ declaredOps added) := by
  cases h with
  | quiet hquiet =>
      obtain ⟨added, hnone, hlogs⟩ := hquiet.logs
      refine ⟨added, hlogs, ?_, ?_, fun ops hops _ => ?_⟩
      · simp [declaredOps_of_not_crossing hnone]
      · simp [declaredOps_of_not_crossing hnone]
      · rw [declaredOps_of_not_crossing hnone, List.append_nil]
        exact hops.congr fun slot hslot => hquiet.storage slot hslot.isBook
  | @exported fr atomic claimID t _ _ _ _ _ =>
      have hops : declaredOps [exportLog atomic.dChainID claimID t.owner t.body] =
          [.put atomic.dChainID claimID (encodeClaim t.body)] := by
        simp [declaredOps, exportLog_stagedOp]
      refine ⟨[exportLog atomic.dChainID claimID t.owner t.body], rfl, ?_, ?_, fun ops hstaged
        hroom => ?_⟩
      · rw [hops]
        exact List.forall_mem_singleton.mpr
          ⟨encodeClaim_length _, claimSize_addressable _ _ (encodeClaim_length _)⟩
      · rw [hops]
        exact le_rfl
      · rw [hops]
        exact hstaged.exported hroom fr atomic claimID t
  | @imported fr atomic claim body _ _ _ _ _ _ =>
      have hops : declaredOps [importLog fr.hashes atomic.dChainID claim.id claim.object] =
          [.remove atomic.dChainID claim.id] := by
        simp [declaredOps, importLog_stagedOp]
      refine ⟨[importLog fr.hashes atomic.dChainID claim.id claim.object], rfl, ?_, ?_,
        fun ops hstaged hroom => ?_⟩
      · rw [hops]
        exact List.forall_mem_singleton.mpr ⟨trivial, remove_addressable _ _⟩
      · rw [hops]
        exact le_rfl
      · rw [hops]
        exact hstaged.imported hroom fr atomic claim.id body
  | @deposited st account asset amount hrecord =>
      have hclaim : ¬ (Slot.depositorClaim account asset).IsStage := fun hc => hc
      have hvault : ¬ (Slot.settleVault asset).IsStage := fun hc => hc
      refine ⟨[], rfl, by simp [declaredOps], by simp [declaredOps], fun ops hops _ =>
        hops.unchanged fun slot hslot => ?_⟩
      exact recordDeposit_of_ne hrecord (Slot.ne_of hslot hclaim) (Slot.ne_of hslot hvault)
  | @withdrawn st st' account asset amount _ _ hclaim hvault =>
      have hclaim' : ¬ (Slot.depositorClaim account asset).IsStage := fun hc => hc
      have hvault' : ¬ (Slot.settleVault asset).IsStage := fun hc => hc
      refine ⟨[], rfl, by simp [declaredOps], by simp [declaredOps], fun ops hops _ =>
        hops.unchanged fun slot hslot => ?_⟩
      rw [World.withStorage_storage, storeAmount_of_ne hvault (Slot.ne_of hslot hvault'),
        storeAmount_of_ne hclaim (Slot.ne_of hslot hclaim')]
  | @seeded asset amount _ =>
      have hcustody : ¬ (Slot.custody asset).IsStage := fun hc => hc
      refine ⟨[], rfl, by simp [declaredOps], by simp [declaredOps], fun ops hops _ =>
        hops.unchanged fun slot hslot => ?_⟩
      exact seededWorld_of_ne asset amount w (Slot.ne_of hslot hcustody)

/-- Along a run the staging area holds what the logs name. -/
theorem Books.staged (h : Books hashes blocks w w') :
    ∃ added : List Log, w'.logs = added ++ w.logs ∧
      (∀ op ∈ declaredOps added, op.WellFormed ∧ op.Addressable) ∧
      ∀ ops, Staged w.storage ops → (ops ++ declaredOps added).length < 2 ^ 64 →
        Staged w'.storage (ops ++ declaredOps added) := by
  induction h with
  | refl =>
      refine ⟨[], rfl, by simp [declaredOps], fun ops hops _ => ?_⟩
      exact hops.unchanged fun _ _ => rfl
  | @tail w1 w2 _ hstep ih =>
      obtain ⟨before, hbefore, hwell, hstaged⟩ := ih
      obtain ⟨added, hadded, hwell', -, hstaged'⟩ := hstep.staged
      refine ⟨added ++ before, by rw [hadded, hbefore, List.append_assoc], ?_, ?_⟩
      · rw [declaredOps_append]
        intro op hop
        exact (List.mem_append.mp hop).elim (hwell op) (hwell' op)
      · intro ops hops hroom
        rw [declaredOps_append, ← List.append_assoc] at hroom ⊢
        rw [List.length_append] at hroom
        exact hstaged' _ (hstaged ops hops (by omega)) (by omega)

theorem declaredOps_length_le (logs : List Log) : (declaredOps logs).length ≤ logs.length := by
  have hle := List.length_filterMap_le Log.stagedOp logs.reverse
  rwa [List.length_reverse] at hle

/-- In every run the flush of the operations between two states applies to each chain, in
their order, the operations that the logs written between them name, and never fails. -/
theorem flush_declared (hashes : Hashes) {w₀ : World} (hgenesis : Genesis w₀)
    (before block : List Action)
    (hroom : (runFrom hashes w₀ (before ++ block)).logs.length < 2 ^ 64) :
    ∃ declared : List Log,
      (runFrom hashes w₀ (before ++ block)).logs =
        declared ++ (runFrom hashes w₀ before).logs ∧
      (flushAcceptedAtomicOps (runFrom hashes w₀ before).storage
          (runFrom hashes w₀ (before ++ block)).storage).map FinMap.get =
        .ok (requestsFor (declaredOps declared)) := by
  have hrun := runFrom_append hashes w₀ before block
  have hany : ∀ actions : List Action, ∀ a ∈ actions, a.RunsIn Set.univ :=
    fun _ _ _ b _ => Set.mem_univ b
  obtain ⟨hparent, hbounded⟩ := runFrom_books hashes hgenesis.bounded (hany before)
  obtain ⟨hcurrent, -⟩ := runFrom_books hashes hbounded (hany block)
  rw [hrun] at hroom ⊢
  obtain ⟨old, hold, -, hstagedOld⟩ := hparent.staged
  obtain ⟨declared, hdeclared, hwell, hstaged⟩ := hcurrent.staged
  have hlength := congrArg List.length hdeclared
  rw [hold, List.length_append, List.length_append] at hlength
  have hle := declaredOps_length_le old
  have hle' := declaredOps_length_le declared
  have hempty : Staged w₀.storage [] := by
    rw [hgenesis.storage_empty]
    exact Staged.empty
  have hat := hstagedOld [] hempty (by rw [List.nil_append]; omega)
  rw [List.nil_append] at hat
  have hfits : (declaredOps old ++ declaredOps declared).length < 2 ^ 64 := by
    rw [List.length_append]
    omega
  refine ⟨declared, hdeclared, ?_⟩
  rw [flush_staged hat (hstaged _ hat hfits) (fun op hop => (hwell op hop).2) hfits,
    if_pos fun op hop => (hwell op hop).1]

/-- A registration, then a commit in a block of its own. -/
theorem flush_declared_sample :
    ∃ declared : List Log,
      (runFrom sampleHashes fundedWorld [sampleInitialize, sampleModify 1 100]).logs =
        declared ++ (runFrom sampleHashes fundedWorld [sampleInitialize]).logs ∧
      (flushAcceptedAtomicOps (runFrom sampleHashes fundedWorld [sampleInitialize]).storage
          (runFrom sampleHashes fundedWorld [sampleInitialize, sampleModify 1 100]).storage).map
          FinMap.get =
        .ok (requestsFor (declaredOps declared)) :=
  flush_declared sampleHashes fundedWorld_genesis [sampleInitialize] [sampleModify 1 100]
    (by decide +kernel)

/-! ## Claims along a run -/

/-- The claim an entry credits. -/
def Entry.importedClaim : Entry → Option (Word × ClaimBody)
  | .imported claimID body => some (claimID, body)
  | _ => none

/-- The id of the claim an entry funds. -/
def Entry.exportedID : Entry → Option Word
  | .exported claimID _ _ => some claimID
  | _ => none

/-- The claims a history credits, in their order; a world has its latest entry first. -/
def importedClaims (journal : List Entry) : List (Word × ClaimBody) :=
  journal.reverse.filterMap Entry.importedClaim

/-- The claims a history funds. -/
def exportedIDs (journal : List Entry) : List Word := journal.reverse.filterMap Entry.exportedID

/-- The chain and the key of a remove. -/
def StagedOp.removed : StagedOp → Option (Word × Word)
  | .put _ _ _ => none
  | .remove dChainID key => some (dChainID, key)

theorem importedClaims_append (entries entries' : List Entry) :
    importedClaims (entries ++ entries') = importedClaims entries' ++ importedClaims entries := by
  rw [importedClaims, List.reverse_append, List.filterMap_append]
  rfl

theorem exportedIDs_append (entries entries' : List Entry) :
    exportedIDs (entries ++ entries') = exportedIDs entries' ++ exportedIDs entries := by
  rw [exportedIDs, List.reverse_append, List.filterMap_append]
  rfl

theorem claims_of_not_flow {entries : List Entry} (h : ∀ e ∈ entries, ¬ e.IsFlow) :
    importedClaims entries = [] ∧ exportedIDs entries = [] := by
  have hnone : ∀ e ∈ entries.reverse, e.importedClaim = none ∧ e.exportedID = none := by
    intro e he
    have hflow := h e (List.mem_reverse.mp he)
    cases e <;> first | exact ⟨rfl, rfl⟩ | exact absurd trivial hflow
  constructor
  · rw [importedClaims, List.filterMap_eq_nil_iff]
    exact fun e he => (hnone e he).1
  · rw [exportedIDs, List.filterMap_eq_nil_iff]
    exact fun e he => (hnone e he).2

theorem decodeSettleImports_of_not_crossing {logs : List Log} (h : ∀ l ∈ logs, ¬ l.IsCrossing) :
    decodeSettleImports logs.reverse = [] := by
  rw [decodeSettleImports, List.filterMap_eq_nil_iff]
  exact fun l hl => Log.settleImport_of_not_crossing (h l (List.mem_reverse.mp hl))

/-- The bytes of a claim are those of what it decodes to. -/
theorem encodeClaim_of_decodeClaim {object : List UInt8} {body : ClaimBody}
    (h : decodeClaim object = some body) : encodeClaim body = object := by
  unfold decodeClaim at h
  split_ifs at h with hsize
  have hlength : object.length = 60 := not_not.mp hsize
  obtain rfl := Option.some.inj h
  have hfirst : (slice object 0 20).length = 20 := by simp [slice, hlength]
  have hsecond : (slice object 20 52).length = 32 := by simp [slice, hlength]
  have hthird : (slice object 52 60).length = 8 := by simp [slice, hlength]
  show addressBytes (bytesToAddress (slice object 0 20)) ++
    hashBytes (bytesToHash (slice object 20 52)) ++
    uint64Bytes (bytesToUint64 (slice object 52 60)) = object
  rw [addressBytes_bytesToAddress hfirst, hashBytes_bytesToHash hsecond,
    uint64Bytes_bytesToUint64 hthird]
  have hback : slice object 52 60 = object.drop 52 := by
    rw [slice, List.take_of_length_le (by rw [List.length_drop, hlength])]
  have hmiddle : object.drop 20 = slice object 20 52 ++ object.drop 52 := by
    rw [slice, ← List.drop_drop (i := 32) (j := 20)]
    exact (List.take_append_drop 32 (object.drop 20)).symm
  rw [hback, List.append_assoc, ← hmiddle]
  exact List.take_append_drop 20 object

/-- What the host decodes from the logs of some steps is what the steps credit. -/
structure Declared (hashes : Hashes) (logs : List Log) (entries : List Entry) : Prop where
  imports : (decodeSettleImports logs.reverse).map (fun i => (i.outputID, i.objectHash)) =
    (importedClaims entries).map fun c => (c.1, settleObjectHash hashes (encodeClaim c.2))
  removes : (declaredOps logs).filterMap StagedOp.removed =
    (decodeSettleImports logs.reverse).map fun i => (i.sourceChainID, i.outputID)

theorem Declared.append {logs logs' : List Log} {entries entries' : List Entry}
    (h : Declared hashes logs entries) (h' : Declared hashes logs' entries') :
    Declared hashes (logs' ++ logs) (entries' ++ entries) := by
  have hdecode : decodeSettleImports (logs' ++ logs).reverse =
      decodeSettleImports logs.reverse ++ decodeSettleImports logs'.reverse := by
    rw [decodeSettleImports, List.reverse_append, List.filterMap_append]
    rfl
  constructor
  · rw [hdecode, importedClaims_append, List.map_append, List.map_append, h.imports, h'.imports]
  · rw [hdecode, declaredOps_append, List.filterMap_append, List.map_append, h.removes,
      h'.removes]

theorem Declared.none {logs : List Log} {entries : List Entry}
    (hlogs : ∀ l ∈ logs, ¬ l.IsCrossing) (hentries : importedClaims entries = []) :
    Declared hashes logs entries := by
  constructor
  · rw [decodeSettleImports_of_not_crossing hlogs, hentries]
    rfl
  · rw [decodeSettleImports_of_not_crossing hlogs, declaredOps_of_not_crossing hlogs]
    rfl

/-- A change of the books credits what its logs declare. -/
theorem BookStep.declared (h : BookStep hashes blocks w w') :
    ∃ (logs : List Log) (entries : List Entry), w'.logs = logs ++ w.logs ∧
      w'.journal = entries ++ w.journal ∧ Declared hashes logs entries := by
  have hnone : ∀ {entries : List Entry}, importedClaims entries = [] →
      Declared hashes [] entries := fun hentries => .none (by simp) hentries
  cases h with
  | quiet hquiet =>
      obtain ⟨logs, hcrossing, hlogs⟩ := hquiet.logs
      obtain ⟨entries, hflow, hjournal⟩ := hquiet.journal
      exact ⟨logs, entries, hlogs, hjournal, .none hcrossing (claims_of_not_flow hflow).1⟩
  | @exported fr atomic claimID t _ _ _ _ _ =>
      have hdecode : decodeSettleImports [exportLog atomic.dChainID claimID t.owner t.body] =
          [] := rfl
      refine ⟨[exportLog atomic.dChainID claimID t.owner t.body],
        [.exported claimID t.owner t.body], rfl, rfl, ?_, ?_⟩
      · rw [List.reverse_singleton, hdecode]
        rfl
      · rw [List.reverse_singleton, hdecode]
        simp [declaredOps, exportLog_stagedOp, StagedOp.removed]
  | @imported fr atomic claim body hhashes _ hdecode _ _ _ =>
      refine ⟨[importLog fr.hashes atomic.dChainID claim.id claim.object],
        [.imported claim.id body], rfl, rfl, ?_, ?_⟩
      · simp [decodeSettleImports, importLog_settleImport, importedClaims, Entry.importedClaim,
          encodeClaim_of_decodeClaim hdecode, hhashes]
      · simp [decodeSettleImports, importLog_settleImport, declaredOps, importLog_stagedOp,
          StagedOp.removed]
  | deposited _ => exact ⟨[], [], rfl, rfl, hnone rfl⟩
  | withdrawn _ _ _ _ => exact ⟨[], [], rfl, rfl, hnone rfl⟩
  | @seeded asset amount _ => exact ⟨[], [.seeded asset amount], rfl, rfl, hnone rfl⟩

theorem Books.declared (h : Books hashes blocks w w') :
    ∃ (logs : List Log) (entries : List Entry), w'.logs = logs ++ w.logs ∧
      w'.journal = entries ++ w.journal ∧ Declared hashes logs entries := by
  induction h with
  | refl => exact ⟨[], [], rfl, rfl, .none (by simp) rfl⟩
  | tail _ hstep ih =>
      obtain ⟨logs, entries, hlogs, hjournal, hdeclared⟩ := ih
      obtain ⟨logs', entries', hlogs', hjournal', hdeclared'⟩ := hstep.declared
      exact ⟨logs' ++ logs, entries' ++ entries, by rw [hlogs', hlogs, List.append_assoc],
        by rw [hjournal', hjournal, List.append_assoc], hdeclared.append hdeclared'⟩

/-! ## Claims are used once -/

/-- The blocks whose mark is no zero word: all but the last number there is. -/
def markableBlocks : Set UInt64 := {b | b + 1 ≠ 0}

theorem claimMark_ne_zero {b : UInt64} (h : b ∈ markableBlocks) : claimMark b ≠ 0 := by
  have hpositive : (b + 1).toNat ≠ 0 := fun hc => h (UInt64.toNat_inj.mp hc)
  have hlt : (b + 1).toNat < 2 ^ 256 := lt_trans (UInt64.toNat_lt _) (by norm_num)
  intro hc
  have hzero := congrArg BitVec.toNat hc
  rw [claimMark, BitVec.toNat_ofNat, Nat.mod_eq_of_lt hlt] at hzero
  exact hpositive hzero

/-- A claim is marked in its set when the history has it, and the history has it once. -/
structure UsedOnce (w : World) : Prop where
  consumed : ∀ id, w.storage (.claimConsumed id) ≠ 0 ↔
    id ∈ (importedClaims w.journal).map Prod.fst
  imported : ((importedClaims w.journal).map Prod.fst).Nodup
  written : ∀ id, w.storage (.claimWritten id) ≠ 0 ↔ id ∈ exportedIDs w.journal
  exported : (exportedIDs w.journal).Nodup

theorem UsedOnce.of_genesis (h : Genesis w) : UsedOnce w := by
  constructor <;> simp [h.storage_empty, h.journal_nil, Storage.empty, importedClaims, exportedIDs]

theorem marks_set {st : Storage} {family : Word → Slot} (hfamily : Function.Injective family)
    {ids : List Word} (h : ∀ id, st (family id) ≠ 0 ↔ id ∈ ids) {claimID mark : Word}
    (hmark : mark ≠ 0) (id : Word) :
    st.set (family claimID) mark (family id) ≠ 0 ↔ id ∈ ids ++ [claimID] := by
  rw [List.mem_append, List.mem_singleton]
  by_cases hid : id = claimID
  · subst hid
    rw [Storage.set_self]
    exact iff_of_true hmark (.inr rfl)
  · rw [Storage.set_of_ne (fun hc => hid (hfamily hc)), h]
    simp [hid]

/-- A change that touches neither set nor history. -/
theorem UsedOnce.congr (h : UsedOnce w)
    (hconsumed : ∀ id, w'.storage (.claimConsumed id) = w.storage (.claimConsumed id))
    (hwritten : ∀ id, w'.storage (.claimWritten id) = w.storage (.claimWritten id))
    {entries : List Entry} (hjournal : w'.journal = entries ++ w.journal)
    (hclaims : importedClaims entries = []) (hids : exportedIDs entries = []) :
    UsedOnce w' := by
  have hsame : importedClaims w'.journal = importedClaims w.journal := by
    rw [hjournal, importedClaims_append, hclaims, List.append_nil]
  have hsame' : exportedIDs w'.journal = exportedIDs w.journal := by
    rw [hjournal, exportedIDs_append, hids, List.append_nil]
  refine ⟨fun id => ?_, ?_, fun id => ?_, ?_⟩
  · rw [hconsumed, hsame, h.consumed]
  · rw [hsame]
    exact h.imported
  · rw [hwritten, hsame', h.written]
  · rw [hsame']
    exact h.exported

theorem UsedOnce.export (h : UsedOnce w) (fr : Frame) (atomic : Atomic) {claimID : Word}
    {t : Transfer} (hblock : fr.blockNumber ∈ markableBlocks)
    (hunwritten : w.storage (.claimWritten claimID) = 0) :
    UsedOnce (exportedWorld fr atomic claimID t w) := by
  have hconsumed : ∀ id, ¬ (Slot.claimConsumed id).IsStage := fun id hc => hc
  have hwritten : ∀ id, ¬ (Slot.claimWritten id).IsStage := fun id hc => hc
  have hnew : claimID ∉ exportedIDs w.journal := fun hc =>
    (h.written claimID).mpr hc hunwritten
  have hids : exportedIDs (exportedWorld fr atomic claimID t w).journal =
      exportedIDs w.journal ++ [claimID] :=
    exportedIDs_append [.exported claimID t.owner t.body] w.journal
  have hclaims : importedClaims (exportedWorld fr atomic claimID t w).journal =
      importedClaims w.journal := by
    have happend := importedClaims_append [.exported claimID t.owner t.body] w.journal
    rwa [show importedClaims [.exported claimID t.owner t.body] = [] from rfl,
      List.append_nil] at happend
  refine ⟨fun id => ?_, ?_, fun id => ?_, ?_⟩
  · rw [hclaims, ← h.consumed, exportedWorld_storage,
      exportedStorage_of_ne _ _ _ _ _ (hconsumed id) (by simp) (by simp)]
  · rw [hclaims]
    exact h.imported
  · rw [hids, exportedWorld_storage, exportedStorage, stageAtomicPut,
      stageAtomic_of_not_stage _ _ _ (hwritten id)]
    refine marks_set (fun a b hab => Slot.claimWritten.inj hab) (fun id' => ?_)
      (claimMark_ne_zero hblock) id
    rw [Storage.set_of_ne (by simp)]
    exact h.written id'
  · rw [hids, List.nodup_append]
    refine ⟨h.exported, List.nodup_singleton _, ?_⟩
    intro id hid id' hid'
    rw [List.mem_singleton.mp hid']
    rintro rfl
    exact hnew hid

theorem UsedOnce.import (h : UsedOnce w) (fr : Frame) (atomic : Atomic) {claim : Claim}
    {body : ClaimBody} (hblock : fr.blockNumber ∈ markableBlocks)
    (hunconsumed : w.storage (.claimConsumed claim.id) = 0) :
    UsedOnce (importedWorld fr atomic claim body w) := by
  have hconsumed : ∀ id, ¬ (Slot.claimConsumed id).IsStage := fun id hc => hc
  have hwritten : ∀ id, ¬ (Slot.claimWritten id).IsStage := fun id hc => hc
  have hnew : claim.id ∉ (importedClaims w.journal).map Prod.fst := fun hc =>
    (h.consumed claim.id).mpr hc hunconsumed
  have hids : exportedIDs (importedWorld fr atomic claim body w).journal =
      exportedIDs w.journal := by
    have happend := exportedIDs_append [.imported claim.id body] w.journal
    rwa [show exportedIDs [.imported claim.id body] = [] from rfl, List.append_nil] at happend
  have hclaims : (importedClaims (importedWorld fr atomic claim body w).journal).map Prod.fst =
      (importedClaims w.journal).map Prod.fst ++ [claim.id] := by
    show (importedClaims ([.imported claim.id body] ++ w.journal)).map Prod.fst = _
    rw [importedClaims_append, List.map_append]
    rfl
  refine ⟨fun id => ?_, ?_, fun id => ?_, ?_⟩
  · rw [hclaims, importedWorld_storage, importedStorage, Storage.set_of_ne (by simp),
      stageAtomicRemove, stageAtomic_of_not_stage _ _ _ (hconsumed id)]
    exact marks_set (fun a b hab => Slot.claimConsumed.inj hab) h.consumed
      (claimMark_ne_zero hblock) id
  · rw [hclaims, List.nodup_append]
    refine ⟨h.imported, List.nodup_singleton _, ?_⟩
    intro id hid id' hid'
    rw [List.mem_singleton.mp hid']
    rintro rfl
    exact hnew hid
  · rw [hids, ← h.written, importedWorld_storage,
      importedStorage_of_ne _ _ _ _ _ (hwritten id) (by simp) (by simp)]
  · rw [hids]
    exact h.exported

/-- A change of the books uses a claim at most once. -/
theorem BookStep.usedOnce (h : BookStep hashes markableBlocks w w') (hw : UsedOnce w) :
    UsedOnce w' := by
  have hconsumed : ∀ id, (Slot.claimConsumed id).IsBook := fun id => trivial
  have hwritten : ∀ id, (Slot.claimWritten id).IsBook := fun id => trivial
  cases h with
  | quiet hquiet =>
      obtain ⟨entries, hflow, hjournal⟩ := hquiet.journal
      obtain ⟨hclaims, hids⟩ := claims_of_not_flow hflow
      exact hw.congr (fun id => hquiet.storage _ (hconsumed id))
        (fun id => hquiet.storage _ (hwritten id)) hjournal hclaims hids
  | exported _ hblock _ hunwritten _ => exact hw.export _ _ hblock hunwritten
  | imported _ hblock _ _ hunconsumed _ => exact hw.import _ _ hblock hunconsumed
  | deposited hrecord =>
      exact hw.congr (fun id => recordDeposit_of_ne hrecord (by simp) (by simp))
        (fun id => recordDeposit_of_ne hrecord (by simp) (by simp)) (List.nil_append _).symm rfl
        rfl
  | withdrawn _ _ hclaim hvault =>
      refine hw.congr (fun id => ?_) (fun id => ?_) (List.nil_append _).symm rfl rfl
      · rw [World.withStorage_storage, storeAmount_of_ne hvault (by simp),
          storeAmount_of_ne hclaim (by simp)]
      · rw [World.withStorage_storage, storeAmount_of_ne hvault (by simp),
          storeAmount_of_ne hclaim (by simp)]
  | @seeded asset amount _ =>
      exact hw.congr (fun id => seededWorld_of_ne asset amount w (by simp))
        (fun id => seededWorld_of_ne asset amount w (by simp))
        (show _ = [.seeded asset amount] ++ w.journal from rfl) rfl rfl

theorem Books.usedOnce (h : Books hashes markableBlocks w w') (hw : UsedOnce w) :
    UsedOnce w' := by
  induction h with
  | refl => exact hw
  | tail _ hstep ih => exact hstep.usedOnce ih

/-- In every run the imports the host decodes from the logs between two states are the
claims credited between them, in their order, with the hash of the object they carry; the
operations that remove their objects are staged one for one; and over the whole run no
claim is credited or funded twice. -/
theorem imports_declared (hashes : Hashes) {w₀ : World} (hgenesis : Genesis w₀)
    (before block : List Action) (hblocks : ∀ a ∈ before ++ block, a.RunsIn markableBlocks) :
    ∃ (declared : List Log) (added : List Entry),
      (runFrom hashes w₀ (before ++ block)).logs =
        declared ++ (runFrom hashes w₀ before).logs ∧
      (runFrom hashes w₀ (before ++ block)).journal =
        added ++ (runFrom hashes w₀ before).journal ∧
      Declared hashes declared added ∧ UsedOnce (runFrom hashes w₀ (before ++ block)) := by
  have hrun := runFrom_append hashes w₀ before block
  obtain ⟨hparent, hbounded⟩ := runFrom_books hashes hgenesis.bounded fun a ha =>
    hblocks a (List.mem_append_left block ha)
  obtain ⟨hcurrent, -⟩ := runFrom_books hashes hbounded fun a ha =>
    hblocks a (List.mem_append_right before ha)
  rw [hrun]
  obtain ⟨declared, added, hlogs, hjournal, hdeclared⟩ := hcurrent.declared
  exact ⟨declared, added, hlogs, hjournal, hdeclared,
    hcurrent.usedOnce (hparent.usedOnce (.of_genesis hgenesis))⟩

/-- A registration and a commit, then a collect in a block of its own. -/
theorem imports_declared_sample :
    ∃ (declared : List Log) (added : List Entry),
      (runFrom sampleHashes fundedWorld
          [sampleInitialize, sampleModify 1 100, sampleCollect 5 40]).logs =
        declared ++ (runFrom sampleHashes fundedWorld
          [sampleInitialize, sampleModify 1 100]).logs ∧
      (runFrom sampleHashes fundedWorld
          [sampleInitialize, sampleModify 1 100, sampleCollect 5 40]).journal =
        added ++ (runFrom sampleHashes fundedWorld
          [sampleInitialize, sampleModify 1 100]).journal ∧
      Declared sampleHashes declared added ∧
      UsedOnce (runFrom sampleHashes fundedWorld
        [sampleInitialize, sampleModify 1 100, sampleCollect 5 40]) := by
  refine imports_declared sampleHashes fundedWorld_genesis
    [sampleInitialize, sampleModify 1 100] [sampleCollect 5 40] ?_
  intro a ha b hcontext
  simp only [List.cons_append, List.nil_append, List.mem_cons, List.not_mem_nil, or_false] at ha
  have hseven : b = 7 := by
    obtain rfl | rfl | rfl := ha
    · exact (Option.some.inj hcontext).symm
    · exact (Option.some.inj hcontext).symm
    · exact (Option.some.inj hcontext).symm
  rw [hseven]
  show (7 : UInt64) + 1 ≠ 0
  decide

end LuxPrecompile.Settle
