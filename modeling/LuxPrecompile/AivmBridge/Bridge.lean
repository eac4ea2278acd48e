import LuxPrecompile.AivmBridge.Merkle

/-!
# The inference bridge

`aivmbridge/bridge.go` with the intents, the stores and the clients behind it.  A submission
records an intent in the outbox under an identifier derived from its fields; a receipt that a
committed root proves consumes it.  Storage is addressed by the names that are hashed to keys.
Keccak and the library that checks compute proofs are parameters.
-/

namespace LuxPrecompile.AivmBridge

open Evm Support Layout

/-- `errors.go`, with the out-of-gas and selector errors of `bridge.go`. -/
inductive RunError
  | aChainUnavailable
  | inputTooShort
  | inputOversized
  | dirtyWord
  | badFanout
  | badThreshold
  | zeroModelSpec
  | zeroPrompt
  | zeroTxHash
  | intentReplay
  | decode (e : BridgeError)
  | receiptRootNotCommitted
  | merkleVerify
  | noMatchingIntent
  | intentConsumed
  | receiptNotCompleted
  | zeroOutput
  | receiptBindMismatch
  | readOnly
  | noAtomicState
  | outOfGas (need supplied : UInt64)
  | unknownSelector (selector : UInt32)
  /-- An error of the library of compute proofs. -/
  | computeProof
deriving DecidableEq, Repr

/-! ## Intents -/

/-- `InferenceIntent`. -/
structure InferenceIntent where
  cChainID : Word
  aChainID : Word
  cTxHash : Word
  callIndex : UInt32
  caller : Address
  modelSpecHash : Word
  modelPromptHash : Word
  n : UInt16
  threshold : UInt16
  fee : Word
deriving DecidableEq

def domainIntent : List UInt8 :=
  ascii ['l', 'u', 'x', '/', 'a', 'i', 'v', 'm', 'b', 'r', 'i', 'd', 'g', 'e', '/', 'i', 'n', 't',
    'e', 'n', 't', '/', 'v', '1']

/-- The fields of the preimage of an identifier, in the order they are appended. -/
def intentFields (i : InferenceIntent) : List (List UInt8) :=
  [hashBytes i.cChainID, hashBytes i.aChainID, hashBytes i.cTxHash, uint32Bytes i.callIndex,
    addressBytes i.caller, hashBytes i.modelSpecHash, hashBytes i.modelPromptHash,
    uint16Bytes i.n, uint16Bytes i.threshold, hashBytes i.fee]

/-- The string hashed to an identifier. -/
def intentPreimage (i : InferenceIntent) : List UInt8 := domainIntent ++ (intentFields i).flatten

def deriveIntentID (keccak256 : List UInt8 → Word) (i : InferenceIntent) : Word :=
  keccak256 (intentPreimage i)

theorem intentFields_lengths (i : InferenceIntent) :
    (intentFields i).map List.length = [32, 32, 32, 4, 20, 32, 32, 2, 2, 32] := by
  simp [intentFields]

/-- The fields have fixed widths, so the string determines the intent. -/
theorem intentPreimage_inj {i j : InferenceIntent} (h : intentPreimage i = intentPreimage j) :
    i = j := by
  have hflat : (intentFields i).flatten = (intentFields j).flatten := List.append_cancel_left h
  have hfields : intentFields i = intentFields j := by
    have hi := cut_flatten (intentFields i)
    have hj := cut_flatten (intentFields j)
    rw [intentFields_lengths] at hi hj
    rw [← hi, ← hj, hflat]
  simp only [intentFields, List.cons.injEq, and_true] at hfields
  obtain ⟨h0, h1, h2, h3, h4, h5, h6, h7, h8, h9⟩ := hfields
  have hcall : i.callIndex = j.callIndex := by
    rw [← bytesToUint32_uint32Bytes i.callIndex, h3, bytesToUint32_uint32Bytes]
  have hcaller : i.caller = j.caller := by
    rw [← bytesToAddress_addressBytes i.caller, h4, bytesToAddress_addressBytes]
  have hn : i.n = j.n := by
    rw [← bytesToUint16_uint16Bytes i.n, h7, bytesToUint16_uint16Bytes]
  have hthreshold : i.threshold = j.threshold := by
    rw [← bytesToUint16_uint16Bytes i.threshold, h8, bytesToUint16_uint16Bytes]
  obtain ⟨⟩ := i
  obtain ⟨⟩ := j
  rw [InferenceIntent.mk.injEq]
  exact ⟨hashBytes_inj h0, hashBytes_inj h1, hashBytes_inj h2, hcall, hcaller, hashBytes_inj h5,
    hashBytes_inj h6, hn, hthreshold, hashBytes_inj h9⟩

/-! ## Storage -/

/-- The tags of the slots of one intent. -/
inductive OutboxField
  | st
  | cl
  | cc
  | ac
  | ms
  | pr
  | nt
  | bn
deriving DecidableEq

/-- The names under which the bridge stores words. -/
inductive Slot
  | outbox (intentID : Word) (field : OutboxField)
  | consumed (intentID : Word)
  | rcptroot (receiptRoot : Word)
deriving DecidableEq

def OutboxField.tag : OutboxField → List UInt8
  | .st => ascii ['s', 't']
  | .cl => ascii ['c', 'l']
  | .cc => ascii ['c', 'c']
  | .ac => ascii ['a', 'c']
  | .ms => ascii ['m', 's']
  | .pr => ascii ['p', 'r']
  | .nt => ascii ['n', 't']
  | .bn => ascii ['b', 'n']

def stateNamespace : List UInt8 :=
  ascii ['a', 'i', 'v', 'm', 'b', 'r', 'i', 'd', 'g', 'e', '.', 'v', '1', '.']

/-- The strings that `makeStorageKey` hashes. -/
def Slot.preimage : Slot → List UInt8
  | .outbox intentID field =>
      stateNamespace ++ ascii ['o', 'u', 't', 'b', 'o', 'x'] ++ (hashBytes intentID ++ field.tag)
  | .consumed intentID =>
      stateNamespace ++ ascii ['c', 'o', 'n', 's', 'u', 'm', 'e', 'd'] ++ hashBytes intentID
  | .rcptroot receiptRoot =>
      stateNamespace ++ ascii ['r', 'c', 'p', 't', 'r', 'o', 'o', 't'] ++ hashBytes receiptRoot

/-- Two names are hashed from two strings. -/
theorem Slot.preimage_inj {s t : Slot} (h : s.preimage = t.preimage) : s = t := by
  have hat : s.preimage[14]? = t.preimage[14]? := congrArg (·[14]?) h
  rcases s with ⟨id, field⟩ | id | root <;> rcases t with ⟨id', field'⟩ | id' | root'
  · have hrest := List.append_cancel_left h
    obtain ⟨hid, htag⟩ := List.append_inj hrest (by rw [hashBytes_length, hashBytes_length])
    have hfield : field = field' := by
      revert htag
      cases field <;> cases field' <;> decide
    rw [hashBytes_inj hid, hfield]
  · cases hat
  · cases hat
  · cases hat
  · rw [hashBytes_inj (List.append_cancel_left h)]
  · cases hat
  · cases hat
  · cases hat
  · rw [hashBytes_inj (List.append_cancel_left h)]

/-- The storage of the bridge. -/
abbrev StateKV := Slot → Word

/-- `SetState`. -/
def StateKV.set (kv : StateKV) (slot : Slot) (value : Word) : StateKV :=
  Function.update kv slot value

/-- `OutboxStatus`, with the bytes that name none. -/
inductive OutboxStatus
  | none
  | pending
  | consumed
  | unknown (b : UInt8)
deriving DecidableEq

def OutboxStatus.ofByte (b : UInt8) : OutboxStatus :=
  if b = 0 then .none else if b = 1 then .pending else if b = 2 then .consumed else .unknown b

def OutboxStatus.toByte : OutboxStatus → UInt8
  | .none => 0
  | .pending => 1
  | .consumed => 2
  | .unknown b => b

/-- `OutboxIntent`. -/
structure OutboxIntent where
  status : OutboxStatus
  caller : Address
  cChainID : Word
  aChainID : Word
  modelSpecHash : Word
  promptHash : Word
  n : UInt16
  threshold : UInt16
  blockNumber : UInt64
deriving DecidableEq

/-- `OutboxIntent` with `OutboxNone`. -/
def OutboxIntent.absent : OutboxIntent := ⟨.none, 0, 0, 0, 0, 0, 0, 0, 0⟩

/-- A word that ends in the given bytes. -/
def wordEnding (bs : List UInt8) : Word := bytesToHash (List.replicate (32 - bs.length) 0 ++ bs)

def intentStatus (kv : StateKV) (intentID : Word) : OutboxStatus :=
  .ofByte ((wordSlice (kv (.outbox intentID .st)) 31 32).headD 0)

/-- `PutPendingIntent`: the store stamps its own block number. -/
def putPendingIntent (kv : StateKV) (intentID : Word) (oi : OutboxIntent)
    (blockNumber : UInt64) : StateKV :=
  let kv := kv.set (.outbox intentID .st) (wordEnding [OutboxStatus.pending.toByte])
  let kv := kv.set (.outbox intentID .cl) (addressWord oi.caller)
  let kv := kv.set (.outbox intentID .cc) oi.cChainID
  let kv := kv.set (.outbox intentID .ac) oi.aChainID
  let kv := kv.set (.outbox intentID .ms) oi.modelSpecHash
  let kv := kv.set (.outbox intentID .pr) oi.promptHash
  let kv := kv.set (.outbox intentID .nt)
    (wordEnding (uint16Bytes oi.n ++ uint16Bytes oi.threshold))
  kv.set (.outbox intentID .bn) (wordEnding (uint64Bytes blockNumber))

def loadIntent (kv : StateKV) (intentID : Word) : OutboxIntent :=
  let status := OutboxStatus.ofByte ((wordSlice (kv (.outbox intentID .st)) 31 32).headD 0)
  if status = .none then .absent
  else
    let nt := kv (.outbox intentID .nt)
    { status := status
      caller := wordAddress (kv (.outbox intentID .cl))
      cChainID := kv (.outbox intentID .cc)
      aChainID := kv (.outbox intentID .ac)
      modelSpecHash := kv (.outbox intentID .ms)
      promptHash := kv (.outbox intentID .pr)
      n := bytesToUint16 (wordSlice nt 28 30)
      threshold := bytesToUint16 (wordSlice nt 30 32)
      blockNumber := bytesToUint64 (wordSlice (kv (.outbox intentID .bn)) 24 32) }

def markIntentConsumed (kv : StateKV) (intentID : Word) (blockNumber : UInt64) : StateKV :=
  let kv := kv.set (.outbox intentID .st) (wordEnding [OutboxStatus.consumed.toByte])
  kv.set (.consumed intentID) (wordEnding (uint64Bytes (blockNumber + 1)))

def receiptRootCommitted (kv : StateKV) (receiptRoot : Word) : Bool :=
  if receiptRoot = 0 then false else decide (kv (.rcptroot receiptRoot) ≠ 0)

def commitReceiptRoot (kv : StateKV) (receiptRoot : Word) (committedHeight : UInt64) : StateKV :=
  if receiptRoot = 0 then kv
  else kv.set (.rcptroot receiptRoot) (wordEnding (uint64Bytes (committedHeight + 1)))

/-! ## Clients and the host -/

/-- `AtomicState`. -/
structure AtomicState where
  cChainID : Word
  txID : Word
  callIndex : UInt32

/-- The installed `AChainClient`. -/
inductive AChainClient
  | unavailable
  | native (achainID : Word)

def AChainClient.aChainID : AChainClient → Word
  | .unavailable => 0
  | .native achainID => achainID

/-- What a call reads of its host: the atomic capability, `StateDB.TxHash`, the number of the
block and the installed client. -/
structure Host where
  atomicState : Option AtomicState
  txHash : Word
  blockNumber : UInt64
  client : AChainClient

/-- What a call returns, and the storage it leaves. -/
structure Outcome where
  ret : Except RunError (List UInt8)
  remainingGas : UInt64
  state : StateKV

variable (keccak256 : List UInt8 → Word)

/-- `SubmitInferenceIntent` of a client: the identifier or an error, and the storage. -/
def AChainClient.submitInferenceIntent (client : AChainClient) (kv : StateKV)
    (blockNumber : UInt64) (intent : InferenceIntent) : Except RunError Word × StateKV :=
  match client with
  | .unavailable => (.error .aChainUnavailable, kv)
  | .native achainID =>
      let intent := { intent with aChainID := achainID }
      let intentID := deriveIntentID keccak256 intent
      if intentStatus kv intentID ≠ .none then (.error .intentReplay, kv)
      else
        (.ok intentID, putPendingIntent kv intentID
          { status := .pending
            caller := intent.caller
            cChainID := intent.cChainID
            aChainID := intent.aChainID
            modelSpecHash := intent.modelSpecHash
            promptHash := intent.modelPromptHash
            n := intent.n
            threshold := intent.threshold
            blockNumber := 0 } blockNumber)

/-! ## Submission -/

def gasSubmitInferenceIntent : UInt64 := 40000
def gasVerifyInferenceReceiptBase : UInt64 := 30000
def gasVerifyPerProofNode : UInt64 := 1000
def gasVerifyComputeProofBase : UInt64 := 30000
def gasVerifyComputeProofPerFieldOp : UInt64 := 2

def maxFanout : UInt16 := 256

def submitIntentArgsLen : ℕ := 6 * 32

def readUint16Word (word : List UInt8) : Except RunError UInt16 :=
  if word.length < 32 then .error .inputTooShort
  else if (word.take 30).any (· ≠ 0) then .error .dirtyWord
  else .ok (bytesToUint16 (slice word 30 32))

/-- The request in the arguments of a submission, with the checks `submitIntent` makes on it. -/
def decodeIntent (caller : Address) (args : List UInt8) : Except RunError InferenceIntent :=
  if args.length < submitIntentArgsLen then .error .inputTooShort
  else if submitIntentArgsLen < args.length then .error .inputOversized
  else do
    let n ← readUint16Word (slice args 64 96)
    let threshold ← readUint16Word (slice args 96 128)
    let intent : InferenceIntent :=
      { cChainID := 0
        aChainID := 0
        cTxHash := 0
        callIndex := 0
        caller := caller
        modelSpecHash := bytesToHash (slice args 0 32)
        modelPromptHash := bytesToHash (slice args 32 64)
        n := n
        threshold := threshold
        fee := bytesToHash (slice args 128 160) }
    if intent.modelSpecHash = 0 then .error .zeroModelSpec
    else if intent.modelPromptHash = 0 then .error .zeroPrompt
    else if intent.n = 0 ∨ maxFanout < intent.n then .error .badFanout
    else if intent.threshold = 0 ∨ intent.n < intent.threshold then .error .badThreshold
    else .ok intent

/-- The identity of the transaction that `submitIntent` binds to a request. -/
def Host.bindIdentity (host : Host) (intent : InferenceIntent) :
    Except RunError InferenceIntent :=
  match host.atomicState with
  | none => .error .noAtomicState
  | some atomicState =>
      let cTxHash := if host.txHash = 0 then atomicState.txID else host.txHash
      if cTxHash = 0 then .error .zeroTxHash
      else
        .ok { intent with
          cChainID := atomicState.cChainID
          cTxHash := cTxHash
          callIndex := atomicState.callIndex
          aChainID := host.client.aChainID }

def submitIntent (host : Host) (caller : Address) (args : List UInt8) (suppliedGas : UInt64)
    (readOnly : Bool) (kv : StateKV) : Outcome :=
  if suppliedGas < gasSubmitInferenceIntent then
    ⟨.error (.outOfGas gasSubmitInferenceIntent suppliedGas), 0, kv⟩
  else
    let remainingGas := suppliedGas - gasSubmitInferenceIntent
    if readOnly then ⟨.error .readOnly, remainingGas, kv⟩
    else
      match (decodeIntent caller args).bind host.bindIdentity with
      | .error e => ⟨.error e, remainingGas, kv⟩
      | .ok intent =>
          let (intentID, kv) :=
            host.client.submitInferenceIntent keccak256 kv host.blockNumber intent
          ⟨intentID.map hashBytes, remainingGas, kv⟩

/-! ## Verification -/

/-- `VerifiedAInferenceReceipt`. -/
structure VerifiedAInferenceReceipt where
  intentID : Word
  canonicalOutputHash : Word
  status : UInt8

def statusCompleted : UInt8 := 2

/-- The fields of a receipt that a recorded intent fixes. -/
def Binds (r : AInferenceReceipt) (oi : OutboxIntent) : Prop :=
  r.modelSpecHash = oi.modelSpecHash ∧ r.promptHash = oi.promptHash ∧ r.requester = oi.caller ∧
    r.cChainID = oi.cChainID ∧ r.aChainID = oi.aChainID ∧ r.n = oi.n ∧ r.threshold = oi.threshold

instance (r : AInferenceReceipt) (oi : OutboxIntent) : Decidable (Binds r oi) :=
  inferInstanceAs (Decidable (_ ∧ _))

def verifyInferenceReceipt (kv : StateKV) (r : AInferenceReceipt) (p : AInferenceProof) :
    Except RunError VerifiedAInferenceReceipt × StateKV :=
  if r.status ≠ statusCompleted then (.error .receiptNotCompleted, kv)
  else if r.canonicalOutputHash = 0 then (.error .zeroOutput, kv)
  else
    let leaf := leafHash keccak256 (receiptHash keccak256 r)
    if ¬ receiptRootCommitted kv p.receiptRoot then (.error .receiptRootNotCommitted, kv)
    else if ¬ verifyMerkle keccak256 leaf p then (.error .merkleVerify, kv)
    else
      let oi := loadIntent kv r.intentID
      match oi.status with
      | .none => (.error .noMatchingIntent, kv)
      | .consumed => (.error .intentConsumed, kv)
      | .unknown _ => (.error .noMatchingIntent, kv)
      | .pending =>
          if ¬ Binds r oi then (.error .receiptBindMismatch, kv)
          else
            (.ok ⟨r.intentID, r.canonicalOutputHash, statusCompleted⟩,
              markIntentConsumed kv r.intentID oi.blockNumber)

def verifyGas (pathLen : ℕ) : UInt64 :=
  gasVerifyInferenceReceiptBase + UInt64.ofNat pathLen * gasVerifyPerProofNode

/-- The receipt and the proof in the arguments of a verification. -/
def decodeFrame (args : List UInt8) : Except RunError (AInferenceReceipt × AInferenceProof) :=
  let headLen := 4
  if args.length < headLen then .error .inputTooShort
  else
    let receiptLen := (bytesToUint16 (slice args 0 2)).toNat
    let proofLen := (bytesToUint16 (slice args 2 4)).toNat
    if args.length ≠ headLen + receiptLen + proofLen then .error .inputOversized
    else do
      let r ← (decodeReceipt (slice args headLen (headLen + receiptLen))).mapError .decode
      let p ← (decodeProof (args.drop (headLen + receiptLen))).mapError .decode
      .ok (r, p)

/-- The words a verification returns. -/
def VerifiedAInferenceReceipt.words (v : VerifiedAInferenceReceipt) : List UInt8 :=
  hashBytes v.intentID ++ hashBytes v.canonicalOutputHash ++ (List.replicate 31 0 ++ [v.status])

def verifyReceipt (args : List UInt8) (suppliedGas : UInt64) (readOnly : Bool) (kv : StateKV) :
    Outcome :=
  if suppliedGas < gasVerifyInferenceReceiptBase then
    ⟨.error (.outOfGas gasVerifyInferenceReceiptBase suppliedGas), 0, kv⟩
  else if readOnly then ⟨.error .readOnly, suppliedGas - gasVerifyInferenceReceiptBase, kv⟩
  else
    match decodeFrame args with
    | .error e => ⟨.error e, suppliedGas - gasVerifyInferenceReceiptBase, kv⟩
    | .ok (r, p) =>
        let gas := verifyGas p.path.length
        if suppliedGas < gas then ⟨.error (.outOfGas gas suppliedGas), 0, kv⟩
        else
          let (verified, kv) := verifyInferenceReceipt keccak256 kv r p
          ⟨verified.map VerifiedAInferenceReceipt.words, suppliedGas - gas, kv⟩

/-! ## Compute proofs -/

/-- What the library of compute proofs offers: reading the wire of an opening, the field
operations of a check of it, and the check, included and genuine. -/
structure Poi (Opening : Type) where
  decodeOpening : List UInt8 → Option Opening
  fieldOps : Opening → UInt64
  checkDecoded : Opening → Option (Bool × Bool)

variable {Opening : Type} (poi : Poi Opening)

def computeProofGas (op : Opening) : UInt64 :=
  gasVerifyComputeProofBase + poi.fieldOps op * gasVerifyComputeProofPerFieldOp

def verifyComputeProof (args : List UInt8) (suppliedGas : UInt64) (kv : StateKV) : Outcome :=
  if suppliedGas < gasVerifyComputeProofBase then
    ⟨.error (.outOfGas gasVerifyComputeProofBase suppliedGas), 0, kv⟩
  else
    match poi.decodeOpening args with
    | none => ⟨.error .computeProof, suppliedGas - gasVerifyComputeProofBase, kv⟩
    | some op =>
        let cost := computeProofGas poi op
        if suppliedGas < cost then ⟨.error (.outOfGas cost suppliedGas), 0, kv⟩
        else
          match poi.checkDecoded op with
          | none => ⟨.error .computeProof, suppliedGas - cost, kv⟩
          | some (included, ok) =>
              ⟨.ok (List.replicate 31 0 ++ [(if included then 1 else 0) ||| if ok then 2 else 0]),
                suppliedGas - cost, kv⟩

/-! ## The precompile -/

def selectorSubmitInferenceIntent : UInt32 := 0x10000000
def selectorVerifyInferenceReceipt : UInt32 := 0x11000000
def selectorVerifyComputeProof : UInt32 := 0x12000000

def runBridge (host : Host) (caller : Address) (input : List UInt8) (suppliedGas : UInt64)
    (readOnly : Bool) (kv : StateKV) : Outcome :=
  if input.length < 4 then ⟨.error .inputTooShort, suppliedGas, kv⟩
  else
    let selector := bytesToUint32 (input.take 4)
    let args := input.drop 4
    if selector = selectorSubmitInferenceIntent then
      submitIntent keccak256 host caller args suppliedGas readOnly kv
    else if selector = selectorVerifyInferenceReceipt then
      verifyReceipt keccak256 args suppliedGas readOnly kv
    else if selector = selectorVerifyComputeProof then
      verifyComputeProof poi args suppliedGas kv
    else ⟨.error (.unknownSelector selector), suppliedGas, kv⟩

def computeProofRequiredGas (args : List UInt8) : UInt64 :=
  match poi.decodeOpening args with
  | none => gasVerifyComputeProofBase
  | some op => computeProofGas poi op

def requiredGas (input : List UInt8) : UInt64 :=
  if input.length < 4 then gasVerifyInferenceReceiptBase
  else
    let selector := bytesToUint32 (input.take 4)
    let args := input.drop 4
    if selector = selectorSubmitInferenceIntent then gasSubmitInferenceIntent
    else if selector = selectorVerifyInferenceReceipt then
      if args.length < 4 then gasVerifyInferenceReceiptBase
      else
        let receiptLen := (bytesToUint16 (slice args 0 2)).toNat
        let proofLen := (bytesToUint16 (slice args 2 4)).toNat
        if args.length ≠ 4 + receiptLen + proofLen then gasVerifyInferenceReceiptBase
        else
          let proofBytes := args.drop (4 + receiptLen)
          if proofBytes.length < 42 then gasVerifyInferenceReceiptBase
          else
            let pathLen := (bytesToUint16 (slice proofBytes 40 42)).toNat
            if maxProofDepth < pathLen then gasVerifyInferenceReceiptBase
            else verifyGas pathLen
    else if selector = selectorVerifyComputeProof then computeProofRequiredGas poi args
    else gasVerifyInferenceReceiptBase

end LuxPrecompile.AivmBridge
