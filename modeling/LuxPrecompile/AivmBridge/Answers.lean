import LuxPrecompile.AivmBridge.Bridge

/-!
# What the bridge answers

A call reads the recorded intents and the committed roots.  One lemma says for each kind of call
what it does where these allow it, and that it does nothing otherwise.
-/

namespace LuxPrecompile.AivmBridge

open Evm Support

/-! ## Records read back -/

theorem wordSlice_wordEnding (bs : List UInt8) (h : bs.length ≤ 32) (i j : ℕ) :
    wordSlice (wordEnding bs) (32 - bs.length + i) (32 - bs.length + j) = slice bs i j := by
  have hlength : (List.replicate (32 - bs.length) (0 : UInt8) ++ bs).length = 32 := by
    rw [List.length_append, List.length_replicate]
    omega
  have hdrop : (List.replicate (32 - bs.length) (0 : UInt8) ++ bs).drop (32 - bs.length + i) =
      bs.drop i := by
    rw [← List.drop_drop, List.drop_left' List.length_replicate]
  rw [wordSlice, wordEnding, hashBytes_bytesToHash hlength, slice, hdrop, slice,
    Nat.add_sub_add_left]

theorem wordSlice_status (b : UInt8) : wordSlice (wordEnding [b]) 31 32 = [b] :=
  wordSlice_wordEnding [b] (by simp) 0 1

theorem wordSlice_uint64 (x : UInt64) : wordSlice (wordEnding (uint64Bytes x)) 24 32 =
    uint64Bytes x := by
  have h := wordSlice_wordEnding (uint64Bytes x) (by simp) 0 8
  rw [uint64Bytes_length] at h
  rw [h, slice, List.drop_zero, List.take_of_length_le (uint64Bytes_length x).le]

theorem wordEnding_uint64_eq_zero_iff (x : UInt64) : wordEnding (uint64Bytes x) = 0 ↔ x = 0 := by
  constructor
  · intro h
    have hslice := wordSlice_uint64 x
    rw [h] at hslice
    rw [← bytesToUint64_uint64Bytes x, ← hslice]
    rfl
  · rintro rfl
    decide

variable (kv : StateKV)

theorem intentStatus_eq (id : Word) : intentStatus kv id = (loadIntent kv id).status := by
  rw [intentStatus, loadIntent]
  dsimp only
  by_cases h : OutboxStatus.ofByte ((wordSlice (kv (.outbox id .st)) 31 32).headD 0) = .none
  · rw [if_pos h, h, OutboxIntent.absent]
  · rw [if_neg h]

theorem loadIntent_congr {kv kv' : StateKV} {id : Word}
    (h : ∀ field, kv' (.outbox id field) = kv (.outbox id field)) :
    loadIntent kv' id = loadIntent kv id := by
  simp only [loadIntent, h]

/-- The word that a recorded intent has in each of its slots. -/
def pendingWord (oi : OutboxIntent) (blockNumber : UInt64) : OutboxField → Word
  | .st => wordEnding [OutboxStatus.pending.toByte]
  | .cl => addressWord oi.caller
  | .cc => oi.cChainID
  | .ac => oi.aChainID
  | .ms => oi.modelSpecHash
  | .pr => oi.promptHash
  | .nt => wordEnding (uint16Bytes oi.n ++ uint16Bytes oi.threshold)
  | .bn => wordEnding (uint64Bytes blockNumber)

theorem putPendingIntent_self (id : Word) (oi : OutboxIntent) (blockNumber : UInt64)
    (field : OutboxField) :
    putPendingIntent kv id oi blockNumber (.outbox id field) =
      pendingWord oi blockNumber field := by
  cases field <;> simp [putPendingIntent, StateKV.set, pendingWord]

theorem putPendingIntent_of_ne (id : Word) (oi : OutboxIntent) (blockNumber : UInt64)
    {slot : Slot} (h : ∀ field, slot ≠ .outbox id field) :
    putPendingIntent kv id oi blockNumber slot = kv slot := by
  simp [putPendingIntent, StateKV.set, h]

/-- A recorded intent is read back, pending and with the block number of the store. -/
theorem loadIntent_putPendingIntent (id : Word) (oi : OutboxIntent) (blockNumber : UInt64) :
    loadIntent (putPendingIntent kv id oi blockNumber) id =
      { oi with status := .pending, blockNumber := blockNumber } := by
  have hn : slice (uint16Bytes oi.n ++ uint16Bytes oi.threshold) 0 2 = uint16Bytes oi.n := by
    rw [slice, List.drop_zero]
    exact List.take_left' (uint16Bytes_length _)
  have hthreshold : slice (uint16Bytes oi.n ++ uint16Bytes oi.threshold) 2 4 =
      uint16Bytes oi.threshold := by
    rw [slice, List.drop_left' (uint16Bytes_length _)]
    exact List.take_of_length_le (uint16Bytes_length _).le
  have hlength : (uint16Bytes oi.n ++ uint16Bytes oi.threshold).length = 4 := by simp
  have hlow := wordSlice_wordEnding (uint16Bytes oi.n ++ uint16Bytes oi.threshold)
    (by rw [hlength]; decide)
  rw [hlength] at hlow
  have hstatus : OutboxStatus.ofByte
      ((wordSlice (wordEnding [OutboxStatus.pending.toByte]) 31 32).headD 0) = .pending := by
    rw [wordSlice_status]
    rfl
  simp only [loadIntent, putPendingIntent_self, pendingWord, hstatus, reduceCtorEq, if_false,
    wordAddress_addressWord, wordSlice_uint64, bytesToUint64_uint64Bytes]
  rw [show (28 : ℕ) = 32 - 4 + 0 from rfl, show (30 : ℕ) = 32 - 4 + 2 from rfl, hlow,
    show (32 : ℕ) = 32 - 4 + 4 from rfl, hlow, hn, hthreshold, bytesToUint16_uint16Bytes,
    bytesToUint16_uint16Bytes]

theorem markIntentConsumed_of_ne (id : Word) (blockNumber : UInt64) {slot : Slot}
    (hstatus : slot ≠ .outbox id .st) (hmark : slot ≠ .consumed id) :
    markIntentConsumed kv id blockNumber slot = kv slot := by
  rw [markIntentConsumed, StateKV.set, Function.update_of_ne hmark, StateKV.set,
    Function.update_of_ne hstatus]

/-- A consumed record keeps its other fields. -/
theorem loadIntent_markIntentConsumed {kv : StateKV} {id : Word}
    (h : (loadIntent kv id).status = .pending) (blockNumber : UInt64) :
    loadIntent (markIntentConsumed kv id blockNumber) id =
      { loadIntent kv id with status := .consumed } := by
  have hst : markIntentConsumed kv id blockNumber (.outbox id .st) =
      wordEnding [OutboxStatus.consumed.toByte] := by
    simp [markIntentConsumed, StateKV.set]
  have hother : ∀ field, field ≠ .st →
      markIntentConsumed kv id blockNumber (.outbox id field) = kv (.outbox id field) :=
    fun field hfield => markIntentConsumed_of_ne kv id blockNumber (by simp [hfield]) (by simp)
  have hpresent : OutboxStatus.ofByte ((wordSlice (kv (.outbox id .st)) 31 32).headD 0) ≠
      .none := by
    intro hnone
    rw [← intentStatus_eq, intentStatus, hnone] at h
    cases h
  have hstatus : OutboxStatus.ofByte
      ((wordSlice (wordEnding [OutboxStatus.consumed.toByte]) 31 32).headD 0) = .consumed := by
    rw [wordSlice_status]
    rfl
  simp only [loadIntent, hst, hstatus, reduceCtorEq, if_false, if_neg hpresent, ne_eq,
    not_false_eq_true, hother]

/-! ## What calls read -/

/-- The recorded intents and the committed roots. -/
@[ext]
structure View where
  intent : Word → OutboxIntent
  rooted : Word → Bool

/-- The view of a storage. -/
def StateKV.view (kv : StateKV) : View := ⟨loadIntent kv, receiptRootCommitted kv⟩

/-- What calls and the host do: an intent is submitted in a block, a receipt is settled by a
proof, or a root is committed at a height. -/
inductive Entry
  | submitted (intent : InferenceIntent) (blockNumber : UInt64)
  | settled (receipt : AInferenceReceipt) (proof : AInferenceProof)
  | committed (receiptRoot : Word) (committedHeight : UInt64)
deriving DecidableEq

/-- The record of a submitted intent. -/
def pendingRecord (intent : InferenceIntent) (blockNumber : UInt64) : OutboxIntent where
  status := .pending
  caller := intent.caller
  cChainID := intent.cChainID
  aChainID := intent.aChainID
  modelSpecHash := intent.modelSpecHash
  promptHash := intent.modelPromptHash
  n := intent.n
  threshold := intent.threshold
  blockNumber := blockNumber

variable (keccak256 : List UInt8 → Word)

/-- When a view lets something be done. -/
def View.Allows (v : View) : Entry → Prop
  | .submitted intent _ => (v.intent (deriveIntentID keccak256 intent)).status = .none
  | .settled r p =>
      r.status = statusCompleted ∧ r.canonicalOutputHash ≠ 0 ∧ v.rooted p.receiptRoot = true ∧
        verifyMerkle keccak256 (leafHash keccak256 (receiptHash keccak256 r)) p = true ∧
        (v.intent r.intentID).status = .pending ∧ Binds r (v.intent r.intentID)
  | .committed _ _ => True

/-- What is done to a view. -/
def View.after (v : View) : Entry → View
  | .submitted intent blockNumber =>
      { v with
        intent := Function.update v.intent (deriveIntentID keccak256 intent)
          (pendingRecord intent blockNumber) }
  | .settled r _ =>
      { v with
        intent := Function.update v.intent r.intentID
          { v.intent r.intentID with status := .consumed } }
  | .committed receiptRoot committedHeight =>
      if receiptRoot = 0 then v
      else
        { v with
          rooted := Function.update v.rooted receiptRoot (decide (committedHeight + 1 ≠ 0)) }

/-- What is done to a storage. -/
def StateKV.after (kv : StateKV) : Entry → StateKV
  | .submitted intent blockNumber =>
      putPendingIntent kv (deriveIntentID keccak256 intent) (pendingRecord intent 0) blockNumber
  | .settled r _ => markIntentConsumed kv r.intentID (loadIntent kv r.intentID).blockNumber
  | .committed receiptRoot committedHeight => commitReceiptRoot kv receiptRoot committedHeight

theorem receiptRootCommitted_congr {kv kv' : StateKV}
    (h : ∀ root, kv' (.rcptroot root) = kv (.rcptroot root)) :
    receiptRootCommitted kv' = receiptRootCommitted kv := by
  funext root
  rw [receiptRootCommitted, receiptRootCommitted, h]

theorem loadIntent_put (kv : StateKV) (id : Word) (oi : OutboxIntent) (blockNumber : UInt64) :
    loadIntent (putPendingIntent kv id oi blockNumber) = Function.update (loadIntent kv) id
      { oi with status := .pending, blockNumber := blockNumber } := by
  funext id'
  by_cases hid : id' = id
  · rw [hid, Function.update_self, loadIntent_putPendingIntent]
  · rw [Function.update_of_ne hid]
    apply loadIntent_congr
    intro field
    exact putPendingIntent_of_ne kv id oi blockNumber fun field' hc => hid (Slot.outbox.inj hc).1

theorem loadIntent_mark {kv : StateKV} {id : Word} (h : (loadIntent kv id).status = .pending)
    (blockNumber : UInt64) :
    loadIntent (markIntentConsumed kv id blockNumber) = Function.update (loadIntent kv) id
      { loadIntent kv id with status := .consumed } := by
  funext id'
  by_cases hid : id' = id
  · rw [hid, Function.update_self, loadIntent_markIntentConsumed h]
  · rw [Function.update_of_ne hid]
    apply loadIntent_congr
    intro field
    exact markIntentConsumed_of_ne kv id blockNumber (by simp [hid]) (by simp)

theorem receiptRootCommitted_commit (kv : StateKV) {root : Word} (hroot : root ≠ 0)
    (height : UInt64) : receiptRootCommitted (commitReceiptRoot kv root height) =
      Function.update (receiptRootCommitted kv) root (decide (height + 1 ≠ 0)) := by
  funext root'
  rw [commitReceiptRoot, if_neg hroot]
  by_cases hsame : root' = root
  · rw [hsame, Function.update_self, receiptRootCommitted, if_neg hroot, StateKV.set,
      Function.update_self]
    simp only [ne_eq, wordEnding_uint64_eq_zero_iff]
  · have hslot : Slot.rcptroot root' ≠ .rcptroot root := by simpa using hsame
    rw [Function.update_of_ne hsame, receiptRootCommitted, receiptRootCommitted, StateKV.set,
      Function.update_of_ne hslot]

theorem loadIntent_commit (kv : StateKV) (root : Word) (height : UInt64) :
    loadIntent (commitReceiptRoot kv root height) = loadIntent kv := by
  funext id
  apply loadIntent_congr
  intro field
  rw [commitReceiptRoot]
  by_cases hroot : root = 0
  · rw [if_pos hroot]
  · rw [if_neg hroot]
    exact Function.update_of_ne (by simp) _ _

/-- The view of the storage changes as views do. -/
theorem view_after {kv : StateKV} {e : Entry} (h : kv.view.Allows keccak256 e) :
    (kv.after keccak256 e).view = kv.view.after keccak256 e := by
  rcases e with ⟨intent, blockNumber⟩ | ⟨r, p⟩ | ⟨root, height⟩
  · apply View.ext
    · simp only [StateKV.after, StateKV.view, View.after, loadIntent_put, pendingRecord]
    · apply receiptRootCommitted_congr
      intro root
      exact putPendingIntent_of_ne kv _ _ _ (by simp)
  · simp only [View.Allows, StateKV.view] at h
    obtain ⟨-, -, -, -, hpending, -⟩ := h
    apply View.ext
    · simp only [StateKV.after, StateKV.view, View.after, loadIntent_mark hpending]
    · apply receiptRootCommitted_congr
      intro root
      exact markIntentConsumed_of_ne kv _ _ (by simp) (by simp)
  · by_cases hroot : root = 0
    · rw [StateKV.after, commitReceiptRoot, if_pos hroot, View.after, if_pos hroot]
    · rw [View.after, if_neg hroot]
      apply View.ext
      · simp only [StateKV.after, StateKV.view, loadIntent_commit]
      · simp only [StateKV.after, StateKV.view, receiptRootCommitted_commit kv hroot]

/-! ## Calls -/

/-- A call of the precompile. -/
structure Call where
  host : Host
  caller : Address
  input : List UInt8
  suppliedGas : UInt64
  readOnly : Bool

/-- What a call asks for: a well-formed submission over an installed client, or a well-formed
verification. -/
def Call.asked (c : Call) : Option Entry :=
  if c.input.length < 4 then none
  else
    let selector := bytesToUint32 (c.input.take 4)
    let args := c.input.drop 4
    if selector = selectorSubmitInferenceIntent then
      match c.host.client, (decodeIntent c.caller args).bind c.host.bindIdentity with
      | .native _, .ok intent => some (.submitted intent c.host.blockNumber)
      | _, _ => none
    else if selector = selectorVerifyInferenceReceipt then
      match decodeFrame args with
      | .ok (r, p) => some (.settled r p)
      | .error _ => none
    else none

/-- What a call that does something returns. -/
def Entry.reply : Entry → List UInt8
  | .submitted intent _ => hashBytes (deriveIntentID keccak256 intent)
  | .settled r _ => (VerifiedAInferenceReceipt.mk r.intentID r.canonicalOutputHash
      statusCompleted).words
  | .committed _ _ => []

section Steps

variable {keccak256} {kv : StateKV}

/-- What the host binds to a request. -/
theorem bindIdentity_ok {host : Host} {request intent : InferenceIntent}
    (h : host.bindIdentity request = .ok intent) :
    ∃ (atomicState : AtomicState) (cTxHash : Word), host.atomicState = some atomicState ∧
      cTxHash = (if host.txHash = 0 then atomicState.txID else host.txHash) ∧ cTxHash ≠ 0 ∧
      intent = { request with
        cChainID := atomicState.cChainID
        cTxHash := cTxHash
        callIndex := atomicState.callIndex
        aChainID := host.client.aChainID } := by
  rw [Host.bindIdentity] at h
  rcases hatomic : host.atomicState with _ | atomicState
  · rw [hatomic] at h
    cases h
  · rw [hatomic] at h
    dsimp only at h
    by_cases hzero : (if host.txHash = 0 then atomicState.txID else host.txHash) = 0
    · rw [if_pos hzero] at h
      cases h
    · rw [if_neg hzero] at h
      exact ⟨atomicState, _, rfl, rfl, hzero, (Except.ok.inj h).symm⟩

/-- A well-formed submission records the intent if there is no record under its identifier. -/
theorem submit_spec {host : Host} {caller : Address} {args : List UInt8}
    {intent : InferenceIntent} {achainID : Word} (hclient : host.client = .native achainID)
    (hdecode : (decodeIntent caller args).bind host.bindIdentity = .ok intent) :
    host.client.submitInferenceIntent keccak256 kv host.blockNumber intent =
      if (loadIntent kv (deriveIntentID keccak256 intent)).status = .none then
        (.ok (deriveIntentID keccak256 intent),
          kv.after keccak256 (.submitted intent host.blockNumber))
      else (.error .intentReplay, kv) := by
  obtain ⟨request, -, hbind⟩ := bind_eq_ok.mp hdecode
  have hpeer : intent.aChainID = achainID := by
    obtain ⟨_, _, -, -, -, rfl⟩ := bindIdentity_ok hbind
    rw [hclient]
    rfl
  subst hpeer
  rw [hclient, AChainClient.submitInferenceIntent]
  dsimp only
  rw [intentStatus_eq]
  by_cases hnone : (loadIntent kv (deriveIntentID keccak256 intent)).status = .none
  · rw [if_pos hnone, if_neg (not_not.mpr hnone)]
    rfl
  · rw [if_neg hnone, if_pos hnone]

theorem verify_allowed {r : AInferenceReceipt} {p : AInferenceProof}
    (h : kv.view.Allows keccak256 (.settled r p)) :
    verifyInferenceReceipt keccak256 kv r p =
      (.ok ⟨r.intentID, r.canonicalOutputHash, statusCompleted⟩,
        kv.after keccak256 (.settled r p)) := by
  simp only [View.Allows, StateKV.view] at h
  obtain ⟨hstatus, houtput, hroot, hmerkle, hpending, hbinds⟩ := h
  rw [verifyInferenceReceipt, if_neg (not_not.mpr hstatus), if_neg houtput]
  dsimp only
  rw [if_neg (not_not.mpr hroot), if_neg (not_not.mpr hmerkle), hpending]
  dsimp only
  rw [if_neg (not_not.mpr hbinds), StateKV.after]

theorem verify_refused {r : AInferenceReceipt} {p : AInferenceProof}
    (h : ¬ kv.view.Allows keccak256 (.settled r p)) :
    ∃ why, verifyInferenceReceipt keccak256 kv r p = (.error why, kv) := by
  simp only [View.Allows, StateKV.view] at h
  rw [verifyInferenceReceipt]
  by_cases hstatus : r.status = statusCompleted
  · by_cases houtput : r.canonicalOutputHash = 0
    · exact ⟨.zeroOutput, by rw [if_neg (not_not.mpr hstatus), if_pos houtput]⟩
    · rw [if_neg (not_not.mpr hstatus), if_neg houtput]
      dsimp only
      by_cases hroot : receiptRootCommitted kv p.receiptRoot = true
      · by_cases hmerkle : verifyMerkle keccak256 (leafHash keccak256 (receiptHash keccak256 r)) p =
            true
        · rw [if_neg (not_not.mpr hroot), if_neg (not_not.mpr hmerkle)]
          rcases hrecord : (loadIntent kv r.intentID).status with _ | _ | _ | b
          · exact ⟨.noMatchingIntent, rfl⟩
          · have hbinds : ¬ Binds r (loadIntent kv r.intentID) := fun hbinds =>
              h ⟨hstatus, houtput, hroot, hmerkle, hrecord, hbinds⟩
            exact ⟨.receiptBindMismatch, if_pos hbinds⟩
          · exact ⟨.intentConsumed, rfl⟩
          · exact ⟨.noMatchingIntent, rfl⟩
        · exact ⟨.merkleVerify, by rw [if_neg (not_not.mpr hroot), if_pos hmerkle]⟩
      · exact ⟨.receiptRootNotCommitted, if_pos hroot⟩
  · exact ⟨.receiptNotCompleted, if_pos hstatus⟩

end Steps

variable {Opening : Type} (poi : Poi Opening)

/-- `Run` on a storage. -/
def Call.exec (c : Call) (kv : StateKV) : Outcome :=
  runBridge keccak256 poi c.host c.caller c.input c.suppliedGas c.readOnly kv

section Answers

variable {keccak256 poi} {kv : StateKV} {c : Call} {e : Entry}

theorem not_submit_of_verify {selector : UInt32}
    (h : selector = selectorVerifyInferenceReceipt) :
    ¬ selector = selectorSubmitInferenceIntent := by
  rw [h]
  decide

/-- The parts of a call that asks for something. -/
theorem Call.asked_eq_some (h : c.asked = some e) :
    ¬ c.input.length < 4 ∧
      ((∃ achainID intent, bytesToUint32 (c.input.take 4) = selectorSubmitInferenceIntent ∧
        c.host.client = .native achainID ∧
        (decodeIntent c.caller (c.input.drop 4)).bind c.host.bindIdentity = .ok intent ∧
        e = .submitted intent c.host.blockNumber) ∨
      ∃ r p, bytesToUint32 (c.input.take 4) = selectorVerifyInferenceReceipt ∧
        decodeFrame (c.input.drop 4) = .ok (r, p) ∧ e = .settled r p) := by
  rw [Call.asked] at h
  by_cases hshort : c.input.length < 4
  · rw [if_pos hshort] at h
    cases h
  · refine ⟨hshort, ?_⟩
    rw [if_neg hshort] at h
    dsimp only at h
    by_cases hsubmit : bytesToUint32 (c.input.take 4) = selectorSubmitInferenceIntent
    · rw [if_pos hsubmit] at h
      rcases hclient : c.host.client with _ | achainID
      · rw [hclient] at h
        cases h
      · rcases hdecode : (decodeIntent c.caller (c.input.drop 4)).bind c.host.bindIdentity with
          why | intent
        · rw [hclient, hdecode] at h
          cases h
        · rw [hclient, hdecode] at h
          exact .inl ⟨achainID, intent, hsubmit, rfl, rfl, (Option.some.inj h).symm⟩
    · rw [if_neg hsubmit] at h
      by_cases hverify : bytesToUint32 (c.input.take 4) = selectorVerifyInferenceReceipt
      · rw [if_pos hverify] at h
        rcases hframe : decodeFrame (c.input.drop 4) with why | ⟨r, p⟩
        · rw [hframe] at h
          cases h
        · rw [hframe] at h
          exact .inr ⟨r, p, hverify, rfl, (Option.some.inj h).symm⟩
      · rw [if_neg hverify] at h
        cases h

theorem decodeProof_pathLen {b : List UInt8} {p : AInferenceProof} (h : decodeProof b = .ok p) :
    ¬ b.length < 42 ∧ (bytesToUint16 (slice b 40 42)).toNat = p.path.length ∧
      ¬ maxProofDepth < p.path.length := by
  simp only [decodeProof] at h
  split_ifs at h with hhead hdepth hlen
  obtain rfl := Except.ok.inj h
  rw [List.length_map, List.length_range]
  exact ⟨hhead, rfl, hdepth⟩

theorem decodeFrame_ok {args : List UInt8} {r : AInferenceReceipt} {p : AInferenceProof}
    (h : decodeFrame args = .ok (r, p)) :
    ¬ args.length < 4 ∧
      args.length = 4 + (bytesToUint16 (slice args 0 2)).toNat +
        (bytesToUint16 (slice args 2 4)).toNat ∧
      decodeReceipt (slice args 4 (4 + (bytesToUint16 (slice args 0 2)).toNat)) = .ok r ∧
      decodeProof (args.drop (4 + (bytesToUint16 (slice args 0 2)).toNat)) = .ok p := by
  simp only [decodeFrame, refuse_eq_ok, bind_eq_ok, mapError_eq_ok, Except.ok.injEq,
    Prod.mk.injEq] at h
  obtain ⟨hshort, hlength, r', hreceipt, p', hproof, rfl, rfl⟩ := h
  exact ⟨hshort, not_not.mp hlength, hreceipt, hproof⟩

theorem requiredGas_submit (hshort : ¬ c.input.length < 4)
    (hselector : bytesToUint32 (c.input.take 4) = selectorSubmitInferenceIntent) :
    requiredGas poi c.input = gasSubmitInferenceIntent := by
  rw [requiredGas, if_neg hshort]
  dsimp only
  rw [if_pos hselector]

theorem requiredGas_verify (hshort : ¬ c.input.length < 4)
    (hselector : bytesToUint32 (c.input.take 4) = selectorVerifyInferenceReceipt)
    {r : AInferenceReceipt} {p : AInferenceProof}
    (hframe : decodeFrame (c.input.drop 4) = .ok (r, p)) :
    requiredGas poi c.input = verifyGas p.path.length := by
  obtain ⟨hargs, hlength, -, hproof⟩ := decodeFrame_ok hframe
  obtain ⟨hhead, hpath, hdepth⟩ := decodeProof_pathLen hproof
  have hother := not_submit_of_verify hselector
  rw [requiredGas, if_neg hshort]
  dsimp only
  rw [if_neg hother, if_pos hselector, if_neg hargs, if_neg (not_not.mpr hlength), if_neg hhead,
    hpath, if_neg hdepth]

theorem base_le_verifyGas {n : ℕ} (h : ¬ maxProofDepth < n) :
    gasVerifyInferenceReceiptBase ≤ verifyGas n := by
  have hn : n ≤ 64 := not_lt.mp h
  rw [UInt64.le_iff_toNat_le, verifyGas, UInt64.toNat_add, UInt64.toNat_mul,
    uint64_toNat_ofNat (by omega), show gasVerifyInferenceReceiptBase.toNat = 30000 from rfl,
    show gasVerifyPerProofNode.toNat = 1000 from rfl,
    Nat.mod_eq_of_lt (show n * 1000 < 2 ^ 64 by omega),
    Nat.mod_eq_of_lt (show 30000 + n * 1000 < 2 ^ 64 by omega)]
  exact Nat.le_add_right _ _

/-- A call that is not static, has the gas and asks for what the view allows does it and pays
the estimate. -/
theorem Call.exec_allowed (h : c.asked = some e) (hwrite : c.readOnly = false)
    (hgas : requiredGas poi c.input ≤ c.suppliedGas) (hallows : kv.view.Allows keccak256 e) :
    c.exec keccak256 poi kv =
      ⟨.ok (e.reply keccak256), c.suppliedGas - requiredGas poi c.input, kv.after keccak256 e⟩ := by
  obtain ⟨hshort, ⟨achainID, intent, hselector, hclient, hdecode, rfl⟩ |
    ⟨r, p, hselector, hframe, rfl⟩⟩ := Call.asked_eq_some h
  · rw [requiredGas_submit hshort hselector] at hgas ⊢
    have hpaid : ¬ c.suppliedGas < gasSubmitInferenceIntent := UInt64.not_lt.mpr hgas
    rw [Call.exec, runBridge, if_neg hshort]
    dsimp only
    rw [if_pos hselector, submitIntent, if_neg hpaid, hwrite, hdecode]
    dsimp only
    rw [if_neg Bool.false_ne_true, submit_spec hclient hdecode]
    simp only [View.Allows, StateKV.view] at hallows
    rw [if_pos hallows]
    rfl
  · have hother := not_submit_of_verify hselector
    obtain ⟨-, -, -, hproof⟩ := decodeFrame_ok hframe
    have hbase := base_le_verifyGas (decodeProof_pathLen hproof).2.2
    rw [requiredGas_verify hshort hselector hframe] at hgas ⊢
    have hpaid : ¬ c.suppliedGas < gasVerifyInferenceReceiptBase :=
      UInt64.not_lt.mpr (UInt64.le_trans hbase hgas)
    have hall : ¬ c.suppliedGas < verifyGas p.path.length := UInt64.not_lt.mpr hgas
    rw [Call.exec, runBridge, if_neg hshort]
    dsimp only
    rw [if_neg hother, if_pos hselector, verifyReceipt, if_neg hpaid, hwrite,
      if_neg Bool.false_ne_true, hframe]
    dsimp only
    rw [if_neg hall, verify_allowed hallows]
    rfl

/-- Every other call that asks for something fails and leaves the storage as it was. -/
theorem Call.exec_refused (h : c.asked = some e)
    (hno : ¬ (c.readOnly = false ∧ requiredGas poi c.input ≤ c.suppliedGas ∧
      kv.view.Allows keccak256 e)) :
    ∃ why gas, c.exec keccak256 poi kv = ⟨.error why, gas, kv⟩ := by
  obtain ⟨hshort, ⟨achainID, intent, hselector, hclient, hdecode, rfl⟩ |
    ⟨r, p, hselector, hframe, rfl⟩⟩ := Call.asked_eq_some h
  · rw [requiredGas_submit hshort hselector] at hno
    rw [Call.exec, runBridge, if_neg hshort]
    dsimp only
    rw [if_pos hselector, submitIntent]
    by_cases hpaid : c.suppliedGas < gasSubmitInferenceIntent
    · exact ⟨_, _, if_pos hpaid⟩
    · rw [if_neg hpaid]
      dsimp only
      by_cases hread : c.readOnly = true
      · exact ⟨_, _, if_pos hread⟩
      · rw [if_neg hread, hdecode]
        dsimp only
        rw [submit_spec hclient hdecode, if_neg]
        · exact ⟨_, _, rfl⟩
        · exact fun hnone => hno ⟨Bool.not_eq_true _ ▸ hread, UInt64.not_lt.mp hpaid, hnone⟩
  · have hother := not_submit_of_verify hselector
    rw [requiredGas_verify hshort hselector hframe] at hno
    rw [Call.exec, runBridge, if_neg hshort]
    dsimp only
    rw [if_neg hother, if_pos hselector, verifyReceipt]
    by_cases hpaid : c.suppliedGas < gasVerifyInferenceReceiptBase
    · exact ⟨_, _, if_pos hpaid⟩
    · rw [if_neg hpaid]
      by_cases hread : c.readOnly = true
      · exact ⟨_, _, if_pos hread⟩
      · rw [if_neg hread, hframe]
        dsimp only
        by_cases hall : c.suppliedGas < verifyGas p.path.length
        · exact ⟨_, _, if_pos hall⟩
        · have hrefused : ¬ kv.view.Allows keccak256 (.settled r p) := fun hallows =>
            hno ⟨Bool.not_eq_true _ ▸ hread, UInt64.not_lt.mp hall, hallows⟩
          obtain ⟨why, hverify⟩ := verify_refused hrefused
          rw [if_neg hall, hverify]
          exact ⟨_, _, rfl⟩

/-- A call that asks for nothing leaves the storage as it was. -/
theorem Call.exec_silent (h : c.asked = none) : (c.exec keccak256 poi kv).state = kv := by
  rw [Call.exec, runBridge]
  rw [Call.asked] at h
  by_cases hshort : c.input.length < 4
  · rw [if_pos hshort]
  · rw [if_neg hshort] at h ⊢
    dsimp only at h ⊢
    by_cases hsubmit : bytesToUint32 (c.input.take 4) = selectorSubmitInferenceIntent
    · rw [if_pos hsubmit] at h ⊢
      rw [submitIntent]
      split_ifs
      · rfl
      · rfl
      · rcases hdecode : (decodeIntent c.caller (c.input.drop 4)).bind c.host.bindIdentity with
          why | intent
        · rfl
        · rcases hclient : c.host.client with _ | achainID
          · rfl
          · rw [hclient, hdecode] at h
            cases h
    · rw [if_neg hsubmit] at h ⊢
      by_cases hverify : bytesToUint32 (c.input.take 4) = selectorVerifyInferenceReceipt
      · rw [if_pos hverify] at h ⊢
        rw [verifyReceipt]
        split_ifs
        · rfl
        · rfl
        · rcases hframe : decodeFrame (c.input.drop 4) with why | ⟨r, p⟩
          · rfl
          · rw [hframe] at h
            cases h
      · rw [if_neg hverify]
        by_cases hproof : bytesToUint32 (c.input.take 4) = selectorVerifyComputeProof
        · rw [if_pos hproof, verifyComputeProof]
          split_ifs
          · rfl
          · rcases poi.decodeOpening (c.input.drop 4) with _ | op
            · rfl
            · dsimp only
              split_ifs
              · rfl
              · rcases poi.checkDecoded op with _ | ⟨included, ok⟩
                · rfl
                · rfl
        · rw [if_neg hproof]

end Answers

end LuxPrecompile.AivmBridge
