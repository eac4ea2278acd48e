import LuxPrecompile.AivmBridge.Answers
import LuxPrecompile.Support.Frames

/-!
# The intent protocol

What the bridge is for: an intent is submitted once, a completed receipt of it that a committed
root proves settles it once, and nothing else changes it.  The records and roots that calls read
are those of the history of the calls that were not undone.
-/

namespace LuxPrecompile.AivmBridge

open Evm Support HashTrees

variable (keccak256 : List UInt8 → Word) {Opening : Type} (poi : Poi Opening)

/-! ## Histories -/

/-- The view that a history leaves, latest entry first. -/
def historyView (history : List Entry) : View :=
  history.foldr (fun e v => v.after keccak256 e) ⟨fun _ => .absent, fun _ => false⟩

/-- What the checks on a submission establish. -/
structure InferenceIntent.WellFormed (i : InferenceIntent) : Prop where
  modelSpecHash : i.modelSpecHash ≠ 0
  modelPromptHash : i.modelPromptHash ≠ 0
  cTxHash : i.cTxHash ≠ 0
  fanout : 1 ≤ i.n.toNat ∧ i.n.toNat ≤ 256
  threshold : 1 ≤ i.threshold.toNat ∧ i.threshold.toNat ≤ i.n.toNat

def Entry.WellFormed : Entry → Prop
  | .submitted intent _ => intent.WellFormed
  | _ => True

/-- Every entry was allowed after those before it. -/
def Lawful : List Entry → Prop
  | [] => True
  | e :: history => Lawful history ∧ (historyView keccak256 history).Allows keccak256 e ∧
      e.WellFormed

/-- The identifiers of the submitted intents. -/
def submittedIDs (history : List Entry) : List Word :=
  history.filterMap fun
    | .submitted intent _ => some (deriveIntentID keccak256 intent)
    | _ => none

/-- The identifiers of the settled intents. -/
def settledIDs (history : List Entry) : List Word :=
  history.filterMap fun
    | .settled r _ => some r.intentID
    | _ => none

/-- The height at which a root was committed last. -/
def lastHeight (root : Word) : List Entry → Option UInt64
  | [] => none
  | .committed root' height :: history =>
      if root' = root then some height else lastHeight root history
  | _ :: history => lastHeight root history

/-- A root that the host committed.  The mark of a height is the next one, so the last height
there is marks nothing. -/
def RootLive (history : List Entry) (root : Word) : Prop :=
  root ≠ 0 ∧ ∃ height, lastHeight root history = some height ∧ height + 1 ≠ 0

/-- When an entry may follow a history: an intent that was not submitted before, or a completed
receipt, proved under a committed root, of a submitted intent that it agrees with and that was
not settled before. -/
def MayFollow (history : List Entry) : Entry → Prop
  | .submitted intent _ => deriveIntentID keccak256 intent ∉ submittedIDs keccak256 history
  | .settled r p =>
      r.status = statusCompleted ∧ r.canonicalOutputHash ≠ 0 ∧ RootLive history p.receiptRoot ∧
        verifyMerkle keccak256 (leafHash keccak256 (receiptHash keccak256 r)) p = true ∧
        r.intentID ∉ settledIDs history ∧
        ∃ intent blockNumber, .submitted intent blockNumber ∈ history ∧
          deriveIntentID keccak256 intent = r.intentID ∧
          Binds r (pendingRecord intent blockNumber)
  | .committed _ _ => True

section Histories

variable {keccak256} {history : List Entry}

theorem mem_submittedIDs {id : Word} : id ∈ submittedIDs keccak256 history ↔
    ∃ intent blockNumber, .submitted intent blockNumber ∈ history ∧
      deriveIntentID keccak256 intent = id := by
  rw [submittedIDs, List.mem_filterMap]
  constructor
  · rintro ⟨⟨intent, blockNumber⟩ | ⟨r, p⟩ | ⟨root, height⟩, hmem, hid⟩
    · exact ⟨intent, blockNumber, hmem, Option.some.inj hid⟩
    · cases hid
    · cases hid
  · rintro ⟨intent, blockNumber, hmem, rfl⟩
    exact ⟨_, hmem, rfl⟩

theorem historyView_submitted (intent : InferenceIntent) (blockNumber : UInt64) :
    (historyView keccak256 (.submitted intent blockNumber :: history)).intent =
      Function.update (historyView keccak256 history).intent (deriveIntentID keccak256 intent)
        (pendingRecord intent blockNumber) :=
  rfl

theorem historyView_settled (r : AInferenceReceipt) (p : AInferenceProof) :
    (historyView keccak256 (.settled r p :: history)).intent =
      Function.update (historyView keccak256 history).intent r.intentID
        { (historyView keccak256 history).intent r.intentID with status := .consumed } :=
  rfl

theorem historyView_committed (root : Word) (height : UInt64) :
    (historyView keccak256 (.committed root height :: history)).intent =
      (historyView keccak256 history).intent := by
  show ((historyView keccak256 history).after keccak256 (.committed root height)).intent = _
  rw [View.after]
  by_cases hroot : root = 0
  · rw [if_pos hroot]
  · rw [if_neg hroot]

/-- The status of an intent is the last thing that happened to it. -/
theorem Lawful.status (h : Lawful keccak256 history) (id : Word) :
    ((historyView keccak256 history).intent id).status =
      if id ∈ settledIDs history then .consumed
      else if id ∈ submittedIDs keccak256 history then .pending
      else .none := by
  induction history with
  | nil => rfl
  | cons e history ih =>
      obtain ⟨hlawful, hallows, -⟩ := h
      have ih := ih hlawful
      rcases e with ⟨intent, blockNumber⟩ | ⟨r, p⟩ | ⟨root, height⟩
      · have hids : submittedIDs keccak256 (.submitted intent blockNumber :: history) =
            deriveIntentID keccak256 intent :: submittedIDs keccak256 history := rfl
        have hsame : settledIDs (.submitted intent blockNumber :: history) =
            settledIDs history := rfl
        rw [historyView_submitted, hids, hsame]
        by_cases hid : id = deriveIntentID keccak256 intent
        · have hnone : ((historyView keccak256 history).intent id).status = .none := by
            rw [hid]
            exact hallows
          rw [hnone] at ih
          have hsettled : id ∉ settledIDs history := by
            intro hmem
            rw [if_pos hmem] at ih
            cases ih
          rw [if_neg hsettled, hid, Function.update_self, if_pos List.mem_cons_self, pendingRecord]
        · rw [Function.update_of_ne hid, ih]
          simp only [List.mem_cons, hid, false_or]
      · have hids : settledIDs (.settled r p :: history) = r.intentID :: settledIDs history := rfl
        have hsame : submittedIDs keccak256 (.settled r p :: history) =
            submittedIDs keccak256 history := rfl
        rw [historyView_settled, hids, hsame]
        by_cases hid : id = r.intentID
        · rw [hid, Function.update_self, if_pos List.mem_cons_self]
        · rw [Function.update_of_ne hid, ih]
          simp only [List.mem_cons, hid, false_or]
      · rw [historyView_committed, ih]
        rfl

theorem Lawful.pending_iff (h : Lawful keccak256 history) (id : Word) :
    ((historyView keccak256 history).intent id).status = .pending ↔
      id ∉ settledIDs history ∧ id ∈ submittedIDs keccak256 history := by
  rw [h.status]
  by_cases hsettled : id ∈ settledIDs history
  · rw [if_pos hsettled]
    exact ⟨fun hc => (by cases hc), fun hc => absurd hsettled hc.1⟩
  · rw [if_neg hsettled]
    by_cases hsubmitted : id ∈ submittedIDs keccak256 history
    · rw [if_pos hsubmitted]
      exact ⟨fun _ => ⟨hsettled, hsubmitted⟩, fun _ => rfl⟩
    · rw [if_neg hsubmitted]
      exact ⟨fun hc => (by cases hc), fun hc => absurd hc.2 hsubmitted⟩

/-- Only what was submitted is settled. -/
theorem Lawful.settled_submitted (h : Lawful keccak256 history) {id : Word}
    (hid : id ∈ settledIDs history) : id ∈ submittedIDs keccak256 history := by
  induction history with
  | nil => cases hid
  | cons e history ih =>
      obtain ⟨hlawful, hallows, -⟩ := h
      rcases e with ⟨intent, blockNumber⟩ | ⟨r, p⟩ | ⟨root, height⟩
      · exact List.mem_cons_of_mem _ (ih hlawful hid)
      · rcases List.mem_cons.mp (show id ∈ r.intentID :: settledIDs history from hid) with
          rfl | hid
        · exact ((hlawful.pending_iff _).mp hallows.2.2.2.2.1).2
        · exact ih hlawful hid
      · exact ih hlawful hid

theorem Lawful.none_iff (h : Lawful keccak256 history) (id : Word) :
    ((historyView keccak256 history).intent id).status = .none ↔
      id ∉ submittedIDs keccak256 history := by
  rw [h.status]
  by_cases hsubmitted : id ∈ submittedIDs keccak256 history
  · rw [if_pos hsubmitted]
    refine ⟨fun hc => ?_, fun hc => absurd hsubmitted hc⟩
    split_ifs at hc
  · rw [if_neg (mt h.settled_submitted hsubmitted), if_neg hsubmitted]
    exact ⟨fun _ => hsubmitted, fun _ => rfl⟩

/-- Nothing is submitted or settled twice. -/
theorem Lawful.nodup (h : Lawful keccak256 history) :
    (submittedIDs keccak256 history).Nodup ∧ (settledIDs history).Nodup := by
  induction history with
  | nil => exact ⟨List.nodup_nil, List.nodup_nil⟩
  | cons e history ih =>
      obtain ⟨hlawful, hallows, -⟩ := h
      obtain ⟨hsubmitted, hsettled⟩ := ih hlawful
      rcases e with ⟨intent, blockNumber⟩ | ⟨r, p⟩ | ⟨root, height⟩
      · have hnew := (hlawful.none_iff (deriveIntentID keccak256 intent)).mp hallows
        exact ⟨List.nodup_cons.mpr ⟨hnew, hsubmitted⟩, hsettled⟩
      · have hnew := ((hlawful.pending_iff r.intentID).mp hallows.2.2.2.2.1).1
        exact ⟨hsubmitted, List.nodup_cons.mpr ⟨hnew, hsettled⟩⟩
      · exact ⟨hsubmitted, hsettled⟩

/-- The record of a submitted intent has its fields. -/
theorem Lawful.record (h : Lawful keccak256 history) {intent : InferenceIntent}
    {blockNumber : UInt64} (hmem : .submitted intent blockNumber ∈ history) :
    ∃ status, (historyView keccak256 history).intent (deriveIntentID keccak256 intent) =
      { pendingRecord intent blockNumber with status := status } := by
  induction history with
  | nil => cases hmem
  | cons e history ih =>
      obtain ⟨hlawful, hallows, -⟩ := h
      rcases List.mem_cons.mp hmem with rfl | hold
      · refine ⟨.pending, ?_⟩
        rw [historyView_submitted, Function.update_self]
        rfl
      · obtain ⟨status, ih⟩ := ih hlawful hold
        rcases e with ⟨intent', blockNumber'⟩ | ⟨r, p⟩ | ⟨root, height⟩
        · have hne : deriveIntentID keccak256 intent ≠ deriveIntentID keccak256 intent' :=
            fun hc => (hlawful.none_iff _).mp hallows
              (mem_submittedIDs.mpr ⟨intent, blockNumber, hold, hc⟩)
          refine ⟨status, ?_⟩
          rw [historyView_submitted, Function.update_of_ne hne]
          exact ih
        · rw [historyView_settled]
          by_cases hid : deriveIntentID keccak256 intent = r.intentID
          · refine ⟨.consumed, ?_⟩
            rw [hid] at ih ⊢
            rw [Function.update_self, ih]
          · refine ⟨status, ?_⟩
            rw [Function.update_of_ne hid]
            exact ih
        · refine ⟨status, ?_⟩
          rw [historyView_committed]
          exact ih

/-- The committed roots of a history. -/
theorem rooted_iff (history : List Entry) (root : Word) :
    (historyView keccak256 history).rooted root = true ↔ RootLive history root := by
  induction history with
  | nil =>
      constructor
      · intro h
        cases h
      · rintro ⟨-, height, hheight, -⟩
        cases hheight
  | cons e history ih =>
      rcases e with ⟨intent, blockNumber⟩ | ⟨r, p⟩ | ⟨root', height⟩
      · exact ih
      · exact ih
      · have hheight : lastHeight root (.committed root' height :: history) =
            if root' = root then some height else lastHeight root history := rfl
        rw [RootLive, hheight]
        by_cases hroot : root' = 0
        · have hview : historyView keccak256 (.committed root' height :: history) =
              historyView keccak256 history := if_pos hroot
          rw [hview, ih, RootLive]
          refine and_congr_right fun hzero => ?_
          have hne : root' ≠ root := fun hc => hzero (hc ▸ hroot)
          rw [if_neg hne]
        · have hview : (historyView keccak256 (.committed root' height :: history)).rooted =
              Function.update (historyView keccak256 history).rooted root'
                (decide (height + 1 ≠ 0)) :=
            congrArg View.rooted (if_neg hroot)
          rw [hview]
          by_cases hsame : root = root'
          · subst hsame
            rw [Function.update_self, decide_eq_true_iff, if_pos rfl]
            constructor
            · intro h
              exact ⟨hroot, height, rfl, h⟩
            · rintro ⟨-, height', hheight', h⟩
              rwa [Option.some.inj hheight']
          · rw [Function.update_of_ne hsame, ih, if_neg (Ne.symm hsame), RootLive]

/-- What a lawful history allows. -/
theorem Lawful.allows_iff (h : Lawful keccak256 history) (e : Entry) :
    (historyView keccak256 history).Allows keccak256 e ↔ MayFollow keccak256 history e := by
  rcases e with ⟨intent, blockNumber⟩ | ⟨r, p⟩ | ⟨root, height⟩
  · exact h.none_iff _
  · constructor
    · rintro ⟨hstatus, houtput, hroot, hmerkle, hpending, hbinds⟩
      obtain ⟨hsettled, hsubmitted⟩ := (h.pending_iff r.intentID).mp hpending
      obtain ⟨intent, blockNumber, hmem, hid⟩ := mem_submittedIDs.mp hsubmitted
      obtain ⟨status, hrecord⟩ := h.record hmem
      rw [← hid, hrecord] at hbinds
      exact ⟨hstatus, houtput, (rooted_iff history p.receiptRoot).mp hroot, hmerkle, hsettled,
        intent, blockNumber, hmem, hid, hbinds⟩
    · rintro ⟨hstatus, houtput, hroot, hmerkle, hsettled, intent, blockNumber, hmem, hid, hbinds⟩
      obtain ⟨status, hrecord⟩ := h.record hmem
      have hsubmitted := mem_submittedIDs.mpr ⟨intent, blockNumber, hmem, hid⟩
      refine ⟨hstatus, houtput, (rooted_iff history p.receiptRoot).mpr hroot, hmerkle,
        (h.pending_iff r.intentID).mpr ⟨hsettled, hsubmitted⟩, ?_⟩
      rw [← hid, hrecord]
      exact hbinds
  · exact Iff.rfl

end Histories

/-! ## Runs -/

/-- The storage with what happened, latest first. -/
structure Bridge where
  kv : StateKV
  history : List Entry

/-- A call, or a commit of a root by the host. -/
inductive Action
  | call (c : Call)
  | commitReceiptRoot (receiptRoot : Word) (committedHeight : UInt64)

/-- Before anything happened. -/
def Bridge.genesis : Bridge := ⟨fun _ => 0, []⟩

/-- One action.  A call that succeeds has done what it asked for. -/
def Bridge.act (b : Bridge) : Action → Bridge
  | .call c =>
      let o := c.exec keccak256 poi b.kv
      match o.ret with
      | .ok _ => ⟨o.state, c.asked.toList ++ b.history⟩
      | .error _ => ⟨o.state, b.history⟩
  | .commitReceiptRoot receiptRoot committedHeight =>
      ⟨commitReceiptRoot b.kv receiptRoot committedHeight,
        .committed receiptRoot committedHeight :: b.history⟩

/-- The bridge after calls and commits inside frames that return or are undone. -/
def Bridge.reached (events : List (FrameEvent Action)) : Bridge :=
  (Framed.run (Bridge.act keccak256 poi) .genesis events).current

/-- The storage answers as its history does. -/
structure Bridge.Kept (b : Bridge) : Prop where
  view : b.kv.view = historyView keccak256 b.history
  lawful : Lawful keccak256 b.history

section Reached

variable {keccak256 poi}

/-- A submission that asks for something asks for a well-formed intent. -/
theorem decodeIntent_wellFormed {host : Host} {caller : Address} {args : List UInt8}
    {intent : InferenceIntent}
    (h : (decodeIntent caller args).bind host.bindIdentity = .ok intent) :
    intent.WellFormed := by
  obtain ⟨request, hdecode, hbind⟩ := bind_eq_ok.mp h
  obtain ⟨_, cTxHash, -, -, htx, rfl⟩ := bindIdentity_ok hbind
  rw [decodeIntent] at hdecode
  split_ifs at hdecode
  obtain ⟨n, -, hdecode⟩ := bind_eq_ok.mp hdecode
  obtain ⟨threshold, -, hdecode⟩ := bind_eq_ok.mp hdecode
  dsimp only at hdecode
  split_ifs at hdecode with hspec hprompt hfanout hthreshold
  obtain rfl := Except.ok.inj hdecode
  obtain ⟨hn, hmax⟩ := not_or.mp hfanout
  obtain ⟨ht, hle⟩ := not_or.mp hthreshold
  rw [UInt16.not_lt, UInt16.le_iff_toNat_le] at hmax hle
  have hpositive : n.toNat ≠ 0 := fun hc => hn (UInt16.toNat_inj.mp hc)
  have hvote : threshold.toNat ≠ 0 := fun hc => ht (UInt16.toNat_inj.mp hc)
  exact ⟨hspec, hprompt, htx, ⟨Nat.one_le_iff_ne_zero.mpr hpositive, hmax⟩,
    ⟨Nat.one_le_iff_ne_zero.mpr hvote, hle⟩⟩

theorem Call.asked_wellFormed {c : Call} {e : Entry} (h : c.asked = some e) : e.WellFormed := by
  obtain ⟨-, ⟨_, intent, -, -, hdecode, rfl⟩ | ⟨r, p, -, -, rfl⟩⟩ := Call.asked_eq_some h
  · exact decodeIntent_wellFormed hdecode
  · trivial

/-- One action keeps the storage answering as the history does. -/
theorem Bridge.Kept.act {b : Bridge} (h : b.Kept keccak256) (a : Action) :
    (b.act keccak256 poi a).Kept keccak256 := by
  rcases a with c | ⟨root, height⟩
  · rw [Bridge.act]
    rcases hasked : c.asked with _ | e
    · have hstate : (c.exec keccak256 poi b.kv).state = b.kv := Call.exec_silent hasked
      rcases (c.exec keccak256 poi b.kv).ret with why | out
      · exact ⟨by rw [hstate]; exact h.view, h.lawful⟩
      · exact ⟨by rw [hstate]; exact h.view, h.lawful⟩
    · by_cases hdoes : c.readOnly = false ∧ requiredGas poi c.input ≤ c.suppliedGas ∧
          b.kv.view.Allows keccak256 e
      · obtain ⟨hwrite, hgas, hallows⟩ := hdoes
        rw [Call.exec_allowed hasked hwrite hgas hallows]
        refine ⟨?_, h.lawful, ?_, Call.asked_wellFormed hasked⟩
        · show (b.kv.after keccak256 e).view = (historyView keccak256 b.history).after keccak256 e
          rw [view_after keccak256 hallows, h.view]
        · show (historyView keccak256 b.history).Allows keccak256 e
          rw [← h.view]
          exact hallows
      · obtain ⟨why, gas, hexec⟩ := Call.exec_refused hasked hdoes
        rw [hexec]
        exact h
  · refine ⟨?_, h.lawful, trivial, trivial⟩
    have hview : (b.kv.after keccak256 (.committed root height)).view =
        b.kv.view.after keccak256 (.committed root height) :=
      view_after keccak256 trivial
    rw [h.view] at hview
    exact hview

theorem Bridge.genesis_kept : Bridge.genesis.Kept keccak256 := by
  refine ⟨?_, trivial⟩
  have hstatus : OutboxStatus.ofByte ((wordSlice 0 31 32).headD 0) = .none := by decide
  have hempty : loadIntent (fun _ => 0) = fun _ => .absent := by
    funext id
    rw [loadIntent]
    exact if_pos hstatus
  have hroots : receiptRootCommitted (fun _ => 0) = fun _ => false := by
    funext root
    rw [receiptRootCommitted]
    simp
  rw [Bridge.genesis, StateKV.view, hempty, hroots]
  rfl

theorem Bridge.reached_kept (events : List (FrameEvent Action)) :
    (Bridge.reached keccak256 poi events).Kept keccak256 :=
  Framed.current_of_kept (fun _ a h => h.act a) Bridge.genesis_kept events

theorem Lawful.mayFollow {history later before : List Entry} {e : Entry}
    (h : Lawful keccak256 history) (hsplit : history = later ++ e :: before) :
    MayFollow keccak256 before e ∧ e.WellFormed := by
  subst hsplit
  induction later with
  | nil =>
      obtain ⟨hlawful, hallows, hwell⟩ := h
      exact ⟨(hlawful.allows_iff e).mp hallows, hwell⟩
  | cons _ later ih => exact ih h.1

end Reached

/-- In every run of submissions, verifications and commits of roots, by any callers and with
frames undone anywhere, an intent goes from none to pending to consumed and takes each step
once: nothing is submitted or settled twice, a receipt settles only an intent submitted before
that it agrees with, completed and proved under a root committed before, and the stored status
of every intent is the last thing that happened to it. -/
theorem intents_settle_once (events : List (FrameEvent Action)) :
    let b := Bridge.reached keccak256 poi events
    (∀ later e before, b.history = later ++ e :: before →
        MayFollow keccak256 before e ∧ e.WellFormed) ∧
      (submittedIDs keccak256 b.history).Nodup ∧ (settledIDs b.history).Nodup ∧
      ∀ id, intentStatus b.kv id =
        if id ∈ settledIDs b.history then .consumed
        else if id ∈ submittedIDs keccak256 b.history then .pending
        else .none := by
  have hkept : (Bridge.reached keccak256 poi events).Kept keccak256 := Bridge.reached_kept events
  obtain ⟨hsubmitted, hsettled⟩ := hkept.lawful.nodup
  refine ⟨fun _ _ _ hsplit => hkept.lawful.mayFollow hsplit, hsubmitted, hsettled, fun id => ?_⟩
  rw [intentStatus_eq, ← hkept.lawful.status id, ← hkept.view]
  rfl

/-- In every reachable state a call that asks for something does it, returns its words and pays
the estimate exactly when it is not static, has the gas and the history lets it; otherwise it
fails and leaves the storage as it was. -/
theorem calls_answered (events : List (FrameEvent Action)) {c : Call} {e : Entry}
    (h : c.asked = some e) :
    let b := Bridge.reached keccak256 poi events
    let done := c.readOnly = false ∧ requiredGas poi c.input ≤ c.suppliedGas ∧
      MayFollow keccak256 b.history e
    (done → c.exec keccak256 poi b.kv =
        ⟨.ok (e.reply keccak256), c.suppliedGas - requiredGas poi c.input,
          b.kv.after keccak256 e⟩) ∧
      (¬ done → ∃ why gas, c.exec keccak256 poi b.kv = ⟨.error why, gas, b.kv⟩) := by
  have hkept : (Bridge.reached keccak256 poi events).Kept keccak256 := Bridge.reached_kept events
  have hallows : (Bridge.reached keccak256 poi events).kv.view.Allows keccak256 e ↔
      MayFollow keccak256 (Bridge.reached keccak256 poi events).history e := by
    rw [hkept.view]
    exact hkept.lawful.allows_iff e
  dsimp only
  rw [← hallows]
  exact ⟨fun hdone => Call.exec_allowed h hdone.1 hdone.2.1 hdone.2.2, Call.exec_refused h⟩

/-- An intent, and one with another prompt. -/
def sampleIntent : InferenceIntent := ⟨3, 4, 1, 0, 5, 6, 7, 3, 2, 11⟩
def otherIntent : InferenceIntent := { sampleIntent with modelPromptHash := 8 }

/-- The identifier of the first, and the root over four receipts of which its is the third. -/
def sampleIntentID : Word := 0x67c787fc24521db7bef6addfb174d4c4f7b7eeaf1c4fac14f193c9b1516e66ed
def fourRoot : Word := 0xaf6c789aac66dd05121cbe372258e1aa152922ef4910b79b9730a3afdef5bffe

/-- The siblings on the path of the third receipt. -/
def lastLeaf : Word := 0x321e207435665a104404f11492306ff86370f8a3355c628543c09eaf40031d81
def firstPair : Word := 0xe0911e2fb5536048437b6cb839aa4567d37419f548916cd97810c89393445a12

/-- Keccak on the strings hashed for them. -/
def intentKeccak (bs : List UInt8) : Word :=
  let hash0 : Word := 0x379d50d4dda85c06bbf49bbfb25c7488efbac44d0654bb6cc7c3dfb2677a99aa
  let hash1 : Word := 0xc92054bacb24f5301ff99508eaa949f6e5135bffb941f7bfa80534a1853c40b1
  let hash2 : Word := 0x631b624790b9f748e99e6d9f1d6b44d04b836b8aaa0583791935532072bca8ca
  let hash3 : Word := 0x40a9487b15aa9c7a063029a83545712887c8fb0e3eb7fdd5eb79695a4ac1a6d0
  let leaf0 : Word := 0x99535f7578881b1aa9f0370948f6d65a587ee1696af7cc82d0ab313b2f3b5d30
  let leaf1 : Word := 0x0f7de31d565bec33f70b6ac9c7d8826360f6d19c0f80f135248e5153a53bb802
  let leaf2 : Word := 0x1a24a9ecebce984e1faae744aa7fd28e03a7e0dec9d56a39abb3bb578af4e4d9
  let lastPair : Word := 0x785a93d538a0a7496e4897a37744d4dc1e6655caa5ccd9fe75369b2b2de0b3a1
  if bs = intentPreimage sampleIntent then sampleIntentID
  else if bs = intentPreimage otherIntent then
    0x27fefbb2d729d0c34c10ddbe06f419b295dcf03e43c68f4bc1935942755ecd68
  else if bs = domainReceipt ++ encodeReceipt (sampleReceipt 1 0) then hash0
  else if bs = domainReceipt ++ encodeReceipt (sampleReceipt 1 1) then hash1
  else if bs = domainReceipt ++ encodeReceipt (sampleReceipt 1 sampleIntentID) then hash2
  else if bs = domainReceipt ++ encodeReceipt (sampleReceipt 1 3) then hash3
  else if bs = hashBytes hash0 then leaf0
  else if bs = hashBytes hash1 then leaf1
  else if bs = hashBytes hash2 then leaf2
  else if bs = hashBytes hash3 then lastLeaf
  else if bs = pairBytes (leaf0, leaf1) then firstPair
  else if bs = pairBytes (leaf2, lastLeaf) then lastPair
  else if bs = pairBytes (firstPair, lastPair) then fourRoot
  else 0

/-- A library that reads no opening. -/
def noOpenings : Poi Unit := ⟨fun _ => none, fun _ => 0, fun _ => none⟩

/-- The submission of an intent with a prompt in block 7. -/
def submissionOf (prompt : Word) : Call where
  host := ⟨some ⟨3, 0, 0⟩, 1, 7, .native 4⟩
  caller := 5
  input := uint32Bytes selectorSubmitInferenceIntent ++
    ([6, prompt, 3, 2, 11, 0] : List Word).flatMap hashBytes
  suppliedGas := 50000
  readOnly := false

/-- The first intent is submitted, and the root over its receipt committed at height 9. -/
def sampleRun : List (FrameEvent Action) :=
  [.act (.call (submissionOf 7)), .act (.commitReceiptRoot fourRoot 9)]

theorem sampleRun_history : (Bridge.reached intentKeccak noOpenings sampleRun).history =
    [.committed fourRoot 9, .submitted sampleIntent 7] := by
  decide +kernel

/-- After that run the first intent is refused and the other one is submitted. -/
theorem calls_answered_sample :
    let kv := (Bridge.reached intentKeccak noOpenings sampleRun).kv
    (submissionOf 8).exec intentKeccak noOpenings kv =
        ⟨.ok ((Entry.submitted otherIntent 7).reply intentKeccak),
          (submissionOf 8).suppliedGas - requiredGas noOpenings (submissionOf 8).input,
          kv.after intentKeccak (.submitted otherIntent 7)⟩ ∧
      ∃ why gas, (submissionOf 7).exec intentKeccak noOpenings kv = ⟨.error why, gas, kv⟩ := by
  intro kv
  have hfirst : (submissionOf 7).asked = some (.submitted sampleIntent 7) := by decide +kernel
  have hother : (submissionOf 8).asked = some (.submitted otherIntent 7) := by decide +kernel
  have hids : submittedIDs intentKeccak
      (Bridge.reached intentKeccak noOpenings sampleRun).history = [sampleIntentID] := by
    rw [sampleRun_history]
    decide +kernel
  constructor
  · refine (calls_answered intentKeccak noOpenings sampleRun hother).1
      ⟨rfl, by decide +kernel, ?_⟩
    rw [MayFollow, hids]
    decide +kernel
  · refine (calls_answered intentKeccak noOpenings sampleRun hfirst).2 fun hdone => ?_
    have hnew := hdone.2.2
    rw [MayFollow, hids] at hnew
    exact hnew (by decide +kernel)

/-! ## Honest receipts -/

/-- The arguments of a verification. -/
def verifyArgs (r : AInferenceReceipt) (p : AInferenceProof) : List UInt8 :=
  uint16Bytes (UInt16.ofNat receiptEncodedLen) ++
    (uint16Bytes (UInt16.ofNat (proofFrame p).length) ++ (encodeReceipt r ++ proofFrame p))

/-- The call data of a verification. -/
def verifyInput (r : AInferenceReceipt) (p : AInferenceProof) : List UInt8 :=
  uint32Bytes selectorVerifyInferenceReceipt ++ verifyArgs r p

/-- A receipt and a proof are decoded from the arguments made of them. -/
theorem decodeFrame_verifyArgs {r : AInferenceReceipt} {p : AInferenceProof}
    (hversion : r.version = receiptVersion) (hdepth : p.path.length ≤ maxProofDepth) :
    decodeFrame (verifyArgs r p) = .ok (r, p) := by
  have hmax : maxProofDepth = 64 := rfl
  have hreceipt : (encodeReceipt r).length = 355 := encodeReceipt_length r
  have hproof := proofFrame_length p
  have hlength : (verifyArgs r p).length = 4 + 355 + (proofFrame p).length := by
    rw [verifyArgs, List.length_append, List.length_append, List.length_append,
      uint16Bytes_length, uint16Bytes_length, hreceipt]
    omega
  have hfirst : (bytesToUint16 (slice (verifyArgs r p) 0 2)).toNat = 355 := by
    rw [verifyArgs, slice, List.drop_zero, List.take_left' (uint16Bytes_length _),
      bytesToUint16_uint16Bytes]
    rfl
  have hsecond : (bytesToUint16 (slice (verifyArgs r p) 2 4)).toNat = (proofFrame p).length := by
    rw [verifyArgs, slice, List.drop_left' (uint16Bytes_length _),
      List.take_left' (uint16Bytes_length _), bytesToUint16_uint16Bytes, UInt16.toNat_ofNat',
      Nat.mod_eq_of_lt (by omega)]
  have hrest : (verifyArgs r p).drop 4 = encodeReceipt r ++ proofFrame p := by
    rw [verifyArgs, ← List.append_assoc]
    exact List.drop_left' (by simp)
  have hbody : slice (verifyArgs r p) 4 (4 + 355) = encodeReceipt r := by
    rw [slice, hrest]
    exact List.take_left' hreceipt
  have htail : (verifyArgs r p).drop (4 + 355) = proofFrame p := by
    rw [← List.drop_drop, hrest]
    exact List.drop_left' hreceipt
  rw [decodeFrame]
  dsimp only
  rw [hfirst, hsecond, if_neg (by omega), if_neg (by omega), hbody, htail,
    decodeReceipt_encodeReceipt, if_pos hversion, decodeProof_proofFrame hdepth]
  rfl

/-- A verification of a well-formed receipt and proof asks for the settlement. -/
theorem asked_verifyInput (host : Host) (caller : Address) (suppliedGas : UInt64)
    (readOnly : Bool) {r : AInferenceReceipt} {p : AInferenceProof}
    (hversion : r.version = receiptVersion) (hdepth : p.path.length ≤ maxProofDepth) :
    (Call.mk host caller (verifyInput r p) suppliedGas readOnly).asked = some (.settled r p) ∧
      requiredGas poi (verifyInput r p) = verifyGas p.path.length := by
  have htake : (verifyInput r p).take 4 = uint32Bytes selectorVerifyInferenceReceipt :=
    List.take_left' (uint32Bytes_length _)
  have hdrop : (verifyInput r p).drop 4 = verifyArgs r p :=
    List.drop_left' (uint32Bytes_length _)
  have hshort : ¬ (verifyInput r p).length < 4 := by
    rw [verifyInput, List.length_append, uint32Bytes_length]
    omega
  have hselector : bytesToUint32 ((verifyInput r p).take 4) =
      selectorVerifyInferenceReceipt := by
    rw [htake, bytesToUint32_uint32Bytes]
  have hframe : decodeFrame ((verifyInput r p).drop 4) = .ok (r, p) := by
    rw [hdrop]
    exact decodeFrame_verifyArgs hversion hdepth
  constructor
  · have hother := not_submit_of_verify hselector
    rw [Call.asked]
    dsimp only
    rw [if_neg hshort, if_neg hother, if_pos hselector, hframe]
  · exact requiredGas_verify (c := ⟨host, caller, verifyInput r p, suppliedGas, readOnly⟩)
      hshort hselector hframe

/-- The settlement always gets through: in every reachable state a completed receipt of a
submitted intent that was not settled, at any position of any complete tree of receipts whose
root is committed, settles the intent when its position and its siblings are sent. -/
theorem honest_receipt_settles (events : List (FrameEvent Action)) (host : Host)
    (caller : Address) {suppliedGas : UInt64} {depth i : ℕ} {receipts : List AInferenceReceipt}
    {r : AInferenceReceipt} {root blockNumber intent}
    (hlen : receipts.length = 2 ^ depth) (hdepth : depth ≤ maxProofDepth)
    (hat : receipts[i]? = some r) (hversion : r.version = receiptVersion)
    (hstatus : r.status = statusCompleted) (houtput : r.canonicalOutputHash ≠ 0)
    (hroot : levelsUp (wordNode keccak256) depth (receiptLeaves keccak256 receipts) = [root])
    (hlive : RootLive (Bridge.reached keccak256 poi events).history root)
    (hsubmitted : .submitted intent blockNumber ∈
      (Bridge.reached keccak256 poi events).history)
    (hid : deriveIntentID keccak256 intent = r.intentID)
    (hbinds : Binds r (pendingRecord intent blockNumber))
    (hunsettled : r.intentID ∉ settledIDs (Bridge.reached keccak256 poi events).history)
    (hgas : verifyGas depth ≤ suppliedGas) :
    let kv := (Bridge.reached keccak256 poi events).kv
    let p : AInferenceProof := ⟨root, siblings (wordNode keccak256) depth
      (receiptLeaves keccak256 receipts) i, UInt64.ofNat i⟩
    (Call.mk host caller (verifyInput r p) suppliedGas false).exec keccak256 poi kv =
      ⟨.ok ((Entry.settled r p).reply keccak256), suppliedGas - verifyGas depth,
        kv.after keccak256 (.settled r p)⟩ := by
  intro kv p
  have hleaves : (receiptLeaves keccak256 receipts).length = 2 ^ depth := by
    rw [receiptLeaves, List.length_map, hlen]
  have hindex : i < 2 ^ depth := by
    rw [← hlen]
    exact (List.getElem?_eq_some_iff.mp hat).1
  have hpath : p.path.length = depth := siblings_length (wordNode keccak256) hleaves hindex
  have hwide : 2 ^ depth ≤ 2 ^ 64 := Nat.pow_le_pow_right (by decide) hdepth
  have hnumber : p.index.toNat = i := uint64_toNat_ofNat (by omega)
  have hleaf : (receiptLeaves keccak256 receipts)[i]? =
      some (leafHash keccak256 (receiptHash keccak256 r)) := by
    rw [receiptLeaves, List.getElem?_map, hat, Option.map_some]
  have hclimb := climb_siblings (wordNode keccak256) hleaves hleaf
  rw [hroot] at hclimb
  have hmerkle :
      verifyMerkle keccak256 (leafHash keccak256 (receiptHash keccak256 r)) p = true := by
    rw [verifyMerkle_iff, hpath, hnumber]
    exact ⟨hdepth, hindex, (List.singleton_inj.mp hclimb).symm⟩
  obtain ⟨hasked, hrequired⟩ :=
    asked_verifyInput poi host caller suppliedGas false hversion (hpath.le.trans hdepth)
  have hkept : (Bridge.reached keccak256 poi events).Kept keccak256 := Bridge.reached_kept events
  have hallows : kv.view.Allows keccak256 (.settled r p) := by
    rw [hkept.view, hkept.lawful.allows_iff]
    exact ⟨hstatus, houtput, hlive, hmerkle, hunsettled, intent, blockNumber, hsubmitted, hid,
      hbinds⟩
  have hpaid : requiredGas poi (verifyInput r p) ≤ suppliedGas := by
    rw [hrequired, hpath]
    exact hgas
  rw [Call.exec_allowed hasked rfl hpaid hallows, hrequired, hpath]

/-- Four receipts, the third of them of the submitted intent. -/
def fourReceipts : List AInferenceReceipt :=
  [sampleReceipt 1 0, sampleReceipt 1 1, sampleReceipt 1 sampleIntentID, sampleReceipt 1 3]

theorem fourReceipts_root : levelsUp (wordNode intentKeccak) 2
    (receiptLeaves intentKeccak fourReceipts) = [fourRoot] := by
  decide +kernel

theorem fourReceipts_siblings : siblings (wordNode intentKeccak) 2
    (receiptLeaves intentKeccak fourReceipts) 2 = [lastLeaf, firstPair] := by
  decide +kernel

/-- The receipt settles its intent by the path of its position. -/
theorem honest_receipt_settles_sample :
    let kv := (Bridge.reached intentKeccak noOpenings sampleRun).kv
    let r := sampleReceipt 1 sampleIntentID
    let p : AInferenceProof := ⟨fourRoot, [lastLeaf, firstPair], 2⟩
    (Call.mk (submissionOf 7).host 9 (verifyInput r p) 40000 false).exec intentKeccak noOpenings
        kv =
      ⟨.ok ((Entry.settled r p).reply intentKeccak), 40000 - verifyGas 2,
        kv.after intentKeccak (.settled r p)⟩ := by
  have hid : deriveIntentID intentKeccak sampleIntent = sampleIntentID := by
    rw [deriveIntentID, intentKeccak, if_pos rfl]
  have hlive : RootLive (Bridge.reached intentKeccak noOpenings sampleRun).history fourRoot := by
    rw [sampleRun_history]
    exact ⟨by decide, 9, rfl, by decide⟩
  have hsubmitted : .submitted sampleIntent 7 ∈
      (Bridge.reached intentKeccak noOpenings sampleRun).history := by
    rw [sampleRun_history]
    exact List.mem_cons_of_mem _ List.mem_cons_self
  have hunsettled : (sampleReceipt 1 sampleIntentID).intentID ∉
      settledIDs (Bridge.reached intentKeccak noOpenings sampleRun).history := by
    rw [sampleRun_history]
    exact List.not_mem_nil
  have hlen : fourReceipts.length = 2 ^ 2 := rfl
  have hat : fourReceipts[2]? = some (sampleReceipt 1 sampleIntentID) := rfl
  have hbinds : Binds (sampleReceipt 1 sampleIntentID) (pendingRecord sampleIntent 7) := by decide
  have hgas : verifyGas 2 ≤ (40000 : UInt64) := by decide
  have houtput : (sampleReceipt 1 sampleIntentID).canonicalOutputHash ≠ 0 := by decide
  have h := honest_receipt_settles intentKeccak noOpenings sampleRun (submissionOf 7).host 9 hlen
    (by decide) hat rfl rfl houtput fourReceipts_root hlive hsubmitted hid hbinds hunsettled hgas
  intro kv r p
  dsimp only at h
  rw [fourReceipts_siblings] at h
  exact h

end LuxPrecompile.AivmBridge
