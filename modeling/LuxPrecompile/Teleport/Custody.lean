import LuxPrecompile.Teleport.Bridge
import LuxPrecompile.Support.KeyedList
import LuxPrecompile.Support.Runs

/-!
# Custody of the bridge

A run of the bridge is kept beside the teleports it initiated, burned, completed and
cancelled.  The locked total of a token is what its initiated and not cancelled
teleports carry, and every teleport carries a positive amount, exactly as long as each
accepted amount exceeds the least fee and no token is added again while it has teleports.
-/

namespace LuxPrecompile.Teleport

open Evm Support

/-! ## Runs -/

/-- A call to the bridge. -/
inductive Op
  | initiate (i : Initiation)
  | burn (id : Word)
  | complete (id : Word) (warpMessage : List UInt8) (signatures : List (List UInt8))
  | cancel (sender : Address) (id : Word)
  | addToken (chain : UInt32) (token : Address) (singleTxLimit minAmount : ℤ)
  | pause (chain : UInt32) (token : Address)
  | unpause (chain : UInt32) (token : Address)
deriving DecidableEq

/-- The bridge with its history. -/
structure Ledger where
  tb : TeleportBridge
  initiated : List Initiation
  burned : List Word
  minted : List Word
  cancelled : List Word

/-- The history after a successful call. -/
def Ledger.log (l : Ledger) (tb : TeleportBridge) : Op → Ledger
  | .initiate i => { l with tb := tb, initiated := l.initiated ++ [i] }
  | .burn id => { l with tb := tb, burned := l.burned ++ [id] }
  | .complete id _ _ => { l with tb := tb, minted := l.minted ++ [id] }
  | .cancel _ id => { l with tb := tb, cancelled := l.cancelled ++ [id] }
  | _ => { l with tb := tb }

/-- A new bridge. -/
def deployed (threshold : UInt32) : Ledger := ⟨newTeleportBridge threshold, [], [], [], []⟩

section Custody

variable (blake3 : List UInt8 → Word)

def perform (tb : TeleportBridge) : Op → Except Error TeleportBridge
  | .initiate i => initiateTeleport blake3 tb i
  | .burn id => burnForTeleport tb id
  | .complete id warpMessage signatures => completeTeleport tb id warpMessage signatures
  | .cancel sender id => cancelTeleport tb sender id
  | .addToken chain token singleTxLimit minAmount =>
      .ok (addSupportedToken tb chain token singleTxLimit minAmount)
  | .pause chain token => pauseToken tb chain token
  | .unpause chain token => unpauseToken tb chain token

/-- A call; a failed one changes nothing. -/
def record (l : Ledger) (op : Op) : Ledger :=
  match perform blake3 l.tb op with
  | .error _ => l
  | .ok tb => l.log tb op

/-- The ids of the initiated teleports. -/
def Ledger.ids (l : Ledger) : List Word := l.initiated.map (generateTeleportID blake3)

/-- The teleports that are not cancelled. -/
def Ledger.live (l : Ledger) : List Initiation :=
  l.initiated.filter fun i => generateTeleportID blake3 i ∉ l.cancelled

/-- What a teleport locks of a token. -/
def Initiation.lockedOf (i : Initiation) (chain : UInt32) (token : Address) : ℤ :=
  if i.sourceChain = chain ∧ i.token = token then i.request.amount else 0

/-- What the teleports that are not cancelled lock of a token. -/
def Ledger.locked (l : Ledger) (chain : UInt32) (token : Address) : ℤ :=
  ((l.live blake3).map fun i => i.lockedOf chain token).sum

/-- The request the bridge holds for a teleport, by the history. -/
def Ledger.stage (l : Ledger) (i : Initiation) : Option TeleportRequest :=
  let id := generateTeleportID blake3 i
  if id ∈ l.minted ∨ id ∈ l.cancelled then none
  else if id ∈ l.burned then some { i.request with status := .burned }
  else some i.request

/-! ## The property -/

/-- What holds between calls.  A teleport is burned, completed and cancelled at most
once, completed only after its burn and never both burned and cancelled. -/
structure Sound (l : Ledger) : Prop where
  requests : ∀ i ∈ l.initiated,
    l.tb.pendingTeleports (generateTeleportID blake3 i) = l.stage blake3 i
  unknown : ∀ id, id ∉ l.ids blake3 → l.tb.pendingTeleports id = none
  completed : ∀ id, l.tb.completedTeleports id = true ↔ id ∈ l.minted
  burnedOnce : l.burned.Nodup
  mintedOnce : l.minted.Nodup
  cancelledOnce : l.cancelled.Nodup
  burned : ∀ id ∈ l.burned, id ∈ l.ids blake3 ∧ id ∉ l.cancelled
  minted : ∀ id ∈ l.minted, id ∈ l.burned
  cancelled : ∀ id ∈ l.cancelled, id ∈ l.ids blake3
  amounts : ∀ i ∈ l.initiated, 0 < i.request.amount ∧
    i.request.amount + calculateFee i.amount = i.amount
  locked : ∀ chain token config, l.tb.supportedTokens chain token = some config →
    config.totalLocked = l.locked blake3 chain token ∧ 0 ≤ config.totalLocked

/-- An accepted amount exceeds the least fee, and a token that is added again locks
nothing. -/
def Clean (l : Ledger) : Op → Prop
  | .initiate i => ∀ config, checkInitiation blake3 l.tb i = .ok config → minFee < i.amount
  | .addToken chain token _ _ =>
      ∀ config, l.tb.supportedTokens chain token = some config → config.totalLocked = 0
  | _ => True

/-- The id of a teleport is none of the earlier ones. -/
def Fresh (l : Ledger) : Op → Prop
  | .initiate i => generateTeleportID blake3 i ∉ l.ids blake3
  | _ => True

/-! ## Fees -/

theorem minFee_le_calculateFee (amount : ℤ) : minFee ≤ calculateFee amount := by
  simp only [calculateFee]
  split_ifs with hmin hmax
  · exact le_rfl
  · decide
  · exact not_lt.mp hmin

/-- Exactly the amounts above the least fee exceed their own fee. -/
theorem calculateFee_lt_iff {amount : ℤ} : calculateFee amount < amount ↔ minFee < amount := by
  constructor
  · exact lt_of_le_of_lt (minFee_le_calculateFee amount)
  · intro h
    have hpos : 0 < minFee := by decide
    have hrate : amount * feeRate / 10000 < amount := by
      rw [Int.ediv_lt_iff_lt_mul (by decide)]
      simp only [feeRate]
      omega
    simp only [calculateFee]
    split_ifs with hmin hmax
    · exact h
    · exact hmax.trans hrate
    · exact hrate

theorem request_amount_pos {i : Initiation} : 0 < i.request.amount ↔ minFee < i.amount := by
  rw [← calculateFee_lt_iff, Initiation.request]
  exact sub_pos

/-! ## The calls -/

variable {blake3}

/-- The bridge after an accepted initiation. -/
def initiated (tb : TeleportBridge) (i : Initiation) (id : Word) (config : BridgedToken) :
    TeleportBridge :=
  let tb := (tb.setPending id (some i.request)).setToken i.sourceChain i.token
    (config.lock i.request.amount)
  { tb with totalFees := tb.totalFees + calculateFee i.amount }

theorem record_initiate {l : Ledger} {i : Initiation} {config : BridgedToken}
    (h : checkInitiation blake3 l.tb i = .ok config) :
    record blake3 l (.initiate i) =
      l.log (initiated l.tb i (generateTeleportID blake3 i) config) (.initiate i) := by
  simp only [record, perform, initiateTeleport, h]
  rfl

theorem checkInitiation_eq_ok {tb : TeleportBridge} {i : Initiation} {config : BridgedToken}
    (h : checkInitiation blake3 tb i = .ok config) :
    tb.supportedTokens i.sourceChain i.token = some config := by
  rw [checkInitiation, refuse_eq_ok] at h
  obtain ⟨-, h⟩ := h
  cases hconfig : tb.supportedTokens i.sourceChain i.token with
  | none =>
      rw [hconfig] at h
      cases h
  | some config' =>
      rw [hconfig] at h
      simp only [refuse_eq_ok] at h
      rw [Except.ok.inj h.2.2.2.2.2]

/-- The bridge after a cancellation. -/
def cancelled (tb : TeleportBridge) (id : Word) (request : TeleportRequest) : TeleportBridge :=
  (match tb.supportedTokens request.sourceChain request.token with
    | none => tb
    | some config =>
        tb.setToken request.sourceChain request.token (config.lock (-request.amount))).setPending
    id none

variable (blake3) in
/-- What a call does. -/
inductive Effect (l : Ledger) : Op → Ledger → Prop
  | idle (op : Op) : Effect l op l
  | initiated (i : Initiation) (config : BridgedToken)
      (hcheck : checkInitiation blake3 l.tb i = .ok config) :
      Effect l (.initiate i)
        (l.log (initiated l.tb i (generateTeleportID blake3 i) config) (.initiate i))
  | burned (id : Word) (request : TeleportRequest) (hid : l.tb.pendingTeleports id = some request)
      (hstatus : request.status = .pending) :
      Effect l (.burn id)
        (l.log (l.tb.setPending id (some { request with status := .burned })) (.burn id))
  | completed (id : Word) (warpMessage : List UInt8) (signatures : List (List UInt8))
      (request : TeleportRequest) (hid : l.tb.pendingTeleports id = some request)
      (hstatus : request.status = .burned) :
      Effect l (.complete id warpMessage signatures)
        (l.log { l.tb.setPending id none with
          completedTeleports := Function.update l.tb.completedTeleports id true }
          (.complete id warpMessage signatures))
  | cancelled (sender : Address) (id : Word) (request : TeleportRequest)
      (hid : l.tb.pendingTeleports id = some request) (hstatus : request.status = .pending) :
      Effect l (.cancel sender id) (l.log (cancelled l.tb id request) (.cancel sender id))
  | added (chain : UInt32) (token : Address) (singleTxLimit minAmount : ℤ) :
      Effect l (.addToken chain token singleTxLimit minAmount)
        { l with tb := addSupportedToken l.tb chain token singleTxLimit minAmount }
  | paused (op : Op) (chain : UInt32) (token : Address) (config : BridgedToken) (paused : Bool)
      (hconfig : l.tb.supportedTokens chain token = some config) :
      Effect l op { l with tb := l.tb.setToken chain token { config with isPaused := paused } }

theorem setPaused_effect {l : Ledger} {op : Op} {chain : UInt32} {token : Address} {paused : Bool}
    (hperform : perform blake3 l.tb op = setPaused l.tb chain token paused)
    (hlog : ∀ tb, l.log tb op = { l with tb := tb }) : Effect blake3 l op (record blake3 l op) := by
  rw [record, hperform, setPaused]
  cases hconfig : l.tb.supportedTokens chain token with
  | none => exact .idle _
  | some config =>
      dsimp only
      rw [hlog]
      exact .paused op chain token config paused hconfig

theorem record_effect (l : Ledger) (op : Op) : Effect blake3 l op (record blake3 l op) := by
  cases op with
  | initiate i =>
      cases hcheck : checkInitiation blake3 l.tb i with
      | error e =>
          simp only [record, perform, initiateTeleport, hcheck]
          exact .idle _
      | ok config =>
          rw [record_initiate hcheck]
          exact .initiated i config hcheck
  | burn id =>
      rw [record, perform, burnForTeleport]
      cases hid : l.tb.pendingTeleports id with
      | none => exact .idle _
      | some request =>
          by_cases hstatus : request.status = .pending
          · simp only [hstatus, ne_eq, not_true_eq_false, if_false]
            exact .burned id request hid hstatus
          · simp only [hstatus, ne_eq, not_false_eq_true, if_true]
            exact .idle _
  | complete id warpMessage signatures =>
      rw [record, perform, completeTeleport]
      cases hid : l.tb.pendingTeleports id with
      | none => exact .idle _
      | some request =>
          dsimp only
          split_ifs with hstatus hsignatures hmessage
          · exact .idle _
          · exact .idle _
          · exact .idle _
          · exact .completed id warpMessage signatures request hid (not_not.mp hstatus)
  | cancel sender id =>
      rw [record, perform, cancelTeleport]
      cases hid : l.tb.pendingTeleports id with
      | none => exact .idle _
      | some request =>
          dsimp only
          split_ifs with hsender hstatus
          · exact .idle _
          · exact .idle _
          · exact .cancelled sender id request hid (not_not.mp hstatus)
  | addToken chain token singleTxLimit minAmount => exact .added chain token singleTxLimit minAmount
  | pause chain token => exact setPaused_effect rfl fun _ => rfl
  | unpause chain token => exact setPaused_effect rfl fun _ => rfl

/-! ## The history -/

variable (blake3) in
/-- The states a run can reach: ids are distinct, and every teleport's token is known. -/
structure Valid (l : Ledger) : Prop where
  sound : Sound blake3 l
  distinct : DistinctKeys (generateTeleportID blake3) l.initiated
  supported : ∀ i ∈ l.initiated, l.tb.supportedTokens i.sourceChain i.token ≠ none

theorem deployed_valid (threshold : UInt32) : Valid blake3 (deployed threshold) where
  sound :=
    { requests := fun _ h => by cases h
      unknown := fun _ _ => rfl
      completed := fun _ => iff_of_false Bool.false_ne_true List.not_mem_nil
      burnedOnce := List.nodup_nil
      mintedOnce := List.nodup_nil
      cancelledOnce := List.nodup_nil
      burned := fun _ h => by cases h
      minted := fun _ h => by cases h
      cancelled := fun _ h => by cases h
      amounts := fun _ h => by cases h
      locked := fun _ _ _ h => by cases h }
  distinct := List.nodup_nil
  supported _ h := by cases h

theorem stage_pending {l : Ledger} {i : Initiation} {request : TeleportRequest}
    (h : l.stage blake3 i = some request) (hstatus : request.status = .pending) :
    request = i.request ∧ generateTeleportID blake3 i ∉ l.minted ∧
      generateTeleportID blake3 i ∉ l.cancelled ∧ generateTeleportID blake3 i ∉ l.burned := by
  simp only [Ledger.stage] at h
  split_ifs at h with hended hburned
  · rw [← Option.some.inj h] at hstatus
    cases hstatus
  · exact ⟨(Option.some.inj h).symm, fun hm => hended (.inl hm), fun hc => hended (.inr hc),
      hburned⟩

theorem stage_burned {l : Ledger} {i : Initiation} {request : TeleportRequest}
    (h : l.stage blake3 i = some request) (hstatus : request.status = .burned) :
    generateTeleportID blake3 i ∈ l.burned ∧ generateTeleportID blake3 i ∉ l.minted := by
  simp only [Ledger.stage] at h
  split_ifs at h with hended hburned
  · exact ⟨hburned, fun hm => hended (.inl hm)⟩
  · rw [← Option.some.inj h] at hstatus
    cases hstatus

theorem Sound.exists_of_pending {l : Ledger} (hl : Sound blake3 l) {id : Word}
    {request : TeleportRequest} (h : l.tb.pendingTeleports id = some request) :
    ∃ i ∈ l.initiated, generateTeleportID blake3 i = id ∧ l.stage blake3 i = some request := by
  have hid : id ∈ l.ids blake3 := by
    by_contra hnot
    rw [hl.unknown id hnot] at h
    cases h
  obtain ⟨i, hi, rfl⟩ := List.mem_map.mp hid
  exact ⟨i, hi, rfl, (hl.requests i hi).symm.trans h⟩

theorem Ledger.locked_nonneg {l : Ledger} (hl : ∀ i ∈ l.initiated, 0 < i.request.amount)
    (chain : UInt32) (token : Address) : 0 ≤ l.locked blake3 chain token := by
  apply List.sum_nonneg
  intro x hx
  obtain ⟨i, hi, rfl⟩ := List.mem_map.mp hx
  rw [Initiation.lockedOf]
  split_ifs
  · exact (hl i (List.mem_filter.mp hi).1).le
  · exact le_rfl

theorem Ledger.locked_append (l : Ledger) (tb : TeleportBridge) {i : Initiation}
    (h : generateTeleportID blake3 i ∉ l.cancelled) (chain : UInt32) (token : Address) :
    (l.log tb (.initiate i)).locked blake3 chain token =
      l.locked blake3 chain token + i.lockedOf chain token := by
  have hlive : (l.log tb (.initiate i)).live blake3 = l.live blake3 ++ [i] := by
    rw [Ledger.live, Ledger.log, List.filter_append, Ledger.live]
    simp [h]
  rw [Ledger.locked, hlive, List.map_append, List.sum_append, List.map_singleton,
    List.sum_singleton, Ledger.locked]

/-- A cancelled teleport no longer locks its amount. -/
theorem Valid.locked_cancel {l : Ledger} (hl : Valid blake3 l) (tb : TeleportBridge)
    (sender : Address) {i : Initiation} (hi : i ∈ l.initiated)
    (h : generateTeleportID blake3 i ∉ l.cancelled) (chain : UInt32) (token : Address) :
    (l.log tb (.cancel sender (generateTeleportID blake3 i))).locked blake3 chain token +
        i.lockedOf chain token =
      l.locked blake3 chain token := by
  have hlive : (l.log tb (.cancel sender (generateTeleportID blake3 i))).live blake3 =
      (l.live blake3).filter fun j =>
        generateTeleportID blake3 j ≠ generateTeleportID blake3 i := by
    rw [Ledger.live, Ledger.log, Ledger.live, List.filter_filter]
    apply List.filter_congr
    intro j _
    simp only [List.mem_append, List.mem_singleton, not_or, Bool.decide_and]
    exact Bool.and_comm _ _
  have hmem : i ∈ l.live blake3 := List.mem_filter.mpr ⟨hi, by simpa using h⟩
  have hdistinct : DistinctKeys (generateTeleportID blake3) (l.live blake3) :=
    hl.distinct.sublist (List.filter_sublist.map _)
  rw [Ledger.locked, hlive]
  exact sum_filter_ne_add _ (fun j => j.lockedOf chain token) hdistinct hmem

theorem stage_congr (l : Ledger) {l' : Ledger} {i : Initiation}
    (hminted : generateTeleportID blake3 i ∈ l'.minted ↔ generateTeleportID blake3 i ∈ l.minted)
    (hcancelled : generateTeleportID blake3 i ∈ l'.cancelled ↔
      generateTeleportID blake3 i ∈ l.cancelled)
    (hburned : generateTeleportID blake3 i ∈ l'.burned ↔ generateTeleportID blake3 i ∈ l.burned) :
    l'.stage blake3 i = l.stage blake3 i := by
  simp only [Ledger.stage, hminted, hcancelled, hburned]

/-! ## One call -/

/-- An accepted initiation above the least fee, under a new id. -/
theorem Valid.initiate {l : Ledger} (hl : Valid blake3 l) {i : Initiation} {config : BridgedToken}
    (hcheck : checkInitiation blake3 l.tb i = .ok config)
    (hfresh : generateTeleportID blake3 i ∉ l.ids blake3) (hamount : minFee < i.amount) :
    Valid blake3
      (l.log (initiated l.tb i (generateTeleportID blake3 i) config) (.initiate i)) := by
  have hconfig := checkInitiation_eq_ok hcheck
  have hcancelled : generateTeleportID blake3 i ∉ l.cancelled :=
    fun h => hfresh (hl.sound.cancelled _ h)
  have hburned : generateTeleportID blake3 i ∉ l.burned :=
    fun h => hfresh (hl.sound.burned _ h).1
  have hminted : generateTeleportID blake3 i ∉ l.minted :=
    fun h => hburned (hl.sound.minted _ h)
  have hne : ∀ j ∈ l.initiated, generateTeleportID blake3 j ≠ generateTeleportID blake3 i :=
    fun j hj heq => hfresh (List.mem_map.mpr ⟨j, hj, heq⟩)
  have hids : (l.log (initiated l.tb i (generateTeleportID blake3 i) config)
      (.initiate i)).ids blake3 = l.ids blake3 ++ [generateTeleportID blake3 i] := by
    rw [Ledger.ids, Ledger.log, List.map_append, List.map_singleton, Ledger.ids]
  have htokens : ∀ chain token,
      (initiated l.tb i (generateTeleportID blake3 i) config).supportedTokens chain token =
        if chain = i.sourceChain ∧ token = i.token then some (config.lock i.request.amount)
        else l.tb.supportedTokens chain token := TeleportBridge.setToken_supportedTokens _ _ _ _
  have hpending : (initiated l.tb i (generateTeleportID blake3 i) config).pendingTeleports =
      Function.update l.tb.pendingTeleports (generateTeleportID blake3 i) (some i.request) := rfl
  refine ⟨⟨?_, ?_, hl.sound.completed, hl.sound.burnedOnce, hl.sound.mintedOnce,
    hl.sound.cancelledOnce, ?_, hl.sound.minted, ?_, ?_, ?_⟩, ?_, ?_⟩
  · intro j hj
    rcases List.mem_append.mp hj with hj | hj
    · rw [Ledger.log, hpending, Function.update_of_ne (hne j hj)]
      exact hl.sound.requests j hj
    · rw [List.mem_singleton.mp hj, Ledger.log, hpending, Function.update_self]
      simp only [Ledger.stage, hminted, hcancelled, hburned, or_self, if_false]
  · intro id hid
    rw [hids, List.mem_append, List.mem_singleton, not_or] at hid
    rw [Ledger.log, hpending, Function.update_of_ne hid.2]
    exact hl.sound.unknown id hid.1
  · intro id hid
    rw [hids]
    exact ⟨List.mem_append_left _ (hl.sound.burned id hid).1, (hl.sound.burned id hid).2⟩
  · intro id hid
    rw [hids]
    exact List.mem_append_left _ (hl.sound.cancelled id hid)
  · intro j hj
    rcases List.mem_append.mp hj with hj | hj
    · exact hl.sound.amounts j hj
    · rw [List.mem_singleton.mp hj]
      exact ⟨request_amount_pos.mpr hamount, sub_add_cancel _ _⟩
  · intro chain token config' h
    rw [l.locked_append _ hcancelled]
    have h' := (htokens chain token).symm.trans h
    split_ifs at h' with hhere
    · obtain ⟨rfl, rfl⟩ := hhere
      obtain ⟨htotal, hnonneg⟩ := hl.sound.locked _ _ config hconfig
      rw [← Option.some.inj h', Initiation.lockedOf, if_pos ⟨rfl, rfl⟩, ← htotal]
      have hpos := request_amount_pos.mpr hamount
      exact ⟨rfl, add_nonneg hnonneg hpos.le⟩
    · have hother : i.lockedOf chain token = 0 :=
        if_neg fun hc => hhere ⟨hc.1.symm, hc.2.symm⟩
      rw [hother, add_zero]
      exact hl.sound.locked chain token config' h'
  · have hdistinct : (l.ids blake3 ++ [generateTeleportID blake3 i]).Nodup :=
      List.Nodup.append hl.distinct (List.nodup_singleton _) (List.disjoint_singleton.mpr hfresh)
    rw [← hids] at hdistinct
    exact hdistinct
  · intro j hj
    refine fun hnone => ?_
    have hnone' := (htokens j.sourceChain j.token).symm.trans hnone
    split_ifs at hnone' with hhere
    rcases List.mem_append.mp hj with hj | hj
    · exact hl.supported j hj hnone'
    · rw [List.mem_singleton.mp hj] at hhere
      exact hhere ⟨rfl, rfl⟩

/-- A burn of a teleport that waits. -/
theorem Valid.burn {l : Ledger} (hl : Valid blake3 l) {id : Word} {request : TeleportRequest}
    (hid : l.tb.pendingTeleports id = some request) (hstatus : request.status = .pending) :
    Valid blake3
      (l.log (l.tb.setPending id (some { request with status := .burned })) (.burn id)) := by
  obtain ⟨i, hi, rfl, hstage⟩ := hl.sound.exists_of_pending hid
  obtain ⟨rfl, hminted, hcancelled, hburned⟩ := stage_pending hstage hstatus
  have hmem : generateTeleportID blake3 i ∈ l.ids blake3 := List.mem_map_of_mem hi
  refine ⟨⟨?_, ?_, hl.sound.completed, ?_, hl.sound.mintedOnce, hl.sound.cancelledOnce, ?_, ?_,
    hl.sound.cancelled, hl.sound.amounts, hl.sound.locked⟩, hl.distinct, hl.supported⟩
  · intro j hj
    by_cases heq : generateTeleportID blake3 j = generateTeleportID blake3 i
    · have hj' := hl.sound.requests j hj
      rw [heq, hid] at hj'
      obtain ⟨hrequest, -⟩ := stage_pending hj'.symm hstatus
      simp only [Ledger.log, TeleportBridge.setPending_pendingTeleports, heq,
        Function.update_self, Ledger.stage, hminted, hcancelled, or_self, if_false,
        List.mem_append, List.mem_singleton, or_true, if_true, hrequest]
    · refine Eq.trans ?_ (Eq.symm (stage_congr l Iff.rfl Iff.rfl ?_))
      · rw [Ledger.log, TeleportBridge.setPending_pendingTeleports, Function.update_of_ne heq]
        exact hl.sound.requests j hj
      · simp [Ledger.log, heq]
  · intro id' hid'
    have hne : id' ≠ generateTeleportID blake3 i := fun h => hid' (h ▸ hmem)
    rw [Ledger.log, TeleportBridge.setPending_pendingTeleports, Function.update_of_ne hne]
    exact hl.sound.unknown id' hid'
  · exact hl.sound.burnedOnce.append (List.nodup_singleton _) (List.disjoint_singleton.mpr hburned)
  · intro id' hid'
    rcases List.mem_append.mp hid' with hid' | hid'
    · exact hl.sound.burned id' hid'
    · rw [List.mem_singleton.mp hid']
      exact ⟨hmem, hcancelled⟩
  · intro id' hid'
    exact List.mem_append_left _ (hl.sound.minted id' hid')

/-- A completion of a burned teleport. -/
theorem Valid.complete {l : Ledger} (hl : Valid blake3 l) {id : Word} {request : TeleportRequest}
    (warpMessage : List UInt8) (signatures : List (List UInt8))
    (hid : l.tb.pendingTeleports id = some request) (hstatus : request.status = .burned) :
    Valid blake3
      (l.log { l.tb.setPending id none with
        completedTeleports := Function.update l.tb.completedTeleports id true }
        (.complete id warpMessage signatures)) := by
  obtain ⟨i, hi, rfl, hstage⟩ := hl.sound.exists_of_pending hid
  obtain ⟨hburned, hminted⟩ := stage_burned hstage hstatus
  have hmem : generateTeleportID blake3 i ∈ l.ids blake3 := List.mem_map_of_mem hi
  refine ⟨⟨?_, ?_, ?_, hl.sound.burnedOnce, ?_, hl.sound.cancelledOnce, hl.sound.burned, ?_,
    hl.sound.cancelled, hl.sound.amounts, hl.sound.locked⟩, hl.distinct, hl.supported⟩
  · intro j hj
    by_cases heq : generateTeleportID blake3 j = generateTeleportID blake3 i
    · simp only [Ledger.log, TeleportBridge.setPending_pendingTeleports, heq,
        Function.update_self, Ledger.stage, List.mem_append, List.mem_singleton, or_true,
        true_or, if_true]
    · refine Eq.trans ?_ (Eq.symm (stage_congr l ?_ Iff.rfl Iff.rfl))
      · rw [Ledger.log]
        dsimp only
        rw [TeleportBridge.setPending_pendingTeleports, Function.update_of_ne heq]
        exact hl.sound.requests j hj
      · simp [Ledger.log, heq]
  · intro id' hid'
    have hne : id' ≠ generateTeleportID blake3 i := fun h => hid' (h ▸ hmem)
    rw [Ledger.log]
    dsimp only
    rw [TeleportBridge.setPending_pendingTeleports, Function.update_of_ne hne]
    exact hl.sound.unknown id' hid'
  · intro id'
    rw [Ledger.log]
    dsimp only
    rw [List.mem_append, List.mem_singleton]
    by_cases heq : id' = generateTeleportID blake3 i
    · rw [heq, Function.update_self]
      simp
    · rw [Function.update_of_ne heq, hl.sound.completed]
      simp [heq]
  · exact hl.sound.mintedOnce.append (List.nodup_singleton _) (List.disjoint_singleton.mpr hminted)
  · intro id' hid'
    rcases List.mem_append.mp hid' with hid' | hid'
    · exact hl.sound.minted id' hid'
    · rw [List.mem_singleton.mp hid']
      exact hburned

/-- A cancellation of a teleport that waits. -/
theorem Valid.cancel {l : Ledger} (hl : Valid blake3 l) (sender : Address) {id : Word}
    {request : TeleportRequest} (hid : l.tb.pendingTeleports id = some request)
    (hstatus : request.status = .pending) :
    Valid blake3 (l.log (cancelled l.tb id request) (.cancel sender id)) := by
  obtain ⟨i, hi, rfl, hstage⟩ := hl.sound.exists_of_pending hid
  obtain ⟨rfl, hminted, hcancelled, hburned⟩ := stage_pending hstage hstatus
  have hmem : generateTeleportID blake3 i ∈ l.ids blake3 := List.mem_map_of_mem hi
  obtain ⟨config, hconfig⟩ := Option.ne_none_iff_exists'.mp (hl.supported i hi)
  have hbridge : cancelled l.tb (generateTeleportID blake3 i) i.request =
      (l.tb.setToken i.sourceChain i.token (config.lock (-i.request.amount))).setPending
        (generateTeleportID blake3 i) none := by
    rw [cancelled, show l.tb.supportedTokens i.request.sourceChain i.request.token = _ from hconfig]
    rfl
  rw [hbridge]
  have htokens := l.tb.setToken_supportedTokens i.sourceChain i.token
    (config.lock (-i.request.amount))
  refine ⟨⟨?_, ?_, hl.sound.completed, hl.sound.burnedOnce, hl.sound.mintedOnce, ?_, ?_,
    hl.sound.minted, ?_, hl.sound.amounts, ?_⟩, hl.distinct, ?_⟩
  · intro j hj
    by_cases heq : generateTeleportID blake3 j = generateTeleportID blake3 i
    · simp only [Ledger.log, TeleportBridge.setPending_pendingTeleports, heq,
        Function.update_self, Ledger.stage, List.mem_append, List.mem_singleton, or_true, if_true]
    · refine Eq.trans ?_ (Eq.symm (stage_congr l Iff.rfl ?_ Iff.rfl))
      · rw [Ledger.log, TeleportBridge.setPending_pendingTeleports, Function.update_of_ne heq]
        exact hl.sound.requests j hj
      · simp [Ledger.log, heq]
  · intro id' hid'
    have hne : id' ≠ generateTeleportID blake3 i := fun h => hid' (h ▸ hmem)
    rw [Ledger.log, TeleportBridge.setPending_pendingTeleports, Function.update_of_ne hne]
    exact hl.sound.unknown id' hid'
  · exact hl.sound.cancelledOnce.append (List.nodup_singleton _)
      (List.disjoint_singleton.mpr hcancelled)
  · intro id' hid'
    obtain ⟨hknown, hkept⟩ := hl.sound.burned id' hid'
    refine ⟨hknown, fun hc => ?_⟩
    rcases List.mem_append.mp hc with hc | hc
    · exact hkept hc
    · rw [List.mem_singleton.mp hc] at hid'
      exact hburned hid'
  · intro id' hid'
    rcases List.mem_append.mp hid' with hid' | hid'
    · exact hl.sound.cancelled id' hid'
    · rw [List.mem_singleton.mp hid']
      exact hmem
  · intro chain token config' h
    have hsum := hl.locked_cancel ((l.tb.setToken i.sourceChain i.token
      (config.lock (-i.request.amount))).setPending (generateTeleportID blake3 i) none) sender hi
      hcancelled chain token
    have hnonneg : 0 ≤ (l.log ((l.tb.setToken i.sourceChain i.token
        (config.lock (-i.request.amount))).setPending (generateTeleportID blake3 i) none)
        (.cancel sender (generateTeleportID blake3 i))).locked blake3 chain token := by
      apply Ledger.locked_nonneg
      intro j hj
      exact (hl.sound.amounts j hj).1
    have h' := (htokens chain token).symm.trans h
    split_ifs at h' with hhere
    · obtain ⟨rfl, rfl⟩ := hhere
      obtain ⟨htotal, -⟩ := hl.sound.locked _ _ config hconfig
      rw [Initiation.lockedOf, if_pos ⟨rfl, rfl⟩] at hsum
      have htotal' : config'.totalLocked = config.totalLocked + -i.request.amount := by
        rw [← Option.some.inj h']
        rfl
      constructor <;> linarith
    · have hother : i.lockedOf chain token = 0 :=
        if_neg fun hc => hhere ⟨hc.1.symm, hc.2.symm⟩
      rw [hother, add_zero] at hsum
      rw [hsum]
      exact hl.sound.locked chain token config' h'
  · intro j hj hnone
    have hnone' := (htokens j.sourceChain j.token).symm.trans hnone
    split_ifs at hnone' with hhere
    exact hl.supported j hj hnone'

/-- Another configuration of a token, with the total its teleports lock. -/
theorem Valid.configure {l : Ledger} (hl : Valid blake3 l) {chain : UInt32} {token : Address}
    {config : BridgedToken} (h : config.totalLocked = l.locked blake3 chain token) :
    Valid blake3 { l with tb := l.tb.setToken chain token config } := by
  have htokens := l.tb.setToken_supportedTokens chain token config
  refine ⟨⟨hl.sound.requests, hl.sound.unknown, hl.sound.completed, hl.sound.burnedOnce,
    hl.sound.mintedOnce, hl.sound.cancelledOnce, hl.sound.burned, hl.sound.minted,
    hl.sound.cancelled, hl.sound.amounts, ?_⟩, hl.distinct, ?_⟩
  · intro chain' token' config' hconfig
    have hconfig' := (htokens chain' token').symm.trans hconfig
    split_ifs at hconfig' with hhere
    · obtain ⟨rfl, rfl⟩ := hhere
      rw [← Option.some.inj hconfig', h]
      exact ⟨rfl, Ledger.locked_nonneg (fun j hj => (hl.sound.amounts j hj).1) _ _⟩
    · exact hl.sound.locked chain' token' config' hconfig'
  · intro j hj hnone
    have hnone' := (htokens j.sourceChain j.token).symm.trans hnone
    split_ifs at hnone' with hhere
    exact hl.supported j hj hnone'

theorem Valid.locked_unknown {l : Ledger} (hl : Valid blake3 l) {chain : UInt32} {token : Address}
    (h : l.tb.supportedTokens chain token = none) : l.locked blake3 chain token = 0 := by
  apply List.sum_eq_zero
  intro x hx
  obtain ⟨i, hi, rfl⟩ := List.mem_map.mp hx
  refine if_neg fun ⟨hchain, htoken⟩ => ?_
  apply hl.supported i (List.mem_filter.mp hi).1
  rw [hchain, htoken, h]

/-- A clean call under a new id keeps the states valid. -/
theorem Valid.step {l : Ledger} (hl : Valid blake3 l) {op : Op} (hfresh : Fresh blake3 l op)
    (h : Clean blake3 l op) : Valid blake3 (record blake3 l op) := by
  have heffect : Effect blake3 l op (record blake3 l op) := record_effect l op
  generalize record blake3 l op = l' at heffect
  cases heffect with
  | idle => exact hl
  | initiated i config hcheck => exact hl.initiate hcheck hfresh (h config hcheck)
  | burned id request hid hstatus => exact hl.burn hid hstatus
  | completed id warpMessage signatures request hid hstatus =>
      exact hl.complete warpMessage signatures hid hstatus
  | cancelled sender id request hid hstatus => exact hl.cancel sender hid hstatus
  | added chain token singleTxLimit minAmount =>
      apply hl.configure
      cases hconfig : l.tb.supportedTokens chain token with
      | none => exact (hl.locked_unknown hconfig).symm
      | some config => rw [← (hl.sound.locked chain token config hconfig).1, h config hconfig]
  | paused _ chain token config paused hconfig =>
      exact hl.configure (hl.sound.locked chain token config hconfig).1

/-- A call that keeps the property is clean. -/
theorem clean_of_sound {l : Ledger} (hl : Valid blake3 l) {op : Op}
    (h : Sound blake3 (record blake3 l op)) : Clean blake3 l op := by
  cases op with
  | initiate i =>
      intro config hcheck
      rw [record_initiate hcheck] at h
      exact request_amount_pos.mp (h.amounts i (List.mem_append_right _ List.mem_cons_self)).1
  | addToken chain token singleTxLimit minAmount =>
      intro config hconfig
      rw [(hl.sound.locked chain token config hconfig).1]
      refine (h.locked chain token ⟨singleTxLimit, minAmount, false, 0⟩ ?_).1.symm
      exact (TeleportBridge.setToken_supportedTokens _ _ _ _ _ _).trans (if_pos ⟨rfl, rfl⟩)
  | burn | complete | cancel | pause | unpause => trivial

/-! ## Runs -/

variable (blake3) in
/-- The ids of the initiations of a run. -/
def initiationIDs : List Op → List Word
  | [] => []
  | .initiate i :: ops => generateTeleportID blake3 i :: initiationIDs ops
  | _ :: ops => initiationIDs ops

/-- A call adds no id but that of its own initiation. -/
theorem ids_record (l : Ledger) (op : Op) {id : Word}
    (h : id ∈ (record blake3 l op).ids blake3) :
    id ∈ l.ids blake3 ∨ id ∈ initiationIDs blake3 [op] := by
  have heffect : Effect blake3 l op (record blake3 l op) := record_effect l op
  generalize record blake3 l op = l' at heffect h
  cases heffect with
  | initiated i config hcheck =>
      obtain ⟨j, hj, rfl⟩ := List.mem_map.mp h
      rcases List.mem_append.mp hj with hj | hj
      · exact .inl (List.mem_map_of_mem hj)
      · rw [List.mem_singleton.mp hj]
        exact .inr List.mem_cons_self
  | idle | burned | completed | cancelled | added | paused => exact .inl h

theorem initiationIDs_cons (op : Op) (ops : List Op) :
    initiationIDs blake3 (op :: ops) = initiationIDs blake3 [op] ++ initiationIDs blake3 ops := by
  cases op <;> rfl

/-- Under distinct ids every initiation has a new one. -/
theorem along_fresh : ∀ (ops : List Op) {l : Ledger}, (initiationIDs blake3 ops).Nodup →
    (∀ id ∈ initiationIDs blake3 ops, id ∉ l.ids blake3) →
      Along (record blake3) (Fresh blake3) l ops
  | [], _, _, _ => trivial
  | op :: ops, l, hids, hnew => by
      rw [initiationIDs_cons] at hids hnew
      obtain ⟨-, htail, hdisjoint⟩ := List.nodup_append'.mp hids
      refine ⟨?_, along_fresh ops htail fun id hid hmem => ?_⟩
      · cases op with
        | initiate i => exact hnew _ (List.mem_append_left _ List.mem_cons_self)
        | burn | complete | cancel | addToken | pause | unpause => trivial
      · rcases ids_record l op hmem with hold | hnow
        · exact hnew id (List.mem_append_right _ hid) hold
        · exact hdisjoint hnow hid

end Custody

/-- The accounting of the bridge holds exactly along the runs whose accepted amounts
exceed the least fee and whose tokens are added again only when nothing of them is
locked. -/
theorem accounting_sound_iff (blake3 : List UInt8 → Word) (threshold : UInt32) (ops : List Op)
    (hids : (initiationIDs blake3 ops).Nodup) :
    Along (record blake3) (fun l op => Sound blake3 (record blake3 l op)) (deployed threshold) ops ↔
      Along (record blake3) (Clean blake3) (deployed threshold) ops := by
  have hfresh : Along (record blake3) (Fresh blake3) (deployed threshold) ops :=
    along_fresh ops hids fun _ _ h => by cases h
  constructor
  · intro h
    refine Along.imp_of_invariant (I := Valid blake3) ?_ ?_ ops (deployed_valid threshold)
      (hfresh.and h)
    · exact fun l op hl hop => hl.step hop.1 (clean_of_sound hl hop.2)
    · exact fun l op hl hop => clean_of_sound hl hop.2
  · intro h
    refine Along.imp_of_invariant (I := Valid blake3) ?_ ?_ ops (deployed_valid threshold)
      (hfresh.and h)
    · exact fun l op hl hop => hl.step hop.1 hop.2
    · exact fun l op hl hop => (hl.step hop.1 hop.2).sound

/-- Account 3 sends an amount of token 2 from chain 96369 to account 4 on chain 1. -/
def sampleInitiation (amount : ℤ) (nanos : UInt64) : Initiation :=
  ⟨3, 1, 4, 2, amount, 96369, nanos⟩

/-- The id of a sample under a hash that keeps the last 32 bytes. -/
def sampleID (nanos : UInt64) : Word :=
  generateTeleportID bytesToHash (sampleInitiation (10 ^ 18) nanos)

/-- One teleport that completes and one that is cancelled. -/
def sampleRun : List Op :=
  [.addToken 96369 2 (10 ^ 20) 1, .initiate (sampleInitiation (10 ^ 18) 5),
    .initiate (sampleInitiation (10 ^ 18) 6), .burn (sampleID 5), .cancel 3 (sampleID 6),
    .complete (sampleID 5) [1] [[2]]]

theorem accounting_sound_sample :
    Along (record bytesToHash) (fun l op => Sound bytesToHash (record bytesToHash l op))
        (deployed 1) sampleRun ∧
      (sampleRun.foldl (record bytesToHash) (deployed 1)).minted = [sampleID 5] ∧
      (sampleRun.foldl (record bytesToHash) (deployed 1)).cancelled = [sampleID 6] :=
  ⟨(accounting_sound_iff bytesToHash 1 sampleRun (by decide +kernel)).mpr
      ⟨fun _ h => (by cases h), fun _ _ => (by decide), fun _ _ => (by decide),
        trivial, trivial, trivial, trivial⟩,
    by decide +kernel, by decide +kernel⟩

/-- An amount of one is accepted, and its fee leaves a negative teleport. -/
theorem small_amount_locked_negative :
    ¬ ∀ (blake3 : List UInt8 → Word) (threshold : UInt32) (ops : List Op),
      (∀ i, Op.initiate i ∈ ops → 0 < i.amount) → (initiationIDs blake3 ops).Nodup →
        Along (record blake3) (fun l op => Sound blake3 (record blake3 l op))
          (deployed threshold) ops := by
  intro hsound
  let i := sampleInitiation 1 5
  have haccepted : (record bytesToHash (record bytesToHash (deployed 1)
      (.addToken 96369 2 (10 ^ 20) 1)) (.initiate i)).initiated = [i] := by decide
  obtain ⟨-, h, -⟩ := hsound bytesToHash 1 [.addToken 96369 2 (10 ^ 20) 1, .initiate i]
    (by simp [i, sampleInitiation]) (by decide)
  have hpos := (h.amounts i (haccepted ▸ List.mem_singleton_self _)).1
  exact absurd (request_amount_pos.mp hpos) (by decide)

end LuxPrecompile.Teleport
