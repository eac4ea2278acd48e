import LuxPrecompile.Settle.Effects

/-!
# Exits do not read the halt switches

Two worlds that differ in nothing but their halt switches stay so under the exits:
`withdraw`, a withdraw request and `collectPosition` return the same result and make
the same changes in both.  A token call in between runs foreign code; that code is
taken not to look at the switches either.
-/

namespace LuxPrecompile.Settle

open Dex Evm Support

/-! ## Twins -/

/-- Storages that agree off the halt switches; a switch still holds what it held in
`a` and `b`, or was set alike. -/
structure TwinStorage (a b st st' : Storage) : Prop where
  same : ∀ slot : Slot, ¬ slot.IsHalt → st' slot = st slot
  halts : ∀ slot : Slot, slot.IsHalt →
    (st slot = a slot ∧ st' slot = b slot) ∨ st' slot = st slot

/-- Worlds that agree off the halt switches. -/
structure Twin (a b : Storage) (w w' : World) : Prop where
  storage : TwinStorage a b w.storage w'.storage
  bank : w'.bank = w.bank
  logs : w'.logs = w.logs
  journal : w'.journal = w.journal

variable {a b st st' : Storage} {w w' : World}

theorem TwinStorage.set (h : TwinStorage a b st st') (slot : Slot) (value : Word) :
    TwinStorage a b (st.set slot value) (st'.set slot value) := by
  constructor
  · intro other hother
    by_cases heq : other = slot
    · rw [heq, Storage.set_self, Storage.set_self]
    · rw [Storage.set_of_ne heq, Storage.set_of_ne heq, h.same other hother]
  · intro other hother
    by_cases heq : other = slot
    · rw [heq, Storage.set_self, Storage.set_self]
      exact .inr rfl
    · rw [Storage.set_of_ne heq, Storage.set_of_ne heq]
      exact h.halts other hother

theorem TwinStorage.loadAmount (h : TwinStorage a b st st') {slot : Slot}
    (hslot : ¬ slot.IsHalt) : Settle.loadAmount st' slot = Settle.loadAmount st slot := by
  rw [Settle.loadAmount, h.same slot hslot, Settle.loadAmount]

theorem TwinStorage.storeAmount (h : TwinStorage a b st st') (slot : Slot) (amount : ℕ) :
    Related (TwinStorage a b) (Settle.storeAmount st slot amount)
      (Settle.storeAmount st' slot amount) := by
  unfold Settle.storeAmount
  apply Related.bind_same
  intro word _
  exact .ok (h.set slot word)

theorem TwinStorage.loadMarket (h : TwinStorage a b st st') (poolID : Word) :
    Settle.loadMarket st' poolID = Settle.loadMarket st poolID := by
  apply loadMarket_congr
  intro field
  have hslot : ¬ (Slot.market poolID field).IsHalt := fun hc => hc
  exact h.same _ hslot

theorem TwinStorage.storeMarket (h : TwinStorage a b st st') (poolID : Word)
    (rec' : MarketRecord) :
    Related (TwinStorage a b) (Settle.storeMarket st poolID rec')
      (Settle.storeMarket st' poolID rec') := by
  unfold Settle.storeMarket
  apply Related.bind_same
  intro price _
  exact .ok (((((h.set _ _).set _ _).set _ _).set _ _).set _ _)

theorem TwinStorage.loadRestingOrder (h : TwinStorage a b st st') (orderID : Word) :
    Settle.loadRestingOrder st' orderID = Settle.loadRestingOrder st orderID := by
  apply loadRestingOrder_congr
  intro field
  have hslot : ¬ (Slot.order orderID field).IsHalt := fun hc => hc
  exact h.same _ hslot

theorem TwinStorage.storeRestingOrder (h : TwinStorage a b st st') (orderID : Word)
    (o : RestingOrder) :
    Related (TwinStorage a b) (Settle.storeRestingOrder st orderID o)
      (Settle.storeRestingOrder st' orderID o) := by
  unfold Settle.storeRestingOrder
  apply ((((h.set _ _).set _ _).set _ _).set _ _).storeAmount _ _ |>.bind
  intro st1 st1' _ h1
  exact .ok (h1.set _ _)

theorem TwinStorage.writeRecord (h : TwinStorage a b st st') (slotAt : UInt64 → Slot)
    (bytes : List UInt8) :
    TwinStorage a b (Settle.writeRecord slotAt st bytes)
      (Settle.writeRecord slotAt st' bytes) := by
  unfold Settle.writeRecord
  have h0 := h.set (slotAt 0) (BitVec.ofNat 256 (UInt64.ofNat bytes.length).toNat)
  generalize st.set (slotAt 0) _ = s at h0 ⊢
  generalize st'.set (slotAt 0) _ = s' at h0 ⊢
  induction List.range (wordCount bytes.length) generalizing s s' with
  | nil => exact h0
  | cons i rest ih => exact ih _ _ (h0.set _ _)

theorem TwinStorage.stageAtomic (h : TwinStorage a b st st') (kind : StageKind)
    (record : List UInt8) :
    TwinStorage a b (Settle.stageAtomic st kind record) (Settle.stageAtomic st' kind record) := by
  have hslot : ¬ Slot.stageSeq.IsHalt := fun hc => hc
  unfold Settle.stageAtomic stageSeq setStageSeq
  rw [h.same _ hslot]
  exact ((h.writeRecord _ record).set _ _).set _ _

theorem Twin.withStorage (h : Twin a b w w') (hst : TwinStorage a b st st') :
    Twin a b (w.withStorage st) (w'.withStorage st') :=
  ⟨hst, h.bank, h.logs, h.journal⟩

theorem Twin.emit (h : Twin a b w w') (topics : List Word) (data : List UInt8) :
    Twin a b (w.emit topics data) (w'.emit topics data) :=
  ⟨h.storage, h.bank, congrArg (List.cons _) h.logs, h.journal⟩

theorem Twin.record (h : Twin a b w w') (e : Entry) : Twin a b (w.record e) (w'.record e) :=
  ⟨h.storage, h.bank, h.logs, congrArg (List.cons e) h.journal⟩

theorem Twin.withBank (h : Twin a b w w') (bank : Bank) :
    Twin a b { w with bank := bank } { w' with bank := bank } :=
  ⟨h.storage, rfl, h.logs, h.journal⟩

theorem Twin.guard (h : Twin a b w w') :
    w'.storage .custodyGuard = w.storage .custodyGuard := by
  have hslot : ¬ Slot.custodyGuard.IsHalt := fun hc => hc
  exact h.storage.same _ hslot

/-- Twin worlds with equal values. -/
def TwinWith (a b : Storage) {α : Type} (p q : World × α) : Prop :=
  Twin a b p.1 q.1 ∧ q.2 = p.2

/-! ## Token code -/

/-- Token code that acts alike in twins, whatever the switches hold. -/
def Environment.HaltBlind (env : Environment) : Prop :=
  ∀ depth token (w w' : World), (∀ slot : Slot, ¬ slot.IsHalt → w'.storage slot = w.storage slot) →
    w'.bank = w.bank → w'.logs = w.logs → w'.journal = w.journal →
    env.reactions depth token w' = env.reactions depth token w

theorem Twin.deliverValue (h : Twin a b w w') (caller : Address) (value : ℕ) :
    (Settle.deliverValue w caller value = none ∧ Settle.deliverValue w' caller value = none) ∨
      ∃ v v', Settle.deliverValue w caller value = some v ∧
        Settle.deliverValue w' caller value = some v' ∧ Twin a b v v' := by
  unfold Settle.deliverValue
  split_ifs with hself
  · exact .inl ⟨rfl, rfl⟩
  · rw [h.bank]
    cases w.bank.transfer native caller vaultAddr value with
    | none => exact .inl ⟨rfl, rfl⟩
    | some bank => exact .inr ⟨_, _, rfl, rfl, h.withBank bank⟩

/-- Calls that both fail, or both succeed and leave twins. -/
def Alike (a b : Storage) (x y : Except Error (World × Reply)) : Prop :=
  ((∃ e, x = .error e) ∧ ∃ e, y = .error e) ∨
    ∃ p q, x = .ok p ∧ y = .ok q ∧ Twin a b p.1 q.1

theorem Alike.of_related {x y : Except Error (World × Reply)}
    (h : Related (TwinWith a b) x y) : Alike a b x y := by
  cases h with
  | ok h => exact .inr ⟨_, _, rfl, rfl, h.1⟩
  | error e => exact .inl ⟨⟨e, rfl⟩, e, rfl⟩

theorem Alike.ite {c : Prop} [Decidable c] {x y x' y' : Except Error (World × Reply)}
    (hx : Alike a b x x') (hy : Alike a b y y') :
    Alike a b (if c then x else y) (if c then x' else y') := by
  split_ifs
  · exact hx
  · exact hy

theorem error_of_behind {fr : Frame} {selector : ℕ} {data : List UInt8}
    {x : Except Error (World × Reply)} (hguard : w.storage .custodyGuard ≠ 0)
    (h : ∀ w1 reply, x = .ok (w1, reply) → Behind fr selector data w w1) :
    ∃ e, x = .error e := by
  cases x with
  | error e => exact ⟨e, rfl⟩
  | ok result => exact absurd (h _ _ rfl).1 hguard

theorem Alike.of_behind {fr : Frame} {selector : ℕ} {data : List UInt8}
    {x y : Except Error (World × Reply)} (hguard : w.storage .custodyGuard ≠ 0)
    (hguard' : w'.storage .custodyGuard ≠ 0)
    (hx : ∀ w1 reply, x = .ok (w1, reply) → Behind fr selector data w w1)
    (hy : ∀ w1 reply, y = .ok (w1, reply) → Behind fr selector data w' w1) :
    Alike a b x y :=
  .inl ⟨error_of_behind hguard hx, error_of_behind hguard' hy⟩

section Nested

variable {fr : Frame} {data : List UInt8} {gas : ℕ} {readOnly : Bool}

theorem Twin.runSettleInitialize (h : Twin a b w w') :
    Related (TwinWith a b) (Settle.runSettleInitialize fr w data gas readOnly)
      (Settle.runSettleInitialize fr w' data gas readOnly) := by
  unfold Settle.runSettleInitialize
  refine .refuse _ (.bind_same _ fun gasLeft _ => .refuse _ (.bind_same _ fun key _ => ?_))
  refine .bind_same _ fun _ _ => ?_
  dsimp only
  rw [h.storage.loadMarket]
  refine .refuse _ ?_
  cases getTickAtSqrtRatio (argWord data 160).toNat with
  | none => exact .error _
  | some tick =>
      refine .bind_same _ fun _ _ => ?_
      refine (h.storage.storeMarket _ _).bind fun st st' _ hst => ?_
      exact .ok ⟨((h.withStorage hst).emit _ _).record _, rfl⟩

theorem Twin.applyHalt (h : Twin a b w w') (slot : Slot) (on : Bool) :
    Twin a b (Settle.applyHalt fr w slot on) (Settle.applyHalt fr w' slot on) :=
  (h.withStorage (h.storage.set slot _)).record _

theorem Twin.runSetHaltGlobal (h : Twin a b w w') :
    Related (TwinWith a b) (Settle.runSetHaltGlobal fr w data gas readOnly)
      (Settle.runSetHaltGlobal fr w' data gas readOnly) := by
  unfold Settle.runSetHaltGlobal
  refine .refuse _ (.bind_same _ fun gasLeft _ => .bind_same _ fun _ _ => .refuse _ ?_)
  exact .ok ⟨h.applyHalt _ _, rfl⟩

theorem Twin.runSetHaltScoped (h : Twin a b w w') (scope : Word → Slot) :
    Related (TwinWith a b) (Settle.runSetHaltScoped scope fr w data gas readOnly)
      (Settle.runSetHaltScoped scope fr w' data gas readOnly) := by
  unfold Settle.runSetHaltScoped
  refine .refuse _ (.bind_same _ fun gasLeft _ => .bind_same _ fun _ _ => .refuse _ ?_)
  exact .ok ⟨h.applyHalt _ _, rfl⟩

/-- A view that changes nothing, with a reply of its own in each world. -/
def TwinOnly (a b : Storage) (p q : World × Reply) : Prop := Twin a b p.1 q.1

theorem Alike.of_twinOnly {x y : Except Error (World × Reply)}
    (h : Related (TwinOnly a b) x y) : Alike a b x y := by
  cases h with
  | ok h => exact .inr ⟨_, _, rfl, rfl, h⟩
  | error e => exact .inl ⟨⟨e, rfl⟩, e, rfl⟩

theorem Twin.runSettleBalanceOf (h : Twin a b w w') :
    Related (TwinOnly a b) (Settle.runSettleBalanceOf w data gas)
      (Settle.runSettleBalanceOf w' data gas) := by
  unfold Settle.runSettleBalanceOf
  exact .bind_same _ fun gasLeft _ => .refuse _ (.ok h)

theorem Twin.runSettleExtsload (h : Twin a b w w') :
    Related (TwinOnly a b) (Settle.runSettleExtsload fr w data gas)
      (Settle.runSettleExtsload fr w' data gas) := by
  unfold Settle.runSettleExtsload
  exact .bind_same _ fun gasLeft _ => .refuse _ (.ok h)

theorem Twin.runSettleExtsloadArray (h : Twin a b w w') :
    Related (TwinOnly a b) (Settle.runSettleExtsloadArray fr w data gas)
      (Settle.runSettleExtsloadArray fr w' data gas) := by
  unfold Settle.runSettleExtsloadArray
  refine .refuse _ (.refuse _ (.refuse _ (.refuse _ ?_)))
  exact .bind_same _ fun gasLeft _ => .ok h

/-- Behind the guard every call goes alike in twins. -/
theorem Twin.dispatch (h : Twin a b w w') (hguard : w.storage .custodyGuard ≠ 0)
    (selector : ℕ) :
    Alike a b (Settle.dispatch fr w selector data gas readOnly)
      (Settle.dispatch fr w' selector data gas readOnly) := by
  have hguard' : w'.storage .custodyGuard ≠ 0 := by rwa [h.guard]
  unfold Settle.dispatch
  refine .ite ?_ <| .ite ?_ <| .ite ?_ <| .ite ?_ <| .ite ?_ <| .ite ?_ <| .ite ?_ <|
    .ite ?_ <| .ite ?_ <| .ite ?_ <| .ite ?_ <| .ite ?_ <| .ite ?_ <| .ite ?_ ?_
  · exact .of_behind hguard hguard' (fun _ _ => settleSwap_ok) fun _ _ => settleSwap_ok
  · exact .of_related h.runSettleInitialize
  · exact .of_behind hguard hguard' (fun _ _ => runSettleModifyLiquidity_ok)
      fun _ _ => runSettleModifyLiquidity_ok
  · exact .of_behind hguard hguard' (fun _ _ => runSettleCollectPosition_ok)
      fun _ _ => runSettleCollectPosition_ok
  · unfold runSettleDonate
    exact .ite (.inl ⟨⟨_, rfl⟩, _, rfl⟩)
      (.ite (.inl ⟨⟨_, rfl⟩, _, rfl⟩) (.inl ⟨⟨_, rfl⟩, _, rfl⟩))
  · exact .of_twinOnly h.runSettleExtsload
  · exact .of_twinOnly h.runSettleExtsloadArray
  · exact .of_behind hguard hguard' (fun _ _ => runSettleDeposit_ok)
      fun _ _ => runSettleDeposit_ok
  · exact .of_behind hguard hguard' (fun _ _ => runSettleWithdraw_ok)
      fun _ _ => runSettleWithdraw_ok
  · exact .of_twinOnly h.runSettleBalanceOf
  · exact .of_related h.runSetHaltGlobal
  · exact .of_related (h.runSetHaltScoped _)
  · exact .of_related (h.runSetHaltScoped _)
  · exact .of_behind hguard hguard' (fun _ _ => runSeedSeamReserve_ok)
      fun _ _ => runSeedSeamReserve_ok
  · exact .inl ⟨⟨_, rfl⟩, _, rfl⟩

end Nested

section Reactions

variable {hashes : Hashes} {env : Environment}

theorem Twin.run (h : Twin a b w w') (hguard : w.storage .custodyGuard ≠ 0) (depth : ℕ)
    (r : Request) :
    Alike a b (Settle.run hashes env depth w r) (Settle.run hashes env depth w' r) := by
  cases depth with
  | zero => exact .inl ⟨⟨_, rfl⟩, _, rfl⟩
  | succ depth =>
      rw [run_succ, run_succ]
      refine .ite (.inl ⟨⟨_, rfl⟩, _, rfl⟩) ?_
      cases env.host.blockContext with
      | none => exact .inl ⟨⟨_, rfl⟩, _, rfl⟩
      | some blockNumber => exact .ite (.inl ⟨⟨_, rfl⟩, _, rfl⟩) (h.dispatch hguard _)

/-- What a token's code does next keeps twins, as long as the guard is held. -/
theorem Twin.interact (h : Twin a b w w') (hguard : w.storage .custodyGuard ≠ 0)
    (depth : ℕ) (i : Interaction) :
    Twin a b (Settle.interact (Settle.call hashes env depth) w i)
      (Settle.interact (Settle.call hashes env depth) w' i) := by
  cases i with
  | enter r =>
      simp only [Settle.interact, call_eq_deliver]
      obtain ⟨hnone, hnone'⟩ | ⟨v, v', hsome, hsome', hv⟩ := h.deliverValue r.caller r.value
      · rw [hnone, hnone']
        exact h
      · rw [hsome, hsome']
        have hguardV : v.storage .custodyGuard ≠ 0 := by
          obtain ⟨-, -, -, rfl⟩ := deliverValue_eq_some hsome
          exact hguard
        have halike : Alike a b (Settle.run hashes env depth v r)
            (Settle.run hashes env depth v' r) := hv.run hguardV depth r
        obtain ⟨⟨e, he⟩, e', he'⟩ | ⟨p, q, hp, hq, hpq⟩ := halike
        · simp only [he, he']
          exact h
        · simp only [hp, hq]
          exact hpq
  | credit asset owner amount =>
      simp only [Settle.interact, h.bank]
      split_ifs
      · exact h.withBank _
      · exact h
  | debit asset owner amount =>
      simp only [Settle.interact, h.bank]
      split_ifs
      · exact h
      · exact h.withBank _
  | log l =>
      simp only [Settle.interact]
      split_ifs
      · exact h
      · exact ⟨h.storage, h.bank, congrArg (List.cons l) h.logs, h.journal⟩

/-- A frame whose token code keeps twins. -/
def Frame.Blind (fr : Frame) : Prop :=
  ∀ (a b : Storage) token (w w' : World), Twin a b w w' → w.bank.Bounded →
    w.storage .custodyGuard ≠ 0 → Twin a b (fr.callback token w) (fr.callback token w')

theorem frameOf_blind (henv : env.HaltBlind) (depth : ℕ) (blockNumber : UInt64)
    (r : Request) : (frameOf hashes env depth blockNumber r).Blind := by
  intro a b token w w' h hb hguard
  show Twin a b
    ((env.reactions depth token w).foldl (Settle.interact (Settle.call hashes env depth)) w)
    ((env.reactions depth token w').foldl (Settle.interact (Settle.call hashes env depth)) w')
  rw [henv depth token w w' h.storage.same h.bank h.logs h.journal]
  generalize env.reactions depth token w = reactions
  induction reactions generalizing w w' with
  | nil => exact h
  | cons i rest ih =>
      have hout : Outside hashes env.host w
          (Settle.interact (Settle.call hashes env depth) w i) := interact_outside hb hguard i
      exact ih _ _ (h.interact hguard depth i) (hout.bounded hb) (by rwa [hout.guard])

end Reactions

/-! ## The exits -/

section Exits

variable {fr : Frame}

theorem Twin.moveNative (h : Twin a b w w') (sender recipient : Address) (amount : ℕ)
    (short : Error) :
    Related (Twin a b) (Settle.moveNative w sender recipient amount short)
      (Settle.moveNative w' sender recipient amount short) := by
  unfold Settle.moveNative
  rw [h.bank]
  refine .refuse _ ?_
  cases w.bank.transfer native sender recipient amount with
  | none => exact .error _
  | some bank => exact .ok (h.withBank bank)

theorem Twin.transferToken (h : Twin a b w w') (hblind : fr.Blind) (hfr : fr.Guarded)
    (hb : w.bank.Bounded) (hguard : w.storage .custodyGuard ≠ 0)
    (token sender recipient : Address) (amount : ℕ) :
    Related (Twin a b) (Settle.transferToken fr w token sender recipient amount)
      (Settle.transferToken fr w' token sender recipient amount) := by
  have hbefore := hblind a b token w w' h hb hguard
  have hout := hfr token w hb hguard
  unfold Settle.transferToken
  dsimp only
  by_cases hallowed : token ≠ native ∧ fr.host.tokenAllows token sender
  · rw [if_pos hallowed, if_pos hallowed, hbefore.bank]
    cases htransfer : (fr.callback token w).bank.transfer token sender recipient amount with
    | none => exact .error _
    | some bank =>
        obtain ⟨-, -, hbank⟩ := Bank.transfer_eq_some htransfer
        refine .ok (hblind a b token _ _ (hbefore.withBank bank) ?_ ?_)
        · show bank.Bounded
          rw [hbank]
          exact (hout.bounded hb).move _ _ _ _
        · show (fr.callback token w).storage .custodyGuard ≠ 0
          rwa [hout.guard]
  · rw [if_neg hallowed, if_neg hallowed]
    exact .error _

theorem Twin.creditAsset (h : Twin a b w w') (hblind : fr.Blind) (hfr : fr.Guarded)
    (hb : w.bank.Bounded) (hguard : w.storage .custodyGuard ≠ 0) (body : ClaimBody) :
    Related (Twin a b) (Settle.creditAsset fr w body) (Settle.creditAsset fr w' body) := by
  have hslot : ¬ (Slot.custody body.asset).IsHalt := fun hc => hc
  have hpot : Related (TwinStorage a b) (recordCustodyOut w.storage body.asset body.amount)
      (recordCustodyOut w'.storage body.asset body.amount) := by
    unfold recordCustodyOut loadCustody
    rw [h.storage.loadAmount hslot]
    exact .refuse _ (h.storage.storeAmount _ _)
  unfold Settle.creditAsset
  refine hpot.bind fun st st' hst htwin => ?_
  by_cases hnative : isNativeAsset body.asset
  · rw [if_pos hnative, if_pos hnative]
    exact (h.withStorage htwin).moveNative _ _ _ _
  · rw [if_neg hnative, if_neg hnative]
    refine (h.withStorage htwin).transferToken hblind hfr hb ?_ _ _ _ _
    simp only [recordCustodyOut, refuse_eq_ok] at hst
    rwa [World.withStorage_storage, storeAmount_of_ne hst.2 (by simp)]

theorem Twin.bindImportObject (h : Twin a b w w') (sourceChainID claimID : Word)
    (object : List UInt8) :
    Related (TwinWith a b) (Settle.bindImportObject fr w sourceChainID claimID object)
      (Settle.bindImportObject fr w' sourceChainID claimID object) := by
  unfold Settle.bindImportObject
  cases decodeClaim object with
  | none => exact .error _
  | some body => exact .refuse _ (.ok ⟨h.emit _ _, rfl⟩)

theorem bindImportObject_ok {sourceChainID claimID : Word} {object : List UInt8}
    {p : World × ClaimBody}
    (h : bindImportObject fr w sourceChainID claimID object = .ok p) :
    p.1.storage = w.storage ∧ p.1.bank = w.bank := by
  unfold bindImportObject at h
  cases hdecode : decodeClaim object with
  | none => simp [hdecode] at h
  | some body =>
      simp only [hdecode, refuse_eq_ok, Except.ok.injEq] at h
      rw [← h.2]
      exact ⟨rfl, rfl⟩

theorem Twin.importClaim (h : Twin a b w w') (hblind : fr.Blind) (hfr : fr.Guarded)
    (hb : w.bank.Bounded) (hguard : w.storage .custodyGuard ≠ 0) (atomic : Atomic)
    (claim : Claim) :
    Related (TwinWith a b) (Settle.importClaim fr atomic w claim)
      (Settle.importClaim fr atomic w' claim) := by
  unfold Settle.importClaim
  refine .refuse _ (.refuse _ ((h.bindImportObject _ _ _).bind ?_))
  rintro ⟨w1, body⟩ ⟨w1', body'⟩ hbound ⟨h1, hbody⟩
  obtain ⟨hst, hbank⟩ := bindImportObject_ok hbound
  dsimp only at h1 hbody hst hbank ⊢
  subst hbody
  have hslot : ¬ (Slot.claimConsumed claim.id).IsHalt := fun hc => hc
  have hstage : ¬ Slot.custodyGuard.IsStage := fun hc => hc
  have hconsumed : isClaimConsumed w1'.storage claim.id = isClaimConsumed w1.storage claim.id := by
    rw [isClaimConsumed, h1.storage.same _ hslot, isClaimConsumed]
  rw [hconsumed]
  refine .refuse _ (.refuse _ (.refuse _ ?_))
  have hmarked : TwinStorage a b
      (stageAtomicRemove (markClaimConsumed w1.storage claim.id fr.blockNumber)
        atomic.dChainID claim.id)
      (stageAtomicRemove (markClaimConsumed w1'.storage claim.id fr.blockNumber)
        atomic.dChainID claim.id) :=
    (h1.storage.set _ _).stageAtomic _ _
  refine (((h1.withStorage hmarked).record _).creditAsset hblind hfr ?_ ?_ body').bind ?_
  · rw [World.record_bank, World.withStorage_bank, hbank]
    exact hb
  · rw [World.record_storage, World.withStorage_storage, stageAtomicRemove,
      stageAtomic_of_not_stage _ _ _ hstage, markClaimConsumed, Storage.set_of_ne (by simp),
      hst]
    exact hguard
  · intro w2 w2' _ h2
    exact .ok ⟨h2, rfl⟩

theorem Twin.collectPositionRecord (h : TwinStorage a b st st') (positionID : Word)
    (owner : Address) (amount : UInt64) :
    Related (TwinStorage a b) (Settle.collectPositionRecord st positionID owner amount)
      (Settle.collectPositionRecord st' positionID owner amount) := by
  unfold Settle.collectPositionRecord
  rw [h.loadRestingOrder]
  generalize Settle.loadRestingOrder st positionID = order
  dsimp only
  split_ifs
  · exact .ok h
  · exact .error _
  all_goals
    refine (h.storeRestingOrder _ _).bind fun s s' _ hs => ?_
    have hslot : ¬ (Slot.lockedReserve order.owner order.lockedAsset).IsHalt := fun hc => hc
    unfold loadLockedReserve
    rw [hs.loadAmount hslot]
    exact hs.storeAmount _ _

theorem Twin.payWithdrawal (h : Twin a b w w') (hblind : fr.Blind) (hfr : fr.Guarded)
    (hb : w.bank.Bounded) (hguard : w.storage .custodyGuard ≠ 0) (token : Address)
    (amount : ℕ) :
    Related (Twin a b) (Settle.payWithdrawal fr w token amount)
      (Settle.payWithdrawal fr w' token amount) := by
  unfold Settle.payWithdrawal
  split_ifs
  · exact h.moveNative _ _ _ _
  · exact h.transferToken hblind hfr hb hguard _ _ _ _

/-- The guard around related bodies. -/
theorem Twin.guarded (h : Twin a b w w') {body body' : World → Except Error (World × Reply)}
    (hbody : Twin a b w.enter w'.enter →
      Related (TwinWith a b) (body w.enter) (body' w'.enter)) :
    Related (TwinWith a b) (Settle.guarded w body) (Settle.guarded w' body') := by
  unfold Settle.guarded enterCustody
  rw [h.guard]
  by_cases hfree : w.storage .custodyGuard = 0
  · rw [if_neg (not_not.mpr hfree), if_neg (not_not.mpr hfree)]
    have henter : Twin a b w.enter w'.enter := h.withStorage (h.storage.set _ _)
    refine (hbody henter).bind ?_
    rintro ⟨w1, reply⟩ ⟨w1', reply'⟩ _ ⟨h1, hreply⟩
    exact .ok ⟨h1.withStorage (h1.storage.set _ _), hreply⟩
  · rw [if_pos hfree, if_pos hfree]
    exact .error _

variable {data : List UInt8} {gas : ℕ} {readOnly : Bool}

theorem Twin.runSettleCollectPosition (h : Twin a b w w') (hblind : fr.Blind)
    (hfr : fr.Guarded) (hb : w.bank.Bounded) :
    Related (TwinWith a b) (Settle.runSettleCollectPosition fr w data gas readOnly)
      (Settle.runSettleCollectPosition fr w' data gas readOnly) := by
  unfold Settle.runSettleCollectPosition
  refine .refuse _ (.bind_same _ fun gasLeft _ => ?_)
  cases atomicMemory fr.host with
  | none => exact .error _
  | some atomic =>
      refine .refuse _ (h.guarded fun henter => ?_)
      refine (henter.importClaim hblind hfr hb (enter_guard w) atomic _).bind ?_
      rintro ⟨w1, credited⟩ ⟨w1', credited'⟩ _ ⟨h1, hcredited⟩
      dsimp only at h1 hcredited ⊢
      subst hcredited
      refine (Twin.collectPositionRecord h1.storage _ _ _).bind fun s s' _ hs => ?_
      exact .ok ⟨(h1.withStorage hs).record _, rfl⟩

theorem Twin.requestPositionWithdraw (h : Twin a b w w') (orderID : Word) (gasLeft : ℕ) :
    Related (TwinWith a b) (Settle.requestPositionWithdraw fr orderID gasLeft w)
      (Settle.requestPositionWithdraw fr orderID gasLeft w') := by
  unfold Settle.requestPositionWithdraw
  rw [h.storage.loadRestingOrder]
  refine .refuse _ (.refuse _ (.refuse _ ?_))
  refine (h.storage.storeRestingOrder _ _).bind fun s s' _ hs => ?_
  exact .ok ⟨((h.withStorage hs).emit _ _).record _, rfl⟩

/-- `modifyLiquidity` with a delta that adds nothing. -/
theorem Twin.runSettleModifyLiquidity (h : Twin a b w w')
    (hrequest : ∀ key params hookData,
      decodeModifyLiquidityInput data = .ok (key, params, hookData) →
        ¬ 0 < params.liquidityDelta) :
    Related (TwinWith a b) (Settle.runSettleModifyLiquidity fr w data gas readOnly)
      (Settle.runSettleModifyLiquidity fr w' data gas readOnly) := by
  unfold Settle.runSettleModifyLiquidity
  refine .refuse _ (.bind_same _ fun gasLeft _ => .bind_same _ ?_)
  rintro ⟨key, params, hookData⟩ hdecode
  refine .bind_same _ fun _ _ => ?_
  cases atomicMemory fr.host with
  | none => exact .error _
  | some atomic =>
      have hmarket : marketFor fr.hashes w'.storage key = marketFor fr.hashes w.storage key := by
        simp only [marketFor, h.storage.loadMarket]
      dsimp only
      rw [hmarket]
      cases marketFor fr.hashes w.storage key with
      | none => exact .error _
      | some poolID =>
          refine h.guarded fun henter => ?_
          rw [if_neg (hrequest key params hookData hdecode),
            if_neg (hrequest key params hookData hdecode)]
          exact henter.requestPositionWithdraw _ _

theorem Twin.runSettleWithdraw (h : Twin a b w w') (hblind : fr.Blind) (hfr : fr.Guarded)
    (hb : w.bank.Bounded) :
    Related (TwinWith a b) (Settle.runSettleWithdraw fr w data gas readOnly)
      (Settle.runSettleWithdraw fr w' data gas readOnly) := by
  unfold Settle.runSettleWithdraw
  refine .refuse _ (.bind_same _ fun gasLeft _ => .refuse _ (h.guarded fun henter => ?_))
  have hclaim : ¬ (Slot.depositorClaim fr.caller (assetID (argAddress data 0))).IsHalt :=
    fun hc => hc
  have hvault : ¬ (Slot.settleVault (assetID (argAddress data 0))).IsHalt := fun hc => hc
  unfold loadDepositorClaim loadSettleVault
  rw [henter.storage.loadAmount hclaim, henter.storage.loadAmount hvault]
  dsimp only
  split_ifs
  · exact .ok ⟨henter, rfl⟩
  · refine (henter.storage.storeAmount _ _).bind fun s s' hs htwin => ?_
    refine (htwin.storeAmount _ _).bind fun t t' ht htwin' => ?_
    have hguard : (w.enter.withStorage t).storage .custodyGuard ≠ 0 := by
      rw [World.withStorage_storage, storeAmount_of_ne ht (by simp),
        storeAmount_of_ne hs (by simp)]
      exact enter_guard w
    refine ((henter.withStorage htwin').payWithdrawal hblind hfr hb hguard _ _).bind ?_
    intro w1 w1' _ h1
    exact .ok ⟨h1, rfl⟩

end Exits

/-- A call that takes value out or asks for it: `withdraw`, `collectPosition`, or
`modifyLiquidity` with a delta that adds nothing. -/
def Request.IsExit (r : Request) : Prop :=
  selectorOf r.input = selWithdraw ∨ selectorOf r.input = selCollectPosition ∨
    selectorOf r.input = selModifyLiquidity ∧
      ∀ key params hookData,
        decodeModifyLiquidityInput (r.input.drop 4) = .ok (key, params, hookData) →
          ¬ 0 < params.liquidityDelta

section Calls

variable {hashes : Hashes} {env : Environment}

theorem Twin.exit_run (h : Twin a b w w') (henv : env.HaltBlind) (hb : w.bank.Bounded)
    (depth : ℕ) {r : Request} (hexit : r.IsExit) :
    Related (TwinWith a b) (Settle.run hashes env depth w r)
      (Settle.run hashes env depth w' r) := by
  cases depth with
  | zero => exact .error _
  | succ depth =>
      rw [run_succ, run_succ]
      refine .refuse _ ?_
      cases env.host.blockContext with
      | none => exact .error _
      | some blockNumber =>
          refine .refuse _ ?_
          have hblind : (frameOf hashes env depth blockNumber r).Blind := frameOf_blind henv _ _ _
          have hfr := frameOf_guarded hashes env depth blockNumber r
          obtain hsel | hsel | ⟨hsel, hrequest⟩ := hexit
          · rw [hsel, dispatch_withdraw, dispatch_withdraw]
            exact h.runSettleWithdraw hblind hfr hb
          · rw [hsel, dispatch_collectPosition, dispatch_collectPosition]
            exact h.runSettleCollectPosition hblind hfr hb
          · rw [hsel, dispatch_modifyLiquidity, dispatch_modifyLiquidity]
            exact h.runSettleModifyLiquidity hrequest

theorem Twin.exit_call (h : Twin a b w w') (henv : env.HaltBlind) (hb : w.bank.Bounded)
    (depth : ℕ) {r : Request} (hexit : r.IsExit) :
    Related (TwinWith a b) (call hashes env depth w r) (call hashes env depth w' r) := by
  rw [call_eq_deliver, call_eq_deliver]
  obtain ⟨hnone, hnone'⟩ | ⟨v, v', hsome, hsome', hv⟩ := h.deliverValue r.caller r.value
  · rw [hnone, hnone']
    exact .error _
  · rw [hsome, hsome']
    have hbounded : v.bank.Bounded := by
      obtain ⟨-, -, -, rfl⟩ := deliverValue_eq_some hsome
      exact hb.move _ _ _ _
    exact hv.exit_run henv hbounded depth hexit

end Calls

end LuxPrecompile.Settle
