import LuxPrecompile.Settle.HaltBlind

/-!
# Halt gating

What the halt switches stop, who can set them, and what they leave alone.  Both
phases of a swap run the three-layer check; a position commit crosses to the D-Chain
through the same export but tests the locked asset only, so the global and the market
switch do not stop it.
-/

namespace LuxPrecompile.Settle

open Dex Evm Support

variable {hashes : Hashes} {host : Host}

/-! ## The switches over a run -/

/-- The word of a switch after some entries, the latest first. -/
def haltWord (st : Storage) : List Entry → Slot → Word
  | [], slot => st slot
  | .haltSet _ switch on :: rest, slot =>
      if slot = switch then (if on then flagSet else 0) else haltWord st rest slot
  | _ :: rest, slot => haltWord st rest slot

theorem haltWord_cons_of_not_admin (st : Storage) {e : Entry} (he : ¬ e.IsAdmin)
    (rest : List Entry) (slot : Slot) : haltWord st (e :: rest) slot = haltWord st rest slot := by
  cases e <;> first | rfl | exact absurd trivial he

theorem haltWord_append_of_not_admin (st : Storage) {added : List Entry}
    (hadded : ∀ e ∈ added, ¬ e.IsAdmin) (rest : List Entry) (slot : Slot) :
    haltWord st (added ++ rest) slot = haltWord st rest slot := by
  induction added with
  | nil => rfl
  | cons e added ih =>
      rw [List.cons_append, haltWord_cons_of_not_admin st (hadded e List.mem_cons_self),
        ih fun e' he' => hadded e' (List.mem_cons_of_mem e he')]

/-- Only the network's controller sets switches, and a switch holds what it was set
to last. -/
structure HaltsGoverned (host : Host) (w w' : World) (added : List Entry) : Prop where
  journal : w'.journal = added ++ w.journal
  governed : ∀ caller slot on, Entry.haltSet caller slot on ∈ added →
    caller ≠ 0 ∧ governanceController host = .ok caller
  word : ∀ slot : Slot, slot.IsHalt → w'.storage slot = haltWord w.storage added slot

theorem governanceController_ne_zero {caller : Address}
    (h : governanceController host = .ok caller) : caller ≠ 0 := by
  unfold governanceController at h
  cases hatomic : host.atomic with
  | none => simp [hatomic] at h
  | some atomic =>
      simp only [hatomic, refuse_eq_ok, Except.ok.injEq] at h
      rw [← h.2]
      exact h.1

theorem Slot.IsHalt.isAdmin {slot : Slot} (h : slot.IsHalt) : slot.IsAdmin := by
  cases slot <;> first | exact h | exact trivial

theorem Primitive.halts {w w1 w' : World} {added : List Entry}
    (hprimitive : Primitive hashes host w1 w') (h : HaltsGoverned host w w1 added) :
    ∃ added', HaltsGoverned host w w' added' := by
  cases hprimitive with
  | admin hadmin =>
      cases hadmin with
      | @register st key price tick creator hcheck hnew htick hstore =>
          refine ⟨Entry.registered (key.id hashes) key (newMarket key price tick creator) ::
            added, ?_, ?_, ?_⟩
          · exact congrArg (List.cons _) h.journal
          · intro caller slot on hmem
            exact h.governed caller slot on (by simpa using hmem)
          · intro slot hslot
            show st slot = haltWord w.storage added slot
            rw [← h.word slot hslot]
            apply storeMarket_of_not_market hstore
            intro hmarket
            cases slot <;> first | exact hslot | exact hmarket
      | @halt switch on caller hswitch hgov =>
          refine ⟨Entry.haltSet caller switch on :: added, ?_, ?_, ?_⟩
          · exact congrArg (List.cons _) h.journal
          · intro caller' slot' on' hmem
            obtain heq | hmem := List.mem_cons.mp hmem
            · obtain ⟨rfl, -, -⟩ := Entry.haltSet.inj heq
              exact ⟨governanceController_ne_zero hgov, hgov⟩
            · exact h.governed caller' slot' on' hmem
          · intro slot hslot
            show (w1.storage.set switch (if on then flagSet else 0)) slot =
              if slot = switch then (if on then flagSet else 0) else haltWord w.storage added slot
            by_cases heq : slot = switch
            · rw [if_pos heq, heq, Storage.set_self]
            · rw [if_neg heq, Storage.set_of_ne heq, h.word slot hslot]
  | inner hinner =>
      obtain ⟨new, hnew, hjournal⟩ := hinner.journal
      refine ⟨new ++ added, ?_, ?_, ?_⟩
      · rw [hjournal, h.journal, List.append_assoc]
      · intro caller slot on hmem
        obtain hmem | hmem := List.mem_append.mp hmem
        · exact absurd trivial (hnew _ hmem)
        · exact h.governed caller slot on hmem
      · intro slot hslot
        rw [hinner.storage slot hslot.isAdmin, h.word slot hslot,
          haltWord_append_of_not_admin _ hnew]

theorem Trace.halts {w w' : World} (h : Trace hashes host w w') :
    ∃ added, HaltsGoverned host w w' added := by
  induction h with
  | refl => exact ⟨[], rfl, by simp, fun _ _ => rfl⟩
  | tail _ hstep ih =>
      obtain ⟨added, hgoverned⟩ := ih
      exact hstep.halts hgoverned

/-! ## Gated calls -/

/-- The call is a swap on a key, in either phase. -/
def Request.Swaps (r : Request) (key : PoolKey) (params : SwapParams) : Prop :=
  selectorOf r.input = selSwap ∧
    ∃ hookData, decodeSwapInput (r.input.drop 4) = .ok (key, params, hookData)

/-- The call is a position commit on a key, resting a side. -/
def Request.Commits (r : Request) (key : PoolKey) (side : MakerSide) : Prop :=
  selectorOf r.input = selModifyLiquidity ∧
    ∃ params hookData, decodeModifyLiquidityInput (r.input.drop 4) =
        .ok (key, params, hookData) ∧ 0 < params.liquidityDelta ∧
      side = decodeMakerSide hookData

/-- A crossing to the D-Chain. -/
def Entry.isExport : Entry → Bool
  | .exported _ _ _ => true
  | _ => false

theorem checkHalt_ok {st : Storage} {poolID assetIn assetOut : Word}
    (h : checkHalt st poolID assetIn assetOut = .ok ()) :
    st .haltGlobal = 0 ∧ st (.haltMarket poolID) = 0 ∧ st (.haltAsset assetIn) = 0 ∧
      st (.haltAsset assetOut) = 0 := by
  simp only [checkHalt, refuse_eq_ok] at h
  obtain ⟨hglobal, hmarket, hasset, -⟩ := h
  simp only [Bool.or_eq_true, isHalted_iff, not_or, not_not] at hglobal hmarket hasset
  exact ⟨hglobal, hmarket, hasset.1, hasset.2⟩

section Gates

variable {fr : Frame} {data : List UInt8} {w w' : World}

/-- A swap that went through found no switch set. -/
theorem Operation.swap_unhalted (h : Operation fr selSwap data w w') {key : PoolKey}
    {params : SwapParams} {hookData : List UInt8}
    (hdecode : decodeSwapInput data = .ok (key, params, hookData)) :
    w.storage .haltGlobal = 0 ∧ w.storage (.haltMarket (key.id fr.hashes)) = 0 ∧
      w.storage (.haltAsset (swapAssetDirection key params).1) = 0 ∧
      w.storage (.haltAsset (swapAssetDirection key params).2) = 0 := by
  have hgate : ∀ {key' : PoolKey} {params' : SwapParams} {hookData' : List UInt8}
      {poolID : Word}, decodeSwapInput data = .ok (key', params', hookData') →
      marketFor fr.hashes w.storage key' = some poolID →
      checkHalt w.enter.storage poolID (swapAssetDirection key' params').1
        (swapAssetDirection key' params').2 = .ok () →
      w.storage .haltGlobal = 0 ∧ w.storage (.haltMarket (key.id fr.hashes)) = 0 ∧
        w.storage (.haltAsset (swapAssetDirection key params).1) = 0 ∧
        w.storage (.haltAsset (swapAssetDirection key params).2) = 0 := by
    intro key' params' hookData' poolID hdecode' hmarket hhalt
    rw [hdecode] at hdecode'
    simp only [Except.ok.injEq, Prod.mk.injEq] at hdecode'
    obtain ⟨rfl, rfl, -⟩ := hdecode'
    obtain ⟨rfl, -⟩ := marketFor_eq_some hmarket
    have h := checkHalt_ok hhalt
    rwa [enter_storage_of_ne w (by simp), enter_storage_of_ne w (by simp),
      enter_storage_of_ne w (by simp), enter_storage_of_ne w (by simp)] at h
  cases h with
  | exportSwap _ hdecode' _ hmarket hhalt _ _ => exact hgate hdecode' hmarket hhalt
  | importSwap _ hdecode' _ hmarket hhalt _ _ _ => exact hgate hdecode' hmarket hhalt
  | commit hselector => exact absurd hselector (by decide)
  | request hselector => exact absurd hselector (by decide)
  | collect hselector => exact absurd hselector (by decide)
  | depositNative hselector => exact absurd hselector (by decide)
  | depositToken hselector => exact absurd hselector (by decide)
  | withdrawNothing hselector => exact absurd hselector (by decide)
  | withdraw hselector => exact absurd hselector (by decide)
  | seed hselector => exact absurd hselector (by decide)

/-- A commit that went through found the switch of its asset unset. -/
theorem Operation.commit_unhalted (h : Operation fr selModifyLiquidity data w w')
    {key : PoolKey} {params : ModifyLiquidityParams} {hookData : List UInt8}
    (hdecode : decodeModifyLiquidityInput data = .ok (key, params, hookData))
    (hpositive : 0 < params.liquidityDelta) :
    w.storage (.haltAsset (lockedAssetForSide key (decodeMakerSide hookData))) = 0 := by
  cases h with
  | exportSwap hselector => exact absurd hselector (by decide)
  | importSwap hselector => exact absurd hselector (by decide)
  | commit _ hdecode' _ _ _ _ hcommit =>
      rw [hdecode] at hdecode'
      simp only [Except.ok.injEq, Prod.mk.injEq] at hdecode'
      obtain ⟨rfl, rfl, rfl⟩ := hdecode'
      obtain ⟨claimID, st, w1, hcommitted⟩ := commitPosition_ok hcommit
      have hunhalted := hcommitted.unhalted
      rwa [enter_storage_of_ne w (by simp)] at hunhalted
  | request _ hdecode' _ _ hnegative _ =>
      rw [hdecode] at hdecode'
      simp only [Except.ok.injEq, Prod.mk.injEq] at hdecode'
      obtain ⟨-, rfl, -⟩ := hdecode'
      exact absurd hpositive hnegative
  | collect hselector => exact absurd hselector (by decide)
  | depositNative hselector => exact absurd hselector (by decide)
  | depositToken hselector => exact absurd hselector (by decide)
  | withdrawNothing hselector => exact absurd hselector (by decide)
  | withdraw hselector => exact absurd hselector (by decide)
  | seed hselector => exact absurd hselector (by decide)

theorem Outside.exports {fr : Frame} (h : Outside fr.hashes fr.host w w') :
    w'.journal.filter Entry.isExport = w.journal.filter Entry.isExport := by
  apply h.filter_journal
  intro e he
  cases e <;> first | rfl | exact absurd he (fun hc => hc)

theorem Imported.exports (hfr : fr.Guarded) (hb : w.bank.Bounded)
    (hguard : w.storage .custodyGuard ≠ 0) {atomic : Atomic} {claim : Claim}
    {body : ClaimBody} (h : Imported fr atomic claim body w w') :
    w'.journal.filter Entry.isExport = w.journal.filter Entry.isExport := by
  obtain ⟨-, hmove⟩ | ⟨-, hout⟩ := h.cases hfr hb hguard
  · obtain ⟨-, -, rfl⟩ := moveNative_ok hmove
    rfl
  · rw [hout.exports]
    rfl

/-- Only swaps and commits cross to the D-Chain. -/
theorem Operation.exports {selector : ℕ} (hfr : fr.Guarded) (hb : w.bank.Bounded)
    (h : Operation fr selector data w w') :
    w'.journal.filter Entry.isExport = w.journal.filter Entry.isExport ∨
      (selector = selSwap ∧
        ∃ key params hookData, decodeSwapInput data = .ok (key, params, hookData)) ∨
      selector = selModifyLiquidity ∧
        ∃ key params hookData,
          decodeModifyLiquidityInput data = .ok (key, params, hookData) ∧
            0 < params.liquidityDelta := by
  have hguard := enter_guard w
  have hb0 : w.enter.bank.Bounded := hb
  cases h with
  | exportSwap hselector hdecode => exact .inr (.inl ⟨hselector, _, _, _, hdecode⟩)
  | importSwap hselector hdecode => exact .inr (.inl ⟨hselector, _, _, _, hdecode⟩)
  | commit hselector hdecode _ _ _ hpositive _ =>
      exact .inr (.inr ⟨hselector, _, _, _, hdecode, hpositive⟩)
  | request _ _ _ _ _ hrequest =>
      obtain ⟨st, hrequested⟩ := requestPositionWithdraw_ok hrequest
      rw [hrequested.final]
      exact .inl rfl
  | collect _ _ _ himport _ =>
      obtain ⟨body, -, himported⟩ := importClaim_ok himport
      have hexports := himported.exports hfr hb0 hguard
      exact .inl hexports
  | depositNative _ _ _ _ _ => exact .inl rfl
  | @depositToken st _ _ _ _ hrecord hpull =>
      have hb1 : (w.enter.withStorage st).bank.Bounded := hb0
      have hst : (w.enter.withStorage st).storage .custodyGuard ≠ 0 := by
        rwa [World.withStorage_storage, recordDeposit_of_ne hrecord (by simp) (by simp)]
      exact .inl (pullERC20Terminal_outside hfr hb1 hst hpull).exports
  | withdrawNothing _ => exact .inl rfl
  | @withdraw _ st st' _ _ _ _ hclaim hvault hpay =>
      obtain ⟨-, hmove⟩ | ⟨-, hpush⟩ := payWithdrawal_ok hpay
      · obtain ⟨-, -, rfl⟩ := moveNative_ok hmove
        exact .inl rfl
      · have hb1 : (w.enter.withStorage st').bank.Bounded := hb0
        have hst : (w.enter.withStorage st').storage .custodyGuard ≠ 0 := by
          rwa [World.withStorage_storage, storeAmount_of_ne hvault (by simp),
            storeAmount_of_ne hclaim (by simp)]
        exact .inl (transferToken_outside hfr hb1 hst hpush).exports
  | @seed token amount _ _ _ _ hreceive =>
      obtain ⟨-, -, -, -, rfl⟩ | ⟨-, -, -, hpull⟩ := receiveOperatorValue_ok hreceive
      · exact .inl rfl
      · have hb1 : (seededWorld (assetID token) amount w.enter).bank.Bounded := hb0
        have hout := pullERC20Terminal_outside hfr hb1 (by rwa [seededWorld_guard]) hpull
        exact .inl hout.exports

end Gates

/-! ## One action -/

/-- The world with other words in its halt switches. -/
def World.withHalts (w : World) (halts : Storage) : World :=
  w.withStorage fun slot =>
    match slot with
    | .haltGlobal | .haltMarket _ | .haltAsset _ => halts slot
    | _ => w.storage slot

/-- What the halt switches of a state mean for one action. -/
structure HaltGated (hashes : Hashes) (w : World) (a : Action) : Prop where
  everywhere : w.storage .haltGlobal ≠ 0 →
    (exec hashes w a).journal.filter Entry.isExport = w.journal.filter Entry.isExport ∧
      ∀ r, Succeeds hashes w a r →
        (∀ key params, ¬ r.Swaps key params) ∧ ∀ key side, ¬ r.Commits key side
  market : ∀ key : PoolKey, w.storage (.haltMarket (key.id hashes)) ≠ 0 →
    ∀ r, Succeeds hashes w a r →
      (∀ params, ¬ r.Swaps key params) ∧ ∀ side, ¬ r.Commits key side
  asset : ∀ asset, w.storage (.haltAsset asset) ≠ 0 → ∀ r, Succeeds hashes w a r →
    (∀ key params, r.Swaps key params →
      asset ≠ (swapAssetDirection key params).1 ∧ asset ≠ (swapAssetDirection key params).2) ∧
    ∀ key side, r.Commits key side → asset ≠ lockedAssetForSide key side
  governed : ∃ added, HaltsGoverned a.env.host w (exec hashes w a) added
  exits : ∀ halts r, Environment.HaltBlind a.env → a.interaction = .enter r → r.IsExit →
    Related (TwinWith w.storage (w.withHalts halts).storage)
      (call hashes a.env a.depth w r) (call hashes a.env a.depth (w.withHalts halts) r)

/-- The action is no position commit while the global switch or the one of its
market is set. -/
def CommitsUnhalted (hashes : Hashes) (w : World) (a : Action) : Prop :=
  ∀ r key side, a.interaction = .enter r → r.Commits key side →
    w.storage .haltGlobal = 0 ∧ w.storage (.haltMarket (key.id hashes)) = 0

theorem withHalts_twin (w : World) (halts : Storage) :
    Twin w.storage (w.withHalts halts).storage w (w.withHalts halts) := by
  refine ⟨⟨?_, fun _ _ => .inl ⟨rfl, rfl⟩⟩, rfl, rfl, rfl⟩
  intro slot hslot
  cases slot <;> first | rfl | exact absurd trivial hslot

/-- A successful swap found no switch set. -/
theorem Succeeds.swap_unhalted {w : World} {a : Action} {r : Request}
    (h : Succeeds hashes w a r) {key : PoolKey} {params : SwapParams}
    (hswap : r.Swaps key params) :
    w.storage .haltGlobal = 0 ∧ w.storage (.haltMarket (key.id hashes)) = 0 ∧
      w.storage (.haltAsset (swapAssetDirection key params).1) = 0 ∧
      w.storage (.haltAsset (swapAssetDirection key params).2) = 0 := by
  obtain ⟨-, w', reply, hcall⟩ := h
  obtain ⟨d, blockNumber, w1, hdeliver, hdispatch⟩ := call_dispatch hcall
  obtain ⟨hselector, hookData, hdecode⟩ := hswap
  rw [hselector, dispatch_swap] at hdispatch
  obtain ⟨-, w2, hoperation, -⟩ := settleSwap_ok hdispatch
  rw [← deliverValue_storage hdeliver]
  exact hoperation.swap_unhalted hdecode

theorem Succeeds.commit_unhalted {w : World} {a : Action} {r : Request}
    (h : Succeeds hashes w a r) {key : PoolKey} {side : MakerSide}
    (hcommit : r.Commits key side) :
    w.storage (.haltAsset (lockedAssetForSide key side)) = 0 := by
  obtain ⟨-, w', reply, hcall⟩ := h
  obtain ⟨d, blockNumber, w1, hdeliver, hdispatch⟩ := call_dispatch hcall
  obtain ⟨hselector, params, hookData, hdecode, hpositive, rfl⟩ := hcommit
  rw [hselector, dispatch_modifyLiquidity] at hdispatch
  obtain ⟨-, w2, hoperation, -⟩ := runSettleModifyLiquidity_ok hdispatch
  rw [← deliverValue_storage hdeliver]
  exact hoperation.commit_unhalted hdecode hpositive

/-- Under the global switch nothing crosses to the D-Chain. -/
theorem exec_exports {w : World} (hb : w.bank.Bounded) (a : Action)
    (hcommit : CommitsUnhalted hashes w a) (hhalted : w.storage .haltGlobal ≠ 0) :
    (exec hashes w a).journal.filter Entry.isExport = w.journal.filter Entry.isExport := by
  obtain hout | ⟨r, hr, ⟨hran⟩⟩ := exec_cases hashes hb a
  · apply hout.filter_journal
    intro e he
    cases e <;> first | rfl | exact absurd he (fun hc => hc)
  · have hdelivered : Outside hashes a.env.host w hran.entered :=
      deliverValue_outside hb hran.delivered
    have hstorage := deliverValue_storage hran.delivered
    have hjournal : hran.entered.journal = w.journal := by
      obtain ⟨-, -, -, heq⟩ := deliverValue_eq_some hran.delivered
      rw [heq]
    rw [hran.final, ← hjournal]
    show hran.left.journal.filter Entry.isExport = _
    obtain hsame | ⟨hselector, key, params, hookData, hdecode⟩ |
        ⟨hselector, key, params, hookData, hdecode, hpositive⟩ :=
      hran.operation.exports (frameOf_guarded _ _ _ _ _) (hdelivered.bounded hb)
    · exact hsame
    · have hoperation := hran.operation
      rw [hselector] at hoperation
      have hunhalted := (hoperation.swap_unhalted hdecode).1
      rw [hstorage] at hunhalted
      exact absurd hunhalted hhalted
    · have hunhalted := (hcommit r key _ hr
        ⟨hselector, params, hookData, hdecode, hpositive, rfl⟩).1
      exact absurd hunhalted hhalted

/-- One action that is no commit under a switch is gated. -/
theorem exec_haltGated {w : World} (hb : w.bank.Bounded) {a : Action}
    (hcommit : CommitsUnhalted hashes w a) : HaltGated hashes w a where
  everywhere := by
    intro hhalted
    refine ⟨exec_exports hb a hcommit hhalted, ?_⟩
    intro r hr
    refine ⟨fun key params hswap => ?_, fun key side hcommits => ?_⟩
    · exact hhalted (hr.swap_unhalted hswap).1
    · exact hhalted (hcommit r key side hr.1 hcommits).1
  market := by
    intro key hhalted r hr
    refine ⟨fun params hswap => ?_, fun side hcommits => ?_⟩
    · exact hhalted (hr.swap_unhalted hswap).2.1
    · exact hhalted (hcommit r key side hr.1 hcommits).2
  asset := by
    intro asset hhalted r hr
    refine ⟨fun key params hswap => ⟨?_, ?_⟩, fun key side hcommits => ?_⟩
    · rintro rfl
      exact hhalted (hr.swap_unhalted hswap).2.2.1
    · rintro rfl
      exact hhalted (hr.swap_unhalted hswap).2.2.2
    · rintro rfl
      exact hhalted (hr.commit_unhalted hcommits)
  governed := (exec_trace hashes hb a).1.halts
  exits := by
    intro halts r hblind _ hexit
    exact (withHalts_twin w halts).exit_call hblind hb a.depth hexit

/-! ## Runs -/

/-- In a run without commits under the global switch or the switch of their market,
every action is gated in the state it finds. -/
theorem halt_gating (hashes : Hashes) {w₀ : World} (hgenesis : Genesis w₀)
    (actions : List Action)
    (hcommits : Along (exec hashes) (CommitsUnhalted hashes) w₀ actions) :
    Along (exec hashes) (HaltGated hashes) w₀ actions := by
  refine Along.imp_of_invariant (I := fun w : World => w.bank.Bounded) ?_ ?_ actions
    hgenesis.bounded hcommits
  · intro w a hb _
    exact (exec_trace hashes hb a).2
  · intro w a hb hcommit
    exact exec_haltGated hb hcommit

/-- The controller sets the global switch. -/
def sampleHalt : Action := callAt 0 0x60 0 selSetHaltGlobal (wordBytes [1])

/-- A registration, a commit before the switch, and a collect after it. -/
theorem halt_gating_sample :
    (runFrom sampleHashes fundedWorld
      [sampleInitialize, sampleModify 1 100, sampleHalt]).storage .haltGlobal = flagSet ∧
    HaltGated sampleHashes (runFrom sampleHashes fundedWorld
      [sampleInitialize, sampleModify 1 100, sampleHalt]) (sampleCollect 5 40) := by
  refine ⟨by decide +kernel, ?_⟩
  have hother : ∀ (w : World) (tx : Word) (caller : Address) (selector : ℕ)
      (args : List UInt8), selector < 2 ^ 32 → selector ≠ selModifyLiquidity →
      CommitsUnhalted sampleHashes w (callAt tx caller 0 selector args) := by
    intro w tx caller selector args hlt hselector r key side hr hcommits
    rw [← Interaction.enter.inj hr] at hcommits
    exact absurd ((selectorOf_append hlt args).symm.trans hcommits.1) hselector
  have hcommit : CommitsUnhalted sampleHashes
      (exec sampleHashes fundedWorld sampleInitialize) (sampleModify 1 100) := by
    intro r key side hr hcommits
    have hinput : r.input = natToBytes 4 selModifyLiquidity ++ wordBytes (sampleKeyArgs ++
        [intWord (-60), intWord 60, intWord 100, 1]) := by
      rw [← Interaction.enter.inj hr]
    obtain ⟨-, params, hookData, hdecode, -⟩ := hcommits
    have hkey : (decodeModifyLiquidityInput (r.input.drop 4)).map (fun p => p.1) =
        .ok sampleKey := by
      rw [hinput]
      decide +kernel
    rw [hdecode] at hkey
    obtain rfl : key = sampleKey := Except.ok.inj hkey
    constructor
    · decide +kernel
    · decide +kernel
  have halong := halt_gating sampleHashes fundedWorld_genesis
    [sampleInitialize, sampleModify 1 100, sampleHalt, sampleCollect 5 40]
    ⟨hother _ _ _ _ _ (by decide) (by decide), hcommit,
      hother _ _ _ _ _ (by decide) (by decide), hother _ _ _ _ _ (by decide) (by decide),
      trivial⟩
  rw [runFrom_cons, runFrom_cons, runFrom_cons, runFrom_nil]
  exact halong.2.2.2.1

/-- Under the global switch a commit still goes through and crosses to the
D-Chain. -/
theorem commit_crosses_halt :
    (runFrom sampleHashes fundedWorld [sampleInitialize, sampleHalt]).storage .haltGlobal ≠ 0 ∧
    ¬ HaltGated sampleHashes (runFrom sampleHashes fundedWorld [sampleInitialize, sampleHalt])
      (sampleModify 1 100) := by
  have hhalted : (runFrom sampleHashes fundedWorld
      [sampleInitialize, sampleHalt]).storage .haltGlobal ≠ 0 := by
    decide +kernel
  refine ⟨hhalted, fun h => ?_⟩
  have hsame := (h.everywhere hhalted).1
  revert hsame
  decide +kernel

end LuxPrecompile.Settle
