import LuxPrecompile.Evm.Precompile
import LuxPrecompile.Settle.Contract
import LuxPrecompile.Settle.Records

/-!
# Runs of the settlement precompile

A run is a list of calls with any caller, attached value and calldata, and of
changes to other accounts between them.  While a token call is under way the
token's code may change balances, log and enter the precompile again, to any depth
the host allows; the guard then leaves it the registry, the halt switches and the
views.  A failed call leaves nothing behind, its value included.
-/

namespace LuxPrecompile.Settle

open Dex Evm Support

/-- One call of the precompile. -/
structure Request where
  caller : Address
  /-- The account the frame runs as; another one under a delegate call. -/
  self : Address
  value : ℕ
  callIndex : UInt32
  input : List UInt8
  gas : ℕ
  readOnly : Bool

/-- What may happen to the world: a call of the precompile, a balance change or a
log of another contract. -/
inductive Interaction
  | enter (r : Request)
  | credit (asset owner : Address) (amount : ℕ)
  | debit (asset owner : Address) (amount : ℕ)
  | log (l : Log)

/-- The host moves the attached value before the precompile runs.  The
precompile's account calls only tokens, never itself. -/
def deliverValue (w : World) (caller : Address) (value : ℕ) : Option World :=
  if caller = vaultAddr then none
  else (w.bank.transfer native caller vaultAddr value).map fun bank => { w with bank := bank }

/-- The world after an interaction.  Only the precompile spends its native coin;
its token balances are what the tokens say. -/
def interact (call : World → Request → Except Error (World × Reply)) (w : World) :
    Interaction → World
  | .enter r =>
      match call w r with
      | .ok (w', _) => w'
      | .error _ => w
  | .credit asset owner amount =>
      if w.bank asset owner + amount < 2 ^ 256 then
        { w with bank := w.bank.set asset owner (w.bank asset owner + amount) }
      else w
  | .debit asset owner amount =>
      if asset = native ∧ owner = vaultAddr then w
      else { w with bank := w.bank.set asset owner (w.bank asset owner - amount) }
  | .log l => if l.address = vaultAddr then w else { w with logs := l :: w.logs }

/-- The contract under its host: a call needs a selector, a block and its own account. -/
def settleContract (hashes : Hashes) :
    Precompile Host World Request Interaction Error Reply where
  deliver w r := deliverValue w r.caller r.value
  interact := interact
  body host callback w r :=
    if r.input.length < 4 then .error .inputTooShort
    else
      match host.blockContext with
      | none => .error .noBlockContext
      | some blockNumber =>
          if r.self ≠ vaultAddr then .error .wrongContext
          else
            dispatch
              { hashes := hashes
                host := host
                blockNumber := blockNumber
                caller := r.caller
                callIndex := r.callIndex
                callback := callback }
              w (selectorOf r.input) (r.input.drop 4) r.gas r.readOnly
  insufficientBalance := .insufficientBalance
  depth := .depth

abbrev Environment := Evm.Environment Host World Interaction

abbrev Action := Evm.Action Host World Interaction

/-- `Run`, with the call depth the host has left. -/
abbrev run (hashes : Hashes) : Environment → ℕ → World → Request →
    Except Error (World × Reply) :=
  (settleContract hashes).run

/-- A call as the host executes it. -/
abbrev call (hashes : Hashes) : Environment → ℕ → World → Request →
    Except Error (World × Reply) :=
  (settleContract hashes).call

/-- The world after an action. -/
abbrev exec (hashes : Hashes) : World → Action → World := (settleContract hashes).exec

/-- A world before the first call, with any balances. -/
structure Genesis (w : World) : Prop where
  storage_empty : w.storage = Storage.empty
  bounded : w.bank.Bounded
  journal_nil : w.journal = []

/-- The world after a run. -/
abbrev runFrom (hashes : Hashes) : World → List Action → World :=
  (settleContract hashes).runFrom

theorem call_eq_deliver (hashes : Hashes) (env : Environment) (depth : ℕ) (w : World)
    (r : Request) :
    call hashes env depth w r =
      match deliverValue w r.caller r.value with
      | none => .error .insufficientBalance
      | some delivered => run hashes env depth delivered r := by
  have hdeliver : (settleContract hashes).deliver w r = deliverValue w r.caller r.value := rfl
  rw [call, Precompile.call, Precompile.callWith, hdeliver]
  cases deliverValue w r.caller r.value with
  | none => rfl
  | some delivered => rfl

theorem exec_eq (hashes : Hashes) (w : World) (a : Action) :
    exec hashes w a = interact (call hashes a.env a.depth) w a.interaction := rfl

theorem runFrom_nil (hashes : Hashes) (w : World) : runFrom hashes w [] = w := rfl

theorem runFrom_cons (hashes : Hashes) (w : World) (a : Action) (actions : List Action) :
    runFrom hashes w (a :: actions) = runFrom hashes (exec hashes w a) actions :=
  rfl

theorem runFrom_append (hashes : Hashes) (w : World) (actions later : List Action) :
    runFrom hashes w (actions ++ later) = runFrom hashes (runFrom hashes w actions) later :=
  Precompile.runFrom_append w actions later

/-! ## What a token's code can do -/

/-- A word of a market record. -/
def Slot.IsMarket : Slot → Prop
  | .market _ _ => True
  | _ => False

/-- A halt switch. -/
def Slot.IsHalt : Slot → Prop
  | .haltGlobal | .haltMarket _ | .haltAsset _ => True
  | _ => False

/-- The world after a market was registered. -/
def registeredWorld (w : World) (st : Storage) (poolID : Word) (key : PoolKey)
    (rec' : MarketRecord) : World :=
  (emitInitializeEvent (w.withStorage st) poolID key rec'.sqrtPriceX96 rec'.tick).record
    (.registered poolID key rec')

/-- The two unguarded changes: a new market and a halt switch. -/
inductive AdminStep (hashes : Hashes) (host : Host) : World → World → Prop
  | register {w : World} {st : Storage} {key : PoolKey} {price : ℕ} {tick : ℤ}
      {creator : Address}
      (hcheck : checkMarketKey key price = .ok ())
      (hnew : (loadMarket w.storage (key.id hashes)).status = .none)
      (htick : getTickAtSqrtRatio price = some tick)
      (hstore : storeMarket w.storage (key.id hashes) (newMarket key price tick creator) =
        .ok st) :
      AdminStep hashes host w
        (registeredWorld w st (key.id hashes) key (newMarket key price tick creator))
  | halt {w : World} {slot : Slot} {on : Bool} {caller : Address} (hslot : slot.IsHalt)
      (hgov : governanceController host = .ok caller) :
      AdminStep hashes host w
        ((w.withStorage (setHalt w.storage slot on)).record (.haltSet caller slot on))

/-- What happens outside the guarded handlers: balances and logs of others, a new
market, a halt switch. -/
inductive OutsideStep (hashes : Hashes) (host : Host) : World → World → Prop
  | bank {w : World} (b : Bank) (hbounded : b.Bounded)
      (hvault : w.bank native vaultAddr ≤ b native vaultAddr) :
      OutsideStep hashes host w { w with bank := b }
  | log {w : World} (l : Log) (haddress : l.address ≠ vaultAddr) :
      OutsideStep hashes host w { w with logs := l :: w.logs }
  | admin {w w' : World} (h : AdminStep hashes host w w') : OutsideStep hashes host w w'

/-- Any number of such steps. -/
def Outside (hashes : Hashes) (host : Host) : World → World → Prop :=
  Relation.ReflTransGen (OutsideStep hashes host)

variable {hashes : Hashes} {host : Host}

theorem Outside.refl (w : World) : Outside hashes host w w := Relation.ReflTransGen.refl

theorem Outside.trans {w w' w'' : World} (h : Outside hashes host w w')
    (h' : Outside hashes host w' w'') : Outside hashes host w w'' :=
  Relation.ReflTransGen.trans h h'

theorem OutsideStep.outside {w w' : World} (h : OutsideStep hashes host w w') :
    Outside hashes host w w' :=
  Relation.ReflTransGen.single h

theorem storeMarket_of_not_market {st st' : Storage} {poolID : Word} {rec' : MarketRecord}
    (h : storeMarket st poolID rec' = .ok st') {slot : Slot} (hslot : ¬ slot.IsMarket) :
    st' slot = st slot := by
  apply storeMarket_of_ne h
  intro field hc
  rw [hc] at hslot
  exact hslot trivial

theorem AdminStep.bank {w w' : World} (h : AdminStep hashes host w w') : w'.bank = w.bank := by
  cases h with
  | register _ _ _ _ => rfl
  | halt _ _ => rfl

theorem AdminStep.outside {w w' : World} (h : AdminStep hashes host w w') :
    Outside hashes host w w' :=
  OutsideStep.outside (.admin h)

theorem AdminStep.storage {w w' : World} (h : AdminStep hashes host w w') {slot : Slot}
    (hmarket : ¬ slot.IsMarket) (hhalt : ¬ slot.IsHalt) :
    w'.storage slot = w.storage slot := by
  cases h with
  | register _ _ _ hstore => exact storeMarket_of_not_market hstore hmarket
  | @halt switch on caller hswitch _ =>
      have hne : slot ≠ switch := by
        rintro rfl
        exact hhalt hswitch
      exact Storage.set_of_ne hne _ _

theorem OutsideStep.storage {w w' : World} (h : OutsideStep hashes host w w') {slot : Slot}
    (hmarket : ¬ slot.IsMarket) (hhalt : ¬ slot.IsHalt) :
    w'.storage slot = w.storage slot := by
  cases h with
  | bank b _ _ => rfl
  | log l _ => rfl
  | admin hadmin => exact hadmin.storage hmarket hhalt

theorem Outside.storage {w w' : World} (h : Outside hashes host w w') {slot : Slot}
    (hmarket : ¬ slot.IsMarket) (hhalt : ¬ slot.IsHalt) :
    w'.storage slot = w.storage slot := by
  induction h with
  | refl => rfl
  | tail _ hstep ih => rw [hstep.storage hmarket hhalt, ih]

theorem Outside.bounded {w w' : World} (h : Outside hashes host w w')
    (hb : w.bank.Bounded) : w'.bank.Bounded := by
  induction h with
  | refl => exact hb
  | tail _ hstep ih =>
      cases hstep with
      | bank b hbounded _ => exact hbounded
      | log l _ => exact ih
      | admin hadmin =>
          rw [hadmin.bank]
          exact ih

theorem Outside.guard {w w' : World} (h : Outside hashes host w w') :
    w'.storage .custodyGuard = w.storage .custodyGuard :=
  h.storage (fun hc => hc) (fun hc => hc)

/-! ## Interactions behind the guard -/

theorem deliverValue_eq_some {w w' : World} {caller : Address} {value : ℕ}
    (h : deliverValue w caller value = some w') :
    caller ≠ vaultAddr ∧ value ≤ w.bank native caller ∧
      w.bank.fits native caller vaultAddr value ∧
      w' = { w with bank := w.bank.move native caller vaultAddr value } := by
  unfold deliverValue at h
  split_ifs at h with hself
  simp only [Option.map_eq_some_iff] at h
  obtain ⟨bank, htransfer, rfl⟩ := h
  obtain ⟨hle, hfits, rfl⟩ := Bank.transfer_eq_some htransfer
  exact ⟨hself, hle, hfits, rfl⟩

theorem deliverValue_vault {w w' : World} {caller : Address} {value : ℕ}
    (h : deliverValue w caller value = some w') :
    w'.bank native vaultAddr = w.bank native vaultAddr + value := by
  obtain ⟨hself, -, hfits, rfl⟩ := deliverValue_eq_some h
  exact Bank.move_recipient hself hfits

theorem deliverValue_outside {w w' : World} (hb : w.bank.Bounded) {caller : Address}
    {value : ℕ} (h : deliverValue w caller value = some w') : Outside hashes host w w' := by
  have hvault := deliverValue_vault h
  obtain ⟨-, -, -, rfl⟩ := deliverValue_eq_some h
  apply OutsideStep.outside
  apply OutsideStep.bank
  · exact hb.move _ _ _ _
  · show _ ≤ w.bank.move native caller vaultAddr value native vaultAddr
    exact le_trans (Nat.le_add_right _ value) hvault.ge

theorem requireGovernance_ok {fr : Frame} (h : requireGovernance fr = .ok ()) :
    governanceController fr.host = .ok fr.caller := by
  simp only [requireGovernance, bind_eq_ok] at h
  obtain ⟨gov, hgov, h⟩ := h
  split_ifs at h with hne
  rw [hgov, not_not.mp hne]

theorem runSettleInitialize_ok {fr : Frame} {w w' : World} {data : List UInt8} {gas : ℕ}
    {readOnly : Bool} {reply : Reply}
    (h : runSettleInitialize fr w data gas readOnly = .ok (w', reply)) :
    AdminStep fr.hashes fr.host w w' := by
  simp only [runSettleInitialize, refuse_eq_ok, bind_eq_ok] at h
  obtain ⟨-, gasLeft, -, -, key, -, _, hcheck, hnew, h⟩ := h
  cases htick : getTickAtSqrtRatio (argWord data 160).toNat with
  | none => simp [htick] at h
  | some tick =>
      simp only [htick, bind_eq_ok, Except.ok.injEq, Prod.mk.injEq] at h
      obtain ⟨_, -, st, hstore, rfl, -⟩ := h
      exact .register hcheck (not_not.mp hnew) htick hstore

theorem runSetHaltGlobal_ok {fr : Frame} {w w' : World} {data : List UInt8} {gas : ℕ}
    {readOnly : Bool} {reply : Reply}
    (h : runSetHaltGlobal fr w data gas readOnly = .ok (w', reply)) :
    AdminStep fr.hashes fr.host w w' := by
  simp only [runSetHaltGlobal, refuse_eq_ok, bind_eq_ok, Except.ok.injEq, Prod.mk.injEq] at h
  obtain ⟨-, gasLeft, -, _, hgov, -, rfl, -⟩ := h
  exact .halt trivial (requireGovernance_ok hgov)

theorem runSetHaltScoped_ok (scope : Word → Slot) (hscope : ∀ id, (scope id).IsHalt)
    {fr : Frame} {w w' : World} {data : List UInt8} {gas : ℕ} {readOnly : Bool}
    {reply : Reply} (h : runSetHaltScoped scope fr w data gas readOnly = .ok (w', reply)) :
    AdminStep fr.hashes fr.host w w' := by
  simp only [runSetHaltScoped, refuse_eq_ok, bind_eq_ok, Except.ok.injEq, Prod.mk.injEq] at h
  obtain ⟨-, gasLeft, -, _, hgov, -, rfl, -⟩ := h
  exact .halt (hscope _) (requireGovernance_ok hgov)

theorem runSettleBalanceOf_ok {w w' : World} {data : List UInt8} {gas : ℕ} {reply : Reply}
    (h : runSettleBalanceOf w data gas = .ok (w', reply)) : w' = w := by
  simp only [runSettleBalanceOf, refuse_eq_ok, bind_eq_ok, Except.ok.injEq,
    Prod.mk.injEq] at h
  obtain ⟨gasLeft, -, -, hw, -⟩ := h
  exact hw.symm

theorem runSettleExtsload_ok {fr : Frame} {w w' : World} {data : List UInt8} {gas : ℕ}
    {reply : Reply} (h : runSettleExtsload fr w data gas = .ok (w', reply)) : w' = w := by
  simp only [runSettleExtsload, refuse_eq_ok, bind_eq_ok, Except.ok.injEq, Prod.mk.injEq] at h
  obtain ⟨gasLeft, -, -, hw, -⟩ := h
  exact hw.symm

theorem runSettleExtsloadArray_ok {fr : Frame} {w w' : World} {data : List UInt8} {gas : ℕ}
    {reply : Reply} (h : runSettleExtsloadArray fr w data gas = .ok (w', reply)) :
    w' = w := by
  simp only [runSettleExtsloadArray, refuse_eq_ok, bind_eq_ok, Except.ok.injEq,
    Prod.mk.injEq] at h
  obtain ⟨-, -, -, -, gasLeft, -, hw, -⟩ := h
  exact hw.symm

theorem runSettleDonate_ne_ok {gas : ℕ} {readOnly : Bool} {result : World × Reply} :
    runSettleDonate gas readOnly ≠ .ok result := by
  intro h
  unfold runSettleDonate at h
  split_ifs at h

/-! ## The guarded handlers -/

/-- The world behind the guard. -/
def World.enter (w : World) : World := w.withStorage (w.storage.set .custodyGuard flagSet)

/-- The world after the guard was left. -/
def World.leave (w : World) : World := w.withStorage (exitCustody w.storage)

theorem guarded_ok {w w' : World} {body : World → Except Error (World × Reply)}
    {reply : Reply} (h : guarded w body = .ok (w', reply)) :
    w.storage .custodyGuard = 0 ∧
      ∃ w1, body w.enter = .ok (w1, reply) ∧ w' = w1.leave := by
  unfold guarded at h
  cases henter : enterCustody w.storage with
  | none => simp [henter] at h
  | some st =>
      simp only [henter, bind_eq_ok] at h
      obtain ⟨⟨w1, reply1⟩, hbody, h⟩ := h
      simp only [Except.ok.injEq, Prod.mk.injEq] at h
      obtain ⟨rfl, rfl⟩ := h
      unfold enterCustody at henter
      split_ifs at henter with hguard
      simp only [Option.some.injEq] at henter
      refine ⟨not_not.mp hguard, w1, ?_, rfl⟩
      rw [World.enter, henter, hbody]

theorem marketFor_eq_some {st : Storage} {key : PoolKey} {poolID : Word}
    (h : marketFor hashes st key = some poolID) :
    poolID = key.id hashes ∧ (loadMarket st poolID).status = .active := by
  simp only [marketFor] at h
  split_ifs at h with hactive
  simp only [Option.some.injEq] at h
  exact ⟨h.symm, by rw [← h]; exact not_not.mp hactive⟩

/-- What a call behind the guard did, with everything its checks establish.  The
handlers run on the entered world and are followed by leaving the guard. -/
inductive Operation (fr : Frame) (selector : ℕ) (data : List UInt8) (w : World) :
    World → Prop
  | exportSwap {atomic : Atomic} {key : PoolKey} {params : SwapParams}
      {hookData : List UInt8} {poolID claimID : Word} {t : Transfer} {w1 : World}
      (hselector : selector = selSwap)
      (hdecode : decodeSwapInput data = .ok (key, params, hookData))
      (hatomic : atomicMemory fr.host = some atomic)
      (hmarket : marketFor fr.hashes w.storage key = some poolID)
      (hhalt : checkHalt w.enter.storage poolID (swapAssetDirection key params).1
        (swapAssetDirection key params).2 = .ok ())
      (hbuild : buildTransfer key params fr.caller = .ok t)
      (hexport : exportClaim fr atomic w.enter t = .ok (w1, claimID)) :
      Operation fr selector data w w1
  | importSwap {atomic : Atomic} {key : PoolKey} {params : SwapParams}
      {hookData body : List UInt8} {poolID : Word} {claim : Claim} {credited : UInt64}
      {st : Storage} {w1 : World}
      (hselector : selector = selSwap)
      (hdecode : decodeSwapInput data = .ok (key, params, hookData))
      (hatomic : atomicMemory fr.host = some atomic)
      (hmarket : marketFor fr.hashes w.storage key = some poolID)
      (hhalt : checkHalt w.enter.storage poolID (swapAssetDirection key params).1
        (swapAssetDirection key params).2 = .ok ())
      (hclaim : decodeSettlementBody body key params fr.caller = .ok claim)
      (himport : importClaim fr atomic w.enter claim = .ok (w1, credited))
      (hvolume : accrueVolume w1.storage poolID credited fr.blockNumber = .ok st) :
      Operation fr selector data w
        ((w1.withStorage st).emit [dexFillEventSig, poolID, addressWord fr.caller]
          (natToBytes 32 credited.toNat ++ natToBytes 32 fr.blockNumber.toNat))
  | commit {atomic : Atomic} {key : PoolKey} {params : ModifyLiquidityParams}
      {hookData : List UInt8} {poolID : Word} {gasLeft : ℕ} {reply : Reply} {w1 : World}
      (hselector : selector = selModifyLiquidity)
      (hdecode : decodeModifyLiquidityInput data = .ok (key, params, hookData))
      (hcheck : checkLiquidity params = .ok ())
      (hatomic : atomicMemory fr.host = some atomic)
      (hmarket : marketFor fr.hashes w.storage key = some poolID)
      (hpositive : 0 < params.liquidityDelta)
      (hcommit : commitPosition fr atomic key params (decodeMakerSide hookData)
        (lockedAssetForSide key (decodeMakerSide hookData))
        (makerOrderID fr.hashes fr.caller poolID params.salt params.tickLower
          params.tickUpper) gasLeft w.enter = .ok (w1, reply)) :
      Operation fr selector data w w1
  | request {key : PoolKey} {params : ModifyLiquidityParams} {hookData : List UInt8}
      {poolID : Word} {gasLeft : ℕ} {reply : Reply} {w1 : World}
      (hselector : selector = selModifyLiquidity)
      (hdecode : decodeModifyLiquidityInput data = .ok (key, params, hookData))
      (hcheck : checkLiquidity params = .ok ())
      (hmarket : marketFor fr.hashes w.storage key = some poolID)
      (hnegative : ¬ 0 < params.liquidityDelta)
      (hrequest : requestPositionWithdraw fr
        (makerOrderID fr.hashes fr.caller poolID params.salt params.tickLower
          params.tickUpper) gasLeft w.enter = .ok (w1, reply)) :
      Operation fr selector data w w1
  | collect {atomic : Atomic} {credited : UInt64} {st : Storage} {w1 : World}
      (hselector : selector = selCollectPosition)
      (hlength : data.length = 96 + claimSize)
      (hatomic : atomicMemory fr.host = some atomic)
      (himport : importClaim fr atomic w.enter
        ⟨argWord data 0, argWord data 32, fr.caller, slice data 96 (96 + claimSize)⟩ =
        .ok (w1, credited))
      (hrecord : collectPositionRecord w1.storage (argWord data 64) fr.caller credited =
        .ok st) :
      Operation fr selector data w
        ((w1.withStorage st).record
          (.collected (argWord data 64) fr.caller credited.toNat))
  | depositNative {st : Storage}
      (hselector : selector = selDeposit)
      (hnative : assetID (argAddress data 0) = 0)
      (hamount : (argWord data 32).toNat ≠ 0)
      (hdelivered : ((argWord data 32).toNat : ℤ) ≤ deliveredNative w.enter)
      (hrecord : recordDeposit w.enter.storage fr.caller 0 (argWord data 32).toNat = .ok st) :
      Operation fr selector data w (w.enter.withStorage st)
  | depositToken {st : Storage} {w1 : World}
      (hselector : selector = selDeposit)
      (htoken : assetID (argAddress data 0) ≠ 0)
      (hamount : (argWord data 32).toNat ≠ 0)
      (hrecord : recordDeposit w.enter.storage fr.caller (assetID (argAddress data 0))
        (argWord data 32).toNat = .ok st)
      (hpull : pullERC20Terminal fr (w.enter.withStorage st) (argAddress data 0) fr.caller
        (argWord data 32).toNat = .ok w1) :
      Operation fr selector data w w1
  | withdrawNothing (hselector : selector = selWithdraw) : Operation fr selector data w w.enter
  | withdraw {realized : ℕ} {st st' : Storage} {w1 : World}
      (hselector : selector = selWithdraw)
      (hrealized : realized = min (min (argWord data 32).toNat
        (loadDepositorClaim w.enter.storage fr.caller (assetID (argAddress data 0))))
        (loadSettleVault w.enter.storage (assetID (argAddress data 0))))
      (hpositive : realized ≠ 0)
      (hclaim : storeDepositorClaim w.enter.storage fr.caller (assetID (argAddress data 0))
        (loadDepositorClaim w.enter.storage fr.caller (assetID (argAddress data 0)) -
          realized) = .ok st)
      (hvault : storeSettleVault st (assetID (argAddress data 0))
        (loadSettleVault w.enter.storage (assetID (argAddress data 0)) - realized) = .ok st')
      (hpay : payWithdrawal fr (w.enter.withStorage st') (argAddress data 0) realized =
        .ok w1) :
      Operation fr selector data w w1
  | seed {token : Address} {amount delivered : ℕ} {w1 : World}
      (hselector : selector = selSeedSeamReserve)
      (hdecode : decodeAssetAmount data = .ok (token, amount))
      (hreceive : receiveOperatorValue fr w.enter token amount = .ok (w1, delivered)) :
      Operation fr selector data w w1

/-- The handler ran behind the guard. -/
def Behind (fr : Frame) (selector : ℕ) (data : List UInt8) (w w' : World) : Prop :=
  w.storage .custodyGuard = 0 ∧ ∃ w1, Operation fr selector data w w1 ∧ w' = w1.leave

section Inversion

variable {fr : Frame} {w w' : World} {data : List UInt8} {gas : ℕ} {readOnly : Bool}
  {reply : Reply}

theorem settleSwap_ok (h : settleSwap fr w data gas readOnly = .ok (w', reply)) :
    Behind fr selSwap data w w' := by
  simp only [settleSwap, refuse_eq_ok, bind_eq_ok] at h
  obtain ⟨-, ⟨key, params, hookData⟩, hdecode, h⟩ := h
  cases hatomic : atomicMemory fr.host with
  | none => simp [hatomic] at h
  | some atomic =>
      simp only [hatomic] at h
      cases hmarket : marketFor fr.hashes w.storage key with
      | none => simp [hmarket] at h
      | some poolID =>
          simp only [hmarket] at h
          obtain ⟨hguard, w1, hbody, rfl⟩ := guarded_ok h
          simp only [bind_eq_ok] at hbody
          obtain ⟨⟨phase, body⟩, hphase, hbody⟩ := hbody
          refine ⟨hguard, w1, ?_, rfl⟩
          cases phase with
          | settlement =>
              simp only [settlePhaseB, bind_eq_ok, Except.ok.injEq, Prod.mk.injEq] at hbody
              obtain ⟨_, -, _, hhalt, claim, hclaim, ⟨w2, credited⟩, himport, st, hvolume,
                rfl, -⟩ := hbody
              exact .importSwap rfl hdecode hatomic hmarket hhalt hclaim himport hvolume
          | order =>
              simp only [settlePhaseA, bind_eq_ok, Except.ok.injEq, Prod.mk.injEq] at hbody
              obtain ⟨_, -, _, hhalt, t, hbuild, ⟨w2, claimID⟩, hexport, rfl, -⟩ := hbody
              exact .exportSwap rfl hdecode hatomic hmarket hhalt hbuild hexport

theorem runSettleModifyLiquidity_ok
    (h : runSettleModifyLiquidity fr w data gas readOnly = .ok (w', reply)) :
    Behind fr selModifyLiquidity data w w' := by
  simp only [runSettleModifyLiquidity, refuse_eq_ok, bind_eq_ok] at h
  obtain ⟨-, gasLeft, -, ⟨key, params, hookData⟩, hdecode, _, hcheck, h⟩ := h
  cases hatomic : atomicMemory fr.host with
  | none => simp [hatomic] at h
  | some atomic =>
      simp only [hatomic] at h
      cases hmarket : marketFor fr.hashes w.storage key with
      | none => simp [hmarket] at h
      | some poolID =>
          simp only [hmarket] at h
          obtain ⟨hguard, w1, hbody, rfl⟩ := guarded_ok h
          refine ⟨hguard, w1, ?_, rfl⟩
          by_cases hpositive : 0 < params.liquidityDelta
          · rw [if_pos hpositive] at hbody
            exact .commit rfl hdecode hcheck hatomic hmarket hpositive hbody
          · rw [if_neg hpositive] at hbody
            exact .request rfl hdecode hcheck hmarket hpositive hbody

theorem runSettleCollectPosition_ok
    (h : runSettleCollectPosition fr w data gas readOnly = .ok (w', reply)) :
    Behind fr selCollectPosition data w w' := by
  simp only [runSettleCollectPosition, refuse_eq_ok, bind_eq_ok] at h
  obtain ⟨-, gasLeft, -, h⟩ := h
  cases hatomic : atomicMemory fr.host with
  | none => simp [hatomic] at h
  | some atomic =>
      simp only [hatomic, refuse_eq_ok] at h
      obtain ⟨hlength, h⟩ := h
      obtain ⟨hguard, w1, hbody, rfl⟩ := guarded_ok h
      simp only [bind_eq_ok, Except.ok.injEq, Prod.mk.injEq] at hbody
      obtain ⟨⟨w2, credited⟩, himport, st, hrecord, rfl, -⟩ := hbody
      exact ⟨hguard, _, .collect rfl (not_not.mp hlength) hatomic himport hrecord, rfl⟩

theorem isNativeAsset_iff (asset : Word) : isNativeAsset asset = true ↔ asset = 0 :=
  decide_eq_true_iff

theorem runSettleDeposit_ok
    (h : runSettleDeposit fr w data gas readOnly = .ok (w', reply)) :
    Behind fr selDeposit data w w' := by
  simp only [runSettleDeposit, refuse_eq_ok, bind_eq_ok] at h
  obtain ⟨-, gasLeft, -, -, hamount, -, h⟩ := h
  obtain ⟨hguard, w1, hbody, rfl⟩ := guarded_ok h
  refine ⟨hguard, w1, ?_, rfl⟩
  by_cases hnative : assetID (argAddress data 0) = 0
  · rw [if_pos ((isNativeAsset_iff _).mpr hnative)] at hbody
    simp only [refuse_eq_ok, bind_eq_ok, Except.ok.injEq, Prod.mk.injEq] at hbody
    obtain ⟨hdelivered, st, hrecord, rfl, -⟩ := hbody
    rw [hnative] at hrecord
    exact .depositNative rfl hnative hamount (not_lt.mp hdelivered) hrecord
  · rw [if_neg (fun hc => hnative ((isNativeAsset_iff _).mp hc))] at hbody
    simp only [bind_eq_ok, Except.ok.injEq, Prod.mk.injEq] at hbody
    obtain ⟨st, hrecord, w2, hpull, rfl, -⟩ := hbody
    exact .depositToken rfl hnative hamount hrecord hpull

theorem runSettleWithdraw_ok
    (h : runSettleWithdraw fr w data gas readOnly = .ok (w', reply)) :
    Behind fr selWithdraw data w w' := by
  simp only [runSettleWithdraw, refuse_eq_ok, bind_eq_ok] at h
  obtain ⟨-, gasLeft, -, -, h⟩ := h
  obtain ⟨hguard, w1, hbody, rfl⟩ := guarded_ok h
  refine ⟨hguard, w1, ?_, rfl⟩
  split_ifs at hbody with hrealized
  · simp only [Except.ok.injEq, Prod.mk.injEq] at hbody
    rw [← hbody.1]
    exact .withdrawNothing rfl
  · simp only [bind_eq_ok, Except.ok.injEq, Prod.mk.injEq] at hbody
    obtain ⟨st, hclaim, st', hvault, w2, hpay, rfl, -⟩ := hbody
    exact .withdraw rfl rfl hrealized hclaim hvault hpay

theorem runSeedSeamReserve_ok
    (h : runSeedSeamReserve fr w data gas readOnly = .ok (w', reply)) :
    Behind fr selSeedSeamReserve data w w' := by
  simp only [runSeedSeamReserve, refuse_eq_ok, bind_eq_ok] at h
  obtain ⟨-, gasLeft, -, _, -, ⟨token, amount⟩, hdecode, h⟩ := h
  obtain ⟨hguard, w1, hbody, rfl⟩ := guarded_ok h
  simp only [bind_eq_ok, Except.ok.injEq, Prod.mk.injEq] at hbody
  obtain ⟨⟨w2, delivered⟩, hreceive, rfl, -⟩ := hbody
  exact ⟨hguard, w2, .seed rfl hdecode hreceive, rfl⟩

end Inversion

theorem dispatch_swap (fr : Frame) (w : World) (data : List UInt8) (gas : ℕ)
    (readOnly : Bool) :
    dispatch fr w selSwap data gas readOnly = settleSwap fr w data gas readOnly :=
  rfl

theorem dispatch_withdraw (fr : Frame) (w : World) (data : List UInt8) (gas : ℕ)
    (readOnly : Bool) :
    dispatch fr w selWithdraw data gas readOnly = runSettleWithdraw fr w data gas readOnly :=
  rfl

theorem dispatch_deposit (fr : Frame) (w : World) (data : List UInt8) (gas : ℕ)
    (readOnly : Bool) :
    dispatch fr w selDeposit data gas readOnly = runSettleDeposit fr w data gas readOnly :=
  rfl

theorem dispatch_seedSeamReserve (fr : Frame) (w : World) (data : List UInt8) (gas : ℕ)
    (readOnly : Bool) :
    dispatch fr w selSeedSeamReserve data gas readOnly =
      runSeedSeamReserve fr w data gas readOnly :=
  rfl

theorem dispatch_collectPosition (fr : Frame) (w : World) (data : List UInt8) (gas : ℕ)
    (readOnly : Bool) :
    dispatch fr w selCollectPosition data gas readOnly =
      runSettleCollectPosition fr w data gas readOnly :=
  rfl

theorem dispatch_modifyLiquidity (fr : Frame) (w : World) (data : List UInt8) (gas : ℕ)
    (readOnly : Bool) :
    dispatch fr w selModifyLiquidity data gas readOnly =
      runSettleModifyLiquidity fr w data gas readOnly :=
  rfl

/-- A successful call is a view, a registration or a halt switch, or it ran a
handler behind the guard. -/
theorem dispatch_cases {fr : Frame} {w w' : World} {selector : ℕ} {data : List UInt8}
    {gas : ℕ} {readOnly : Bool} {reply : Reply}
    (h : dispatch fr w selector data gas readOnly = .ok (w', reply)) :
    w' = w ∨ AdminStep fr.hashes fr.host w w' ∨ Behind fr selector data w w' := by
  unfold dispatch at h
  obtain ⟨hsel, h⟩ | ⟨-, h⟩ := ite_eq_iff.mp h
  · exact .inr (.inr (hsel ▸ settleSwap_ok h))
  obtain ⟨-, h⟩ | ⟨-, h⟩ := ite_eq_iff.mp h
  · exact .inr (.inl (runSettleInitialize_ok h))
  obtain ⟨hsel, h⟩ | ⟨-, h⟩ := ite_eq_iff.mp h
  · exact .inr (.inr (hsel ▸ runSettleModifyLiquidity_ok h))
  obtain ⟨hsel, h⟩ | ⟨-, h⟩ := ite_eq_iff.mp h
  · exact .inr (.inr (hsel ▸ runSettleCollectPosition_ok h))
  obtain ⟨-, h⟩ | ⟨-, h⟩ := ite_eq_iff.mp h
  · exact absurd h runSettleDonate_ne_ok
  obtain ⟨-, h⟩ | ⟨-, h⟩ := ite_eq_iff.mp h
  · exact .inl (runSettleExtsload_ok h)
  obtain ⟨-, h⟩ | ⟨-, h⟩ := ite_eq_iff.mp h
  · exact .inl (runSettleExtsloadArray_ok h)
  obtain ⟨hsel, h⟩ | ⟨-, h⟩ := ite_eq_iff.mp h
  · exact .inr (.inr (hsel ▸ runSettleDeposit_ok h))
  obtain ⟨hsel, h⟩ | ⟨-, h⟩ := ite_eq_iff.mp h
  · exact .inr (.inr (hsel ▸ runSettleWithdraw_ok h))
  obtain ⟨-, h⟩ | ⟨-, h⟩ := ite_eq_iff.mp h
  · exact .inl (runSettleBalanceOf_ok h)
  obtain ⟨-, h⟩ | ⟨-, h⟩ := ite_eq_iff.mp h
  · exact .inr (.inl (runSetHaltGlobal_ok h))
  obtain ⟨-, h⟩ | ⟨-, h⟩ := ite_eq_iff.mp h
  · exact .inr (.inl (runSetHaltScoped_ok Slot.haltMarket (fun _ => trivial) h))
  obtain ⟨-, h⟩ | ⟨-, h⟩ := ite_eq_iff.mp h
  · exact .inr (.inl (runSetHaltScoped_ok Slot.haltAsset (fun _ => trivial) h))
  obtain ⟨hsel, h⟩ | ⟨-, h⟩ := ite_eq_iff.mp h
  · exact .inr (.inr (hsel ▸ runSeedSeamReserve_ok h))
  · cases h

/-! ## Frames -/

/-- The frame a call runs in. -/
def frameOf (hashes : Hashes) (env : Environment) (depth : ℕ) (blockNumber : UInt64)
    (r : Request) : Frame where
  hashes := hashes
  host := env.host
  blockNumber := blockNumber
  caller := r.caller
  callIndex := r.callIndex
  callback := (settleContract hashes).callback env depth

theorem run_succ (hashes : Hashes) (env : Environment) (depth : ℕ) (w : World)
    (r : Request) :
    run hashes env (depth + 1) w r =
      if r.input.length < 4 then .error .inputTooShort
      else
        match env.host.blockContext with
        | none => .error .noBlockContext
        | some blockNumber =>
            if r.self ≠ vaultAddr then .error .wrongContext
            else
              dispatch (frameOf hashes env depth blockNumber r) w (selectorOf r.input)
                (r.input.drop 4) r.gas r.readOnly :=
  rfl

/-- What a successful call of the precompile was. -/
theorem run_cases {env : Environment} {depth : ℕ} {w w' : World} {r : Request}
    {reply : Reply} (h : run hashes env depth w r = .ok (w', reply)) :
    ∃ d blockNumber, env.host.blockContext = some blockNumber ∧
      dispatch (frameOf hashes env d blockNumber r) w (selectorOf r.input) (r.input.drop 4)
        r.gas r.readOnly = .ok (w', reply) := by
  obtain ⟨d, rfl, -⟩ := Precompile.run_eq_ok h
  rw [run_succ, refuse_eq_ok] at h
  obtain ⟨-, h⟩ := h
  cases hblock : env.host.blockContext with
  | none => simp [hblock] at h
  | some blockNumber =>
      simp only [hblock, refuse_eq_ok] at h
      exact ⟨d, blockNumber, rfl, h.2⟩

theorem run_guarded {env : Environment} {depth : ℕ} {w w' : World} {r : Request}
    {reply : Reply} (hguard : w.storage .custodyGuard ≠ 0)
    (h : run hashes env depth w r = .ok (w', reply)) :
    w' = w ∨ AdminStep hashes env.host w w' := by
  obtain ⟨d, blockNumber, -, h⟩ := run_cases h
  obtain hview | hadmin | ⟨hfree, -⟩ := dispatch_cases h
  · exact .inl hview
  · exact .inr hadmin
  · exact absurd hfree hguard

theorem credit_outside {w : World} (hb : w.bank.Bounded)
    (call : World → Request → Except Error (World × Reply)) (asset owner : Address)
    (amount : ℕ) : Outside hashes host w (interact call w (.credit asset owner amount)) := by
  simp only [interact]
  split_ifs with hfits
  · apply OutsideStep.outside
    apply OutsideStep.bank _ (hb.set hfits)
    rw [Bank.set_apply]
    split_ifs with hvault
    · rw [← hvault.1, ← hvault.2]
      exact Nat.le_add_right _ _
    · exact le_rfl
  · exact .refl w

theorem debit_outside {w : World} (hb : w.bank.Bounded)
    (call : World → Request → Except Error (World × Reply)) (asset owner : Address)
    (amount : ℕ) : Outside hashes host w (interact call w (.debit asset owner amount)) := by
  simp only [interact]
  split_ifs with hself
  · exact .refl w
  · have hlt := hb asset owner
    apply OutsideStep.outside
    apply OutsideStep.bank _ (hb.set (by omega))
    rw [Bank.set_apply, if_neg (fun hc => hself ⟨hc.1.symm, hc.2.symm⟩)]

theorem log_outside {w : World} (call : World → Request → Except Error (World × Reply))
    (l : Log) : Outside hashes host w (interact call w (.log l)) := by
  simp only [interact]
  split_ifs with hself
  · exact .refl w
  · exact OutsideStep.outside (.log l hself)

theorem interact_outside {env : Environment} {depth : ℕ} {w : World} (hb : w.bank.Bounded)
    (hguard : w.storage .custodyGuard ≠ 0) (i : Interaction) :
    Outside hashes env.host w (interact (call hashes env depth) w i) := by
  cases i with
  | enter r =>
      simp only [interact, call_eq_deliver]
      cases hdeliver : deliverValue w r.caller r.value with
      | none => exact .refl w
      | some w1 =>
          have hout : Outside hashes env.host w w1 := deliverValue_outside hb hdeliver
          simp only
          cases hrun : run hashes env depth w1 r with
          | error e => exact .refl w
          | ok result =>
              obtain hview | hadmin := run_guarded (by rwa [hout.guard]) hrun
              · show Outside hashes env.host w result.1
                rw [hview]
                exact hout
              · exact hout.trans hadmin.outside
  | credit asset owner amount => exact credit_outside hb _ asset owner amount
  | debit asset owner amount => exact debit_outside hb _ asset owner amount
  | log l => exact log_outside _ l

/-- A frame whose token code is kept out by the guard. -/
def Frame.Guarded (fr : Frame) : Prop :=
  ∀ token w, w.bank.Bounded → w.storage .custodyGuard ≠ 0 →
    Outside fr.hashes fr.host w (fr.callback token w)

theorem frameOf_guarded (hashes : Hashes) (env : Environment) (depth : ℕ)
    (blockNumber : UInt64) (r : Request) :
    (frameOf hashes env depth blockNumber r).Guarded := by
  intro token w hb hguard
  show Outside hashes env.host w ((settleContract hashes).callback env depth token w)
  apply foldl_invariant
  · intro w1 i h1
    exact h1.trans (interact_outside (h1.bounded hb) (by rwa [h1.guard]) i)
  · exact Outside.refl w

/-! ## Value that moves behind the guard -/

section Transfers

variable {fr : Frame} {w w' : World}

/-- A transfer of a token is outside the handler's own writes. -/
theorem transferToken_outside (hfr : fr.Guarded) (hb : w.bank.Bounded)
    (hguard : w.storage .custodyGuard ≠ 0) {token sender recipient : Address} {amount : ℕ}
    (h : transferToken fr w token sender recipient amount = .ok w') :
    Outside fr.hashes fr.host w w' := by
  simp only [transferToken] at h
  split_ifs at h with hallowed
  have hbefore := hfr token w hb hguard
  cases htransfer : (fr.callback token w).bank.transfer token sender recipient amount with
  | none => simp [htransfer] at h
  | some bank =>
      simp only [htransfer, Except.ok.injEq] at h
      obtain ⟨-, -, hbank⟩ := Bank.transfer_eq_some htransfer
      have hmoved : OutsideStep fr.hashes fr.host (fr.callback token w)
          { fr.callback token w with bank := bank } := by
        apply OutsideStep.bank
        · rw [hbank]
          exact (hbefore.bounded hb).move _ _ _ _
        · rw [hbank, Bank.move_of_ne _ _ (fun hc => absurd hc.symm hallowed.1)]
      have hout := hbefore.trans hmoved.outside
      have hafter := hfr token { fr.callback token w with bank := bank } (hout.bounded hb)
        (by rwa [hout.guard])
      rw [← h]
      exact hout.trans hafter

theorem pullERC20Terminal_outside (hfr : fr.Guarded) (hb : w.bank.Bounded)
    (hguard : w.storage .custodyGuard ≠ 0) {token sender : Address} {amount : ℕ}
    (h : pullERC20Terminal fr w token sender amount = .ok w') :
    Outside fr.hashes fr.host w w' := by
  simp only [pullERC20Terminal, bind_eq_ok, refuse_eq_ok, Except.ok.injEq] at h
  obtain ⟨w2, htransfer, -, rfl⟩ := h
  have h1 := hfr token w hb hguard
  have h2 := h1.trans (transferToken_outside hfr (h1.bounded hb) (by rwa [h1.guard]) htransfer)
  exact h2.trans (hfr token w2 (h2.bounded hb) (by rwa [h2.guard]))

end Transfers

/-! ## Actions -/

/-- A call that ran behind the guard after its value was delivered. -/
structure Ran (hashes : Hashes) (env : Environment) (w : World) (r : Request)
    (w' : World) where
  depth : ℕ
  blockNumber : UInt64
  entered : World
  left : World
  delivered : deliverValue w r.caller r.value = some entered
  unguarded : entered.storage .custodyGuard = 0
  operation : Operation (frameOf hashes env depth blockNumber r) (selectorOf r.input)
    (r.input.drop 4) entered left
  final : w' = left.leave

theorem call_dispatch {env : Environment} {depth : ℕ} {w w' : World} {r : Request}
    {reply : Reply} (h : call hashes env depth w r = .ok (w', reply)) :
    ∃ d blockNumber w1, deliverValue w r.caller r.value = some w1 ∧
      dispatch (frameOf hashes env d blockNumber r) w1 (selectorOf r.input)
        (r.input.drop 4) r.gas r.readOnly = .ok (w', reply) := by
  obtain ⟨w1, hdeliver, hrun⟩ := Precompile.call_eq_ok.mp h
  obtain ⟨d, blockNumber, -, hdispatch⟩ := run_cases hrun
  exact ⟨d, blockNumber, w1, hdeliver, hdispatch⟩

/-- A successful call is a view, a registration or a halt switch, or it ran behind
the guard. -/
theorem call_cases {env : Environment} {depth : ℕ} {w w' : World} {r : Request}
    {reply : Reply} (h : call hashes env depth w r = .ok (w', reply)) :
    (∃ w1, deliverValue w r.caller r.value = some w1 ∧
      (w' = w1 ∨ AdminStep hashes env.host w1 w')) ∨
      Nonempty (Ran hashes env w r w') := by
  obtain ⟨d, blockNumber, w1, hdeliver, hdispatch⟩ := call_dispatch h
  obtain hview | hadmin | ⟨hfree, w2, hop, hfinal⟩ := dispatch_cases hdispatch
  · exact .inl ⟨w1, hdeliver, .inl hview⟩
  · exact .inl ⟨w1, hdeliver, .inr hadmin⟩
  · exact .inr ⟨⟨d, blockNumber, w1, w2, hdeliver, hfree, hop, hfinal⟩⟩

theorem deliverValue_storage {w w' : World} {caller : Address} {value : ℕ}
    (h : deliverValue w caller value = some w') : w'.storage = w.storage := by
  obtain ⟨-, -, -, rfl⟩ := deliverValue_eq_some h
  rfl

/-- The action is this call, and it goes through. -/
def Succeeds (hashes : Hashes) (w : World) (a : Action) (r : Request) : Prop :=
  a.interaction = .enter r ∧ ∃ w' reply, call hashes a.env a.depth w r = .ok (w', reply)

theorem exec_refused {w : World} {a : Action} {r : Request} {e : Error}
    (hr : a.interaction = .enter r) (h : call hashes a.env a.depth w r = .error e) :
    exec hashes w a = w := by
  simp only [exec_eq, hr, interact, h]

/-- One action of a run stays outside the guarded handlers or is a call that ran
one. -/
theorem exec_cases (hashes : Hashes) {w : World} (hb : w.bank.Bounded) (a : Action) :
    Outside hashes a.env.host w (exec hashes w a) ∨
      ∃ r, a.interaction = .enter r ∧ Nonempty (Ran hashes a.env w r (exec hashes w a)) := by
  rw [exec_eq]
  cases hi : a.interaction with
  | credit asset owner amount => exact .inl (credit_outside hb _ asset owner amount)
  | debit asset owner amount => exact .inl (debit_outside hb _ asset owner amount)
  | log l => exact .inl (log_outside _ l)
  | enter r =>
      simp only [interact]
      cases hcall : call hashes a.env a.depth w r with
      | error e => exact .inl (.refl w)
      | ok result =>
          obtain ⟨w1, hdeliver, hrest⟩ | hran := call_cases hcall
          · have hout : Outside hashes a.env.host w w1 := deliverValue_outside hb hdeliver
            obtain rfl | hadmin := hrest
            · exact .inl hout
            · exact .inl (hout.trans hadmin.outside)
          · exact .inr ⟨r, rfl, hran⟩

/-! ## A sample market -/

/-- Argument words as bytes. -/
def wordBytes (args : List Word) : List UInt8 := args.flatMap hashBytes

/-- A host with shared memory in a transaction; its tokens never call back. -/
def envAt (tx : Word) : Environment where
  host := ⟨some 7, some ⟨true, 0xC, 0xD, tx, 0x60⟩, fun _ _ => true, fun _ => none,
    fun _ => none⟩
  reactions _ _ _ := []

/-- A call in a transaction of its own. -/
def callAt (tx : Word) (caller : Address) (value selector : ℕ) (args : List UInt8) :
    Action where
  env := envAt tx
  depth := 1024
  interaction := .enter
    ⟨caller, vaultAddr, value, 0, natToBytes 4 selector ++ args, 1000000, false⟩

/-- The native coin against a token. -/
def sampleKey : PoolKey := ⟨native, 0x1234, 3000, 60, 0⟩

/-- The argument words of the sample key. -/
def sampleKeyArgs : List Word := [0, 0x1234, 3000, 60, 0]

/-- The id of the sample key. -/
def samplePool : Word := 0xe2aee89569f4ab411e175c578c8489e6a2430db7ff24b9b75016de18c2c64033

/-- The id of the sample position: salt one, ticks -60 to 60. -/
def sampleOrder : Word := 0x54b6870472c49e7afee5c3e1df414c1f84f153a8436edeacbd02411f43e41097

/-- A crossing back of some native coins to the owner of the sample position. -/
def sampleObject (amount : UInt64) : List UInt8 := encodeClaim ⟨0xA11CE, 0, amount⟩

/-- The claim id of the first call of a transaction, where the samples need it. -/
def sampleClaimID (tx : Word) : Word :=
  if tx = 1 then 0x22190fd02e3729e9192bda1f28695d9b769e10a7eca8e6943f1c7a6e85a22049
  else if tx = 2 then 0x3877e708d84ba93171ce61dc8ca8d36da65b71633693d820c50416d9f1df2352
  else 0x47495439f93d22a653f344c35542dd9b7b3be92c39ae99d9dab2523fd6bee4b6

/-- The two hash functions where the samples need them. -/
def sampleHashes : Hashes where
  keccak256 bs :=
    if bs = encodePoolKeyABI sampleKey then samplePool
    else if bs = makerOrderBytes 0xA11CE samplePool 1 (-60) 60 then sampleOrder
    else if bs = exportedObjectHashDomain ++ sampleObject 40 then
      0x2d03609012c4ac68c7fad76383c2a4adaa4c233e7bbee04582cbced2147ba3a1
    else if bs = exportedObjectHashDomain ++ sampleObject 60 then
      0x26d8780ad7bf532fd327fc4980841c29884ec5c4d0ce3f0a520987b22fe10e59
    else 0
  sha256 bs :=
    let claimBytes := fun tx : Word =>
      claimDomain ++ hashBytes 0xC ++ hashBytes 0xD ++ hashBytes tx ++ natToBytes 4 0
    if bs = claimBytes 1 then sampleClaimID 1
    else if bs = claimBytes 2 then sampleClaimID 2
    else if bs = claimBytes 3 then sampleClaimID 3
    else 0

/-- A world before the first call: every account but the vault owns some of
everything. -/
def fundedWorld : World where
  storage := Storage.empty
  bank _ owner := if owner = vaultAddr then 0 else 2 ^ 200
  logs := []
  journal := []

theorem fundedWorld_genesis : Genesis fundedWorld := by
  refine ⟨rfl, fun asset owner => ?_, rfl⟩
  show (if owner = vaultAddr then 0 else 2 ^ 200) < 2 ^ 256
  split_ifs <;> norm_num

/-- The registration of the sample key at a price below one. -/
def sampleInitialize : Action :=
  callAt 0 0xA11CE 0 selInitialize (wordBytes (sampleKeyArgs ++ [0x800000000000000000000000]))

/-- A change of the sample position. -/
def sampleModify (tx : Word) (delta : ℤ) : Action :=
  callAt tx 0xA11CE 0 selModifyLiquidity
    (wordBytes (sampleKeyArgs ++ [intWord (-60), intWord 60, intWord delta, 1]))

/-- A collect of some native coins for the sample position. -/
def sampleCollect (claimID : Word) (amount : UInt64) : Action :=
  callAt 0 0xA11CE 0 selCollectPosition
    (wordBytes [claimID, 0, sampleOrder] ++ sampleObject amount)

end LuxPrecompile.Settle
