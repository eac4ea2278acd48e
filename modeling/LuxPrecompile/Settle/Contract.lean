import LuxPrecompile.Dex.TickMath
import LuxPrecompile.Evm.Calldata
import LuxPrecompile.Settle.Codec

/-!
# The settlement precompile

The selectors of `0x9999`: `dex/settle_module.go` and the handlers it dispatches
to.  Value crosses to the D-Chain and back as claims (`dex/native_dchain_client.go`,
`dex/native_zap.go`); a token transfer or balance read runs the code of the token,
whose effect on the world is `callback` and is filled in by the run model.  The
balances of a token are what the token reports.
-/

namespace LuxPrecompile.Settle

open Dex Evm

/-- `poolManagerAddr9999`, the account that holds all settlement state and value. -/
def vaultAddr : Address := 0x9999

def gasHaltAdmin : ℕ := 25000
def gasSeedReserve : ℕ := 30000
def gasNativeOrder : ℕ := 40000
def gasNativeSettlement : ℕ := 50000
def gasPoolCreate : ℕ := 50000
def gasAddLiquidity : ℕ := 20000
def gasSettlement : ℕ := 8000
def gasPoolLookup : ℕ := 100

def feeMax : ℕ := 100000
def maxTickSpacing : ℤ := 32767

/-! ## What a call works on -/

/-- A log entry as the host keeps it. -/
structure Log where
  address : Address
  topics : List Word
  data : List UInt8
deriving DecidableEq

/-- History entries; no function reads them. -/
inductive Entry
  | registered (poolID : Word) (key : PoolKey) (record : MarketRecord)
  | haltSet (caller : Address) (slot : Slot) (on : Bool)
  | seeded (asset : Word) (amount : ℕ)
  | exported (claimID : Word) (owner : Address) (body : ClaimBody)
  | imported (claimID : Word) (body : ClaimBody)
  | committed (orderID : Word) (owner : Address) (amount : ℕ)
  | requested (orderID : Word) (owner : Address)
  | collected (orderID : Word) (owner : Address) (amount : ℕ)
deriving DecidableEq

/-- The part of the host state a call sees.  `logs` and `journal` only grow, the
latest entry first; `journal` is the history of what calls did. -/
structure World where
  storage : Storage
  bank : Bank
  logs : List Log
  journal : List Entry

/-- `contract.AtomicState`. -/
structure Atomic where
  /-- The shared-memory handle is there. -/
  memory : Bool
  cChainID : Word
  dChainID : Word
  txID : Word
  /-- Zero where the network has none. -/
  governanceController : Address

/-- What the host answers during one top-level call. -/
structure Host where
  /-- The block context, if there is one, with its number. -/
  blockContext : Option UInt64
  /-- The cross-chain atomic capability, if the host implements it. -/
  atomic : Option Atomic
  /-- A transfer of the given owner's balance goes through: there is a call
  surface, the token has code, and it neither reverts nor answers false. -/
  tokenAllows : Address → Address → Bool
  /-- The refusal of `RequireResolvedAsset` and `RequireRealOnChain`, if any. -/
  admission : PoolKey → Option ℕ
  /-- The slot of the layout with a given hash. -/
  slotAt : Word → Option Slot

/-- The context of one frame. -/
structure Frame where
  hashes : Hashes
  host : Host
  blockNumber : UInt64
  caller : Address
  /-- `AtomicState.CallIndex`. -/
  callIndex : UInt32
  /-- What a token's code does to the world when it runs. -/
  callback : Address → World → World

def World.withStorage (w : World) (st : Storage) : World := { w with storage := st }

def World.emit (w : World) (topics : List Word) (data : List UInt8) : World :=
  { w with logs := ⟨vaultAddr, topics, data⟩ :: w.logs }

def World.record (w : World) (e : Entry) : World := { w with journal := e :: w.journal }

namespace World

variable (w : World) (st : Storage) (topics : List Word) (data : List UInt8) (e : Entry)

@[simp]
theorem withStorage_storage : (w.withStorage st).storage = st := rfl

@[simp]
theorem withStorage_bank : (w.withStorage st).bank = w.bank := rfl

@[simp]
theorem withStorage_journal : (w.withStorage st).journal = w.journal := rfl

@[simp]
theorem emit_storage : (w.emit topics data).storage = w.storage := rfl

@[simp]
theorem emit_bank : (w.emit topics data).bank = w.bank := rfl

@[simp]
theorem emit_journal : (w.emit topics data).journal = w.journal := rfl

@[simp]
theorem record_storage : (w.record e).storage = w.storage := rfl

@[simp]
theorem record_bank : (w.record e).bank = w.bank := rfl

@[simp]
theorem record_journal : (w.record e).journal = e :: w.journal := rfl

end World

/-! ## Token calls -/

/-- `TokenBalanceOf`: the token's code runs and reports a balance. -/
def tokenBalanceOf (fr : Frame) (w : World) (token owner : Address) : World × ℕ :=
  let w' := fr.callback token w
  (w', w'.bank token owner)

/-- A token transfer.  The token's code runs before and after the amount moves; the
zero address has no code (`ErrERC20NoCode`). -/
def transferToken (fr : Frame) (w : World) (token sender recipient : Address)
    (amount : ℕ) : Except Error World :=
  let before := fr.callback token w
  if token ≠ native ∧ fr.host.tokenAllows token sender then
    match before.bank.transfer token sender recipient amount with
    | none => .error .erc20TransferFailed
    | some bank => .ok (fr.callback token { before with bank := bank })
  else .error .erc20TransferFailed

/-- `pullERC20Terminal`: the vault must have received at least the amount. -/
def pullERC20Terminal (fr : Frame) (w : World) (token sender : Address) (amount : ℕ) :
    Except Error World := do
  let before := tokenBalanceOf fr w token vaultAddr
  let w1 ← transferToken fr before.1 token sender vaultAddr amount
  let after := tokenBalanceOf fr w1 token vaultAddr
  if (after.2 : ℤ) - before.2 < amount then .error .erc20UnderDelivered
  else .ok after.1

/-- `pushERC20Terminal` and `safeTransferTokenTo`. -/
def pushERC20Terminal (fr : Frame) (w : World) (token recipient : Address) (amount : ℕ) :
    Except Error World :=
  transferToken fr w token vaultAddr recipient amount

/-! ## The native coin -/

/-- `SubBalance` and `AddBalance` of native coin.  The supply of the coin fits a
word, so the credit never wraps; a world with more coin is refused. -/
def moveNative (w : World) (sender recipient : Address) (amount : ℕ) (short : Error) :
    Except Error World :=
  if w.bank native sender < amount then .error short
  else
    match w.bank.transfer native sender recipient amount with
    | none => .error .supplyOverflow
    | some bank => .ok { w with bank := bank }

def moveNativeIntoVault (w : World) (caller : Address) (amount : UInt64) :
    Except Error World :=
  moveNative w caller vaultAddr amount.toNat .nativeFundsShort

def moveNativeOutOfVault (w : World) (recipient : Address) (amount : UInt64) :
    Except Error World :=
  moveNative w vaultAddr recipient amount.toNat .custodyUnbacked

/-- `deliveredNative`: what the balance exceeds the two pots by. -/
def deliveredNative (w : World) : ℤ :=
  (w.bank native vaultAddr : ℤ) - (loadSettleVault w.storage 0 + loadCustody w.storage 0)

/-! ## The funding rail -/

def recordCustodyIn (st : Storage) (asset : Word) (amount : UInt64) : Except Error Storage :=
  storeCustody st asset (loadCustody st asset + amount.toNat)

def recordCustodyOut (st : Storage) (asset : Word) (amount : UInt64) : Except Error Storage :=
  if loadCustody st asset < amount.toNat then .error .custodyUnbacked
  else storeCustody st asset (loadCustody st asset - amount.toNat)

/-- `lockAsset`: accounting first, then the value moves in. -/
def lockAsset (fr : Frame) (w : World) (caller : Address) (asset : Word)
    (assetAddr : Address) (amount : UInt64) (record : World → Except Error World) :
    Except Error World :=
  if amount = 0 then .error .nativeBadAmount
  else if isNativeAsset asset ∧ w.bank native caller < amount.toNat then
    .error .nativeFundsShort
  else do
    let st ← recordCustodyIn w.storage asset amount
    let w1 ← record (w.withStorage st)
    if isNativeAsset asset then moveNativeIntoVault w1 caller amount
    else pullERC20Terminal fr w1 assetAddr caller amount.toNat

/-- `Transfer`, what a caller asks the rail to move. -/
structure Transfer where
  owner : Address
  beneficiary : Address
  asset : Word
  assetAddr : Address
  amount : UInt64

def claimExportedSig : Word :=
  0x60228830b6867a488e628c6413c64a44ba252f7e62d7d452e5e3280f450b2a01

/-- The accounting `Export` runs before the value moves. -/
def recordExport (fr : Frame) (dChainID claimID : Word) (owner : Address) (body : ClaimBody)
    (w : World) : Except Error World :=
  if isClaimWritten w.storage claimID then .error .exportReplay
  else
    let st := markClaimWritten w.storage claimID fr.blockNumber
    let st := stageAtomicPut st dChainID claimID (encodeClaim body)
    let w := (w.withStorage st).emit [claimExportedSig, claimID, dChainID]
      (hashBytes (addressWord owner) ++ hashBytes (addressWord body.beneficiary) ++
        hashBytes body.asset ++ natToBytes 32 body.amount.toNat)
    .ok (w.record (.exported claimID owner body))

/-- `Export`: the claim id of a C->D crossing. -/
def exportClaim (fr : Frame) (atomic : Atomic) (w : World) (t : Transfer) :
    Except Error (World × Word) :=
  if !atomic.memory then .error .nativeNoAtomicMemory
  else if t.amount = 0 then .error .nativeBadAmount
  else if atomic.dChainID = 0 then .error .nativeNoAtomicMemory
  else do
    let beneficiary := if t.beneficiary = 0 then t.owner else t.beneficiary
    let claimID := deriveClaimID fr.hashes atomic.cChainID atomic.dChainID atomic.txID
      fr.callIndex
    let w' ← lockAsset fr w t.owner t.asset t.assetAddr t.amount
      (recordExport fr atomic.dChainID claimID t.owner ⟨beneficiary, t.asset, t.amount⟩)
    .ok (w', claimID)

/-- `Claim`, what an importing call declares. -/
structure Claim where
  id : Word
  asset : Word
  beneficiary : Address
  object : List UInt8

def settleImportEventSig : Word :=
  0x2f4aaf39c74a3c2c27258dc0faf96a16df38f9ef01bfbb8446f999b17121cea2

/-- `bindImportObject` with its declaration. -/
def bindImportObject (fr : Frame) (w : World) (sourceChainID claimID : Word)
    (object : List UInt8) : Except Error (World × ClaimBody) :=
  match decodeClaim object with
  | none => .error .importObjectMalformed
  | some body =>
      if body.amount = 0 then .error .importAmount
      else
        .ok (w.emit [settleImportEventSig, claimID]
          (hashBytes sourceChainID ++ hashBytes (settleObjectHash fr.hashes object)), body)

def creditAsset (fr : Frame) (w : World) (body : ClaimBody) : Except Error World := do
  let st ← recordCustodyOut w.storage body.asset body.amount
  if isNativeAsset body.asset then
    moveNativeOutOfVault (w.withStorage st) body.beneficiary body.amount
  else
    pushERC20Terminal fr (w.withStorage st) (assetAddress body.asset) body.beneficiary
      body.amount.toNat

/-- `Import`: consume a D->C claim once and credit its beneficiary. -/
def importClaim (fr : Frame) (atomic : Atomic) (w : World) (cl : Claim) :
    Except Error (World × UInt64) :=
  if !atomic.memory then .error .nativeNoAtomicMemory
  else if atomic.dChainID = 0 then .error .nativeNoAtomicMemory
  else do
    let (w1, body) ← bindImportObject fr w atomic.dChainID cl.id cl.object
    if body.asset ≠ cl.asset then .error .importAsset
    else if body.beneficiary ≠ cl.beneficiary then .error .importBeneficiary
    else if isClaimConsumed w1.storage cl.id then .error .importReplay
    else do
      let st := markClaimConsumed w1.storage cl.id fr.blockNumber
      let st := stageAtomicRemove st atomic.dChainID cl.id
      let w2 ← creditAsset fr ((w1.withStorage st).record (.imported cl.id body)) body
      .ok (w2, body.amount)

/-! ## Markets -/

/-- `marketFor`: the id of a registered key. -/
def marketFor (hashes : Hashes) (st : Storage) (key : PoolKey) : Option Word :=
  let poolID := key.id hashes
  if (loadMarket st poolID).status ≠ .active then none else some poolID

def admitMarketAssets (host : Host) (key : PoolKey) : Except Error Unit :=
  match host.atomic with
  | none => .error .settleNoAtomicState
  | some _ =>
      match host.admission key with
      | some code => .error (.assetNotAdmitted code)
      | none => .ok ()

/-- The checks of `initialize` on its arguments. -/
def checkMarketKey (key : PoolKey) (sqrtPriceX96 : ℕ) : Except Error Unit :=
  if !currenciesSorted key.currency0 key.currency1 then .error .currencyNotSorted
  else if feeMax < key.fee then .error .initFeeTooHigh
  else if key.tickSpacing ≤ 0 ∨ maxTickSpacing < key.tickSpacing then .error .initTickSpacing
  else if sqrtPriceX96 < minSqrtRatio ∨ maxSqrtRatio ≤ sqrtPriceX96 then .error .initSqrtRange
  else .ok ()

/-- The record of a new market. -/
def newMarket (key : PoolKey) (sqrtPriceX96 : ℕ) (tick : ℤ) (creator : Address) :
    MarketRecord where
  status := .active
  sqrtPriceX96 := sqrtPriceX96
  tick := tick
  currency0 := key.currency0
  currency1 := key.currency1
  fee := key.fee
  tickSpacing := key.tickSpacing
  creator := creator

def initializeEventSig : Word :=
  0xdd466e674ea557f56295e2d0218a125ea4b4f0f6f3307b95f85e6110838d6438

def emitInitializeEvent (w : World) (poolID : Word) (key : PoolKey) (sqrtPriceX96 : ℕ)
    (tick : ℤ) : World :=
  w.emit [initializeEventSig, poolID, addressWord key.currency0, addressWord key.currency1]
    (natToBytes 32 key.fee ++ hashBytes (intWord key.tickSpacing) ++
      hashBytes (addressWord key.hooks) ++ natToBytes 32 sqrtPriceX96 ++
      hashBytes (intWord tick))

def runSettleInitialize (fr : Frame) (w : World) (data : List UInt8) (gas : ℕ)
    (readOnly : Bool) : Except Error (World × Reply) :=
  if readOnly then .error .readOnly
  else do
    let gasLeft ← chargeGas Error.outOfGas gas gasPoolCreate
    if data.length < 192 then .error .shortArguments
    else do
      let key ← decodePoolKey (slice data 0 160)
      let sqrtPriceX96 := (argWord data 160).toNat
      checkMarketKey key sqrtPriceX96
      let poolID := key.id fr.hashes
      if (loadMarket w.storage poolID).status ≠ .none then .error .poolAlreadyInitialized
      else
        match getTickAtSqrtRatio sqrtPriceX96 with
        | none => .error .initSqrtRange
        | some tick => do
            admitMarketAssets fr.host key
            let rec' := newMarket key sqrtPriceX96 tick fr.caller
            let st ← storeMarket w.storage poolID rec'
            let w := emitInitializeEvent (w.withStorage st) poolID key sqrtPriceX96 tick
            .ok (w.record (.registered poolID key rec'), ⟨hashBytes (intWord tick), gasLeft⟩)

/-! ## The guard -/

/-- A handler between `enterCustodyKV` and the deferred `exitCustodyKV`. -/
def guarded (w : World) (body : World → Except Error (World × Reply)) :
    Except Error (World × Reply) :=
  match enterCustody w.storage with
  | none => .error .custodyReentrant
  | some st => do
      let (w', reply) ← body (w.withStorage st)
      .ok (w'.withStorage (exitCustody w'.storage), reply)

/-! ## Swaps -/

def buildTransfer (key : PoolKey) (params : SwapParams) (caller : Address) :
    Except Error Transfer :=
  let assetIn := (swapAssetDirection key params).1
  let mag := params.amountSpecified.natAbs
  if mag = 0 ∨ 2 ^ 64 ≤ mag then .error .invalidAmount
  else .ok ⟨caller, caller, assetIn, assetAddress assetIn, UInt64.ofNat mag⟩

def decodeSettlementBody (body : List UInt8) (key : PoolKey) (params : SwapParams)
    (caller : Address) : Except Error Claim :=
  if body.length ≠ 32 + claimSize then .error .settleBodyMalformed
  else
    .ok ⟨bytesToHash (slice body 0 32), (swapAssetDirection key params).2, caller,
      slice body 32 (32 + claimSize)⟩

/-- `accrueVolume`, in one of 64 buckets. -/
def accrueVolume (st : Storage) (poolID : Word) (amount : UInt64) (epoch : UInt64) :
    Except Error Storage :=
  if amount = 0 then .ok st
  else
    let slot := Slot.volBucket poolID (epoch % 64)
    storeAmount st slot (loadAmount st slot + amount.toNat)

def dexFillEventSig : Word :=
  0x6f744d074efc4fa8512636853f8a4c67842f230d4279421c7599dc5c5daf9874

/-- `PackBalanceDelta` of two signed 128-bit amounts. -/
def packBalanceDelta (amount0 amount1 : ℤ) : List UInt8 :=
  natToBytes 16 (amount0 % 2 ^ 128).toNat ++ natToBytes 16 (amount1 % 2 ^ 128).toNat

/-- Phase B of a swap: consume a D->C claim. -/
def settlePhaseB (fr : Frame) (atomic : Atomic) (poolID : Word) (key : PoolKey)
    (params : SwapParams) (body : List UInt8) (gas : ℕ) (w : World) :
    Except Error (World × Reply) := do
  let gasLeft ← chargeGas Error.outOfGas gas gasNativeSettlement
  checkHalt w.storage poolID (swapAssetDirection key params).1 (swapAssetDirection key params).2
  let claim ← decodeSettlementBody body key params fr.caller
  let (w1, credited) ← importClaim fr atomic w claim
  let st ← accrueVolume w1.storage poolID credited fr.blockNumber
  let w2 := (w1.withStorage st).emit [dexFillEventSig, poolID, addressWord fr.caller]
    (natToBytes 32 credited.toNat ++ natToBytes 32 fr.blockNumber.toNat)
  let out : ℤ := -(credited.toNat : ℤ)
  .ok (w2, ⟨if params.zeroForOne then packBalanceDelta 0 out else packBalanceDelta out 0,
    gasLeft⟩)

/-- Phase A of a swap: export the input. -/
def settlePhaseA (fr : Frame) (atomic : Atomic) (poolID : Word) (key : PoolKey)
    (params : SwapParams) (gas : ℕ) (w : World) : Except Error (World × Reply) := do
  let gasLeft ← chargeGas Error.outOfGas gas gasNativeOrder
  checkHalt w.storage poolID (swapAssetDirection key params).1 (swapAssetDirection key params).2
  let t ← buildTransfer key params fr.caller
  let (w1, claimID) ← exportClaim fr atomic w t
  .ok (w1, ⟨hashBytes claimID, gasLeft⟩)

/-- The atomic capability with its shared memory. -/
def atomicMemory (host : Host) : Option Atomic :=
  host.atomic.bind fun a => if a.memory then some a else none

def settleSwap (fr : Frame) (w : World) (data : List UInt8) (gas : ℕ) (readOnly : Bool) :
    Except Error (World × Reply) :=
  if readOnly then .error .readOnly
  else do
    let (key, params, hookData) ← decodeSwapInput data
    match atomicMemory fr.host with
    | none => .error .settleNoAtomicState
    | some atomic =>
        match marketFor fr.hashes w.storage key with
        | none => .error .swapNoMarket
        | some poolID =>
            guarded w fun w => do
              let (phase, body) ← decodeSwapPhase hookData
              match phase with
              | .settlement => settlePhaseB fr atomic poolID key params body gas w
              | .order => settlePhaseA fr atomic poolID key params gas w

/-! ## Positions -/

/-- `CancelSubmitted`, the log of a withdraw request. -/
def positionClosingSig : Word :=
  0x73d96d9ef0e228db7c105250a4e7e497ba371fd5a2ba537dadb48c381c57874a

def encodeOrderResult (orderID : Word) (remaining : ℕ) : List UInt8 :=
  hashBytes orderID ++ natToBytes 32 remaining

def commitPosition (fr : Frame) (atomic : Atomic) (key : PoolKey)
    (params : ModifyLiquidityParams) (side : MakerSide) (lockedAsset orderID : Word)
    (gasLeft : ℕ) (w : World) : Except Error (World × Reply) :=
  if isHalted w.storage (.haltAsset lockedAsset) then .error .assetHalted
  else if 2 ^ 64 ≤ params.liquidityDelta ∨ params.liquidityDelta ≤ 0 then
    .error .makerAmountRange
  else do
    let committed := UInt64.ofNat params.liquidityDelta.toNat
    let (w1, commitObjID) ← exportClaim fr atomic w
      ⟨fr.caller, fr.caller, lockedAsset, assetAddress lockedAsset, committed⟩
    let st ← storeLockedReserve w1.storage fr.caller lockedAsset
      (loadLockedReserve w1.storage fr.caller lockedAsset + committed.toNat)
    let existing := loadRestingOrder st orderID
    if existing.status = .closing then .error .lpCommitWhileClosing
    else do
      let newAmt := if existing.status = .open then existing.lockedAmt + committed.toNat
        else committed.toNat
      let st ← storeRestingOrder st orderID
        { owner := fr.caller
          poolID := key.id fr.hashes
          side := side
          lockedAsset := lockedAsset
          lockedAmt := newAmt
          tickLower := params.tickLower
          tickUpper := params.tickUpper
          salt := params.salt
          status := .open }
      let st := st.set (.order orderID .commitObject) commitObjID
      let st := appendOwnerOrder st fr.caller orderID
      .ok ((w1.withStorage st).record (.committed orderID fr.caller committed.toNat),
        ⟨encodeOrderResult orderID newAmt, gasLeft⟩)

def requestPositionWithdraw (fr : Frame) (orderID : Word) (gasLeft : ℕ) (w : World) :
    Except Error (World × Reply) :=
  let order := loadRestingOrder w.storage orderID
  if order.status = .none then .error .makerNotOwner
  else if order.owner ≠ fr.caller then .error .makerNotOwner
  else if order.status = .closed then .error .makerAlreadyClosed
  else do
    let st ← storeRestingOrder w.storage orderID { order with status := .closing }
    let w := (w.withStorage st).emit [positionClosingSig, orderID, order.poolID]
      (hashBytes (addressWord fr.caller))
    .ok (w.record (.requested orderID fr.caller),
      ⟨encodeOrderResult orderID order.lockedAmt, gasLeft⟩)

/-- The checks of `modifyLiquidity` on its parameters; every magnitude of a decoded
delta is a word. -/
def checkLiquidity (params : ModifyLiquidityParams) : Except Error Unit :=
  if params.liquidityDelta = 0 then .error .makerZeroDelta
  else if params.tickUpper ≤ params.tickLower ∨ params.tickLower < minTick ∨
      maxTick < params.tickUpper then
    .error .makerBadTickRange
  else .ok ()

def runSettleModifyLiquidity (fr : Frame) (w : World) (data : List UInt8) (gas : ℕ)
    (readOnly : Bool) : Except Error (World × Reply) :=
  if readOnly then .error .readOnly
  else do
    let gasLeft ← chargeGas Error.outOfGas gas gasAddLiquidity
    let (key, params, hookData) ← decodeModifyLiquidityInput data
    checkLiquidity params
    match atomicMemory fr.host with
    | none => .error .lpNoAtomicState
    | some atomic =>
        match marketFor fr.hashes w.storage key with
        | none => .error .makerNoMarket
        | some poolID =>
            let side := decodeMakerSide hookData
            let lockedAsset := lockedAssetForSide key side
            let orderID := makerOrderID fr.hashes fr.caller poolID params.salt
              params.tickLower params.tickUpper
            guarded w fun w =>
              if 0 < params.liquidityDelta then
                commitPosition fr atomic key params side lockedAsset orderID gasLeft w
              else requestPositionWithdraw fr orderID gasLeft w

def collectPositionRecord (st : Storage) (positionID : Word) (owner : Address)
    (amount : UInt64) : Except Error Storage :=
  let order := loadRestingOrder st positionID
  if order.status ≠ .open ∧ order.status ≠ .closing then .ok st
  else if order.owner ≠ owner then .error .lpForeignPosition
  else do
    let amt := min amount.toNat order.lockedAmt
    let lockedAmt := order.lockedAmt - amt
    let st ← storeRestingOrder st positionID
      { order with
        lockedAmt := lockedAmt
        status := if lockedAmt = 0 then .closed else order.status }
    let reserve := max (loadLockedReserve st order.owner order.lockedAsset) amt
    storeLockedReserve st order.owner order.lockedAsset (reserve - amt)

def runSettleCollectPosition (fr : Frame) (w : World) (data : List UInt8) (gas : ℕ)
    (readOnly : Bool) : Except Error (World × Reply) :=
  if readOnly then .error .readOnly
  else do
    let gasLeft ← chargeGas Error.outOfGas gas gasNativeSettlement
    match atomicMemory fr.host with
    | none => .error .lpNoAtomicState
    | some atomic =>
        if data.length ≠ 96 + claimSize then .error .lpBadCollectInput
        else
          guarded w fun w => do
            let positionID := argWord data 64
            let (w1, credited) ← importClaim fr atomic w
              ⟨argWord data 0, argWord data 32, fr.caller, slice data 96 (96 + claimSize)⟩
            let st ← collectPositionRecord w1.storage positionID fr.caller credited
            .ok ((w1.withStorage st).record (.collected positionID fr.caller credited.toNat),
              ⟨natToBytes 32 credited.toNat, gasLeft⟩)

/-! ## Deposits and withdrawals -/

/-- The two ledger writes of a deposit. -/
def recordDeposit (st : Storage) (account : Address) (asset : Word) (amount : ℕ) :
    Except Error Storage := do
  let st ← storeDepositorClaim st account asset (loadDepositorClaim st account asset + amount)
  storeSettleVault st asset (loadSettleVault st asset + amount)

def runSettleDeposit (fr : Frame) (w : World) (data : List UInt8) (gas : ℕ)
    (readOnly : Bool) : Except Error (World × Reply) :=
  if readOnly then .error .readOnly
  else do
    let gasLeft ← chargeGas Error.outOfGas gas gasSettlement
    if data.length < 64 then .error .shortArguments
    else
      let token := argAddress data 0
      let amount := (argWord data 32).toNat
      let asset := assetID token
      if amount = 0 then .error .invalidAmount
      else if isHalted w.storage (.haltAsset asset) then .error .assetHalted
      else
        guarded w fun w => do
          if isNativeAsset asset then
            if deliveredNative w < amount then .error .settleDepositShort
            else do
              let st ← recordDeposit w.storage fr.caller asset amount
              .ok (w.withStorage st, ⟨natToBytes 32 amount, gasLeft⟩)
          else do
            let st ← recordDeposit w.storage fr.caller asset amount
            let w' ← pullERC20Terminal fr (w.withStorage st) token fr.caller amount
            .ok (w', ⟨natToBytes 32 amount, gasLeft⟩)

/-- The value movement of a withdrawal. -/
def payWithdrawal (fr : Frame) (w : World) (token : Address) (amount : ℕ) :
    Except Error World :=
  if isNativeAsset (assetID token) then
    moveNative w vaultAddr fr.caller amount .settleClaimShort
  else pushERC20Terminal fr w token fr.caller amount

def runSettleWithdraw (fr : Frame) (w : World) (data : List UInt8) (gas : ℕ)
    (readOnly : Bool) : Except Error (World × Reply) :=
  if readOnly then .error .readOnly
  else do
    let gasLeft ← chargeGas Error.outOfGas gas gasSettlement
    if data.length < 64 then .error .shortArguments
    else
      let token := argAddress data 0
      let want := (argWord data 32).toNat
      let asset := assetID token
      guarded w fun w =>
        let claim := loadDepositorClaim w.storage fr.caller asset
        let held := loadSettleVault w.storage asset
        let realized := min (min want claim) held
        if realized = 0 then .ok (w, ⟨natToBytes 32 0, gasLeft⟩)
        else do
          let st ← storeDepositorClaim w.storage fr.caller asset (claim - realized)
          let st ← storeSettleVault st asset (held - realized)
          let w' ← payWithdrawal fr (w.withStorage st) token realized
          .ok (w', ⟨natToBytes 32 realized, gasLeft⟩)

/-! ## Governance -/

def governanceController (host : Host) : Except Error Address :=
  match host.atomic with
  | none => .error .noGovernance
  | some atomic =>
      if atomic.governanceController = 0 then .error .noGovernance
      else .ok atomic.governanceController

/-- The authority check of every governance selector. -/
def requireGovernance (fr : Frame) : Except Error Unit := do
  let gov ← governanceController fr.host
  if fr.caller ≠ gov then .error .unauthorized else .ok ()

/-- `SetHaltGlobal`, `SetHaltMarket` and `SetHaltAsset`, by their slot. -/
def applyHalt (fr : Frame) (w : World) (slot : Slot) (on : Bool) : World :=
  (w.withStorage (setHalt w.storage slot on)).record (.haltSet fr.caller slot on)

def runSetHaltGlobal (fr : Frame) (w : World) (data : List UInt8) (gas : ℕ)
    (readOnly : Bool) : Except Error (World × Reply) :=
  if readOnly then .error .readOnly
  else do
    let gasLeft ← chargeGas Error.outOfGas gas gasHaltAdmin
    requireGovernance fr
    if data.length < 32 then .error .shortArguments
    else
      let on := decide (data.getD 31 0 ≠ 0)
      .ok (applyHalt fr w .haltGlobal on, ⟨[], gasLeft⟩)

/-- `runSetHaltScoped` with `SetHaltMarket` or `SetHaltAsset`. -/
def runSetHaltScoped (scope : Word → Slot) (fr : Frame) (w : World) (data : List UInt8)
    (gas : ℕ) (readOnly : Bool) : Except Error (World × Reply) :=
  if readOnly then .error .readOnly
  else do
    let gasLeft ← chargeGas Error.outOfGas gas gasHaltAdmin
    requireGovernance fr
    if data.length < 64 then .error .shortArguments
    else
      let on := decide (data.getD 63 0 ≠ 0)
      .ok (applyHalt fr w (scope (argWord data 0)) on, ⟨[], gasLeft⟩)

def decodeAssetAmount (data : List UInt8) : Except Error (Address × ℕ) :=
  if data.length < 64 then .error .seedShortInput
  else if (argWord data 32).toNat = 0 then .error .seedBadAmount
  else .ok (argAddress data 0, (argWord data 32).toNat)

/-- The pot write of a seed. -/
def recordSeed (w : World) (asset : Word) (amount : ℕ) : Except Error World := do
  let st ← storeCustody w.storage asset (loadCustody w.storage asset + amount)
  .ok ((w.withStorage st).record (.seeded asset amount))

/-- `receiveOperatorValue`: a native seed takes everything that was delivered. -/
def receiveOperatorValue (fr : Frame) (w : World) (token : Address) (amount : ℕ) :
    Except Error (World × ℕ) :=
  let asset := assetID token
  if isNativeAsset asset then
    if deliveredNative w < amount then .error .seedUndelivered
    else do
      let delivered := (deliveredNative w).toNat
      let w' ← recordSeed w asset delivered
      .ok (w', delivered)
  else do
    let w' ← recordSeed w asset amount
    let w'' ← pullERC20Terminal fr w' token fr.caller amount
    .ok (w'', amount)

def runSeedSeamReserve (fr : Frame) (w : World) (data : List UInt8) (gas : ℕ)
    (readOnly : Bool) : Except Error (World × Reply) :=
  if readOnly then .error .readOnly
  else do
    let gasLeft ← chargeGas Error.outOfGas gas gasSeedReserve
    requireGovernance fr
    let (token, amount) ← decodeAssetAmount data
    guarded w fun w => do
      let (w', delivered) ← receiveOperatorValue fr w token amount
      .ok (w', ⟨natToBytes 32 delivered, gasLeft⟩)

/-! ## Views -/

def runSettleBalanceOf (w : World) (data : List UInt8) (gas : ℕ) :
    Except Error (World × Reply) := do
  let gasLeft ← chargeGas Error.outOfGas gas gasPoolLookup
  if data.length < 64 then .error .shortArguments
  else
    .ok (w, ⟨natToBytes 32
      (loadDepositorClaim w.storage (argAddress data 0) (assetID (argAddress data 32))),
      gasLeft⟩)

/-- The word of the account at a raw slot. -/
def rawSlot (host : Host) (st : Storage) (slot : Word) : Word :=
  ((host.slotAt slot).map st).getD 0

def runSettleExtsload (fr : Frame) (w : World) (data : List UInt8) (gas : ℕ) :
    Except Error (World × Reply) := do
  let gasLeft ← chargeGas Error.outOfGas gas gasPoolLookup
  if data.length < 32 then .error .shortArguments
  else .ok (w, ⟨hashBytes (rawSlot fr.host w.storage (argWord data 0)), gasLeft⟩)

/-- `runSettleExtsloadArray`; the gas grows with the number of slots read. -/
def runSettleExtsloadArray (fr : Frame) (w : World) (data : List UInt8) (gas : ℕ) :
    Except Error (World × Reply) :=
  if gas < gasPoolLookup then .error .outOfGas
  else if data.length < 64 then .error .shortArguments
  else
    let off := (argWord data 0).toNat % 2 ^ 64
    if data.length < off + 32 then .error .extsloadBounds
    else
      let n := (argWord data off).toNat % 2 ^ 64
      if (data.length - (off + 32)) / 32 < n then .error .extsloadBounds
      else do
        let gasLeft ← chargeGas Error.outOfGas gas (gasPoolLookup * (n + 1))
        let values := (List.range n).flatMap fun i =>
          hashBytes (rawSlot fr.host w.storage (argWord data (off + 32 + 32 * i)))
        .ok (w, ⟨natToBytes 32 32 ++ natToBytes 32 n ++ values, gasLeft⟩)

def runSettleDonate (gas : ℕ) (readOnly : Bool) : Except Error (World × Reply) :=
  if readOnly then .error .unsupported
  else if gas < gasPoolLookup then .error .outOfGas
  else .error .unsupported

/-! ## Dispatch -/

def selInitialize : ℕ := 0x6276cbbe
def selSwap : ℕ := 0xf3cd914c
def selModifyLiquidity : ℕ := 0x5a6bcfda
def selCollectPosition : ℕ := 0xca5bae26
def selDonate : ℕ := 0x234266d7
def selExtsload : ℕ := 0x1e2eaeaf
def selExtsloadArray : ℕ := 0xdbd035ff
def selDeposit : ℕ := 0x47e7ef24
def selWithdraw : ℕ := 0xf3fef3a3
def selBalanceOf : ℕ := 0xf7888aec
def selSetHaltGlobal : ℕ := 0xf196e219
def selSetHaltMarket : ℕ := 0xcedc283d
def selSetHaltAsset : ℕ := 0xedd0f7ae
def selSeedSeamReserve : ℕ := 0x8f280c55

/-- `Run` behind its entry checks. -/
def dispatch (fr : Frame) (w : World) (selector : ℕ) (data : List UInt8) (gas : ℕ)
    (readOnly : Bool) : Except Error (World × Reply) :=
  if selector = selSwap then settleSwap fr w data gas readOnly
  else if selector = selInitialize then runSettleInitialize fr w data gas readOnly
  else if selector = selModifyLiquidity then runSettleModifyLiquidity fr w data gas readOnly
  else if selector = selCollectPosition then runSettleCollectPosition fr w data gas readOnly
  else if selector = selDonate then runSettleDonate gas readOnly
  else if selector = selExtsload then runSettleExtsload fr w data gas
  else if selector = selExtsloadArray then runSettleExtsloadArray fr w data gas
  else if selector = selDeposit then runSettleDeposit fr w data gas readOnly
  else if selector = selWithdraw then runSettleWithdraw fr w data gas readOnly
  else if selector = selBalanceOf then runSettleBalanceOf w data gas
  else if selector = selSetHaltGlobal then runSetHaltGlobal fr w data gas readOnly
  else if selector = selSetHaltMarket then
    runSetHaltScoped Slot.haltMarket fr w data gas readOnly
  else if selector = selSetHaltAsset then
    runSetHaltScoped Slot.haltAsset fr w data gas readOnly
  else if selector = selSeedSeamReserve then runSeedSeamReserve fr w data gas readOnly
  else .error (.unknownSelector selector)

end LuxPrecompile.Settle
