import LuxPrecompile.Evm.Bank
import LuxPrecompile.Evm.Bytes
import LuxPrecompile.Support.Runs

/-!
# Storage of the settlement precompile

The slots `0x9999` keeps under its own address (`dex/settle_*.go`,
`dex/native_state.go`, `dex/halt9999.go`).  A slot is the hash of a family name
and a key; the hash is taken as collision-free, so a slot is a family together
with its key, and storage is a word for every slot.
-/

namespace LuxPrecompile.Settle

open Evm Support

/-- The errors of the package that the settlement path can return. -/
inductive Error
  | inputTooShort
  | noBlockContext
  | wrongContext
  | unknownSelector (selector : ℕ)
  | readOnly
  | outOfGas
  | shortArguments
  | invalidFee
  | invalidTickSpacing
  | invalidTick
  | invalidAmount
  | currencyNotSorted
  | initFeeTooHigh
  | initTickSpacing
  | initSqrtRange
  | poolAlreadyInitialized
  /-- A refusal of the asset resolver or of the on-chain verifier. -/
  | assetNotAdmitted (code : ℕ)
  | unsupported
  | settleNoAtomicState
  | lpNoAtomicState
  | swapNoMarket
  | makerNoMarket
  | custodyReentrant
  | retiredSwapPhase
  | settleBodyMalformed
  | dexHalted
  | marketHalted
  | assetHalted
  | noGovernance
  | unauthorized
  | nativeNoAtomicMemory
  | nativeBadAmount
  | nativeFundsShort
  | exportReplay
  | importReplay
  | importAsset
  | importBeneficiary
  | importAmount
  | importObjectMalformed
  | custodyUnbacked
  | erc20TransferFailed
  | erc20UnderDelivered
  | settleDepositShort
  | settleClaimShort
  | seedShortInput
  | seedBadAmount
  | seedUndelivered
  | makerZeroDelta
  | makerAmountRange
  | makerBadTickRange
  | makerNotOwner
  | makerAlreadyClosed
  | lpBadCollectInput
  | lpCommitWhileClosing
  | lpForeignPosition
  | extsloadBounds
  /-- `FillBytes` of a number wider than a word. -/
  | panic
  /-- More native coin than exists. -/
  | supplyOverflow
  /-- The call-depth limit of the host. -/
  | depth
  /-- The host's refusal of a value the caller does not own. -/
  | insufficientBalance
deriving DecidableEq, Repr

/-! ## Slots -/

/-- The words of a market record. -/
inductive MarketField
  | packed
  | price
  | currency0
  | currency1
  | creator
deriving DecidableEq

/-- The words of a position record. -/
inductive OrderField
  | packed
  | owner
  | pool
  | asset
  | amount
  | salt
  | commitObject
  | indexed
deriving DecidableEq

/-- The two kinds of staged cross-chain operations. -/
inductive StageKind
  | put
  | remove
deriving DecidableEq

/-- The slots of the account, by family and key. -/
inductive Slot
  | settleVault (asset : Word)
  | depositorClaim (account : Address) (asset : Word)
  | custody (asset : Word)
  | lockedReserve (owner : Address) (asset : Word)
  | haltGlobal
  | haltMarket (marketID : Word)
  | haltAsset (asset : Word)
  | market (poolID : Word) (field : MarketField)
  | order (orderID : Word) (field : OrderField)
  | ownerOrdersCount (owner : Address)
  | ownerOrdersAt (owner : Address) (i : UInt64)
  | claimWritten (claimID : Word)
  | claimConsumed (claimID : Word)
  | volBucket (poolID : Word) (shard : UInt64)
  | stageSeq
  | stageKind (seq : UInt64)
  | stageRecord (kind : StageKind) (seq : UInt64) (word : UInt64)
  /-- A word of a row of the shared key-value store. -/
  | coreValue (key : List UInt8) (word : UInt64)
  /-- A word of the order index of a pool. -/
  | coreIndex (poolID : Word) (word : UInt64)
  | custodyGuard
deriving DecidableEq

/-- The words of the account. -/
abbrev Storage := Slot → Word

namespace Storage

/-- Storage before the first call. -/
def empty : Storage := fun _ => 0

/-- `SetState`. -/
def set (st : Storage) (slot : Slot) (value : Word) : Storage :=
  Function.update st slot value

@[simp]
theorem set_self (st : Storage) (slot : Slot) (value : Word) :
    st.set slot value slot = value := by
  simp [set]

@[simp]
theorem set_of_ne {slot slot' : Slot} (h : slot' ≠ slot) (st : Storage) (value : Word) :
    st.set slot value slot' = st slot' := by
  simp [set, h]

end Storage

/-- `FillBytes` into a word. -/
def fillBytes (n : ℕ) : Except Error Word :=
  if n < 2 ^ 256 then .ok (BitVec.ofNat 256 n) else .error .panic

/-- A ledger entry: the number in a slot. -/
def loadAmount (st : Storage) (slot : Slot) : ℕ := wordToUint (st slot)

/-- `storeSettleVault`, `storeDepositorClaim`, `storeCustody` and
`storeLockedReserve` are this store at their slot. -/
def storeAmount (st : Storage) (slot : Slot) (amount : ℕ) : Except Error Storage := do
  let word ← fillBytes amount
  .ok (st.set slot word)

theorem storeAmount_ok {st st' : Storage} {slot : Slot} {amount : ℕ}
    (h : storeAmount st slot amount = .ok st') :
    amount < 2 ^ 256 ∧ st' = st.set slot (BitVec.ofNat 256 amount) := by
  simp only [storeAmount, fillBytes, bind_eq_ok] at h
  obtain ⟨word, hfill, h⟩ := h
  split_ifs at hfill with hlt
  simp only [Except.ok.injEq] at hfill h
  exact ⟨hlt, by rw [← h, ← hfill]⟩

@[simp]
theorem loadAmount_set_self (st : Storage) (slot : Slot) {amount : ℕ}
    (h : amount < 2 ^ 256) :
    loadAmount (st.set slot (BitVec.ofNat 256 amount)) slot = amount := by
  rw [loadAmount, Storage.set_self, wordToUint, BitVec.toNat_ofNat, Nat.mod_eq_of_lt h]

@[simp]
theorem loadAmount_set_of_ne {slot slot' : Slot} (h : slot' ≠ slot) (st : Storage)
    (value : Word) : loadAmount (st.set slot value) slot' = loadAmount st slot' := by
  simp [loadAmount, h]

def loadSettleVault (st : Storage) (asset : Word) : ℕ := loadAmount st (.settleVault asset)

def storeSettleVault (st : Storage) (asset : Word) (amount : ℕ) : Except Error Storage :=
  storeAmount st (.settleVault asset) amount

def loadDepositorClaim (st : Storage) (account : Address) (asset : Word) : ℕ :=
  loadAmount st (.depositorClaim account asset)

def storeDepositorClaim (st : Storage) (account : Address) (asset : Word) (amount : ℕ) :
    Except Error Storage :=
  storeAmount st (.depositorClaim account asset) amount

def loadCustody (st : Storage) (asset : Word) : ℕ := loadAmount st (.custody asset)

def storeCustody (st : Storage) (asset : Word) (amount : ℕ) : Except Error Storage :=
  storeAmount st (.custody asset) amount

def loadLockedReserve (st : Storage) (owner : Address) (asset : Word) : ℕ :=
  loadAmount st (.lockedReserve owner asset)

def storeLockedReserve (st : Storage) (owner : Address) (asset : Word) (amount : ℕ) :
    Except Error Storage :=
  storeAmount st (.lockedReserve owner asset) amount

/-! ## Assets -/

/-- `assetID`: the address left-padded to a word. -/
def assetID (currency : Address) : Word := addressWord currency

/-- `assetAddress`: the low 20 bytes. -/
def assetAddress (asset : Word) : Address := Fin.ofNat (2 ^ 160) asset.toNat

def isNativeAsset (asset : Word) : Bool := decide (asset = 0)

/-! ## Flags -/

/-- The word of a set flag. -/
def flagSet : Word := 1

def isHalted (st : Storage) (slot : Slot) : Bool := decide (st slot ≠ 0)

def setHalt (st : Storage) (slot : Slot) (on : Bool) : Storage :=
  st.set slot (if on then flagSet else 0)

/-- `checkHalt`: global, then market, then the two assets. -/
def checkHalt (st : Storage) (poolID assetIn assetOut : Word) : Except Error Unit :=
  if isHalted st .haltGlobal then .error .dexHalted
  else if isHalted st (.haltMarket poolID) then .error .marketHalted
  else if isHalted st (.haltAsset assetIn) || isHalted st (.haltAsset assetOut) then
    .error .assetHalted
  else .ok ()

/-- `enterCustodyKV`; `none` is a call that is already running. -/
def enterCustody (st : Storage) : Option Storage :=
  if st .custodyGuard ≠ 0 then none else some (st.set .custodyGuard flagSet)

/-- `exitCustodyKV`. -/
def exitCustody (st : Storage) : Storage := st.set .custodyGuard 0

def isClaimWritten (st : Storage) (claimID : Word) : Bool :=
  decide (st (.claimWritten claimID) ≠ 0)

/-- The mark of both claim sets: `blockNumber + 1` in 64 bits. -/
def claimMark (blockNumber : UInt64) : Word := BitVec.ofNat 256 (blockNumber + 1).toNat

def markClaimWritten (st : Storage) (claimID : Word) (blockNumber : UInt64) : Storage :=
  st.set (.claimWritten claimID) (claimMark blockNumber)

def isClaimConsumed (st : Storage) (claimID : Word) : Bool :=
  decide (st (.claimConsumed claimID) ≠ 0)

def markClaimConsumed (st : Storage) (claimID : Word) (blockNumber : UInt64) : Storage :=
  st.set (.claimConsumed claimID) (claimMark blockNumber)

/-! ## Packed words -/

/-- `putInt24`: two's complement in three bytes. -/
def putInt24 (v : ℤ) : List UInt8 := natToBytes 3 (v % 2 ^ 24).toNat

def decodeInt24 (b : List UInt8) : ℤ :=
  let val := bytesToNat b
  if 2 ^ 23 ≤ val then (val : ℤ) - 2 ^ 24 else val

/-! ## Market records -/

/-- `MarketStatus`. -/
inductive MarketStatus
  | none
  | active
  /-- A byte no path writes. -/
  | unknown (b : ℕ)
deriving DecidableEq, Repr

def MarketStatus.toByte : MarketStatus → ℕ
  | .none => 0
  | .active => 1
  | .unknown b => b

def MarketStatus.ofByte (b : ℕ) : MarketStatus :=
  if b = 0 then .none else if b = 1 then .active else .unknown b

/-- `MarketRecord`. -/
structure MarketRecord where
  status : MarketStatus
  sqrtPriceX96 : ℕ
  tick : ℤ
  currency0 : Address
  currency1 : Address
  fee : ℕ
  tickSpacing : ℤ
  creator : Address
deriving DecidableEq

/-- The zero record. -/
def MarketRecord.zero : MarketRecord := ⟨.none, 0, 0, 0, 0, 0, 0, 0⟩

def loadMarket (st : Storage) (poolID : Word) : MarketRecord :=
  let packed := st (.market poolID .packed)
  let status := MarketStatus.ofByte (bytesToNat (wordSlice packed 0 1))
  if status = .none then MarketRecord.zero
  else
    { status := status
      sqrtPriceX96 := wordToUint (st (.market poolID .price))
      tick := decodeInt24 (wordSlice packed 1 4)
      currency0 := wordAddress (st (.market poolID .currency0))
      currency1 := wordAddress (st (.market poolID .currency1))
      fee := bytesToNat (wordSlice packed 4 7)
      tickSpacing := decodeInt24 (wordSlice packed 7 10)
      creator := wordAddress (st (.market poolID .creator)) }

/-- The packed word of a market record. -/
def MarketRecord.packed (rec : MarketRecord) : Word :=
  packWord (natToBytes 1 rec.status.toByte ++ putInt24 rec.tick ++ natToBytes 3 rec.fee ++
    putInt24 rec.tickSpacing)

def storeMarket (st : Storage) (poolID : Word) (rec : MarketRecord) : Except Error Storage := do
  let price ← fillBytes rec.sqrtPriceX96
  let st := st.set (.market poolID .packed) rec.packed
  let st := st.set (.market poolID .price) price
  let st := st.set (.market poolID .currency0) (addressWord rec.currency0)
  let st := st.set (.market poolID .currency1) (addressWord rec.currency1)
  .ok (st.set (.market poolID .creator) (addressWord rec.creator))

/-! ## Position records -/

/-- `OrderStatus`; a position that was collected in full is `closed`
(`OrderStatusCancelled`). -/
inductive OrderStatus
  | none
  | open
  | closed
  | closing
  /-- A byte no path writes. -/
  | unknown (b : ℕ)
deriving DecidableEq, Repr

def OrderStatus.toByte : OrderStatus → ℕ
  | .none => 0
  | .open => 1
  | .closed => 2
  | .closing => 3
  | .unknown b => b

def OrderStatus.ofByte (b : ℕ) : OrderStatus :=
  if b = 0 then .none else if b = 1 then .open else if b = 2 then .closed
  else if b = 3 then .closing else .unknown b

/-- `MakerSide`: a bid rests currency 0, an ask currency 1. -/
inductive MakerSide
  | bid
  | ask
  /-- A byte no path writes. -/
  | unknown (b : ℕ)
deriving DecidableEq, Repr

def MakerSide.toByte : MakerSide → ℕ
  | .bid => 0
  | .ask => 1
  | .unknown b => b

def MakerSide.ofByte (b : ℕ) : MakerSide :=
  if b = 0 then .bid else if b = 1 then .ask else .unknown b

/-- `RestingOrder`, the record of a position. -/
structure RestingOrder where
  owner : Address
  poolID : Word
  side : MakerSide
  lockedAsset : Word
  lockedAmt : ℕ
  tickLower : ℤ
  tickUpper : ℤ
  salt : Word
  status : OrderStatus
deriving DecidableEq

/-- The zero record. -/
def RestingOrder.zero : RestingOrder := ⟨0, 0, .bid, 0, 0, 0, 0, 0, .none⟩

def loadRestingOrder (st : Storage) (orderID : Word) : RestingOrder :=
  let packed := st (.order orderID .packed)
  let status := OrderStatus.ofByte (bytesToNat (wordSlice packed 0 1))
  if status = .none then RestingOrder.zero
  else
    { owner := wordAddress (st (.order orderID .owner))
      poolID := st (.order orderID .pool)
      side := MakerSide.ofByte (bytesToNat (wordSlice packed 1 2))
      lockedAsset := st (.order orderID .asset)
      lockedAmt := loadAmount st (.order orderID .amount)
      tickLower := decodeInt24 (wordSlice packed 2 5)
      tickUpper := decodeInt24 (wordSlice packed 5 8)
      salt := st (.order orderID .salt)
      status := status }

/-- The packed word of a position record. -/
def RestingOrder.packed (o : RestingOrder) : Word :=
  packWord (natToBytes 1 o.status.toByte ++ natToBytes 1 o.side.toByte ++
    putInt24 o.tickLower ++ putInt24 o.tickUpper)

def storeRestingOrder (st : Storage) (orderID : Word) (o : RestingOrder) :
    Except Error Storage := do
  let st := st.set (.order orderID .packed) o.packed
  let st := st.set (.order orderID .owner) (addressWord o.owner)
  let st := st.set (.order orderID .pool) o.poolID
  let st := st.set (.order orderID .asset) o.lockedAsset
  let st ← storeAmount st (.order orderID .amount) o.lockedAmt
  .ok (st.set (.order orderID .salt) o.salt)

def loadOwnerOrderCount (st : Storage) (owner : Address) : UInt64 :=
  UInt64.ofNat (loadAmount st (.ownerOrdersCount owner))

def appendOwnerOrder (st : Storage) (owner : Address) (orderID : Word) : Storage :=
  if st (.order orderID .indexed) ≠ 0 then st
  else
    let n := loadOwnerOrderCount st owner
    let st := st.set (.ownerOrdersAt owner n) orderID
    let st := st.set (.ownerOrdersCount owner) (BitVec.ofNat 256 (n + 1).toNat)
    st.set (.order orderID .indexed) flagSet

/-! ## Fixed-length records over consecutive slots -/

/-- The data word `i` of a record, padded with zeros. -/
def recordWord (b : List UInt8) (i : ℕ) : Word := packWord (slice b (32 * i) (32 * i + 32))

/-- The loop of `writeBytesToSlots` and of `evmStore.Put`: the length in word 0,
the data in the words after it. -/
def writeRecord (slotAt : UInt64 → Slot) (st : Storage) (b : List UInt8) : Storage :=
  (List.range (wordCount b.length)).foldl
    (fun st i => st.set (slotAt (UInt64.ofNat (i + 1))) (recordWord b i))
    (st.set (slotAt 0) (BitVec.ofNat 256 (UInt64.ofNat b.length).toNat))

/-- `slotLen`: the low eight bytes of a length word; `none` where it is no length. -/
def slotLen (w : Word) : Option ℕ :=
  let n := w.toNat % 2 ^ 64
  if n = 0 ∨ 2 ^ 31 - 1 < n then none else some n

/-- `readBytesFromSlots` and `evmStore.Get`. -/
def readRecord (slotAt : UInt64 → Slot) (st : Storage) : Option (List UInt8) :=
  (slotLen (st (slotAt 0))).map fun n =>
    ((List.range (wordCount n)).flatMap
      fun i => hashBytes (st (slotAt (UInt64.ofNat (i + 1))))).take n

/-! ## Staged cross-chain operations -/

def stageSeq (st : Storage) : UInt64 := UInt64.ofNat (st .stageSeq).toNat

def setStageSeq (st : Storage) (n : UInt64) : Storage :=
  st.set .stageSeq (BitVec.ofNat 256 n.toNat)

def StageKind.toByte : StageKind → ℕ
  | .put => 1
  | .remove => 2

def stagedOpVersion : UInt8 := 2

def packPut (dChainID key : Word) (object : List UInt8) : List UInt8 :=
  [stagedOpVersion] ++ hashBytes dChainID ++ hashBytes key ++ object

def packRemove (dChainID key : Word) : List UInt8 :=
  [stagedOpVersion] ++ hashBytes dChainID ++ hashBytes key

/-- The common body of `stageAtomicPut` and `stageAtomicRemove`. -/
def stageAtomic (st : Storage) (kind : StageKind) (record : List UInt8) : Storage :=
  let seq := stageSeq st
  let st := writeRecord (.stageRecord kind seq) st record
  let st := st.set (.stageKind seq) (BitVec.ofNat 256 kind.toByte)
  setStageSeq st (seq + 1)

def stageAtomicPut (st : Storage) (dChainID key : Word) (object : List UInt8) : Storage :=
  stageAtomic st .put (packPut dChainID key object)

def stageAtomicRemove (st : Storage) (dChainID key : Word) : Storage :=
  stageAtomic st .remove (packRemove dChainID key)

end LuxPrecompile.Settle
