import Mathlib.Data.String.Basic
import LuxPrecompile.Evm.Bytes
import LuxPrecompile.Support.Decimal
import LuxPrecompile.Support.Maps
import LuxPrecompile.Support.Sorting

/-!
# Snapshots of the DEX state

`ExportState` and `ImportState` of `dex/state_export.go`.  A snapshot has every
number as a decimal text and every identifier as a hex text; the exporter sorts
what it collects from maps, and the importer builds new maps and swaps them in
when every pool was read.
-/

namespace LuxPrecompile.Dex.Snapshot

open LuxPrecompile.Evm LuxPrecompile.Support

/-! ## The state -/

/-- `*big.Int`: nil or a number. -/
abbrev BigInt := Option ℤ

/-- `[32]byte`. -/
abbrev Id := Word

structure Pool where
  sqrtPriceX96 : BigInt
  tick : Int32
  liquidity : BigInt
  feeGrowth0X128 : BigInt
  feeGrowth1X128 : BigInt
  protocolFees0 : BigInt
  protocolFees1 : BigInt

structure Position where
  owner : Address
  tickLower : Int32
  tickUpper : Int32
  liquidity : BigInt
  feeGrowthInside0LastX128 : BigInt
  feeGrowthInside1LastX128 : BigInt
  tokensOwed0 : BigInt
  tokensOwed1 : BigInt

structure TickInfo where
  liquidityGross : BigInt
  liquidityNet : BigInt
  feeGrowthOutside0X128 : BigInt
  feeGrowthOutside1X128 : BigInt

structure TickBitmap where
  words : FinMap Int16 BigInt

structure PoolState where
  pool : Pool
  ticks : FinMap Int32 TickInfo
  tickBitmap : Option TickBitmap
  positions : FinMap Id Position
  tickSpacing : Int32
  lpFee : UInt32
  protocolFee : UInt32

structure PoolManager where
  pools : FinMap Id Pool
  poolStates : FinMap Id PoolState
  positions : FinMap Id Position

def newPoolManager : PoolManager where
  pools := .empty
  poolStates := .empty
  positions := .empty

/-! ## The snapshot -/

def snapshotVersion : UInt32 := 1

structure PoolKeySnapshot where
  currency0 : String
  currency1 : String
  fee : UInt32
  tickSpacing : Int32
  hooks : String
deriving Inhabited

structure PositionSnapshot where
  positionID : String
  owner : String
  tickLower : Int32
  tickUpper : Int32
  liquidity : String
  feeGrowthInside0LastX128 : String
  feeGrowthInside1LastX128 : String
  tokensOwed0 : String
  tokensOwed1 : String

structure TickSnapshot where
  index : Int32
  liquidityGross : String
  liquidityNet : String
  feeGrowthOutside0X128 : String
  feeGrowthOutside1X128 : String

structure BitmapWord where
  wordIndex : Int16
  value : String

structure PoolSnapshot where
  poolID : String
  key : PoolKeySnapshot
  sqrtPriceX96 : String
  tick : Int32
  liquidity : String
  feeGrowth0X128 : String
  feeGrowth1X128 : String
  protocolFees0 : String
  protocolFees1 : String
  tickSpacing : Int32
  lpFee : UInt32
  protocolFee : UInt32
  positions : List PositionSnapshot
  ticks : List TickSnapshot
  bitmapWords : List BitmapWord
deriving Inhabited

structure DEXStateSnapshot where
  version : UInt32
  timestamp : Int64
  blockNum : UInt64
  pools : List PoolSnapshot

/-! ## Texts -/

/-- `fmt.Sprintf("%x", bs)`. -/
def hexString (bs : List UInt8) : String :=
  String.ofList (bs.flatMap fun b => [Nat.digitChar (b.toNat / 16), Nat.digitChar (b.toNat % 16)])

/-- `fmt.Sprintf("%x", id)`. -/
def hexId (id : Id) : String := hexString (hashBytes id)

/-- The functions of geth's `common` package that snapshots use: what is written is read back. -/
structure Common where
  fromHex : String → List UInt8
  addressHex : Address → String
  hexToAddress : String → Address
  fromHex_hexId : ∀ id : Id, fromHex (hexId id) = hashBytes id
  hexToAddress_addressHex : ∀ a, hexToAddress (addressHex a) = a

def bigIntToStr (v : BigInt) : String :=
  match v with
  | none => "0"
  | some v => String.ofList (Decimal.text v)

/-- `new(big.Int).SetString(s, 10)`. -/
def setString (s : String) : Option ℤ := Decimal.read s.toList

def strToBigInt (s : String) : BigInt :=
  if s = "" ∨ s = "0" then some 0
  else
    match setString s with
    | none => some 0
    | some v => some v

section Common

variable (common : Common)

/-- `common.FromHex` where it gives 32 bytes. -/
def decodeId (s : String) : Option Id :=
  if (common.fromHex s).length = 32 then some (bytesToHash (common.fromHex s)) else none

/-! ## Export -/

def exportPosition (e : Id × Position) : PositionSnapshot where
  positionID := hexId e.1
  owner := common.addressHex e.2.owner
  tickLower := e.2.tickLower
  tickUpper := e.2.tickUpper
  liquidity := bigIntToStr e.2.liquidity
  feeGrowthInside0LastX128 := bigIntToStr e.2.feeGrowthInside0LastX128
  feeGrowthInside1LastX128 := bigIntToStr e.2.feeGrowthInside1LastX128
  tokensOwed0 := bigIntToStr e.2.tokensOwed0
  tokensOwed1 := bigIntToStr e.2.tokensOwed1

def exportTick (e : Int32 × TickInfo) : TickSnapshot where
  index := e.1
  liquidityGross := bigIntToStr e.2.liquidityGross
  liquidityNet := bigIntToStr e.2.liquidityNet
  feeGrowthOutside0X128 := bigIntToStr e.2.feeGrowthOutside0X128
  feeGrowthOutside1X128 := bigIntToStr e.2.feeGrowthOutside1X128

def exportWord (e : Int16 × BigInt) : BitmapWord where
  wordIndex := e.1
  value := bigIntToStr e.2

/-- `exportPoolState`; the key of the pool is left empty. -/
def exportPoolState (poolId : Id) (ps : PoolState) : PoolSnapshot where
  poolID := hexId poolId
  key := { currency0 := "", currency1 := "", fee := 0, tickSpacing := 0, hooks := "" }
  sqrtPriceX96 := bigIntToStr ps.pool.sqrtPriceX96
  tick := ps.pool.tick
  liquidity := bigIntToStr ps.pool.liquidity
  feeGrowth0X128 := bigIntToStr ps.pool.feeGrowth0X128
  feeGrowth1X128 := bigIntToStr ps.pool.feeGrowth1X128
  protocolFees0 := bigIntToStr ps.pool.protocolFees0
  protocolFees1 := bigIntToStr ps.pool.protocolFees1
  tickSpacing := ps.tickSpacing
  lpFee := ps.lpFee
  protocolFee := ps.protocolFee
  positions := sortBy PositionSnapshot.positionID (ps.positions.entries.map (exportPosition common))
  ticks := sortBy (fun t => t.index.toInt) (ps.ticks.entries.map exportTick)
  bitmapWords :=
    match ps.tickBitmap with
    | none => []
    | some bitmap => sortBy (fun w => w.wordIndex.toInt) (bitmap.words.entries.map exportWord)

/-- `ExportState` at a time and a block. -/
def exportState (pm : PoolManager) (timestamp : Int64) (blockNum : UInt64) :
    DEXStateSnapshot where
  version := snapshotVersion
  timestamp := timestamp
  blockNum := blockNum
  pools := sortBy PoolSnapshot.poolID
    (pm.poolStates.entries.map fun e => exportPoolState common e.1 e.2)

/-! ## Import -/

/-- A position under its key; a text that is no key stands for the zero key. -/
def importPosition (p : PositionSnapshot) : Id × Position :=
  ((decodeId common p.positionID).getD 0, {
    owner := common.hexToAddress p.owner
    tickLower := p.tickLower
    tickUpper := p.tickUpper
    liquidity := strToBigInt p.liquidity
    feeGrowthInside0LastX128 := strToBigInt p.feeGrowthInside0LastX128
    feeGrowthInside1LastX128 := strToBigInt p.feeGrowthInside1LastX128
    tokensOwed0 := strToBigInt p.tokensOwed0
    tokensOwed1 := strToBigInt p.tokensOwed1 })

def importTick (t : TickSnapshot) : Int32 × TickInfo :=
  (t.index, {
    liquidityGross := strToBigInt t.liquidityGross
    liquidityNet := strToBigInt t.liquidityNet
    feeGrowthOutside0X128 := strToBigInt t.feeGrowthOutside0X128
    feeGrowthOutside1X128 := strToBigInt t.feeGrowthOutside1X128 })

def importWord (w : BitmapWord) : Int16 × BigInt := (w.wordIndex, strToBigInt w.value)

/-- The state that `importPoolSnapshot` builds once it has the identifier. -/
def importPoolState (snap : PoolSnapshot) : PoolState where
  pool := {
    sqrtPriceX96 := strToBigInt snap.sqrtPriceX96
    tick := snap.tick
    liquidity := strToBigInt snap.liquidity
    feeGrowth0X128 := strToBigInt snap.feeGrowth0X128
    feeGrowth1X128 := strToBigInt snap.feeGrowth1X128
    protocolFees0 := strToBigInt snap.protocolFees0
    protocolFees1 := strToBigInt snap.protocolFees1 }
  ticks := FinMap.empty.insertAll (snap.ticks.map importTick)
  tickBitmap := some { words := FinMap.empty.insertAll (snap.bitmapWords.map importWord) }
  positions := FinMap.empty.insertAll (snap.positions.map (importPosition common))
  tickSpacing := snap.tickSpacing
  lpFee := snap.lpFee
  protocolFee := snap.protocolFee

/-- `importPoolSnapshot`.  `Sscanf` reads no arrays, so the identifier is always decoded by
`FromHex`. -/
def importPoolSnapshot (snap : PoolSnapshot) : Option (Id × PoolState × FinMap Id Position) :=
  match decodeId common snap.poolID with
  | none => none
  | some poolId =>
      some (poolId, importPoolState common snap, (importPoolState common snap).positions)

/-- The errors of `ImportState`. -/
inductive ImportError where
  | versionMismatch (got want : UInt32)
  | importFailed (poolID : String)
deriving DecidableEq, Repr

/-- The loop of `ImportState` over the pools. -/
def importPools : PoolManager → List PoolSnapshot → Except ImportError PoolManager
  | new, [] => .ok new
  | new, snap :: rest =>
      match importPoolSnapshot common snap with
      | none => .error (.importFailed snap.poolID)
      | some r =>
          importPools {
            pools := new.pools.insert r.1 r.2.1.pool
            poolStates := new.poolStates.insert r.1 r.2.1
            positions := new.positions.insertAll r.2.2.entries } rest

/-- `safeFillBytes` does not panic: nil and negative numbers are written as zero. -/
def fillable (v : BigInt) : Prop :=
  match v with
  | none => True
  | some v => v < 2 ^ 256

instance (v : BigInt) : Decidable (fillable v) := by
  unfold fillable
  split <;> infer_instance

/-- `setPool` does not panic. -/
def Pool.Fillable (p : Pool) : Prop :=
  fillable p.sqrtPriceX96 ∧ fillable p.liquidity ∧ fillable p.feeGrowth0X128 ∧
    fillable p.feeGrowth1X128 ∧ fillable p.protocolFees0 ∧ fillable p.protocolFees1

/-- `setPosition` does not panic. -/
def Position.Fillable (p : Position) : Prop :=
  fillable p.liquidity ∧ fillable p.feeGrowthInside0LastX128 ∧
    fillable p.feeGrowthInside1LastX128 ∧ fillable p.tokensOwed0 ∧ fillable p.tokensOwed1

instance (p : Pool) : Decidable p.Fillable := inferInstanceAs (Decidable (_ ∧ _))

instance (p : Position) : Decidable p.Fillable := inferInstanceAs (Decidable (_ ∧ _))

/-- The loops that persist pools and positions do not panic. -/
def PoolManager.Fillable (pm : PoolManager) : Prop :=
  (∀ e ∈ pm.pools.entries, e.2.Fillable) ∧ ∀ e ∈ pm.positions.entries, e.2.Fillable

instance (pm : PoolManager) : Decidable pm.Fillable := inferInstanceAs (Decidable (_ ∧ _))

/-- How a call of `ImportState` ends. -/
inductive Outcome where
  | imported
  | failed (e : ImportError)
  | panicked
deriving DecidableEq, Repr

/-- `ImportState`, with a `StateDB` to persist to or without: the manager after the call, and how
it ended. -/
def importState (persist : Bool) (pm : PoolManager) (snap : DEXStateSnapshot) :
    PoolManager × Outcome :=
  if snap.version ≠ snapshotVersion then
    (pm, .failed (.versionMismatch snap.version snapshotVersion))
  else
    match importPools common newPoolManager snap.pools with
    | .error e => (pm, .failed e)
    | .ok new => (new, if persist ∧ ¬ new.Fillable then .panicked else .imported)

end Common

end LuxPrecompile.Dex.Snapshot
