import LuxPrecompile.Dex.TickMath
import LuxPrecompile.Dex.TickBitmap
import LuxPrecompile.Evm.Store

/-!
# State of the concentrated-liquidity precompile

The storage layout of `v3/state.go`.  The precompile serves many pools from one
account and addresses its words by hashes of a prefix, the pool identity and a
field; hashes are taken as collision-free, so each family of slots is a function
of its key.  A pool is identified by its validated key, a position by its owner
and range.  Values that come in pairs, one for each token of the pool, are
functions of the token.
-/

namespace LuxPrecompile.V3

open Dex Evm

/-- The two tokens of a pool. -/
inductive Token
  | token0
  | token1
deriving DecidableEq, Repr

/-- One value for each token. -/
def pair {α : Type} (a b : α) : Token → α
  | .token0 => a
  | .token1 => b

/-- `dex.PoolKey` as `parsePoolKey` admits it; hooks are always zero here. -/
structure PoolKey where
  currency0 : Address
  currency1 : Address
  fee : ℕ
  tickSpacing : ℤ
  sorted : currency0 < currency1
  fee_lt : fee < 1000000
  spacing_pos : 1 ≤ tickSpacing
  spacing_le : tickSpacing ≤ 16384
deriving DecidableEq

/-- The currency of each token. -/
def PoolKey.currency (pk : PoolKey) : Token → Address :=
  pair pk.currency0 pk.currency1

/-- A tick inside the usable band. -/
abbrev Tick := { t : ℤ // minTick ≤ t ∧ t ≤ maxTick }

/-- `dex.PositionKey` with the zero salt: it packs the ticks as `int24`, which
is injective on the usable band. -/
structure PositionKey where
  owner : Address
  tickLower : Tick
  tickUpper : Tick
deriving DecidableEq

noncomputable instance : Fintype Tick :=
  Fintype.subtype (Finset.Icc minTick maxTick) (fun _ => Finset.mem_Icc)

/-- There are finitely many positions, so sums over all of them make sense. -/
noncomputable instance : Fintype PositionKey :=
  Fintype.ofEquiv (Address × Tick × Tick)
    { toFun := fun k => ⟨k.1, k.2.1, k.2.2⟩
      invFun := fun k => (k.owner, k.tickLower, k.tickUpper)
      left_inv := fun _ => rfl
      right_inv := fun _ => rfl }

/-- The pool scalars. -/
structure PoolWords where
  sqrtPrice : Word
  tick : Word
  liquidity : Word
  feeGrowthGlobal : Token → Word

/-- The words of one tick. -/
structure TickWords where
  gross : Word
  net : Word
  outside : Token → Word

/-- The words of one position. -/
structure PositionWords where
  liquidity : Word
  insideLast : Token → Word
  owed : Token → Word

/-- Everything the precompile keeps under its own address. -/
structure Storage where
  pool : PoolKey → PoolWords
  tick : PoolKey → ℤ → TickWords
  bitmap : PoolKey → ℤ → Word
  position : PoolKey → PositionKey → PositionWords
  reserve : Reserves
  guard : Word

/-- Storage before the first call: every word is zero. -/
def Storage.empty : Storage where
  pool _ := ⟨0, 0, 0, fun _ => 0⟩
  tick _ _ := ⟨0, 0, fun _ => 0⟩
  bitmap _ _ := 0
  position _ _ := ⟨0, fun _ => 0, fun _ => 0⟩
  reserve _ := 0
  guard := 0

/-! ## Pool scalars -/

def Storage.setPool (db : Storage) (pk : PoolKey) (w : PoolWords) : Storage :=
  { db with pool := Function.update db.pool pk w }

def loadSqrtPrice (db : Storage) (pk : PoolKey) : ℕ :=
  wordToUint (db.pool pk).sqrtPrice

def storeSqrtPrice (db : Storage) (pk : PoolKey) (v : ℕ) : Storage :=
  db.setPool pk { db.pool pk with sqrtPrice := uintWord v }

def loadPoolTick (db : Storage) (pk : PoolKey) : ℤ :=
  int32 (wordToInt (db.pool pk).tick)

def storePoolTick (db : Storage) (pk : PoolKey) (tick : ℤ) : Storage :=
  db.setPool pk { db.pool pk with tick := intWord tick }

def loadLiquidity (db : Storage) (pk : PoolKey) : ℕ :=
  wordToUint (db.pool pk).liquidity

def storeLiquidity (db : Storage) (pk : PoolKey) (v : ℕ) : Storage :=
  db.setPool pk { db.pool pk with liquidity := uintWord v }

/-- `loadFeeGrowthGlobal0` and `loadFeeGrowthGlobal1`. -/
def loadFeeGrowthGlobal (db : Storage) (pk : PoolKey) (i : Token) : ℕ :=
  wordToUint ((db.pool pk).feeGrowthGlobal i)

/-- `storeFeeGrowthGlobal0` and `storeFeeGrowthGlobal1`, always written together. -/
def storeFeeGrowthGlobal (db : Storage) (pk : PoolKey) (v : Token → ℕ) : Storage :=
  db.setPool pk { db.pool pk with feeGrowthGlobal := fun i => uintWord (v i) }

/-- `isInitialized`: a pool exists once it has a price. -/
def isInitialized (db : Storage) (pk : PoolKey) : Bool :=
  decide (0 < loadSqrtPrice db pk)

/-! ## Ticks -/

/-- `dex.TickInfo`. -/
structure TickInfo where
  liquidityGross : ℤ
  liquidityNet : ℤ
  feeGrowthOutside : Token → ℕ

def newTickInfo : TickInfo := ⟨0, 0, fun _ => 0⟩

def loadTickInfo (db : Storage) (pk : PoolKey) (tick : ℤ) : TickInfo where
  liquidityGross := wordToUint (db.tick pk tick).gross
  liquidityNet := wordToInt (db.tick pk tick).net
  feeGrowthOutside i := wordToUint ((db.tick pk tick).outside i)

def storeTickInfo (db : Storage) (pk : PoolKey) (tick : ℤ) (info : TickInfo) :
    Storage :=
  { db with
    tick := Function.update db.tick pk
      (Function.update (db.tick pk) tick
        { gross := uintWord info.liquidityGross
          net := intWord info.liquidityNet
          outside := fun i => uintWord (info.feeGrowthOutside i) }) }

/-- `clearTickInfo`: a tick that lost its last liquidity. -/
def clearTickInfo (db : Storage) (pk : PoolKey) (tick : ℤ) : Storage :=
  storeTickInfo db pk tick newTickInfo

/-! ## Bitmap -/

def loadBitmapWord (db : Storage) (pk : PoolKey) (wordPos : ℤ) : ℕ :=
  wordToUint (db.bitmap pk wordPos)

def storeBitmapWord (db : Storage) (pk : PoolKey) (wordPos : ℤ) (word : ℕ) :
    Storage :=
  { db with
    bitmap := Function.update db.bitmap pk
      (Function.update (db.bitmap pk) wordPos (uintWord word)) }

/-- The one-entry `dex.TickBitmap` the storage layer builds from a single
stored word. -/
def singleWord (wordPos : ℤ) (word : ℕ) : TickBitmap :=
  fun p => if p = wordPos then word else 0

def flipTickBitmap (db : Storage) (pk : PoolKey) (tick : ℤ) : Storage :=
  let wordPos := (tickBitmapPosition (compress tick pk.tickSpacing)).1
  let bm := singleWord wordPos (loadBitmapWord db pk wordPos)
  storeBitmapWord db pk wordPos (flipTick bm tick pk.tickSpacing wordPos)

def nextInitializedTick (db : Storage) (pk : PoolKey) (tick : ℤ) (lte : Bool) :
    ℤ × Bool :=
  let compressed := compress tick pk.tickSpacing
  let searched := if lte then compressed else compressed + 1
  let wordPos := (tickBitmapPosition searched).1
  let bm := singleWord wordPos (loadBitmapWord db pk wordPos)
  nextInitializedTickWithinOneWord bm tick pk.tickSpacing lte

/-! ## Positions -/

/-- The mutable slots of `dex.Position`. -/
structure Position where
  liquidity : ℕ
  feeGrowthInsideLast : Token → ℕ
  tokensOwed : Token → ℕ

def loadPosition (db : Storage) (pk : PoolKey) (key : PositionKey) : Position where
  liquidity := wordToUint (db.position pk key).liquidity
  feeGrowthInsideLast i := wordToUint ((db.position pk key).insideLast i)
  tokensOwed i := wordToUint ((db.position pk key).owed i)

def storePosition (db : Storage) (pk : PoolKey) (key : PositionKey) (pos : Position) :
    Storage :=
  { db with
    position := Function.update db.position pk
      (Function.update (db.position pk) key
        { liquidity := uintWord pos.liquidity
          insideLast := fun i => uintWord (pos.feeGrowthInsideLast i)
          owed := fun i => uintWord (pos.tokensOwed i) }) }

/-! ## Reserve and guard -/

def loadReserve (db : Storage) (asset : Address) : ℕ := db.reserve.load asset

def storeReserve (db : Storage) (asset : Address) (v : ℕ) : Storage :=
  { db with reserve := db.reserve.store asset v }

def addReserve (db : Storage) (asset : Address) (delta : ℕ) : Storage :=
  { db with reserve := db.reserve.add asset delta }

/-- `subReserve`; `none` is its refusal. -/
def subReserve (db : Storage) (asset : Address) (amount : ℕ) : Option Storage :=
  (db.reserve.sub asset amount).map fun reserve => { db with reserve := reserve }

/-- `enterGuard`; `none` is a call that is already running. -/
def enterGuard (db : Storage) : Option Storage :=
  if db.guard.toNat % 256 ≠ 0 then none else some { db with guard := 1 }

def exitGuard (db : Storage) : Storage := { db with guard := 0 }

end LuxPrecompile.V3
