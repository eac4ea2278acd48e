import LuxPrecompile.Dex.SwapMath
import LuxPrecompile.Dex.LiquidityAmounts
import LuxPrecompile.Evm.Calldata
import LuxPrecompile.V3.Vault

/-!
# The five operations and the views

`v3/contract.go`: argument parsing, the shared mint and burn core, the
tick-crossing swap loop, settlement and dispatch.  A call is a function of the
world it starts in; it returns the new world or an error, and the host discards
everything a failed call did.  Besides the returned words an outcome records the
emitted event and two history variables no function reads: the steps of a swap
and the fees a position update credited.
-/

namespace LuxPrecompile.V3

open Dex Evm

/-! ## Arguments -/

/-- The checks of `parsePoolKey` on the decoded fields. -/
def makePoolKey (c0 c1 : Address) (fee : ℕ) (ts : ℤ) : Except Error PoolKey :=
  if h1 : c0 < c1 then
    if h2 : fee < 1000000 then
      if h3 : 1 ≤ ts ∧ ts ≤ 16384 then .ok ⟨c0, c1, fee, ts, h1, h2, h3.1, h3.2⟩
      else .error .invalidTickSpacing
    else .error .invalidFee
  else .error .currencyOrder

def parsePoolKey (data : List UInt8) : Except Error PoolKey :=
  if data.length < 128 then .error (.badArgs 128 data.length)
  else
    makePoolKey (bytesToAddress (slice data 12 32)) (bytesToAddress (slice data 44 64))
      (wordToUint (argWord data 64)) (wordToInt (argWord data 96))

/-- `parseTick`: the bound is checked before any truncation. -/
def parseTick (word : Word) : Except Error Tick :=
  if h : minTick ≤ wordToInt word ∧ wordToInt word ≤ maxTick then
    .ok ⟨wordToInt word, h⟩
  else .error .tickOutOfRange

def validateTickRange (lower upper tickSpacing : ℤ) : Except Error Unit :=
  if upper ≤ lower then .error .invalidTickRange
  else if lower < minTick ∨ maxTick < upper then .error .tickOutOfRange
  else if lower.tmod tickSpacing ≠ 0 ∨ upper.tmod tickSpacing ≠ 0 then
    .error .tickMisaligned
  else .ok ()

def gasInitialize : ℕ := 60000
def gasMint : ℕ := 90000
def gasBurn : ℕ := 70000
def gasCollect : ℕ := 50000
def gasSwapBase : ℕ := 60000
def gasSwapStep : ℕ := 3000
def gasView : ℕ := 5000

def maxUint128 : ℕ := 2 ^ 128 - 1

/-! ## Events and outcomes -/

/-- The logs of `v3/events.go`. -/
inductive Event
  | init (pool : PoolKey) (tick : ℤ) (sqrtPriceX96 : ℕ)
  | mint (pool : PoolKey) (key : PositionKey) (amount : ℕ) (amounts : Token → ℕ)
  | burn (pool : PoolKey) (key : PositionKey) (amount : ℕ) (amounts : Token → ℕ)
  | collect (pool : PoolKey) (key : PositionKey) (amounts : Token → ℕ)
  | swap (pool : PoolKey) (sender : Address) (amounts : Token → ℤ)
      (sqrtPriceX96 liquidity : ℕ) (tick : ℤ)

/-- History of one swap step: the pool tick it started at, the liquidity it
used, the token it charged, the fee, the growth of the fee counter, and the tick
it was heading for with that tick's bitmap bit. -/
structure StepRecord where
  tick : ℤ
  liquidity : ℕ
  token : Token
  fee : ℤ
  growth : ℕ
  tickNext : ℤ
  initialized : Bool

/-- What a successful call hands back: the returned words, the gas left, the
event, and the two history variables. -/
structure Outcome where
  ret : List Word
  gas : ℕ
  event : Option Event
  steps : List StepRecord
  feesCredited : Token → ℕ

/-- An outcome without history. -/
def Outcome.plain (ret : List Word) (gas : ℕ) (event : Option Event) : Outcome :=
  ⟨ret, gas, event, [], fun _ => 0⟩

/-! ## initialize -/

def runInitialize (w : World) (data : List UInt8) (suppliedGas : ℕ) :
    Except Error (World × Outcome) := do
  let gas ← chargeGas Error.outOfGas suppliedGas gasInitialize
  checkLength Error.badArgs data 160
  let pk ← parsePoolKey (slice data 0 128)
  let sqrtPriceX96 := wordToUint (argWord data 128)
  if isInitialized w.storage pk then .error .poolAlreadyInitialized
  else if sqrtPriceX96 < minSqrtRatio ∨ maxSqrtRatio ≤ sqrtPriceX96 then
    .error .invalidSqrtPrice
  else
    match getTickAtSqrtRatio sqrtPriceX96 with
    | none => .error .priceOutOfRange
    | some tick =>
        let db := storePoolTick (storeSqrtPrice w.storage pk sqrtPriceX96) pk tick
        .ok ({ w with storage := db },
          .plain [intWord tick] gas (some (.init pk tick sqrtPriceX96)))

/-! ## The mint and burn core -/

/-- `updateTick`: applies a liquidity change to one boundary tick and reports
whether the tick flipped. -/
def updateTick (db : Storage) (pk : PoolKey) (tick currentTick liquidityDelta : ℤ)
    (upper : Bool) (fg : Token → ℕ) : Storage × Bool :=
  let info := loadTickInfo db pk tick
  let grossAfter := info.liquidityGross + liquidityDelta
  let flipped := decide (grossAfter = 0) != decide (info.liquidityGross = 0)
  let outside :=
    if info.liquidityGross = 0 ∧ tick ≤ currentTick then fg else info.feeGrowthOutside
  let net :=
    if upper then info.liquidityNet - liquidityDelta
    else info.liquidityNet + liquidityDelta
  (storeTickInfo db pk tick ⟨grossAfter, net, outside⟩, flipped)

/-- `getFeeGrowthInside`, for one token. -/
def getFeeGrowthInside (db : Storage) (pk : PoolKey)
    (tickLower tickUpper currentTick : ℤ) (fg : Token → ℕ) (i : Token) : ℕ :=
  let lower := (loadTickInfo db pk tickLower).feeGrowthOutside i
  let upper := (loadTickInfo db pk tickUpper).feeGrowthOutside i
  let below := if tickLower ≤ currentTick then lower else sub256 (fg i) lower
  let above := if currentTick < tickUpper then upper else sub256 (fg i) upper
  sub256 (sub256 (fg i) below) above

/-- The fees a position earned since its last update. -/
def owedFees (pos : Position) (inside : Token → ℕ) (i : Token) : Option ℕ :=
  if 0 < pos.liquidity then
    mulDiv (sub256 (inside i) (pos.feeGrowthInsideLast i)) pos.liquidity q128
  else some 0

/-- `updatePosition`: accrues fees, then changes the liquidity.  The second
result is the fees credited. -/
def updatePosition (db : Storage) (pk : PoolKey) (key : PositionKey)
    (liquidityDelta : ℤ) (inside : Token → ℕ) :
    Except Error (Storage × (Token → ℕ)) := do
  let pos := loadPosition db pk key
  let owed0 ← orPanic (owedFees pos inside .token0)
  let owed1 ← orPanic (owedFees pos inside .token1)
  let owed := pair owed0 owed1
  let newLiq := (pos.liquidity : ℤ) + liquidityDelta
  if newLiq < 0 then .error .liquidityUnderflow
  else
    .ok (storePosition db pk key
      { liquidity := newLiq.toNat
        feeGrowthInsideLast := inside
        tokensOwed := fun i => pos.tokensOwed i + owed i }, owed)

/-- Flips the bitmap bit of a tick that changed between empty and used. -/
def flipIf (flipped : Bool) (db : Storage) (pk : PoolKey) (tick : ℤ) : Storage :=
  if flipped then flipTickBitmap db pk tick else db

/-- Both boundary ticks updated and their bits flipped, with the two flip
flags. -/
def updateTicks (db : Storage) (pk : PoolKey) (key : PositionKey)
    (currentTick liquidityDelta : ℤ) (fg : Token → ℕ) : Storage × Bool × Bool :=
  let lower := updateTick db pk key.tickLower currentTick liquidityDelta false fg
  let upper := updateTick lower.1 pk key.tickUpper currentTick liquidityDelta true fg
  (flipIf upper.2 (flipIf lower.2 upper.1 pk key.tickLower) pk key.tickUpper,
    lower.2, upper.2)

/-- Clears a tick that a removal emptied. -/
def clearIf (flipped : Bool) (liquidityDelta : ℤ) (db : Storage) (pk : PoolKey)
    (tick : ℤ) : Storage :=
  if liquidityDelta < 0 ∧ flipped = true then clearTickInfo db pk tick else db

/-- The change of the pool's active liquidity: only a range around the current
tick counts. -/
def updateActive (db : Storage) (pk : PoolKey) (key : PositionKey)
    (currentTick liquidityDelta : ℤ) : Except Error Storage :=
  if (key.tickLower : ℤ) ≤ currentTick ∧ currentTick < key.tickUpper then
    let newLiq := (loadLiquidity db pk : ℤ) + liquidityDelta
    if newLiq < 0 then .error .liquidityUnderflow
    else .ok (storeLiquidity db pk newLiq.toNat)
  else .ok db

/-- What `modifyLiquidity` leaves: the storage, the principal moved and the fees
credited. -/
structure Modified where
  storage : Storage
  amounts : Token → ℕ
  feesCredited : Token → ℕ

/-- `modifyLiquidity`, for a non-zero change. -/
def modifyLiquidity (db : Storage) (pk : PoolKey) (key : PositionKey)
    (liquidityDelta : ℤ) : Except Error Modified := do
  let sqrtPrice := loadSqrtPrice db pk
  let currentTick := loadPoolTick db pk
  let fg := loadFeeGrowthGlobal db pk
  let ticks := updateTicks db pk key currentTick liquidityDelta fg
  let inside := getFeeGrowthInside ticks.1 pk key.tickLower key.tickUpper currentTick fg
  let updated ← updatePosition ticks.1 pk key liquidityDelta inside
  let cleared := clearIf ticks.2.2 liquidityDelta
    (clearIf ticks.2.1 liquidityDelta updated.1 pk key.tickLower) pk key.tickUpper
  let amounts ← orPanic (getAmountsForLiquidity sqrtPrice
    (sqrtRatio key.tickLower) (sqrtRatio key.tickUpper) liquidityDelta.natAbs)
  let active ← updateActive cleared pk key currentTick liquidityDelta
  .ok ⟨active, pair amounts.1 amounts.2, updated.2⟩

/-- The range arguments common to mint, burn and collect. -/
def parseRange (caller : Address) (data : List UInt8) :
    Except Error (PoolKey × PositionKey) := do
  let pk ← parsePoolKey (slice data 0 128)
  let tickLower ← parseTick (argWord data 128)
  let tickUpper ← parseTick (argWord data 160)
  .ok (pk, ⟨caller, tickLower, tickUpper⟩)

def runMint (host : Host) (w : World) (caller : Address) (data : List UInt8)
    (suppliedGas : ℕ) : Except Error (World × Outcome) := do
  let gas ← chargeGas Error.outOfGas suppliedGas gasMint
  checkLength Error.badArgs data 224
  let (pk, key) ← parseRange caller data
  let amount := wordToUint (argWord data 192)
  if !isInitialized w.storage pk then .error .poolNotInitialized
  else do
    validateTickRange key.tickLower key.tickUpper pk.tickSpacing
    if amount = 0 then .error .zeroAmount
    else if maxUint128 < amount then .error .amountTooLarge
    else do
      let m ← modifyLiquidity w.storage pk key amount
      let w1 ← pullAsset host { w with storage := m.storage } pk.currency0 caller
        (m.amounts .token0)
      let w2 ← pullAsset host w1 pk.currency1 caller (m.amounts .token1)
      .ok (w2,
        { ret := [uintWord (m.amounts .token0), uintWord (m.amounts .token1)]
          gas := gas
          event := some (.mint pk key amount m.amounts)
          steps := []
          feesCredited := m.feesCredited })

/-- Credits the freed principal to the position, as `runBurn` does after the
core. -/
def creditPrincipal (db : Storage) (pk : PoolKey) (key : PositionKey)
    (amounts : Token → ℕ) : Storage :=
  if 0 < amounts .token0 ∨ 0 < amounts .token1 then
    let pos := loadPosition db pk key
    storePosition db pk key
      { pos with tokensOwed := fun i => pos.tokensOwed i + amounts i }
  else db

/-- `runBurn`: frees liquidity and owes the principal, without a transfer. -/
def runBurn (w : World) (caller : Address) (data : List UInt8)
    (suppliedGas : ℕ) : Except Error (World × Outcome) := do
  let gas ← chargeGas Error.outOfGas suppliedGas gasBurn
  checkLength Error.badArgs data 224
  let (pk, key) ← parseRange caller data
  let amount := wordToUint (argWord data 192)
  if !isInitialized w.storage pk then .error .poolNotInitialized
  else do
    validateTickRange key.tickLower key.tickUpper pk.tickSpacing
    if amount = 0 then .error .zeroAmount
    else if (loadPosition w.storage pk key).liquidity < amount then
      .error .insufficientLiq
    else do
      let m ← modifyLiquidity w.storage pk key (-amount)
      .ok ({ w with storage := creditPrincipal m.storage pk key m.amounts },
        { ret := [uintWord (m.amounts .token0), uintWord (m.amounts .token1)]
          gas := gas
          event := some (.burn pk key amount m.amounts)
          steps := []
          feesCredited := m.feesCredited })

/-- `runCollect`: pays what the position is owed, up to the request. -/
def runCollect (host : Host) (w : World) (caller : Address) (data : List UInt8)
    (suppliedGas : ℕ) : Except Error (World × Outcome) := do
  let gas ← chargeGas Error.outOfGas suppliedGas gasCollect
  checkLength Error.badArgs data 256
  let (pk, key) ← parseRange caller data
  let requested := pair (wordToUint (argWord data 192)) (wordToUint (argWord data 224))
  let pos := loadPosition w.storage pk key
  let amounts := fun i => min (requested i) (pos.tokensOwed i)
  let db := storePosition w.storage pk key
    { pos with tokensOwed := fun i => pos.tokensOwed i - amounts i }
  let w1 ← payAsset host { w with storage := db } pk.currency0 caller (amounts .token0)
  let w2 ← payAsset host w1 pk.currency1 caller (amounts .token1)
  .ok (w2, .plain [uintWord (amounts .token0), uintWord (amounts .token1)] gas
    (some (.collect pk key amounts)))

/-! ## swap -/

/-- The fixed parameters of a swap's loop. -/
structure SwapParams where
  pk : PoolKey
  zeroForOne : Bool
  exactInput : Bool
  sqrtPriceLimit : ℕ

/-- The token a swap takes in. -/
def SwapParams.tokenIn (p : SwapParams) : Token :=
  if p.zeroForOne then .token0 else .token1

/-- The token a swap pays out. -/
def SwapParams.tokenOut (p : SwapParams) : Token :=
  if p.zeroForOne then .token1 else .token0

/-- The variables of the swap loop; crossings write the storage. -/
structure SwapState where
  storage : Storage
  sqrtPrice : ℕ
  tick : ℤ
  liquidity : ℕ
  feeGrowth : Token → ℕ
  amountRemaining : ℤ
  totalIn : ℤ
  totalOut : ℕ
  steps : List StepRecord

/-- The next initialised tick, kept inside the usable band. -/
def nextTick (p : SwapParams) (s : SwapState) : ℤ × Bool :=
  let found := nextInitializedTick s.storage p.pk s.tick p.zeroForOne
  if found.1 < minTick then (minTick, found.2)
  else if maxTick < found.1 then (maxTick, found.2)
  else found

/-- The step target: the next tick's price, but not past the limit. -/
def stepTarget (p : SwapParams) (sqrtPriceNextTick : ℕ) : ℕ :=
  if p.zeroForOne then max sqrtPriceNextTick p.sqrtPriceLimit
  else min sqrtPriceNextTick p.sqrtPriceLimit

/-- The growth of the fee counter in one step; without active liquidity or
without a fee there is none. -/
def stepGrowth (liquidity : ℕ) (feeAmount : ℤ) : Option ℕ :=
  if 0 < liquidity ∧ 0 < feeAmount then mulDiv feeAmount.toNat q128 liquidity
  else some 0

/-- The fee counters after a step. -/
def accrueGrowth (p : SwapParams) (s : SwapState) (feeAmount : ℤ) (growth : ℕ) :
    Token → ℕ :=
  if 0 < s.liquidity ∧ 0 < feeAmount then
    Function.update s.feeGrowth p.tokenIn (add256 (s.feeGrowth p.tokenIn) growth)
  else s.feeGrowth

/-- The history of a step. -/
def stepRecord (p : SwapParams) (s : SwapState) (step : SwapStepResult) (growth : ℕ) :
    StepRecord where
  tick := s.tick
  liquidity := s.liquidity
  token := p.tokenIn
  fee := step.feeAmount
  growth := growth
  tickNext := (nextTick p s).1
  initialized := (nextTick p s).2

/-- The loop variables after a step, before the tick is settled. -/
def advance (p : SwapParams) (s : SwapState) (step : SwapStepResult) (growth : ℕ) :
    SwapState :=
  let consumed := (step.amountIn : ℤ) + step.feeAmount
  { s with
    sqrtPrice := step.sqrtRatioNextX96
    feeGrowth := accrueGrowth p s step.feeAmount growth
    amountRemaining :=
      if p.exactInput then s.amountRemaining + consumed
      else s.amountRemaining - step.amountOut
    totalIn := s.totalIn + consumed
    totalOut := s.totalOut + step.amountOut
    steps := s.steps ++ [stepRecord p s step growth] }

/-- `crossTick`: flips the outside growth of a tick and returns its net
liquidity. -/
def crossTick (db : Storage) (pk : PoolKey) (tick : ℤ) (fg : Token → ℕ) : Storage × ℤ :=
  let info := loadTickInfo db pk tick
  (storeTickInfo db pk tick
    { info with feeGrowthOutside := fun i => sub256 (fg i) (info.feeGrowthOutside i) },
    info.liquidityNet)

/-- The tick a swap is at once it has reached a boundary. -/
def tickAfterCross (zeroForOne : Bool) (tickNext : ℤ) : ℤ :=
  if zeroForOne then tickNext - 1 else tickNext

/-- The change of the active liquidity when a tick is crossed. -/
def directedNet (zeroForOne : Bool) (net : ℤ) : ℤ := if zeroForOne then -net else net

/-- Reaching the next tick: an initialised one is crossed. -/
def reachTick (p : SwapParams) (s : SwapState) (tickNext : ℤ) (initialized : Bool) :
    Except Error SwapState :=
  if initialized then
    let crossed := crossTick s.storage p.pk tickNext s.feeGrowth
    let liquidity := (s.liquidity : ℤ) + directedNet p.zeroForOne crossed.2
    if liquidity < 0 then .error .liquidityUnderflow
    else
      .ok { s with
        storage := crossed.1
        liquidity := liquidity.toNat
        tick := tickAfterCross p.zeroForOne tickNext }
  else .ok { s with tick := tickAfterCross p.zeroForOne tickNext }

/-- One pass of the swap loop. -/
def swapStep (p : SwapParams) (s : SwapState) : Except Error SwapState :=
  let next := nextTick p s
  match getSqrtRatioAtTick next.1 with
  | none => .error .tickOutOfRange
  | some sqrtPriceNextTick =>
      match computeSwapStep s.sqrtPrice (stepTarget p sqrtPriceNextTick) s.liquidity
          s.amountRemaining p.pk.fee with
      | none => .error .panic
      | some step =>
          match stepGrowth s.liquidity step.feeAmount with
          | none => .error .panic
          | some growth =>
              let moved := advance p s step growth
              if step.sqrtRatioNextX96 = sqrtPriceNextTick then
                reachTick p moved next.1 next.2
              else if step.sqrtRatioNextX96 ≠ s.sqrtPrice then
                match getTickAtSqrtRatio step.sqrtRatioNextX96 with
                | none => .error .priceOutOfRange
                | some tick => .ok { moved with tick := tick }
              else .ok moved

/-- The loop of `runSwap`.  `fuel` is the number of steps the gas left still
pays for, so running out of it is running out of gas; the second result is what
remains of it. -/
def swapLoop (p : SwapParams) : ℕ → SwapState → Except Error (SwapState × ℕ)
  | 0, s =>
      if s.amountRemaining ≠ 0 ∧ s.sqrtPrice ≠ p.sqrtPriceLimit then .error .outOfGas
      else .ok (s, 0)
  | fuel + 1, s =>
      if s.amountRemaining ≠ 0 ∧ s.sqrtPrice ≠ p.sqrtPriceLimit then
        match swapStep p s with
        | .error e => .error e
        | .ok s' => swapLoop p fuel s'
      else .ok (s, fuel + 1)

/-- The price-limit check of `runSwap`. -/
def priceLimitOk (zeroForOne : Bool) (sqrtPriceLimit sqrtPrice : ℕ) : Bool :=
  if zeroForOne then decide (sqrtPriceLimit < sqrtPrice ∧ minSqrtRatio < sqrtPriceLimit)
  else decide (sqrtPrice < sqrtPriceLimit ∧ sqrtPriceLimit < maxSqrtRatio)

/-- The loop variables at the start of a swap. -/
def swapInit (db : Storage) (pk : PoolKey) (amountSpecified : ℤ) : SwapState where
  storage := db
  sqrtPrice := loadSqrtPrice db pk
  tick := loadPoolTick db pk
  liquidity := loadLiquidity db pk
  feeGrowth := loadFeeGrowthGlobal db pk
  amountRemaining := amountSpecified
  totalIn := 0
  totalOut := 0
  steps := []

/-- Persisting the loop variables. -/
def persistSwap (s : SwapState) (pk : PoolKey) : Storage :=
  let db := storeSqrtPrice s.storage pk s.sqrtPrice
  let db := storePoolTick db pk s.tick
  let db := storeLiquidity db pk s.liquidity
  storeFeeGrowthGlobal db pk s.feeGrowth

/-- The signed amounts a swap reports: what the pool received is positive. -/
def swapAmounts (zeroForOne : Bool) (totalIn : ℤ) (totalOut : ℕ) : Token → ℤ :=
  if zeroForOne then pair totalIn (-totalOut) else pair (-totalOut) totalIn

/-- `runSwap`.  The consumed input is a sum of non-negative steps. -/
def runSwap (host : Host) (w : World) (caller : Address) (data : List UInt8)
    (suppliedGas : ℕ) : Except Error (World × Outcome) := do
  let gas ← chargeGas Error.outOfGas suppliedGas gasSwapBase
  checkLength Error.badArgs data 224
  let pk ← parsePoolKey (slice data 0 128)
  let zeroForOne := decide (wordToUint (argWord data 128) ≠ 0)
  let amountSpecified := wordToInt (argWord data 160)
  let sqrtPriceLimit := wordToUint (argWord data 192)
  if !isInitialized w.storage pk then .error .poolNotInitialized
  else if amountSpecified = 0 then .error .zeroAmount
  else if !priceLimitOk zeroForOne sqrtPriceLimit (loadSqrtPrice w.storage pk) then
    .error .invalidSqrtPrice
  else do
    let p : SwapParams := ⟨pk, zeroForOne, decide (amountSpecified < 0), sqrtPriceLimit⟩
    let (s, fuel) ← swapLoop p (gas / gasSwapStep) (swapInit w.storage pk amountSpecified)
    let w0 : World := { w with storage := persistSwap s pk }
    let w1 ← pullAsset host w0 (pk.currency p.tokenIn) caller s.totalIn.toNat
    let w2 ← payAsset host w1 (pk.currency p.tokenOut) caller s.totalOut
    let amounts := swapAmounts zeroForOne s.totalIn s.totalOut
    .ok (w2,
      { ret := [intWord (amounts .token0), intWord (amounts .token1)]
        gas := fuel * gasSwapStep + gas % gasSwapStep
        event := some (.swap pk caller amounts s.sqrtPrice s.liquidity s.tick)
        steps := s.steps
        feesCredited := fun _ => 0 })

/-! ## Views -/

def runSlot0 (w : World) (data : List UInt8) (suppliedGas : ℕ) :
    Except Error (World × Outcome) := do
  let gas ← chargeGas Error.outOfGas suppliedGas gasView
  let pk ← parsePoolKey data
  .ok (w, .plain [uintWord (loadSqrtPrice w.storage pk),
    intWord (loadPoolTick w.storage pk)] gas none)

def runLiquidity (w : World) (data : List UInt8) (suppliedGas : ℕ) :
    Except Error (World × Outcome) := do
  let gas ← chargeGas Error.outOfGas suppliedGas gasView
  let pk ← parsePoolKey data
  .ok (w, .plain [uintWord (loadLiquidity w.storage pk)] gas none)

def runTicks (w : World) (data : List UInt8) (suppliedGas : ℕ) :
    Except Error (World × Outcome) := do
  let gas ← chargeGas Error.outOfGas suppliedGas gasView
  checkLength Error.badArgs data 160
  let pk ← parsePoolKey (slice data 0 128)
  let tick ← parseTick (argWord data 128)
  let info := loadTickInfo w.storage pk tick
  .ok (w, .plain [uintWord info.liquidityGross, intWord info.liquidityNet,
    uintWord (info.feeGrowthOutside .token0),
    uintWord (info.feeGrowthOutside .token1)] gas none)

def runPositions (w : World) (data : List UInt8) (suppliedGas : ℕ) :
    Except Error (World × Outcome) := do
  let gas ← chargeGas Error.outOfGas suppliedGas gasView
  checkLength Error.badArgs data 224
  let pk ← parsePoolKey (slice data 0 128)
  let tickLower ← parseTick (argWord data 160)
  let tickUpper ← parseTick (argWord data 192)
  let pos := loadPosition w.storage pk
    ⟨bytesToAddress (slice data 140 160), tickLower, tickUpper⟩
  .ok (w, .plain [uintWord pos.liquidity,
    uintWord (pos.feeGrowthInsideLast .token0),
    uintWord (pos.feeGrowthInsideLast .token1),
    uintWord (pos.tokensOwed .token0), uintWord (pos.tokensOwed .token1)] gas none)

/-! ## Dispatch -/

def selInitialize : ℕ := 0x3df54ad7
def selMint : ℕ := 0xb26b3066
def selBurn : ℕ := 0x418c5e35
def selCollect : ℕ := 0x1b1cd92d
def selSwap : ℕ := 0xf4bec049
def selSlot0 : ℕ := 0xe3f6e2b1
def selLiquidity : ℕ := 0xc6e7cadb
def selTicks : ℕ := 0xebba9138
def selPositions : ℕ := 0x01aed3f4

/-- The five state transitions, behind the guard. -/
def runTransition (host : Host) (w : World) (caller : Address) (selector : ℕ)
    (data : List UInt8) (suppliedGas : ℕ) : Except Error (World × Outcome) :=
  if selector = selInitialize then runInitialize w data suppliedGas
  else if selector = selMint then runMint host w caller data suppliedGas
  else if selector = selBurn then runBurn w caller data suppliedGas
  else if selector = selCollect then runCollect host w caller data suppliedGas
  else runSwap host w caller data suppliedGas

def run (host : Host) (w : World) (caller : Address) (input : List UInt8)
    (suppliedGas : ℕ) (readOnly : Bool) : Except Error (World × Outcome) :=
  if input.length < 4 then .error .shortInput
  else
    let selector := bytesToNat (slice input 0 4)
    let data := input.drop 4
    if selector = selSlot0 then runSlot0 w data suppliedGas
    else if selector = selLiquidity then runLiquidity w data suppliedGas
    else if selector = selTicks then runTicks w data suppliedGas
    else if selector = selPositions then runPositions w data suppliedGas
    else if selector ∈ [selInitialize, selMint, selBurn, selCollect, selSwap] then
      if readOnly then .error .readOnly
      else
        match enterGuard w.storage with
        | none => .error .reentrant
        | some db => do
            let (w', out) ← runTransition host { w with storage := db } caller selector
              data suppliedGas
            .ok ({ w' with storage := exitGuard w'.storage }, out)
    else .error (.unknownSelector selector)

end LuxPrecompile.V3
