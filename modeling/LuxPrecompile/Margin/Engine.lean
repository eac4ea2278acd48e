import LuxPrecompile.Evm.Word
import LuxPrecompile.Support.Faults
import LuxPrecompile.Support.Maps

/-!
# Margin accounts

`dex/margin.go`.  An account holds collateral and at most one position in a market.  Positions
are written in place, so an error comes with the engine as it is when the call gives up; a
division by zero panics.
-/

namespace LuxPrecompile.Margin

open Evm Support Support.Checked

/-- The errors of the engine. -/
inductive Error
  | accountExists
  | accountNotFound
  | invalidCollateral
  | insufficientCollateral
  | withdrawalUnsafe
  | excessiveLeverage
  | insufficientMargin
  | positionNotFound
  | notIsolatedPosition
  | positionNotLiquidatable
deriving DecidableEq, Repr

abbrev MarginAccountType := UInt8

def crossMargin : MarginAccountType := 0
def isolatedMargin : MarginAccountType := 1
def portfolioMargin : MarginAccountType := 2

abbrev PositionSide := UInt8

def long : PositionSide := 0
def short : PositionSide := 1

def defaultMaxLeverage : UInt32 := 100
def isolatedMaxLeverage : UInt32 := 200
def portfolioMaxLeverage : UInt32 := 1111
def defaultMaintenanceMargin : UInt32 := 500
def defaultInitialMargin : UInt32 := 1000
def defaultLiquidationPenalty : ℤ := 500
def defaultLiquidatorReward : ℤ := 250
def marginPrecision : ℤ := 10000

def q96 : ℤ := 2 ^ 96

/-! ## Data -/

/-- A leveraged position. -/
structure MarginPosition where
  marketID : Word
  side : PositionSide
  size : ℤ
  entryPrice : ℤ
  markPrice : ℤ
  margin : ℤ
  unrealizedPnL : ℤ
  realizedPnL : ℤ
  leverage : UInt32
  liquidationPrice : ℤ
  stopLoss : Option ℤ
  takeProfit : Option ℤ
  isIsolated : Bool
deriving DecidableEq

/-- An account. -/
structure MarginAccount where
  owner : Address
  accountType : MarginAccountType
  collateral : Address → Option ℤ
  collateralValue : ℤ
  positions : FinMap Word MarginPosition
  maxLeverage : UInt32
  maintenanceMargin : UInt32
  initialMargin : UInt32

/-- The collateral parameters of an asset. -/
structure CollateralRate where
  isActive : Bool

/-- The engine. -/
structure MarginEngine where
  accounts : Address → Option MarginAccount
  collateralRates : Address → Option CollateralRate
  insuranceFund : ℤ
  totalCollateral : Address → Option ℤ

def newMarginEngine : MarginEngine := ⟨fun _ => none, fun _ => none, 0, fun _ => none⟩

/-- An error, with the engine as it is when the call gives up. -/
abbrev Failure := Error × MarginEngine

def fail {α : Type} (e : Error) (me : MarginEngine) : Checked Failure α :=
  .error (.refused (e, me))

namespace MarginEngine

variable (me : MarginEngine)

def setAccount (owner : Address) (account : MarginAccount) : MarginEngine :=
  { me with accounts := Function.update me.accounts owner (some account) }

/-- The position of a market written. -/
def setPosition (owner : Address) (account : MarginAccount) (marketID : Word)
    (position : MarginPosition) : MarginEngine :=
  me.setAccount owner { account with positions := account.positions.insert marketID position }

/-- The position of a market deleted. -/
def deletePosition (owner : Address) (account : MarginAccount) (marketID : Word) :
    MarginEngine :=
  me.setAccount owner { account with positions := account.positions.erase marketID }

end MarginEngine

/-! ## Helper functions -/

def MarginAccount.sum (account : MarginAccount) (f : MarginPosition → ℤ) : ℤ :=
  (account.positions.entries.map fun e => f e.2).sum

def calculateTotalEquity (account : MarginAccount) : ℤ :=
  account.collateralValue + account.sum MarginPosition.unrealizedPnL

def calculateUsedMargin (account : MarginAccount) : ℤ := account.sum MarginPosition.margin

def calculateFreeMargin (account : MarginAccount) : ℤ :=
  calculateTotalEquity account - calculateUsedMargin account

/-- The value of a size at a price. -/
def notionalValue (size price : ℤ) : ℤ := size * price / q96

/-- The margin that `OpenPosition` requires. -/
def requiredMargin (account : MarginAccount) (size markPrice : ℤ) : ℤ :=
  notionalValue size markPrice * account.initialMargin.toNat / marginPrecision

def calculateLiquidationPrice {ε : Type} (side : PositionSide) (entryPrice : ℤ)
    (leverage maintenanceMargin : UInt32) : Checked ε ℤ := do
  let leverageInverse ← div marginPrecision leverage.toNat
  let maintenanceRatio : ℤ := maintenanceMargin.toNat
  let priceMultiplier :=
    if side = long then marginPrecision - leverageInverse + maintenanceRatio
    else marginPrecision + leverageInverse - maintenanceRatio
  .ok (entryPrice * priceMultiplier / marginPrecision)

def calculatePnL (position : MarginPosition) (currentPrice size : ℤ) : ℤ :=
  let pnl := size * (currentPrice - position.entryPrice) / q96
  if position.side = short then -pnl else pnl

def isPositionLiquidatable (position : MarginPosition) (currentPrice : ℤ)
    (maintenanceMargin : UInt32) : Bool :=
  let equity := position.margin + calculatePnL position currentPrice position.size
  let required := notionalValue position.size currentPrice * maintenanceMargin.toNat /
    marginPrecision
  decide (equity < required)

/-! ## Accounts and collateral -/

namespace MarginEngine

variable (me : MarginEngine)

/-- The greatest leverage of an account type. -/
def maxLeverageOf (accountType : MarginAccountType) : UInt32 :=
  if accountType = crossMargin then defaultMaxLeverage
  else if accountType = isolatedMargin then isolatedMaxLeverage
  else if accountType = portfolioMargin then portfolioMaxLeverage
  else 0

def createAccount (owner : Address) (accountType : MarginAccountType) :
    Checked Failure (MarginAccount × MarginEngine) :=
  match me.accounts owner with
  | some _ => fail .accountExists me
  | none =>
      let account : MarginAccount :=
        { owner
          accountType
          collateral := fun _ => none
          collateralValue := 0
          positions := .empty
          maxLeverage := maxLeverageOf accountType
          maintenanceMargin := defaultMaintenanceMargin
          initialMargin := defaultInitialMargin }
      .ok (account, me.setAccount owner account)

def depositCollateral (owner asset : Address) (amount : ℤ) :
    Checked Failure (Unit × MarginEngine) :=
  match me.accounts owner with
  | none => fail .accountNotFound me
  | some account =>
      if (me.collateralRates asset).any CollateralRate.isActive then
        let collateral := (account.collateral asset).getD 0 + amount
        let total := (me.totalCollateral asset).getD 0 + amount
        let account := { account with
          collateral := Function.update account.collateral asset (some collateral) }
        .ok ((), { me.setAccount owner account with
          totalCollateral := Function.update me.totalCollateral asset (some total) })
      else fail .invalidCollateral me

/-- `WithdrawCollateral`; `isAccountSafeWithCollateral` asks that some collateral is left or
none.  A total that was never created is a null pointer. -/
def withdrawCollateral (owner asset : Address) (amount : ℤ) :
    Checked Failure (Unit × MarginEngine) :=
  match me.accounts owner with
  | none => fail .accountNotFound me
  | some account =>
      match account.collateral asset with
      | none => fail .insufficientCollateral me
      | some collateral =>
          if collateral < amount then fail .insufficientCollateral me
          else if collateral - amount < 0 then fail .withdrawalUnsafe me
          else
            match me.totalCollateral asset with
            | none => .error .panic
            | some total =>
                let account := { account with
                  collateral :=
                    Function.update account.collateral asset (some (collateral - amount)) }
                .ok ((), { me.setAccount owner account with
                  totalCollateral :=
                    Function.update me.totalCollateral asset (some (total - amount)) })

/-! ## Positions -/

/-- The leverage of a position by its notional value and margin, when it has a margin; a
quotient of more than 32 bits is refused. -/
def increasedLeverage (existing : MarginPosition) : Checked Unit UInt32 :=
  if 0 < existing.margin then do
    let lev ← div (notionalValue existing.size existing.markPrice) existing.margin
    if lev < 0 ∨ 2 ^ 32 ≤ lev then .error (.refused ()) else .ok (UInt32.ofNat lev.toNat)
  else .ok existing.leverage

/-- `increasePosition`.  The entry price, the size and the margin are written before the
leverage is computed. -/
def increasePosition (owner : Address) (account : MarginAccount) (marketID : Word)
    (existing incoming : MarginPosition) :
    Checked Failure (Option MarginPosition × MarginEngine) := do
  let totalNotional := existing.size * existing.entryPrice + incoming.size * incoming.entryPrice
  let totalSize := existing.size + incoming.size
  let entryPrice ← div totalNotional totalSize
  let existing := { existing with
    entryPrice
    size := totalSize
    margin := existing.margin + incoming.margin }
  match increasedLeverage existing with
  | .error .panic => .error .panic
  | .error (.refused _) =>
      fail .excessiveLeverage (me.setPosition owner account marketID existing)
  | .ok leverage =>
      let liquidationPrice ← calculateLiquidationPrice existing.side existing.entryPrice leverage
        account.maintenanceMargin
      let existing := { existing with leverage, liquidationPrice }
      .ok (some existing, me.setPosition owner account marketID existing)

def reduceOrFlipPosition (owner : Address) (account : MarginAccount) (marketID : Word)
    (existing incoming : MarginPosition) :
    Checked Failure (Option MarginPosition × MarginEngine) :=
  if incoming.size ≤ existing.size then
    let pnl := calculatePnL existing incoming.entryPrice incoming.size
    let existing := { existing with
      realizedPnL := existing.realizedPnL + pnl
      size := existing.size - incoming.size }
    if existing.size = 0 then .ok (none, me.deletePosition owner account existing.marketID)
    else .ok (some existing, me.setPosition owner account marketID existing)
  else do
    let pnl := calculatePnL existing incoming.entryPrice existing.size
    let liquidationPrice ← calculateLiquidationPrice incoming.side incoming.entryPrice
      incoming.leverage account.maintenanceMargin
    let flipped := { incoming with
      size := incoming.size - existing.size
      unrealizedPnL := 0
      realizedPnL := pnl
      liquidationPrice
      stopLoss := none
      takeProfit := none }
    .ok (some flipped, me.setPosition owner account incoming.marketID flipped)

def openPosition (owner : Address) (marketID : Word) (side : PositionSide) (size : ℤ)
    (leverage : UInt32) (markPrice : ℤ) (isIsolated : Bool) :
    Checked Failure (Option MarginPosition × MarginEngine) :=
  match me.accounts owner with
  | none => fail .accountNotFound me
  | some account =>
      if account.maxLeverage < leverage then fail .excessiveLeverage me
      else if ¬ (isIsolated = true ∨ account.accountType = isolatedMargin) ∧
          calculateFreeMargin account < requiredMargin account size markPrice then
        fail .insufficientMargin me
      else do
        let liquidationPrice ← calculateLiquidationPrice side markPrice leverage
          account.maintenanceMargin
        let position : MarginPosition :=
          { marketID
            side
            size
            entryPrice := markPrice
            markPrice
            margin := requiredMargin account size markPrice
            unrealizedPnL := 0
            realizedPnL := 0
            leverage
            liquidationPrice
            stopLoss := none
            takeProfit := none
            isIsolated }
        match account.positions.get marketID with
        | some existing =>
            if existing.side = side then
              me.increasePosition owner account marketID existing position
            else me.reduceOrFlipPosition owner account marketID existing position
        | none => .ok (some position, me.setPosition owner account marketID position)

/-- `ClosePosition`: the realized profit. -/
def closePosition (owner : Address) (marketID : Word) (sizeToClose closePrice : ℤ) :
    Checked Failure (ℤ × MarginEngine) :=
  match me.accounts owner with
  | none => fail .accountNotFound me
  | some account =>
      match account.positions.get marketID with
      | none => fail .positionNotFound me
      | some position =>
          let pnl := calculatePnL position closePrice sizeToClose
          if position.size ≤ sizeToClose then
            .ok (pnl, me.deletePosition owner account marketID)
          else do
            let size := position.size - sizeToClose
            let closeFraction ← div (sizeToClose * 10 ^ 18) (size + sizeToClose)
            let marginReduction := position.margin * closeFraction / 10 ^ 18
            let position := { position with
              size
              realizedPnL := position.realizedPnL + pnl
              margin := position.margin - marginReduction }
            .ok (pnl, me.setPosition owner account marketID position)

def updatePositionMargin (owner : Address) (marketID : Word) (marginDelta : ℤ) :
    Checked Failure (Unit × MarginEngine) :=
  match me.accounts owner with
  | none => fail .accountNotFound me
  | some account =>
      match account.positions.get marketID with
      | none => fail .positionNotFound me
      | some position =>
          let newMargin := position.margin + marginDelta
          if ¬ position.isIsolated then fail .notIsolatedPosition me
          else if newMargin ≤ 0 then fail .insufficientMargin me
          else do
            let newLeverage ←
              if marginDelta < 0 then div (notionalValue position.size position.markPrice) newMargin
              else .ok 0
            if (account.maxLeverage.toNat : ℤ) < newLeverage then fail .excessiveLeverage me
            else
              let liquidationPrice ← calculateLiquidationPrice position.side position.entryPrice
                position.leverage account.maintenanceMargin
              let position := { position with margin := newMargin, liquidationPrice }
              .ok ((), me.setPosition owner account marketID position)

/-- A field of a position written. -/
def setTrigger (owner : Address) (marketID : Word) (write : MarginPosition → MarginPosition) :
    Checked Failure (Unit × MarginEngine) :=
  match me.accounts owner with
  | none => fail .accountNotFound me
  | some account =>
      match account.positions.get marketID with
      | none => fail .positionNotFound me
      | some position => .ok ((), me.setPosition owner account marketID (write position))

def setStopLoss (owner : Address) (marketID : Word) (stopPrice : ℤ) :
    Checked Failure (Unit × MarginEngine) :=
  me.setTrigger owner marketID fun position => { position with stopLoss := some stopPrice }

def setTakeProfit (owner : Address) (marketID : Word) (takeProfitPrice : ℤ) :
    Checked Failure (Unit × MarginEngine) :=
  me.setTrigger owner marketID fun position =>
    { position with takeProfit := some takeProfitPrice }

/-- The liquidator's reward, the fee and the fund after a liquidation: the fees, capped at what
is left of the margin; and a deficit is taken from the fund if it covers it. -/
def liquidationFees (insuranceFund notional remainingMargin : ℤ) : ℤ × ℤ × ℤ :=
  let liquidatorReward := notional * defaultLiquidatorReward / marginPrecision
  let insuranceFee := notional * defaultLiquidationPenalty / marginPrecision
  if remainingMargin < liquidatorReward + insuranceFee then
    if 0 < remainingMargin then
      (remainingMargin / 2, remainingMargin - remainingMargin / 2, insuranceFund)
    else
      let deficit := -remainingMargin
      (0, 0, if deficit ≤ insuranceFund then insuranceFund - deficit else insuranceFund)
  else (liquidatorReward, insuranceFee, insuranceFund)

/-- `LiquidatePosition`: the liquidator's reward. -/
def liquidatePosition (owner : Address) (marketID : Word) (currentPrice : ℤ) :
    Checked Failure (ℤ × MarginEngine) :=
  match me.accounts owner with
  | none => fail .accountNotFound me
  | some account =>
      match account.positions.get marketID with
      | none => fail .positionNotFound me
      | some position =>
          if isPositionLiquidatable position currentPrice account.maintenanceMargin then
            let remainingMargin :=
              position.margin + calculatePnL position currentPrice position.size
            let (liquidatorReward, insuranceFee, insuranceFund) := liquidationFees
              me.insuranceFund (notionalValue position.size currentPrice) remainingMargin
            .ok (liquidatorReward,
              { me.deletePosition owner account marketID with
                insuranceFund := insuranceFund + insuranceFee })
          else fail .positionNotLiquidatable me

end MarginEngine

end LuxPrecompile.Margin
