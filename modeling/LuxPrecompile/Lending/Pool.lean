import LuxPrecompile.Evm.Word
import Mathlib.Logic.Function.Basic
import Mathlib.Tactic

/-!
# A lending reserve

`dex/lending.go`, `dex/interest_rate.go` and `dex/liquidation.go`, for one reserve.  The
reserve and the positions are reached through pointers, so the interest a call accrues
stays when the call fails.  The amounts are integers and the host's balances are words.
-/

namespace LuxPrecompile.Lending

open Evm

/-- The errors of the pool and of the liquidator. -/
inductive Error
  | invalidCollateralFactor
  | reserveFrozen
  | invalidAmount
  | supplyCapExceeded
  | insufficientBalance
  | healthFactorTooLow
  | insufficientLiquidity
  | borrowDisabled
  | borrowCapExceeded
  | insufficientCollateral
  | maxLTVExceeded
  | noDebtToRepay
  | positionHealthy
  | liquidationTooSmall
deriving DecidableEq, Repr

/-! ## Interest rates -/

def ray : ℤ := 10 ^ 18

def blocksPerYear : ℤ := 15768000

/-- An interest rate model. -/
structure InterestRateModel where
  baseRate : ℤ
  slope1 : ℤ
  slope2 : ℤ
  optimalUtilization : ℤ
  reserveFactor : ℤ
deriving DecidableEq

def defaultInterestRateModel : InterestRateModel where
  baseRate := 0
  slope1 := 4 * ray / 100
  slope2 := 75 * ray / 100
  optimalUtilization := 80 * ray / 100
  reserveFactor := 10 * ray / 100

namespace InterestRateModel

variable (m : InterestRateModel)

def getUtilizationRate (totalCash totalBorrows reserves : ℤ) : ℤ :=
  if totalBorrows = 0 then 0
  else
    let totalAvailable := totalCash + totalBorrows - reserves
    if totalAvailable ≤ 0 then ray
    else
      let utilization := totalBorrows * ray / totalAvailable
      if ray < utilization then ray else utilization

def toBlockRate (annualRate : ℤ) : ℤ := annualRate / blocksPerYear

def getBorrowRate (totalCash totalBorrows reserves : ℤ) : ℤ :=
  let utilization := getUtilizationRate totalCash totalBorrows reserves
  if utilization ≤ m.optimalUtilization then
    toBlockRate (utilization * m.slope1 / ray + m.baseRate)
  else
    let normalRate := m.optimalUtilization * m.slope1 / ray + m.baseRate
    let excessRate := (utilization - m.optimalUtilization) * m.slope2 / ray
    toBlockRate (normalRate + excessRate)

def accrueInterest (principal totalCash totalBorrows reserves : ℤ) (blocks : UInt64) : ℤ :=
  if blocks = 0 ∨ principal = 0 then 0
  else
    principal * m.getBorrowRate totalCash totalBorrows reserves * blocks.toInt64.toInt / ray

def getReserveAmount (interest : ℤ) : ℤ := interest * m.reserveFactor / ray

end InterestRateModel

/-! ## Data -/

/-- The reserve. -/
structure Reserve where
  totalSupply : ℤ
  totalBorrows : ℤ
  totalReserves : ℤ
  exchangeRate : ℤ
  collateralFactor : ℤ
  liquidationBonus : ℤ
  borrowCap : ℤ
  supplyCap : ℤ
  lastUpdateBlock : UInt64
  isActive : Bool
  isFrozen : Bool
  isBorrowEnabled : Bool
  borrowIndex : ℤ
deriving DecidableEq

/-- A user's position. -/
structure LendingPosition where
  supplyShares : ℤ
  borrowAmount : ℤ
  borrowIndex : ℤ
deriving DecidableEq

def lendingPoolAddr : Address := 0x9050

/-- The pool as one reserve uses it, the positions by the user their key is the hash of,
and the host's balances. -/
structure LendingPool where
  reserve : Reserve
  rateModel : Option InterestRateModel
  positions : Address → Option LendingPosition
  balances : Address → Word

/-- A reserve that `InitializeReserve` sets up. -/
def newReserve (balances : Address → Word) (block : UInt64)
    (collateralFactor liquidationBonus : ℤ) (rateModel : Option InterestRateModel) :
    LendingPool where
  reserve :=
    { totalSupply := 0
      totalBorrows := 0
      totalReserves := 0
      exchangeRate := ray
      collateralFactor := collateralFactor
      liquidationBonus := liquidationBonus
      borrowCap := 0
      supplyCap := 0
      lastUpdateBlock := block
      isActive := true
      isFrozen := false
      isBorrowEnabled := true
      borrowIndex := ray }
  rateModel := rateModel
  positions _ := none
  balances := balances

/-- `InitializeReserve` of an asset that has none. -/
def initializeReserve (balances : Address → Word) (block : UInt64)
    (collateralFactor liquidationBonus : ℤ) (rateModel : Option InterestRateModel) :
    Except Error LendingPool :=
  if ray < collateralFactor then .error .invalidCollateralFactor
  else .ok (newReserve balances block collateralFactor liquidationBonus rateModel)

namespace LendingPool

variable (lp : LendingPool)

def savePosition (user : Address) (position : LendingPosition) : LendingPool :=
  { lp with positions := Function.update lp.positions user (some position) }

def saveReserve (reserve : Reserve) : LendingPool := { lp with reserve := reserve }

/-- `transferAsset`.  `uint256.FromBig` keeps the low 256 bits and its overflow flag is
dropped; the host's balances wrap. -/
def transferAsset (sender recipient : Address) (amount : ℤ) : LendingPool :=
  let amountU256 := BitVec.ofInt 256 amount
  let balances := Function.update lp.balances sender (lp.balances sender - amountU256)
  { lp with balances := Function.update balances recipient (balances recipient + amountU256) }

/-- The balance of the pool's address. -/
def cash : ℤ := (lp.balances lendingPoolAddr).toNat

end LendingPool

/-! ## Internal functions -/

/-- The interest `accrueInterest` takes, or `none` where it takes none. -/
def interestDue (lp : LendingPool) (block : UInt64) : Option (InterestRateModel × ℤ) :=
  if block ≤ lp.reserve.lastUpdateBlock then none
  else if lp.reserve.totalBorrows = 0 then none
  else
    lp.rateModel.map fun model =>
      (model, model.accrueInterest lp.reserve.totalBorrows
        (lp.reserve.totalSupply - lp.reserve.totalBorrows) lp.reserve.totalBorrows
        lp.reserve.totalReserves (block - lp.reserve.lastUpdateBlock))

/-- The reserve after an interest. -/
def Reserve.accrue (reserve : Reserve) (model : InterestRateModel) (interestAccrued : ℤ) :
    Reserve :=
  let indexIncrease := interestAccrued * ray / reserve.totalBorrows
  let reserveAmount := model.getReserveAmount interestAccrued
  let supplyInterest := interestAccrued - reserveAmount
  let rateIncrease := supplyInterest * ray / reserve.totalSupply
  { reserve with
    borrowIndex := reserve.borrowIndex + indexIncrease
    totalBorrows := reserve.totalBorrows + interestAccrued
    totalReserves := reserve.totalReserves + reserveAmount
    exchangeRate :=
      if 0 < reserve.totalSupply then reserve.exchangeRate + rateIncrease
      else reserve.exchangeRate }

def accrueInterest (lp : LendingPool) (block : UInt64) : LendingPool :=
  if block ≤ lp.reserve.lastUpdateBlock then lp
  else
    let reserve :=
      match interestDue lp block with
      | none => lp.reserve
      | some (model, interestAccrued) => lp.reserve.accrue model interestAccrued
    lp.saveReserve { reserve with lastUpdateBlock := block }

def updateUserBorrow (position : LendingPosition) (reserve : Reserve) : LendingPosition :=
  if position.borrowAmount = 0 then position
  else if position.borrowIndex = 0 ∨ reserve.borrowIndex = position.borrowIndex then position
  else
    { position with
      borrowAmount := position.borrowAmount * reserve.borrowIndex / position.borrowIndex
      borrowIndex := reserve.borrowIndex }

def calculateHealthFactor (collateralValue debtValue : ℤ) (reserve : Reserve) : ℤ :=
  if debtValue = 0 then ray * 1000
  else
    let adjustedCollateral := collateralValue * reserve.collateralFactor / ray
    adjustedCollateral * ray / debtValue

/-! ## Operations -/

section Operations

variable (lp : LendingPool) (block : UInt64) (user : Address)

def supply (amount : ℤ) : LendingPool × Except Error ℤ :=
  if lp.reserve.isActive = false ∨ lp.reserve.isFrozen = true then (lp, .error .reserveFrozen)
  else if amount ≤ 0 then (lp, .error .invalidAmount)
  else if 0 < lp.reserve.supplyCap ∧ lp.reserve.supplyCap < lp.reserve.totalSupply + amount then
    (lp, .error .supplyCapExceeded)
  else
    let lp := accrueInterest lp block
    let supplyTokens := amount * ray / lp.reserve.exchangeRate
    let position := (lp.positions user).getD ⟨0, 0, lp.reserve.borrowIndex⟩
    let lp := lp.transferAsset user lendingPoolAddr amount
    let lp := lp.savePosition user
      { position with supplyShares := position.supplyShares + supplyTokens }
    (lp.saveReserve { lp.reserve with totalSupply := lp.reserve.totalSupply + amount },
      .ok supplyTokens)

/-- The check of `Withdraw` on what a withdrawal leaves. -/
def withdrawalUnhealthy (position : LendingPosition) (withdrawShares : ℤ) (reserve : Reserve) :
    Bool :=
  let newSupplyValue := (position.supplyShares - withdrawShares) * reserve.exchangeRate / ray
  decide (0 < position.borrowAmount ∧
    calculateHealthFactor newSupplyValue position.borrowAmount reserve < ray)

def withdraw (shareAmount : ℤ) : LendingPool × Except Error ℤ :=
  if lp.reserve.isActive = false then (lp, .error .reserveFrozen)
  else
    match lp.positions user with
    | none => (lp, .error .insufficientBalance)
    | some position =>
        if position.supplyShares = 0 then (lp, .error .insufficientBalance)
        else
          let lp := accrueInterest lp block
          let withdrawShares :=
            if position.supplyShares < shareAmount then position.supplyShares else shareAmount
          let underlyingAmount := withdrawShares * lp.reserve.exchangeRate / ray
          if withdrawalUnhealthy position withdrawShares lp.reserve = true then
            (lp, .error .healthFactorTooLow)
          else if lp.reserve.totalSupply - lp.reserve.totalBorrows < underlyingAmount then
            (lp, .error .insufficientLiquidity)
          else
            let lp := lp.savePosition user
              { position with supplyShares := position.supplyShares - withdrawShares }
            let lp := lp.saveReserve
              { lp.reserve with totalSupply := lp.reserve.totalSupply - underlyingAmount }
            (lp.transferAsset lendingPoolAddr user underlyingAmount, .ok underlyingAmount)

def borrow (amount : ℤ) : LendingPool × Except Error ℤ :=
  if lp.reserve.isActive = false ∨ lp.reserve.isBorrowEnabled = false then
    (lp, .error .borrowDisabled)
  else if amount ≤ 0 then (lp, .error .invalidAmount)
  else if 0 < lp.reserve.borrowCap ∧ lp.reserve.borrowCap < lp.reserve.totalBorrows + amount then
    (lp, .error .borrowCapExceeded)
  else
    let lp := accrueInterest lp block
    match lp.positions user with
    | none => (lp, .error .insufficientCollateral)
    | some position =>
        let position := updateUserBorrow position lp.reserve
        -- The pointer in the map sees the update before the checks.
        let lp := lp.savePosition user position
        let supplyValue := position.supplyShares * lp.reserve.exchangeRate / ray
        let maxBorrow := supplyValue * lp.reserve.collateralFactor / ray
        let newBorrowAmount := position.borrowAmount + amount
        if maxBorrow < newBorrowAmount then (lp, .error .maxLTVExceeded)
        else if lp.reserve.totalSupply - lp.reserve.totalBorrows < amount then
          (lp, .error .insufficientLiquidity)
        else
          let lp := lp.savePosition user
            { position with
              borrowAmount := newBorrowAmount
              borrowIndex := lp.reserve.borrowIndex }
          let lp := lp.saveReserve
            { lp.reserve with totalBorrows := lp.reserve.totalBorrows + amount }
          (lp.transferAsset lendingPoolAddr user amount, .ok amount)

def repay (amount : ℤ) : LendingPool × Except Error ℤ :=
  match lp.positions user with
  | none => (lp, .error .noDebtToRepay)
  | some position =>
      if position.borrowAmount = 0 then (lp, .error .noDebtToRepay)
      else
        let lp := accrueInterest lp block
        let position := updateUserBorrow position lp.reserve
        let repayAmount := if position.borrowAmount < amount then position.borrowAmount else amount
        let lp := lp.transferAsset user lendingPoolAddr repayAmount
        let lp := lp.savePosition user
          { position with
            borrowAmount := position.borrowAmount - repayAmount
            borrowIndex := lp.reserve.borrowIndex }
        (lp.saveReserve { lp.reserve with totalBorrows := lp.reserve.totalBorrows - repayAmount },
          .ok repayAmount)

end Operations

/-- The operations of a user. -/
inductive Op
  | supply (user : Address) (amount : ℤ)
  | withdraw (user : Address) (shareAmount : ℤ)
  | borrow (user : Address) (amount : ℤ)
  | repay (user : Address) (amount : ℤ)
deriving DecidableEq

namespace Op

/-- The user whose position an operation is about. -/
def user : Op → Address
  | .supply user _ => user
  | .withdraw user _ => user
  | .borrow user _ => user
  | .repay user _ => user

/-- The amount an operation names. -/
def amount : Op → ℤ
  | .supply _ amount => amount
  | .withdraw _ shareAmount => shareAmount
  | .borrow _ amount => amount
  | .repay _ amount => amount

end Op

def operate (lp : LendingPool) (block : UInt64) : Op → LendingPool × Except Error ℤ
  | .supply user amount => supply lp block user amount
  | .withdraw user shareAmount => withdraw lp block user shareAmount
  | .borrow user amount => borrow lp block user amount
  | .repay user amount => repay lp block user amount

/-! ## Liquidation -/

/-- The parameters of the liquidator that can be set. -/
structure LiquidatorConfig where
  closeFactor : ℤ
  protocolFee : ℤ

/-- The threshold and the least liquidation of `DefaultLiquidatorConfig`, which nothing
changes. -/
def liquidationThreshold : ℤ := ray
def minLiquidation : ℤ := 0

section Liquidation

variable (lp : LendingPool) (config : LiquidatorConfig)

def getHealthFactor (borrower : Address) : ℤ :=
  match lp.positions borrower with
  | none => ray
  | some position =>
      if position.borrowAmount = 0 then ray
      else
        calculateHealthFactor (position.supplyShares * lp.reserve.exchangeRate / ray)
          position.borrowAmount lp.reserve

/-- `executeLiquidation` of a borrower's position. -/
def executeLiquidation (liquidator borrower : Address) (position : LendingPosition)
    (debtToRepay collateralToSeize : ℤ) : LendingPool :=
  let lp := lp.transferAsset liquidator lendingPoolAddr debtToRepay
  let sharesToSeize := collateralToSeize * ray / lp.reserve.exchangeRate
  let sharesToSeize :=
    if position.supplyShares < sharesToSeize then position.supplyShares else sharesToSeize
  let borrowAmount := position.borrowAmount - debtToRepay
  let protocolFee := (collateralToSeize - debtToRepay) * config.protocolFee / ray
  let lp := lp.transferAsset lendingPoolAddr liquidator (collateralToSeize - protocolFee)
  let lp := lp.savePosition borrower
    { position with
      supplyShares := position.supplyShares - sharesToSeize
      borrowAmount := if borrowAmount < 0 then 0 else borrowAmount }
  lp.saveReserve
    { lp.reserve with
      totalReserves := lp.reserve.totalReserves + protocolFee
      totalSupply := lp.reserve.totalSupply - collateralToSeize
      totalBorrows := lp.reserve.totalBorrows - debtToRepay }

/-- `Liquidate`, with the debt repaid. -/
def liquidate (liquidator borrower : Address) (debtToRepay : ℤ) :
    LendingPool × Except Error ℤ :=
  match lp.positions borrower with
  | none => (lp, .error .noDebtToRepay)
  | some position =>
      if position.borrowAmount = 0 then (lp, .error .noDebtToRepay)
      else if liquidationThreshold ≤ getHealthFactor lp borrower then
        (lp, .error .positionHealthy)
      else
        let maxLiquidatable := position.borrowAmount * config.closeFactor / ray
        let actualDebtToRepay :=
          if maxLiquidatable < debtToRepay then maxLiquidatable else debtToRepay
        if actualDebtToRepay < minLiquidation then (lp, .error .liquidationTooSmall)
        else
          let bonus := actualDebtToRepay * lp.reserve.liquidationBonus / ray
          let collateralToSeize := actualDebtToRepay + bonus
          let supplyValue := position.supplyShares * lp.reserve.exchangeRate / ray
          if supplyValue < collateralToSeize then
            let actualDebtToRepay := supplyValue * ray / (ray + lp.reserve.liquidationBonus)
            (executeLiquidation lp config liquidator borrower position actualDebtToRepay
              supplyValue, .ok actualDebtToRepay)
          else
            (executeLiquidation lp config liquidator borrower position actualDebtToRepay
              collateralToSeize, .ok actualDebtToRepay)

end Liquidation

end LuxPrecompile.Lending
