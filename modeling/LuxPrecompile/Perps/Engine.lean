import LuxPrecompile.Evm.Word
import Mathlib.Logic.Function.Basic
import Mathlib.Tactic

/-!
# Perpetual markets

`dex/perpetuals.go`.  A trader has at most one position in a market, long when its size is
positive and short when it is negative.  The market counts the open interest of its two
sides.
-/

namespace LuxPrecompile.Perps

open Evm

/-- The errors of the engine, and the panic of a division by zero. -/
inductive Error
  | poolExists
  | poolNotFound
  | excessiveLeverage
  | positionNotFound
  | insufficientMargin
  | positionNotLiquidatable
  | divisionByZero
deriving DecidableEq, Repr

def q96 : ℤ := 2 ^ 96

/-- `MaxLeverage`. -/
def leverageLimit : UInt32 := 1111

/-! ## Data -/

/-- A market. -/
structure PerpMarket where
  markPrice : ℤ
  indexPrice : ℤ
  openInterestLong : ℤ
  openInterestShort : ℤ
  fundingRate : ℤ
  maxLeverage : UInt32
  maintenanceMargin : ℤ
  insuranceFund : ℤ
deriving DecidableEq

/-- A trader's position. -/
structure PerpPosition where
  size : ℤ
  entryPrice : ℤ
  margin : ℤ
  lastFundingIndex : ℤ
  isIsolated : Bool
deriving DecidableEq

structure FundingState where
  cumulativeFunding : ℤ
  lastUpdateTime : Int64
  premiumEMA : ℤ
  twapWindow : UInt64
deriving DecidableEq

/-- The markets, each with the funding state that is created with it, and the positions by
owner and market. -/
structure PerpetualEngine where
  markets : Word → Option (PerpMarket × FundingState)
  positions : Address → Word → Option PerpPosition

def newPerpetualEngine : PerpetualEngine := ⟨fun _ => none, fun _ _ => none⟩

namespace PerpetualEngine

variable (pe : PerpetualEngine) (marketID : Word)

def setMarket (market : PerpMarket) (fundingState : FundingState) : PerpetualEngine :=
  { pe with markets := Function.update pe.markets marketID (some (market, fundingState)) }

def setPosition (owner : Address) (position : Option PerpPosition) : PerpetualEngine :=
  let userPositions := Function.update (pe.positions owner) marketID position
  { pe with positions := Function.update pe.positions owner userPositions }

end PerpetualEngine

/-- `generateMarketID`: the address of the base and the first twelve bytes of the quote's. -/
def generateMarketID (base quote : Address) : Word :=
  BitVec.ofNat 256 (base.val * 2 ^ 96 + quote.val / 2 ^ 64)

/-! ## Helper functions -/

/-- `settleFundingForPosition`, with the payment. -/
def settleFundingForPosition (position : PerpPosition) (state : FundingState) :
    PerpPosition × ℤ :=
  let fundingDiff := state.cumulativeFunding - position.lastFundingIndex
  let payment := position.size * fundingDiff / q96
  ({ position with lastFundingIndex := state.cumulativeFunding }, -payment)

def isPositionSafe (position : PerpPosition) (market : PerpMarket) (margin : ℤ) : Bool :=
  let notional := |position.size| * market.markPrice / q96
  let maintenanceReq := notional * market.maintenanceMargin / 10 ^ 18
  let pnl := position.size * (market.markPrice - position.entryPrice) / q96
  decide (maintenanceReq ≤ margin + pnl)

/-- The leverage of `OpenPosition`, in hundredths. -/
def leverage (market : PerpMarket) (size margin : ℤ) : ℤ :=
  |size| * market.markPrice / q96 * 100 / margin

/-- The profit `ClosePosition` and `LiquidatePosition` give on a part of a position. -/
def realizedPnL (position : PerpPosition) (market : PerpMarket) (size : ℤ) : ℤ :=
  let pnl := size * (market.markPrice - position.entryPrice) / q96
  if position.size < 0 then -pnl else pnl

/-- The open interest of `OpenPosition`. -/
def PerpMarket.addOpenInterest (market : PerpMarket) (size : ℤ) : PerpMarket :=
  if 0 < size then { market with openInterestLong := market.openInterestLong + |size| }
  else { market with openInterestShort := market.openInterestShort + |size| }

/-- The open interest of `ClosePosition` and `LiquidatePosition`, by the position's sign. -/
def PerpMarket.subOpenInterest (market : PerpMarket) (positionSize size : ℤ) : PerpMarket :=
  if 0 < positionSize then { market with openInterestLong := market.openInterestLong - size }
  else { market with openInterestShort := market.openInterestShort - size }

/-! ## Operations -/

section Operations

variable (pe : PerpetualEngine) (owner : Address) (marketID : Word)

def createMarket (baseAsset quoteAsset : Address) (initialPrice : ℤ) (maxLeverage : UInt32)
    (maintenanceMargin : ℤ) (now : Int64) : Except Error (Word × PerpetualEngine) :=
  let maxLeverage :=
    if maxLeverage = 0 ∨ leverageLimit < maxLeverage then leverageLimit else maxLeverage
  let marketID := generateMarketID baseAsset quoteAsset
  match pe.markets marketID with
  | some _ => .error .poolExists
  | none =>
      let market : PerpMarket :=
        { markPrice := initialPrice
          indexPrice := initialPrice
          openInterestLong := 0
          openInterestShort := 0
          fundingRate := 0
          maxLeverage := maxLeverage
          maintenanceMargin := maintenanceMargin
          insuranceFund := 0 }
      let fundingState : FundingState :=
        { cumulativeFunding := 0
          lastUpdateTime := now
          premiumEMA := 0
          twapWindow := 8 * 3600 }
      .ok (marketID, pe.setMarket marketID market fundingState)

/-- `OpenPosition`, with the position it leaves. -/
def openPosition (size margin : ℤ) (isIsolated : Bool) :
    Except Error (Option PerpPosition × PerpetualEngine) :=
  match pe.markets marketID with
  | none => .error .poolNotFound
  | some (market, fundingState) =>
      if margin = 0 then .error .divisionByZero
      else if (market.maxLeverage.toNat * 100 : ℤ) < leverage market size margin then
        .error .excessiveLeverage
      else
        match pe.positions owner marketID with
        | none =>
            let position : PerpPosition :=
              { size := size
                entryPrice := market.markPrice
                margin := margin
                lastFundingIndex := fundingState.cumulativeFunding
                isIsolated := isIsolated }
            .ok (some position, (pe.setPosition marketID owner (some position)).setMarket marketID
              (market.addOpenInterest size) fundingState)
        | some position =>
            let position := (settleFundingForPosition position fundingState).1
            let totalNotional := position.size * position.entryPrice + size * market.markPrice
            let newSize := position.size + size
            -- The early return leaves the open interest as it is.
            if newSize = 0 then .ok (none, pe.setPosition marketID owner none)
            else
              let position :=
                { position with
                  entryPrice := totalNotional / newSize
                  size := newSize
                  margin := position.margin + margin }
              .ok (some position, (pe.setPosition marketID owner (some position)).setMarket
                marketID (market.addOpenInterest size) fundingState)

/-- The partial close of `ClosePosition`. -/
def partialClose (position : PerpPosition) (sizeToClose : ℤ) : PerpPosition :=
  let closeFraction := sizeToClose * 10 ^ 18 / |position.size|
  let marginReduction := position.margin * closeFraction / 10 ^ 18
  { position with
    margin := position.margin - marginReduction
    size :=
      if 0 < position.size then position.size - sizeToClose else position.size + sizeToClose }

/-- `ClosePosition`, with the profit. -/
def closePosition (sizeToClose : ℤ) : Except Error (ℤ × PerpetualEngine) :=
  match pe.markets marketID with
  | none => .error .poolNotFound
  | some (market, fundingState) =>
      match pe.positions owner marketID with
      | none => .error .positionNotFound
      | some position =>
          let (position, fundingPnL) := settleFundingForPosition position fundingState
          let positionSize := |position.size|
          let sizeToClose := if positionSize < sizeToClose then positionSize else sizeToClose
          let pnl := realizedPnL position market sizeToClose + fundingPnL
          if positionSize ≤ sizeToClose then
            .ok (pnl, (pe.setPosition marketID owner none).setMarket marketID
              (market.subOpenInterest position.size sizeToClose) fundingState)
          -- A negative part of an empty position, whose settled funding pays nothing.
          else if positionSize = 0 then .error .divisionByZero
          else
            let position := partialClose position sizeToClose
            .ok (pnl, (pe.setPosition marketID owner (some position)).setMarket marketID
              (market.subOpenInterest position.size sizeToClose) fundingState)

def addMargin (amount : ℤ) : Except Error (Unit × PerpetualEngine) :=
  match pe.positions owner marketID with
  | none => .error .positionNotFound
  | some position =>
      .ok ((), pe.setPosition marketID owner
        (some { position with margin := position.margin + amount }))

def removeMargin (amount : ℤ) : Except Error (Unit × PerpetualEngine) :=
  match pe.markets marketID with
  | none => .error .poolNotFound
  | some (market, _) =>
      match pe.positions owner marketID with
      | none => .error .positionNotFound
      | some position =>
          let newMargin := position.margin - amount
          if newMargin ≤ 0 then .error .insufficientMargin
          else if isPositionSafe position market newMargin = false then
            .error .insufficientMargin
          else
            .ok ((), pe.setPosition marketID owner (some { position with margin := newMargin }))

/-- The reward of `LiquidatePosition` and the insurance fund after it. -/
def liquidationReward (position : PerpPosition) (market : PerpMarket) : ℤ × ℤ :=
  let positionSize := |position.size|
  let remainingMargin := position.margin + realizedPnL position market positionSize
  let reward := positionSize * market.markPrice / q96 / 20
  if remainingMargin < reward then
    let deficit := reward - remainingMargin
    if deficit ≤ market.insuranceFund then (reward, market.insuranceFund - deficit)
    else (remainingMargin, market.insuranceFund)
  else (reward, market.insuranceFund)

/-- `LiquidatePosition`, with the reward. -/
def liquidatePosition : Except Error (ℤ × PerpetualEngine) :=
  match pe.markets marketID with
  | none => .error .poolNotFound
  | some (market, fundingState) =>
      match pe.positions owner marketID with
      | none => .error .positionNotFound
      | some position =>
          if isPositionSafe position market position.margin = true then
            .error .positionNotLiquidatable
          else
            let (reward, insuranceFund) := liquidationReward position market
            let market := { market with insuranceFund := insuranceFund }
            .ok (reward, (pe.setPosition marketID owner none).setMarket marketID
              (market.subOpenInterest position.size |position.size|) fundingState)

/-- The funding rate of `UpdateFunding`, clamped. -/
def clampRate (fundingRate : ℤ) : ℤ :=
  if 7500 < fundingRate then 7500 else if fundingRate < -7500 then -7500 else fundingRate

def updateFunding (now : Int64) : Except Error (Unit × PerpetualEngine) :=
  match pe.markets marketID with
  | none => .error .poolNotFound
  | some (market, fundingState) =>
      if now - fundingState.lastUpdateTime < fundingState.twapWindow.toInt64 then .ok ((), pe)
      else if market.indexPrice = 0 then .error .divisionByZero
      else
        let premium := (market.markPrice - market.indexPrice) * 10 ^ 18 / market.indexPrice
        let premiumEMA := (premium * 125 + fundingState.premiumEMA * 875) / 1000
        let fundingRate := clampRate (premiumEMA + 100)
        let fundingPayment := fundingRate * market.markPrice / 10 ^ 6
        .ok ((), pe.setMarket marketID { market with fundingRate := fundingRate }
          { fundingState with
            premiumEMA := premiumEMA
            cumulativeFunding := fundingState.cumulativeFunding + fundingPayment
            lastUpdateTime := now })

def updateMarkPrice (newPrice : ℤ) : Except Error (Unit × PerpetualEngine) :=
  match pe.markets marketID with
  | none => .error .poolNotFound
  | some (market, fundingState) =>
      .ok ((), pe.setMarket marketID { market with markPrice := newPrice } fundingState)

def updateIndexPrice (newPrice : ℤ) : Except Error (Unit × PerpetualEngine) :=
  match pe.markets marketID with
  | none => .error .poolNotFound
  | some (market, fundingState) =>
      .ok ((), pe.setMarket marketID { market with indexPrice := newPrice } fundingState)

end Operations

/-! ## Runs -/

/-- The operations of the engine. -/
inductive Op
  | createMarket (baseAsset quoteAsset : Address) (initialPrice : ℤ) (maxLeverage : UInt32)
      (maintenanceMargin : ℤ) (now : Int64)
  | openPosition (owner : Address) (marketID : Word) (size margin : ℤ) (isIsolated : Bool)
  | closePosition (owner : Address) (marketID : Word) (sizeToClose : ℤ)
  | addMargin (owner : Address) (marketID : Word) (amount : ℤ)
  | removeMargin (owner : Address) (marketID : Word) (amount : ℤ)
  | liquidatePosition (owner : Address) (marketID : Word)
  | updateFunding (marketID : Word) (now : Int64)
  | updateMarkPrice (marketID : Word) (newPrice : ℤ)
  | updateIndexPrice (marketID : Word) (newPrice : ℤ)
deriving DecidableEq

/-- An operation, when it succeeds. -/
def perform (pe : PerpetualEngine) : Op → Except Error PerpetualEngine
  | .createMarket base quote price maxLeverage maintenance now =>
      Prod.snd <$> createMarket pe base quote price maxLeverage maintenance now
  | .openPosition owner id size margin isIsolated =>
      Prod.snd <$> openPosition pe owner id size margin isIsolated
  | .closePosition owner id sizeToClose => Prod.snd <$> closePosition pe owner id sizeToClose
  | .addMargin owner id amount => Prod.snd <$> addMargin pe owner id amount
  | .removeMargin owner id amount => Prod.snd <$> removeMargin pe owner id amount
  | .liquidatePosition owner id => Prod.snd <$> liquidatePosition pe owner id
  | .updateFunding id now => Prod.snd <$> updateFunding pe id now
  | .updateMarkPrice id newPrice => Prod.snd <$> updateMarkPrice pe id newPrice
  | .updateIndexPrice id newPrice => Prod.snd <$> updateIndexPrice pe id newPrice

/-- The engine after an operation.  One that fails leaves it as it was. -/
def step (pe : PerpetualEngine) (op : Op) : PerpetualEngine :=
  match perform pe op with
  | .ok pe' => pe'
  | .error _ => pe

end LuxPrecompile.Perps
