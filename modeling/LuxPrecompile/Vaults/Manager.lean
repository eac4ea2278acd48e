import LuxPrecompile.Evm.Bytes
import Mathlib.Logic.Function.Basic
import Mathlib.Tactic

/-!
# Yield vaults

`dex/vaults.go`.  A vault issues shares for the assets deposited into it and hands them
to its strategy, which keeps a balance of its own.
-/

namespace LuxPrecompile.Vaults

open Evm

/-- The errors of the vaults, and the panics of a division by zero and of a slice. -/
inductive Error
  | invalidFee
  | vaultExists
  | vaultNotFound
  | depositsDisabled
  | withdrawalsDisabled
  | depositLimitExceeded
  | zeroShares
  | insufficientShares
  | insufficientLiquidity
  | divisionByZero
  | sliceOutOfRange
deriving DecidableEq, Repr

/-! ## Strategies -/

/-- The built-in strategies. -/
inductive StrategyKind
  | lpYield
  | lendingYield
  | deltaNeutral
deriving DecidableEq

/-- A strategy and what it has deployed. -/
structure Strategy where
  kind : StrategyKind
  deployed : ℤ
deriving DecidableEq

def StrategyKind.name : StrategyKind → List UInt8
  | .lpYield => ascii ['L', 'P', '_', 'Y', 'I', 'E', 'L', 'D']
  | .lendingYield => ascii ['L', 'E', 'N', 'D', 'I', 'N', 'G', '_', 'Y', 'I', 'E', 'L', 'D']
  | .deltaNeutral => ascii ['D', 'E', 'L', 'T', 'A', '_', 'N', 'E', 'U', 'T', 'R', 'A', 'L']

/-- The part of its balance a strategy harvests is one in this many. -/
def StrategyKind.divisor : StrategyKind → ℤ
  | .lpYield => 100
  | .lendingYield => 200
  | .deltaNeutral => 50

namespace Strategy

variable (s : Strategy) (amount : ℤ)

/-- `Deposit` of a strategy. -/
def deposit : Strategy := { s with deployed := s.deployed + amount }

/-- `Withdraw` of a strategy. -/
def withdraw : Except Error (Strategy × ℤ) :=
  if s.deployed < amount then .error .insufficientLiquidity
  else .ok ({ s with deployed := s.deployed - amount }, amount)

/-- `Harvest` of a strategy. -/
def harvest : ℤ := s.deployed / s.kind.divisor

end Strategy

/-! ## Vaults -/

/-- A vault. -/
structure YieldVault where
  totalAssets : ℤ
  totalShares : ℤ
  strategy : Strategy
  performanceFee : UInt32
  depositLimit : ℤ
  withdrawEnabled : Bool
  depositEnabled : Bool
deriving DecidableEq

/-- The vaults, and the shares of the users' positions by user and vault. -/
structure VaultManager where
  vaults : Address → Option YieldVault
  positions : Address × Address → Option ℤ

def newVaultManager : VaultManager := ⟨fun _ => none, fun _ => none⟩

namespace VaultManager

variable (vm : VaultManager) (user vault : Address)

def setVault (v : YieldVault) : VaultManager :=
  { vm with vaults := Function.update vm.vaults vault (some v) }

/-- `updatePosition`: a position without shares is deleted. -/
def updatePosition (shares : ℤ) (isDeposit : Bool) : VaultManager :=
  let position := (vm.positions (user, vault)).getD 0
  let position :=
    if isDeposit then some (position + shares)
    else if position - shares = 0 then none
    else some (position - shares)
  { vm with positions := Function.update vm.positions (user, vault) position }

variable (v : YieldVault) (shares : ℤ) (isDeposit : Bool)

@[simp]
theorem setVault_vaults :
    (vm.setVault vault v).vaults = Function.update vm.vaults vault (some v) := rfl

@[simp]
theorem setVault_positions : (vm.setVault vault v).positions = vm.positions := rfl

@[simp]
theorem updatePosition_vaults :
    (vm.updatePosition user vault shares isDeposit).vaults = vm.vaults := rfl

end VaultManager

/-! ## Operations -/

/-- A quotient of `big.Int.Div`, which panics on a zero divisor. -/
def div (x y : ℤ) : Except Error ℤ := if y = 0 then .error .divisionByZero else .ok (x / y)

/-- `generateVaultAddress`, which panics on a name of fewer than ten bytes. -/
def generateVaultAddress (asset : Address) (strategyName : List UInt8) : Except Error Address :=
  if strategyName.length < 10 then .error .sliceOutOfRange
  else .ok (bytesToAddress (slice (natToBytes 20 asset) 0 10 ++ slice strategyName 0 10))

/-- A vault that `CreateVault` sets up over a new strategy. -/
def newVault (kind : StrategyKind) (performanceFee : UInt32) (depositLimit : ℤ) : YieldVault where
  totalAssets := 0
  totalShares := 0
  strategy := ⟨kind, 0⟩
  performanceFee := performanceFee
  depositLimit := depositLimit
  withdrawEnabled := true
  depositEnabled := true

section Operations

variable (vm : VaultManager) (user vault : Address)

def createVault (asset : Address) (kind : StrategyKind) (performanceFee managementFee : UInt32)
    (depositLimit : ℤ) : VaultManager × Except Error Address :=
  if 5000 < performanceFee then (vm, .error .invalidFee)
  else if 500 < managementFee then (vm, .error .invalidFee)
  else
    match generateVaultAddress asset kind.name with
    | .error e => (vm, .error e)
    | .ok vaultAddr =>
        match vm.vaults vaultAddr with
        | some _ => (vm, .error .vaultExists)
        | none =>
            (vm.setVault vaultAddr (newVault kind performanceFee depositLimit), .ok vaultAddr)

/-- The shares a deposit mints. -/
def sharesFor (v : YieldVault) (assets : ℤ) : Except Error ℤ :=
  if v.totalShares = 0 then .ok assets else div (assets * v.totalShares) v.totalAssets

def deposit (assets : ℤ) : VaultManager × Except Error ℤ :=
  match vm.vaults vault with
  | none => (vm, .error .vaultNotFound)
  | some v =>
      if v.depositEnabled = false then (vm, .error .depositsDisabled)
      else if 0 < v.depositLimit ∧ v.depositLimit < v.totalAssets + assets then
        (vm, .error .depositLimitExceeded)
      else
        match sharesFor v assets with
        | .error e => (vm, .error e)
        | .ok shares =>
            if shares = 0 then (vm, .error .zeroShares)
            else
              -- No built-in strategy refuses a deposit.
              let vm := vm.setVault vault { v with
                totalAssets := v.totalAssets + assets
                totalShares := v.totalShares + shares
                strategy := v.strategy.deposit assets }
              (vm.updatePosition user vault shares true, .ok shares)

def withdraw (shares : ℤ) : VaultManager × Except Error ℤ :=
  match vm.vaults vault with
  | none => (vm, .error .vaultNotFound)
  | some v =>
      if v.withdrawEnabled = false then (vm, .error .withdrawalsDisabled)
      else
        match vm.positions (user, vault) with
        | none => (vm, .error .insufficientShares)
        | some position =>
            if position < shares then (vm, .error .insufficientShares)
            else
              match div (shares * v.totalAssets) v.totalShares with
              | .error e => (vm, .error e)
              | .ok assets =>
                  match v.strategy.withdraw assets with
                  | .error e => (vm, .error e)
                  | .ok (strategy, actualAssets) =>
                      let vm := vm.setVault vault { v with
                        totalAssets := v.totalAssets - actualAssets
                        totalShares := v.totalShares - shares
                        strategy := strategy }
                      (vm.updatePosition user vault shares false, .ok actualAssets)

/-- The profit that `Harvest` adds to a vault. -/
def YieldVault.netProfit (v : YieldVault) : ℤ :=
  v.strategy.harvest - v.strategy.harvest * v.performanceFee.toNat / 10000

def harvest : VaultManager × Except Error ℤ :=
  match vm.vaults vault with
  | none => (vm, .error .vaultNotFound)
  | some v =>
      if v.strategy.harvest ≤ 0 then (vm, .ok 0)
      else
        (vm.setVault vault { v with totalAssets := v.totalAssets + v.netProfit }, .ok v.netProfit)

end Operations

end LuxPrecompile.Vaults
