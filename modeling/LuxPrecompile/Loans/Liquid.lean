import LuxPrecompile.Evm.Word
import Mathlib.Logic.Function.Basic
import Mathlib.Tactic

/-!
# Self-repaying loans

`dex/liquid.go`.  Yield tokens are deposited as collateral, liquid tokens are minted
against them, and the yield of the collateral repays the debt.  Accounts are reached
through pointers, so what a call did to an account before it failed stays.
-/

namespace LuxPrecompile.Loans

open Evm

/-- The errors of the loans. -/
inductive Error
  | invalidYieldToken
  | insufficientCollateral
  | maxLTVExceeded
  | debtCeiling
  | noDebtToRepay
  | liquidTokenNotRegistered
deriving DecidableEq, Repr

/-! ## Data -/

/-- A liquid token. -/
structure LiquidToken where
  totalMinted : ℤ
  debtCeiling : ℤ
  burnFee : ℕ
deriving DecidableEq

/-- A yield-bearing token. -/
structure YieldToken where
  yieldPerBlock : ℤ
  isActive : Bool
  totalDeposited : ℤ
deriving DecidableEq

/-- A loan. -/
structure LiquidAccount where
  collateral : ℤ
  debt : ℤ
  lastHarvestBlock : UInt64
  accruedYield : ℤ
deriving DecidableEq

/-- The loans of all owners, by the owner and the yield token an account key is the
hash of. -/
structure Liquid where
  yieldTokens : Address → Option YieldToken
  liquidTokens : Address → Option LiquidToken
  accounts : Address × Address → Option LiquidAccount

/-! ## Constants -/

def maxLTV : ℤ := 9000
def ltvPrecision : ℤ := 10000

def newLiquid : Liquid := ⟨fun _ => none, fun _ => none, fun _ => none⟩

/-! ## Helpers -/

def accountKey (owner yieldToken : Address) : Address × Address := (owner, yieldToken)

def calculateMaxDebt (collateralValue : ℤ) : ℤ := collateralValue * maxLTV / ltvPrecision

def calculateFee (amount : ℤ) (feeBps : ℕ) : ℤ := amount * feeBps / 1000000

namespace Liquid

variable (a : Liquid)

def saveAccount (key : Address × Address) (account : LiquidAccount) : Liquid :=
  { a with accounts := Function.update a.accounts key (some account) }

def saveYieldToken (token : Address) (yt : YieldToken) : Liquid :=
  { a with yieldTokens := Function.update a.yieldTokens token (some yt) }

def saveLiquidToken (synthetic : Address) (st : LiquidToken) : Liquid :=
  { a with liquidTokens := Function.update a.liquidTokens synthetic (some st) }

variable (key : Address × Address) (account : LiquidAccount) (token synthetic : Address)
  (yt : YieldToken) (st : LiquidToken)

@[simp]
theorem saveAccount_accounts :
    (a.saveAccount key account).accounts = Function.update a.accounts key (some account) := rfl

@[simp]
theorem saveAccount_yieldTokens : (a.saveAccount key account).yieldTokens = a.yieldTokens := rfl

@[simp]
theorem saveAccount_liquidTokens : (a.saveAccount key account).liquidTokens = a.liquidTokens := rfl

@[simp]
theorem saveYieldToken_accounts : (a.saveYieldToken token yt).accounts = a.accounts := rfl

@[simp]
theorem saveYieldToken_yieldTokens :
    (a.saveYieldToken token yt).yieldTokens = Function.update a.yieldTokens token (some yt) := rfl

@[simp]
theorem saveYieldToken_liquidTokens :
    (a.saveYieldToken token yt).liquidTokens = a.liquidTokens := rfl

@[simp]
theorem saveLiquidToken_accounts : (a.saveLiquidToken synthetic st).accounts = a.accounts := rfl

@[simp]
theorem saveLiquidToken_yieldTokens :
    (a.saveLiquidToken synthetic st).yieldTokens = a.yieldTokens := rfl

@[simp]
theorem saveLiquidToken_liquidTokens : (a.saveLiquidToken synthetic st).liquidTokens =
    Function.update a.liquidTokens synthetic (some st) := rfl

end Liquid

/-! ## Yield -/

/-- The debt and the accrued yield after the yield repays what it can. -/
def LiquidAccount.applyYield (account : LiquidAccount) : LiquidAccount :=
  if 0 < account.debt ∧ 0 < account.accruedYield then
    if account.debt ≤ account.accruedYield then
      { account with accruedYield := account.accruedYield - account.debt, debt := 0 }
    else { account with debt := account.debt - account.accruedYield, accruedYield := 0 }
  else account

def harvestYieldInternal (block : UInt64) (account : LiquidAccount) (yt : YieldToken) :
    LiquidAccount × ℤ :=
  if account.lastHarvestBlock = 0 then ({ account with lastHarvestBlock := block }, 0)
  else
    let blocksElapsed := block - account.lastHarvestBlock
    if blocksElapsed = 0 then (account, 0)
    else
      let yieldAmount :=
        account.collateral * yt.yieldPerBlock * blocksElapsed.toInt64.toInt / 10 ^ 18
      let account :=
        { account with accruedYield := account.accruedYield + yieldAmount }.applyYield
      ({ account with lastHarvestBlock := block }, yieldAmount)

/-! ## Operations -/

section Operations

variable (a : Liquid)

def addYieldToken (token : Address) (yieldPerBlock : ℤ) : Liquid × Except Error Unit :=
  match a.yieldTokens token with
  | some _ => (a, .error .invalidYieldToken)
  | none => (a.saveYieldToken token ⟨yieldPerBlock, true, 0⟩, .ok ())

def addLiquidToken (synthetic : Address) (debtCeiling : ℤ) : Liquid × Except Error Unit :=
  match a.liquidTokens synthetic with
  | some _ => (a, .error .liquidTokenNotRegistered)
  | none => (a.saveLiquidToken synthetic ⟨0, debtCeiling, 10⟩, .ok ())

variable (block : UInt64) (owner yieldToken : Address)

def deposit (amount : ℤ) : Liquid × Except Error Unit :=
  match a.yieldTokens yieldToken with
  | none => (a, .error .invalidYieldToken)
  | some yt =>
      if yt.isActive = false then (a, .error .invalidYieldToken)
      else if amount ≤ 0 then (a, .error .insufficientCollateral)
      else
        let key := accountKey owner yieldToken
        let account := (a.accounts key).getD ⟨0, 0, 0, 0⟩
        let account := (harvestYieldInternal block account yt).1
        let a := a.saveAccount key { account with collateral := account.collateral + amount }
        (a.saveYieldToken yieldToken { yt with totalDeposited := yt.totalDeposited + amount },
          .ok ())

def withdraw (amount : ℤ) : Liquid × Except Error Unit :=
  match a.yieldTokens yieldToken with
  | none => (a, .error .invalidYieldToken)
  | some yt =>
      let key := accountKey owner yieldToken
      match a.accounts key with
      | none => (a, .error .insufficientCollateral)
      | some account =>
          if account.collateral = 0 then (a, .error .insufficientCollateral)
          else
            let account := (harvestYieldInternal block account yt).1
            -- The pointer in the map sees the harvest before the checks.
            let a := a.saveAccount key account
            if account.collateral < amount then (a, .error .insufficientCollateral)
            else
              let newCollateral := account.collateral - amount
              if 0 < account.debt ∧ calculateMaxDebt newCollateral < account.debt then
                (a, .error .maxLTVExceeded)
              else
                let a := a.saveAccount key { account with collateral := newCollateral }
                (a.saveYieldToken yieldToken
                  { yt with totalDeposited := yt.totalDeposited - amount }, .ok ())

variable (syntheticToken : Address)

def mint (amount : ℤ) : Liquid × Except Error Unit :=
  match a.yieldTokens yieldToken with
  | none => (a, .error .invalidYieldToken)
  | some yt =>
      if yt.isActive = false then (a, .error .invalidYieldToken)
      else
        match a.liquidTokens syntheticToken with
        | none => (a, .error .liquidTokenNotRegistered)
        | some st =>
            let newTotalMinted := st.totalMinted + amount
            if st.debtCeiling < newTotalMinted then (a, .error .debtCeiling)
            else
              let key := accountKey owner yieldToken
              match a.accounts key with
              | none => (a, .error .insufficientCollateral)
              | some account =>
                  if account.collateral = 0 then (a, .error .insufficientCollateral)
                  else
                    let account := (harvestYieldInternal block account yt).1
                    let a := a.saveAccount key account
                    let availableToMint := calculateMaxDebt account.collateral - account.debt
                    if availableToMint < amount then (a, .error .maxLTVExceeded)
                    else
                      let a := a.saveAccount key { account with debt := account.debt + amount }
                      (a.saveLiquidToken syntheticToken
                        { st with totalMinted := newTotalMinted }, .ok ())

/-- The account after the harvest of `Burn`, which an unknown yield token skips. -/
def harvested (account : LiquidAccount) : LiquidAccount :=
  match a.yieldTokens yieldToken with
  | none => account
  | some yt => (harvestYieldInternal block account yt).1

def burn (amount : ℤ) : Liquid × Except Error Unit :=
  match a.liquidTokens syntheticToken with
  | none => (a, .error .liquidTokenNotRegistered)
  | some st =>
      let key := accountKey owner yieldToken
      match a.accounts key with
      | none => (a, .error .noDebtToRepay)
      | some account =>
          if account.debt = 0 then (a, .error .noDebtToRepay)
          else
            let account := harvested a block yieldToken account
            let burnAmount := if account.debt < amount then account.debt else amount
            let debtReduction := burnAmount - calculateFee burnAmount st.burnFee
            let debt := account.debt - debtReduction
            let a := a.saveAccount key { account with debt := if debt < 0 then 0 else debt }
            (a.saveLiquidToken syntheticToken
              { st with totalMinted := st.totalMinted - burnAmount }, .ok ())

def harvest : Liquid × Except Error ℤ :=
  match a.yieldTokens yieldToken with
  | none => (a, .error .invalidYieldToken)
  | some yt =>
      let key := accountKey owner yieldToken
      match a.accounts key with
      | none => (a, .error .insufficientCollateral)
      | some account =>
          let harvested := harvestYieldInternal block account yt
          (a.saveAccount key harvested.1, .ok harvested.2)

end Operations

end LuxPrecompile.Loans
