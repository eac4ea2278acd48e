import LuxPrecompile.Evm.Word
import Mathlib.Logic.Function.Basic
import Mathlib.Tactic

/-!
# The transmuter

`dex/transmuter.go`.  Liquid tokens are staked and convert to underlying as it is
deposited.  A deposit only advances a rate; a stake is brought up to date when one of
its owner's calls touches it.
-/

namespace LuxPrecompile.Transmutation

open Evm

/-- The errors of the transmuter. -/
inductive Error
  | liquidTokenNotRegistered
  | invalidPositionSize
  | transmuterEmpty
deriving DecidableEq, Repr

/-! ## Data -/

/-- The state kept for a liquid token. -/
structure LiquidFXState where
  exchangeBuffer : ℤ
  totalStaked : ℤ
  exchangeRate : ℤ
deriving DecidableEq

/-- The stake of an owner in a liquid token. -/
structure TransmuterStake where
  stakedAmount : ℤ
  unclaimedAmount : ℤ
  lastUpdateIndex : ℤ
deriving DecidableEq

/-- The transmuter, with stakes by the liquid token and the owner a stake key is the
hash of. -/
structure Transmuter where
  states : Address → Option LiquidFXState
  stakes : Address × Address → Option TransmuterStake

def q96 : ℤ := 2 ^ 96

theorem q96_pos : 0 < q96 := by norm_num [q96]

def newTransmuter : Transmuter := ⟨fun _ => none, fun _ => none⟩

def stakeKey (liquid owner : Address) : Address × Address := (liquid, owner)

namespace Transmuter

variable (t : Transmuter)

def saveState (liquidToken : Address) (state : LiquidFXState) : Transmuter :=
  { t with states := Function.update t.states liquidToken (some state) }

def saveStake (key : Address × Address) (stake : TransmuterStake) : Transmuter :=
  { t with stakes := Function.update t.stakes key (some stake) }

variable (liquidToken : Address) (state : LiquidFXState) (key : Address × Address)
  (stake : TransmuterStake)

@[simp]
theorem saveState_states :
    (t.saveState liquidToken state).states = Function.update t.states liquidToken (some state) :=
  rfl

@[simp]
theorem saveState_stakes : (t.saveState liquidToken state).stakes = t.stakes := rfl

@[simp]
theorem saveStake_states : (t.saveStake key stake).states = t.states := rfl

@[simp]
theorem saveStake_stakes :
    (t.saveStake key stake).stakes = Function.update t.stakes key (some stake) := rfl

end Transmuter

/-! ## Conversion -/

/-- The underlying a stake has accrued since its last update at a rate. -/
def TransmuterStake.accrued (stake : TransmuterStake) (rate : ℤ) : ℤ :=
  stake.stakedAmount * (rate - stake.lastUpdateIndex) / q96

def updateStakeUnclaimed (stake : TransmuterStake) (state : LiquidFXState) : TransmuterStake :=
  if stake.stakedAmount = 0 then stake
  else if state.exchangeRate - stake.lastUpdateIndex ≤ 0 then stake
  else
    let newUnclaimed := stake.accrued state.exchangeRate
    { stakedAmount :=
        if stake.stakedAmount ≤ newUnclaimed then 0 else stake.stakedAmount - newUnclaimed
      unclaimedAmount := stake.unclaimedAmount + newUnclaimed
      lastUpdateIndex := state.exchangeRate }

/-! ## Operations -/

section Operations

variable (t : Transmuter) (owner liquidToken : Address)

def initializeTransmuter : Except Error (Transmuter × ℤ) :=
  match t.states liquidToken with
  | some _ => .error .liquidTokenNotRegistered
  | none => .ok (t.saveState liquidToken ⟨0, 0, q96⟩, 0)

def stake (amount : ℤ) : Except Error (Transmuter × ℤ) :=
  match t.states liquidToken with
  | none => .error .liquidTokenNotRegistered
  | some state =>
      if amount ≤ 0 then .error .invalidPositionSize
      else
        let key := stakeKey liquidToken owner
        let stake := (t.stakes key).getD ⟨0, 0, state.exchangeRate⟩
        let stake := updateStakeUnclaimed stake state
        let stake :=
          { stake with
            stakedAmount := stake.stakedAmount + amount
            lastUpdateIndex := state.exchangeRate }
        let state := { state with totalStaked := state.totalStaked + amount }
        .ok ((t.saveStake key stake).saveState liquidToken state, 0)

def unstake (amount : ℤ) : Except Error (Transmuter × ℤ) :=
  match t.states liquidToken with
  | none => .error .liquidTokenNotRegistered
  | some state =>
      let key := stakeKey liquidToken owner
      match t.stakes key with
      | none => .error .invalidPositionSize
      | some stake =>
          if stake.stakedAmount = 0 then .error .invalidPositionSize
          else
            let stake := updateStakeUnclaimed stake state
            let amount := if stake.stakedAmount < amount then stake.stakedAmount else amount
            let stake := { stake with stakedAmount := stake.stakedAmount - amount }
            let state := { state with totalStaked := state.totalStaked - amount }
            .ok ((t.saveStake key stake).saveState liquidToken state, 0)

/-- `Claim`, with the amount claimed. -/
def claim : Except Error (Transmuter × ℤ) :=
  match t.states liquidToken with
  | none => .error .liquidTokenNotRegistered
  | some state =>
      let key := stakeKey liquidToken owner
      match t.stakes key with
      | none => .error .transmuterEmpty
      | some stake =>
          let stake := updateStakeUnclaimed stake state
          let claimAmount := stake.unclaimedAmount
          if claimAmount = 0 then .ok (t.saveStake key stake, 0)
          else
            let claimAmount :=
              if state.exchangeBuffer < claimAmount then state.exchangeBuffer else claimAmount
            let stake := { stake with unclaimedAmount := stake.unclaimedAmount - claimAmount }
            let state := { state with exchangeBuffer := state.exchangeBuffer - claimAmount }
            .ok ((t.saveStake key stake).saveState liquidToken state, claimAmount)

/-- The state of a liquid token after a deposit. -/
def LiquidFXState.deposit (state : LiquidFXState) (underlyingAmount : ℤ) : LiquidFXState :=
  { state with
    exchangeBuffer := state.exchangeBuffer + underlyingAmount
    exchangeRate :=
      if 0 < state.totalStaked then
        state.exchangeRate + underlyingAmount * q96 / state.totalStaked
      else state.exchangeRate }

def deposit (underlyingAmount : ℤ) : Except Error (Transmuter × ℤ) :=
  match t.states liquidToken with
  | none => .error .liquidTokenNotRegistered
  | some state =>
      if underlyingAmount ≤ 0 then .ok (t, 0)
      else .ok (t.saveState liquidToken (state.deposit underlyingAmount), 0)

def getClaimable : ℤ :=
  match t.states liquidToken with
  | none => 0
  | some state =>
      match t.stakes (stakeKey liquidToken owner) with
      | none => 0
      | some stake =>
          let unclaimed :=
            if 0 < stake.stakedAmount ∧ 0 < state.exchangeRate - stake.lastUpdateIndex then
              stake.unclaimedAmount + stake.accrued state.exchangeRate
            else stake.unclaimedAmount
          if state.exchangeBuffer < unclaimed then state.exchangeBuffer else unclaimed

end Operations

end LuxPrecompile.Transmutation
