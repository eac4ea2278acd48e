import LuxPrecompile.Transmutation.Transmuter
import LuxPrecompile.Support.Runs
import LuxPrecompile.Support.Sums

/-!
# Conversion of stakes

What stakes can claim is always in the buffer.  The total staked follows the stakes only
as long as no deposit converts anything, because a conversion lowers a stake and not the
total.
-/

namespace LuxPrecompile.Transmutation

open Evm Support

/-! ## Runs -/

/-- The operations. -/
inductive Op
  | initializeTransmuter (liquidToken : Address)
  | stake (owner liquidToken : Address) (amount : ℤ)
  | unstake (owner liquidToken : Address) (amount : ℤ)
  | claim (owner liquidToken : Address)
  | deposit (liquidToken : Address) (underlyingAmount : ℤ)
deriving DecidableEq

/-- The amount an operation names. -/
def Op.amount : Op → ℤ
  | .stake _ _ amount => amount
  | .unstake _ _ amount => amount
  | .deposit _ underlyingAmount => underlyingAmount
  | _ => 0

def perform (t : Transmuter) : Op → Except Error (Transmuter × ℤ)
  | .initializeTransmuter liquidToken => initializeTransmuter t liquidToken
  | .stake owner liquidToken amount => stake t owner liquidToken amount
  | .unstake owner liquidToken amount => unstake t owner liquidToken amount
  | .claim owner liquidToken => claim t owner liquidToken
  | .deposit liquidToken underlyingAmount => deposit t liquidToken underlyingAmount

/-- The transmuter after an operation; a failed one changes nothing. -/
def record (t : Transmuter) (op : Op) : Transmuter :=
  match perform t op with
  | .error _ => t
  | .ok outcome => outcome.1

/-- An operation that brings a stake up to date and takes nothing from it: an `Unstake` of
zero, or a `Claim`. -/
def Op.isTouch : Op → Bool
  | .unstake _ _ amount => amount = 0
  | .claim _ _ => true
  | _ => false

/-- The operations of a run but the touches. -/
def untouched (ops : List Op) : List Op := ops.filter fun op => !op.isTouch

/-- What an operation pays an owner. -/
def paid (owner liquidToken : Address) (t : Transmuter) : Op → ℤ
  | .claim owner' liquidToken' =>
      if owner' = owner ∧ liquidToken' = liquidToken then
        match claim t owner liquidToken with
        | .error _ => 0
        | .ok outcome => outcome.2
      else 0
  | _ => 0

/-- What an owner has claimed in a run and can claim after it. -/
def received (owner liquidToken : Address) : Transmuter → List Op → ℤ
  | t, [] => getClaimable t owner liquidToken
  | t, op :: ops =>
      paid owner liquidToken t op + received owner liquidToken (record t op) ops

/-! ## The property -/

/-- A sum over the stakes of a liquid token. -/
def Transmuter.total (t : Transmuter) (liquidToken : Address) (f : TransmuterStake → ℤ) : ℤ :=
  ∑ owner, (t.stakes (stakeKey liquidToken owner)).elim 0 f

/-- What the stakes can claim is in the buffer, and no claim is cut. -/
structure Covered (t : Transmuter) : Prop where
  buffer : ∀ liquidToken state, t.states liquidToken = some state →
    (t.total liquidToken fun stake => (updateStakeUnclaimed stake state).unclaimedAmount) ≤
      state.exchangeBuffer
  uncut : ∀ liquidToken owner state stake, t.states liquidToken = some state →
    t.stakes (stakeKey liquidToken owner) = some stake →
      ∃ t', claim t owner liquidToken =
        .ok (t', (updateStakeUnclaimed stake state).unclaimedAmount)

/-- The total staked is what the stakes have when brought up to date. -/
def Staked (t : Transmuter) : Prop :=
  ∀ liquidToken state, t.states liquidToken = some state →
    state.totalStaked =
      t.total liquidToken fun stake => (updateStakeUnclaimed stake state).stakedAmount

/-- After no part of the run does it make a difference to an owner how often stakes were
touched. -/
def PathIndependent (ops : List Op) : Prop :=
  ∀ earlier, earlier <+: ops → ∀ ops' : List Op, (∀ op ∈ ops', 0 ≤ op.amount) →
    untouched ops' = untouched earlier → ∀ owner liquidToken,
      received owner liquidToken newTransmuter ops' =
        received owner liquidToken newTransmuter earlier

/-- A deposit converts no unit of any stake. -/
def Clean (t : Transmuter) : Op → Prop
  | .deposit liquidToken underlyingAmount =>
      ∀ state, t.states liquidToken = some state → 0 < underlyingAmount →
        0 < state.totalStaked → ∀ owner stake,
          t.stakes (stakeKey liquidToken owner) = some stake →
            stake.stakedAmount * (state.exchangeRate +
              underlyingAmount * q96 / state.totalStaked - stake.lastUpdateIndex) < q96
  | _ => True

/-! ## One stake -/

/-- What a stake is owed at a rate, in parts of a unit. -/
def TransmuterStake.liability (rate : ℤ) (stake : TransmuterStake) : ℤ :=
  stake.unclaimedAmount * q96 + stake.stakedAmount * (rate - stake.lastUpdateIndex)

/-- A stake a run can reach, at a rate. -/
structure TransmuterStake.Valid (rate : ℤ) (stake : TransmuterStake) : Prop where
  staked : 0 ≤ stake.stakedAmount
  unclaimed : 0 ≤ stake.unclaimedAmount
  index : stake.lastUpdateIndex ≤ rate

namespace TransmuterStake.Valid

variable {state : LiquidFXState} {stake : TransmuterStake}
  (h : stake.Valid state.exchangeRate)

include h

theorem accrued_nonneg : 0 ≤ stake.accrued state.exchangeRate :=
  Int.ediv_nonneg (mul_nonneg h.staked (sub_nonneg.mpr h.index)) q96_pos.le

/-- An update converts what the stake has accrued, as far as it goes. -/
theorem update_eq :
    (updateStakeUnclaimed stake state).stakedAmount =
        max 0 (stake.stakedAmount - stake.accrued state.exchangeRate) ∧
      (updateStakeUnclaimed stake state).unclaimedAmount =
        stake.unclaimedAmount + stake.accrued state.exchangeRate := by
  have hstaked := h.staked
  rw [updateStakeUnclaimed]
  split_ifs with hempty hindex
  · rw [TransmuterStake.accrued, hempty, zero_mul, Int.zero_ediv]
    exact ⟨rfl, (add_zero _).symm⟩
  · have hzero : state.exchangeRate - stake.lastUpdateIndex = 0 :=
      le_antisymm hindex (sub_nonneg.mpr h.index)
    rw [TransmuterStake.accrued, hzero, mul_zero, Int.zero_ediv, sub_zero, add_zero,
      max_eq_right hstaked]
    exact ⟨rfl, rfl⟩
  · refine ⟨?_, rfl⟩
    dsimp only
    split_ifs with hall
    · exact (max_eq_left (sub_nonpos.mpr hall)).symm
    · exact (max_eq_right (sub_nonneg.mpr (not_le.mp hall).le)).symm

theorem update_index : (updateStakeUnclaimed stake state).lastUpdateIndex ≤ state.exchangeRate := by
  rw [updateStakeUnclaimed]
  split_ifs
  · exact h.index
  · exact h.index
  · exact le_rfl

theorem update : (updateStakeUnclaimed stake state).Valid state.exchangeRate where
  staked := h.update_eq.1 ▸ le_max_left _ _
  unclaimed := h.update_eq.2 ▸ add_nonneg h.unclaimed h.accrued_nonneg
  index := h.update_index

theorem update_staked_le :
    (updateStakeUnclaimed stake state).stakedAmount ≤ stake.stakedAmount := by
  rw [h.update_eq.1]
  exact max_le h.staked (sub_le_self _ h.accrued_nonneg)

/-- An update keeps a stake exactly when nothing has accrued. -/
theorem update_staked_eq_iff :
    (updateStakeUnclaimed stake state).stakedAmount = stake.stakedAmount ↔
      stake.accrued state.exchangeRate = 0 := by
  have haccrued := h.accrued_nonneg
  have hstaked := h.staked
  rw [h.update_eq.1]
  constructor
  · intro heq
    by_cases hempty : stake.stakedAmount = 0
    · rw [TransmuterStake.accrued, hempty, zero_mul, Int.zero_ediv]
    · omega
  · intro hzero
    rw [hzero, sub_zero, max_eq_right hstaked]

theorem unclaimed_le_liability :
    (updateStakeUnclaimed stake state).unclaimedAmount * q96 ≤
      stake.liability state.exchangeRate := by
  rw [h.update_eq.2, add_mul, TransmuterStake.liability]
  exact add_le_add_right (Int.ediv_mul_le _ q96_pos.ne') _

theorem liability_update_le :
    (updateStakeUnclaimed stake state).liability state.exchangeRate ≤
      stake.liability state.exchangeRate := by
  have hle := h.unclaimed_le_liability
  rw [h.update_eq.2] at hle
  rw [updateStakeUnclaimed]
  split_ifs with hempty hindex
  · exact le_rfl
  · exact le_rfl
  · rw [TransmuterStake.liability, sub_self, mul_zero, add_zero]
    exact hle

theorem update_accrued : (updateStakeUnclaimed stake state).accrued state.exchangeRate = 0 := by
  rw [updateStakeUnclaimed]
  split_ifs with hempty hindex
  · rw [TransmuterStake.accrued, hempty, zero_mul, Int.zero_ediv]
  · rw [TransmuterStake.accrued, le_antisymm hindex (sub_nonneg.mpr h.index), mul_zero,
      Int.zero_ediv]
  · rw [TransmuterStake.accrued, sub_self, mul_zero, Int.zero_ediv]

end TransmuterStake.Valid

/-! ## Sums over stakes -/

namespace Transmuter

variable (t : Transmuter) (liquidToken owner : Address)

theorem total_saveStake (stake : TransmuterStake) (f : TransmuterStake → ℤ) :
    (t.saveStake (stakeKey liquidToken owner) stake).total liquidToken f +
        (t.stakes (stakeKey liquidToken owner)).elim 0 f =
      t.total liquidToken f + f stake := by
  have hself : ((t.saveStake (stakeKey liquidToken owner) stake).stakes
      (stakeKey liquidToken owner)).elim 0 f = f stake := by
    rw [saveStake_stakes, Function.update_self, Option.elim_some]
  rw [total, total, ← hself]
  apply sum_add_of_eq_off owner
  intro o ho
  rw [saveStake_stakes, Function.update_of_ne]
  exact fun h => ho (Prod.mk.inj h).2

theorem total_saveStake_of_ne {liquidToken' : Address} (stake : TransmuterStake)
    (f : TransmuterStake → ℤ) (h : liquidToken' ≠ liquidToken) :
    (t.saveStake (stakeKey liquidToken owner) stake).total liquidToken' f =
      t.total liquidToken' f := by
  apply Finset.sum_congr rfl
  intro o _
  rw [saveStake_stakes, Function.update_of_ne]
  exact fun heq => h (Prod.mk.inj heq).1

variable {t liquidToken}

theorem total_mul_le {f g : TransmuterStake → ℤ} {c : ℤ}
    (h : ∀ owner stake, t.stakes (stakeKey liquidToken owner) = some stake →
      f stake * c ≤ g stake) : t.total liquidToken f * c ≤ t.total liquidToken g := by
  rw [total, Finset.sum_mul]
  apply Finset.sum_le_sum
  intro owner _
  cases hstake : t.stakes (stakeKey liquidToken owner) with
  | none => exact (zero_mul c).le
  | some stake => exact h owner stake hstake

theorem total_le {f g : TransmuterStake → ℤ}
    (h : ∀ owner stake, t.stakes (stakeKey liquidToken owner) = some stake → f stake ≤ g stake) :
    t.total liquidToken f ≤ t.total liquidToken g := by
  have hle := total_mul_le (c := 1) fun owner stake hstake =>
    (mul_one (f stake)).symm ▸ h owner stake hstake
  rwa [mul_one] at hle

/-- Sums that agree although every stake has at most as much agree stake by stake. -/
theorem eq_of_total_eq {f g : TransmuterStake → ℤ}
    (h : ∀ owner stake, t.stakes (stakeKey liquidToken owner) = some stake → f stake ≤ g stake)
    (htotal : t.total liquidToken f = t.total liquidToken g) {owner : Address}
    {stake : TransmuterStake} (hstake : t.stakes (stakeKey liquidToken owner) = some stake) :
    f stake = g stake := by
  have hle : ∀ o ∈ (Finset.univ : Finset Address),
      (t.stakes (stakeKey liquidToken o)).elim 0 f ≤
        (t.stakes (stakeKey liquidToken o)).elim 0 g := by
    intro o _
    cases ho : t.stakes (stakeKey liquidToken o) with
    | none => exact le_rfl
    | some stake' => exact h o stake' ho
  have heq := (Finset.sum_eq_sum_iff_of_le hle).mp htotal owner (Finset.mem_univ owner)
  rwa [hstake, Option.elim_some, Option.elim_some] at heq

theorem le_total {f : TransmuterStake → ℤ}
    (hf : ∀ owner stake, t.stakes (stakeKey liquidToken owner) = some stake → 0 ≤ f stake)
    {owner : Address} {stake : TransmuterStake}
    (hstake : t.stakes (stakeKey liquidToken owner) = some stake) :
    f stake ≤ t.total liquidToken f := by
  have hle : (t.stakes (stakeKey liquidToken owner)).elim 0 f ≤ t.total liquidToken f := by
    apply Finset.single_le_sum _ (Finset.mem_univ owner)
    intro o _
    cases ho : t.stakes (stakeKey liquidToken o) with
    | none => exact le_rfl
    | some stake' => exact hf o stake' ho
  rwa [hstake, Option.elim_some] at hle

theorem total_liability_add (t : Transmuter) (liquidToken : Address) (rate increase : ℤ) :
    t.total liquidToken (TransmuterStake.liability (rate + increase)) =
      t.total liquidToken (TransmuterStake.liability rate) +
        t.total liquidToken TransmuterStake.stakedAmount * increase := by
  rw [total, total, total, Finset.sum_mul, ← Finset.sum_add_distrib]
  apply Finset.sum_congr rfl
  intro owner _
  cases t.stakes (stakeKey liquidToken owner) with
  | none => simp
  | some stake =>
      simp only [Option.elim_some, TransmuterStake.liability]
      ring

end Transmuter

/-! ## The states of a run -/

/-- The states a run can reach: the total staked is at least what is staked, and the
buffer at least what is owed. -/
structure Valid (t : Transmuter) : Prop where
  stakes : ∀ liquidToken owner stake, t.stakes (stakeKey liquidToken owner) = some stake →
    ∃ state, t.states liquidToken = some state ∧ stake.Valid state.exchangeRate
  staked : ∀ liquidToken state, t.states liquidToken = some state →
    t.total liquidToken TransmuterStake.stakedAmount ≤ state.totalStaked
  owed : ∀ liquidToken state, t.states liquidToken = some state →
    t.total liquidToken (TransmuterStake.liability state.exchangeRate) ≤
      state.exchangeBuffer * q96

theorem newTransmuter_valid : Valid newTransmuter where
  stakes _ _ _ h := by cases h
  staked _ _ h := by cases h
  owed _ _ h := by cases h

theorem Valid.stake_valid {t : Transmuter} (ht : Valid t) {liquidToken owner : Address}
    {state : LiquidFXState} {stake : TransmuterStake} (hstate : t.states liquidToken = some state)
    (hstake : t.stakes (stakeKey liquidToken owner) = some stake) :
    stake.Valid state.exchangeRate := by
  obtain ⟨state', hstate', hvalid⟩ := ht.stakes _ _ _ hstake
  obtain rfl := Option.some.inj (hstate.symm.trans hstate')
  exact hvalid

theorem Valid.total_claimable_le {t : Transmuter} (ht : Valid t) {liquidToken : Address}
    {state : LiquidFXState} (hstate : t.states liquidToken = some state) :
    (t.total liquidToken fun stake => (updateStakeUnclaimed stake state).unclaimedAmount) ≤
      state.exchangeBuffer := by
  refine le_of_mul_le_mul_right (le_trans ?_ (ht.owed liquidToken state hstate)) q96_pos
  exact Transmuter.total_mul_le fun owner stake hstake =>
    (ht.stake_valid hstate hstake).unclaimed_le_liability

theorem Valid.claimable_le {t : Transmuter} (ht : Valid t) {liquidToken owner : Address}
    {state : LiquidFXState} {stake : TransmuterStake} (hstate : t.states liquidToken = some state)
    (hstake : t.stakes (stakeKey liquidToken owner) = some stake) :
    (updateStakeUnclaimed stake state).unclaimedAmount ≤ state.exchangeBuffer :=
  (Transmuter.le_total (f := fun stake => (updateStakeUnclaimed stake state).unclaimedAmount)
    (fun _ _ hstake' => (ht.stake_valid hstate hstake').update.unclaimed) hstake).trans
      (ht.total_claimable_le hstate)

theorem Valid.covered {t : Transmuter} (ht : Valid t) : Covered t := by
  refine ⟨fun liquidToken state hstate => ht.total_claimable_le hstate, ?_⟩
  intro liquidToken owner state stake hstate hstake
  simp only [claim, hstate, hstake]
  by_cases hzero : (updateStakeUnclaimed stake state).unclaimedAmount = 0
  · rw [if_pos hzero]
    exact ⟨_, by rw [hzero]⟩
  · rw [if_neg hzero, if_neg (not_lt.mpr (ht.claimable_le hstate hstake))]
    exact ⟨_, rfl⟩

/-- `GetClaimable` shows what an update would give. -/
theorem Valid.getClaimable_eq {t : Transmuter} (ht : Valid t) {liquidToken owner : Address}
    {state : LiquidFXState} {stake : TransmuterStake} (hstate : t.states liquidToken = some state)
    (hstake : t.stakes (stakeKey liquidToken owner) = some stake) :
    getClaimable t owner liquidToken = (updateStakeUnclaimed stake state).unclaimedAmount := by
  have hvalid := ht.stake_valid hstate hstake
  have hshown : (if 0 < stake.stakedAmount ∧ 0 < state.exchangeRate - stake.lastUpdateIndex then
      stake.unclaimedAmount + stake.accrued state.exchangeRate else stake.unclaimedAmount) =
        (updateStakeUnclaimed stake state).unclaimedAmount := by
    have hstaked := hvalid.staked
    rw [updateStakeUnclaimed]
    split_ifs with hshown hempty hindex hempty hindex
    · omega
    · omega
    · rfl
    · rfl
    · rfl
    · omega
  rw [getClaimable, hstate]
  dsimp only
  rw [hstake]
  dsimp only
  rw [hshown, if_neg (not_lt.mpr (ht.claimable_le hstate hstake))]

/-- The stakes brought up to date have the total staked exactly when they have it as they
are and nothing has accrued. -/
theorem Valid.staked_iff {t : Transmuter} (ht : Valid t) :
    Staked t ↔ ∀ liquidToken state, t.states liquidToken = some state →
      state.totalStaked = t.total liquidToken TransmuterStake.stakedAmount ∧
        ∀ owner stake, t.stakes (stakeKey liquidToken owner) = some stake →
          stake.accrued state.exchangeRate = 0 := by
  have hle : ∀ {liquidToken state}, t.states liquidToken = some state → ∀ owner stake,
      t.stakes (stakeKey liquidToken owner) = some stake →
        (updateStakeUnclaimed stake state).stakedAmount ≤ stake.stakedAmount :=
    fun hstate owner stake hstake => (ht.stake_valid hstate hstake).update_staked_le
  constructor
  · intro h liquidToken state hstate
    have htotal : state.totalStaked = t.total liquidToken TransmuterStake.stakedAmount := by
      apply le_antisymm _ (ht.staked liquidToken state hstate)
      rw [h liquidToken state hstate]
      exact Transmuter.total_le (hle hstate)
    refine ⟨htotal, fun owner stake hstake => ?_⟩
    rw [← (ht.stake_valid hstate hstake).update_staked_eq_iff]
    exact Transmuter.eq_of_total_eq (hle hstate)
      ((h liquidToken state hstate).symm.trans htotal) hstake
  · intro h liquidToken state hstate
    obtain ⟨htotal, haccrued⟩ := h liquidToken state hstate
    rw [htotal]
    apply Finset.sum_congr rfl
    intro owner _
    cases hstake : t.stakes (stakeKey liquidToken owner) with
    | none => rfl
    | some stake =>
        exact ((ht.stake_valid hstate hstake).update_staked_eq_iff.mpr
          (haccrued owner stake hstake)).symm

/-! ## One operation -/

/-- The transmuter with another stake and state of a liquid token. -/
def Transmuter.save (t : Transmuter) (liquidToken owner : Address) (stake : TransmuterStake)
    (state : LiquidFXState) : Transmuter :=
  (t.saveStake (stakeKey liquidToken owner) stake).saveState liquidToken state

/-- What an operation does. -/
inductive Effect (t : Transmuter) : Op → Transmuter → Prop
  | idle (op : Op) : Effect t op t
  | initialized (liquidToken : Address) (h : t.states liquidToken = none) :
      Effect t (.initializeTransmuter liquidToken) (t.saveState liquidToken ⟨0, 0, q96⟩)
  | staked (owner liquidToken : Address) (amount : ℤ) (state : LiquidFXState)
      (old stake : TransmuterStake) (hstate : t.states liquidToken = some state)
      (hold : old = (t.stakes (stakeKey liquidToken owner)).getD ⟨0, 0, state.exchangeRate⟩)
      (hamount : 0 < amount)
      (hstake : stake = { updateStakeUnclaimed old state with
        stakedAmount := (updateStakeUnclaimed old state).stakedAmount + amount
        lastUpdateIndex := state.exchangeRate }) :
      Effect t (.stake owner liquidToken amount)
        (t.save liquidToken owner stake { state with totalStaked := state.totalStaked + amount })
  | unstaked (owner liquidToken : Address) (amount : ℤ) (state : LiquidFXState)
      (old : TransmuterStake) (removed : ℤ) (hstate : t.states liquidToken = some state)
      (hold : t.stakes (stakeKey liquidToken owner) = some old)
      (hremoved : removed = min (updateStakeUnclaimed old state).stakedAmount amount) :
      Effect t (.unstake owner liquidToken amount)
        (t.save liquidToken owner
          { updateStakeUnclaimed old state with
            stakedAmount := (updateStakeUnclaimed old state).stakedAmount - removed }
          { state with totalStaked := state.totalStaked - removed })
  | claimed (owner liquidToken : Address) (state : LiquidFXState) (old : TransmuterStake)
      (hstate : t.states liquidToken = some state)
      (hold : t.stakes (stakeKey liquidToken owner) = some old) :
      Effect t (.claim owner liquidToken)
        (t.save liquidToken owner { updateStakeUnclaimed old state with unclaimedAmount := 0 }
          { state with exchangeBuffer :=
            state.exchangeBuffer - (updateStakeUnclaimed old state).unclaimedAmount })
  | deposited (liquidToken : Address) (underlyingAmount : ℤ) (state : LiquidFXState)
      (hstate : t.states liquidToken = some state) (hamount : 0 < underlyingAmount) :
      Effect t (.deposit liquidToken underlyingAmount)
        (t.saveState liquidToken (state.deposit underlyingAmount))

theorem Transmuter.saveState_self {t : Transmuter} {liquidToken : Address} {state : LiquidFXState}
    (h : t.states liquidToken = some state) : t.saveState liquidToken state = t := by
  rw [saveState, ← h, Function.update_eq_self]

theorem Valid.record_effect {t : Transmuter} (ht : Valid t) (op : Op) :
    Effect t op (record t op) := by
  cases op with
  | initializeTransmuter liquidToken =>
      rw [record, perform, Transmutation.initializeTransmuter]
      cases h : t.states liquidToken with
      | none => exact .initialized liquidToken h
      | some state => exact .idle _
  | stake owner liquidToken amount =>
      rw [record, perform, Transmutation.stake]
      cases hstate : t.states liquidToken with
      | none => exact .idle _
      | some state =>
          dsimp only
          split_ifs with hamount
          · exact .idle _
          · exact .staked owner liquidToken amount state _ _ hstate rfl (not_le.mp hamount) rfl
  | unstake owner liquidToken amount =>
      rw [record, perform, unstake]
      cases hstate : t.states liquidToken with
      | none => exact .idle _
      | some state =>
          dsimp only
          cases hold : t.stakes (stakeKey liquidToken owner) with
          | none => exact .idle _
          | some old =>
              dsimp only
              split_ifs with hempty hcapped
              · exact .idle _
              · exact .unstaked owner liquidToken amount state old _ hstate hold
                  (min_eq_left hcapped.le).symm
              · exact .unstaked owner liquidToken amount state old _ hstate hold
                  (min_eq_right (not_lt.mp hcapped)).symm
  | claim owner liquidToken =>
      rw [record, perform, claim]
      cases hstate : t.states liquidToken with
      | none => exact .idle _
      | some state =>
          dsimp only
          cases hold : t.stakes (stakeKey liquidToken owner) with
          | none => exact .idle _
          | some old =>
              dsimp only
              have hclaimed := Effect.claimed owner liquidToken state old hstate hold
              by_cases hzero : (updateStakeUnclaimed old state).unclaimedAmount = 0
              · rw [if_pos hzero]
                rw [hzero, sub_zero, ← hzero, Transmuter.save] at hclaimed
                have hself : (t.saveStake (stakeKey liquidToken owner)
                    (updateStakeUnclaimed old state)).saveState liquidToken state =
                      t.saveStake (stakeKey liquidToken owner) (updateStakeUnclaimed old state) :=
                  Transmuter.saveState_self hstate
                exact hself ▸ hclaimed
              · rw [if_neg hzero, if_neg (not_lt.mpr (ht.claimable_le hstate hold))]
                dsimp only
                rw [sub_self]
                exact hclaimed
  | deposit liquidToken underlyingAmount =>
      rw [record, perform, deposit]
      cases hstate : t.states liquidToken with
      | none => exact .idle _
      | some state =>
          dsimp only
          split_ifs with hamount
          · exact .idle _
          · exact .deposited liquidToken underlyingAmount state hstate (not_le.mp hamount)

/-! ## Effects on the totals -/

namespace Transmuter

variable {t : Transmuter} {liquidToken owner : Address} {stake : TransmuterStake}
  {state : LiquidFXState}

theorem save_states (liquidToken' : Address) :
    (t.save liquidToken owner stake state).states liquidToken' =
      if liquidToken' = liquidToken then some state else t.states liquidToken' := by
  rw [save, saveState_states, saveStake_states, Function.update_apply]

theorem save_stakes (liquidToken' owner' : Address) :
    (t.save liquidToken owner stake state).stakes (stakeKey liquidToken' owner') =
      if liquidToken' = liquidToken ∧ owner' = owner then some stake
      else t.stakes (stakeKey liquidToken' owner') := by
  rw [save, saveState_stakes, saveStake_stakes, Function.update_apply]
  exact if_congr Prod.mk_inj rfl rfl

theorem save_total (t : Transmuter) (liquidToken owner : Address) (stake : TransmuterStake)
    (state : LiquidFXState) (f : TransmuterStake → ℤ) :
    (t.save liquidToken owner stake state).total liquidToken f +
        (t.stakes (stakeKey liquidToken owner)).elim 0 f =
      t.total liquidToken f + f stake := t.total_saveStake liquidToken owner stake f

theorem save_total_of_ne {liquidToken' : Address} (f : TransmuterStake → ℤ)
    (h : liquidToken' ≠ liquidToken) :
    (t.save liquidToken owner stake state).total liquidToken' f = t.total liquidToken' f :=
  t.total_saveStake_of_ne liquidToken owner stake f h

end Transmuter

/-- A stake and a state that change together keep the states of a run. -/
theorem Valid.save {t : Transmuter} (ht : Valid t) {liquidToken owner : Address}
    {state state' : LiquidFXState} {stake : TransmuterStake}
    (hstate : t.states liquidToken = some state) (hrate : state'.exchangeRate = state.exchangeRate)
    (hvalid : stake.Valid state.exchangeRate)
    (hstaked : stake.stakedAmount + state.totalStaked ≤
      (t.stakes (stakeKey liquidToken owner)).elim 0 TransmuterStake.stakedAmount +
        state'.totalStaked)
    (howed : stake.liability state.exchangeRate + state.exchangeBuffer * q96 ≤
      (t.stakes (stakeKey liquidToken owner)).elim 0
        (TransmuterStake.liability state.exchangeRate) + state'.exchangeBuffer * q96) :
    Valid (t.save liquidToken owner stake state') := by
  refine ⟨?_, ?_, ?_⟩
  · intro liquidToken' owner' stake' h
    rw [Transmuter.save_stakes] at h
    rw [Transmuter.save_states]
    by_cases htoken : liquidToken' = liquidToken
    · refine ⟨state', if_pos htoken, ?_⟩
      rw [hrate]
      subst htoken
      split_ifs at h with howner
      · exact Option.some.inj h ▸ hvalid
      · exact ht.stake_valid hstate h
    · rw [if_neg fun h' => htoken h'.1] at h
      rw [if_neg htoken]
      exact ht.stakes liquidToken' owner' stake' h
  · intro liquidToken' state'' h
    rw [Transmuter.save_states] at h
    split_ifs at h with htoken
    · subst htoken
      have hsum := t.save_total liquidToken' owner stake state' TransmuterStake.stakedAmount
      have hold := ht.staked liquidToken' state hstate
      rw [← Option.some.inj h]
      linarith
    · rw [Transmuter.save_total_of_ne _ htoken]
      exact ht.staked liquidToken' state'' h
  · intro liquidToken' state'' h
    rw [Transmuter.save_states] at h
    split_ifs at h with htoken
    · subst htoken
      have hsum := t.save_total liquidToken' owner stake state'
        (TransmuterStake.liability state.exchangeRate)
      have hold := ht.owed liquidToken' state hstate
      rw [← Option.some.inj h, hrate]
      linarith
    · rw [Transmuter.save_total_of_ne _ htoken]
      exact ht.owed liquidToken' state'' h

/-- The rate of a deposit does not promise more than the deposit. -/
theorem Valid.deposit {t : Transmuter} (ht : Valid t) {liquidToken : Address}
    {state : LiquidFXState} {amount : ℤ} (hstate : t.states liquidToken = some state)
    (hamount : 0 < amount) : Valid (t.saveState liquidToken (state.deposit amount)) := by
  have hincrease : ∃ increase, 0 ≤ increase ∧
      (state.deposit amount).exchangeRate = state.exchangeRate + increase ∧
        state.totalStaked * increase ≤ amount * q96 := by
    rw [LiquidFXState.deposit]
    dsimp only
    split_ifs with hstaked
    · refine ⟨amount * q96 / state.totalStaked, ?_, rfl, Int.mul_ediv_self_le hstaked.ne'⟩
      exact Int.ediv_nonneg (mul_nonneg hamount.le q96_pos.le) hstaked.le
    · refine ⟨0, le_rfl, (add_zero _).symm, ?_⟩
      rw [mul_zero]
      exact mul_nonneg hamount.le q96_pos.le
  obtain ⟨increase, hnonneg, hrate, hle⟩ := hincrease
  refine ⟨?_, ?_, ?_⟩
  · intro liquidToken' owner stake h
    rw [Transmuter.saveState_states]
    by_cases htoken : liquidToken' = liquidToken
    · subst htoken
      have hvalid := ht.stake_valid hstate h
      refine ⟨_, Function.update_self _ _ _, hvalid.staked, hvalid.unclaimed, ?_⟩
      rw [hrate]
      exact hvalid.index.trans (le_add_of_nonneg_right hnonneg)
    · rw [Function.update_of_ne htoken]
      exact ht.stakes liquidToken' owner stake h
  · intro liquidToken' state' h
    rw [Transmuter.saveState_states, update_eq_some] at h
    obtain ⟨rfl, rfl⟩ | ⟨-, h⟩ := h
    · exact ht.staked liquidToken' state hstate
    · exact ht.staked liquidToken' state' h
  · intro liquidToken' state' h
    rw [Transmuter.saveState_states, update_eq_some] at h
    obtain ⟨rfl, rfl⟩ | ⟨-, h⟩ := h
    · rw [hrate]
      have howed := ht.owed liquidToken' state hstate
      have hstaked := mul_le_mul_of_nonneg_right (ht.staked liquidToken' state hstate) hnonneg
      have htotal := t.total_liability_add liquidToken' state.exchangeRate increase
      change t.total liquidToken' _ ≤ (state.exchangeBuffer + amount) * q96
      rw [htotal]
      linarith
    · exact ht.owed liquidToken' state' h

theorem Valid.stakes_unknown {t : Transmuter} (ht : Valid t) {liquidToken : Address}
    (h : t.states liquidToken = none) (owner : Address) :
    t.stakes (stakeKey liquidToken owner) = none := by
  by_contra hne
  obtain ⟨stake, hstake⟩ := Option.ne_none_iff_exists'.mp hne
  obtain ⟨state, hstate, -⟩ := ht.stakes _ _ _ hstake
  rw [h] at hstate
  cases hstate

theorem Valid.total_unknown {t : Transmuter} (ht : Valid t) {liquidToken : Address}
    (h : t.states liquidToken = none) (f : TransmuterStake → ℤ) : t.total liquidToken f = 0 := by
  apply Finset.sum_eq_zero
  intro owner _
  rw [ht.stakes_unknown h, Option.elim_none]

theorem Valid.setUp {t : Transmuter} (ht : Valid t) {liquidToken : Address}
    (h : t.states liquidToken = none) : Valid (t.saveState liquidToken ⟨0, 0, q96⟩) := by
  refine ⟨?_, ?_, ?_⟩
  · intro liquidToken' owner stake hstake
    rw [Transmuter.saveState_states, Function.update_of_ne]
    · exact ht.stakes liquidToken' owner stake hstake
    · intro htoken
      rw [Transmuter.saveState_stakes, htoken, ht.stakes_unknown h] at hstake
      cases hstake
  · intro liquidToken' state hstate
    rw [Transmuter.saveState_states, update_eq_some] at hstate
    obtain ⟨rfl, rfl⟩ | ⟨-, hstate⟩ := hstate
    · exact (ht.total_unknown h _).le
    · exact ht.staked liquidToken' state hstate
  · intro liquidToken' state hstate
    rw [Transmuter.saveState_states, update_eq_some] at hstate
    obtain ⟨rfl, rfl⟩ | ⟨-, hstate⟩ := hstate
    · rw [zero_mul]
      exact (ht.total_unknown h _).le
    · exact ht.owed liquidToken' state hstate

theorem elim_eq_getD {f : TransmuterStake → ℤ} {x : Option TransmuterStake}
    {empty : TransmuterStake} (h : f empty = 0) : x.elim 0 f = f (x.getD empty) := by
  cases x with
  | none => exact h.symm
  | some stake => rfl

theorem TransmuterStake.Valid.liability_sub_le {rate removed : ℤ} {stake : TransmuterStake}
    (h : stake.Valid rate) (hremoved : 0 ≤ removed) :
    { stake with stakedAmount := stake.stakedAmount - removed }.liability rate ≤
      stake.liability rate := by
  have hproduct := mul_nonneg hremoved (sub_nonneg.mpr h.index)
  simp only [TransmuterStake.liability]
  linarith

/-- Every operation keeps the states valid. -/
theorem Valid.step {t : Transmuter} (ht : Valid t) {op : Op} (hop : 0 ≤ op.amount) :
    Valid (record t op) := by
  have heffect := ht.record_effect op
  generalize record t op = t' at heffect
  cases heffect with
  | idle => exact ht
  | initialized liquidToken h => exact ht.setUp h
  | deposited liquidToken underlyingAmount state hstate hamount => exact ht.deposit hstate hamount
  | staked owner liquidToken amount state old stake hstate hold hamount hstake =>
      have hvalid : old.Valid state.exchangeRate := by
        subst hold
        cases h : t.stakes (stakeKey liquidToken owner) with
        | none => exact ⟨le_rfl, le_rfl, le_rfl⟩
        | some old => exact ht.stake_valid hstate h
      have helim : ∀ f : TransmuterStake → ℤ, f ⟨0, 0, state.exchangeRate⟩ = 0 →
          (t.stakes (stakeKey liquidToken owner)).elim 0 f = f old := by
        intro f hf
        rw [hold]
        exact elim_eq_getD hf
      have hupdate := hvalid.update
      have hliability := hvalid.liability_update_le
      have hless := hvalid.update_staked_le
      subst hstake
      refine ht.save hstate ?_ ?_ ?_ ?_
      · rfl
      · exact ⟨add_nonneg hupdate.staked hamount.le, hupdate.unclaimed, le_rfl⟩
      · rw [helim TransmuterStake.stakedAmount rfl]
        dsimp only
        linarith
      · rw [helim (TransmuterStake.liability state.exchangeRate)
          (by simp [TransmuterStake.liability])]
        have hproduct := mul_nonneg hupdate.staked (sub_nonneg.mpr hupdate.index)
        simp only [TransmuterStake.liability, sub_self, mul_zero, add_zero] at hliability ⊢
        linarith
  | unstaked owner liquidToken amount state old removed hstate hold hremoved =>
      have hvalid := ht.stake_valid hstate hold
      have hupdate := hvalid.update
      have hless := hvalid.update_staked_le
      have hstaked := hupdate.staked
      have hnonneg : 0 ≤ removed := hremoved ▸ le_min hstaked hop
      have hle : removed ≤ (updateStakeUnclaimed old state).stakedAmount :=
        hremoved ▸ min_le_left _ _
      refine ht.save hstate ?_ ?_ ?_ ?_
      · rfl
      · exact ⟨sub_nonneg.mpr hle, hupdate.unclaimed, hupdate.index⟩
      · rw [hold, Option.elim_some]
        dsimp only
        linarith
      · rw [hold, Option.elim_some]
        dsimp only
        have hliability := (hupdate.liability_sub_le hnonneg).trans hvalid.liability_update_le
        linarith
  | claimed owner liquidToken state old hstate hold =>
      have hvalid := ht.stake_valid hstate hold
      have hupdate := hvalid.update
      refine ht.save hstate ?_ ?_ ?_ ?_
      · rfl
      · exact ⟨hupdate.staked, le_rfl, hupdate.index⟩
      · rw [hold, Option.elim_some]
        dsimp only
        linarith [hvalid.update_staked_le]
      · rw [hold, Option.elim_some]
        have hliability := hvalid.liability_update_le
        simp only [TransmuterStake.liability] at hliability ⊢
        linarith

/-! ## Runs without conversion -/

/-- The total staked is what is staked, and nothing has accrued. -/
def Settled (t : Transmuter) : Prop :=
  ∀ liquidToken state, t.states liquidToken = some state →
    state.totalStaked = t.total liquidToken TransmuterStake.stakedAmount ∧
      ∀ owner stake, t.stakes (stakeKey liquidToken owner) = some stake →
        stake.accrued state.exchangeRate = 0

theorem Settled.save {t : Transmuter} (ht : Settled t) {liquidToken owner : Address}
    {state state' : LiquidFXState} {stake : TransmuterStake}
    (hstate : t.states liquidToken = some state) (hrate : state'.exchangeRate = state.exchangeRate)
    (hstaked : stake.stakedAmount + state.totalStaked =
      (t.stakes (stakeKey liquidToken owner)).elim 0 TransmuterStake.stakedAmount +
        state'.totalStaked)
    (haccrued : stake.accrued state.exchangeRate = 0) :
    Settled (t.save liquidToken owner stake state') := by
  intro liquidToken' state'' h
  rw [Transmuter.save_states] at h
  split_ifs at h with htoken
  · subst htoken
    obtain ⟨htotal, hold⟩ := ht liquidToken' state hstate
    have hsum := t.save_total liquidToken' owner stake state' TransmuterStake.stakedAmount
    rw [← Option.some.inj h, hrate]
    refine ⟨by linarith, fun owner' stake' hstake => ?_⟩
    rw [Transmuter.save_stakes] at hstake
    split_ifs at hstake with howner
    · exact Option.some.inj hstake ▸ haccrued
    · exact hold owner' stake' hstake
  · obtain ⟨htotal, hold⟩ := ht liquidToken' state'' h
    refine ⟨?_, fun owner' stake' hstake => ?_⟩
    · rw [Transmuter.save_total_of_ne _ htoken]
      exact htotal
    · rw [Transmuter.save_stakes, if_neg fun h' => htoken h'.1] at hstake
      exact hold owner' stake' hstake

theorem TransmuterStake.Valid.accrued_eq_zero_iff {rate : ℤ} {stake : TransmuterStake}
    (h : stake.Valid rate) :
    stake.accrued rate = 0 ↔ stake.stakedAmount * (rate - stake.lastUpdateIndex) < q96 := by
  have hnonneg := mul_nonneg h.staked (sub_nonneg.mpr h.index)
  constructor
  · intro hzero
    have hlt := Int.lt_ediv_add_one_mul_self
      (stake.stakedAmount * (rate - stake.lastUpdateIndex)) q96_pos
    rw [TransmuterStake.accrued] at hzero
    rwa [hzero, zero_add, one_mul] at hlt
  · exact Int.ediv_eq_zero_of_lt hnonneg

theorem Valid.clean_deposit_iff {t : Transmuter} (ht : Valid t) {liquidToken : Address}
    {state : LiquidFXState} {amount : ℤ} (hstate : t.states liquidToken = some state)
    (hamount : 0 < amount) (hstaked : 0 < state.totalStaked) {owner : Address}
    {stake : TransmuterStake} (hstake : t.stakes (stakeKey liquidToken owner) = some stake) :
    stake.accrued (state.deposit amount).exchangeRate = 0 ↔
      stake.stakedAmount * (state.exchangeRate + amount * q96 / state.totalStaked -
        stake.lastUpdateIndex) < q96 := by
  have hvalid : stake.Valid (state.deposit amount).exchangeRate :=
    (ht.deposit hstate hamount).stake_valid (Function.update_self _ _ _) hstake
  have hrate : (state.deposit amount).exchangeRate =
      state.exchangeRate + amount * q96 / state.totalStaked := if_pos hstaked
  rw [hvalid.accrued_eq_zero_iff, hrate]

theorem Settled.deposit {t : Transmuter} (ht : Valid t) (hsettled : Settled t)
    {liquidToken : Address} {state : LiquidFXState} {amount : ℤ}
    (hstate : t.states liquidToken = some state) (hamount : 0 < amount)
    (hclean : Clean t (.deposit liquidToken amount)) :
    Settled (t.saveState liquidToken (state.deposit amount)) := by
  intro liquidToken' state' h
  rw [Transmuter.saveState_states, update_eq_some] at h
  obtain ⟨rfl, rfl⟩ | ⟨-, h⟩ := h
  · obtain ⟨htotal, haccrued⟩ := hsettled liquidToken' state hstate
    refine ⟨htotal, fun owner stake hstake => ?_⟩
    by_cases hstaked : 0 < state.totalStaked
    · rw [ht.clean_deposit_iff hstate hamount hstaked hstake]
      exact hclean state hstate hamount hstaked owner stake hstake
    · have hrate : (state.deposit amount).exchangeRate = state.exchangeRate := if_neg hstaked
      rw [hrate]
      exact haccrued owner stake hstake
  · exact hsettled liquidToken' state' h

theorem TransmuterStake.Valid.accrued_sub {rate removed : ℤ} {stake : TransmuterStake}
    (h : stake.Valid rate) (hzero : stake.accrued rate = 0) (hremoved : 0 ≤ removed)
    (hle : removed ≤ stake.stakedAmount) :
    { stake with stakedAmount := stake.stakedAmount - removed }.accrued rate = 0 := by
  have hrest : TransmuterStake.Valid rate
      { stake with stakedAmount := stake.stakedAmount - removed } :=
    ⟨sub_nonneg.mpr hle, h.unclaimed, h.index⟩
  rw [hrest.accrued_eq_zero_iff]
  refine lt_of_le_of_lt ?_ (h.accrued_eq_zero_iff.mp hzero)
  exact mul_le_mul_of_nonneg_right (sub_le_self _ hremoved) (sub_nonneg.mpr h.index)

/-- A clean operation settles every stake again. -/
theorem Settled.step {t : Transmuter} (ht : Valid t) (hsettled : Settled t) {op : Op}
    (hop : 0 ≤ op.amount) (hclean : Clean t op) : Settled (record t op) := by
  have heffect := ht.record_effect op
  generalize record t op = t' at heffect
  cases heffect with
  | idle => exact hsettled
  | initialized liquidToken h =>
      intro liquidToken' state hstate
      rw [Transmuter.saveState_states, update_eq_some] at hstate
      obtain ⟨rfl, rfl⟩ | ⟨-, hstate⟩ := hstate
      · refine ⟨(ht.total_unknown h _).symm, fun owner stake hstake => ?_⟩
        rw [Transmuter.saveState_stakes, ht.stakes_unknown h] at hstake
        cases hstake
      · exact hsettled liquidToken' state hstate
  | deposited liquidToken underlyingAmount state hstate hamount =>
      exact hsettled.deposit ht hstate hamount hclean
  | staked owner liquidToken amount state old stake hstate hold hamount hstake =>
      subst hstake
      refine hsettled.save hstate ?_ ?_ ?_
      · rfl
      · dsimp only
        cases h : t.stakes (stakeKey liquidToken owner) with
        | none =>
            rw [h, Option.getD_none] at hold
            subst hold
            simp only [updateStakeUnclaimed, if_true, Option.elim_none]
            ring
        | some old' =>
            rw [h, Option.getD_some] at hold
            subst hold
            have hzero := (hsettled liquidToken state hstate).2 owner old h
            rw [(ht.stake_valid hstate h).update_staked_eq_iff.mpr hzero, Option.elim_some]
            ring
      · rw [TransmuterStake.accrued, sub_self, mul_zero, Int.zero_ediv]
  | unstaked owner liquidToken amount state old removed hstate hold hremoved =>
      have hvalid := ht.stake_valid hstate hold
      have hzero := (hsettled liquidToken state hstate).2 owner old hold
      have hnonneg : 0 ≤ removed := hremoved ▸ le_min hvalid.update.staked hop
      have hle : removed ≤ (updateStakeUnclaimed old state).stakedAmount :=
        hremoved ▸ min_le_left _ _
      refine hsettled.save hstate ?_ ?_ ?_
      · rfl
      · dsimp only
        rw [hvalid.update_staked_eq_iff.mpr hzero, hold, Option.elim_some]
        ring
      · exact hvalid.update.accrued_sub hvalid.update_accrued hnonneg hle
  | claimed owner liquidToken state old hstate hold =>
      have hvalid := ht.stake_valid hstate hold
      have hzero := (hsettled liquidToken state hstate).2 owner old hold
      refine hsettled.save hstate ?_ ?_ ?_
      · rfl
      · dsimp only
        rw [hvalid.update_staked_eq_iff.mpr hzero, hold, Option.elim_some]
      · exact hvalid.update_accrued

/-- An operation after which the total staked is right is clean. -/
theorem clean_of_staked {t : Transmuter} (ht : Valid t) {op : Op} (hop : 0 ≤ op.amount)
    (h : Staked (record t op)) : Clean t op := by
  cases op with
  | deposit liquidToken underlyingAmount =>
      intro state hstate hamount hstaked owner stake hstake
      have hrecord : record t (.deposit liquidToken underlyingAmount) =
          t.saveState liquidToken (state.deposit underlyingAmount) := by
        simp only [record, perform, deposit, hstate, if_neg (not_le.mpr hamount)]
      rw [← ht.clean_deposit_iff hstate hamount hstaked hstake]
      have hsettled := (ht.step hop).staked_iff.mp h
      rw [hrecord] at hsettled
      exact (hsettled liquidToken _ (Function.update_self _ _ _)).2 owner stake hstake
  | initializeTransmuter | stake | unstake | claim => trivial

/-- No stake has anything to claim. -/
def Unclaimed (t : Transmuter) : Prop :=
  ∀ liquidToken owner stake, t.stakes (stakeKey liquidToken owner) = some stake →
    stake.unclaimedAmount = 0

theorem Unclaimed.save {t : Transmuter} (ht : Unclaimed t) {liquidToken owner : Address}
    {stake : TransmuterStake} (state : LiquidFXState) (hstake : stake.unclaimedAmount = 0) :
    Unclaimed (t.save liquidToken owner stake state) := by
  intro liquidToken' owner' stake' h
  rw [Transmuter.save_stakes] at h
  split_ifs at h with hkey
  · exact Option.some.inj h ▸ hstake
  · exact ht liquidToken' owner' stake' h

/-- Without conversion nothing is ever there to claim. -/
theorem Unclaimed.step {t : Transmuter} (ht : Valid t) (hsettled : Settled t)
    (hunclaimed : Unclaimed t) (op : Op) : Unclaimed (record t op) := by
  have hupdate : ∀ {liquidToken owner state old}, t.states liquidToken = some state →
      t.stakes (stakeKey liquidToken owner) = some old →
        (updateStakeUnclaimed old state).unclaimedAmount = 0 := by
    intro liquidToken owner state old hstate hold
    rw [(ht.stake_valid hstate hold).update_eq.2, hunclaimed liquidToken owner old hold,
      (hsettled liquidToken state hstate).2 owner old hold, add_zero]
  have heffect := ht.record_effect op
  generalize record t op = t' at heffect
  cases heffect with
  | idle => exact hunclaimed
  | initialized => exact hunclaimed
  | deposited => exact hunclaimed
  | staked owner liquidToken amount state old stake hstate hold hamount hstake =>
      apply hunclaimed.save
      rw [hstake]
      dsimp only
      cases h : t.stakes (stakeKey liquidToken owner) with
      | none =>
          rw [hold, h, Option.getD_none]
          simp only [updateStakeUnclaimed, if_true]
      | some old' =>
          rw [hold, h, Option.getD_some]
          exact hupdate hstate h
  | unstaked owner liquidToken amount state old removed hstate hold =>
      exact hunclaimed.save _ (hupdate hstate hold)
  | claimed owner liquidToken state old hstate hold => exact hunclaimed.save _ rfl

/-- A transmuter that has converted nothing. -/
structure Quiet (t : Transmuter) : Prop where
  valid : Valid t
  settled : Settled t
  unclaimed : Unclaimed t

theorem newTransmuter_quiet : Quiet newTransmuter where
  valid := newTransmuter_valid
  settled _ _ h := by cases h
  unclaimed _ _ _ h := by cases h

namespace Quiet

variable {t : Transmuter} (h : Quiet t)

include h

theorem step {op : Op} (hop : 0 ≤ op.amount) (hclean : Clean t op) : Quiet (record t op) :=
  ⟨h.valid.step hop, h.settled.step h.valid hop hclean, h.unclaimed.step h.valid h.settled op⟩

/-- An update moves the index of a stake and no more. -/
theorem update_eq {liquidToken owner : Address} {state : LiquidFXState} {stake : TransmuterStake}
    (hstate : t.states liquidToken = some state)
    (hstake : t.stakes (stakeKey liquidToken owner) = some stake) :
    updateStakeUnclaimed stake state =
      if stake.stakedAmount = 0 then stake
      else { stake with lastUpdateIndex := state.exchangeRate } := by
  have hvalid := h.valid.stake_valid hstate hstake
  have hzero := (h.settled liquidToken state hstate).2 owner stake hstake
  rw [updateStakeUnclaimed]
  split_ifs with hempty hindex
  · rfl
  · have hsame : state.exchangeRate = stake.lastUpdateIndex :=
      le_antisymm (sub_nonpos.mp hindex) hvalid.index
    rw [hsame]
  · have hall : ¬ stake.stakedAmount ≤ 0 := fun hle => hempty (le_antisymm hle hvalid.staked)
    simp only [hzero, if_neg hall, sub_zero, add_zero]

theorem update_unclaimed {liquidToken owner : Address} {state : LiquidFXState}
    {stake : TransmuterStake} (hstate : t.states liquidToken = some state)
    (hstake : t.stakes (stakeKey liquidToken owner) = some stake) :
    (updateStakeUnclaimed stake state).unclaimedAmount = 0 := by
  rw [h.update_eq hstate hstake]
  split_ifs
  · exact h.unclaimed liquidToken owner stake hstake
  · exact h.unclaimed liquidToken owner stake hstake

theorem claimable_eq_zero (owner liquidToken : Address) :
    getClaimable t owner liquidToken = 0 := by
  cases hstate : t.states liquidToken with
  | none => simp only [getClaimable, hstate]
  | some state =>
      cases hstake : t.stakes (stakeKey liquidToken owner) with
      | none => simp only [getClaimable, hstate, hstake]
      | some stake =>
          rw [h.valid.getClaimable_eq hstate hstake, h.update_unclaimed hstate hstake]

theorem paid_eq_zero (owner liquidToken : Address) (op : Op) :
    paid owner liquidToken t op = 0 := by
  cases op with
  | claim owner' liquidToken' =>
      rw [paid]
      split_ifs with hsame
      · cases hstate : t.states liquidToken with
        | none => simp only [claim, hstate]
        | some state =>
            cases hstake : t.stakes (stakeKey liquidToken owner) with
            | none => simp only [claim, hstate, hstake]
            | some stake =>
                obtain ⟨t', hclaim⟩ := h.valid.covered.uncut _ _ _ _ hstate hstake
                rw [hclaim]
                exact h.update_unclaimed hstate hstake
      · rfl
  | initializeTransmuter | stake | unstake | deposit => rfl

theorem received_eq_zero {ops : List Op} (hnonneg : ∀ op ∈ ops, 0 ≤ op.amount)
    (hclean : Along record Clean t ops) (owner liquidToken : Address) :
    received owner liquidToken t ops = 0 := by
  induction ops generalizing t with
  | nil => exact h.claimable_eq_zero owner liquidToken
  | cons op ops ih =>
      rw [received, h.paid_eq_zero, zero_add]
      have hrest := List.forall_mem_cons.mp hnonneg
      exact ih (h.step hrest.1 hclean.1) hrest.2 hclean.2

end Quiet

/-! ## Touches -/

/-- The same stake, brought up to date later. -/
def TransmuterStake.Later (early late : TransmuterStake) : Prop :=
  ∃ index, early.lastUpdateIndex ≤ index ∧ late = { early with lastUpdateIndex := index }

theorem TransmuterStake.Later.refl (stake : TransmuterStake) : stake.Later stake :=
  ⟨_, le_rfl, rfl⟩

theorem TransmuterStake.Later.trans {a b c : TransmuterStake} (hab : a.Later b)
    (hbc : b.Later c) : a.Later c := by
  obtain ⟨i, hi, rfl⟩ := hab
  obtain ⟨j, hj, rfl⟩ := hbc
  exact ⟨j, hi.trans hj, rfl⟩

/-- Two transmuters that differ in when their stakes were brought up to date. -/
structure Ahead (early late : Transmuter) : Prop where
  states : late.states = early.states
  stakes : ∀ key, Option.Rel TransmuterStake.Later (early.stakes key) (late.stakes key)

theorem Ahead.refl (t : Transmuter) : Ahead t t where
  states := rfl
  stakes key := by
    cases t.stakes key with
    | none => exact .none
    | some stake => exact .some (.refl stake)

section Touches

variable {early late : Transmuter}

theorem Ahead.stake_none (h : Ahead early late) {key : Address × Address}
    (hkey : early.stakes key = none) : late.stakes key = none := by
  have hrel := h.stakes key
  rw [hkey] at hrel
  generalize late.stakes key = stake at hrel
  cases hrel with
  | none => rfl

theorem Ahead.stake_some (h : Ahead early late) {key : Address × Address} {old : TransmuterStake}
    (hkey : early.stakes key = some old) : ∃ stake, late.stakes key = some stake ∧
      old.Later stake := by
  have hrel := h.stakes key
  rw [hkey] at hrel
  generalize late.stakes key = stake at hrel
  cases hrel with
  | some hlater => exact ⟨_, rfl, hlater⟩

theorem Ahead.stake_of_late (h : Ahead early late) {key : Address × Address}
    {stake : TransmuterStake} (hkey : late.stakes key = some stake) :
    ∃ old, early.stakes key = some old ∧ old.Later stake := by
  have hrel := h.stakes key
  rw [hkey] at hrel
  generalize early.stakes key = old at hrel
  cases hrel with
  | some hlater => exact ⟨_, rfl, hlater⟩

theorem Ahead.save (h : Ahead early late) (liquidToken owner : Address) (stake : TransmuterStake)
    (state : LiquidFXState) :
    Ahead (early.save liquidToken owner stake state) (late.save liquidToken owner stake state) := by
  refine ⟨?_, fun key => ?_⟩
  · simp only [Transmuter.save, Transmuter.saveState_states, Transmuter.saveStake_states, h.states]
  · simp only [Transmuter.save, Transmuter.saveState_stakes, Transmuter.saveStake_stakes,
      Function.update_apply]
    split_ifs
    · exact .some (.refl stake)
    · exact h.stakes key

/-- A later update keeps the transmuter ahead. -/
theorem Ahead.save_late (h : Ahead early late) {liquidToken owner : Address}
    {state : LiquidFXState} {old stake : TransmuterStake}
    (hstate : late.states liquidToken = some state)
    (hold : late.stakes (stakeKey liquidToken owner) = some old) (hstake : old.Later stake) :
    Ahead early (late.save liquidToken owner stake state) := by
  refine ⟨?_, fun key => ?_⟩
  · rw [Transmuter.save, Transmuter.saveState_states, Transmuter.saveStake_states, ← hstate,
      Function.update_eq_self, h.states]
  · simp only [Transmuter.save, Transmuter.saveState_stakes, Transmuter.saveStake_stakes,
      Function.update_apply]
    split_ifs with hkey
    · obtain ⟨first, hfirst, hlater⟩ := h.stake_of_late hold
      rw [hkey, hfirst]
      exact .some (hlater.trans hstake)
    · exact h.stakes key

/-- A touch moves the index of a stake and no more. -/
theorem Ahead.touch (h : Ahead early late) (hlate : Quiet late) {op : Op}
    (htouch : op.isTouch = true) : Ahead early (record late op) := by
  have hupdate : ∀ {liquidToken owner state old}, late.states liquidToken = some state →
      late.stakes (stakeKey liquidToken owner) = some old →
        old.Later (updateStakeUnclaimed old state) := by
    intro liquidToken owner state old hstate hold
    rw [hlate.update_eq hstate hold]
    split_ifs
    · exact .refl old
    · exact ⟨_, (hlate.valid.stake_valid hstate hold).index, rfl⟩
  have heffect := hlate.valid.record_effect op
  generalize record late op = late' at heffect
  cases heffect with
  | idle => exact h
  | initialized => cases htouch
  | deposited => cases htouch
  | staked => cases htouch
  | unstaked owner liquidToken amount state old removed hstate hold hremoved =>
      have hamount : amount = 0 := of_decide_eq_true htouch
      have hzero : removed = 0 := by
        rw [hremoved, hamount]
        exact min_eq_right (hlate.valid.stake_valid hstate hold).update.staked
      rw [hzero, sub_zero, sub_zero]
      exact h.save_late hstate hold (hupdate hstate hold)
  | claimed owner liquidToken state old hstate hold =>
      have hzero := hlate.update_unclaimed hstate hold
      have hsame : { updateStakeUnclaimed old state with unclaimedAmount := 0 } =
          updateStakeUnclaimed old state := by
        rw [← hzero]
      rw [hzero, sub_zero, hsame]
      exact h.save_late hstate hold (hupdate hstate hold)

/-- An update moves the index to the rate, whenever the last one was. -/
theorem Ahead.update (h : Ahead early late) (hearly : Quiet early) (hlate : Quiet late)
    {liquidToken owner : Address} {state : LiquidFXState} {old stake : TransmuterStake}
    (hstate : early.states liquidToken = some state)
    (hold : early.stakes (stakeKey liquidToken owner) = some old)
    (hstake : late.stakes (stakeKey liquidToken owner) = some stake) (hlater : old.Later stake) :
    { updateStakeUnclaimed stake state with lastUpdateIndex := state.exchangeRate } =
        { updateStakeUnclaimed old state with lastUpdateIndex := state.exchangeRate } ∧
      (old.stakedAmount ≠ 0 → updateStakeUnclaimed stake state =
        updateStakeUnclaimed old state) := by
  rw [hearly.update_eq hstate hold, hlate.update_eq (h.states ▸ hstate) hstake]
  obtain ⟨index, -, rfl⟩ := hlater
  by_cases hempty : old.stakedAmount = 0
  · rw [if_pos hempty, if_pos hempty]
    exact ⟨rfl, fun hne => absurd hempty hne⟩
  · rw [if_neg hempty, if_neg hempty]
    exact ⟨rfl, fun _ => rfl⟩

/-- Any other operation does the same to both. -/
theorem Ahead.step (h : Ahead early late) (hearly : Quiet early) (hlate : Quiet late) {op : Op}
    (htouch : op.isTouch = false) : Ahead (record early op) (record late op) := by
  cases op with
  | initializeTransmuter liquidToken =>
      simp only [record, perform, initializeTransmuter, h.states]
      cases early.states liquidToken with
      | some state => exact h
      | none => exact ⟨by simp only [Transmuter.saveState_states, h.states], h.stakes⟩
  | stake owner liquidToken amount =>
      simp only [record, perform, stake, h.states]
      cases hstate : early.states liquidToken with
      | none => exact h
      | some state =>
          dsimp only
          split_ifs with hamount
          · exact h
          · cases hold : early.stakes (stakeKey liquidToken owner) with
            | none =>
                rw [h.stake_none hold]
                exact h.save liquidToken owner _ _
            | some old =>
                obtain ⟨stake, hstake, hlater⟩ := h.stake_some hold
                have hsame := (h.update hearly hlate hstate hold hstake hlater).1
                rw [hstake, Option.getD_some, Option.getD_some]
                generalize updateStakeUnclaimed stake state = updated at hsame
                generalize updateStakeUnclaimed old state = updated' at hsame
                obtain ⟨hamounts, hunclaimed, -⟩ := TransmuterStake.mk.inj hsame
                rw [hamounts, hunclaimed]
                exact h.save liquidToken owner _ _
  | unstake owner liquidToken amount =>
      simp only [record, perform, unstake, h.states]
      cases hstate : early.states liquidToken with
      | none => exact h
      | some state =>
          dsimp only
          cases hold : early.stakes (stakeKey liquidToken owner) with
          | none =>
              rw [h.stake_none hold]
              exact h
          | some old =>
              obtain ⟨stake, hstake, hlater⟩ := h.stake_some hold
              have hsame := (h.update hearly hlate hstate hold hstake hlater).2
              have hamounts : stake.stakedAmount = old.stakedAmount := by
                obtain ⟨index, -, rfl⟩ := hlater
                rfl
              rw [hstake]
              dsimp only
              rw [hamounts]
              by_cases hempty : old.stakedAmount = 0
              · rw [if_pos hempty, if_pos hempty]
                exact h
              · rw [if_neg hempty, if_neg hempty, hsame hempty]
                exact h.save liquidToken owner _ _
  | claim owner liquidToken => cases htouch
  | deposit liquidToken underlyingAmount =>
      simp only [record, perform, deposit, h.states]
      cases early.states liquidToken with
      | none => exact h
      | some state =>
          dsimp only
          split_ifs
          · exact h
          · exact ⟨by simp only [Transmuter.saveState_states, h.states], h.stakes⟩

theorem Ahead.clean (h : Ahead early late) (hearly : Valid early) {op : Op}
    (hclean : Clean early op) : Clean late op := by
  cases op with
  | deposit liquidToken underlyingAmount =>
      intro state hstate hamount hstaked owner stake hstake
      rw [h.states] at hstate
      obtain ⟨old, hold, index, hindex, rfl⟩ := h.stake_of_late hstake
      have hvalid := hearly.stake_valid hstate hold
      refine lt_of_le_of_lt ?_ (hclean state hstate hamount hstaked owner old hold)
      exact mul_le_mul_of_nonneg_left (sub_le_sub_left hindex _) hvalid.staked
  | initializeTransmuter | stake | unstake | claim => trivial

end Touches

/-- A run is clean if it is without its touches. -/
theorem Ahead.clean_run {early late : Transmuter} (h : Ahead early late) (hearly : Quiet early)
    (hlate : Quiet late) {ops : List Op} (hnonneg : ∀ op ∈ ops, 0 ≤ op.amount)
    (hclean : Along record Clean early (untouched ops)) : Along record Clean late ops := by
  induction ops generalizing early late with
  | nil => trivial
  | cons op ops ih =>
      obtain ⟨hop, hrest⟩ := List.forall_mem_cons.mp hnonneg
      cases htouch : op.isTouch with
      | true =>
          rw [untouched, List.filter_cons_of_neg (by simp [htouch])] at hclean
          have hfirst : Clean late op := by
            cases op with
            | unstake | claim => trivial
            | initializeTransmuter | stake | deposit => cases htouch
          exact ⟨hfirst, ih (h.touch hlate htouch) hearly (hlate.step hop hfirst) hrest hclean⟩
      | false =>
          rw [untouched, List.filter_cons_of_pos (by simp [htouch])] at hclean
          have hfirst := h.clean hearly.valid hclean.1
          exact ⟨hfirst, ih (h.step hearly hlate htouch) (hearly.step hop hclean.1)
            (hlate.step hop hfirst) hrest hclean.2⟩

/-- An operation after which nothing can be claimed is clean. -/
theorem Quiet.clean_of_claimable {t : Transmuter} (h : Quiet t) {op : Op} (hop : 0 ≤ op.amount)
    (hzero : ∀ owner liquidToken, getClaimable (record t op) owner liquidToken = 0) :
    Clean t op := by
  cases op with
  | deposit liquidToken underlyingAmount =>
      intro state hstate hamount hstaked owner stake hstake
      have hrecord : record t (.deposit liquidToken underlyingAmount) =
          t.saveState liquidToken (state.deposit underlyingAmount) := by
        simp only [record, perform, deposit, hstate, if_neg (not_le.mpr hamount)]
      have hvalid := h.valid.step hop
      have hclaimable := hzero owner liquidToken
      rw [hrecord] at hvalid hclaimable
      have hstate' : (t.saveState liquidToken (state.deposit underlyingAmount)).states
          liquidToken = some (state.deposit underlyingAmount) := Function.update_self _ _ _
      rw [hvalid.getClaimable_eq hstate' hstake, (hvalid.stake_valid hstate' hstake).update_eq.2,
        h.unclaimed liquidToken owner stake hstake, zero_add] at hclaimable
      exact (h.valid.clean_deposit_iff hstate hamount hstaked hstake).mp hclaimable
  | initializeTransmuter | stake | unstake | claim => trivial

theorem Quiet.clean_of_prefixes {t : Transmuter} (h : Quiet t) {ops : List Op}
    (hnonneg : ∀ op ∈ ops, 0 ≤ op.amount)
    (hzero : ∀ earlier, earlier <+: ops → ∀ owner liquidToken,
      getClaimable (earlier.foldl record t) owner liquidToken = 0) :
    Along record Clean t ops := by
  induction ops generalizing t with
  | nil => trivial
  | cons op ops ih =>
      obtain ⟨hop, hrest⟩ := List.forall_mem_cons.mp hnonneg
      have hclean := h.clean_of_claimable hop (hzero [op] ⟨ops, rfl⟩)
      refine ⟨hclean, ih (h.step hop hclean) hrest fun earlier hearlier => ?_⟩
      exact hzero (op :: earlier) (List.cons_prefix_cons.mpr ⟨rfl, hearlier⟩)

theorem received_untouched (owner liquidToken : Address) (t : Transmuter) (ops : List Op) :
    received owner liquidToken t (untouched ops) =
      getClaimable ((untouched ops).foldl record t) owner liquidToken := by
  have hnone : ∀ op ∈ untouched ops, op.isTouch = false := by
    intro op hop
    simpa using (List.mem_filter.mp hop).2
  generalize untouched ops = ops at hnone ⊢
  induction ops generalizing t with
  | nil => rfl
  | cons op ops ih =>
      obtain ⟨hop, hrest⟩ := List.forall_mem_cons.mp hnone
      have hpaid : paid owner liquidToken t op = 0 := by
        cases op with
        | claim => cases hop
        | initializeTransmuter | stake | unstake | deposit => rfl
      rw [received, hpaid, zero_add]
      exact ih _ hrest

/-! ## Runs -/

section Runs

variable {ops : List Op} (hnonneg : ∀ op ∈ ops, 0 ≤ op.amount)

include hnonneg

/-- The total staked is right exactly along the runs whose deposits convert nothing. -/
theorem staked_along_iff :
    Along record (fun t op => Staked (record t op)) newTransmuter ops ↔
      Along record Clean newTransmuter ops := by
  have hamounts : Along record (fun _ op => 0 ≤ op.amount) newTransmuter ops :=
    along_forall_iff.mpr hnonneg
  constructor
  · intro h
    exact Along.imp_of_invariant (I := Valid) (fun t op ht hop => ht.step hop.1)
      (fun t op ht hop => clean_of_staked ht hop.1 hop.2) ops newTransmuter_valid (hamounts.and h)
  · intro h
    refine Along.imp_of_invariant (I := fun t => Valid t ∧ Settled t) ?_ ?_ ops
      ⟨newTransmuter_valid, newTransmuter_quiet.settled⟩ (hamounts.and h)
    · exact fun t op ht hop => ⟨ht.1.step hop.1, ht.2.step ht.1 hop.1 hop.2⟩
    · exact fun t op ht hop => (ht.1.step hop.1).staked_iff.mpr (ht.2.step ht.1 hop.1 hop.2)

theorem clean_of_untouched (hclean : Along record Clean newTransmuter (untouched ops)) :
    Along record Clean newTransmuter ops :=
  (Ahead.refl newTransmuter).clean_run newTransmuter_quiet newTransmuter_quiet hnonneg hclean

/-- Nobody receives anything in a run that is clean without its touches, whatever its
touches. -/
theorem pathIndependent_of_clean (hclean : Along record Clean newTransmuter (untouched ops)) :
    PathIndependent ops := by
  rintro earlier ⟨later, rfl⟩ ops' hnonneg' hsame owner liquidToken
  have hnonneg'' : ∀ op ∈ earlier, 0 ≤ op.amount :=
    fun op hop => hnonneg op (List.mem_append_left later hop)
  rw [untouched, List.filter_append, along_append] at hclean
  have hearlier : Along record Clean newTransmuter (untouched earlier) := hclean.1
  rw [newTransmuter_quiet.received_eq_zero hnonneg'' (clean_of_untouched hnonneg'' hearlier),
    newTransmuter_quiet.received_eq_zero hnonneg' (clean_of_untouched hnonneg' (hsame ▸ hearlier))]

/-- A clean run in which touches make no difference is clean without them. -/
theorem clean_of_pathIndependent (hclean : Along record Clean newTransmuter ops)
    (hsame : PathIndependent ops) : Along record Clean newTransmuter (untouched ops) := by
  have hrest : ∀ {part : List Op}, (∀ op ∈ part, 0 ≤ op.amount) →
      ∀ op ∈ untouched part, 0 ≤ op.amount :=
    fun hpart op hop => hpart op (List.mem_of_mem_filter hop)
  refine newTransmuter_quiet.clean_of_prefixes (hrest hnonneg) ?_
  intro without hwithout owner liquidToken
  obtain ⟨earlier, ⟨later, rfl⟩, rfl⟩ := List.prefix_filter_iff.mp hwithout
  have hnonneg' : ∀ op ∈ earlier, 0 ≤ op.amount :=
    fun op hop => hnonneg op (List.mem_append_left later hop)
  have hidem : untouched (untouched earlier) = untouched earlier := by
    simp [untouched]
  have hreceived := hsame earlier ⟨later, rfl⟩ (untouched earlier) (hrest hnonneg') hidem owner
    liquidToken
  rw [received_untouched, newTransmuter_quiet.received_eq_zero hnonneg'
    (along_append.mp hclean).1] at hreceived
  exact hreceived

end Runs

/-- Claims are covered in every run.  The total staked is right exactly along the runs
whose deposits convert nothing, and touches make no difference besides exactly along those
that also convert nothing without their touches. -/
theorem transmuter_accounting (ops : List Op) (hnonneg : ∀ op ∈ ops, 0 ≤ op.amount) :
    Along record (fun t op => Covered (record t op)) newTransmuter ops ∧
      (Along record (fun t op => Staked (record t op)) newTransmuter ops ↔
        Along record Clean newTransmuter ops) ∧
      (Along record (fun t op => Staked (record t op)) newTransmuter ops ∧ PathIndependent ops ↔
        Along record Clean newTransmuter (untouched ops)) := by
  have hamounts : Along record (fun _ op => 0 ≤ op.amount) newTransmuter ops :=
    along_forall_iff.mpr hnonneg
  refine ⟨?_, staked_along_iff hnonneg, ?_⟩
  · exact Along.imp_of_invariant (I := Valid) (fun t op ht hop => ht.step hop)
      (fun t op ht hop => (ht.step hop).covered) ops newTransmuter_valid hamounts
  · rw [staked_along_iff hnonneg]
    constructor
    · exact fun ⟨hclean, hsame⟩ => clean_of_pathIndependent hnonneg hclean hsame
    · exact fun hclean => ⟨clean_of_untouched hnonneg hclean,
        pathIndependent_of_clean hnonneg hclean⟩

/-- A stake of account 2, a deposit too small to convert any of it, and two touches. -/
def sampleRun : List Op :=
  [.initializeTransmuter 1, .stake 2 1 1000, .deposit 1 1, .unstake 2 1 0, .claim 2 1,
    .unstake 2 1 200]

/-- The transmuter before the deposit. -/
def sampleStaked : Transmuter := (sampleRun.take 2).foldl record newTransmuter

theorem sampleStaked_clean : Clean sampleStaked (.deposit 1 1) := by
  intro state hstate _ _ owner stake hstake
  have hfound : sampleStaked.states 1 = some ⟨0, 1000, q96⟩ := by decide
  obtain rfl := Option.some.inj (hfound.symm.trans hstate)
  have hstakes : sampleStaked.stakes =
      Function.update (fun _ => none) (stakeKey 1 2) (some ⟨1000, 0, q96⟩) := rfl
  rw [hstakes, update_eq_some] at hstake
  obtain ⟨-, rfl⟩ | ⟨-, hnone⟩ := hstake
  · decide
  · cases hnone

theorem transmuter_accounting_sample :
    (Along record (fun t op => Staked (record t op)) newTransmuter sampleRun ∧
        PathIndependent sampleRun) ∧
      (sampleRun.foldl record newTransmuter).states 1 =
        some ⟨1, 800, q96 + q96 / 1000⟩ ∧
      ((sampleRun.foldl record newTransmuter).stakes (stakeKey 1 2)).map
        TransmuterStake.stakedAmount = some 800 :=
  ⟨(transmuter_accounting sampleRun (by decide)).2.2.mpr
      ⟨trivial, trivial, sampleStaked_clean, trivial, trivial⟩,
    by decide, by decide⟩

/-- A deposit of half of what is staked converts half of the stake and none of the
total. -/
theorem total_not_converted :
    ¬ ∀ ops : List Op, (∀ op ∈ ops, 0 ≤ op.amount) →
      Along record (fun t op => Covered (record t op) ∧ Staked (record t op)) newTransmuter
        ops := by
  intro h
  obtain ⟨-, -, ⟨-, hlast⟩, -⟩ :=
    h [.initializeTransmuter 1, .stake 2 1 100, .deposit 1 50] (by decide)
  let known := record newTransmuter (.initializeTransmuter 1)
  let staked := record known (.stake 2 1 100)
  have hknown : Valid known := newTransmuter_valid.step (by decide)
  have hstaked : Valid staked := hknown.step (by decide)
  have hvalid : Valid (record staked (.deposit 1 50)) := hstaked.step (by decide)
  have hstate : (record staked (.deposit 1 50)).states 1 =
      some ⟨50, 100, q96 + 50 * q96 / 100⟩ := by decide
  have hstake : (record staked (.deposit 1 50)).stakes (stakeKey 1 2) = some ⟨100, 0, q96⟩ := by
    decide
  have haccrued := (hvalid.staked_iff.mp hlast 1 _ hstate).2 2 _ hstake
  exact absurd haccrued (by decide)

end LuxPrecompile.Transmutation
