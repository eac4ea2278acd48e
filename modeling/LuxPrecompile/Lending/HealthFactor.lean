import LuxPrecompile.Lending.Solvency

/-!
# The debt that the health checks use

A stored debt is the debt at the last touch of its position.  `Borrow` and the account view
scale it to the current index first; `Withdraw`, `GetHealthFactor` and through it `Liquidate`
take it as stored.  The two agree until the interest since that touch makes a unit.
-/

namespace LuxPrecompile.Lending

open Evm Support

/-! ## The account view -/

/-- What `GetUserAccountData` returns. -/
structure AccountData where
  supplyValue : ℤ
  borrowValue : ℤ
  availableToBorrow : ℤ
  healthFactor : ℤ
deriving DecidableEq

/-- What a position can borrow against its supply: the limit of the checks. -/
def LendingPosition.maxBorrow (reserve : Reserve) (position : LendingPosition) : ℤ :=
  position.claim reserve * reserve.collateralFactor / ray

/-- The debt that the account view shows. -/
def LendingPosition.borrowValue (reserve : Reserve) (position : LendingPosition) : ℤ :=
  if 0 < position.borrowIndex ∧ position.borrowIndex < reserve.borrowIndex then
    position.borrowAmount * reserve.borrowIndex / position.borrowIndex
  else position.borrowAmount

def getUserAccountData (lp : LendingPool) (user : Address) : AccountData :=
  match lp.positions user with
  | none => ⟨0, 0, 0, ray⟩
  | some position =>
      let supplyValue := position.claim lp.reserve
      let borrowValue := position.borrowValue lp.reserve
      let maxBorrow := supplyValue * lp.reserve.collateralFactor / ray
      { supplyValue := supplyValue
        borrowValue := borrowValue
        availableToBorrow := if borrowValue < maxBorrow then maxBorrow - borrowValue else 0
        healthFactor := calculateHealthFactor supplyValue borrowValue lp.reserve }

/-- The health factor that `Liquidate` compares with its threshold, if it gets so far. -/
def liquidationFactor (lp : LendingPool) (borrower : Address) : Option ℤ :=
  match lp.positions borrower with
  | none => none
  | some position =>
      if position.borrowAmount = 0 then none else some (getHealthFactor lp borrower)

theorem liquidationFactor_eq_some_iff {lp : LendingPool} {borrower : Address} {factor : ℤ} :
    liquidationFactor lp borrower = some factor ↔
      factor = getHealthFactor lp borrower ∧
        ∃ position, lp.positions borrower = some position ∧ position.borrowAmount ≠ 0 := by
  unfold liquidationFactor
  generalize getHealthFactor lp borrower = used
  rcases lp.positions borrower with _ | position
  · simp
  · dsimp only
    by_cases hdebt : position.borrowAmount = 0
    · simp [hdebt]
    · simp [hdebt, eq_comm]

/-- `Liquidate` refuses a position as healthy exactly when that factor is at the threshold. -/
theorem liquidate_positionHealthy_iff (lp : LendingPool) (config : LiquidatorConfig)
    (liquidator borrower : Address) (debtToRepay : ℤ) :
    (liquidate lp config liquidator borrower debtToRepay).2 = .error .positionHealthy ↔
      ∃ factor, liquidationFactor lp borrower = some factor ∧ liquidationThreshold ≤ factor := by
  unfold liquidate liquidationFactor
  rcases lp.positions borrower with _ | position
  · simp
  · dsimp only
    by_cases hdebt : position.borrowAmount = 0
    · simp [hdebt]
    · simp only [if_neg hdebt, Option.some.injEq, exists_eq_left']
      by_cases hhealthy : liquidationThreshold ≤ getHealthFactor lp borrower
      · simp [hhealthy]
      · rw [if_neg hhealthy]
        simp only [hhealthy, iff_false]
        generalize (if position.borrowAmount * config.closeFactor / ray < debtToRepay then
          position.borrowAmount * config.closeFactor / ray else debtToRepay) = actualDebtToRepay
        intro hrefused
        split_ifs at hrefused
        all_goals simp at hrefused

/-! ## The true debt -/

/-- The debt with all interest up to the current index. -/
def LendingPosition.currentDebt (reserve : Reserve) (position : LendingPosition) : ℤ :=
  if position.borrowIndex = 0 then position.borrowAmount else position.debt reserve

/-- The interest since the last touch has not made a unit. -/
def LendingPosition.Fresh (reserve : Reserve) (position : LendingPosition) : Prop :=
  position.borrowIndex = 0 ∨
    0 ≤ position.borrowAmount * (reserve.borrowIndex - position.borrowIndex) ∧
      position.borrowAmount * (reserve.borrowIndex - position.borrowIndex) <
        |position.borrowIndex|

/-- A position that owes nothing, or no more than its limit. -/
def LendingPosition.Healthy (reserve : Reserve) (position : LendingPosition) : Prop :=
  position.currentDebt reserve ≤ 0 ∨ position.currentDebt reserve ≤ position.maxBorrow reserve

/-- A user's position is healthy. -/
def HealthyUser (lp : LendingPool) (user : Address) : Prop :=
  ∀ position, lp.positions user = some position → position.Healthy lp.reserve

theorem currentDebt_stamped (reserve : Reserve) (position : LendingPosition)
    (h : position.borrowIndex = reserve.borrowIndex) :
    position.currentDebt reserve = position.borrowAmount := by
  unfold LendingPosition.currentDebt LendingPosition.debt
  by_cases hzero : position.borrowIndex = 0
  · rw [if_pos hzero]
  · rw [if_neg hzero, ← h, Int.mul_ediv_cancel _ hzero]

theorem currentDebt_fresh {reserve : Reserve} {position : LendingPosition}
    (h : position.Fresh reserve) : position.currentDebt reserve = position.borrowAmount := by
  unfold LendingPosition.currentDebt LendingPosition.debt
  by_cases hzero : position.borrowIndex = 0
  · rw [if_pos hzero]
  · rw [if_neg hzero]
    obtain ⟨hnonneg, hlt⟩ := h.resolve_left hzero
    have hsplit : position.borrowAmount * reserve.borrowIndex =
        position.borrowAmount * (reserve.borrowIndex - position.borrowIndex) +
          position.borrowAmount * position.borrowIndex := by
      ring
    rw [hsplit, Int.add_mul_ediv_right _ _ hzero, Int.ediv_eq_zero_of_lt_abs hnonneg hlt, zero_add]

theorem borrowValue_fresh {reserve : Reserve} {position : LendingPosition}
    (h : position.Fresh reserve) : position.borrowValue reserve = position.borrowAmount := by
  unfold LendingPosition.borrowValue
  split_ifs with hindex
  · have hdebt := currentDebt_fresh h
    rwa [LendingPosition.currentDebt, if_neg hindex.1.ne'] at hdebt
  · rfl

/-! ## Borrowing -/

/-- What a borrow that succeeds leaves: a debt stamped with the current index and within the
limit. -/
theorem borrow_spec {lp lp' : LendingPool} {block : UInt64} {user : Address} {amount paid : ℤ}
    (h : borrow lp block user amount = (lp', .ok paid)) :
    ∃ position, lp'.positions user = some position ∧
      position.borrowIndex = lp'.reserve.borrowIndex ∧
      position.borrowAmount ≤ position.maxBorrow lp'.reserve := by
  unfold borrow at h
  by_cases hdisabled : lp.reserve.isActive = false ∨ lp.reserve.isBorrowEnabled = false
  · rw [if_pos hdisabled] at h
    simp at h
  by_cases hamount : amount ≤ 0
  · rw [if_neg hdisabled, if_pos hamount] at h
    simp at h
  by_cases hcap : 0 < lp.reserve.borrowCap ∧ lp.reserve.borrowCap < lp.reserve.totalBorrows + amount
  · rw [if_neg hdisabled, if_neg hamount, if_pos hcap] at h
    simp at h
  rw [if_neg hdisabled, if_neg hamount, if_neg hcap] at h
  dsimp only at h
  rcases hposition : (accrueInterest lp block).positions user with _ | position
  · rw [hposition] at h
    simp at h
  rw [hposition] at h
  dsimp only at h
  split_ifs at h with hlimit hliquidity
  · simp at h
  · simp at h
  · obtain ⟨rfl, -⟩ := Prod.mk.inj h
    exact ⟨_, Function.update_self .., rfl, not_lt.mp hlimit⟩

theorem borrow_healthy {lp lp' : LendingPool} {block : UInt64} {user : Address} {amount paid : ℤ}
    (h : borrow lp block user amount = (lp', .ok paid)) : HealthyUser lp' user := by
  obtain ⟨position, hposition, hstamp, hlimit⟩ := borrow_spec h
  intro position' hposition'
  obtain rfl : position = position' := Option.some.inj (hposition.symm.trans hposition')
  right
  rw [currentDebt_stamped _ _ hstamp]
  exact hlimit

/-! ## Withdrawing -/

/-- The shares that `Withdraw` burns. -/
def LendingPosition.sharesToBurn (position : LendingPosition) (shareAmount : ℤ) : ℤ :=
  if position.supplyShares < shareAmount then position.supplyShares else shareAmount

/-- The position that a withdrawal leaves. -/
def LendingPosition.burn (position : LendingPosition) (shareAmount : ℤ) : LendingPosition :=
  { position with supplyShares := position.supplyShares - position.sharesToBurn shareAmount }

/-- The checks of `Withdraw` on a position, with the reserve after the interest. -/
structure WithdrawalAdmitted (lp : LendingPool) (block : UInt64) (position : LendingPosition)
    (shareAmount : ℤ) : Prop where
  active : lp.reserve.isActive = true
  shares : position.supplyShares ≠ 0
  healthy : withdrawalUnhealthy position (position.sharesToBurn shareAmount)
    (accrueInterest lp block).reserve = false
  liquid :
    position.sharesToBurn shareAmount * (accrueInterest lp block).reserve.exchangeRate / ray ≤
      (accrueInterest lp block).reserve.totalSupply -
        (accrueInterest lp block).reserve.totalBorrows

/-- The pool after a withdrawal. -/
def withdrawn (lp : LendingPool) (block : UInt64) (user : Address) (position : LendingPosition)
    (shareAmount : ℤ) : LendingPool :=
  let lp := accrueInterest lp block
  let underlyingAmount := position.sharesToBurn shareAmount * lp.reserve.exchangeRate / ray
  let lp := lp.savePosition user (position.burn shareAmount)
  let lp := lp.saveReserve
    { lp.reserve with totalSupply := lp.reserve.totalSupply - underlyingAmount }
  lp.transferAsset lendingPoolAddr user underlyingAmount

/-- A withdrawal succeeds exactly when its checks pass. -/
theorem withdraw_eq_ok_iff {lp lp' : LendingPool} {block : UInt64} {user : Address}
    {shareAmount paid : ℤ} :
    withdraw lp block user shareAmount = (lp', .ok paid) ↔
      ∃ position, lp.positions user = some position ∧
        WithdrawalAdmitted lp block position shareAmount ∧
        lp' = withdrawn lp block user position shareAmount ∧
        paid = position.sharesToBurn shareAmount *
          (accrueInterest lp block).reserve.exchangeRate / ray := by
  unfold withdraw
  by_cases hactive : lp.reserve.isActive = false
  · rw [if_pos hactive]
    constructor
    · intro h
      simp at h
    · rintro ⟨position, -, hadmitted, -⟩
      exact absurd (hactive.symm.trans hadmitted.active) (by decide)
  rw [if_neg hactive]
  rcases lp.positions user with _ | position
  · simp
  dsimp only
  by_cases hshares : position.supplyShares = 0
  · rw [if_pos hshares]
    constructor
    · intro h
      simp at h
    · rintro ⟨position', hposition, hadmitted, -⟩
      obtain rfl := Option.some.inj hposition
      exact absurd hshares hadmitted.shares
  rw [if_neg hshares]
  have hsame : (if position.supplyShares < shareAmount then position.supplyShares
      else shareAmount) = position.sharesToBurn shareAmount := rfl
  rw [hsame]
  split_ifs with hunhealthy hliquidity
  · constructor
    · intro h
      simp at h
    · rintro ⟨position', hposition, hadmitted, -⟩
      obtain rfl := Option.some.inj hposition
      exact absurd (hunhealthy.symm.trans hadmitted.healthy) (by decide)
  · constructor
    · intro h
      simp at h
    · rintro ⟨position', hposition, hadmitted, -⟩
      obtain rfl := Option.some.inj hposition
      exact absurd hadmitted.liquid (not_le.mpr hliquidity)
  · constructor
    · intro h
      obtain ⟨hleft, hpaid⟩ := Prod.mk.inj h
      exact ⟨position, rfl, ⟨Bool.eq_true_of_not_eq_false hactive, hshares,
        Bool.eq_false_of_not_eq_true hunhealthy, not_lt.mp hliquidity⟩, hleft.symm,
        (Except.ok.inj hpaid).symm⟩
    · rintro ⟨position', hposition, -, rfl, rfl⟩
      obtain rfl := Option.some.inj hposition
      rfl

theorem withdrawalUnhealthy_eq_false {reserve : Reserve} {position : LendingPosition}
    {shareAmount : ℤ} (hdebt : 0 < position.borrowAmount)
    (h : withdrawalUnhealthy position (position.sharesToBurn shareAmount) reserve = false) :
    position.borrowAmount ≤ (position.burn shareAmount).maxBorrow reserve := by
  simp only [withdrawalUnhealthy, decide_eq_false_iff_not, not_and, not_lt,
    calculateHealthFactor, if_neg hdebt.ne'] at h
  have hfactor := (Int.le_ediv_iff_mul_le hdebt).mp (h hdebt)
  rw [mul_comm ray] at hfactor
  exact le_of_mul_le_mul_right hfactor ray_pos

/-- A withdrawal from a position with a fresh debt leaves the caller healthy. -/
theorem withdraw_healthy {lp lp' : LendingPool} {block : UInt64} {user : Address}
    {shareAmount paid : ℤ}
    (hfresh : (Op.withdraw user shareAmount).Accrues lp → ∀ position,
      lp.positions user = some position → position.Fresh (accrueInterest lp block).reserve)
    (h : withdraw lp block user shareAmount = (lp', .ok paid)) : HealthyUser lp' user := by
  obtain ⟨position, hposition, hadmitted, rfl, -⟩ := withdraw_eq_ok_iff.mp h
  have hleft : (withdrawn lp block user position shareAmount).positions user =
      some (position.burn shareAmount) := Function.update_self ..
  intro position' hposition'
  obtain rfl := Option.some.inj (hleft.symm.trans hposition')
  have hcurrent : (position.burn shareAmount).currentDebt
      (withdrawn lp block user position shareAmount).reserve = position.borrowAmount :=
    currentDebt_fresh
      (hfresh ⟨hadmitted.active, position, hposition, hadmitted.shares⟩ position hposition)
  rw [LendingPosition.Healthy, hcurrent]
  by_cases hdebt : 0 < position.borrowAmount
  · exact .inr (withdrawalUnhealthy_eq_false hdebt hadmitted.healthy)
  · exact .inl (not_lt.mp hdebt)

/-! ## The two views -/

theorem healthFactors_eq {lp : LendingPool} {user : Address}
    (h : ∀ position, lp.positions user = some position →
      position.borrowAmount ≠ 0 ∧ position.Fresh lp.reserve) :
    getHealthFactor lp user = (getUserAccountData lp user).healthFactor := by
  unfold getHealthFactor getUserAccountData
  rcases hposition : lp.positions user with _ | position
  · rfl
  · obtain ⟨hdebt, hfresh⟩ := h position hposition
    dsimp only
    rw [if_neg hdebt, borrowValue_fresh hfresh]
    rfl

/-! ## Runs -/

/-- What is done to a reserve: a call, a setting, or a look at a user. -/
inductive Action
  | call (config : LiquidatorConfig) (call : Call)
  | setReserveActive (active : Bool)
  | setBorrowCap (cap : ℤ)
  | view (user : Address)

/-- The pool after an action. -/
def act (lp : LendingPool) : Action → LendingPool
  | .call config call => (perform config lp call).1
  | .setReserveActive active => lp.saveReserve { lp.reserve with isActive := active }
  | .setBorrowCap cap => lp.saveReserve { lp.reserve with borrowCap := cap }
  | .view _ => lp

/-- `GetHealthFactor` and `Liquidate` use the factor of the account view. -/
def OneFactor (lp : LendingPool) (user : Address) : Prop :=
  getHealthFactor lp user = (getUserAccountData lp user).healthFactor ∧
    ∀ factor, liquidationFactor lp user = some factor →
      factor = (getUserAccountData lp user).healthFactor

/-- An action checks the true debt: a borrow or a withdrawal that succeeds leaves the caller
healthy, and a user's factors are one number. -/
def ChecksTrueDebt (lp : LendingPool) : Action → Prop
  | .call _ (.operate block (.borrow user amount)) =>
      ∀ lp' paid, borrow lp block user amount = (lp', .ok paid) → HealthyUser lp' user
  | .call _ (.operate block (.withdraw user shareAmount)) =>
      ∀ lp' paid, withdraw lp block user shareAmount = (lp', .ok paid) → HealthyUser lp' user
  | .call _ (.liquidate _ _ borrower _) =>
      ∀ factor, liquidationFactor lp borrower = some factor →
        factor = (getUserAccountData lp borrower).healthFactor
  | .view user => OneFactor lp user
  | _ => True

/-- An action that takes a debt as stored finds it fresh, and a look at a position finds a
debt. -/
def FindsFreshDebt (lp : LendingPool) : Action → Prop
  | .call _ (.operate block (.withdraw user shareAmount)) =>
      (Op.withdraw user shareAmount).Accrues lp → ∀ position,
        lp.positions user = some position → position.Fresh (accrueInterest lp block).reserve
  | .call _ (.liquidate _ _ borrower _) => ∀ position,
      lp.positions borrower = some position → position.borrowAmount ≠ 0 →
        position.Fresh lp.reserve
  | .view user => ∀ position, lp.positions user = some position →
      position.borrowAmount ≠ 0 ∧ position.Fresh lp.reserve
  | _ => True

/-- An action that finds fresh debts checks the true debt. -/
theorem checksTrueDebt_of_fresh {lp : LendingPool} {action : Action}
    (h : FindsFreshDebt lp action) : ChecksTrueDebt lp action := by
  rcases action with ⟨config, call⟩ | active | cap | user
  · rcases call with ⟨block, op⟩ | ⟨block, liquidator, borrower, debtToRepay⟩
    · rcases op with ⟨user, amount⟩ | ⟨user, shareAmount⟩ | ⟨user, amount⟩ | ⟨user, amount⟩
      · trivial
      · exact fun lp' paid hok => withdraw_healthy h hok
      · exact fun lp' paid hok => borrow_healthy hok
      · trivial
    · intro factor hfactor
      obtain ⟨rfl, position, hposition, hdebt⟩ := liquidationFactor_eq_some_iff.mp hfactor
      refine healthFactors_eq fun position' hposition' => ?_
      obtain rfl := Option.some.inj (hposition.symm.trans hposition')
      exact ⟨hdebt, h position hposition hdebt⟩
  · trivial
  · trivial
  · have hone := healthFactors_eq h
    exact ⟨hone, fun factor hfactor =>
      (liquidationFactor_eq_some_iff.mp hfactor).1.trans hone⟩

/-- In every run of a reserve whose actions find fresh debts, the checks use the true
debt. -/
theorem runs_check_true_debt (balances : Address → Word) (block : UInt64)
    (collateralFactor liquidationBonus : ℤ) (rateModel : Option InterestRateModel)
    (actions : List Action)
    (hfresh : Along act FindsFreshDebt
      (newReserve balances block collateralFactor liquidationBonus rateModel) actions) :
    Along act ChecksTrueDebt
      (newReserve balances block collateralFactor liquidationBonus rateModel) actions :=
  Along.imp_of_invariant (I := fun _ => True) (fun _ _ _ _ => trivial)
    (fun _ _ _ => checksTrueDebt_of_fresh) actions trivial hfresh

/-! ## Sample runs -/

/-- The reserve of the samples. -/
def emptyReserve : LendingPool :=
  newReserve (fun _ => 5000 * 10 ^ 18) 1 (75 * ray / 100) (5 * ray / 100)
    (some defaultInterestRateModel)

/-- A borrower near the limit, a year of interest, and a withdrawal of a twentieth. -/
def staleWithdrawal : List Action :=
  [.call defaultLiquidatorConfig (.operate 1 (.supply 1 (1000 * ray))),
    .call defaultLiquidatorConfig (.operate 1 (.borrow 1 (700 * ray))),
    .call defaultLiquidatorConfig (.operate 15768001 (.withdraw 1 (60 * ray))),
    .view 1]

/-- The reserve before that withdrawal. -/
def nearLimit : LendingPool := (staleWithdrawal.take 2).foldl act emptyReserve

instance (reserve : Reserve) (position : LendingPosition) :
    Decidable (position.Healthy reserve) :=
  inferInstanceAs (Decidable (_ ∨ _))

instance (reserve : Reserve) (position : LendingPosition) :
    Decidable (position.Fresh reserve) :=
  inferInstanceAs (Decidable (_ ∨ _))

/-- The withdrawal passes on the debt of a year ago, and the views name two factors after it. -/
theorem stale_debt_passes :
    ¬ ∀ (balances : Address → Word) (block : UInt64) (collateralFactor liquidationBonus : ℤ)
      (rateModel : Option InterestRateModel) (actions : List Action),
      Along act ChecksTrueDebt
        (newReserve balances block collateralFactor liquidationBonus rateModel) actions := by
  intro h
  obtain ⟨-, -, hwithdraw, -, -⟩ := h (fun _ => 5000 * 10 ^ 18) 1 (75 * ray / 100)
    (5 * ray / 100) (some defaultInterestRateModel) staleWithdrawal
  have hok : (withdraw nearLimit 15768001 1 (60 * ray)).2 = .ok 61058399999945870400 := by
    decide
  have hposition : (withdraw nearLimit 15768001 1 (60 * ray)).1.positions 1 =
      some ⟨940 * ray, 700 * ray, ray⟩ := by decide
  have hhealthy := hwithdraw _ _ (Prod.ext rfl hok) _ hposition
  revert hhealthy
  decide

/-- The same borrower, brought up to date by a repayment before the withdrawal, the look and a
liquidation that finds a healthy position. -/
def freshWithdrawal : List Action :=
  [.call defaultLiquidatorConfig (.operate 1 (.supply 1 (1000 * ray))),
    .call defaultLiquidatorConfig (.operate 1 (.borrow 1 (700 * ray))),
    .call defaultLiquidatorConfig (.operate 15768001 (.repay 1 ray)),
    .call defaultLiquidatorConfig (.operate 15768001 (.withdraw 1 (10 * ray))),
    .view 1,
    .call defaultLiquidatorConfig (.liquidate 15768001 2 1 ray)]

theorem fresh_of_found {lp : LendingPool} {reserve : Reserve} {user : Address}
    (found : LendingPosition) (hfound : lp.positions user = some found)
    (h : found.borrowAmount ≠ 0 ∧ found.Fresh reserve) :
    ∀ position, lp.positions user = some position →
      position.borrowAmount ≠ 0 ∧ position.Fresh reserve := by
  intro position hposition
  obtain rfl := Option.some.inj (hfound.symm.trans hposition)
  exact h

/-- The debt that the repayment left. -/
def bookedDebt (supplyShares : ℤ) : LendingPosition :=
  ⟨supplyShares, 718599999998997600000, 1027999999998568000⟩

theorem runs_check_true_debt_repaid :
    Along act ChecksTrueDebt emptyReserve freshWithdrawal ∧
      getHealthFactor (freshWithdrawal.foldl act emptyReserve) 1 = 1051485805733905031 :=
  ⟨runs_check_true_debt (fun _ => 5000 * 10 ^ 18) 1 (75 * ray / 100) (5 * ray / 100)
      (some defaultInterestRateModel) freshWithdrawal
      ⟨trivial, trivial, trivial,
        fun _ position hposition =>
          (fresh_of_found (bookedDebt (1000 * ray)) (by decide) (by decide)
            position hposition).2,
        fresh_of_found (bookedDebt (990 * ray)) (by decide) (by decide),
        fun position hposition _ =>
          (fresh_of_found (bookedDebt (990 * ray)) (by decide) (by decide)
            position hposition).2,
        trivial⟩,
    by decide⟩

end LuxPrecompile.Lending
