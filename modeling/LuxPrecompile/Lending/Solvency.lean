import LuxPrecompile.Lending.Pool
import LuxPrecompile.Support.Runs
import LuxPrecompile.Support.Sums

/-!
# Solvency of the reserve

As long as no interest accrues, the suppliers' claims are the cash and the debts, and
once the debts are repaid every supplier can leave.  Interest raises the claims by a rate
per unit of total supply and leaves the total supply as it was, which ends both.
-/

namespace LuxPrecompile.Lending

open Evm Support

/-! ## Runs -/

/-- A call on the reserve. -/
inductive Call
  | operate (block : UInt64) (op : Op)
  | liquidate (block : UInt64) (liquidator borrower : Address) (debtToRepay : ℤ)
deriving DecidableEq

namespace Call

def block : Call → UInt64
  | .operate block _ => block
  | .liquidate block _ _ _ => block

/-- The amount a call names. -/
def amount : Call → ℤ
  | .operate _ op => op.amount
  | .liquidate _ _ _ debtToRepay => debtToRepay

end Call

/-- The pool with the number of calls it has seen. -/
structure Ledger where
  lp : LendingPool
  calls : ℕ

section Runs

variable (config : LiquidatorConfig)

def perform (lp : LendingPool) : Call → LendingPool × Except Error ℤ
  | .operate block op => operate lp block op
  | .liquidate _ liquidator borrower debtToRepay =>
      liquidate lp config liquidator borrower debtToRepay

/-- The pool after a call. -/
def record (l : Ledger) (call : Call) : Ledger := ⟨(perform config l.lp call).1, l.calls + 1⟩

end Runs

/-! ## The property -/

/-- A sum over the positions. -/
def LendingPool.total (lp : LendingPool) (f : LendingPosition → ℤ) : ℤ :=
  ∑ user, (lp.positions user).elim 0 f

/-- What a position can withdraw. -/
def LendingPosition.claim (reserve : Reserve) (position : LendingPosition) : ℤ :=
  position.supplyShares * reserve.exchangeRate / ray

/-- What a position owes now. -/
def LendingPosition.debt (reserve : Reserve) (position : LendingPosition) : ℤ :=
  position.borrowAmount * reserve.borrowIndex / position.borrowIndex

/-- Suppliers leave one after the other, each with all shares. -/
def Leave : LendingPool → List (UInt64 × Address) → Prop
  | _, [] => True
  | lp, (block, user) :: exits =>
      ∀ position, lp.positions user = some position → position.supplyShares ≠ 0 →
        ∃ lp' underlyingAmount,
          withdraw lp block user position.supplyShares = (lp', .ok underlyingAmount) ∧
            lp'.positions user = some { position with supplyShares := 0 } ∧ Leave lp' exits

/-- No position owes anything. -/
def Repaid (lp : LendingPool) : Prop :=
  ∀ user position, lp.positions user = some position → position.borrowAmount = 0

/-- What holds between calls: claims are covered up to a unit a call, and without debts
every supplier can leave, in any order. -/
structure Sound (l : Ledger) : Prop where
  solvent : l.lp.total (LendingPosition.claim l.lp.reserve) ≤
    l.lp.cash + l.lp.total (LendingPosition.debt l.lp.reserve) - l.lp.reserve.totalReserves +
      l.calls
  liquid : Repaid l.lp → ∀ exits, Leave l.lp exits

/-- The interest due in a block is zero. -/
def NoInterest (lp : LendingPool) (block : UInt64) : Prop :=
  ∀ model interest, interestDue lp block = some (model, interest) → interest = 0

/-- An operation gets to its accrual. -/
def Op.Accrues (lp : LendingPool) : Op → Prop
  | .supply _ amount =>
      lp.reserve.isActive = true ∧ lp.reserve.isFrozen = false ∧ 0 < amount ∧
        (0 < lp.reserve.supplyCap → lp.reserve.totalSupply + amount ≤ lp.reserve.supplyCap)
  | .withdraw user _ =>
      lp.reserve.isActive = true ∧
        ∃ position, lp.positions user = some position ∧ position.supplyShares ≠ 0
  | .borrow _ amount =>
      lp.reserve.isActive = true ∧ lp.reserve.isBorrowEnabled = true ∧ 0 < amount ∧
        (0 < lp.reserve.borrowCap → lp.reserve.totalBorrows + amount ≤ lp.reserve.borrowCap)
  | .repay user _ => ∃ position, lp.positions user = some position ∧ position.borrowAmount ≠ 0

/-- What an operation pays in comes from another account and fits the balance of the
pool. -/
def Op.PaysIn (lp : LendingPool) : Op → Prop
  | .supply user amount => user ≠ lendingPoolAddr ∧ lp.cash + amount < 2 ^ 256
  | .repay user amount => user ≠ lendingPoolAddr ∧ ∀ position,
      lp.positions user = some position → lp.cash + min position.borrowAmount amount < 2 ^ 256
  | _ => True

/-- An operation that gets to its accrual finds no interest, and is paid in full. -/
def Clean (l : Ledger) : Call → Prop
  | .operate block op => op.Accrues l.lp → NoInterest l.lp block ∧ op.PaysIn l.lp
  | .liquidate _ _ _ _ => True

/-! ## The cash -/

theorem LendingPool.cash_payIn {lp : LendingPool} {user : Address} {amount : ℤ}
    (huser : user ≠ lendingPoolAddr) (hamount : 0 ≤ amount) (hfits : lp.cash + amount < 2 ^ 256) :
    (lp.transferAsset user lendingPoolAddr amount).cash = lp.cash + amount := by
  lift amount to ℕ using hamount
  have hbalance : (lp.transferAsset user lendingPoolAddr amount).balances lendingPoolAddr =
      lp.balances lendingPoolAddr + BitVec.ofInt 256 amount := by
    simp only [transferAsset, Function.update_self, Function.update_of_ne huser.symm]
  rw [cash] at hfits
  rw [cash, cash, hbalance, BitVec.toNat_add, BitVec.toNat_ofInt]
  omega

/-- A payment that the pool can make costs it no more than the amount. -/
theorem LendingPool.cash_payOut {lp : LendingPool} (user : Address) {amount : ℤ}
    (hamount : 0 ≤ amount) (hle : amount ≤ lp.cash) :
    lp.cash - amount ≤ (lp.transferAsset lendingPoolAddr user amount).cash := by
  lift amount to ℕ using hamount
  have hbound := (lp.balances lendingPoolAddr).isLt
  rw [cash] at hle
  rw [cash, cash]
  by_cases huser : user = lendingPoolAddr
  · have hbalance : (lp.transferAsset lendingPoolAddr user amount).balances lendingPoolAddr =
        lp.balances lendingPoolAddr := by
      simp only [transferAsset, huser, Function.update_self]
      bv_omega
    rw [hbalance]
    omega
  · have hbalance : (lp.transferAsset lendingPoolAddr user amount).balances lendingPoolAddr =
        lp.balances lendingPoolAddr - BitVec.ofInt 256 amount := by
      simp only [transferAsset, Function.update_of_ne (Ne.symm huser), Function.update_self]
    rw [hbalance, BitVec.toNat_sub, BitVec.toNat_ofInt]
    omega

/-! ## A reserve without interest -/

/-- A position that its supply covers. -/
structure LendingPosition.Covered (collateralFactor : ℤ) (position : LendingPosition) : Prop where
  shares : 0 ≤ position.supplyShares
  borrow : 0 ≤ position.borrowAmount
  index : position.borrowIndex = ray
  health : position.borrowAmount ≠ 0 →
    position.borrowAmount ≤ position.supplyShares * collateralFactor / ray

/-- A pool at its first rates. -/
structure Flat (lp : LendingPool) : Prop where
  active : lp.reserve.isActive = true
  exchangeRate : lp.reserve.exchangeRate = ray
  borrowIndex : lp.reserve.borrowIndex = ray
  reserves : lp.reserve.totalReserves = 0
  positions : ∀ user position, lp.positions user = some position →
    position.Covered lp.reserve.collateralFactor
  supply : lp.reserve.totalSupply = lp.total LendingPosition.supplyShares
  borrows : lp.reserve.totalBorrows = lp.total LendingPosition.borrowAmount
  cash : lp.reserve.totalSupply - lp.reserve.totalBorrows ≤ lp.cash

theorem newReserve_flat (balances : Address → Word) (block : UInt64)
    (collateralFactor liquidationBonus : ℤ) (rateModel : Option InterestRateModel) :
    Flat (newReserve balances block collateralFactor liquidationBonus rateModel) where
  active := rfl
  exchangeRate := rfl
  borrowIndex := rfl
  reserves := rfl
  positions _ _ h := by cases h
  supply := Finset.sum_const_zero.symm
  borrows := Finset.sum_const_zero.symm
  cash := Int.natCast_nonneg _

theorem ray_pos : 0 < ray := by decide

theorem mul_ray_div (x : ℤ) : x * ray / ray = x := Int.mul_ediv_cancel _ ray_pos.ne'

/-- One position and the totals change together. -/
theorem Flat.move {lp lp' : LendingPool} (h : Flat lp) {user : Address}
    {position : LendingPosition}
    (hpositions : lp'.positions = Function.update lp.positions user (some position))
    (hreserve : lp'.reserve = { lp.reserve with
      totalSupply := lp'.reserve.totalSupply
      totalBorrows := lp'.reserve.totalBorrows
      lastUpdateBlock := lp'.reserve.lastUpdateBlock })
    (hcovered : position.Covered lp.reserve.collateralFactor)
    (hsupply : lp'.reserve.totalSupply +
        (lp.positions user).elim 0 LendingPosition.supplyShares =
      lp.reserve.totalSupply + position.supplyShares)
    (hborrows : lp'.reserve.totalBorrows +
        (lp.positions user).elim 0 LendingPosition.borrowAmount =
      lp.reserve.totalBorrows + position.borrowAmount)
    (hcash : lp'.reserve.totalSupply - lp'.reserve.totalBorrows ≤ lp'.cash) : Flat lp' := by
  have htotal : ∀ f : LendingPosition → ℤ,
      lp'.total f + (lp.positions user).elim 0 f = lp.total f + f position := by
    intro f
    have hself : (lp'.positions user).elim 0 f = f position := by
      rw [hpositions, Function.update_self, Option.elim_some]
    rw [LendingPool.total, LendingPool.total, ← hself]
    apply sum_add_of_eq_off user
    intro u hu
    rw [hpositions, Function.update_of_ne hu]
  have hfield := fun {α : Type} (f : Reserve → α) => congrArg f hreserve
  refine ⟨?_, ?_, ?_, ?_, ?_, ?_, ?_, hcash⟩
  · exact (hfield Reserve.isActive).trans h.active
  · exact (hfield Reserve.exchangeRate).trans h.exchangeRate
  · exact (hfield Reserve.borrowIndex).trans h.borrowIndex
  · exact (hfield Reserve.totalReserves).trans h.reserves
  · intro u p hp
    rw [hfield Reserve.collateralFactor]
    rw [hpositions, update_eq_some] at hp
    obtain ⟨-, rfl⟩ | ⟨-, hp⟩ := hp
    · exact hcovered
    · exact h.positions u p hp
  · have hsum := htotal LendingPosition.supplyShares
    linarith [h.supply]
  · have hsum := htotal LendingPosition.borrowAmount
    linarith [h.borrows]

/-- Without interest an accrual only moves the block. -/
theorem accrueInterest_eq {lp : LendingPool} {block : UInt64} (h : NoInterest lp block) :
    ∃ lastUpdateBlock, accrueInterest lp block =
      lp.saveReserve { lp.reserve with lastUpdateBlock := lastUpdateBlock } := by
  rw [accrueInterest]
  split_ifs
  · exact ⟨lp.reserve.lastUpdateBlock, rfl⟩
  · refine ⟨block, ?_⟩
    cases hdue : interestDue lp block with
    | none => rfl
    | some due =>
        obtain ⟨model, interest⟩ := due
        have haccrue : lp.reserve.accrue model 0 = lp.reserve := by
          simp [Reserve.accrue, InterestRateModel.getReserveAmount]
        dsimp only
        rw [h model interest hdue, haccrue]

theorem Flat.touch {lp : LendingPool} (h : Flat lp) (lastUpdateBlock : UInt64) :
    Flat (lp.saveReserve { lp.reserve with lastUpdateBlock := lastUpdateBlock }) where
  active := h.active
  exchangeRate := h.exchangeRate
  borrowIndex := h.borrowIndex
  reserves := h.reserves
  positions := h.positions
  supply := h.supply
  borrows := h.borrows
  cash := h.cash

theorem Flat.accrueInterest {lp : LendingPool} (h : Flat lp) {block : UInt64}
    (hinterest : NoInterest lp block) :
    Flat (accrueInterest lp block) ∧ (accrueInterest lp block).cash = lp.cash ∧
      (accrueInterest lp block).positions = lp.positions := by
  obtain ⟨lastUpdateBlock, heq⟩ := accrueInterest_eq hinterest
  rw [heq]
  exact ⟨h.touch lastUpdateBlock, rfl, rfl⟩

theorem Flat.updateUserBorrow {lp : LendingPool} (h : Flat lp) {user : Address}
    {position : LendingPosition} (hposition : lp.positions user = some position) :
    updateUserBorrow position lp.reserve = position := by
  have hindex : position.borrowIndex = 0 ∨ lp.reserve.borrowIndex = position.borrowIndex :=
    .inr (h.borrowIndex.trans (h.positions user position hposition).index.symm)
  rw [Lending.updateUserBorrow, if_pos hindex, ite_self]

theorem LendingPool.savePosition_self {lp : LendingPool} {user : Address}
    {position : LendingPosition} (h : lp.positions user = some position) :
    lp.savePosition user position = lp := by
  rw [savePosition, ← h, Function.update_eq_self]

theorem Flat.payOut {lp lp' : LendingPool} (h : Flat lp) {user : Address} {amount : ℤ}
    (hamount : 0 ≤ amount)
    (havailable : amount ≤ lp.reserve.totalSupply - lp.reserve.totalBorrows)
    (hreserve : lp'.reserve.totalSupply - lp'.reserve.totalBorrows =
      lp.reserve.totalSupply - lp.reserve.totalBorrows - amount)
    (hbalances : lp'.balances = (lp.transferAsset lendingPoolAddr user amount).balances) :
    lp'.reserve.totalSupply - lp'.reserve.totalBorrows ≤ lp'.cash := by
  have hcash := LendingPool.cash_payOut user hamount (havailable.trans h.cash)
  have hle := h.cash
  rw [LendingPool.cash, hbalances, ← LendingPool.cash]
  omega

/-- More supply covers as much debt. -/
theorem LendingPosition.Covered.supply {collateralFactor amount : ℤ} {position : LendingPosition}
    (h : position.Covered collateralFactor) (hamount : 0 ≤ amount) :
    { position with supplyShares := position.supplyShares + amount }.Covered collateralFactor := by
  refine ⟨add_nonneg h.shares hamount, h.borrow, h.index, fun hdebt => ?_⟩
  have hle := h.health hdebt
  refine hle.trans (Int.ediv_le_ediv ray_pos ?_)
  have hfactor : 0 ≤ collateralFactor := by
    by_contra hneg
    have hproduct := mul_nonpos_of_nonneg_of_nonpos h.shares (not_le.mp hneg).le
    have hquotient := Int.ediv_le_ediv ray_pos hproduct
    rw [Int.zero_ediv] at hquotient
    have hborrow := h.borrow
    change position.borrowAmount ≠ 0 at hdebt
    omega
  exact mul_le_mul_of_nonneg_right (le_add_of_nonneg_right hamount) hfactor

theorem Op.accrues_supply {lp : LendingPool} (user : Address) {amount : ℤ}
    (hfrozen : ¬ (lp.reserve.isActive = false ∨ lp.reserve.isFrozen = true))
    (hamount : ¬ amount ≤ 0)
    (hcap : ¬ (0 < lp.reserve.supplyCap ∧
      lp.reserve.supplyCap < lp.reserve.totalSupply + amount)) :
    (Op.supply user amount).Accrues lp := by
  obtain ⟨hactive, hfrozen⟩ := not_or.mp hfrozen
  exact ⟨Bool.eq_true_of_not_eq_false hactive, Bool.eq_false_of_not_eq_true hfrozen,
    not_le.mp hamount, fun hlimit => not_lt.mp fun hover => hcap ⟨hlimit, hover⟩⟩

theorem Op.accrues_borrow {lp : LendingPool} (user : Address) {amount : ℤ}
    (hdisabled : ¬ (lp.reserve.isActive = false ∨ lp.reserve.isBorrowEnabled = false))
    (hamount : ¬ amount ≤ 0)
    (hcap : ¬ (0 < lp.reserve.borrowCap ∧
      lp.reserve.borrowCap < lp.reserve.totalBorrows + amount)) :
    (Op.borrow user amount).Accrues lp := by
  obtain ⟨hactive, henabled⟩ := not_or.mp hdisabled
  exact ⟨Bool.eq_true_of_not_eq_false hactive, Bool.eq_true_of_not_eq_false henabled,
    not_le.mp hamount, fun hlimit => not_lt.mp fun hover => hcap ⟨hlimit, hover⟩⟩

theorem supply_flat {l : Ledger} (h : Flat l.lp) {block : UInt64} {user : Address} {amount : ℤ}
    (hclean : Clean l (.operate block (.supply user amount))) :
    Flat (supply l.lp block user amount).1 := by
  rw [supply]
  split_ifs with hfrozen hamount hcap
  · exact h
  · exact h
  · exact h
  · obtain ⟨hinterest, huser, hfits⟩ := hclean (Op.accrues_supply user hfrozen hamount hcap)
    obtain ⟨hflat, hbalances, -⟩ := h.accrueInterest hinterest
    rw [← hbalances] at hfits
    dsimp only
    generalize Lending.accrueInterest l.lp block = lp' at hflat hfits
    have hold : ((lp'.positions user).getD ⟨0, 0, lp'.reserve.borrowIndex⟩).Covered
          lp'.reserve.collateralFactor ∧
        (lp'.positions user).elim 0 LendingPosition.supplyShares =
          ((lp'.positions user).getD ⟨0, 0, lp'.reserve.borrowIndex⟩).supplyShares ∧
        (lp'.positions user).elim 0 LendingPosition.borrowAmount =
          ((lp'.positions user).getD ⟨0, 0, lp'.reserve.borrowIndex⟩).borrowAmount := by
      cases hposition : lp'.positions user with
      | none => exact ⟨⟨le_rfl, le_rfl, hflat.borrowIndex, fun hne => absurd rfl hne⟩, rfl, rfl⟩
      | some position => exact ⟨hflat.positions user position hposition, rfl, rfl⟩
    obtain ⟨hcovered, hshares, hborrow⟩ := hold
    rw [hflat.exchangeRate, mul_ray_div]
    refine hflat.move rfl rfl (hcovered.supply (not_le.mp hamount).le) ?_ ?_ ?_
    · rw [hshares]
      dsimp only [LendingPool.saveReserve, LendingPool.savePosition, LendingPool.transferAsset]
      ring
    · rw [hborrow]
      rfl
    · have hcash := LendingPool.cash_payIn huser (not_le.mp hamount).le hfits
      have hle := hflat.cash
      change lp'.reserve.totalSupply + amount - lp'.reserve.totalBorrows ≤
        (lp'.transferAsset user lendingPoolAddr amount).cash
      omega

/-- The health check of a withdrawal leaves the debt covered. -/
theorem covered_of_healthy {reserve : Reserve} {position : LendingPosition} {withdrawShares : ℤ}
    (hrate : reserve.exchangeRate = ray) (h : position.Covered reserve.collateralFactor)
    (hle : withdrawShares ≤ position.supplyShares)
    (hhealth : withdrawalUnhealthy position withdrawShares reserve = false) :
    { position with supplyShares := position.supplyShares - withdrawShares }.Covered
      reserve.collateralFactor := by
  refine ⟨sub_nonneg.mpr hle, h.borrow, h.index, fun hdebt => ?_⟩
  have hpos : 0 < position.borrowAmount := lt_of_le_of_ne h.borrow (Ne.symm hdebt)
  simp only [withdrawalUnhealthy, decide_eq_false_iff_not, not_and, not_lt,
    calculateHealthFactor, if_neg (show position.borrowAmount ≠ 0 from hdebt), hrate,
    mul_ray_div] at hhealth
  have hfactor := (Int.le_ediv_iff_mul_le hpos).mp (hhealth hpos)
  rw [mul_comm ray] at hfactor
  exact le_of_mul_le_mul_right hfactor ray_pos

theorem withdraw_flat {lp : LendingPool} (h : Flat lp) {block : UInt64} {user : Address}
    {shareAmount : ℤ} (hamount : 0 < shareAmount)
    (hinterest : (Op.withdraw user shareAmount).Accrues lp → NoInterest lp block) :
    Flat (withdraw lp block user shareAmount).1 := by
  rw [withdraw, if_neg (by rw [h.active]; decide)]
  cases hposition : lp.positions user with
  | none => exact h
  | some position =>
      dsimp only
      by_cases hshares : position.supplyShares = 0
      · rw [if_pos hshares]
        exact h
      rw [if_neg hshares]
      obtain ⟨hflat, -, hpositions⟩ :=
        h.accrueInterest (hinterest ⟨h.active, position, hposition, hshares⟩)
      generalize accrueInterest lp block = lp' at hflat hpositions
      rw [← hpositions] at hposition
      have hcovered := hflat.positions user position hposition
      have howned := hcovered.shares
      rw [hflat.exchangeRate, mul_ray_div]
      have hcapped : 0 ≤ (if position.supplyShares < shareAmount then position.supplyShares
            else shareAmount) ∧
          (if position.supplyShares < shareAmount then position.supplyShares
            else shareAmount) ≤ position.supplyShares := by
        split_ifs <;> omega
      generalize (if position.supplyShares < shareAmount then position.supplyShares
        else shareAmount) = withdrawShares at hcapped ⊢
      split_ifs with hunhealthy hliquidity
      · exact hflat
      · exact hflat
      · have hleft := covered_of_healthy hflat.exchangeRate hcovered hcapped.2
          (Bool.eq_false_of_not_eq_true hunhealthy)
        refine hflat.move rfl rfl hleft ?_ ?_ ?_
        · rw [hposition, Option.elim_some]
          dsimp only [LendingPool.saveReserve, LendingPool.savePosition,
            LendingPool.transferAsset]
          ring
        · rw [hposition, Option.elim_some]
          rfl
        · exact hflat.payOut hcapped.1 (not_lt.mp hliquidity)
            (by dsimp only [LendingPool.saveReserve, LendingPool.savePosition,
                  LendingPool.transferAsset]
                ring) rfl

theorem borrow_flat {lp : LendingPool} (h : Flat lp) {block : UInt64} {user : Address}
    {amount : ℤ} (hinterest : (Op.borrow user amount).Accrues lp → NoInterest lp block) :
    Flat (borrow lp block user amount).1 := by
  rw [borrow]
  split_ifs with hdisabled hamount hcap
  · exact h
  · exact h
  · exact h
  · obtain ⟨hflat, -⟩ :=
      h.accrueInterest (hinterest (Op.accrues_borrow user hdisabled hamount hcap))
    dsimp only
    generalize accrueInterest lp block = lp' at hflat
    cases hposition : lp'.positions user with
    | none => exact hflat
    | some position =>
        dsimp only
        rw [hflat.updateUserBorrow hposition, LendingPool.savePosition_self hposition]
        have hcovered := hflat.positions user position hposition
        split_ifs with hltv hliquidity
        · exact hflat
        · exact hflat
        · rw [hflat.exchangeRate, mul_ray_div] at hltv
          refine hflat.move rfl rfl ⟨hcovered.shares, ?_, hflat.borrowIndex,
            fun _ => not_lt.mp hltv⟩ ?_ ?_ ?_
          · exact add_nonneg hcovered.borrow (not_le.mp hamount).le
          · rw [hposition, Option.elim_some]
            rfl
          · rw [hposition, Option.elim_some]
            dsimp only [LendingPool.saveReserve, LendingPool.savePosition,
              LendingPool.transferAsset]
            ring
          · exact hflat.payOut (not_le.mp hamount).le (not_lt.mp hliquidity)
              (by dsimp only [LendingPool.saveReserve, LendingPool.savePosition,
                    LendingPool.transferAsset]
                  ring) rfl

theorem repay_flat {l : Ledger} (h : Flat l.lp) {block : UInt64} {user : Address} {amount : ℤ}
    (hamount : 0 < amount) (hclean : Clean l (.operate block (.repay user amount))) :
    Flat (repay l.lp block user amount).1 := by
  rw [repay]
  cases hposition : l.lp.positions user with
  | none => exact h
  | some position =>
      dsimp only
      by_cases hdebt : position.borrowAmount = 0
      · rw [if_pos hdebt]
        exact h
      rw [if_neg hdebt]
      obtain ⟨hinterest, huser, hpaid⟩ := hclean ⟨position, hposition, hdebt⟩
      have hfits := hpaid position hposition
      obtain ⟨hflat, hcash, hpositions⟩ := h.accrueInterest hinterest
      rw [← hcash] at hfits
      generalize accrueInterest l.lp block = lp' at hflat hpositions hfits
      rw [← hpositions] at hposition
      rw [hflat.updateUserBorrow hposition]
      have hcovered := hflat.positions user position hposition
      have hborrow := hcovered.borrow
      have hrepay : 0 ≤ (if position.borrowAmount < amount then position.borrowAmount else amount) ∧
          (if position.borrowAmount < amount then position.borrowAmount else amount) =
            min position.borrowAmount amount := by
        split_ifs <;> omega
      generalize (if position.borrowAmount < amount then position.borrowAmount else amount) =
        repayAmount at hrepay ⊢
      obtain ⟨hnonneg, heq⟩ := hrepay
      rw [← heq] at hfits
      have hhealth := hcovered.health hdebt
      refine hflat.move rfl rfl ⟨hcovered.shares, ?_, hflat.borrowIndex, fun _ => ?_⟩ ?_ ?_ ?_
      · dsimp only
        omega
      · dsimp only
        linarith
      · rw [hposition, Option.elim_some]
        rfl
      · rw [hposition, Option.elim_some]
        dsimp only [LendingPool.saveReserve, LendingPool.savePosition, LendingPool.transferAsset]
        ring
      · have hreceived := LendingPool.cash_payIn huser hnonneg hfits
        have hle := hflat.cash
        change lp'.reserve.totalSupply - (lp'.reserve.totalBorrows - repayAmount) ≤
          (lp'.transferAsset user lendingPoolAddr repayAmount).cash
        omega

/-- No position of a flat pool can be liquidated. -/
theorem liquidate_flat {lp : LendingPool} (h : Flat lp) (config : LiquidatorConfig)
    (liquidator borrower : Address) (debtToRepay : ℤ) :
    (liquidate lp config liquidator borrower debtToRepay).1 = lp := by
  rw [liquidate]
  cases hposition : lp.positions borrower with
  | none => rfl
  | some position =>
      dsimp only
      by_cases hdebt : position.borrowAmount = 0
      · rw [if_pos hdebt]
      · have hcovered := h.positions borrower position hposition
        have hpos : 0 < position.borrowAmount := lt_of_le_of_ne hcovered.borrow (Ne.symm hdebt)
        have hhealthy : liquidationThreshold ≤ getHealthFactor lp borrower := by
          simp only [getHealthFactor, hposition, if_neg hdebt, calculateHealthFactor,
            h.exchangeRate, mul_ray_div, liquidationThreshold]
          rw [Int.le_ediv_iff_mul_le hpos, mul_comm ray]
          exact mul_le_mul_of_nonneg_right (hcovered.health hdebt) ray_pos.le
        rw [if_neg hdebt, if_pos hhealthy]

/-- A clean call keeps the pool flat. -/
theorem Flat.step {l : Ledger} (h : Flat l.lp) (config : LiquidatorConfig) {call : Call}
    (hamount : 0 < call.amount) (hclean : Clean l call) : Flat (record config l call).lp := by
  cases call with
  | operate block op =>
      cases op with
      | supply user amount => exact supply_flat h hclean
      | withdraw user shareAmount =>
          exact withdraw_flat h hamount fun haccrues => (hclean haccrues).1
      | borrow user amount => exact borrow_flat h fun haccrues => (hclean haccrues).1
      | repay user amount => exact repay_flat h hamount hclean
  | liquidate block liquidator borrower debtToRepay =>
      change Flat (liquidate l.lp config liquidator borrower debtToRepay).1
      rw [liquidate_flat h]
      exact h

/-! ## Solvency -/

theorem LendingPool.total_congr {lp : LendingPool} {f g : LendingPosition → ℤ}
    (h : ∀ user position, lp.positions user = some position → f position = g position) :
    lp.total f = lp.total g := by
  apply Finset.sum_congr rfl
  intro user _
  cases hposition : lp.positions user with
  | none => rfl
  | some position => exact h user position hposition

/-- The cash and the debts cover the claims. -/
theorem Flat.solvent {lp : LendingPool} (h : Flat lp) :
    lp.total (LendingPosition.claim lp.reserve) ≤
      lp.cash + lp.total (LendingPosition.debt lp.reserve) - lp.reserve.totalReserves := by
  have hclaims : lp.total (LendingPosition.claim lp.reserve) = lp.reserve.totalSupply := by
    rw [h.supply]
    apply LendingPool.total_congr
    intro user position _
    rw [LendingPosition.claim, h.exchangeRate, mul_ray_div]
  have hdebts : lp.total (LendingPosition.debt lp.reserve) = lp.reserve.totalBorrows := by
    rw [h.borrows]
    apply LendingPool.total_congr
    intro user position hposition
    rw [LendingPosition.debt, h.borrowIndex, (h.positions user position hposition).index,
      mul_ray_div]
  have hcash := h.cash
  rw [hclaims, hdebts, h.reserves]
  omega

theorem Flat.totalBorrows_eq_zero {lp : LendingPool} (h : Flat lp) (hrepaid : Repaid lp) :
    lp.reserve.totalBorrows = 0 := by
  rw [h.borrows]
  apply Finset.sum_eq_zero
  intro user _
  cases hposition : lp.positions user with
  | none => rfl
  | some position => exact hrepaid user position hposition

theorem Flat.noInterest {lp : LendingPool} (h : Flat lp) (hrepaid : Repaid lp) (block : UInt64) :
    NoInterest lp block := by
  intro model interest hdue
  rw [interestDue, h.totalBorrows_eq_zero hrepaid, if_pos rfl, ite_self] at hdue
  cases hdue

theorem Flat.shares_le {lp : LendingPool} (h : Flat lp) {user : Address}
    {position : LendingPosition} (hposition : lp.positions user = some position) :
    position.supplyShares ≤ lp.reserve.totalSupply := by
  have hle : (lp.positions user).elim 0 LendingPosition.supplyShares ≤
      lp.total LendingPosition.supplyShares := by
    apply Finset.single_le_sum _ (Finset.mem_univ user)
    intro u _
    cases hu : lp.positions u with
    | none => exact le_rfl
    | some other => exact (h.positions u other hu).shares
  rwa [hposition, Option.elim_some, ← h.supply] at hle

/-- A supplier of a pool without debts can leave. -/
theorem withdraw_all {lp : LendingPool} (h : Flat lp) (hrepaid : Repaid lp) (block : UInt64)
    {user : Address} {position : LendingPosition} (hposition : lp.positions user = some position)
    (hshares : position.supplyShares ≠ 0) :
    ∃ lp', withdraw lp block user position.supplyShares = (lp', .ok position.supplyShares) ∧
      lp'.positions =
        Function.update lp.positions user (some { position with supplyShares := 0 }) := by
  obtain ⟨lastUpdateBlock, haccrue⟩ := accrueInterest_eq (h.noInterest hrepaid block)
  have hflat := h.touch lastUpdateBlock
  rw [withdraw, if_neg (by rw [h.active]; decide), hposition]
  dsimp only
  rw [if_neg hshares, haccrue]
  generalize hlp : lp.saveReserve { lp.reserve with lastUpdateBlock := lastUpdateBlock } = lp'
    at hflat
  have hpositions : lp'.positions = lp.positions := hlp ▸ rfl
  have hposition' : lp'.positions user = some position := hpositions ▸ hposition
  have hhealthy : withdrawalUnhealthy position position.supplyShares lp'.reserve ≠ true := by
    simp [withdrawalUnhealthy, hrepaid user position hposition]
  have hliquid : ¬ lp'.reserve.totalSupply - lp'.reserve.totalBorrows < position.supplyShares := by
    have hrepaid' : Repaid lp' := fun u p hp => hrepaid u p (hpositions ▸ hp)
    rw [hflat.totalBorrows_eq_zero hrepaid', sub_zero, not_lt]
    exact hflat.shares_le hposition'
  rw [hflat.exchangeRate, if_neg (lt_irrefl _), mul_ray_div, if_neg hhealthy, if_neg hliquid]
  refine ⟨_, rfl, ?_⟩
  rw [← hpositions, sub_self]
  rfl

/-- Suppliers of a pool without debts can leave in any order. -/
theorem Flat.leave {lp : LendingPool} (h : Flat lp) (hrepaid : Repaid lp)
    (exits : List (UInt64 × Address)) : Leave lp exits := by
  induction exits generalizing lp with
  | nil => trivial
  | cons exit exits ih =>
      obtain ⟨block, user⟩ := exit
      intro position hposition hshares
      obtain ⟨lp', hwithdraw, hpositions⟩ := withdraw_all h hrepaid block hposition hshares
      refine ⟨lp', _, hwithdraw, ?_, ih ?_ ?_⟩
      · rw [hpositions, Function.update_self]
      · have hpos : 0 < position.supplyShares :=
          lt_of_le_of_ne (h.positions user position hposition).shares (Ne.symm hshares)
        have hflat : Flat (withdraw lp block user position.supplyShares).1 :=
          withdraw_flat h hpos fun _ => h.noInterest hrepaid block
        rwa [hwithdraw] at hflat
      · intro u p hp
        rw [hpositions, update_eq_some] at hp
        obtain ⟨-, rfl⟩ | ⟨-, hp⟩ := hp
        · exact hrepaid user position hposition
        · exact hrepaid u p hp

/-- A reserve that accrues no interest and is paid in full stays solvent and lets its
suppliers go. -/
theorem reserve_solvency (config : LiquidatorConfig) (balances : Address → Word)
    (block : UInt64) (collateralFactor liquidationBonus : ℤ)
    (rateModel : Option InterestRateModel) (calls : List Call)
    (hpositive : ∀ call ∈ calls, 0 < call.amount)
    (hclean : Along (record config) Clean
      ⟨newReserve balances block collateralFactor liquidationBonus rateModel, 0⟩ calls) :
    Along (record config) (fun l call => Sound (record config l call))
      ⟨newReserve balances block collateralFactor liquidationBonus rateModel, 0⟩ calls := by
  have hamounts : Along (record config) (fun _ call => 0 < call.amount)
      ⟨newReserve balances block collateralFactor liquidationBonus rateModel, 0⟩ calls :=
    along_forall_iff.mpr hpositive
  refine Along.imp_of_invariant (I := fun l => Flat l.lp) ?_ ?_ calls
    (newReserve_flat balances block collateralFactor liquidationBonus rateModel)
    (hamounts.and hclean)
  · exact fun l call hl hcall => hl.step config hcall.1 hcall.2
  · intro l call hl hcall
    have hflat := hl.step config hcall.1 hcall.2
    refine ⟨?_, fun hrepaid exits => hflat.leave hrepaid exits⟩
    exact hflat.solvent.trans (le_add_of_nonneg_right (Int.natCast_nonneg _))

/-! ## Positions -/

theorem accrueInterest_positions (lp : LendingPool) (block : UInt64) :
    (accrueInterest lp block).positions = lp.positions := by
  rw [accrueInterest]
  split_ifs <;> rfl

/-- An operation leaves the positions of other users alone. -/
theorem operate_positions_of_ne (lp : LendingPool) (block : UInt64) (op : Op) {user : Address}
    (h : user ≠ op.user) : (operate lp block op).1.positions user = lp.positions user := by
  cases op with
  | supply u amount =>
      have hupdate := fun x => Function.update_of_ne h x lp.positions
      simp only [operate, supply]
      split_ifs
      · rfl
      · rfl
      · rfl
      · simp only [LendingPool.saveReserve, LendingPool.savePosition, LendingPool.transferAsset,
          accrueInterest_positions]
        exact hupdate _
  | withdraw u shareAmount =>
      have hupdate := fun x => Function.update_of_ne h x lp.positions
      simp only [operate, withdraw]
      cases lp.positions u with
      | none => split_ifs <;> rfl
      | some position =>
          dsimp only
          generalize (if position.supplyShares < shareAmount then position.supplyShares
            else shareAmount) = withdrawShares
          split_ifs
          · rfl
          · rfl
          · rw [accrueInterest_positions]
          · rw [accrueInterest_positions]
          · simp only [LendingPool.saveReserve, LendingPool.savePosition, LendingPool.transferAsset,
              accrueInterest_positions]
            exact hupdate _
  | borrow u amount =>
      have hupdate := fun x => Function.update_of_ne h x lp.positions
      simp only [operate, borrow, accrueInterest_positions]
      cases lp.positions u with
      | none =>
          dsimp only
          split_ifs
          · rfl
          · rfl
          · rfl
          · rw [accrueInterest_positions]
      | some position =>
          dsimp only
          split_ifs
          · rfl
          · rfl
          · rfl
          all_goals
            simp only [LendingPool.saveReserve, LendingPool.savePosition, LendingPool.transferAsset,
              accrueInterest_positions, Function.update_idem]
            exact hupdate _
  | repay u amount =>
      have hupdate := fun x => Function.update_of_ne h x lp.positions
      simp only [operate, repay]
      cases lp.positions u with
      | none => rfl
      | some position =>
          dsimp only
          by_cases hdebt : position.borrowAmount = 0
          · rw [if_pos hdebt]
          · rw [if_neg hdebt]
            simp only [LendingPool.saveReserve, LendingPool.savePosition, LendingPool.transferAsset,
              accrueInterest_positions]
            exact hupdate _

/-! ## Sample runs -/

/-- The configuration of `DefaultLiquidatorConfig`. -/
def defaultLiquidatorConfig : LiquidatorConfig := ⟨50 * ray / 100, 10 * ray / 100⟩

/-- The reserve of the samples, with the default rates. -/
def sampleReserve : Ledger :=
  ⟨newReserve (fun _ => 5000) 1 (75 * ray / 100) (5 * ray / 100) (some defaultInterestRateModel),
    0⟩

/-- A loan too small and too short to accrue a unit of interest. -/
def sampleRun : List Call :=
  [.operate 1 (.supply 1 1000), .operate 1 (.supply 2 500), .operate 1 (.borrow 1 700),
    .liquidate 40 2 1 350, .operate 50 (.repay 1 700)]

theorem noInterest_of_due {lp : LendingPool} {block : UInt64} (model : InterestRateModel)
    (h : interestDue lp block = some (model, 0)) : NoInterest lp block := by
  intro model' interest hdue
  rw [h] at hdue
  exact (Prod.mk.inj (Option.some.inj hdue)).2.symm

theorem noInterest_of_none {lp : LendingPool} {block : UInt64} (h : interestDue lp block = none) :
    NoInterest lp block := by
  intro model interest hdue
  rw [h] at hdue
  cases hdue

theorem paysIn_of_amount {lp : LendingPool} {user : Address} {amount : ℤ}
    (huser : user ≠ lendingPoolAddr) (hfits : lp.cash + amount < 2 ^ 256) :
    (Op.repay user amount).PaysIn lp := by
  refine ⟨huser, fun position _ => ?_⟩
  exact lt_of_le_of_lt (add_le_add_right (min_le_right _ _) _) hfits

theorem reserve_solvency_sample :
    Along (record defaultLiquidatorConfig)
        (fun l call => Sound (record defaultLiquidatorConfig l call)) sampleReserve sampleRun ∧
      (sampleRun.foldl (record defaultLiquidatorConfig) sampleReserve).lp.cash = 6500 :=
  ⟨reserve_solvency defaultLiquidatorConfig (fun _ => 5000) 1 (75 * ray / 100) (5 * ray / 100)
      (some defaultInterestRateModel) sampleRun (by decide)
      ⟨fun _ => ⟨noInterest_of_none (by decide), by decide, by decide⟩,
        fun _ => ⟨noInterest_of_none (by decide), by decide, by decide⟩,
        fun _ => ⟨noInterest_of_none (by decide), trivial⟩,
        trivial,
        fun _ => ⟨noInterest_of_due defaultInterestRateModel (by decide),
          paysIn_of_amount (by decide) (by decide)⟩,
        trivial⟩,
    by decide⟩

/-- A year of interest on half of the supply, and the only supplier cannot leave. -/
theorem interest_blocks_withdrawal :
    ¬ ∀ (config : LiquidatorConfig) (balances : Address → Word) (block : UInt64)
      (collateralFactor liquidationBonus : ℤ) (rateModel : Option InterestRateModel)
      (calls : List Call),
      (∀ call ∈ calls, 0 < call.amount) →
        calls.Pairwise (fun call call' => call.block ≤ call'.block) →
          Along (record config) (fun l call => Sound (record config l call))
            ⟨newReserve balances block collateralFactor liquidationBonus rateModel, 0⟩
            calls := by
  intro hsound
  let ops : List (UInt64 × Op) := [(1, .supply 1 (1000 * ray)), (1, .borrow 1 (500 * ray)),
    (15768001, .repay 1 (1000 * ray))]
  let calls : List Call := ops.map fun call => .operate call.1 call.2
  let final := calls.foldl (record defaultLiquidatorConfig) sampleReserve
  obtain ⟨-, -, hlast, -⟩ := hsound defaultLiquidatorConfig (fun _ => 5000) 1 (75 * ray / 100)
    (5 * ray / 100) (some defaultInterestRateModel) calls (by decide) (by decide)
  have hposition : (final.lp.positions 1).map (fun p => (p.supplyShares, p.borrowAmount)) =
      some (1000 * ray, 0) := by decide
  obtain ⟨position, hposition', heq⟩ := Option.map_eq_some_iff.mp hposition
  obtain ⟨hshares, hborrow⟩ := Prod.mk.inj heq
  have hrepaid : Repaid final.lp := by
    intro user p hp
    by_cases huser : user = 1
    · rw [huser] at hp
      rw [← Option.some.inj (hposition'.symm.trans hp)]
      exact hborrow
    · have husers : ∀ call ∈ ops, call.2.user = 1 := by decide
      have hnone : final.lp.positions user = none := by
        refine foldl_invariant_mem (P := fun l : Ledger => l.lp.positions user = none) calls
          (fun l call hcall hl => ?_) rfl
        obtain ⟨op, hop, rfl⟩ := List.mem_map.mp hcall
        exact (operate_positions_of_ne l.lp op.1 op.2 (husers op hop ▸ huser)).trans hl
      rw [hnone] at hp
      cases hp
  obtain ⟨lp', underlyingAmount, hwithdraw, -⟩ :=
    hlast.liquid hrepaid [(15768001, 1)] position hposition' (by rw [hshares]; decide)
  have hfails : (withdraw final.lp 15768001 1 (1000 * ray)).2 = .error .insufficientLiquidity := by
    decide
  rw [← hshares] at hfails
  cases hfails.symm.trans (congrArg Prod.snd hwithdraw)

end LuxPrecompile.Lending
