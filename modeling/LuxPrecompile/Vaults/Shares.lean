import LuxPrecompile.Vaults.Manager
import LuxPrecompile.Support.Runs
import LuxPrecompile.Support.Sums

/-!
# Shares of the vaults

Shares are counted, never diluted by a deposit or a withdrawal, and no division fails.
That every holder can leave with all shares also needs the strategy to have what the
vault counts as assets, which a profitable harvest ends.
-/

namespace LuxPrecompile.Vaults

open Evm Support

/-! ## Runs -/

/-- The operations. -/
inductive Op
  | createVault (asset : Address) (kind : StrategyKind) (performanceFee managementFee : UInt32)
      (depositLimit : ℤ)
  | deposit (user vault : Address) (assets : ℤ)
  | withdraw (user vault : Address) (shares : ℤ)
  | harvest (vault : Address)
deriving DecidableEq

/-- The amount of a deposit or withdrawal is positive. -/
def Op.Positive : Op → Prop
  | .deposit _ _ assets => 0 < assets
  | .withdraw _ _ shares => 0 < shares
  | _ => True

def perform (vm : VaultManager) : Op → VaultManager × Except Error ℤ
  | .createVault asset kind performanceFee managementFee depositLimit =>
      (createVault vm asset kind performanceFee managementFee depositLimit).map id
        (Except.map fun vaultAddr => (vaultAddr.val : ℤ))
  | .deposit user vault assets => deposit vm user vault assets
  | .withdraw user vault shares => withdraw vm user vault shares
  | .harvest vault => harvest vm vault

/-- The vaults after an operation. -/
def record (vm : VaultManager) (op : Op) : VaultManager := (perform vm op).1

/-! ## The property -/

/-- The shares of a user in a vault. -/
def VaultManager.sharesOf (vm : VaultManager) (vault user : Address) : ℤ :=
  (vm.positions (user, vault)).getD 0

/-- The assets behind a share. -/
def YieldVault.price (v : YieldVault) : ℚ := v.totalAssets / v.totalShares

/-- All shares of a vault are in its positions. -/
def Counted (vm : VaultManager) : Prop :=
  ∀ vault v, vm.vaults vault = some v → v.totalShares = ∑ user, vm.sharesOf vault user

/-- What an operation guarantees besides: shares stay counted, no vault with holders left
loses value per share, no division by zero, and no trace of a failure. -/
structure Fair (vm : VaultManager) (op : Op) : Prop where
  counted : Counted (record vm op)
  price : ∀ vault v v', vm.vaults vault = some v → (record vm op).vaults vault = some v' →
    v'.totalShares ≠ 0 → v.price ≤ v'.price
  divides : (perform vm op).2 ≠ .error .divisionByZero
  frame : ∀ e, (perform vm op).2 = .error e → record vm op = vm

/-- Every holder can withdraw all shares. -/
def Redeemable (vm : VaultManager) : Prop :=
  ∀ user vault shares, vm.positions (user, vault) = some shares →
    ∃ assets, (withdraw vm user vault shares).2 = .ok assets

/-- A harvest finds nothing to harvest. -/
def Clean (vm : VaultManager) : Op → Prop
  | .harvest vault => ∀ v, vm.vaults vault = some v → v.strategy.harvest = 0
  | _ => True

/-! ## Totals -/

theorem VaultManager.sum_updatePosition (vm : VaultManager) (user vault : Address) (shares : ℤ)
    (isDeposit : Bool) :
    ∑ u, (vm.updatePosition user vault shares isDeposit).sharesOf vault u =
      ∑ u, vm.sharesOf vault u + if isDeposit then shares else -shares := by
  have hself : (vm.updatePosition user vault shares isDeposit).sharesOf vault user =
      vm.sharesOf vault user + if isDeposit then shares else -shares := by
    simp only [sharesOf, updatePosition, Function.update_self]
    cases isDeposit with
    | true => rfl
    | false =>
        by_cases hzero : (vm.positions (user, vault)).getD 0 - shares = 0
        · simp only [Bool.false_eq_true, if_false, if_pos hzero, Option.getD_none]
          omega
        · simp only [Bool.false_eq_true, if_false, if_neg hzero, Option.getD_some]
          omega
  have hsum : ∑ u, (vm.updatePosition user vault shares isDeposit).sharesOf vault u +
      vm.sharesOf vault user = ∑ u, vm.sharesOf vault u +
        (vm.updatePosition user vault shares isDeposit).sharesOf vault user := by
    apply sum_add_of_eq_off user
    intro u hu
    simp only [sharesOf, updatePosition]
    rw [Function.update_of_ne]
    exact fun h => hu (Prod.mk.inj h).1
  rw [hself] at hsum
  linarith

theorem VaultManager.sum_updatePosition_of_ne (vm : VaultManager) (user : Address)
    {vault vault' : Address} (shares : ℤ) (isDeposit : Bool) (h : vault' ≠ vault) :
    ∑ u, (vm.updatePosition user vault shares isDeposit).sharesOf vault' u =
      ∑ u, vm.sharesOf vault' u := by
  apply Finset.sum_congr rfl
  intro u _
  simp only [sharesOf, updatePosition]
  rw [Function.update_of_ne]
  exact fun heq => h (Prod.mk.inj heq).2

/-! ## One vault -/

/-- The vaults a run can reach: assets and shares go together, and the strategy has no
more than the assets. -/
structure YieldVault.Valid (v : YieldVault) : Prop where
  shares : 0 ≤ v.totalShares
  deployed : 0 ≤ v.strategy.deployed
  covered : v.strategy.deployed ≤ v.totalAssets
  worth : 0 < v.totalAssets ↔ 0 < v.totalShares
  fee : v.performanceFee.toNat ≤ 5000
  withdrawEnabled : v.withdrawEnabled = true

/-- A vault after a deposit. -/
def YieldVault.deposited (v : YieldVault) (assets shares : ℤ) : YieldVault :=
  { v with
    totalAssets := v.totalAssets + assets
    totalShares := v.totalShares + shares
    strategy := v.strategy.deposit assets }

/-- A vault after a withdrawal. -/
def YieldVault.withdrawn (v : YieldVault) (assets shares : ℤ) : YieldVault :=
  { v with
    totalAssets := v.totalAssets - assets
    totalShares := v.totalShares - shares
    strategy := { v.strategy with deployed := v.strategy.deployed - assets } }

/-- A vault after a profitable harvest. -/
def YieldVault.harvested (v : YieldVault) : YieldVault :=
  { v with totalAssets := v.totalAssets + v.netProfit }

theorem price_le {v v' : YieldVault} (hshares : 0 ≤ v.totalShares) (hshares' : 0 < v'.totalShares)
    (hassets' : 0 ≤ v'.totalAssets)
    (hcross : v.totalAssets * v'.totalShares ≤ v'.totalAssets * v.totalShares) :
    v.price ≤ v'.price := by
  have hpos' : (0 : ℚ) < v'.totalShares := by exact_mod_cast hshares'
  rw [YieldVault.price, YieldVault.price]
  rcases hshares.eq_or_lt with hzero | hpos
  · rw [← hzero, Int.cast_zero, div_zero]
    exact div_nonneg (by exact_mod_cast hassets') hpos'.le
  · rw [div_le_div_iff₀ (by exact_mod_cast hpos) hpos']
    exact_mod_cast hcross

namespace YieldVault.Valid

variable {v : YieldVault} (hv : v.Valid)

include hv

theorem totalAssets_nonneg : 0 ≤ v.totalAssets := hv.deployed.trans hv.covered

theorem totalAssets_eq_zero (h : v.totalShares = 0) : v.totalAssets = 0 := by
  have hnot : ¬ 0 < v.totalAssets := fun hpos => (hv.worth.mp hpos).ne' h
  exact le_antisymm (not_lt.mp hnot) hv.totalAssets_nonneg

theorem sharesFor_eq {assets : ℤ} (hassets : 0 < assets) :
    ∃ shares, sharesFor v assets = .ok shares ∧ 0 ≤ shares ∧
      v.totalAssets * shares ≤ assets * v.totalShares := by
  by_cases hzero : v.totalShares = 0
  · refine ⟨assets, if_pos hzero, hassets.le, ?_⟩
    rw [hv.totalAssets_eq_zero hzero, hzero, zero_mul, mul_zero]
  · have hshares : 0 < v.totalShares := lt_of_le_of_ne hv.shares (Ne.symm hzero)
    have htotal : 0 < v.totalAssets := hv.worth.mpr hshares
    refine ⟨assets * v.totalShares / v.totalAssets, ?_, ?_, ?_⟩
    · rw [sharesFor, if_neg hzero, div, if_neg htotal.ne']
    · exact Int.ediv_nonneg (mul_nonneg hassets.le hshares.le) htotal.le
    · exact Int.mul_ediv_self_le htotal.ne'

theorem deposited {assets shares : ℤ} (hassets : 0 < assets) (hshares : 0 < shares) :
    (v.deposited assets shares).Valid where
  shares := add_nonneg hv.shares hshares.le
  deployed := add_nonneg hv.deployed hassets.le
  covered := add_le_add_left hv.covered assets
  worth := iff_of_true (add_pos_of_nonneg_of_pos hv.totalAssets_nonneg hassets)
    (add_pos_of_nonneg_of_pos hv.shares hshares)
  fee := hv.fee
  withdrawEnabled := hv.withdrawEnabled

theorem deposited_price {assets shares : ℤ} (hassets : 0 < assets) (hshares : 0 < shares)
    (hworth : v.totalAssets * shares ≤ assets * v.totalShares) :
    v.price ≤ (v.deposited assets shares).price := by
  apply price_le hv.shares (add_pos_of_nonneg_of_pos hv.shares hshares)
  · exact add_nonneg hv.totalAssets_nonneg hassets.le
  · change v.totalAssets * (v.totalShares + shares) ≤ (v.totalAssets + assets) * v.totalShares
    linarith

/-- What a withdrawal pays is at most what its shares are worth, and all of it for all
shares. -/
theorem assets_bounds {shares : ℤ} (hshares : 0 < shares) (hle : shares ≤ v.totalShares) :
    0 ≤ shares * v.totalAssets / v.totalShares ∧
      shares * v.totalAssets / v.totalShares * v.totalShares ≤ shares * v.totalAssets := by
  have hpos : 0 < v.totalShares := hshares.trans_le hle
  exact ⟨Int.ediv_nonneg (mul_nonneg hshares.le hv.totalAssets_nonneg) hpos.le,
    Int.ediv_mul_le _ hpos.ne'⟩

theorem withdrawn {shares : ℤ} (hshares : 0 < shares) (hle : shares ≤ v.totalShares)
    (hdeployed : shares * v.totalAssets / v.totalShares ≤ v.strategy.deployed) :
    (v.withdrawn (shares * v.totalAssets / v.totalShares) shares).Valid where
  shares := sub_nonneg.mpr hle
  deployed := sub_nonneg.mpr hdeployed
  covered := sub_le_sub_right hv.covered _
  worth := by
    have hpos : 0 < v.totalShares := hshares.trans_le hle
    have htotal : 0 < v.totalAssets := hv.worth.mpr hpos
    obtain ⟨-, hworth⟩ := hv.assets_bounds hshares hle
    simp only [YieldVault.withdrawn, sub_pos]
    constructor
    · intro hless
      refine lt_of_le_of_ne hle fun heq => ?_
      rw [heq, Int.mul_ediv_cancel_left _ hpos.ne'] at hless
      exact hless.false
    · intro hless
      refine lt_of_mul_lt_mul_right (hworth.trans_lt ?_) hpos.le
      rw [mul_comm v.totalAssets]
      exact mul_lt_mul_of_pos_right hless htotal
  fee := hv.fee
  withdrawEnabled := hv.withdrawEnabled

theorem withdrawn_price {shares : ℤ} (hshares : 0 < shares) (hless : shares < v.totalShares)
    (hdeployed : shares * v.totalAssets / v.totalShares ≤ v.strategy.deployed) :
    v.price ≤ (v.withdrawn (shares * v.totalAssets / v.totalShares) shares).price := by
  obtain ⟨-, hworth⟩ := hv.assets_bounds hshares hless.le
  apply price_le hv.shares (sub_pos.mpr hless)
  · exact (hv.withdrawn hshares hless.le hdeployed).totalAssets_nonneg
  · simp only [YieldVault.withdrawn]
    linarith

theorem netProfit_pos (h : 0 < v.strategy.harvest) : 0 < v.netProfit := by
  have hfee : (v.performanceFee.toNat : ℤ) ≤ 5000 := by exact_mod_cast hv.fee
  have hle : v.strategy.harvest * v.performanceFee.toNat ≤ v.strategy.harvest * 5000 :=
    mul_le_mul_of_nonneg_left hfee h.le
  rw [netProfit]
  omega

theorem harvested (h : 0 < v.strategy.harvest) : v.harvested.Valid where
  shares := hv.shares
  deployed := hv.deployed
  covered := hv.covered.trans (le_add_of_nonneg_right (hv.netProfit_pos h).le)
  worth := by
    have hdeployed : 0 < v.strategy.deployed := by
      refine lt_of_le_of_ne hv.deployed fun hzero => ?_
      rw [Strategy.harvest, ← hzero, Int.zero_ediv] at h
      exact h.false
    have htotal : 0 < v.totalAssets := hdeployed.trans_le hv.covered
    exact iff_of_true (add_pos htotal (hv.netProfit_pos h)) (hv.worth.mp htotal)
  fee := hv.fee
  withdrawEnabled := hv.withdrawEnabled

theorem harvested_price (h : 0 < v.strategy.harvest) (hshares : v.totalShares ≠ 0) :
    v.price ≤ v.harvested.price := by
  have hprofit := hv.netProfit_pos h
  refine price_le hv.shares ?_ ?_ ?_
  · exact lt_of_le_of_ne hv.shares (Ne.symm hshares)
  · exact (hv.harvested h).totalAssets_nonneg
  · exact mul_le_mul_of_nonneg_right (le_add_of_nonneg_right hprofit.le) hv.shares

end YieldVault.Valid

/-! ## All vaults -/

/-- The states a run can reach. -/
structure Valid (vm : VaultManager) : Prop where
  vaults : ∀ vault v, vm.vaults vault = some v → v.Valid
  counted : Counted vm
  positive : ∀ user vault shares, vm.positions (user, vault) = some shares → 0 < shares
  known : ∀ user vault, vm.vaults vault = none → vm.positions (user, vault) = none

theorem newVaultManager_valid : Valid newVaultManager where
  vaults _ _ h := by cases h
  counted _ _ h := by cases h
  positive _ _ _ h := by cases h
  known _ _ _ := rfl

theorem Valid.sharesOf_nonneg {vm : VaultManager} (hvm : Valid vm) (vault user : Address) :
    0 ≤ vm.sharesOf vault user := by
  rw [VaultManager.sharesOf]
  cases h : vm.positions (user, vault) with
  | none => exact le_rfl
  | some shares => exact (hvm.positive _ _ _ h).le

theorem Valid.position_le {vm : VaultManager} (hvm : Valid vm) {user vault : Address}
    {v : YieldVault} {position : ℤ} (hv : vm.vaults vault = some v)
    (h : vm.positions (user, vault) = some position) : position ≤ v.totalShares := by
  have hshares : vm.sharesOf vault user = position := by
    rw [VaultManager.sharesOf, h, Option.getD_some]
  rw [hvm.counted vault v hv, ← hshares]
  exact Finset.single_le_sum (fun u _ => hvm.sharesOf_nonneg vault u) (Finset.mem_univ user)

/-- The vaults after a deposit or a withdrawal. -/
def VaultManager.move (vm : VaultManager) (user vault : Address) (v : YieldVault) (shares : ℤ)
    (isDeposit : Bool) : VaultManager :=
  (vm.setVault vault v).updatePosition user vault shares isDeposit

/-- The positions after a move stay positive. -/
theorem VaultManager.updatePosition_positive {vm : VaultManager} {user vault : Address}
    {shares : ℤ} {isDeposit : Bool}
    (hpositive : ∀ user vault shares, vm.positions (user, vault) = some shares → 0 < shares)
    (hroom : 0 ≤ vm.sharesOf vault user + if isDeposit then shares else -shares)
    (hshares : 0 < shares) {user' vault' : Address} {shares' : ℤ}
    (h : (vm.updatePosition user vault shares isDeposit).positions (user', vault') =
      some shares') : 0 < shares' := by
  simp only [updatePosition] at h
  by_cases hkey : (user', vault') = (user, vault)
  · rw [hkey, Function.update_self] at h
    rw [sharesOf] at hroom
    cases isDeposit with
    | true =>
        simp only [if_true, Option.some.injEq] at h hroom
        have hold : 0 ≤ (vm.positions (user, vault)).getD 0 := by
          cases hposition : vm.positions (user, vault) with
          | none => exact le_rfl
          | some position => exact (hpositive _ _ _ hposition).le
        omega
    | false =>
        simp only [Bool.false_eq_true, if_false] at h hroom
        split_ifs at h with hzero
        have heq := Option.some.inj h
        omega
  · rw [Function.update_of_ne hkey] at h
    exact hpositive _ _ _ h

theorem Valid.move {vm : VaultManager} (hvm : Valid vm) {user vault : Address} {v v' : YieldVault}
    {shares : ℤ} {isDeposit : Bool} (hv : vm.vaults vault = some v) (hv' : v'.Valid)
    (htotal : v'.totalShares = v.totalShares + if isDeposit then shares else -shares)
    (hshares : 0 < shares)
    (hroom : 0 ≤ vm.sharesOf vault user + if isDeposit then shares else -shares) :
    Valid (vm.move user vault v' shares isDeposit) := by
  refine ⟨?_, ?_, ?_, ?_⟩
  · intro vault' w hw
    rw [VaultManager.move, VaultManager.updatePosition_vaults, VaultManager.setVault_vaults,
      update_eq_some] at hw
    obtain ⟨-, rfl⟩ | ⟨-, hw⟩ := hw
    · exact hv'
    · exact hvm.vaults vault' w hw
  · intro vault' w hw
    rw [VaultManager.move, VaultManager.updatePosition_vaults, VaultManager.setVault_vaults,
      update_eq_some] at hw
    obtain ⟨rfl, rfl⟩ | ⟨heq, hw⟩ := hw
    · rw [htotal, VaultManager.move, VaultManager.sum_updatePosition,
        hvm.counted vault' v hv]
      rfl
    · rw [VaultManager.move, VaultManager.sum_updatePosition_of_ne _ _ _ _ heq,
        hvm.counted vault' w hw]
      rfl
  · intro user' vault' shares' h
    exact VaultManager.updatePosition_positive hvm.positive hroom hshares h
  · intro user' vault' hnone
    rw [VaultManager.move, VaultManager.updatePosition_vaults, VaultManager.setVault_vaults,
      update_eq_none] at hnone
    simp only [VaultManager.move, VaultManager.updatePosition]
    rw [Function.update_of_ne]
    · exact hvm.known user' vault' hnone.2
    · exact fun h => hnone.1 (Prod.mk.inj h).2

/-- A vault that changes without its shares. -/
theorem Valid.setVault {vm : VaultManager} (hvm : Valid vm) {vault : Address} {v' : YieldVault}
    (hv' : v'.Valid) (htotal : v'.totalShares = ∑ user, vm.sharesOf vault user) :
    Valid (vm.setVault vault v') := by
  refine ⟨?_, ?_, hvm.positive, ?_⟩
  · intro vault' w hw
    rw [VaultManager.setVault_vaults, update_eq_some] at hw
    obtain ⟨-, rfl⟩ | ⟨-, hw⟩ := hw
    · exact hv'
    · exact hvm.vaults vault' w hw
  · intro vault' w hw
    rw [VaultManager.setVault_vaults, update_eq_some] at hw
    obtain ⟨rfl, rfl⟩ | ⟨-, hw⟩ := hw
    · rw [htotal]
      rfl
    · exact hvm.counted vault' w hw
  · intro user' vault' hnone
    rw [VaultManager.setVault_vaults, update_eq_none] at hnone
    exact hvm.known user' vault' hnone.2

/-! ## One operation -/

/-- What an operation does. -/
inductive Effect (vm : VaultManager) : Op → VaultManager × Except Error ℤ → Prop
  | refused (op : Op) (e : Error) (he : e ≠ .divisionByZero) : Effect vm op (vm, .error e)
  | created (asset : Address) (kind : StrategyKind) (performanceFee managementFee : UInt32)
      (depositLimit : ℤ) (vaultAddr : Address) (hfee : performanceFee.toNat ≤ 5000)
      (hvault : vm.vaults vaultAddr = none) :
      Effect vm (.createVault asset kind performanceFee managementFee depositLimit)
        (vm.setVault vaultAddr (newVault kind performanceFee depositLimit), .ok vaultAddr.val)
  | deposited (user vault : Address) (assets : ℤ) (v : YieldVault) (shares : ℤ)
      (hv : vm.vaults vault = some v) (hassets : 0 < assets) (hshares : 0 < shares)
      (hworth : v.totalAssets * shares ≤ assets * v.totalShares) :
      Effect vm (.deposit user vault assets)
        (vm.move user vault (v.deposited assets shares) shares true, .ok shares)
  | withdrawn (user vault : Address) (shares : ℤ) (v : YieldVault) (position assets : ℤ)
      (hv : vm.vaults vault = some v) (hposition : vm.positions (user, vault) = some position)
      (hshares : 0 < shares) (hle : shares ≤ position)
      (hassets : assets = shares * v.totalAssets / v.totalShares)
      (hdeployed : assets ≤ v.strategy.deployed) :
      Effect vm (.withdraw user vault shares)
        (vm.move user vault (v.withdrawn assets shares) shares false, .ok assets)
  | idle (vault : Address) : Effect vm (.harvest vault) (vm, .ok 0)
  | harvested (vault : Address) (v : YieldVault) (hv : vm.vaults vault = some v)
      (hprofit : 0 < v.strategy.harvest) :
      Effect vm (.harvest vault) (vm.setVault vault v.harvested, .ok v.netProfit)

/-- The withdrawal of a holder's shares, once the strategy has the assets. -/
theorem Valid.withdraw_eq {vm : VaultManager} (hvm : Valid vm) {user vault : Address}
    {v : YieldVault} {position shares : ℤ} (hv : vm.vaults vault = some v)
    (hposition : vm.positions (user, vault) = some position) (hshares : 0 < shares)
    (hle : shares ≤ position) :
    withdraw vm user vault shares =
      let assets := shares * v.totalAssets / v.totalShares
      if v.strategy.deployed < assets then (vm, .error .insufficientLiquidity)
      else (vm.move user vault (v.withdrawn assets shares) shares false, .ok assets) := by
  have hpos : 0 < v.totalShares := (hshares.trans_le hle).trans_le (hvm.position_le hv hposition)
  have henabled : ¬ v.withdrawEnabled = false := by
    rw [(hvm.vaults vault v hv).withdrawEnabled]
    decide
  simp only [withdraw, hv, if_neg henabled, hposition, if_neg (not_lt.mpr hle), div,
    if_neg hpos.ne', Strategy.withdraw]
  by_cases hdeployed : v.strategy.deployed < shares * v.totalAssets / v.totalShares
  · rw [if_pos hdeployed, if_pos hdeployed]
  · rw [if_neg hdeployed, if_neg hdeployed]
    rfl

theorem Valid.perform_effect {vm : VaultManager} (hvm : Valid vm) {op : Op} (hop : op.Positive) :
    Effect vm op (perform vm op) := by
  cases op with
  | createVault asset kind performanceFee managementFee depositLimit =>
      rw [perform, createVault]
      split_ifs with hperformance hmanagement
      · exact .refused _ _ (by decide)
      · exact .refused _ _ (by decide)
      · rw [generateVaultAddress]
        split_ifs with hname
        · exact .refused _ _ (by decide)
        · dsimp only
          generalize bytesToAddress _ = vaultAddr
          cases hvault : vm.vaults vaultAddr with
          | none => exact .created _ _ _ _ _ _ (not_lt.mp hperformance) hvault
          | some v => exact .refused _ _ (by decide)
  | deposit user vault assets =>
      rw [perform, deposit]
      cases hv : vm.vaults vault with
      | none => exact .refused _ _ (by decide)
      | some v =>
          obtain ⟨shares, hshares, hnonneg, hworth⟩ := (hvm.vaults vault v hv).sharesFor_eq hop
          dsimp only
          rw [hshares]
          dsimp only
          split_ifs with henabled hlimit hzero
          · exact .refused _ _ (by decide)
          · exact .refused _ _ (by decide)
          · exact .refused _ _ (by decide)
          · exact .deposited user vault assets v shares hv hop
              (lt_of_le_of_ne hnonneg (Ne.symm hzero)) hworth
  | withdraw user vault shares =>
      change Effect vm _ (withdraw vm user vault shares)
      cases hv : vm.vaults vault with
      | none =>
          simp only [withdraw, hv]
          exact .refused _ _ (by decide)
      | some v =>
          cases hposition : vm.positions (user, vault) with
          | none =>
              simp only [withdraw, hv, hposition]
              split_ifs
              · exact .refused _ _ (by decide)
              · exact .refused _ _ (by decide)
          | some position =>
              by_cases hle : shares ≤ position
              · rw [hvm.withdraw_eq hv hposition hop hle]
                dsimp only
                split_ifs with hdeployed
                · exact .refused _ _ (by decide)
                · exact .withdrawn user vault shares v position _ hv hposition hop hle rfl
                    (not_lt.mp hdeployed)
              · simp only [withdraw, hv, hposition, if_pos (not_le.mp hle)]
                split_ifs
                · exact .refused _ _ (by decide)
                · exact .refused _ _ (by decide)
  | harvest vault =>
      rw [perform, harvest]
      cases hv : vm.vaults vault with
      | none => exact .refused _ _ (by decide)
      | some v =>
          dsimp only
          split_ifs with hprofit
          · exact .idle vault
          · exact .harvested vault v hv (not_le.mp hprofit)

theorem price_update {vm : VaultManager} {vault : Address} {v v' : YieldVault}
    (hv : vm.vaults vault = some v) (hprice : v'.totalShares ≠ 0 → v.price ≤ v'.price)
    {vault' : Address} {w w' : YieldVault} (hw : vm.vaults vault' = some w)
    (hw' : Function.update vm.vaults vault (some v') vault' = some w')
    (hshares : w'.totalShares ≠ 0) : w.price ≤ w'.price := by
  obtain ⟨rfl, rfl⟩ | ⟨-, hw'⟩ := update_eq_some.mp hw'
  · obtain rfl := Option.some.inj (hv.symm.trans hw)
    exact hprice hshares
  · obtain rfl := Option.some.inj (hw.symm.trans hw')
    exact le_rfl

/-- Every operation is fair and keeps the states valid. -/
theorem Valid.step {vm : VaultManager} (hvm : Valid vm) {op : Op} (hop : op.Positive) :
    Valid (record vm op) ∧ Fair vm op := by
  have heffect := hvm.perform_effect hop
  have hrecord : record vm op = (perform vm op).1 := rfl
  suffices h : Valid (perform vm op).1 ∧
      (∀ vault v v', vm.vaults vault = some v → (perform vm op).1.vaults vault = some v' →
        v'.totalShares ≠ 0 → v.price ≤ v'.price) ∧
      ∀ e, (perform vm op).2 = .error e → e ≠ .divisionByZero ∧ (perform vm op).1 = vm by
    obtain ⟨hvalid, hprice, hfailed⟩ := h
    exact ⟨hvalid, hvalid.counted, hprice, fun he => (hfailed _ he).1 rfl,
      fun e he => (hfailed e he).2⟩
  generalize perform vm op = outcome at heffect
  cases heffect with
  | refused op e he =>
      refine ⟨hvm, fun vault v v' hv hv' _ => ?_, fun e' he' => ⟨?_, rfl⟩⟩
      · obtain rfl := Option.some.inj (hv.symm.trans hv')
        exact le_rfl
      · rwa [← Except.error.inj he']
  | created asset kind performanceFee managementFee depositLimit vault hfee hvault =>
      refine ⟨hvm.setVault ⟨le_rfl, le_rfl, le_rfl, Iff.rfl, hfee, rfl⟩ ?_, ?_,
        fun e he => by cases he⟩
      · refine (Finset.sum_eq_zero fun user _ => ?_).symm
        rw [VaultManager.sharesOf, hvm.known user vault hvault, Option.getD_none]
      · intro vault' w w' hw hw' hshares
        rw [VaultManager.setVault_vaults] at hw'
        by_cases heq : vault' = vault
        · rw [heq, hvault] at hw
          cases hw
        · rw [Function.update_of_ne heq] at hw'
          obtain rfl := Option.some.inj (hw.symm.trans hw')
          exact le_rfl
  | deposited user vault assets v shares hv hassets hshares hworth =>
      have hvault := hvm.vaults vault v hv
      refine ⟨hvm.move hv (hvault.deposited hassets hshares) rfl hshares ?_, ?_,
        fun e he => by cases he⟩
      · exact add_nonneg (hvm.sharesOf_nonneg vault user) hshares.le
      · intro vault' w w' hw hw' hleft
        exact price_update hv (fun _ => hvault.deposited_price hassets hshares hworth) hw hw' hleft
  | withdrawn user vault shares v position assets hv hposition hshares hle hassets hdeployed =>
      have hvault := hvm.vaults vault v hv
      have htotal := hle.trans (hvm.position_le hv hposition)
      subst hassets
      refine ⟨hvm.move hv (hvault.withdrawn hshares htotal hdeployed) (sub_eq_add_neg _ _) hshares
        ?_, ?_, fun e he => by cases he⟩
      · rw [VaultManager.sharesOf, hposition, Option.getD_some]
        exact sub_nonneg.mpr hle
      · intro vault' w w' hw hw' hleft
        refine price_update hv (fun hleft' => ?_) hw hw' hleft
        exact hvault.withdrawn_price hshares
          (lt_of_le_of_ne htotal fun heq => hleft' (sub_eq_zero.mpr heq.symm)) hdeployed
  | idle vault =>
      refine ⟨hvm, fun vault v v' hv hv' _ => ?_, fun e he => by cases he⟩
      obtain rfl := Option.some.inj (hv.symm.trans hv')
      exact le_rfl
  | harvested vault v hv hprofit =>
      have hvault := hvm.vaults vault v hv
      refine ⟨hvm.setVault (hvault.harvested hprofit) (hvm.counted vault v hv), ?_,
        fun e he => by cases he⟩
      intro vault' w w' hw hw' hleft
      exact price_update hv (fun hleft' => hvault.harvested_price hprofit hleft') hw hw' hleft

/-! ## Runs without profit -/

/-- Every strategy has what its vault counts as assets. -/
def Backed (vm : VaultManager) : Prop :=
  ∀ vault v, vm.vaults vault = some v → v.totalAssets = v.strategy.deployed

theorem backed_update {vm : VaultManager} (hvm : Backed vm) {vault : Address} {v' : YieldVault}
    (h : v'.totalAssets = v'.strategy.deployed) {vault' : Address} {w : YieldVault}
    (hw : Function.update vm.vaults vault (some v') vault' = some w) :
    w.totalAssets = w.strategy.deployed := by
  obtain ⟨-, rfl⟩ | ⟨-, hw⟩ := update_eq_some.mp hw
  · exact h
  · exact hvm vault' w hw

/-- A clean operation keeps the vaults backed. -/
theorem Backed.step {vm : VaultManager} (hvm : Valid vm) (hbacked : Backed vm) {op : Op}
    (hop : op.Positive) (hclean : Clean vm op) : Backed (record vm op) := by
  have heffect := hvm.perform_effect hop
  change Backed (perform vm op).1
  generalize perform vm op = outcome at heffect
  cases heffect with
  | refused | idle => exact hbacked
  | created => exact fun vault' w hw => backed_update hbacked rfl hw
  | deposited user vault assets v shares hv =>
      exact fun vault' w hw => backed_update hbacked (congrArg (· + assets) (hbacked vault v hv)) hw
  | withdrawn user vault shares v position assets hv =>
      exact fun vault' w hw => backed_update hbacked (congrArg (· - assets) (hbacked vault v hv)) hw
  | harvested vault v hv hprofit => exact absurd (hclean v hv) hprofit.ne'

/-- Holders of a backed vault can leave. -/
theorem Valid.redeemable {vm : VaultManager} (hvm : Valid vm) (hbacked : Backed vm) :
    Redeemable vm := by
  intro user vault shares hposition
  obtain ⟨v, hv⟩ : ∃ v, vm.vaults vault = some v := by
    apply Option.ne_none_iff_exists'.mp
    intro hnone
    rw [hvm.known user vault hnone] at hposition
    cases hposition
  have hshares := hvm.positive _ _ _ hposition
  have hle := hvm.position_le hv hposition
  have hvault := hvm.vaults vault v hv
  have hassets : shares * v.totalAssets / v.totalShares ≤ v.strategy.deployed := by
    rw [← hbacked vault v hv]
    refine Int.ediv_le_of_le_mul (hshares.trans_le hle) ?_
    rw [mul_comm v.totalAssets]
    exact mul_le_mul_of_nonneg_right hle hvault.totalAssets_nonneg
  rw [hvm.withdraw_eq hv hposition hshares le_rfl]
  exact ⟨_, congrArg Prod.snd (if_neg (not_lt.mpr hassets))⟩

/-- Every run is fair, and a run whose harvests find nothing leaves every holder free to
go. -/
theorem vault_shares (ops : List Op) (hpositive : ∀ op ∈ ops, op.Positive) :
    Along record Fair newVaultManager ops ∧
      (Along record Clean newVaultManager ops →
        Along record (fun vm op => Redeemable (record vm op)) newVaultManager ops) := by
  have hamounts : Along record (fun _ op => op.Positive) newVaultManager ops :=
    along_forall_iff.mpr hpositive
  constructor
  · exact Along.imp_of_invariant (I := Valid) (fun vm op hvm hop => (hvm.step hop).1)
      (fun vm op hvm hop => (hvm.step hop).2) ops newVaultManager_valid hamounts
  · intro hclean
    refine Along.imp_of_invariant (I := fun vm => Valid vm ∧ Backed vm) ?_ ?_ ops
      ⟨newVaultManager_valid, fun _ _ h => by cases h⟩ (hamounts.and hclean)
    · exact fun vm op hvm hop => ⟨(hvm.1.step hop.1).1, hvm.2.step hvm.1 hop.1 hop.2⟩
    · exact fun vm op hvm hop =>
        (hvm.1.step hop.1).1.redeemable (hvm.2.step hvm.1 hop.1 hop.2)

theorem createVault_lpYield (vm : VaultManager) (asset : Address)
    (performanceFee managementFee : UInt32) (depositLimit : ℤ) :
    (createVault vm asset .lpYield performanceFee managementFee depositLimit).1 = vm := by
  have hname : generateVaultAddress asset StrategyKind.lpYield.name = .error .sliceOutOfRange :=
    if_pos (by decide)
  rw [createVault, hname]
  split_ifs
  · rfl
  · rfl
  · rfl

/-- The address of the vault of asset 7 with the lending strategy. -/
def lendingVault : Address := bytesToAddress (slice StrategyKind.lendingYield.name 0 10)

/-- Two holders of that vault, and a harvest of less than two hundred. -/
def sampleRun : List Op :=
  [.createVault 7 .lendingYield 1000 100 0, .deposit 1 lendingVault 60,
    .deposit 2 lendingVault 30, .harvest lendingVault, .withdraw 1 lendingVault 20]

theorem vault_shares_sample :
    Along record (fun vm op => Redeemable (record vm op)) newVaultManager sampleRun ∧
      (sampleRun.foldl record newVaultManager).positions (1, lendingVault) = some 40 := by
  have hpositive : ∀ op ∈ sampleRun, op.Positive := by simp [sampleRun, Op.Positive]
  have hvault : ((sampleRun.take 3).foldl record newVaultManager).vaults lendingVault =
      some ⟨90, 90, ⟨.lendingYield, 90⟩, 1000, 0, true, true⟩ := by decide
  refine ⟨(vault_shares sampleRun hpositive).2 ⟨trivial, trivial, trivial, ?_, trivial, trivial⟩,
    by decide⟩
  intro v hv
  obtain rfl := Option.some.inj (hvault.symm.trans hv)
  decide

/-- A harvest adds to the assets of a vault what its strategy cannot pay. -/
theorem harvest_blocks_withdrawal :
    ¬ ∀ ops : List Op, (∀ op ∈ ops, op.Positive) →
      Along record (fun vm op => Fair vm op ∧ Redeemable (record vm op)) newVaultManager ops := by
  intro hshares
  let ops : List Op :=
    [.createVault 7 .lendingYield 0 0 0, .deposit 1 lendingVault 200, .harvest lendingVault]
  obtain ⟨-, -, ⟨-, hlast⟩, -⟩ := hshares ops (by simp [ops, Op.Positive])
  have hposition : (ops.foldl record newVaultManager).positions (1, lendingVault) = some 200 := by
    decide
  have hwithdraw : (withdraw (ops.foldl record newVaultManager) 1 lendingVault 200).2 =
      .error .insufficientLiquidity := by decide
  obtain ⟨assets, hok⟩ := hlast 1 lendingVault 200 hposition
  cases hwithdraw.symm.trans hok

end LuxPrecompile.Vaults
