import LuxPrecompile.Loans.Liquid
import LuxPrecompile.Support.Runs
import LuxPrecompile.Support.Sums

/-!
# Health of the loans

The loans are covered, counted and within their ceilings, and a call that fails leaves
them as they were, exactly as long as no call fails after its harvest has moved an
account and no burn exceeds what its liquid token has minted.
-/

namespace LuxPrecompile.Loans

open Evm Support

/-! ## Runs -/

/-- The operations. -/
inductive Op
  | addYieldToken (token : Address) (yieldPerBlock : ℤ)
  | addLiquidToken (synthetic : Address) (debtCeiling : ℤ)
  | deposit (owner yieldToken : Address) (amount : ℤ)
  | withdraw (owner yieldToken : Address) (amount : ℤ)
  | mint (owner yieldToken syntheticToken : Address) (amount : ℤ)
  | burn (owner yieldToken syntheticToken : Address) (amount : ℤ)
  | harvest (owner yieldToken : Address)
deriving DecidableEq

/-- An operation in a block. -/
structure Call where
  block : UInt64
  op : Op
deriving DecidableEq

/-- The amount an operation names. -/
def Op.amount : Op → ℤ
  | .addLiquidToken _ debtCeiling => debtCeiling
  | .deposit _ _ amount => amount
  | .withdraw _ _ amount => amount
  | .mint _ _ _ amount => amount
  | .burn _ _ _ amount => amount
  | _ => 0

def perform (a : Liquid) (call : Call) : Liquid × Except Error Unit :=
  match call.op with
  | .addYieldToken token yieldPerBlock => addYieldToken a token yieldPerBlock
  | .addLiquidToken synthetic debtCeiling => addLiquidToken a synthetic debtCeiling
  | .deposit owner yieldToken amount => deposit a call.block owner yieldToken amount
  | .withdraw owner yieldToken amount => withdraw a call.block owner yieldToken amount
  | .mint owner yieldToken syntheticToken amount =>
      mint a call.block owner yieldToken syntheticToken amount
  | .burn owner yieldToken syntheticToken amount =>
      burn a call.block owner yieldToken syntheticToken amount
  | .harvest owner yieldToken =>
      let outcome := harvest a call.block owner yieldToken
      (outcome.1, outcome.2.map fun _ => ())

/-- The loans after a call. -/
def record (a : Liquid) (call : Call) : Liquid := (perform a call).1

/-! ## The property -/

/-- The collateral of an owner in a yield token. -/
def Liquid.collateralOf (a : Liquid) (token owner : Address) : ℤ :=
  (a.accounts (owner, token)).elim 0 LiquidAccount.collateral

/-- What holds between calls. -/
structure Sound (a : Liquid) : Prop where
  healthy : ∀ key account, a.accounts key = some account →
    account.debt ≤ account.collateral * 9000 / 10000
  deposited : ∀ token yt, a.yieldTokens token = some yt →
    yt.totalDeposited = ∑ owner, a.collateralOf token owner
  minted : ∀ synthetic st, a.liquidTokens synthetic = some st →
    0 ≤ st.totalMinted ∧ st.totalMinted ≤ st.debtCeiling

/-- A call keeps the loans sound, and changes nothing when it fails. -/
structure Lawful (a : Liquid) (call : Call) : Prop where
  sound : Sound (record a call)
  frame : ∀ e, (perform a call).2 = .error e → record a call = a

/-- A withdrawal that fails after its harvest finds the account harvested in the block. -/
def CleanWithdraw (a : Liquid) (block : UInt64) (owner yieldToken : Address) (amount : ℤ) : Prop :=
  ∀ yt account, a.yieldTokens yieldToken = some yt →
    a.accounts (accountKey owner yieldToken) = some account → account.collateral ≠ 0 →
      account.lastHarvestBlock = block ∨
        (amount ≤ account.collateral ∧
          (0 < (harvestYieldInternal block account yt).1.debt →
            (harvestYieldInternal block account yt).1.debt ≤
              calculateMaxDebt (account.collateral - amount)))

/-- A mint that fails after its harvest finds the account harvested in the block. -/
def CleanMint (a : Liquid) (block : UInt64) (owner yieldToken syntheticToken : Address)
    (amount : ℤ) : Prop :=
  ∀ yt st account, a.yieldTokens yieldToken = some yt → yt.isActive = true →
    a.liquidTokens syntheticToken = some st → st.totalMinted + amount ≤ st.debtCeiling →
      a.accounts (accountKey owner yieldToken) = some account → account.collateral ≠ 0 →
        account.lastHarvestBlock = block ∨
          (harvestYieldInternal block account yt).1.debt + amount ≤
            calculateMaxDebt account.collateral

/-- A burn is at most what its liquid token has minted. -/
def CleanBurn (a : Liquid) (block : UInt64) (owner yieldToken syntheticToken : Address)
    (amount : ℤ) : Prop :=
  ∀ st account, a.liquidTokens syntheticToken = some st →
    a.accounts (accountKey owner yieldToken) = some account → account.debt ≠ 0 →
      min amount (harvested a block yieldToken account).debt ≤ st.totalMinted

def Clean (a : Liquid) (call : Call) : Prop :=
  match call.op with
  | .withdraw owner yieldToken amount => CleanWithdraw a call.block owner yieldToken amount
  | .mint owner yieldToken syntheticToken amount =>
      CleanMint a call.block owner yieldToken syntheticToken amount
  | .burn owner yieldToken syntheticToken amount =>
      CleanBurn a call.block owner yieldToken syntheticToken amount
  | _ => True

/-! ## The harvest -/

theorem LiquidAccount.applyYield_collateral (account : LiquidAccount) :
    account.applyYield.collateral = account.collateral := by
  rw [applyYield]
  split_ifs <;> rfl

theorem LiquidAccount.applyYield_debt (account : LiquidAccount) (h : 0 ≤ account.debt) :
    0 ≤ account.applyYield.debt ∧ account.applyYield.debt ≤ account.debt := by
  rw [applyYield]
  split_ifs with hpositive hcovered
  · exact ⟨le_rfl, h⟩
  · dsimp only
    omega
  · exact ⟨h, le_rfl⟩

theorem harvest_collateral (block : UInt64) (account : LiquidAccount) (yt : YieldToken) :
    (harvestYieldInternal block account yt).1.collateral = account.collateral := by
  simp only [harvestYieldInternal]
  split_ifs
  · rfl
  · rfl
  · exact LiquidAccount.applyYield_collateral _

theorem harvest_debt (block : UInt64) {account : LiquidAccount} (yt : YieldToken)
    (h : 0 ≤ account.debt) :
    0 ≤ (harvestYieldInternal block account yt).1.debt ∧
      (harvestYieldInternal block account yt).1.debt ≤ account.debt := by
  simp only [harvestYieldInternal]
  split_ifs
  · exact ⟨h, le_rfl⟩
  · exact ⟨h, le_rfl⟩
  · exact LiquidAccount.applyYield_debt _ h

theorem harvest_lastHarvestBlock (block : UInt64) (account : LiquidAccount) (yt : YieldToken) :
    (harvestYieldInternal block account yt).1.lastHarvestBlock = block := by
  simp only [harvestYieldInternal]
  split_ifs with hfirst helapsed
  · rfl
  · exact (UInt64.sub_eq_iff_eq_add.mp helapsed ▸ UInt64.zero_add _).symm
  · rfl

theorem harvest_same_block {block : UInt64} {account : LiquidAccount} (yt : YieldToken)
    (h : account.lastHarvestBlock = block) :
    (harvestYieldInternal block account yt).1 = account := by
  subst h
  simp only [harvestYieldInternal]
  split_ifs with hfirst helapsed
  · rfl
  · rfl
  · exact absurd (UInt64.sub_self _) helapsed

/-! ## Totals -/

/-- The total of a yield token changes by as much as the saved account. -/
theorem Liquid.sum_saveAccount (a : Liquid) (owner token : Address) (account : LiquidAccount) :
    ∑ o, (a.saveAccount (accountKey owner token) account).collateralOf token o +
        a.collateralOf token owner =
      ∑ o, a.collateralOf token o + account.collateral := by
  have hself : (a.saveAccount (accountKey owner token) account).collateralOf token owner =
      account.collateral := by
    have hsaved : (a.saveAccount (accountKey owner token) account).accounts (owner, token) =
        some account := by
      rw [saveAccount_accounts, accountKey, Function.update_self]
    rw [collateralOf, hsaved, Option.elim_some]
  rw [sum_add_of_eq_off owner, hself]
  intro o ho
  rw [collateralOf, saveAccount_accounts, accountKey, Function.update_of_ne, collateralOf]
  exact fun h => ho (Prod.mk.inj h).1

theorem Liquid.sum_saveAccount_of_ne (a : Liquid) (owner : Address) {token token' : Address}
    (account : LiquidAccount) (h : token' ≠ token) :
    ∑ o, (a.saveAccount (accountKey owner token) account).collateralOf token' o =
      ∑ o, a.collateralOf token' o := by
  apply Finset.sum_congr rfl
  intro o _
  rw [collateralOf, saveAccount_accounts, accountKey, Function.update_of_ne, collateralOf]
  exact fun heq => h (Prod.mk.inj heq).2

/-! ## One call -/

/-- The states a run can reach. -/
structure Valid (a : Liquid) : Prop where
  sound : Sound a
  nonneg : ∀ key account, a.accounts key = some account → 0 ≤ account.collateral ∧ 0 ≤ account.debt
  known : ∀ owner token, a.yieldTokens token = none → a.accounts (owner, token) = none
  fee : ∀ synthetic st, a.liquidTokens synthetic = some st → st.burnFee = 10

theorem newLiquid_valid : Valid newLiquid where
  sound :=
    { healthy := fun _ _ h => by cases h
      deposited := fun _ _ h => by cases h
      minted := fun _ _ h => by cases h }
  nonneg _ _ h := by cases h
  known _ _ _ := rfl
  fee _ _ h := by cases h

/-- A healthy account that holds more or less collateral, and the total that follows it. -/
theorem Valid.save {a : Liquid} (ha : Valid a) {owner token : Address} {yt : YieldToken}
    (hyt : a.yieldTokens token = some yt) (account : LiquidAccount) (change : ℤ)
    (hchange : account.collateral = a.collateralOf token owner + change)
    (hcollateral : 0 ≤ account.collateral) (hdebt : 0 ≤ account.debt)
    (hhealthy : account.debt ≤ account.collateral * 9000 / 10000) :
    Valid ((a.saveAccount (accountKey owner token) account).saveYieldToken token
      { yt with totalDeposited := yt.totalDeposited + change }) := by
  have haccounts : ∀ {P : LiquidAccount → Prop} {key account'}, P account →
      (∀ account'', a.accounts key = some account'' → P account'') →
        ((a.saveAccount (accountKey owner token) account).saveYieldToken token
          { yt with totalDeposited := yt.totalDeposited + change }).accounts key = some account' →
            P account' := by
    intro P key account' hnew hold h
    rw [Liquid.saveYieldToken_accounts, Liquid.saveAccount_accounts, update_eq_some] at h
    obtain ⟨-, rfl⟩ | ⟨-, h⟩ := h
    · exact hnew
    · exact hold account' h
  refine ⟨⟨?_, ?_, ha.sound.minted⟩, ?_, ?_, ha.fee⟩
  · intro key account' h
    exact haccounts hhealthy (ha.sound.healthy key) h
  · intro token' yt' h
    rw [Liquid.saveYieldToken_yieldTokens, update_eq_some] at h
    obtain ⟨rfl, rfl⟩ | ⟨htoken, h⟩ := h
    · have hsum := a.sum_saveAccount owner token' account
      have htotal := ha.sound.deposited token' yt hyt
      change yt.totalDeposited + change =
        ∑ o, (a.saveAccount (accountKey owner token') account).collateralOf token' o
      linarith
    · exact (ha.sound.deposited token' yt' h).trans
        (a.sum_saveAccount_of_ne owner account htoken).symm
  · intro key account' h
    exact haccounts ⟨hcollateral, hdebt⟩ (ha.nonneg key) h
  · intro owner' token' h
    rw [Liquid.saveYieldToken_yieldTokens, update_eq_none] at h
    rw [Liquid.saveYieldToken_accounts, Liquid.saveAccount_accounts, Function.update_of_ne,
      ha.known owner' token' h.2]
    exact fun hkey => h.1 (Prod.mk.inj hkey).2

theorem Liquid.saveAccount_saveAccount (a : Liquid) (key : Address × Address)
    (account account' : LiquidAccount) :
    (a.saveAccount key account).saveAccount key account' = a.saveAccount key account' := by
  rw [saveAccount, saveAccount_accounts, Function.update_idem]
  rfl

theorem Liquid.saveYieldToken_self {a : Liquid} {token : Address} {yt : YieldToken}
    (h : a.yieldTokens token = some yt) : a.saveYieldToken token yt = a := by
  rw [saveYieldToken, ← h, Function.update_eq_self]

theorem Liquid.collateralOf_eq {a : Liquid} {owner token : Address} {account : LiquidAccount}
    (h : a.accounts (accountKey owner token) = some account) :
    a.collateralOf token owner = account.collateral := by
  rw [collateralOf, show a.accounts (owner, token) = some account from h, Option.elim_some]

/-- A healthy account with the collateral it had. -/
theorem Valid.saveAccount {a : Liquid} (ha : Valid a) {owner token : Address}
    {old account : LiquidAccount} (hold : a.accounts (accountKey owner token) = some old)
    (hcollateral : account.collateral = old.collateral) (hdebt : 0 ≤ account.debt)
    (hhealthy : account.debt ≤ account.collateral * 9000 / 10000) :
    Valid (a.saveAccount (accountKey owner token) account) := by
  obtain ⟨yt, hyt⟩ : ∃ yt, a.yieldTokens token = some yt := by
    apply Option.ne_none_iff_exists'.mp
    intro hnone
    rw [show a.accounts (accountKey owner token) = none from ha.known owner token hnone] at hold
    cases hold
  have hvalid := ha.save hyt account 0
    (by rw [Liquid.collateralOf_eq hold, add_zero, hcollateral])
    (hcollateral ▸ (ha.nonneg _ _ hold).1) hdebt hhealthy
  rw [add_zero] at hvalid
  have hself : (a.saveAccount (accountKey owner token) account).saveYieldToken token yt =
      a.saveAccount (accountKey owner token) account := Liquid.saveYieldToken_self hyt
  exact hself ▸ hvalid

theorem Valid.saveLiquidToken {a : Liquid} (ha : Valid a) (synthetic : Address) {st : LiquidToken}
    (hfee : st.burnFee = 10) (hminted : 0 ≤ st.totalMinted ∧ st.totalMinted ≤ st.debtCeiling) :
    Valid (a.saveLiquidToken synthetic st) := by
  refine ⟨⟨ha.sound.healthy, ha.sound.deposited, ?_⟩, ha.nonneg, ha.known, ?_⟩
  · intro synthetic' st' h
    rw [Liquid.saveLiquidToken_liquidTokens, update_eq_some] at h
    obtain ⟨-, rfl⟩ | ⟨-, h⟩ := h
    · exact hminted
    · exact ha.sound.minted synthetic' st' h
  · intro synthetic' st' h
    rw [Liquid.saveLiquidToken_liquidTokens, update_eq_some] at h
    obtain ⟨-, rfl⟩ | ⟨-, h⟩ := h
    · exact hfee
    · exact ha.fee synthetic' st' h

/-- A yield token that was not known has no accounts. -/
theorem Valid.addYieldToken {a : Liquid} (ha : Valid a) {token : Address} (yieldPerBlock : ℤ)
    (h : a.yieldTokens token = none) : Valid (a.saveYieldToken token ⟨yieldPerBlock, true, 0⟩) := by
  refine ⟨⟨ha.sound.healthy, ?_, ha.sound.minted⟩, ha.nonneg, ?_, ha.fee⟩
  · intro token' yt hyt
    rw [Liquid.saveYieldToken_yieldTokens, update_eq_some] at hyt
    obtain ⟨rfl, rfl⟩ | ⟨-, hyt⟩ := hyt
    · refine (Finset.sum_eq_zero fun owner _ => ?_).symm
      rw [Liquid.collateralOf, Liquid.saveYieldToken_accounts, ha.known owner token' h,
        Option.elim_none]
    · exact ha.sound.deposited token' yt hyt
  · intro owner token' hnone
    rw [Liquid.saveYieldToken_yieldTokens, update_eq_none] at hnone
    exact ha.known owner token' hnone.2

theorem Valid.harvest {a : Liquid} (ha : Valid a) (block : UInt64) {owner token : Address}
    {account : LiquidAccount} (yt : YieldToken)
    (h : a.accounts (accountKey owner token) = some account) :
    Valid (a.saveAccount (accountKey owner token) (harvestYieldInternal block account yt).1) := by
  obtain ⟨hnonneg, hle⟩ := harvest_debt block yt (ha.nonneg _ _ h).2
  refine ha.saveAccount h (harvest_collateral _ _ _) hnonneg ?_
  rw [harvest_collateral]
  exact hle.trans (ha.sound.healthy _ _ h)

/-- An outcome whose state is valid, and the old one when the call failed. -/
structure Kept {α : Type} (a : Liquid) (outcome : Liquid × Except Error α) : Prop where
  valid : Valid outcome.1
  frame : ∀ e, outcome.2 = .error e → outcome.1 = a

theorem Kept.refused {α : Type} {a : Liquid} (ha : Valid a) (e : Error) :
    Kept (α := α) a (a, .error e) := ⟨ha, fun _ _ => rfl⟩

theorem Kept.done {α : Type} {a a' : Liquid} (h : Valid a') (x : α) : Kept a (a', .ok x) :=
  ⟨h, fun _ he => by cases he⟩

theorem Kept.refusedInBlock {a : Liquid} (ha : Valid a) {block : UInt64} {owner token : Address}
    {account : LiquidAccount} (yt : YieldToken)
    (h : a.accounts (accountKey owner token) = some account)
    (hblock : account.lastHarvestBlock = block) (e : Error) :
    Kept (α := Unit) a
      (a.saveAccount (accountKey owner token) (harvestYieldInternal block account yt).1,
        .error e) := by
  have hsame : a.saveAccount (accountKey owner token) (harvestYieldInternal block account yt).1 =
      a := by
    rw [harvest_same_block yt hblock, Liquid.saveAccount, ← h, Function.update_eq_self]
  rw [hsame]
  exact .refused ha e

theorem deposit_kept {a : Liquid} (ha : Valid a) (block : UInt64) (owner yieldToken : Address)
    (amount : ℤ) : Kept a (deposit a block owner yieldToken amount) := by
  rw [deposit]
  cases hyt : a.yieldTokens yieldToken with
  | none => exact .refused ha _
  | some yt =>
      dsimp only
      split_ifs with hactive hamount
      · exact .refused ha _
      · exact .refused ha _
      · have hold : 0 ≤ ((a.accounts (accountKey owner yieldToken)).getD ⟨0, 0, 0, 0⟩).debt ∧
            ((a.accounts (accountKey owner yieldToken)).getD ⟨0, 0, 0, 0⟩).debt ≤
              a.collateralOf yieldToken owner * 9000 / 10000 ∧
            ((a.accounts (accountKey owner yieldToken)).getD ⟨0, 0, 0, 0⟩).collateral =
              a.collateralOf yieldToken owner ∧ 0 ≤ a.collateralOf yieldToken owner := by
          cases haccount : a.accounts (accountKey owner yieldToken) with
          | none =>
              rw [Liquid.collateralOf,
                show a.accounts (owner, yieldToken) = none from haccount]
              exact ⟨le_rfl, le_rfl, rfl, le_rfl⟩
          | some account =>
              obtain ⟨hcollateral, hdebt⟩ := ha.nonneg _ _ haccount
              rw [Liquid.collateralOf_eq haccount]
              exact ⟨hdebt, ha.sound.healthy _ _ haccount, rfl, hcollateral⟩
        obtain ⟨hdebt, hhealthy, hcollateral, hnonneg⟩ := hold
        obtain ⟨hdebt', hle⟩ := harvest_debt block yt hdebt
        refine .done (ha.save hyt _ amount ?_ ?_ ?_ ?_) ()
        · exact congrArg (· + amount) ((harvest_collateral _ _ _).trans hcollateral)
        · dsimp only
          rw [harvest_collateral, hcollateral]
          linarith
        · exact hdebt'
        · dsimp only
          rw [harvest_collateral, hcollateral]
          refine (hle.trans hhealthy).trans (Int.ediv_le_ediv (by decide) ?_)
          linarith

theorem withdraw_kept {a : Liquid} (ha : Valid a) {block : UInt64} {owner yieldToken : Address}
    {amount : ℤ} (hclean : CleanWithdraw a block owner yieldToken amount) :
    Kept a (withdraw a block owner yieldToken amount) := by
  rw [withdraw]
  cases hyt : a.yieldTokens yieldToken with
  | none => exact .refused ha _
  | some yt =>
      dsimp only
      cases haccount : a.accounts (accountKey owner yieldToken) with
      | none => exact .refused ha _
      | some account =>
          dsimp only
          by_cases hcollateral : account.collateral = 0
          · rw [if_pos hcollateral]
            exact .refused ha _
          rw [if_neg hcollateral, harvest_collateral]
          have hclean := hclean yt account hyt haccount hcollateral
          split_ifs with hexceeds hhealth
          · exact .refusedInBlock ha yt haccount (hclean.resolve_right fun h => by omega) _
          · exact .refusedInBlock ha yt haccount (hclean.resolve_right fun h =>
              not_lt.mpr (h.2 hhealth.1) hhealth.2) _
          · obtain ⟨hdebt, -⟩ := harvest_debt block yt (ha.nonneg _ _ haccount).2
            have hnew : 0 ≤ account.collateral - amount := sub_nonneg.mpr (not_lt.mp hexceeds)
            rw [Liquid.saveAccount_saveAccount, sub_eq_add_neg yt.totalDeposited]
            refine .done (ha.save hyt _ (-amount) ?_ ?_ ?_ ?_) ()
            · rw [Liquid.collateralOf_eq haccount]
              exact sub_eq_add_neg _ _
            · exact hnew
            · exact hdebt
            · rcases hdebt.eq_or_lt with hzero | hpos
              · exact hzero ▸ Int.ediv_nonneg (by linarith) (by decide)
              · exact not_lt.mp fun h => hhealth ⟨hpos, h⟩

theorem mint_kept {a : Liquid} (ha : Valid a) {block : UInt64}
    {owner yieldToken syntheticToken : Address} {amount : ℤ} (hamount : 0 ≤ amount)
    (hclean : CleanMint a block owner yieldToken syntheticToken amount) :
    Kept a (mint a block owner yieldToken syntheticToken amount) := by
  rw [mint]
  cases hyt : a.yieldTokens yieldToken with
  | none => exact .refused ha _
  | some yt =>
      dsimp only
      split_ifs with hactive
      · exact .refused ha _
      cases hst : a.liquidTokens syntheticToken with
      | none => exact .refused ha _
      | some st =>
          dsimp only
          split_ifs with hceiling
          · exact .refused ha _
          cases haccount : a.accounts (accountKey owner yieldToken) with
          | none => exact .refused ha _
          | some account =>
              dsimp only
              by_cases hcollateral : account.collateral = 0
              · rw [if_pos hcollateral]
                exact .refused ha _
              rw [if_neg hcollateral]
              have hclean := hclean yt st account hyt (Bool.not_eq_false _ ▸ hactive) hst
                (not_lt.mp hceiling) haccount hcollateral
              split_ifs with hltv
              · rw [harvest_collateral] at hltv
                exact .refusedInBlock ha yt haccount (hclean.resolve_right fun h => by omega) _
              · obtain ⟨hdebt, -⟩ := harvest_debt block yt (ha.nonneg _ _ haccount).2
                obtain ⟨hminted, -⟩ := ha.sound.minted _ _ hst
                have hsaved : Valid (a.saveAccount (accountKey owner yieldToken)
                    { (harvestYieldInternal block account yt).1 with
                      debt := (harvestYieldInternal block account yt).1.debt + amount }) := by
                  refine ha.saveAccount haccount (harvest_collateral _ _ _)
                    (add_nonneg hdebt hamount) ?_
                  dsimp only
                  rw [harvest_collateral]
                  rw [harvest_collateral] at hltv
                  have hroom := not_lt.mp hltv
                  simp only [calculateMaxDebt, maxLTV, ltvPrecision] at hroom
                  linarith
                rw [Liquid.saveAccount_saveAccount]
                refine .done (hsaved.saveLiquidToken syntheticToken ?_ ⟨?_, ?_⟩) ()
                · change st.burnFee = 10
                  exact ha.fee _ _ hst
                · exact add_nonneg hminted hamount
                · exact not_lt.mp hceiling

theorem harvested_debt {a : Liquid} (block : UInt64) (yieldToken : Address)
    {account : LiquidAccount} (h : 0 ≤ account.debt) :
    0 ≤ (harvested a block yieldToken account).debt ∧
      (harvested a block yieldToken account).debt ≤ account.debt := by
  rw [harvested]
  cases a.yieldTokens yieldToken with
  | none => exact ⟨h, le_rfl⟩
  | some yt => exact harvest_debt block yt h

theorem harvested_collateral (a : Liquid) (block : UInt64) (yieldToken : Address)
    (account : LiquidAccount) :
    (harvested a block yieldToken account).collateral = account.collateral := by
  rw [harvested]
  cases a.yieldTokens yieldToken with
  | none => rfl
  | some yt => exact harvest_collateral block account yt

theorem calculateFee_bounds {amount : ℤ} (h : 0 ≤ amount) :
    0 ≤ calculateFee amount 10 ∧ calculateFee amount 10 ≤ amount := by
  rw [calculateFee]
  constructor <;> omega

theorem burn_kept {a : Liquid} (ha : Valid a) {block : UInt64}
    {owner yieldToken syntheticToken : Address} {amount : ℤ} (hamount : 0 ≤ amount)
    (hclean : CleanBurn a block owner yieldToken syntheticToken amount) :
    Kept a (burn a block owner yieldToken syntheticToken amount) := by
  rw [burn]
  cases hst : a.liquidTokens syntheticToken with
  | none => exact .refused ha _
  | some st =>
      dsimp only
      cases haccount : a.accounts (accountKey owner yieldToken) with
      | none => exact .refused ha _
      | some account =>
          dsimp only
          by_cases hzero : account.debt = 0
          · rw [if_pos hzero]
            exact .refused ha _
          rw [if_neg hzero]
          have hclean := hclean st account hst haccount hzero
          obtain ⟨hdebt, hle⟩ := harvested_debt block yieldToken (ha.nonneg _ _ haccount).2
          have hhealthy := ha.sound.healthy _ _ haccount
          obtain ⟨-, hceiling⟩ := ha.sound.minted _ _ hst
          have hcollateral := harvested_collateral a block yieldToken account
          rw [ha.fee _ _ hst]
          generalize harvested a block yieldToken account = account' at *
          have hburn : (if account'.debt < amount then account'.debt else amount) =
              min amount account'.debt := by
            split_ifs <;> omega
          rw [hburn]
          generalize hmin : min amount account'.debt = burnAmount at *
          obtain ⟨hfee, hfee'⟩ := calculateFee_bounds (by omega : 0 ≤ burnAmount)
          rw [if_neg (by omega)]
          refine .done (Valid.saveLiquidToken (ha.saveAccount haccount ?_ ?_ ?_)
            syntheticToken ?_ ⟨?_, ?_⟩) ()
          · exact hcollateral
          · dsimp only
            omega
          · dsimp only
            rw [hcollateral]
            omega
          · rfl
          · exact sub_nonneg.mpr hclean
          · dsimp only
            omega

/-- A clean call keeps the loans valid and fails without a trace. -/
theorem Valid.step {a : Liquid} (ha : Valid a) {call : Call} (hnonneg : 0 ≤ call.op.amount)
    (hclean : Clean a call) : Kept a (perform a call) := by
  obtain ⟨block, op⟩ := call
  cases op with
  | addYieldToken token yieldPerBlock =>
      change Kept a (Loans.addYieldToken a token yieldPerBlock)
      rw [Loans.addYieldToken]
      cases h : a.yieldTokens token with
      | none => exact .done (ha.addYieldToken yieldPerBlock h) ()
      | some yt => exact .refused ha _
  | addLiquidToken synthetic debtCeiling =>
      change Kept a (addLiquidToken a synthetic debtCeiling)
      rw [addLiquidToken]
      cases a.liquidTokens synthetic with
      | none =>
          refine .done (ha.saveLiquidToken synthetic ?_ ⟨?_, ?_⟩) ()
          · rfl
          · exact le_rfl
          · exact hnonneg
      | some st => exact .refused ha _
  | deposit owner yieldToken amount => exact deposit_kept ha block owner yieldToken amount
  | withdraw owner yieldToken amount => exact withdraw_kept ha hclean
  | mint owner yieldToken syntheticToken amount => exact mint_kept ha hnonneg hclean
  | burn owner yieldToken syntheticToken amount => exact burn_kept ha hnonneg hclean
  | harvest owner yieldToken =>
      simp only [perform, Loans.harvest]
      cases a.yieldTokens yieldToken with
      | none => exact .refused ha _
      | some yt =>
          dsimp only
          cases h : a.accounts (accountKey owner yieldToken) with
          | none => exact .refused ha _
          | some account => exact .done (ha.harvest block yt h) ()

theorem lastHarvestBlock_of_saved {a : Liquid} {block : UInt64} {key : Address × Address}
    {account : LiquidAccount} {yt : YieldToken} (h : a.accounts key = some account)
    (hsame : a.saveAccount key (harvestYieldInternal block account yt).1 = a) :
    account.lastHarvestBlock = block := by
  have hkey := congrArg (fun a => Liquid.accounts a key) hsame
  simp only [Liquid.saveAccount_accounts, Function.update_self, h] at hkey
  rw [← Option.some.inj hkey, harvest_lastHarvestBlock]

/-- A withdrawal that its checks refuse leaves its harvest behind. -/
theorem withdraw_refused {a : Liquid} {block : UInt64} {owner yieldToken : Address} {amount : ℤ}
    {yt : YieldToken} {account : LiquidAccount} (hyt : a.yieldTokens yieldToken = some yt)
    (haccount : a.accounts (accountKey owner yieldToken) = some account)
    (hcollateral : account.collateral ≠ 0)
    (h : ¬ (amount ≤ account.collateral ∧
      (0 < (harvestYieldInternal block account yt).1.debt →
        (harvestYieldInternal block account yt).1.debt ≤
          calculateMaxDebt (account.collateral - amount)))) :
    ∃ e, withdraw a block owner yieldToken amount =
      (a.saveAccount (accountKey owner yieldToken) (harvestYieldInternal block account yt).1,
        .error e) := by
  simp only [withdraw, hyt, haccount, if_neg hcollateral, harvest_collateral]
  by_cases hexceeds : account.collateral < amount
  · exact ⟨_, if_pos hexceeds⟩
  · rw [if_neg hexceeds, if_pos]
    · exact ⟨_, rfl⟩
    · by_contra hhealthy
      exact h ⟨not_lt.mp hexceeds, fun hdebt => not_lt.mp fun hmax => hhealthy ⟨hdebt, hmax⟩⟩

/-- A mint beyond the loan-to-value leaves its harvest behind. -/
theorem mint_refused {a : Liquid} {block : UInt64} {owner yieldToken syntheticToken : Address}
    {amount : ℤ} {yt : YieldToken} {st : LiquidToken} {account : LiquidAccount}
    (hyt : a.yieldTokens yieldToken = some yt) (hactive : yt.isActive = true)
    (hst : a.liquidTokens syntheticToken = some st)
    (hceiling : st.totalMinted + amount ≤ st.debtCeiling)
    (haccount : a.accounts (accountKey owner yieldToken) = some account)
    (hcollateral : account.collateral ≠ 0)
    (h : ¬ (harvestYieldInternal block account yt).1.debt + amount ≤
      calculateMaxDebt account.collateral) :
    mint a block owner yieldToken syntheticToken amount =
      (a.saveAccount (accountKey owner yieldToken) (harvestYieldInternal block account yt).1,
        .error .maxLTVExceeded) := by
  simp only [mint, hyt, hactive, hst, if_neg (not_lt.mpr hceiling), haccount, if_neg hcollateral,
    harvest_collateral, Bool.true_eq_false, if_false]
  exact if_pos (by omega)

/-- What a burn leaves of its liquid token. -/
theorem burn_liquidTokens {a : Liquid} {block : UInt64} {owner yieldToken syntheticToken : Address}
    {amount : ℤ} {st : LiquidToken} {account : LiquidAccount}
    (hst : a.liquidTokens syntheticToken = some st)
    (haccount : a.accounts (accountKey owner yieldToken) = some account)
    (hdebt : account.debt ≠ 0) :
    (burn a block owner yieldToken syntheticToken amount).1.liquidTokens syntheticToken =
      some { st with totalMinted :=
        st.totalMinted - min amount (harvested a block yieldToken account).debt } := by
  simp only [burn, hst, haccount, if_neg hdebt, Liquid.saveLiquidToken_liquidTokens,
    Function.update_self]
  have hburn : (if (harvested a block yieldToken account).debt < amount then
      (harvested a block yieldToken account).debt else amount) =
        min amount (harvested a block yieldToken account).debt := by
    split_ifs <;> omega
  rw [hburn]

/-- A lawful call is clean. -/
theorem clean_of_lawful {a : Liquid} {call : Call} (h : Lawful a call) : Clean a call := by
  obtain ⟨block, op⟩ := call
  cases op with
  | withdraw owner yieldToken amount =>
      intro yt account hyt haccount hcollateral
      by_contra hunclean
      obtain ⟨hblock, hchecks⟩ := not_or.mp hunclean
      obtain ⟨e, hrefused⟩ := withdraw_refused hyt haccount hcollateral hchecks
      have hsame := h.frame e (congrArg Prod.snd hrefused)
      exact hblock
        (lastHarvestBlock_of_saved haccount ((congrArg Prod.fst hrefused).symm.trans hsame))
  | mint owner yieldToken syntheticToken amount =>
      intro yt st account hyt hactive hst hceiling haccount hcollateral
      by_contra hunclean
      obtain ⟨hblock, hltv⟩ := not_or.mp hunclean
      have hrefused := mint_refused hyt hactive hst hceiling haccount hcollateral hltv
      have hsame := h.frame _ (congrArg Prod.snd hrefused)
      exact hblock
        (lastHarvestBlock_of_saved haccount ((congrArg Prod.fst hrefused).symm.trans hsame))
  | burn owner yieldToken syntheticToken amount =>
      intro st account hst haccount hdebt
      exact sub_nonneg.mp (h.sound.minted _ _ (burn_liquidTokens hst haccount hdebt)).1
  | addYieldToken | addLiquidToken | deposit | harvest => trivial

/-! ## Runs -/

/-- The loans are lawful exactly along the runs of clean calls. -/
theorem loans_lawful_iff (calls : List Call) (hnonneg : ∀ call ∈ calls, 0 ≤ call.op.amount) :
    Along record Lawful newLiquid calls ↔ Along record Clean newLiquid calls := by
  have hamounts : Along record (fun _ call => 0 ≤ call.op.amount) newLiquid calls :=
    along_forall_iff.mpr hnonneg
  constructor
  · intro h
    refine Along.imp_of_invariant (I := Valid) ?_ ?_ calls newLiquid_valid (hamounts.and h)
    · exact fun a call ha hcall => (ha.step hcall.1 (clean_of_lawful hcall.2)).valid
    · exact fun a call ha hcall => clean_of_lawful hcall.2
  · intro h
    refine Along.imp_of_invariant (I := Valid) ?_ ?_ calls newLiquid_valid (hamounts.and h)
    · exact fun a call ha hcall => (ha.step hcall.1 hcall.2).valid
    · intro a call ha hcall
      have hkept := ha.step hcall.1 hcall.2
      exact ⟨hkept.valid.sound, hkept.frame⟩

/-- A loan of account 3 in yield token 1 that its yield repays in part. -/
def sampleRun : List Call :=
  [⟨1, .addYieldToken 1 (10 ^ 16)⟩, ⟨1, .addLiquidToken 2 1000000⟩, ⟨1, .deposit 3 1 2000000⟩,
    ⟨1, .mint 3 1 2 1000000⟩, ⟨11, .harvest 3 1⟩, ⟨11, .burn 3 1 2 400000⟩,
    ⟨11, .withdraw 3 1 1000000⟩]

theorem loans_lawful_sample :
    (Along record Lawful newLiquid sampleRun ↔ Along record Clean newLiquid sampleRun) ∧
      (sampleRun.foldl record newLiquid).accounts (3, 1) = some ⟨1000000, 400004, 11, 0⟩ ∧
      (sampleRun.foldl record newLiquid).liquidTokens 2 = some ⟨600000, 1000000, 10⟩ :=
  ⟨loans_lawful_iff sampleRun (by decide), by decide, by decide⟩

/-- The fee of a burn stays as debt, and burning that too leaves less than nothing
minted. -/
theorem burn_below_minted :
    ¬ ∀ calls : List Call, (∀ call ∈ calls, 0 ≤ call.op.amount) →
      calls.Pairwise (fun call call' => call.block ≤ call'.block) →
        Along record Lawful newLiquid calls := by
  intro hlawful
  let loan : List Call := [⟨1, .addYieldToken 1 0⟩, ⟨1, .addLiquidToken 2 1000000⟩,
    ⟨1, .deposit 3 1 2000000⟩, ⟨1, .mint 3 1 2 1000000⟩, ⟨1, .burn 3 1 2 1000000⟩,
    ⟨1, .burn 3 1 2 10⟩]
  obtain ⟨-, -, -, -, -, hlast, -⟩ := hlawful loan (by decide) (by decide)
  have hminted : (loan.foldl record newLiquid).liquidTokens 2 = some ⟨-10, 1000000, 10⟩ := by
    decide
  exact absurd (hlast.sound.minted 2 _ hminted).1 (by decide)

end LuxPrecompile.Loans
