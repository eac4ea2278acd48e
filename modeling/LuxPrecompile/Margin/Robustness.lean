import LuxPrecompile.Margin.Engine

/-!
# Robustness of the margin engine

A call that trades either writes what it decides on last or not at all, with one exception:
a position that grows is written before its leverage is known.  The leverage is also the only
divisor that nothing checks: an order may carry none, and the one of a position that has
grown is a quotient that may be zero or have more than 32 bits.
-/

namespace LuxPrecompile.Margin

open Evm Support Support.Checked
open MarginEngine (increasedLeverage liquidationFees)

/-! ## Runs -/

/-- The calls that trade. -/
inductive Trade
  | openPosition (owner : Address) (marketID : Word) (side : PositionSide) (size : ℤ)
      (leverage : UInt32) (markPrice : ℤ) (isIsolated : Bool)
  | closePosition (owner : Address) (marketID : Word) (sizeToClose closePrice : ℤ)
  | updatePositionMargin (owner : Address) (marketID : Word) (marginDelta : ℤ)
  | liquidatePosition (owner : Address) (marketID : Word) (currentPrice : ℤ)

/-- What happens to an engine: the calls, and the collateral parameters and the value of an
account's collateral, which no call writes. -/
inductive Action
  | trade (t : Trade)
  | createAccount (owner : Address) (accountType : MarginAccountType)
  | depositCollateral (owner asset : Address) (amount : ℤ)
  | withdrawCollateral (owner asset : Address) (amount : ℤ)
  | setStopLoss (owner : Address) (marketID : Word) (stopPrice : ℤ)
  | setTakeProfit (owner : Address) (marketID : Word) (takeProfitPrice : ℤ)
  | configure (asset : Address) (rate : Option CollateralRate)
  | revalue (owner : Address) (collateralValue : ℤ)

/-- Sizes are positive and prices are not negative. -/
def Trade.Admissible : Trade → Prop
  | .openPosition _ _ _ size _ markPrice _ => 0 < size ∧ 0 ≤ markPrice
  | .closePosition _ _ sizeToClose closePrice => 0 < sizeToClose ∧ 0 ≤ closePrice
  | .updatePositionMargin _ _ _ => True
  | .liquidatePosition _ _ currentPrice => 0 ≤ currentPrice

def Action.Admissible : Action → Prop
  | .trade t => t.Admissible
  | _ => True

/-- The engine that a call leaves behind, unless it panics. -/
def after {α : Type} : Checked Failure (α × MarginEngine) → Option MarginEngine
  | .ok (_, me) => some me
  | .error (.refused (_, me)) => some me
  | .error .panic => none

def Trade.next (me : MarginEngine) : Trade → Option MarginEngine
  | .openPosition owner marketID side size leverage markPrice isIsolated =>
      after (me.openPosition owner marketID side size leverage markPrice isIsolated)
  | .closePosition owner marketID sizeToClose closePrice =>
      after (me.closePosition owner marketID sizeToClose closePrice)
  | .updatePositionMargin owner marketID marginDelta =>
      after (me.updatePositionMargin owner marketID marginDelta)
  | .liquidatePosition owner marketID currentPrice =>
      after (me.liquidatePosition owner marketID currentPrice)

def Action.next (me : MarginEngine) : Action → Option MarginEngine
  | .trade t => t.next me
  | .createAccount owner accountType => after (me.createAccount owner accountType)
  | .depositCollateral owner asset amount => after (me.depositCollateral owner asset amount)
  | .withdrawCollateral owner asset amount => after (me.withdrawCollateral owner asset amount)
  | .setStopLoss owner marketID stopPrice => after (me.setStopLoss owner marketID stopPrice)
  | .setTakeProfit owner marketID takeProfitPrice =>
      after (me.setTakeProfit owner marketID takeProfitPrice)
  | .configure asset rate =>
      some { me with collateralRates := Function.update me.collateralRates asset rate }
  | .revalue owner collateralValue =>
      (me.accounts owner).map fun account => me.setAccount owner { account with collateralValue }

/-- The engines that some run reaches.  A call that gives an error may be followed by others. -/
inductive Reachable : MarginEngine → Prop
  | new : Reachable newMarginEngine
  | step {me me' : MarginEngine} (a : Action) (h : Reachable me) (ha : a.Admissible)
      (hnext : a.next me = some me') : Reachable me'

/-! ## The property -/

/-- The position of an owner in a market. -/
def MarginEngine.position (me : MarginEngine) (owner : Address) (marketID : Word) :
    Option MarginPosition :=
  (me.accounts owner).bind fun account => account.positions.get marketID

/-- The collateral, the positions and the insurance fund are the same. -/
structure Unchanged (me me' : MarginEngine) : Prop where
  collateral : ∀ owner, (me'.accounts owner).map MarginAccount.collateral =
    (me.accounts owner).map MarginAccount.collateral
  positions : ∀ owner marketID, me'.position owner marketID = me.position owner marketID
  insuranceFund : me'.insuranceFund = me.insuranceFund

theorem Unchanged.refl (me : MarginEngine) : Unchanged me me :=
  ⟨fun _ => rfl, fun _ _ => rfl, rfl⟩

/-- A call does not panic, and changes nothing if it gives an error. -/
structure Clean {α : Type} (me : MarginEngine) (x : Checked Failure (α × MarginEngine)) :
    Prop where
  returns : x ≠ .error .panic
  unchanged : ∀ e me', x = .error (.refused (e, me')) → Unchanged me me'

def Robust (me : MarginEngine) : Trade → Prop
  | .openPosition owner marketID side size leverage markPrice isIsolated =>
      Clean me (me.openPosition owner marketID side size leverage markPrice isIsolated)
  | .closePosition owner marketID sizeToClose closePrice =>
      Clean me (me.closePosition owner marketID sizeToClose closePrice)
  | .updatePositionMargin owner marketID marginDelta =>
      Clean me (me.updatePositionMargin owner marketID marginDelta)
  | .liquidatePosition owner marketID currentPrice =>
      Clean me (me.liquidatePosition owner marketID currentPrice)

/-- An order passes the checks on its leverage and its margin. -/
def Accepted (account : MarginAccount) (size : ℤ) (leverage : UInt32) (markPrice : ℤ)
    (isIsolated : Bool) : Prop :=
  leverage ≤ account.maxLeverage ∧
    (isIsolated = true ∨ account.accountType = isolatedMargin ∨
      requiredMargin account size markPrice ≤ calculateFreeMargin account)

/-- The leverage of a margin, if there is one, is a 32 bit number other than zero. -/
def Fits (margin notional : ℤ) : Prop :=
  0 < margin → margin ≤ notional ∧ notional < 2 ^ 32 * margin

/-- An accepted order has a leverage, and leaves one to the position it adds to. -/
def Trade.Leveraged (me : MarginEngine) : Trade → Prop
  | .openPosition owner marketID side size leverage markPrice isIsolated =>
      ∀ account, me.accounts owner = some account →
        Accepted account size leverage markPrice isIsolated →
          leverage ≠ 0 ∧ ∀ existing, account.positions.get marketID = some existing →
            existing.side = side →
              Fits (existing.margin + requiredMargin account size markPrice)
                (notionalValue (existing.size + size) existing.markPrice)
  | _ => True

/-! ## Clean calls -/

section Clean

variable {α : Type} {me me' : MarginEngine}

theorem clean_ok (a : α) : Clean me (.ok (a, me')) :=
  ⟨nofun, nofun⟩

theorem clean_fail (e : Error) : Clean me (fail e me : Checked Failure (α × MarginEngine)) where
  returns := by simp [fail]
  unchanged e' me' h := by
    simp only [fail, Except.error.injEq, Fault.refused.injEq, Prod.mk.injEq] at h
    rw [← h.2]
    exact Unchanged.refl me

theorem not_clean_panic : ¬ Clean me (.error .panic : Checked Failure (α × MarginEngine)) :=
  fun h => h.returns rfl

theorem not_clean_of_position {e : Error} {owner : Address} {marketID : Word}
    (h : me'.position owner marketID ≠ me.position owner marketID) :
    ¬ Clean me (fail e me' : Checked Failure (α × MarginEngine)) :=
  fun hclean => h ((hclean.unchanged e me' rfl).positions owner marketID)

end Clean

/-! ## What a call leaves behind -/

section Leaves

variable {α : Type} {P : MarginEngine → Prop}

/-- The engine that a call leaves behind has a property. -/
def Leaves (P : MarginEngine → Prop) (x : Checked Failure (α × MarginEngine)) : Prop :=
  ∀ me, after x = some me → P me

theorem leaves_ok {a : α} {me : MarginEngine} (h : P me) : Leaves P (.ok (a, me)) := by
  rintro _ ⟨⟩
  exact h

theorem leaves_fail {e : Error} {me : MarginEngine} (h : P me) :
    Leaves P (fail e me : Checked Failure (α × MarginEngine)) := by
  rintro _ ⟨⟩
  exact h

theorem leaves_panic : Leaves P (.error .panic : Checked Failure (α × MarginEngine)) :=
  nofun

end Leaves

/-! ## Positions and writes -/

section Writes

variable {me : MarginEngine} {owner : Address} {account account' : MarginAccount}

theorem position_of_account (h : me.accounts owner = some account) (marketID : Word) :
    me.position owner marketID = account.positions.get marketID := by
  rw [MarginEngine.position, h]
  rfl

theorem position_setAccount (o : Address) (k : Word) :
    (me.setAccount owner account').position o k =
      if o = owner then account'.positions.get k else me.position o k := by
  by_cases ho : o = owner
  · simp [MarginEngine.position, MarginEngine.setAccount, ho]
  · simp [MarginEngine.position, MarginEngine.setAccount, ho, Function.update_of_ne]

theorem position_setPosition (marketID : Word) (position : MarginPosition) :
    (me.setPosition owner account marketID position).position owner marketID = some position := by
  simp [MarginEngine.setPosition, position_setAccount, FinMap.get_insert]

end Writes

/-! ## The invariant -/

/-- A position of a market: it has a size and a leverage. -/
structure Held (marketID : Word) (position : MarginPosition) : Prop where
  market : position.marketID = marketID
  size : 0 < position.size
  leverage : position.leverage ≠ 0

/-- The positions have a size and a leverage, and the insurance fund is not negative. -/
structure Valid (me : MarginEngine) : Prop where
  positions : ∀ owner marketID position, me.position owner marketID = some position →
    Held marketID position
  insuranceFund : 0 ≤ me.insuranceFund

theorem valid_new : Valid newMarginEngine where
  positions _ _ _ h := by cases h
  insuranceFund := le_rfl

namespace Valid

variable {me : MarginEngine} {owner : Address} {account : MarginAccount} {marketID : Word}
  {position : MarginPosition}

theorem held (h : Valid me) (hacc : me.accounts owner = some account)
    (hpos : account.positions.get marketID = some position) : Held marketID position :=
  h.positions owner marketID position (by rw [position_of_account hacc, hpos])

theorem setAccount (h : Valid me)
    (hpos : ∀ k p, account.positions.get k = some p → Held k p) :
    Valid (me.setAccount owner account) where
  positions o k p hp := by
    rw [position_setAccount] at hp
    by_cases ho : o = owner
    · rw [if_pos ho] at hp
      exact hpos k p hp
    · rw [if_neg ho] at hp
      exact h.positions o k p hp
  insuranceFund := h.insuranceFund

theorem revise (h : Valid me) (hacc : me.accounts owner = some account)
    {account' : MarginAccount} (hsame : account'.positions = account.positions) :
    Valid (me.setAccount owner account') := by
  refine h.setAccount fun k p hk => ?_
  rw [hsame] at hk
  exact h.held hacc hk

theorem setPosition (h : Valid me) (hacc : me.accounts owner = some account)
    (hp : Held marketID position) : Valid (me.setPosition owner account marketID position) := by
  refine h.setAccount fun k p hk => ?_
  rw [FinMap.get_insert] at hk
  by_cases hkm : k = marketID
  · subst hkm
    rw [Function.update_self, Option.some.injEq] at hk
    rw [← hk]
    exact hp
  · rw [Function.update_of_ne hkm] at hk
    exact h.held hacc hk

theorem deletePosition (h : Valid me) (hacc : me.accounts owner = some account) :
    Valid (me.deletePosition owner account marketID) := by
  refine h.setAccount fun k p hk => ?_
  rw [FinMap.get_erase] at hk
  by_cases hkm : k = marketID
  · rw [hkm, Function.update_self] at hk
    cases hk
  · rw [Function.update_of_ne hkm] at hk
    exact h.held hacc hk

theorem withFund (h : Valid me) {fund : ℤ} (hfund : 0 ≤ fund) :
    Valid { me with insuranceFund := fund } :=
  ⟨h.positions, hfund⟩

theorem withTotals (h : Valid me) (totalCollateral : Address → Option ℤ) :
    Valid { me with totalCollateral } :=
  ⟨h.positions, h.insuranceFund⟩

end Valid

/-! ## Leverage -/

theorem calculateLiquidationPrice_of_ne {ε : Type} {leverage : UInt32} (h : leverage ≠ 0)
    (side : PositionSide) (entryPrice : ℤ) (maintenanceMargin : UInt32) :
    ∃ price, (calculateLiquidationPrice side entryPrice leverage maintenanceMargin :
      Checked ε ℤ) = .ok price := by
  have hne : (leverage.toNat : ℤ) ≠ 0 := by
    rw [Int.natCast_ne_zero]
    exact fun h0 => h (UInt32.toNat_inj.mp h0)
  rw [calculateLiquidationPrice, div_of_ne hne]
  exact ⟨_, rfl⟩

/-- A position that has a leverage keeps one where its margin fits it. -/
theorem increasedLeverage_of_fits {position : MarginPosition} (hlev : position.leverage ≠ 0)
    (h : Fits position.margin (notionalValue position.size position.markPrice)) :
    ∃ leverage, leverage ≠ 0 ∧ increasedLeverage position = .ok leverage := by
  by_cases hmargin : 0 < position.margin
  · obtain ⟨hle, hlt⟩ := h hmargin
    have hlow : 1 ≤ notionalValue position.size position.markPrice / position.margin := by
      rw [Int.le_ediv_iff_mul_le hmargin, one_mul]
      exact hle
    have hhigh : notionalValue position.size position.markPrice / position.margin < 2 ^ 32 := by
      rw [Int.ediv_lt_iff_lt_mul hmargin]
      exact hlt
    rw [increasedLeverage, if_pos hmargin, div_of_ne hmargin.ne', ok_bind, if_neg (by omega)]
    refine ⟨_, fun h0 => ?_, rfl⟩
    have hnat := congrArg UInt32.toNat h0
    rw [UInt32.toNat_ofNat', Nat.mod_eq_of_lt (by omega), UInt32.toNat_zero] at hnat
    omega
  · exact ⟨_, hlev, if_neg hmargin⟩

theorem increasedLeverage_of_not_fits {position : MarginPosition}
    (h : ¬ Fits position.margin (notionalValue position.size position.markPrice)) :
    increasedLeverage position = .ok 0 ∨ increasedLeverage position = .error (.refused ()) := by
  rw [Fits, Classical.not_imp, not_and_or] at h
  obtain ⟨hmargin, hq⟩ := h
  rw [← one_mul position.margin, ← Int.le_ediv_iff_mul_le hmargin, one_mul,
    ← Int.ediv_lt_iff_lt_mul hmargin] at hq
  rw [increasedLeverage, if_pos hmargin, div_of_ne hmargin.ne', ok_bind]
  by_cases hzero : notionalValue position.size position.markPrice / position.margin = 0
  · rw [hzero]
    exact .inl rfl
  · exact .inr (if_pos (by omega))

/-! ## Growing, reducing and flipping a position -/

/-- The position as `increasePosition` writes it before its leverage is known. -/
def merged (existing incoming : MarginPosition) : MarginPosition :=
  { existing with
    entryPrice := (existing.size * existing.entryPrice + incoming.size * incoming.entryPrice) /
      (existing.size + incoming.size)
    size := existing.size + incoming.size
    margin := existing.margin + incoming.margin }

section Change

variable (me : MarginEngine) (owner : Address) (account : MarginAccount) {marketID : Word}
  {existing incoming : MarginPosition}

/-- A position that grows is written before its leverage is known. -/
theorem increasePosition_eq (hsize : existing.size + incoming.size ≠ 0) :
    me.increasePosition owner account marketID existing incoming =
      match increasedLeverage (merged existing incoming) with
      | .error .panic => .error .panic
      | .error (.refused _) =>
          fail .excessiveLeverage
            (me.setPosition owner account marketID (merged existing incoming))
      | .ok leverage =>
          calculateLiquidationPrice (merged existing incoming).side
              (merged existing incoming).entryPrice leverage account.maintenanceMargin >>=
            fun liquidationPrice =>
              let position := { merged existing incoming with leverage, liquidationPrice }
              .ok (some position, me.setPosition owner account marketID position) := by
  rw [MarginEngine.increasePosition, div_of_ne hsize]
  rfl

theorem held_merged (h : Held marketID existing) (hsize : 0 < incoming.size) :
    Held marketID (merged existing incoming) where
  market := h.market
  size := add_pos h.size hsize
  leverage := h.leverage

/-- A position grows where its margin fits it. -/
theorem increasePosition_of_fits (h : Held marketID existing) (hsize : 0 < incoming.size)
    (hfits : Fits (existing.margin + incoming.margin)
      (notionalValue (existing.size + incoming.size) existing.markPrice)) :
    ∃ position, Held marketID position ∧
      me.increasePosition owner account marketID existing incoming =
        .ok (some position, me.setPosition owner account marketID position) := by
  have hmerged := held_merged h hsize
  have hfits' : Fits (merged existing incoming).margin
      (notionalValue (merged existing incoming).size (merged existing incoming).markPrice) :=
    hfits
  obtain ⟨leverage, hlev, hincr⟩ := increasedLeverage_of_fits hmerged.leverage hfits'
  obtain ⟨price, hprice⟩ := calculateLiquidationPrice_of_ne (ε := Failure) hlev
    (merged existing incoming).side (merged existing incoming).entryPrice
    account.maintenanceMargin
  refine ⟨{ merged existing incoming with leverage, liquidationPrice := price }, ?_, ?_⟩
  · exact ⟨hmerged.market, hmerged.size, hlev⟩
  · rw [increasePosition_eq me owner account (add_pos h.size hsize).ne', hincr]
    simp only [hprice, ok_bind]

/-- Otherwise growing it panics, or is refused after the position has been written. -/
theorem increasePosition_of_not_fits (h : Held marketID existing) (hsize : 0 < incoming.size)
    (hfits : ¬ Fits (existing.margin + incoming.margin)
      (notionalValue (existing.size + incoming.size) existing.markPrice)) :
    me.increasePosition owner account marketID existing incoming = .error .panic ∨
      me.increasePosition owner account marketID existing incoming =
        fail .excessiveLeverage
          (me.setPosition owner account marketID (merged existing incoming)) := by
  have hfits' : ¬ Fits (merged existing incoming).margin
      (notionalValue (merged existing incoming).size (merged existing incoming).markPrice) :=
    hfits
  rw [increasePosition_eq me owner account (add_pos h.size hsize).ne']
  rcases increasedLeverage_of_not_fits hfits' with hincr | hincr
  · rw [hincr]
    exact .inl rfl
  · rw [hincr]
    exact .inr rfl

/-- A position on the other side is reduced, closed or flipped. -/
theorem reduceOrFlipPosition_cases (h : Held marketID existing) (hin : Held marketID incoming) :
    (∃ position, Held marketID position ∧
      me.reduceOrFlipPosition owner account marketID existing incoming =
        .ok (some position, me.setPosition owner account marketID position)) ∨
    me.reduceOrFlipPosition owner account marketID existing incoming =
      .ok (none, me.deletePosition owner account marketID) := by
  rw [MarginEngine.reduceOrFlipPosition]
  by_cases hle : incoming.size ≤ existing.size
  · rw [if_pos hle]
    by_cases hzero : existing.size - incoming.size = 0
    · rw [if_pos hzero, h.market]
      exact .inr rfl
    · have hsize : 0 < existing.size - incoming.size := by omega
      rw [if_neg hzero]
      exact .inl ⟨{ existing with
        realizedPnL := existing.realizedPnL +
          calculatePnL existing incoming.entryPrice incoming.size
        size := existing.size - incoming.size }, ⟨h.market, hsize, h.leverage⟩, rfl⟩
  · have hsize : 0 < incoming.size - existing.size := by omega
    obtain ⟨price, hprice⟩ := calculateLiquidationPrice_of_ne (ε := Failure) hin.leverage
      incoming.side incoming.entryPrice account.maintenanceMargin
    rw [if_neg hle, hprice, ok_bind, hin.market]
    exact .inl ⟨{ incoming with
      marketID
      size := incoming.size - existing.size
      unrealizedPnL := 0
      realizedPnL := calculatePnL existing incoming.entryPrice existing.size
      liquidationPrice := price
      stopLoss := none
      takeProfit := none }, ⟨rfl, hsize, hin.leverage⟩, rfl⟩

end Change

/-! ## The calls -/

section Calls

variable {me : MarginEngine} {owner : Address} {account : MarginAccount} {marketID : Word}

/-- Growing a position is clean exactly where its margin fits it. -/
theorem increasePosition_clean {existing incoming : MarginPosition} (h : Valid me)
    (hacc : me.accounts owner = some account)
    (hpos : account.positions.get marketID = some existing) (hsize : 0 < incoming.size) :
    Leaves Valid (me.increasePosition owner account marketID existing incoming) ∧
      (Clean me (me.increasePosition owner account marketID existing incoming) ↔
        Fits (existing.margin + incoming.margin)
          (notionalValue (existing.size + incoming.size) existing.markPrice)) := by
  have hheld := h.held hacc hpos
  by_cases hfits : Fits (existing.margin + incoming.margin)
      (notionalValue (existing.size + incoming.size) existing.markPrice)
  · obtain ⟨position, hposition, heq⟩ := increasePosition_of_fits me owner account hheld hsize
      hfits
    rw [heq]
    exact ⟨leaves_ok (h.setPosition hacc hposition), iff_of_true (clean_ok _) hfits⟩
  · rcases increasePosition_of_not_fits me owner account hheld hsize hfits with
      heq | heq
    · rw [heq]
      exact ⟨leaves_panic, iff_of_false not_clean_panic hfits⟩
    · have hmoved : (me.setPosition owner account marketID (merged existing incoming)).position
          owner marketID ≠ me.position owner marketID := by
        rw [position_setPosition, position_of_account hacc, hpos]
        intro heq
        have hsame : existing.size + incoming.size = existing.size :=
          congrArg MarginPosition.size (Option.some.inj heq)
        omega
      rw [heq]
      exact ⟨leaves_fail (h.setPosition hacc (held_merged hheld hsize)),
        iff_of_false (not_clean_of_position hmoved) hfits⟩

theorem reduceOrFlipPosition_clean {existing incoming : MarginPosition} (h : Valid me)
    (hacc : me.accounts owner = some account)
    (hpos : account.positions.get marketID = some existing) (hin : Held marketID incoming) :
    Leaves Valid (me.reduceOrFlipPosition owner account marketID existing incoming) ∧
      Clean me (me.reduceOrFlipPosition owner account marketID existing incoming) := by
  rcases reduceOrFlipPosition_cases me owner account (h.held hacc hpos) hin with
    ⟨position, hposition, heq⟩ | heq
  · rw [heq]
    exact ⟨leaves_ok (h.setPosition hacc hposition), clean_ok _⟩
  · rw [heq]
    exact ⟨leaves_ok (h.deletePosition hacc), clean_ok _⟩

/-- An order is opened once its leverage and its margin are accepted. -/
theorem openPosition_cases (hacc : me.accounts owner = some account) (marketID : Word)
    (side : PositionSide) (size : ℤ) (leverage : UInt32) (markPrice : ℤ) (isIsolated : Bool) :
    (∃ e, ¬ Accepted account size leverage markPrice isIsolated ∧
      me.openPosition owner marketID side size leverage markPrice isIsolated = fail e me) ∨
    (Accepted account size leverage markPrice isIsolated ∧ leverage = 0 ∧
      me.openPosition owner marketID side size leverage markPrice isIsolated =
        .error .panic) ∨
    ∃ position : MarginPosition, Accepted account size leverage markPrice isIsolated ∧
      leverage ≠ 0 ∧ position.marketID = marketID ∧ position.size = size ∧
      position.leverage = leverage ∧ position.margin = requiredMargin account size markPrice ∧
      me.openPosition owner marketID side size leverage markPrice isIsolated =
        match account.positions.get marketID with
        | some existing =>
            if existing.side = side then
              me.increasePosition owner account marketID existing position
            else me.reduceOrFlipPosition owner account marketID existing position
        | none => .ok (some position, me.setPosition owner account marketID position) := by
  simp only [MarginEngine.openPosition, hacc]
  by_cases hmax : account.maxLeverage < leverage
  · rw [if_pos hmax]
    exact .inl ⟨_, fun hok => absurd hmax (UInt32.not_lt.mpr hok.1), rfl⟩
  by_cases hfree : ¬ (isIsolated = true ∨ account.accountType = isolatedMargin) ∧
      calculateFreeMargin account < requiredMargin account size markPrice
  · rw [if_neg hmax, if_pos hfree]
    refine .inl ⟨_, fun hok => ?_, rfl⟩
    rcases hok.2 with hiso | hiso | hle
    · exact hfree.1 (.inl hiso)
    · exact hfree.1 (.inr hiso)
    · exact absurd hfree.2 (not_lt.mpr hle)
  have hok : Accepted account size leverage markPrice isIsolated := by
    refine ⟨UInt32.not_lt.mp hmax, ?_⟩
    by_cases hiso : isIsolated = true ∨ account.accountType = isolatedMargin
    · exact hiso.imp_right .inl
    · exact .inr (.inr (not_lt.mp fun hlt => hfree ⟨hiso, hlt⟩))
  rw [if_neg hmax, if_neg hfree]
  by_cases hlev : leverage = 0
  · subst hlev
    exact .inr (.inl ⟨hok, rfl, rfl⟩)
  · obtain ⟨price, hprice⟩ := calculateLiquidationPrice_of_ne (ε := Failure) hlev side markPrice
      account.maintenanceMargin
    rw [hprice]
    exact .inr (.inr ⟨_, hok, hlev, rfl, rfl, rfl, rfl, rfl⟩)

/-- An order is clean exactly where it has a leverage and leaves one to the position. -/
theorem openPosition_clean {side : PositionSide} {size : ℤ} {leverage : UInt32} {markPrice : ℤ}
    {isIsolated : Bool} (h : Valid me) (hsize : 0 < size) :
    Leaves Valid (me.openPosition owner marketID side size leverage markPrice isIsolated) ∧
      (Clean me (me.openPosition owner marketID side size leverage markPrice isIsolated) ↔
        (Trade.openPosition owner marketID side size leverage markPrice isIsolated).Leveraged
          me) := by
  rcases hacc : me.accounts owner with _ | account
  · have heq : me.openPosition owner marketID side size leverage markPrice isIsolated =
        fail .accountNotFound me := by
      rw [MarginEngine.openPosition, hacc]
    rw [heq]
    exact ⟨leaves_fail h, iff_of_true (clean_fail _) fun a ha => by simp [hacc] at ha⟩
  have hlev : (Trade.openPosition owner marketID side size leverage markPrice
      isIsolated).Leveraged me ↔
        (Accepted account size leverage markPrice isIsolated → leverage ≠ 0 ∧
          ∀ existing, account.positions.get marketID = some existing → existing.side = side →
            Fits (existing.margin + requiredMargin account size markPrice)
              (notionalValue (existing.size + size) existing.markPrice)) := by
    simp only [Trade.Leveraged, hacc, Option.some.injEq, forall_eq']
  rw [hlev]
  rcases openPosition_cases hacc marketID side size leverage markPrice isIsolated with
    ⟨e, hno, heq⟩ | ⟨hok, hzero, heq⟩ | ⟨position, hok, hne, hmarket, rfl, rfl, hmargin, heq⟩
  · rw [heq]
    exact ⟨leaves_fail h, iff_of_true (clean_fail _) fun hok => absurd hok hno⟩
  · rw [heq]
    exact ⟨leaves_panic, iff_of_false not_clean_panic fun hall => (hall hok).1 hzero⟩
  have hheld : Held marketID position := ⟨hmarket, hsize, hne⟩
  rw [heq, ← hmargin, imp_iff_right hok, and_iff_right hne]
  rcases hpos : account.positions.get marketID with _ | existing
  · refine ⟨leaves_ok (h.setPosition hacc hheld), iff_of_true (clean_ok _) fun existing hsome => ?_⟩
    exact absurd hsome (Option.some_ne_none existing).symm
  by_cases hside : existing.side = side
  · obtain ⟨hleaves, hclean⟩ := increasePosition_clean h hacc hpos hsize
    simp only [if_pos hside, Option.some.injEq, forall_eq']
    exact ⟨hleaves, hclean.trans (imp_iff_right hside).symm⟩
  · obtain ⟨hleaves, hclean⟩ := reduceOrFlipPosition_clean h hacc hpos hheld
    simp only [if_neg hside]
    refine ⟨hleaves, iff_of_true hclean ?_⟩
    rintro _ ⟨⟩ hsame
    exact absurd hsame hside

theorem closePosition_clean {sizeToClose closePrice : ℤ} (h : Valid me) :
    Leaves Valid (me.closePosition owner marketID sizeToClose closePrice) ∧
      Clean me (me.closePosition owner marketID sizeToClose closePrice) := by
  rcases hacc : me.accounts owner with _ | account
  · simp only [MarginEngine.closePosition, hacc]
    exact ⟨leaves_fail h, clean_fail _⟩
  rcases hpos : account.positions.get marketID with _ | position
  · simp only [MarginEngine.closePosition, hacc, hpos]
    exact ⟨leaves_fail h, clean_fail _⟩
  have hheld := h.held hacc hpos
  by_cases hfull : position.size ≤ sizeToClose
  · simp only [MarginEngine.closePosition, hacc, hpos, if_pos hfull]
    exact ⟨leaves_ok (h.deletePosition hacc), clean_ok _⟩
  · have hsize : 0 < position.size - sizeToClose := by omega
    have hne : position.size - sizeToClose + sizeToClose ≠ 0 := by
      have := hheld.size
      omega
    simp only [MarginEngine.closePosition, hacc, hpos, if_neg hfull, div_of_ne hne, ok_bind]
    exact ⟨leaves_ok (h.setPosition hacc ⟨hheld.market, hsize, hheld.leverage⟩), clean_ok _⟩

theorem checked_clean {α : Type} {c : Prop} [Decidable c] {me' : MarginEngine} {e : Error}
    {a : α} (h : Valid me) (h' : Valid me') :
    Leaves Valid (if c then fail e me else .ok (a, me') : Checked Failure (α × MarginEngine)) ∧
      Clean me (if c then fail e me else .ok (a, me') : Checked Failure (α × MarginEngine)) := by
  by_cases hc : c
  · rw [if_pos hc]
    exact ⟨leaves_fail h, clean_fail e⟩
  · rw [if_neg hc]
    exact ⟨leaves_ok h', clean_ok a⟩

theorem updatePositionMargin_clean {marginDelta : ℤ} (h : Valid me) :
    Leaves Valid (me.updatePositionMargin owner marketID marginDelta) ∧
      Clean me (me.updatePositionMargin owner marketID marginDelta) := by
  rcases hacc : me.accounts owner with _ | account
  · simp only [MarginEngine.updatePositionMargin, hacc]
    exact ⟨leaves_fail h, clean_fail _⟩
  rcases hpos : account.positions.get marketID with _ | position
  · simp only [MarginEngine.updatePositionMargin, hacc, hpos]
    exact ⟨leaves_fail h, clean_fail _⟩
  have hheld := h.held hacc hpos
  by_cases hiso : position.isIsolated = true
  swap
  · simp only [MarginEngine.updatePositionMargin, hacc, hpos, if_pos hiso]
    exact ⟨leaves_fail h, clean_fail _⟩
  by_cases hmargin : position.margin + marginDelta ≤ 0
  · simp only [MarginEngine.updatePositionMargin, hacc, hpos, if_neg (not_not.mpr hiso),
      if_pos hmargin]
    exact ⟨leaves_fail h, clean_fail _⟩
  obtain ⟨price, hprice⟩ := calculateLiquidationPrice_of_ne (ε := Failure) hheld.leverage
    position.side position.entryPrice account.maintenanceMargin
  simp only [MarginEngine.updatePositionMargin, hacc, hpos, if_neg (not_not.mpr hiso),
    if_neg hmargin, hprice, ok_bind]
  have hwritten : Valid (me.setPosition owner account marketID { position with
      margin := position.margin + marginDelta
      liquidationPrice := price }) :=
    h.setPosition hacc ⟨hheld.market, hheld.size, hheld.leverage⟩
  by_cases hneg : marginDelta < 0
  · rw [if_pos hneg, div_of_ne (by omega), ok_bind]
    exact checked_clean h hwritten
  · rw [if_neg hneg]
    exact checked_clean h hwritten

/-- The insurance fund and the fee it receives are not negative. -/
theorem liquidationFees_nonneg {fund notional remainingMargin : ℤ} (hfund : 0 ≤ fund)
    (hnotional : 0 ≤ notional) :
    0 ≤ (liquidationFees fund notional remainingMargin).2.2 +
      (liquidationFees fund notional remainingMargin).2.1 := by
  have hfee : 0 ≤ notional * defaultLiquidationPenalty / marginPrecision := by
    simp only [defaultLiquidationPenalty, marginPrecision]
    omega
  simp only [liquidationFees]
  split_ifs with hcap hleft hcover
  · change 0 ≤ fund + (remainingMargin - remainingMargin / 2)
    omega
  · change 0 ≤ fund - -remainingMargin + 0
    omega
  · change 0 ≤ fund + 0
    omega
  · exact add_nonneg hfund hfee

theorem liquidatePosition_clean {currentPrice : ℤ} (h : Valid me) (hprice : 0 ≤ currentPrice) :
    Leaves Valid (me.liquidatePosition owner marketID currentPrice) ∧
      Clean me (me.liquidatePosition owner marketID currentPrice) := by
  rcases hacc : me.accounts owner with _ | account
  · simp only [MarginEngine.liquidatePosition, hacc]
    exact ⟨leaves_fail h, clean_fail _⟩
  rcases hpos : account.positions.get marketID with _ | position
  · simp only [MarginEngine.liquidatePosition, hacc, hpos]
    exact ⟨leaves_fail h, clean_fail _⟩
  have hheld := h.held hacc hpos
  have hnotional : 0 ≤ notionalValue position.size currentPrice :=
    Int.ediv_nonneg (mul_nonneg hheld.size.le hprice) (by norm_num [q96])
  simp only [MarginEngine.liquidatePosition, hacc, hpos]
  by_cases hliq : isPositionLiquidatable position currentPrice account.maintenanceMargin = true
  · rw [if_pos hliq]
    exact ⟨leaves_ok ((h.deletePosition hacc).withFund
      (liquidationFees_nonneg h.insuranceFund hnotional)), clean_ok _⟩
  · rw [if_neg hliq]
    exact ⟨leaves_fail h, clean_fail _⟩

theorem setTrigger_leaves {write : MarginPosition → MarginPosition} (h : Valid me)
    (hwrite : ∀ position, Held marketID position → Held marketID (write position)) :
    Leaves Valid (me.setTrigger owner marketID write) := by
  rcases hacc : me.accounts owner with _ | account
  · simp only [MarginEngine.setTrigger, hacc]
    exact leaves_fail h
  rcases hpos : account.positions.get marketID with _ | position
  · simp only [MarginEngine.setTrigger, hacc, hpos]
    exact leaves_fail h
  simp only [MarginEngine.setTrigger, hacc, hpos]
  exact leaves_ok (h.setPosition hacc (hwrite position (h.held hacc hpos)))

theorem createAccount_leaves {accountType : MarginAccountType} (h : Valid me) :
    Leaves Valid (me.createAccount owner accountType) := by
  rcases hacc : me.accounts owner with _ | account
  · simp only [MarginEngine.createAccount, hacc]
    exact leaves_ok (h.setAccount fun k p hsome => absurd hsome (Option.some_ne_none p).symm)
  · simp only [MarginEngine.createAccount, hacc]
    exact leaves_fail h

theorem depositCollateral_leaves {asset : Address} {amount : ℤ} (h : Valid me) :
    Leaves Valid (me.depositCollateral owner asset amount) := by
  rcases hacc : me.accounts owner with _ | account
  · simp only [MarginEngine.depositCollateral, hacc]
    exact leaves_fail h
  by_cases hactive : (me.collateralRates asset).any CollateralRate.isActive = true
  · simp only [MarginEngine.depositCollateral, hacc, if_pos hactive]
    refine leaves_ok (Valid.withTotals (h.revise hacc ?_) _)
    rfl
  · simp only [MarginEngine.depositCollateral, hacc, if_neg hactive]
    exact leaves_fail h

theorem withdrawCollateral_leaves {asset : Address} {amount : ℤ} (h : Valid me) :
    Leaves Valid (me.withdrawCollateral owner asset amount) := by
  rcases hacc : me.accounts owner with _ | account
  · simp only [MarginEngine.withdrawCollateral, hacc]
    exact leaves_fail h
  rcases hcoll : account.collateral asset with _ | collateral
  · simp only [MarginEngine.withdrawCollateral, hacc, hcoll]
    exact leaves_fail h
  simp only [MarginEngine.withdrawCollateral, hacc, hcoll]
  split_ifs
  · exact leaves_fail h
  · exact leaves_fail h
  rcases htotal : me.totalCollateral asset with _ | total
  · exact leaves_panic
  · refine leaves_ok (Valid.withTotals (h.revise hacc ?_) _)
    rfl

end Calls

/-! ## Runs keep the invariant -/

theorem valid_next_trade {me me' : MarginEngine} {t : Trade} (h : Valid me)
    (ht : t.Admissible) (hnext : t.next me = some me') : Valid me' := by
  cases t with
  | openPosition => exact (openPosition_clean h ht.1).1 me' hnext
  | closePosition => exact (closePosition_clean h).1 me' hnext
  | updatePositionMargin => exact (updatePositionMargin_clean h).1 me' hnext
  | liquidatePosition => exact (liquidatePosition_clean h ht).1 me' hnext

theorem valid_next {me me' : MarginEngine} {a : Action} (h : Valid me) (ha : a.Admissible)
    (hnext : a.next me = some me') : Valid me' := by
  cases a with
  | trade t => exact valid_next_trade h ha hnext
  | createAccount => exact createAccount_leaves h me' hnext
  | depositCollateral => exact depositCollateral_leaves h me' hnext
  | withdrawCollateral => exact withdrawCollateral_leaves h me' hnext
  | setStopLoss =>
      refine setTrigger_leaves h ?_ me' hnext
      exact fun _ hp => ⟨hp.market, hp.size, hp.leverage⟩
  | setTakeProfit =>
      refine setTrigger_leaves h ?_ me' hnext
      exact fun _ hp => ⟨hp.market, hp.size, hp.leverage⟩
  | configure asset rate =>
      obtain rfl := Option.some.inj hnext
      exact ⟨h.positions, h.insuranceFund⟩
  | revalue owner collateralValue =>
      obtain ⟨account, hacc, rfl⟩ := Option.map_eq_some_iff.mp hnext
      exact h.revise hacc rfl

theorem Reachable.valid {me : MarginEngine} (h : Reachable me) : Valid me := by
  induction h with
  | new => exact valid_new
  | step a _ ha hnext ih => exact valid_next ih ha hnext

/-- In every engine that a run reaches the insurance fund is not negative, and a call returns
without a panic, leaving everything as it was if it gives an error, exactly where it is not an
order without a leverage or one that leaves a position without. -/
theorem trades_robust_iff {me : MarginEngine} (h : Reachable me) :
    0 ≤ me.insuranceFund ∧ ∀ t : Trade, t.Admissible → (Robust me t ↔ t.Leveraged me) := by
  refine ⟨h.valid.insuranceFund, fun t ht => ?_⟩
  cases t with
  | openPosition => exact (openPosition_clean h.valid ht.1).2
  | closePosition => exact iff_of_true (closePosition_clean h.valid).2 trivial
  | updatePositionMargin => exact iff_of_true (updatePositionMargin_clean h.valid).2 trivial
  | liquidatePosition => exact iff_of_true (liquidatePosition_clean h.valid ht).2 trivial

/-! ## An account -/

/-- The engine after an account of an owner is created. -/
def created : MarginEngine :=
  newMarginEngine.setAccount 1
    { owner := 1
      accountType := isolatedMargin
      collateral := fun _ => none
      collateralValue := 0
      positions := .empty
      maxLeverage := isolatedMaxLeverage
      maintenanceMargin := defaultMaintenanceMargin
      initialMargin := defaultInitialMargin }

theorem reachable_created : Reachable created :=
  .step (.createAccount 1 isolatedMargin) .new trivial rfl

/-- An order of that account at ten times its margin. -/
def opening : Trade := .openPosition 1 7 long (2 ^ 96) 10 (2 ^ 96) true

/-- The position that it opens grows by an order at twice the price. -/
theorem trades_robust_increased :
    ∃ me, opening.next created = some me ∧ Reachable me ∧ 0 ≤ me.insuranceFund ∧
      (me.position 1 7).isSome ∧
        Robust me (.openPosition 1 7 long (2 ^ 96) 10 (2 * 2 ^ 96) true) := by
  obtain ⟨me, hme⟩ : ∃ me, opening.next created = some me := ⟨_, rfl⟩
  have hopening : opening.Admissible := ⟨by norm_num, by norm_num⟩
  have hreach : Reachable me := .step (.trade opening) reachable_created hopening hme
  obtain ⟨hfund, hrobust⟩ := trades_robust_iff hreach
  have hadm : (Trade.openPosition 1 7 long (2 ^ 96) 10 (2 * 2 ^ 96) true).Admissible :=
    ⟨by norm_num, by norm_num⟩
  have hleveraged : (Trade.openPosition 1 7 long (2 ^ 96) 10 (2 * 2 ^ 96) true).Leveraged me := by
    obtain rfl := Option.some.inj hme
    rintro account ⟨⟩ -
    refine ⟨by decide, ?_⟩
    rintro existing ⟨⟩ - -
    exact ⟨by decide, by decide⟩
  refine ⟨me, hme, hreach, hfund, ?_, (hrobust _ hadm).mpr hleveraged⟩
  obtain rfl := Option.some.inj hme
  rfl

/-- An order of one unit at nine, a notional value whose margin rounds to nothing. -/
def small : Trade := .openPosition 1 7 long 1 10 (9 * 2 ^ 96) true

/-- An order without a leverage panics.  An order that adds so much to the small one that its
leverage at the price of that one has more than 32 bits is refused, and has changed it. -/
theorem trades_not_robust :
    (Reachable created ∧ ¬ Robust created (.openPosition 1 7 long 1 0 1 true)) ∧
      ∃ me, Reachable me ∧ small.next created = some me ∧
        ¬ Robust me (.openPosition 1 7 long (2 ^ 60) 10 (10 * 2 ^ 36) true) := by
  refine ⟨⟨reachable_created, not_clean_panic⟩, ?_⟩
  have hadm : small.Admissible := ⟨by norm_num, by norm_num⟩
  obtain ⟨me, hme⟩ : ∃ me, small.next created = some me := ⟨_, rfl⟩
  have hreach : Reachable me := .step (.trade small) reachable_created hadm hme
  refine ⟨me, hreach, hme, fun hrobust => ?_⟩
  have hlev := (openPosition_clean hreach.valid (by norm_num)).2.mp hrobust
  obtain rfl := Option.some.inj hme
  have hfits := (hlev _ rfl ⟨by decide, .inl rfl⟩).2 _ rfl rfl (by decide)
  exact absurd hfits.2 (by decide)

end LuxPrecompile.Margin
