import LuxPrecompile.Perps.OpenInterest

/-!
# The profit of a trader

A position carries its cost, the size at the entry price, and the funding that it has not
settled.  What a trader is returned is what the fills and the funding have paid, less what the
position carries, up to what the divisions drop.  A close drops less than a unit of the profit,
and less than a unit of the funding if there is any to settle.  An opening on a position
returns nothing: it drops the funding that it settles, the remainder of the average price, and
the profit of a position that it closes.
-/

namespace LuxPrecompile.Perps

open Evm Support

/-! ## The property -/

namespace PerpetualEngine

variable (pe : PerpetualEngine) (id : Word)

/-- The mark price of a market, zero without one. -/
def mark : ℤ := (pe.markets id).elim 0 fun entry => entry.1.markPrice

/-- The funding index of a market, zero without one. -/
def index : ℤ := (pe.markets id).elim 0 fun entry => entry.2.cumulativeFunding

end PerpetualEngine

/-- An engine, with what a trader has been returned in a market, the sums of the sizes filled
at the mark price and of the size held at each index increment, and the number of operations
on the trader's position and on the prices of the market. -/
structure TraderLedger where
  pe : PerpetualEngine
  returned : ℤ
  fills : ℤ
  funding : ℤ
  operations : ℕ

section Property

variable (owner : Address) (id : Word)

/-- An operation is on the trader's position or on the market. -/
def concerns : Op → Bool
  | .openPosition o marketID _ _ _ => decide (o = owner ∧ marketID = id)
  | .closePosition o marketID _ => decide (o = owner ∧ marketID = id)
  | .updateFunding marketID _ => decide (marketID = id)
  | .updateMarkPrice marketID _ => decide (marketID = id)
  | _ => false

/-- The profit a close returns to the trader. -/
def returnedBy (pe : PerpetualEngine) : Op → ℤ
  | .closePosition o marketID sizeToClose =>
      if o = owner ∧ marketID = id then
        match closePosition pe owner id sizeToClose with
        | .ok (pnl, _) => pnl
        | .error _ => 0
      else 0
  | _ => 0

/-- The signed size that an operation fills for the trader: a close fills against the
position, at most its size. -/
def filledBy (pe : PerpetualEngine) : Op → ℤ
  | .openPosition o marketID size margin isIsolated =>
      if o = owner ∧ marketID = id then
        match openPosition pe owner id size margin isIsolated with
        | .ok _ => size
        | .error _ => 0
      else 0
  | .closePosition o marketID sizeToClose =>
      if o = owner ∧ marketID = id then
        match closePosition pe owner id sizeToClose with
        | .ok _ =>
            let closed := min sizeToClose |pe.sizeOf id owner|
            if pe.sizeOf id owner < 0 then closed else -closed
        | .error _ => 0
      else 0
  | _ => 0

/-- What a funding update adds to the index of the market. -/
def incrementBy (pe : PerpetualEngine) : Op → ℤ
  | .updateFunding marketID now =>
      match updateFunding pe marketID now with
      | .ok (_, pe') => pe'.index id - pe.index id
      | .error _ => 0
  | _ => 0

def record (l : TraderLedger) (op : Op) : TraderLedger where
  pe := step l.pe op
  returned := l.returned + returnedBy owner id l.pe op
  fills := l.fills + filledBy owner id l.pe op * l.pe.mark id
  funding := l.funding + l.pe.sizeOf id owner * incrementBy id l.pe op
  operations := l.operations + if concerns owner id op then 1 else 0

/-- The ledger after a run. -/
def ledger (pe : PerpetualEngine) (ops : List Op) : TraderLedger :=
  ops.foldl (record owner id) ⟨pe, 0, 0, 0, 0⟩

/-- What the trader is returned is what the fills and the funding pay, up to a unit for each
operation. -/
def TraderLedger.Conserved (l : TraderLedger) : Prop :=
  |(l.returned : ℚ) - (-(l.fills : ℚ) / q96 - (l.funding : ℚ) / q96)| ≤ l.operations

/-- What an opening on a position drops, in parts of a unit: the funding it settles, with the
remainder of the average price or the profit of a position that it closes. -/
def openingLoss (position : PerpPosition) (market : PerpMarket) (state : FundingState)
    (size : ℤ) : ℤ :=
  let newSize := position.size + size
  let accrued := position.size * (state.cumulativeFunding - position.lastFundingIndex)
  if newSize = 0 then position.size * (position.entryPrice - market.markPrice) + accrued
  else (position.size * position.entryPrice + size * market.markPrice) % newSize + accrued

/-- An accepted opening on a position of the trader drops at most a unit. -/
def DropsLittle (pe : PerpetualEngine) : Op → Prop
  | .openPosition o marketID size margin _ =>
      o = owner → marketID = id → pe.Admits id size margin →
        ∀ position market state, pe.positions owner id = some position →
          pe.markets id = some (market, state) →
            |openingLoss position market state size| ≤ q96
  | _ => True

end Property

/-! ## What a position carries -/

section Carried

variable (owner : Address) (id : Word)

/-- The cost of the trader's position and the funding it has not settled. -/
def carried (pe : PerpetualEngine) : ℤ :=
  (pe.positions owner id).elim 0 fun position =>
    position.size * (position.entryPrice + (pe.index id - position.lastFundingIndex))

/-- One if the trader's position has funding to settle. -/
def pending (pe : PerpetualEngine) : ℤ :=
  (pe.positions owner id).elim 0 fun position =>
    if position.lastFundingIndex = pe.index id then 0 else 1

/-- What the trader has been returned beyond what the fills and the funding have paid, the
position apart. -/
def TraderLedger.excess (l : TraderLedger) : ℤ :=
  q96 * l.returned + l.fills + l.funding - carried owner id l.pe

/-- The excess is at most a unit for each operation, less one while funding is to be
settled. -/
def TraderLedger.Within (l : TraderLedger) : Prop :=
  |l.excess owner id| ≤ q96 * (l.operations - pending owner id l.pe)

/-- What an operation changes the excess by: at most a unit, one more if it settles the
funding, one less if it leaves some to settle. -/
def Costs (pe pe' : PerpetualEngine) (returned flow : ℤ) (operations : ℕ) : Prop :=
  |q96 * returned + flow - (carried owner id pe' - carried owner id pe)| ≤
    q96 * (operations + pending owner id pe - pending owner id pe')

end Carried

variable {owner : Address} {id : Word} {pe pe' : PerpetualEngine}

theorem pending_nonneg : 0 ≤ pending owner id pe := by
  rw [pending]
  rcases pe.positions owner id with _ | position
  · exact le_rfl
  · rw [Option.elim_some]
    split_ifs
    · exact le_rfl
    · exact zero_le_one

theorem pending_le_one : pending owner id pe ≤ 1 := by
  rw [pending]
  rcases pe.positions owner id with _ | position
  · exact zero_le_one
  · rw [Option.elim_some]
    split_ifs
    · exact zero_le_one
    · exact le_rfl

theorem Costs.within {l : TraderLedger} {op : Op} (h : l.Within owner id)
    (hcosts : Costs owner id l.pe (step l.pe op) (returnedBy owner id l.pe op)
      (filledBy owner id l.pe op * l.pe.mark id + l.pe.sizeOf id owner * incrementBy id l.pe op)
      (if concerns owner id op then 1 else 0)) :
    (record owner id l op).Within owner id := by
  have hexcess : (record owner id l op).excess owner id = l.excess owner id +
      (q96 * returnedBy owner id l.pe op +
        (filledBy owner id l.pe op * l.pe.mark id +
          l.pe.sizeOf id owner * incrementBy id l.pe op) -
        (carried owner id (step l.pe op) - carried owner id l.pe)) := by
    simp only [TraderLedger.excess, record]
    ring
  have htriangle := abs_add_le (l.excess owner id) (q96 * returnedBy owner id l.pe op +
    (filledBy owner id l.pe op * l.pe.mark id +
      l.pe.sizeOf id owner * incrementBy id l.pe op) -
    (carried owner id (step l.pe op) - carried owner id l.pe))
  rw [TraderLedger.Within, hexcess]
  refine htriangle.trans ((add_le_add h hcosts).trans (le_of_eq ?_))
  simp only [record]
  push_cast
  ring

/-- Without a position the excess is what the trader has been returned too much. -/
theorem TraderLedger.Within.conserved {l : TraderLedger} (h : l.Within owner id)
    (hnone : l.pe.positions owner id = none) : l.Conserved := by
  have hq : (0 : ℚ) < q96 := by norm_num [q96]
  have hexcess : l.excess owner id = q96 * l.returned + l.fills + l.funding := by
    rw [TraderLedger.excess, carried, hnone, Option.elim_none, sub_zero]
  have hbound : |q96 * l.returned + l.fills + l.funding| ≤ q96 * l.operations := by
    rw [TraderLedger.Within, hexcess, pending, hnone, Option.elim_none, sub_zero] at h
    exact h
  have hcast : |(q96 : ℚ) * l.returned + l.fills + l.funding| ≤ q96 * l.operations := by
    exact_mod_cast hbound
  have hsplit : (l.returned : ℚ) - (-(l.fills : ℚ) / q96 - (l.funding : ℚ) / q96) =
      ((q96 : ℚ) * l.returned + l.fills + l.funding) / q96 := by
    field_simp
    ring
  rw [TraderLedger.Conserved, hsplit, abs_div, abs_of_pos hq, div_le_iff₀ hq,
    mul_comm (l.operations : ℚ)]
  exact hcast

/-! ## Operations that do not concern the position -/

/-- What the carried cost and funding depend on. -/
def PerpPosition.terms (position : PerpPosition) : ℤ × ℤ × ℤ :=
  (position.size, position.entryPrice, position.lastFundingIndex)

/-- The trader's position has the terms that it had, and the funding index is the same. -/
structure SameView (owner : Address) (id : Word) (pe pe' : PerpetualEngine) : Prop where
  position : (pe'.positions owner id).map PerpPosition.terms =
    (pe.positions owner id).map PerpPosition.terms
  index : pe'.index id = pe.index id

theorem SameView.elim (h : SameView owner id pe pe') (g : ℤ × ℤ × ℤ → ℤ) :
    (pe'.positions owner id).elim 0 (fun position => g position.terms) =
      (pe.positions owner id).elim 0 fun position => g position.terms := by
  have hterms := congrArg (fun terms => terms.elim 0 g) h.position
  simpa only [Option.elim_map, Function.comp_def] using hterms

theorem SameView.carried (h : SameView owner id pe pe') :
    carried owner id pe' = carried owner id pe := by
  rw [Perps.carried, Perps.carried, h.index]
  exact h.elim fun terms => terms.1 * (terms.2.1 + (pe.index id - terms.2.2))

theorem SameView.pending (h : SameView owner id pe pe') :
    pending owner id pe' = pending owner id pe := by
  rw [Perps.pending, Perps.pending, h.index]
  exact h.elim fun terms => if terms.2.2 = pe.index id then 0 else 1

theorem SameView.costs (h : SameView owner id pe pe') (n : ℕ) :
    Costs owner id pe pe' 0 0 n := by
  rw [Costs, h.carried, h.pending, mul_zero, add_zero, sub_self, sub_zero, abs_zero,
    add_sub_cancel_right]
  exact mul_nonneg (by norm_num [q96]) (Int.natCast_nonneg n)

theorem SameView.refl (pe : PerpetualEngine) : SameView owner id pe pe := ⟨rfl, rfl⟩

/-- One position is written, and no funding index. -/
structure Writes (pe pe' : PerpetualEngine) (o : Address) (marketID : Word)
    (position : Option PerpPosition) : Prop where
  position : pe'.positions o marketID = position
  others : ∀ o' id', ¬ (o' = o ∧ id' = marketID) → pe'.positions o' id' = pe.positions o' id'
  index : ∀ id', pe'.index id' = pe.index id'

section Updates

variable (o : Address) (marketID : Word) (market : PerpMarket) (state : FundingState)
  (position : Option PerpPosition)

theorem index_setMarket : (pe.setMarket marketID market state).index id =
    if id = marketID then state.cumulativeFunding else pe.index id := by
  by_cases hid : id = marketID
  · simp [PerpetualEngine.index, PerpetualEngine.setMarket, hid]
  · simp [PerpetualEngine.index, PerpetualEngine.setMarket, hid]

theorem positions_setPosition : (pe.setPosition marketID o position).positions owner id =
    if owner = o ∧ id = marketID then position else pe.positions owner id := by
  by_cases howner : owner = o
  · subst howner
    by_cases hid : id = marketID
    · simp [PerpetualEngine.setPosition, hid]
    · simp [PerpetualEngine.setPosition, hid]
  · simp [PerpetualEngine.setPosition, howner]

theorem index_of_market (h : pe.markets id = some (market, state)) :
    pe.index id = state.cumulativeFunding := by
  rw [PerpetualEngine.index, h, Option.elim_some]

theorem mark_of_market (h : pe.markets id = some (market, state)) :
    pe.mark id = market.markPrice := by
  rw [PerpetualEngine.mark, h, Option.elim_some]

theorem writes_setPosition :
    Writes pe (pe.setPosition marketID o position) o marketID position where
  position := by rw [positions_setPosition, if_pos ⟨rfl, rfl⟩]
  others o' id' h := by rw [positions_setPosition, if_neg h]
  index _ := rfl

theorem writes_set {market state} (market' : PerpMarket)
    (h : pe.markets marketID = some (market, state)) :
    Writes pe ((pe.setPosition marketID o position).setMarket marketID market' state) o marketID
      position where
  position := (writes_setPosition o marketID position).position
  others := (writes_setPosition o marketID position).others
  index id' := by
    rw [index_setMarket]
    split_ifs with hid
    · rw [hid, index_of_market market state h]
    · rfl

end Updates

theorem Writes.sameView {o : Address} {marketID : Word} {position : Option PerpPosition}
    (h : Writes pe pe' o marketID position) (hne : ¬ (o = owner ∧ marketID = id)) :
    SameView owner id pe pe' where
  position := by
    rw [h.others owner id fun heq => hne ⟨heq.1.symm, heq.2.symm⟩]
  index := h.index id

theorem Writes.sameView_margin {o : Address} {marketID : Word} {position : PerpPosition}
    {margin : ℤ} (h : Writes pe pe' o marketID (some { position with margin }))
    (hposition : pe.positions o marketID = some position) : SameView owner id pe pe' := by
  by_cases heq : o = owner ∧ marketID = id
  · obtain ⟨rfl, rfl⟩ := heq
    refine ⟨?_, h.index marketID⟩
    rw [h.position, hposition]
    rfl
  · exact h.sameView heq

/-! ## Opening -/

/-- What an accepted opening writes: a position at the mark price; or the sum of the two, with
the funding settled and the average price; or nothing where the sum is empty. -/
theorem openPosition_writes {o : Address} {marketID : Word} {size margin : ℤ}
    {isIsolated : Bool} {result : Option PerpPosition}
    (h : openPosition pe o marketID size margin isIsolated = .ok (result, pe')) :
    ∃ market state, pe.markets marketID = some (market, state) ∧
      pe.Admits marketID size margin ∧ Writes pe pe' o marketID result ∧
      match pe.positions o marketID with
      | none => result = some ⟨size, market.markPrice, margin, state.cumulativeFunding, isIsolated⟩
      | some old =>
          if old.size + size = 0 then result = none
          else ∃ position, result = some position ∧ position.size = old.size + size ∧
            position.entryPrice =
              (old.size * old.entryPrice + size * market.markPrice) / (old.size + size) ∧
            position.lastFundingIndex = state.cumulativeFunding := by
  rw [openPosition] at h
  rcases hmarket : pe.markets marketID with _ | ⟨market, state⟩
  · rw [hmarket] at h
    cases h
  rw [hmarket] at h
  dsimp only at h
  rw [refuse_eq_ok, refuse_eq_ok] at h
  obtain ⟨hmargin, hleverage, h⟩ := h
  refine ⟨market, state, rfl, ⟨market, state, hmarket, hmargin, not_lt.mp hleverage⟩, ?_⟩
  rcases hposition : pe.positions o marketID with _ | old
  · rw [hposition] at h
    obtain ⟨rfl, rfl⟩ := Prod.mk.inj (Except.ok.inj h)
    exact ⟨writes_set o marketID _ _ hmarket, rfl⟩
  · rw [hposition] at h
    dsimp only at h
    by_cases hzero : (settleFundingForPosition old state).1.size + size = 0
    · rw [if_pos hzero] at h
      obtain ⟨rfl, rfl⟩ := Prod.mk.inj (Except.ok.inj h)
      rw [settle_size] at hzero
      exact ⟨writes_setPosition o marketID none, by simp only [if_pos hzero]⟩
    · rw [if_neg hzero] at h
      obtain ⟨rfl, rfl⟩ := Prod.mk.inj (Except.ok.inj h)
      refine ⟨writes_set o marketID _ _ hmarket, ?_⟩
      rw [settle_size] at hzero
      simp only [if_neg hzero]
      exact ⟨_, rfl, rfl, rfl, rfl⟩

theorem carried_of_settled {position : PerpPosition}
    (h : pe.positions owner id = some position) (hlast : position.lastFundingIndex = pe.index id) :
    carried owner id pe = position.size * position.entryPrice ∧ pending owner id pe = 0 := by
  rw [carried, pending, h, Option.elim_some, Option.elim_some, hlast, sub_self, add_zero,
    if_pos rfl]
  exact ⟨rfl, rfl⟩

theorem carried_of_none (h : pe.positions owner id = none) :
    carried owner id pe = 0 ∧ pending owner id pe = 0 := by
  rw [carried, pending, h]
  exact ⟨rfl, rfl⟩

theorem carried_of_some {position : PerpPosition} (h : pe.positions owner id = some position) :
    carried owner id pe =
      position.size * (position.entryPrice + (pe.index id - position.lastFundingIndex)) := by
  rw [carried, h, Option.elim_some]

/-- An opening costs what it drops. -/
theorem openPosition_costs {size margin : ℤ} {isIsolated : Bool} {result : Option PerpPosition}
    (h : openPosition pe owner id size margin isIsolated = .ok (result, pe'))
    (hdrops : DropsLittle owner id pe (.openPosition owner id size margin isIsolated)) :
    Costs owner id pe pe' 0 (size * pe.mark id) 1 := by
  have hq : 0 < q96 := by norm_num [q96]
  obtain ⟨market, state, hmarket, hadmits, hwrites, hresult⟩ := openPosition_writes h
  have hindex := hwrites.index id
  have hstate := index_of_market market state hmarket
  rw [Costs, mark_of_market market state hmarket, mul_zero, zero_add]
  rcases hold : pe.positions owner id with _ | old
  · rw [hold] at hresult
    subst hresult
    obtain ⟨hcarried, hpending⟩ := carried_of_none hold
    obtain ⟨hcarried', hpending'⟩ := carried_of_settled hwrites.position
      (hstate.symm.trans hindex.symm)
    rw [hcarried, hpending, hcarried', hpending', sub_zero, sub_self, abs_zero]
    positivity
  -- an opening on a position costs its loss, which is at most a unit
  have hloss := hdrops rfl rfl hadmits old market state hold hmarket
  have hcarried := carried_of_some hold
  have hpending : 0 ≤ pending owner id pe := pending_nonneg
  rw [hstate] at hcarried
  rw [openingLoss] at hloss
  rw [hold] at hresult
  dsimp only at hresult hloss
  by_cases hzero : old.size + size = 0
  · rw [if_pos hzero] at hresult hloss
    subst hresult
    obtain ⟨hcarried', hpending'⟩ := carried_of_none hwrites.position
    have hsize : size = -old.size := by omega
    have hcost : size * market.markPrice - (carried owner id pe' - carried owner id pe) =
        old.size * (old.entryPrice - market.markPrice) +
          old.size * (state.cumulativeFunding - old.lastFundingIndex) := by
      rw [hcarried, hcarried', hsize]
      ring
    rw [hcost, hpending']
    refine hloss.trans ?_
    push_cast
    nlinarith
  · rw [if_neg hzero] at hresult hloss
    obtain ⟨position, rfl, hsize, hentry, hlast⟩ := hresult
    obtain ⟨hcarried', hpending'⟩ := carried_of_settled hwrites.position
      (hlast.trans (hstate.symm.trans hindex.symm))
    have hdivision := Int.mul_ediv_add_emod
      (old.size * old.entryPrice + size * market.markPrice) (old.size + size)
    have hcost : size * market.markPrice - (carried owner id pe' - carried owner id pe) =
        (old.size * old.entryPrice + size * market.markPrice) % (old.size + size) +
          old.size * (state.cumulativeFunding - old.lastFundingIndex) := by
      rw [hcarried, hcarried', hsize, hentry]
      linear_combination -hdivision
    rw [hcost, hpending']
    refine hloss.trans ?_
    push_cast
    nlinarith

/-! ## Closing -/

/-- The size that is left of a position when a part of it is closed. -/
def remaining (size closed : ℤ) : ℤ := if size < 0 then size + closed else size - closed

theorem settle_terms (position : PerpPosition) (state : FundingState) :
    (settleFundingForPosition position state).1.size = position.size ∧
      (settleFundingForPosition position state).1.entryPrice = position.entryPrice ∧
      (settleFundingForPosition position state).1.lastFundingIndex = state.cumulativeFunding :=
  ⟨rfl, rfl, rfl⟩

/-- What an accepted close returns and writes: the profit of the part that is closed and the
funding of the position; and what is left of the position, with the funding settled. -/
theorem closePosition_writes {o : Address} {marketID : Word} {sizeToClose pnl : ℤ}
    (h : closePosition pe o marketID sizeToClose = .ok (pnl, pe')) :
    ∃ market state old result, pe.markets marketID = some (market, state) ∧
      pe.positions o marketID = some old ∧ Writes pe pe' o marketID result ∧
      pnl = realizedPnL old market (min sizeToClose |old.size|) -
        old.size * (state.cumulativeFunding - old.lastFundingIndex) / q96 ∧
      (result = none ∧ remaining old.size (min sizeToClose |old.size|) = 0 ∨
        ∃ position, result = some position ∧
          position.size = remaining old.size (min sizeToClose |old.size|) ∧
          position.entryPrice = old.entryPrice ∧
          position.lastFundingIndex = state.cumulativeFunding) := by
  rw [closePosition] at h
  rcases hmarket : pe.markets marketID with _ | ⟨market, state⟩
  · rw [hmarket] at h
    cases h
  rcases hold : pe.positions o marketID with _ | old
  · rw [hmarket, hold] at h
    cases h
  rw [hmarket, hold] at h
  dsimp only at h
  obtain ⟨hsize, hentry, hlast⟩ := settle_terms old state
  have hpaid : (settleFundingForPosition old state).2 =
      -(old.size * (state.cumulativeFunding - old.lastFundingIndex) / q96) := rfl
  rw [hpaid] at h
  generalize (settleFundingForPosition old state).1 = position at h hsize hentry hlast
  have hclosed : (if |position.size| < sizeToClose then |position.size| else sizeToClose) =
      min sizeToClose |position.size| := by
    by_cases hover : |position.size| < sizeToClose
    · rw [if_pos hover, min_eq_right hover.le]
    · rw [if_neg hover, min_eq_left (not_lt.mp hover)]
  rw [hclosed] at h
  have hprofit (closed : ℤ) :
      realizedPnL position market closed = realizedPnL old market closed := by
    rw [realizedPnL, realizedPnL, hsize, hentry]
  rw [hprofit, ← sub_eq_add_neg] at h
  rw [← hsize] at h
  by_cases hfull : |position.size| ≤ min sizeToClose |position.size|
  · rw [if_pos hfull] at h
    obtain ⟨rfl, rfl⟩ := Prod.mk.inj (Except.ok.inj h)
    refine ⟨market, state, old, none, rfl, rfl, writes_set o marketID _ _ hmarket, ?_,
      .inl ⟨rfl, ?_⟩⟩
    · rw [hsize]
    rw [← hsize, le_antisymm (min_le_right _ _) hfull, remaining]
    by_cases hneg : position.size < 0
    · rw [if_pos hneg, abs_of_neg hneg, add_neg_cancel]
    · rw [if_neg hneg, abs_of_nonneg (not_lt.mp hneg), sub_self]
  · rw [if_neg hfull, refuse_eq_ok] at h
    obtain ⟨hopen, h⟩ := h
    obtain ⟨rfl, rfl⟩ := Prod.mk.inj (Except.ok.inj h)
    refine ⟨market, state, old, _, rfl, rfl, writes_set o marketID _ _ hmarket, ?_,
      .inr ⟨_, rfl, ?_, hentry, hlast⟩⟩
    · rw [hsize]
    rw [← hsize]
    simp only [partialClose, remaining]
    rcases lt_trichotomy position.size 0 with hneg | hzero | hpos
    · rw [if_neg hneg.not_gt, if_pos hneg]
    · exact absurd (by rw [hzero, abs_zero]) hopen
    · rw [if_pos hpos, if_neg hpos.not_gt]

theorem unit_division (a : ℤ) : ∃ r, 0 ≤ r ∧ r < q96 ∧ q96 * (a / q96) = a - r := by
  have hq : (0 : ℤ) < q96 := by norm_num [q96]
  refine ⟨a % q96, Int.emod_nonneg a hq.ne', Int.emod_lt_of_pos a hq, ?_⟩
  linear_combination Int.mul_ediv_add_emod a q96

/-- A close costs less than a unit of the profit, and less than a unit of the funding if
there is any to settle. -/
theorem closePosition_costs {sizeToClose pnl : ℤ}
    (h : closePosition pe owner id sizeToClose = .ok (pnl, pe')) :
    Costs owner id pe pe' pnl
      ((if pe.sizeOf id owner < 0 then min sizeToClose |pe.sizeOf id owner|
        else -min sizeToClose |pe.sizeOf id owner|) * pe.mark id) 1 := by
  obtain ⟨market, state, old, result, hmarket, hold, hwrites, hpnl, hresult⟩ :=
    closePosition_writes h
  have hindex := hwrites.index id
  have hstate := index_of_market market state hmarket
  rw [sizeOf_of_position hold, mark_of_market market state hmarket, Costs]
  generalize min sizeToClose |old.size| = closed at *
  obtain ⟨hcarried', hpending'⟩ : carried owner id pe' =
      remaining old.size closed * old.entryPrice ∧ pending owner id pe' = 0 := by
    rcases hresult with ⟨rfl, hzero⟩ | ⟨position, rfl, hsize, hentry, hlast⟩
    · rw [hzero, zero_mul]
      exact carried_of_none hwrites.position
    · rw [← hsize, ← hentry]
      exact carried_of_settled hwrites.position (hlast.trans (hstate.symm.trans hindex.symm))
  have hcarried := carried_of_some hold
  rw [hstate] at hcarried
  obtain ⟨r, hr, hrlt, hprofit⟩ := unit_division (closed * (market.markPrice - old.entryPrice))
  obtain ⟨f, hf, hflt, hfunding⟩ :=
    unit_division (old.size * (state.cumulativeFunding - old.lastFundingIndex))
  have hfle : f ≤ (q96 - 1) * pending owner id pe := by
    rw [pending, hold, Option.elim_some, hstate]
    by_cases hlast : old.lastFundingIndex = state.cumulativeFunding
    · rw [hlast, sub_self, mul_zero, Int.zero_ediv, mul_zero] at hfunding
      rw [if_pos hlast, mul_zero]
      omega
    · rw [if_neg hlast, mul_one]
      omega
  have hpending : 0 ≤ q96 * pending owner id pe :=
    mul_nonneg (by norm_num [q96]) pending_nonneg
  have hpending'' : (0 : ℤ) ≤ pending owner id pe := pending_nonneg
  rw [hcarried, hcarried', hpending', hpnl, realizedPnL, remaining]
  by_cases hneg : old.size < 0
  · rw [if_pos hneg, if_pos hneg, if_pos hneg]
    have hcost : q96 * (-(closed * (market.markPrice - old.entryPrice) / q96) -
          old.size * (state.cumulativeFunding - old.lastFundingIndex) / q96) +
        closed * market.markPrice - ((old.size + closed) * old.entryPrice -
          old.size * (old.entryPrice + (state.cumulativeFunding - old.lastFundingIndex))) =
        r + f := by
      linear_combination -hprofit - hfunding
    rw [hcost, abs_of_nonneg (add_nonneg hr hf)]
    push_cast
    linarith
  · rw [if_neg hneg, if_neg hneg, if_neg hneg]
    have hcost : q96 * (closed * (market.markPrice - old.entryPrice) / q96 -
          old.size * (state.cumulativeFunding - old.lastFundingIndex) / q96) +
        -closed * market.markPrice - ((old.size - closed) * old.entryPrice -
          old.size * (old.entryPrice + (state.cumulativeFunding - old.lastFundingIndex))) =
        f - r := by
      linear_combination hprofit - hfunding
    rw [hcost, abs_le]
    push_cast
    constructor
    · linarith
    · linarith

/-! ## Funding -/

/-- An update writes the index of its market only. -/
theorem updateFunding_index {marketID : Word} {now : Int64}
    (h : updateFunding pe marketID now = .ok ((), pe')) (id : Word) :
    pe'.positions = pe.positions ∧ (id ≠ marketID → pe'.index id = pe.index id) := by
  rw [updateFunding] at h
  rcases hmarket : pe.markets marketID with _ | ⟨market, state⟩
  · rw [hmarket] at h
    cases h
  rw [hmarket] at h
  dsimp only at h
  split_ifs at h with hearly hindex
  · obtain ⟨-, rfl⟩ := Prod.mk.inj (Except.ok.inj h)
    exact ⟨rfl, fun _ => rfl⟩
  · obtain ⟨-, rfl⟩ := Prod.mk.inj (Except.ok.inj h)
    refine ⟨rfl, fun hid => ?_⟩
    rw [index_setMarket, if_neg hid]

/-- A position carries the funding of an update, which it may have to settle. -/
theorem updateFunding_costs (hpositions : pe'.positions = pe.positions) :
    Costs owner id pe pe' 0 (pe.sizeOf id owner * (pe'.index id - pe.index id)) 1 := by
  have hcarried : carried owner id pe' - carried owner id pe =
      pe.sizeOf id owner * (pe'.index id - pe.index id) := by
    rw [carried, carried, PerpetualEngine.sizeOf, hpositions]
    rcases pe.positions owner id with _ | position
    · simp only [Option.elim_none]
      ring
    · simp only [Option.elim_some]
      ring
  rw [Costs, hcarried, mul_zero, zero_add, sub_self, abs_zero]
  have hpending : pending owner id pe' ≤ 1 := pending_le_one
  have hpending' : 0 ≤ pending owner id pe := pending_nonneg
  refine mul_nonneg (by norm_num [q96]) ?_
  push_cast
  linarith

/-! ## The other operations -/

theorem createMarket_sameView {base quote : Address} {price : ℤ} {maxLeverage : UInt32}
    {maintenance : ℤ} {now : Int64} {marketID : Word}
    (h : createMarket pe base quote price maxLeverage maintenance now = .ok (marketID, pe')) :
    SameView owner id pe pe' := by
  rw [createMarket] at h
  rcases hmarket : pe.markets (generateMarketID base quote) with _ | entry
  · rw [hmarket] at h
    obtain ⟨-, rfl⟩ := Prod.mk.inj (Except.ok.inj h)
    refine ⟨rfl, ?_⟩
    rw [index_setMarket]
    split_ifs with hid
    · rw [hid, PerpetualEngine.index, hmarket, Option.elim_none]
    · rfl
  · rw [hmarket] at h
    cases h

theorem addMargin_sameView {o : Address} {marketID : Word} {amount : ℤ}
    (h : addMargin pe o marketID amount = .ok ((), pe')) : SameView owner id pe pe' := by
  rw [addMargin] at h
  rcases hposition : pe.positions o marketID with _ | position
  · rw [hposition] at h
    cases h
  · rw [hposition] at h
    obtain ⟨-, rfl⟩ := Prod.mk.inj (Except.ok.inj h)
    exact (writes_setPosition o marketID _).sameView_margin hposition

theorem removeMargin_sameView {o : Address} {marketID : Word} {amount : ℤ}
    (h : removeMargin pe o marketID amount = .ok ((), pe')) : SameView owner id pe pe' := by
  rw [removeMargin] at h
  rcases hmarket : pe.markets marketID with _ | entry
  · rw [hmarket] at h
    cases h
  rcases hposition : pe.positions o marketID with _ | position
  · rw [hmarket, hposition] at h
    cases h
  · rw [hmarket, hposition] at h
    dsimp only at h
    rw [refuse_eq_ok, refuse_eq_ok] at h
    obtain ⟨-, -, h⟩ := h
    obtain ⟨-, rfl⟩ := Prod.mk.inj (Except.ok.inj h)
    exact (writes_setPosition o marketID _).sameView_margin hposition

theorem liquidatePosition_writes {o : Address} {marketID : Word} {reward : ℤ}
    (h : liquidatePosition pe o marketID = .ok (reward, pe')) :
    Writes pe pe' o marketID none := by
  rw [liquidatePosition] at h
  rcases hmarket : pe.markets marketID with _ | ⟨market, state⟩
  · rw [hmarket] at h
    cases h
  rcases hposition : pe.positions o marketID with _ | old
  · rw [hmarket, hposition] at h
    cases h
  · rw [hmarket, hposition] at h
    dsimp only at h
    rw [refuse_eq_ok] at h
    obtain ⟨-, h⟩ := h
    obtain ⟨-, rfl⟩ := Prod.mk.inj (Except.ok.inj h)
    exact writes_set o marketID none _ hmarket

theorem sameView_setMarket {marketID : Word} {market market' : PerpMarket}
    {state : FundingState} (h : pe.markets marketID = some (market, state)) :
    SameView owner id pe (pe.setMarket marketID market' state) := by
  refine ⟨rfl, ?_⟩
  rw [index_setMarket]
  split_ifs with hid
  · rw [hid, index_of_market market state h]
  · rfl

theorem updateMarkPrice_sameView {marketID : Word} {newPrice : ℤ}
    (h : updateMarkPrice pe marketID newPrice = .ok ((), pe')) : SameView owner id pe pe' := by
  rw [updateMarkPrice] at h
  rcases hmarket : pe.markets marketID with _ | ⟨market, state⟩
  · rw [hmarket] at h
    cases h
  · rw [hmarket] at h
    obtain ⟨-, rfl⟩ := Prod.mk.inj (Except.ok.inj h)
    exact sameView_setMarket hmarket

theorem updateIndexPrice_sameView {marketID : Word} {newPrice : ℤ}
    (h : updateIndexPrice pe marketID newPrice = .ok ((), pe')) : SameView owner id pe pe' := by
  rw [updateIndexPrice] at h
  rcases hmarket : pe.markets marketID with _ | ⟨market, state⟩
  · rw [hmarket] at h
    cases h
  · rw [hmarket] at h
    obtain ⟨-, rfl⟩ := Prod.mk.inj (Except.ok.inj h)
    exact sameView_setMarket hmarket

/-! ## Runs -/

/-- The costs of an operation, with what it returns and fills. -/
abbrev StepCosts (owner : Address) (id : Word) (pe : PerpetualEngine) (op : Op) : Prop :=
  Costs owner id pe (step pe op) (returnedBy owner id pe op)
    (filledBy owner id pe op * pe.mark id + pe.sizeOf id owner * incrementBy id pe op)
    (if concerns owner id op then 1 else 0)

theorem stepCosts_of_sameView {op : Op} (h : SameView owner id pe (step pe op))
    (hreturned : returnedBy owner id pe op = 0) (hfilled : filledBy owner id pe op = 0)
    (hincrement : incrementBy id pe op = 0) : StepCosts owner id pe op := by
  rw [StepCosts, hreturned, hfilled, hincrement, zero_mul, mul_zero, add_zero]
  exact h.costs _

theorem step_sameView {α : Type} {op : Op} {x : Except Error (α × PerpetualEngine)}
    (hx : perform pe op = Prod.snd <$> x)
    (h : ∀ a pe', x = .ok (a, pe') → SameView owner id pe pe') :
    SameView owner id pe (step pe op) := by
  rw [step, hx]
  rcases x with e | ⟨a, pe'⟩
  · exact SameView.refl pe
  · exact h a pe' rfl

theorem stepCosts_of_costs {op : Op} {returned flow : ℤ}
    (hcosts : Costs owner id pe pe' returned flow 1) (hperform : perform pe op = .ok pe')
    (hconcerns : concerns owner id op = true) (hreturned : returnedBy owner id pe op = returned)
    (hflow : filledBy owner id pe op * pe.mark id + pe.sizeOf id owner * incrementBy id pe op =
      flow) :
    StepCosts owner id pe op := by
  have hstep : step pe op = pe' := by rw [step, hperform]
  rw [StepCosts, hstep, hreturned, hflow, if_pos hconcerns]
  exact hcosts

theorem openPosition_stepCosts {o : Address} {marketID : Word} {size margin : ℤ}
    {isIsolated : Bool}
    (hdrops : DropsLittle owner id pe (.openPosition o marketID size margin isIsolated)) :
    StepCosts owner id pe (.openPosition o marketID size margin isIsolated) := by
  by_cases hours : o = owner ∧ marketID = id
  · obtain ⟨rfl, rfl⟩ := hours
    rcases hopen : openPosition pe o marketID size margin isIsolated with e | ⟨result, pe'⟩
    · refine stepCosts_of_sameView (step_sameView rfl fun _ _ h => ?_) rfl ?_ rfl
      · rw [hopen] at h
        cases h
      · rw [filledBy, if_pos ⟨rfl, rfl⟩, hopen]
    · refine stepCosts_of_costs (openPosition_costs hopen hdrops)
        (map_eq_ok.mpr ⟨_, hopen, rfl⟩) (decide_eq_true ⟨rfl, rfl⟩) rfl ?_
      have hincrement : incrementBy marketID pe
          (.openPosition o marketID size margin isIsolated) = 0 := rfl
      rw [hincrement, mul_zero, add_zero, filledBy, if_pos ⟨rfl, rfl⟩, hopen]
  · refine stepCosts_of_sameView (step_sameView rfl fun result pe' hopen => ?_) rfl
      (if_neg hours) rfl
    obtain ⟨_, _, -, -, hwrites, -⟩ := openPosition_writes hopen
    exact hwrites.sameView hours

theorem closePosition_stepCosts {o : Address} {marketID : Word} {sizeToClose : ℤ} :
    StepCosts owner id pe (.closePosition o marketID sizeToClose) := by
  by_cases hours : o = owner ∧ marketID = id
  · obtain ⟨rfl, rfl⟩ := hours
    rcases hclose : closePosition pe o marketID sizeToClose with e | ⟨pnl, pe'⟩
    · refine stepCosts_of_sameView (step_sameView rfl fun _ _ h => ?_) ?_ ?_ rfl
      · rw [hclose] at h
        cases h
      · rw [returnedBy, if_pos ⟨rfl, rfl⟩, hclose]
      · rw [filledBy, if_pos ⟨rfl, rfl⟩, hclose]
    · refine stepCosts_of_costs (closePosition_costs hclose)
        (map_eq_ok.mpr ⟨_, hclose, rfl⟩) (decide_eq_true ⟨rfl, rfl⟩) ?_ ?_
      · rw [returnedBy, if_pos ⟨rfl, rfl⟩, hclose]
      · have hincrement : incrementBy marketID pe (.closePosition o marketID sizeToClose) = 0 :=
          rfl
        rw [hincrement, mul_zero, add_zero, filledBy, if_pos ⟨rfl, rfl⟩, hclose]
  · refine stepCosts_of_sameView (step_sameView rfl fun pnl pe' hclose => ?_) (if_neg hours)
      (if_neg hours) rfl
    obtain ⟨_, _, _, _, -, -, hwrites, -⟩ := closePosition_writes hclose
    exact hwrites.sameView hours

theorem updateFunding_stepCosts {marketID : Word} {now : Int64} :
    StepCosts owner id pe (.updateFunding marketID now) := by
  rcases hupdate : updateFunding pe marketID now with e | ⟨⟨⟩, pe'⟩
  · refine stepCosts_of_sameView (step_sameView rfl fun _ _ h => ?_) rfl rfl ?_
    · rw [hupdate] at h
      cases h
    · rw [incrementBy, hupdate]
  obtain ⟨hpositions, hindex⟩ := updateFunding_index hupdate id
  by_cases hid : marketID = id
  · refine stepCosts_of_costs (updateFunding_costs hpositions)
      (map_eq_ok.mpr ⟨_, hupdate, rfl⟩) (decide_eq_true hid) rfl ?_
    have hfilled : filledBy owner id pe (.updateFunding marketID now) = 0 := rfl
    rw [hfilled, zero_mul, zero_add, incrementBy, hupdate]
  · have hsame := hindex fun heq => hid heq.symm
    refine stepCosts_of_sameView (step_sameView rfl fun _ pe'' h => ?_) rfl rfl ?_
    · rw [hupdate] at h
      obtain ⟨-, rfl⟩ := Prod.mk.inj (Except.ok.inj h)
      exact ⟨by rw [hpositions], hsame⟩
    · simp only [incrementBy, hupdate, hsame, sub_self]

/-- What an operation costs, a liquidation of the trader in the market apart. -/
theorem stepCosts {op : Op} (hliquidates : op ≠ .liquidatePosition owner id)
    (hdrops : DropsLittle owner id pe op) : StepCosts owner id pe op := by
  cases op with
  | createMarket =>
      exact stepCosts_of_sameView
        (step_sameView rfl fun _ _ h => createMarket_sameView h) rfl rfl rfl
  | openPosition => exact openPosition_stepCosts hdrops
  | closePosition => exact closePosition_stepCosts
  | addMargin =>
      exact stepCosts_of_sameView (step_sameView rfl fun _ _ h => addMargin_sameView h) rfl rfl rfl
  | removeMargin =>
      exact stepCosts_of_sameView
        (step_sameView rfl fun _ _ h => removeMargin_sameView h) rfl rfl rfl
  | liquidatePosition o marketID =>
      have hours : ¬ (o = owner ∧ marketID = id) := by
        rintro ⟨rfl, rfl⟩
        exact hliquidates rfl
      exact stepCosts_of_sameView
        (step_sameView rfl fun _ _ h => (liquidatePosition_writes h).sameView hours) rfl rfl rfl
  | updateFunding => exact updateFunding_stepCosts
  | updateMarkPrice =>
      exact stepCosts_of_sameView
        (step_sameView rfl fun _ _ h => updateMarkPrice_sameView h) rfl rfl rfl
  | updateIndexPrice =>
      exact stepCosts_of_sameView
        (step_sameView rfl fun _ _ h => updateIndexPrice_sameView h) rfl rfl rfl

theorem within_run {ops : List Op} {l : TraderLedger} (h : l.Within owner id)
    (hliquidates : ∀ op ∈ ops, op ≠ .liquidatePosition owner id)
    (hdrops : Along step (DropsLittle owner id) l.pe ops) :
    (ops.foldl (record owner id) l).Within owner id := by
  induction ops generalizing l with
  | nil => exact h
  | cons op ops ih =>
      rw [List.foldl_cons]
      refine ih (Costs.within h (stepCosts (hliquidates op (List.mem_cons_self ..)) hdrops.1))
        (fun op' hop' => hliquidates op' (List.mem_cons_of_mem op hop')) hdrops.2

theorem ledger_pe (ops : List Op) (l : TraderLedger) :
    (ops.foldl (record owner id) l).pe = ops.foldl step l.pe := by
  induction ops generalizing l with
  | nil => rfl
  | cons op ops ih => exact ih (record owner id l op)

/-- In every run, from any engine, that begins and ends without a position of the trader and
does not liquidate one, the trader is returned what the fills and the funding pay, up to a unit
for each operation, if no opening on a position drops more than a unit. -/
theorem pnl_conserved (owner : Address) (id : Word) (pe : PerpetualEngine) (ops : List Op)
    (hliquidates : ∀ op ∈ ops, op ≠ .liquidatePosition owner id)
    (hdrops : Along step (DropsLittle owner id) pe ops)
    (hstart : pe.positions owner id = none)
    (hend : (ops.foldl step pe).positions owner id = none) :
    (ledger owner id pe ops).Conserved := by
  have hwithin : (TraderLedger.mk pe 0 0 0 0).Within owner id := by
    rw [TraderLedger.Within, TraderLedger.excess, (carried_of_none hstart).1,
      (carried_of_none hstart).2]
    simp
  refine (within_run hwithin hliquidates hdrops).conserved ?_
  rw [ledger_pe]
  exact hend

theorem DropsLittle.of_position {position : PerpPosition} {market : PerpMarket}
    {state : FundingState} {size : ℤ} (hposition : pe.positions owner id = some position)
    (hmarket : pe.markets id = some (market, state))
    (hloss : |openingLoss position market state size| ≤ q96) (margin : ℤ) (isIsolated : Bool) :
    DropsLittle owner id pe (.openPosition owner id size margin isIsolated) := by
  intro _ _ _ position' market' state' hposition' hmarket'
  rw [hposition, Option.some.injEq] at hposition'
  rw [hmarket, Option.some.injEq, Prod.mk.injEq] at hmarket'
  obtain ⟨rfl, rfl⟩ := hmarket'
  rw [← hposition']
  exact hloss

/-- Ten units held over a funding update, five more at twice the price, and all of them closed
in two parts after another update. -/
def closingRun : List Op :=
  [.createMarket 1 2 q96 100 0 0, .openPosition 3 (generateMarketID 1 2) 10 100 false,
    .updateFunding (generateMarketID 1 2) 28800,
    .updateMarkPrice (generateMarketID 1 2) (2 * q96),
    .openPosition 3 (generateMarketID 1 2) 5 100 false,
    .updateFunding (generateMarketID 1 2) 57600,
    .updateMarkPrice (generateMarketID 1 2) (3 * q96),
    .closePosition 3 (generateMarketID 1 2) 4, .closePosition 3 (generateMarketID 1 2) 11]

theorem pnl_conserved_closing :
    (ledger 3 (generateMarketID 1 2) newPerpetualEngine closingRun).Conserved := by
  have hnone : (step newPerpetualEngine (.createMarket 1 2 q96 100 0 0)).positions 3
      (generateMarketID 1 2) = none := rfl
  have hopened : ((closingRun.take 4).foldl step newPerpetualEngine).positions 3
      (generateMarketID 1 2) = some ⟨10, q96, 100, 0, false⟩ := by decide
  have hmarket : ((closingRun.take 4).foldl step newPerpetualEngine).markets
      (generateMarketID 1 2) =
        some (⟨2 * q96, q96, 10, 0, 100, 100, 0, 0⟩, ⟨100 * q96 / 10 ^ 6, 28800, 0, 28800⟩) := by
    decide
  refine pnl_conserved 3 (generateMarketID 1 2) newPerpetualEngine closingRun (by decide)
    ⟨trivial, ?_, trivial, trivial, ?_, trivial, trivial, trivial, trivial, trivial⟩ rfl
    (by decide)
  · rintro - - - position market state hposition -
    rw [hnone] at hposition
    cases hposition
  · exact DropsLittle.of_position hopened hmarket (by decide) 100 false

/-- Ten units held over a rise of the price, and closed by an opening. -/
def droppingRun : List Op :=
  [.createMarket 1 2 q96 100 0 0, .openPosition 3 (generateMarketID 1 2) 10 100 false,
    .updateMarkPrice (generateMarketID 1 2) (3 * q96),
    .openPosition 3 (generateMarketID 1 2) (-10) 100 false]

/-- The profit of twenty units is dropped. -/
theorem opening_drops_profit :
    (∀ op ∈ droppingRun, op ≠ .liquidatePosition 3 (generateMarketID 1 2)) ∧
      (droppingRun.foldl step newPerpetualEngine).positions 3 (generateMarketID 1 2) = none ∧
      ¬ (ledger 3 (generateMarketID 1 2) newPerpetualEngine droppingRun).Conserved := by
  refine ⟨by decide, by decide, ?_⟩
  have hreturned : (ledger 3 (generateMarketID 1 2) newPerpetualEngine
      droppingRun).returned = 0 := by decide
  have hfills : (ledger 3 (generateMarketID 1 2) newPerpetualEngine
      droppingRun).fills = -20 * q96 := by decide
  have hfunding : (ledger 3 (generateMarketID 1 2) newPerpetualEngine
      droppingRun).funding = 0 := by decide
  have hoperations : (ledger 3 (generateMarketID 1 2) newPerpetualEngine
      droppingRun).operations = 3 := by decide
  rw [TraderLedger.Conserved, hreturned, hfills, hfunding, hoperations]
  norm_num [q96]

end LuxPrecompile.Perps
