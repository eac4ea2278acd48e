import LuxPrecompile.Perps.Engine
import LuxPrecompile.Support.Runs
import LuxPrecompile.Support.Sums

/-!
# Open interest

Closing and liquidating take from a side of the market what they take from a position of
that side.  Opening adds the increment to the side of the increment's own sign, so an
opening against a position leaves the market with more open interest than its positions
have, and no later operation takes it back.
-/

namespace LuxPrecompile.Perps

open Evm Support

/-! ## The property -/

namespace PerpetualEngine

variable (pe : PerpetualEngine) (id : Word)

/-- `OpenInterestLong` of a market, zero without one. -/
def openInterestLong : ℤ := (pe.markets id).elim 0 fun entry => entry.1.openInterestLong

/-- `OpenInterestShort` of a market, zero without one. -/
def openInterestShort : ℤ := (pe.markets id).elim 0 fun entry => entry.1.openInterestShort

/-- The size of a trader's position, zero without one. -/
def sizeOf (owner : Address) : ℤ := (pe.positions owner id).elim 0 PerpPosition.size

/-- The sum of the positive sizes. -/
def longs : ℤ := ∑ owner, max (pe.sizeOf id owner) 0

/-- The sum of the absolute values of the negative sizes. -/
def shorts : ℤ := ∑ owner, max (-pe.sizeOf id owner) 0

/-- The checks of `OpenPosition` pass. -/
def Admits (size margin : ℤ) : Prop :=
  ∃ market fundingState, pe.markets id = some (market, fundingState) ∧ margin ≠ 0 ∧
    leverage market size margin ≤ market.maxLeverage.toNat * 100

end PerpetualEngine

/-- The open interest of a market is that of its positions. -/
structure Balanced (id : Word) (pe : PerpetualEngine) : Prop where
  long : pe.openInterestLong id = pe.longs id
  short : pe.openInterestShort id = pe.shorts id

/-- An operation opens in a market against the position its owner has there. -/
def Opposes (id : Word) (pe : PerpetualEngine) : Op → Prop
  | .openPosition owner marketID size margin _ =>
      marketID = id ∧ pe.Admits id size margin ∧ pe.sizeOf id owner * size < 0
  | _ => False

/-! ## One position and its market -/

section Updates

variable (pe : PerpetualEngine) (id marketID : Word) (owner o : Address) (market : PerpMarket)
  (fundingState : FundingState) (position : Option PerpPosition)

@[simp]
theorem setMarket_openInterestLong :
    (pe.setMarket marketID market fundingState).openInterestLong id =
      if id = marketID then market.openInterestLong else pe.openInterestLong id := by
  by_cases hid : id = marketID
  · simp [PerpetualEngine.openInterestLong, PerpetualEngine.setMarket, hid]
  · simp [PerpetualEngine.openInterestLong, PerpetualEngine.setMarket, hid]

@[simp]
theorem setMarket_openInterestShort :
    (pe.setMarket marketID market fundingState).openInterestShort id =
      if id = marketID then market.openInterestShort else pe.openInterestShort id := by
  by_cases hid : id = marketID
  · simp [PerpetualEngine.openInterestShort, PerpetualEngine.setMarket, hid]
  · simp [PerpetualEngine.openInterestShort, PerpetualEngine.setMarket, hid]

@[simp]
theorem setMarket_sizeOf :
    (pe.setMarket marketID market fundingState).sizeOf id o = pe.sizeOf id o := rfl

@[simp]
theorem setPosition_openInterestLong :
    (pe.setPosition marketID owner position).openInterestLong id = pe.openInterestLong id := rfl

@[simp]
theorem setPosition_openInterestShort :
    (pe.setPosition marketID owner position).openInterestShort id =
      pe.openInterestShort id := rfl

@[simp]
theorem setPosition_sizeOf :
    (pe.setPosition marketID owner position).sizeOf id o =
      if id = marketID ∧ o = owner then position.elim 0 PerpPosition.size
      else pe.sizeOf id o := by
  by_cases howner : o = owner
  · subst howner
    by_cases hid : id = marketID
    · simp [PerpetualEngine.sizeOf, PerpetualEngine.setPosition, hid]
    · simp [PerpetualEngine.sizeOf, PerpetualEngine.setPosition, hid]
  · simp [PerpetualEngine.sizeOf, PerpetualEngine.setPosition, howner]

end Updates

/-- What an operation does to a market: its sides change by `long` and `short`, and the
position of `owner` gets the size `size`. -/
structure Moves (id : Word) (owner : Address) (long short size : ℤ)
    (pe pe' : PerpetualEngine) : Prop where
  long : pe'.openInterestLong id = pe.openInterestLong id + long
  short : pe'.openInterestShort id = pe.openInterestShort id + short
  size : pe'.sizeOf id owner = size
  other : ∀ o, o ≠ owner → pe'.sizeOf id o = pe.sizeOf id o

/-- The sides change as the position does. -/
def Nets (id : Word) (pe pe' : PerpetualEngine) : Prop :=
  ∃ owner size, Moves id owner (max size 0 - max (pe.sizeOf id owner) 0)
    (max (-size) 0 - max (-pe.sizeOf id owner) 0) size pe pe'

/-- Both sides change by as much as the position does at least, one by more. -/
def Exceeds (id : Word) (pe pe' : PerpetualEngine) : Prop :=
  ∃ owner long short size, Moves id owner long short size pe pe' ∧
    max size 0 - max (pe.sizeOf id owner) 0 ≤ long ∧
      max (-size) 0 - max (-pe.sizeOf id owner) 0 ≤ short ∧
        max size 0 - max (pe.sizeOf id owner) 0 + (max (-size) 0 - max (-pe.sizeOf id owner) 0) <
          long + short

theorem Moves.longs {id : Word} {owner : Address} {long short size : ℤ}
    {pe pe' : PerpetualEngine} (h : Moves id owner long short size pe pe') :
    pe'.longs id + max (pe.sizeOf id owner) 0 = pe.longs id + max size 0 := by
  have hsum := sum_add_of_eq_off (f := fun o => max (pe.sizeOf id o) 0)
    (g := fun o => max (pe'.sizeOf id o) 0) owner (fun o ho => by rw [h.other o ho])
  rw [← h.size]
  exact hsum

theorem Moves.shorts {id : Word} {owner : Address} {long short size : ℤ}
    {pe pe' : PerpetualEngine} (h : Moves id owner long short size pe pe') :
    pe'.shorts id + max (-pe.sizeOf id owner) 0 = pe.shorts id + max (-size) 0 := by
  have hsum := sum_add_of_eq_off (f := fun o => max (-pe.sizeOf id o) 0)
    (g := fun o => max (-pe'.sizeOf id o) 0) owner (fun o ho => by rw [h.other o ho])
  rw [← h.size]
  exact hsum

/-- The positions of a market are within its open interest. -/
structure Within (id : Word) (pe : PerpetualEngine) : Prop where
  long : pe.longs id ≤ pe.openInterestLong id
  short : pe.shorts id ≤ pe.openInterestShort id

theorem Nets.within {id : Word} {pe pe' : PerpetualEngine} (h : Nets id pe pe')
    (hwithin : Within id pe) : Within id pe' ∧ (Balanced id pe' ↔ Balanced id pe) := by
  obtain ⟨owner, size, hmoves⟩ := h
  have hlong := hmoves.long
  have hshort := hmoves.short
  have hlongs := hmoves.longs
  have hshorts := hmoves.shorts
  obtain ⟨hlongLe, hshortLe⟩ := hwithin
  refine ⟨⟨by linarith, by linarith⟩, fun hb => ⟨?_, ?_⟩, fun hb => ⟨?_, ?_⟩⟩
  all_goals
    have hlongEq := hb.long
    have hshortEq := hb.short
    linarith

theorem Exceeds.within {id : Word} {pe pe' : PerpetualEngine} (h : Exceeds id pe pe')
    (hwithin : Within id pe) : Within id pe' ∧ ¬ Balanced id pe' := by
  obtain ⟨owner, long, short, size, hmoves, hlong, hshort, hsum⟩ := h
  have hlongs := hmoves.longs
  have hshorts := hmoves.shorts
  have hlongEq := hmoves.long
  have hshortEq := hmoves.short
  obtain ⟨hlongLe, hshortLe⟩ := hwithin
  refine ⟨⟨by linarith, by linarith⟩, fun hb => ?_⟩
  have hlongBalanced := hb.long
  have hshortBalanced := hb.short
  linarith

/-! ## Operations -/

theorem nets_of_eq {id : Word} {pe pe' : PerpetualEngine}
    (hlong : pe'.openInterestLong id = pe.openInterestLong id)
    (hshort : pe'.openInterestShort id = pe.openInterestShort id)
    (hsizes : ∀ o, pe'.sizeOf id o = pe.sizeOf id o) : Nets id pe pe' :=
  ⟨0, pe.sizeOf id 0, ⟨by omega, by omega, hsizes 0, fun o _ => hsizes o⟩⟩

theorem openInterestLong_of_market {pe : PerpetualEngine} {id : Word} {market : PerpMarket}
    {fundingState : FundingState} (h : pe.markets id = some (market, fundingState)) :
    pe.openInterestLong id = market.openInterestLong := by
  rw [PerpetualEngine.openInterestLong, h, Option.elim_some]

theorem openInterestShort_of_market {pe : PerpetualEngine} {id : Word} {market : PerpMarket}
    {fundingState : FundingState} (h : pe.markets id = some (market, fundingState)) :
    pe.openInterestShort id = market.openInterestShort := by
  rw [PerpetualEngine.openInterestShort, h, Option.elim_some]

section SetBoth

variable {pe : PerpetualEngine} {marketID : Word} {owner : Address} {market market' : PerpMarket}
  {fundingState fundingState' : FundingState} {position : Option PerpPosition}

theorem moves_set {long short size : ℤ} (h : pe.markets marketID = some (market, fundingState))
    (hlong : market'.openInterestLong = market.openInterestLong + long)
    (hshort : market'.openInterestShort = market.openInterestShort + short)
    (hsize : position.elim 0 PerpPosition.size = size) :
    Moves marketID owner long short size pe
      ((pe.setPosition marketID owner position).setMarket marketID market' fundingState') where
  long := by simp [openInterestLong_of_market h, hlong]
  short := by simp [openInterestShort_of_market h, hshort]
  size := by simp [hsize]
  other o ho := by simp [ho]

theorem nets_set_of_ne {id : Word} (h : id ≠ marketID) :
    Nets id pe
      ((pe.setPosition marketID owner position).setMarket marketID market' fundingState') :=
  nets_of_eq (by simp [h]) (by simp [h]) (by simp [h])

end SetBoth

theorem nets_setMarket {pe : PerpetualEngine} {marketID : Word} {market market' : PerpMarket}
    {fundingState fundingState' : FundingState} (id : Word)
    (h : pe.markets marketID = some (market, fundingState))
    (hlong : market'.openInterestLong = market.openInterestLong)
    (hshort : market'.openInterestShort = market.openInterestShort) :
    Nets id pe (pe.setMarket marketID market' fundingState') := by
  by_cases hid : id = marketID
  · subst hid
    exact nets_of_eq (by simp [openInterestLong_of_market h, hlong])
      (by simp [openInterestShort_of_market h, hshort]) (by simp)
  · exact nets_of_eq (by simp [hid]) (by simp [hid]) (by simp)

theorem nets_setPosition {pe : PerpetualEngine} {marketID : Word} {owner : Address}
    {position position' : PerpPosition} (id : Word)
    (h : pe.positions owner marketID = some position) (hsize : position'.size = position.size) :
    Nets id pe (pe.setPosition marketID owner (some position')) := by
  refine nets_of_eq (by simp) (by simp) fun o => ?_
  rw [setPosition_sizeOf]
  split_ifs with ho
  · rw [ho.1, ho.2, PerpetualEngine.sizeOf, h]
    exact hsize
  · rfl

theorem sizeOf_of_position {pe : PerpetualEngine} {id : Word} {owner : Address}
    {position : PerpPosition} (h : pe.positions owner id = some position) :
    pe.sizeOf id owner = position.size := by
  rw [PerpetualEngine.sizeOf, h, Option.elim_some]

theorem sizeOf_of_none {pe : PerpetualEngine} {id : Word} {owner : Address}
    (h : pe.positions owner id = none) : pe.sizeOf id owner = 0 := by
  rw [PerpetualEngine.sizeOf, h, Option.elim_none]

/-- An increment goes to the side of its sign. -/
theorem addOpenInterest_sides (market : PerpMarket) (size : ℤ) :
    (market.addOpenInterest size).openInterestLong = market.openInterestLong + max size 0 ∧
      (market.addOpenInterest size).openInterestShort =
        market.openInterestShort + max (-size) 0 := by
  rw [PerpMarket.addOpenInterest]
  split_ifs with hsize
  · rw [abs_of_pos hsize]
    constructor
    · rw [max_eq_left hsize.le]
    · rw [max_eq_right (by omega), add_zero]
  · rw [abs_of_nonpos (not_lt.mp hsize)]
    constructor
    · rw [max_eq_right (not_lt.mp hsize), add_zero]
    · rw [max_eq_left (by omega)]

@[simp]
theorem settle_size (position : PerpPosition) (state : FundingState) :
    (settleFundingForPosition position state).1.size = position.size := rfl

theorem openPosition_cases {pe pe' : PerpetualEngine} {owner : Address} {marketID : Word}
    {size margin : ℤ} {isIsolated : Bool} {position : Option PerpPosition}
    (h : openPosition pe owner marketID size margin isIsolated = .ok (position, pe')) :
    pe.Admits marketID size margin ∧ (∀ id, id ≠ marketID → Nets id pe pe') ∧
      ((pe.sizeOf marketID owner + size = 0 ∧ Moves marketID owner 0 0 0 pe pe') ∨
        Moves marketID owner (max size 0) (max (-size) 0) (pe.sizeOf marketID owner + size)
          pe pe') := by
  rw [openPosition] at h
  cases hmarket : pe.markets marketID with
  | none => rw [hmarket] at h; cases h
  | some entry =>
      obtain ⟨market, fundingState⟩ := entry
      rw [hmarket] at h
      dsimp only at h
      rw [refuse_eq_ok, refuse_eq_ok] at h
      obtain ⟨hmargin, hleverage, h⟩ := h
      refine ⟨⟨market, fundingState, hmarket, hmargin, not_lt.mp hleverage⟩, ?_⟩
      obtain ⟨hlong, hshort⟩ := addOpenInterest_sides market size
      cases hposition : pe.positions owner marketID with
      | none =>
          rw [hposition] at h
          obtain ⟨-, rfl⟩ := Prod.mk.inj (Except.ok.inj h)
          refine ⟨fun id hid => nets_set_of_ne hid, .inr ?_⟩
          rw [sizeOf_of_none hposition, zero_add]
          exact moves_set hmarket hlong hshort rfl
      | some old =>
          rw [hposition] at h
          dsimp only at h
          rw [sizeOf_of_position hposition, ← settle_size old fundingState]
          generalize (settleFundingForPosition old fundingState).1 = settled at h ⊢
          by_cases hzero : settled.size + size = 0
          · rw [if_pos hzero] at h
            obtain ⟨-, rfl⟩ := Prod.mk.inj (Except.ok.inj h)
            refine ⟨fun id hid => nets_of_eq rfl rfl (by simp [hid]), .inl ⟨hzero, ?_⟩⟩
            exact ⟨by simp, by simp, by simp, fun o ho => by simp [ho]⟩
          · rw [if_neg hzero] at h
            obtain ⟨-, rfl⟩ := Prod.mk.inj (Except.ok.inj h)
            exact ⟨fun id hid => nets_set_of_ne hid, .inr (moves_set hmarket hlong hshort rfl)⟩

/-- An accepted opening moves the sides with the position unless it is against it. -/
theorem openPosition_nets_or {pe pe' : PerpetualEngine} {owner : Address} {marketID : Word}
    {size margin : ℤ} {isIsolated : Bool} {position : Option PerpPosition}
    (h : openPosition pe owner marketID size margin isIsolated = .ok (position, pe')) (id : Word) :
    (Opposes id pe (.openPosition owner marketID size margin isIsolated) → Exceeds id pe pe') ∧
      (¬ Opposes id pe (.openPosition owner marketID size margin isIsolated) →
        Nets id pe pe') := by
  obtain ⟨hadmits, hother, hmarket⟩ := openPosition_cases h
  constructor
  · rintro ⟨rfl, -, hopposite⟩
    rcases hmarket with ⟨hzero, hmoves⟩ | hmoves
    · refine ⟨owner, 0, 0, 0, hmoves, ?_⟩
      rcases mul_neg_iff.mp hopposite with ⟨hold, hsize⟩ | ⟨hold, hsize⟩
      · omega
      · omega
    · refine ⟨owner, _, _, _, hmoves, ?_⟩
      rcases mul_neg_iff.mp hopposite with ⟨hold, hsize⟩ | ⟨hold, hsize⟩
      · omega
      · omega
  · intro hnot
    by_cases hid : id = marketID
    · subst hid
      have hsame : 0 ≤ pe.sizeOf id owner * size :=
        not_lt.mp fun hopposite => hnot ⟨rfl, hadmits, hopposite⟩
      rcases hmarket with ⟨hzero, hmoves⟩ | hmoves
      · have hold : pe.sizeOf id owner = 0 := by nlinarith
        refine ⟨owner, 0, ?_⟩
        rw [hold]
        exact hmoves
      · refine ⟨owner, pe.sizeOf id owner + size, ?_⟩
        have hsides : max (pe.sizeOf id owner + size) 0 - max (pe.sizeOf id owner) 0 =
              max size 0 ∧
            max (-(pe.sizeOf id owner + size)) 0 - max (-pe.sizeOf id owner) 0 =
              max (-size) 0 := by
          rcases mul_nonneg_iff.mp hsame with ⟨hold, hsize⟩ | ⟨hold, hsize⟩
          · omega
          · omega
        rw [hsides.1, hsides.2]
        exact hmoves
    · exact hother id hid

/-- A close or a liquidation takes from the side of the position what it takes from it. -/
theorem subOpenInterest_sides (market : PerpMarket) {sign old new : ℤ}
    (h : 0 < sign ∧ 0 ≤ old ∧ 0 ≤ new ∨ sign ≤ 0 ∧ old ≤ 0 ∧ new ≤ 0) :
    (market.subOpenInterest sign (|old| - |new|)).openInterestLong =
        market.openInterestLong + (max new 0 - max old 0) ∧
      (market.subOpenInterest sign (|old| - |new|)).openInterestShort =
        market.openInterestShort + (max (-new) 0 - max (-old) 0) := by
  rw [PerpMarket.subOpenInterest]
  rcases h with ⟨hsign, hold, hnew⟩ | ⟨hsign, hold, hnew⟩
  · rw [if_pos hsign, abs_of_nonneg hold, abs_of_nonneg hnew]
    constructor
    · dsimp only
      omega
    · dsimp only
      omega
  · rw [if_neg (not_lt.mpr hsign), abs_of_nonpos hold, abs_of_nonpos hnew]
    constructor
    · dsimp only
      omega
    · dsimp only
      omega

theorem subOpenInterest_full (market : PerpMarket) (old : ℤ) :
    (market.subOpenInterest old |old|).openInterestLong =
        market.openInterestLong + (max 0 0 - max old 0) ∧
      (market.subOpenInterest old |old|).openInterestShort =
        market.openInterestShort + (max (-0) 0 - max (-old) 0) := by
  have hside : 0 < old ∧ 0 ≤ old ∧ (0 : ℤ) ≤ 0 ∨ old ≤ 0 ∧ old ≤ 0 ∧ (0 : ℤ) ≤ 0 := by omega
  have hsides := subOpenInterest_sides market hside
  rwa [abs_zero, sub_zero] at hsides

/-- A position that is closed in part keeps its side, and loses the part. -/
theorem partialClose_size {position : PerpPosition} {sizeToClose : ℤ}
    (hpart : sizeToClose < |position.size|) (hopen : |position.size| ≠ 0) :
    (0 < (partialClose position sizeToClose).size ∧ 0 ≤ position.size ∧
          0 ≤ (partialClose position sizeToClose).size ∨
        (partialClose position sizeToClose).size ≤ 0 ∧ position.size ≤ 0 ∧
          (partialClose position sizeToClose).size ≤ 0) ∧
      |position.size| - |(partialClose position sizeToClose).size| = sizeToClose := by
  dsimp only [partialClose]
  rcases lt_trichotomy position.size 0 with hneg | hzero | hpos
  · rw [abs_of_neg hneg] at hpart ⊢
    rw [if_neg hneg.not_gt, abs_of_neg (by omega)]
    omega
  · rw [hzero, abs_zero] at hopen
    exact absurd rfl hopen
  · rw [abs_of_pos hpos] at hpart ⊢
    rw [if_pos hpos, abs_of_pos (by omega)]
    omega

/-- A position and its market after a close or a liquidation. -/
theorem nets_close {pe : PerpetualEngine} {marketID : Word} {owner : Address}
    {market market' : PerpMarket} {fundingState fundingState' : FundingState}
    {old : PerpPosition} {position : Option PerpPosition} {new : ℤ} (id : Word)
    (hmarket : pe.markets marketID = some (market, fundingState))
    (hold : pe.positions owner marketID = some old)
    (hnew : position.elim 0 PerpPosition.size = new)
    (hlong : market'.openInterestLong =
      market.openInterestLong + (max new 0 - max old.size 0))
    (hshort : market'.openInterestShort =
      market.openInterestShort + (max (-new) 0 - max (-old.size) 0)) :
    Nets id pe
      ((pe.setPosition marketID owner position).setMarket marketID market' fundingState') := by
  by_cases hid : id = marketID
  · subst hid
    refine ⟨owner, new, moves_set hmarket ?_ ?_ hnew⟩
    · rw [sizeOf_of_position hold, hlong]
    · rw [sizeOf_of_position hold, hshort]
  · exact nets_set_of_ne hid

theorem closePosition_nets {pe pe' : PerpetualEngine} {owner : Address} {marketID : Word}
    {sizeToClose pnl : ℤ} (h : closePosition pe owner marketID sizeToClose = .ok (pnl, pe'))
    (id : Word) : Nets id pe pe' := by
  rw [closePosition] at h
  cases hmarket : pe.markets marketID with
  | none => rw [hmarket] at h; cases h
  | some entry =>
      obtain ⟨market, fundingState⟩ := entry
      rw [hmarket] at h
      cases hposition : pe.positions owner marketID with
      | none => rw [hposition] at h; cases h
      | some old =>
          rw [hposition] at h
          dsimp only at h
          have hsettled := settle_size old fundingState
          generalize (settleFundingForPosition old fundingState).1 = position at h hsettled
          generalize (settleFundingForPosition old fundingState).2 = fundingPnL at h
          generalize hclosed : (if |position.size| < sizeToClose then |position.size|
            else sizeToClose) = closed at h
          have hle : closed ≤ |position.size| := by
            rw [← hclosed]
            split_ifs with hlt
            · exact le_rfl
            · exact not_lt.mp hlt
          by_cases hfull : |position.size| ≤ closed
          · rw [if_pos hfull] at h
            obtain ⟨-, rfl⟩ := Prod.mk.inj (Except.ok.inj h)
            have hsides := subOpenInterest_full market position.size
            rw [le_antisymm hle hfull]
            exact nets_close id hmarket hposition rfl (hsettled ▸ hsides.1) (hsettled ▸ hsides.2)
          · rw [if_neg hfull, refuse_eq_ok] at h
            obtain ⟨hempty, h⟩ := h
            obtain ⟨-, rfl⟩ := Prod.mk.inj (Except.ok.inj h)
            obtain ⟨hside, hpart⟩ := partialClose_size (not_le.mp hfull) hempty
            have hsides := subOpenInterest_sides market hside
            rw [hpart] at hsides
            exact nets_close id hmarket hposition rfl (hsettled ▸ hsides.1) (hsettled ▸ hsides.2)

theorem liquidatePosition_nets {pe pe' : PerpetualEngine} {owner : Address} {marketID : Word}
    {reward : ℤ} (h : liquidatePosition pe owner marketID = .ok (reward, pe')) (id : Word) :
    Nets id pe pe' := by
  rw [liquidatePosition] at h
  cases hmarket : pe.markets marketID with
  | none => rw [hmarket] at h; cases h
  | some entry =>
      obtain ⟨market, fundingState⟩ := entry
      rw [hmarket] at h
      cases hposition : pe.positions owner marketID with
      | none => rw [hposition] at h; cases h
      | some old =>
          rw [hposition] at h
          dsimp only at h
          rw [refuse_eq_ok] at h
          obtain ⟨-, h⟩ := h
          obtain ⟨-, rfl⟩ := Prod.mk.inj (Except.ok.inj h)
          have hsides := subOpenInterest_full
            { market with insuranceFund := (liquidationReward old market).2 } old.size
          exact nets_close id hmarket hposition rfl hsides.1 hsides.2

/-- A new market has no open interest, as before it was created. -/
theorem createMarket_nets {pe pe' : PerpetualEngine} {base quote : Address} {price : ℤ}
    {maxLeverage : UInt32} {maintenance : ℤ} {now : Int64} {marketID : Word}
    (h : createMarket pe base quote price maxLeverage maintenance now = .ok (marketID, pe'))
    (id : Word) : Nets id pe pe' := by
  rw [createMarket] at h
  cases hmarket : pe.markets (generateMarketID base quote) with
  | some entry => rw [hmarket] at h; cases h
  | none =>
      rw [hmarket] at h
      obtain ⟨-, rfl⟩ := Prod.mk.inj (Except.ok.inj h)
      by_cases hid : id = generateMarketID base quote
      · have hlong : pe.openInterestLong id = 0 := by
          rw [hid, PerpetualEngine.openInterestLong, hmarket, Option.elim_none]
        have hshort : pe.openInterestShort id = 0 := by
          rw [hid, PerpetualEngine.openInterestShort, hmarket, Option.elim_none]
        refine nets_of_eq ?_ ?_ fun o => rfl
        · rw [setMarket_openInterestLong, if_pos hid, hlong]
        · rw [setMarket_openInterestShort, if_pos hid, hshort]
      · refine nets_of_eq ?_ ?_ fun o => rfl
        · rw [setMarket_openInterestLong, if_neg hid]
        · rw [setMarket_openInterestShort, if_neg hid]

theorem addMargin_nets {pe pe' : PerpetualEngine} {owner : Address} {marketID : Word}
    {amount : ℤ} (h : addMargin pe owner marketID amount = .ok ((), pe')) (id : Word) :
    Nets id pe pe' := by
  rw [addMargin] at h
  cases hposition : pe.positions owner marketID with
  | none => rw [hposition] at h; cases h
  | some position =>
      rw [hposition] at h
      obtain ⟨-, rfl⟩ := Prod.mk.inj (Except.ok.inj h)
      exact nets_setPosition id hposition rfl

theorem removeMargin_nets {pe pe' : PerpetualEngine} {owner : Address} {marketID : Word}
    {amount : ℤ} (h : removeMargin pe owner marketID amount = .ok ((), pe')) (id : Word) :
    Nets id pe pe' := by
  rw [removeMargin] at h
  cases hmarket : pe.markets marketID with
  | none => rw [hmarket] at h; cases h
  | some entry =>
      rw [hmarket] at h
      cases hposition : pe.positions owner marketID with
      | none => rw [hposition] at h; cases h
      | some position =>
          rw [hposition] at h
          dsimp only at h
          rw [refuse_eq_ok, refuse_eq_ok] at h
          obtain ⟨-, -, h⟩ := h
          obtain ⟨-, rfl⟩ := Prod.mk.inj (Except.ok.inj h)
          exact nets_setPosition id hposition rfl

theorem updateFunding_nets {pe pe' : PerpetualEngine} {marketID : Word} {now : Int64}
    (h : updateFunding pe marketID now = .ok ((), pe')) (id : Word) : Nets id pe pe' := by
  rw [updateFunding] at h
  cases hmarket : pe.markets marketID with
  | none => rw [hmarket] at h; cases h
  | some entry =>
      rw [hmarket] at h
      dsimp only at h
      split_ifs at h with hearly hindex
      · obtain ⟨-, rfl⟩ := Prod.mk.inj (Except.ok.inj h)
        exact nets_of_eq rfl rfl fun o => rfl
      · obtain ⟨-, rfl⟩ := Prod.mk.inj (Except.ok.inj h)
        exact nets_setMarket id hmarket rfl rfl

theorem updateMarkPrice_nets {pe pe' : PerpetualEngine} {marketID : Word} {newPrice : ℤ}
    (h : updateMarkPrice pe marketID newPrice = .ok ((), pe')) (id : Word) : Nets id pe pe' := by
  rw [updateMarkPrice] at h
  cases hmarket : pe.markets marketID with
  | none => rw [hmarket] at h; cases h
  | some entry =>
      rw [hmarket] at h
      obtain ⟨-, rfl⟩ := Prod.mk.inj (Except.ok.inj h)
      exact nets_setMarket id hmarket rfl rfl

theorem updateIndexPrice_nets {pe pe' : PerpetualEngine} {marketID : Word} {newPrice : ℤ}
    (h : updateIndexPrice pe marketID newPrice = .ok ((), pe')) (id : Word) :
    Nets id pe pe' := by
  rw [updateIndexPrice] at h
  cases hmarket : pe.markets marketID with
  | none => rw [hmarket] at h; cases h
  | some entry =>
      rw [hmarket] at h
      obtain ⟨-, rfl⟩ := Prod.mk.inj (Except.ok.inj h)
      exact nets_setMarket id hmarket rfl rfl

/-! ## Runs -/

/-- A successful operation moves the sides with the positions unless it opens against one. -/
theorem perform_nets_or {pe pe' : PerpetualEngine} {op : Op} (h : perform pe op = .ok pe')
    (id : Word) :
    (Opposes id pe op → Exceeds id pe pe') ∧ (¬ Opposes id pe op → Nets id pe pe') := by
  cases op with
  | createMarket base quote price maxLeverage maintenance now =>
      obtain ⟨⟨marketID, pe''⟩, hcreate, rfl⟩ := map_eq_ok.mp h
      exact ⟨False.elim, fun _ => createMarket_nets hcreate id⟩
  | openPosition owner marketID size margin isIsolated =>
      obtain ⟨⟨position, pe''⟩, hopen, rfl⟩ := map_eq_ok.mp h
      exact openPosition_nets_or hopen id
  | closePosition owner marketID sizeToClose =>
      obtain ⟨⟨pnl, pe''⟩, hclose, rfl⟩ := map_eq_ok.mp h
      exact ⟨False.elim, fun _ => closePosition_nets hclose id⟩
  | addMargin owner marketID amount =>
      obtain ⟨⟨⟨⟩, pe''⟩, hadd, rfl⟩ := map_eq_ok.mp h
      exact ⟨False.elim, fun _ => addMargin_nets hadd id⟩
  | removeMargin owner marketID amount =>
      obtain ⟨⟨⟨⟩, pe''⟩, hremove, rfl⟩ := map_eq_ok.mp h
      exact ⟨False.elim, fun _ => removeMargin_nets hremove id⟩
  | liquidatePosition owner marketID =>
      obtain ⟨⟨reward, pe''⟩, hliquidate, rfl⟩ := map_eq_ok.mp h
      exact ⟨False.elim, fun _ => liquidatePosition_nets hliquidate id⟩
  | updateFunding marketID now =>
      obtain ⟨⟨⟨⟩, pe''⟩, hupdate, rfl⟩ := map_eq_ok.mp h
      exact ⟨False.elim, fun _ => updateFunding_nets hupdate id⟩
  | updateMarkPrice marketID newPrice =>
      obtain ⟨⟨⟨⟩, pe''⟩, hupdate, rfl⟩ := map_eq_ok.mp h
      exact ⟨False.elim, fun _ => updateMarkPrice_nets hupdate id⟩
  | updateIndexPrice marketID newPrice =>
      obtain ⟨⟨⟨⟩, pe''⟩, hupdate, rfl⟩ := map_eq_ok.mp h
      exact ⟨False.elim, fun _ => updateIndexPrice_nets hupdate id⟩

/-- An opening that its checks admit succeeds. -/
theorem perform_ok_of_opposes {pe : PerpetualEngine} {op : Op} {id : Word}
    (h : Opposes id pe op) : ∃ pe', perform pe op = .ok pe' := by
  cases op with
  | openPosition owner marketID size margin isIsolated =>
      obtain ⟨rfl, ⟨market, fundingState, hmarket, hmargin, hleverage⟩, -⟩ := h
      have hok : ∃ result, openPosition pe owner marketID size margin isIsolated =
          .ok result := by
        rw [openPosition, hmarket]
        dsimp only
        rw [if_neg hmargin, if_neg (not_lt.mpr hleverage)]
        cases pe.positions owner marketID with
        | none => exact ⟨_, rfl⟩
        | some position =>
            dsimp only
            split_ifs
            · exact ⟨_, rfl⟩
            · exact ⟨_, rfl⟩
      obtain ⟨⟨position, pe'⟩, hopen⟩ := hok
      exact ⟨pe', map_eq_ok.mpr ⟨_, hopen, rfl⟩⟩
  | _ => exact False.elim h

/-- A step keeps the positions within the open interest, and keeps the balance unless it
opens against a position. -/
theorem step_within {pe : PerpetualEngine} {id : Word} (h : Within id pe) (op : Op) :
    Within id (step pe op) ∧
      (Balanced id (step pe op) ↔ Balanced id pe ∧ ¬ Opposes id pe op) := by
  by_cases hopposes : Opposes id pe op
  · obtain ⟨pe', hperform⟩ := perform_ok_of_opposes hopposes
    have hwithin := ((perform_nets_or hperform id).1 hopposes).within h
    rw [step, hperform]
    exact ⟨hwithin.1, iff_of_false hwithin.2 fun hb => hb.2 hopposes⟩
  · rw [and_iff_left hopposes, step]
    cases hperform : perform pe op with
    | error e => exact ⟨h, Iff.rfl⟩
    | ok pe' => exact ((perform_nets_or hperform id).2 hopposes).within h

theorem balanced_run {id : Word} (ops : List Op) {pe : PerpetualEngine} (h : Within id pe) :
    Balanced id (ops.foldl step pe) ↔
      Balanced id pe ∧ Along step (fun pe op => ¬ Opposes id pe op) pe ops := by
  induction ops generalizing pe with
  | nil => exact (and_iff_left trivial).symm
  | cons op ops ih =>
      obtain ⟨hwithin, hbalanced⟩ := step_within h op
      rw [List.foldl_cons, ih hwithin, hbalanced, and_assoc]
      rfl

theorem newPerpetualEngine_balanced (id : Word) : Balanced id newPerpetualEngine :=
  ⟨Finset.sum_const_zero.symm, Finset.sum_const_zero.symm⟩

theorem newPerpetualEngine_within (id : Word) : Within id newPerpetualEngine :=
  ⟨Finset.sum_const_zero.le, Finset.sum_const_zero.le⟩

/-- The open interest of a market is that of its positions exactly as long as no trader has
opened against the position held. -/
theorem openInterest_iff (id : Word) (ops : List Op) :
    Balanced id (ops.foldl step newPerpetualEngine) ↔
      Along step (fun pe op => ¬ Opposes id pe op) newPerpetualEngine ops := by
  rw [balanced_run ops (newPerpetualEngine_within id),
    and_iff_right (newPerpetualEngine_balanced id)]

/-- A long position of ten, reduced by an opening of four. -/
def reducingRun : List Op :=
  [.createMarket 1 2 q96 100 0 0, .openPosition 3 (generateMarketID 1 2) 10 100 false,
    .openPosition 3 (generateMarketID 1 2) (-4) 100 false]

theorem reducing_unbalances :
    ¬ ∀ (id : Word) (ops : List Op), Balanced id (ops.foldl step newPerpetualEngine) := by
  intro hbalanced
  have hrun := (balanced_run reducingRun (newPerpetualEngine_within _)).mp
    (hbalanced (generateMarketID 1 2) reducingRun)
  obtain ⟨-, -, -, hopen, -⟩ := hrun
  refine hopen ⟨rfl, ⟨_, _, rfl, by decide, by decide⟩, by decide⟩

end LuxPrecompile.Perps
