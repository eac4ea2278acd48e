import LuxPrecompile.V3.SwapStep

/-!
# Calls as steps of one pool

What each transition does to the decoded state of a single pool.  A call for
another pool, and a view, is an idle step; the others are described by functions
on pools.  Every property of a pool over whole runs is proved by the rule
`pool_invariant` at the end.
-/

namespace LuxPrecompile.V3

open Dex Evm Support

/-! ## Mint and burn on a pool -/

/-- A boundary tick after `updateTick`, before it is written. -/
def Pool.touchTick (P : Pool) (t d : ℤ) (upper : Bool) : TickInfo where
  liquidityGross := (P.tickInfo t).liquidityGross + d
  liquidityNet :=
    if upper then (P.tickInfo t).liquidityNet - d else (P.tickInfo t).liquidityNet + d
  feeGrowthOutside :=
    if (P.tickInfo t).liquidityGross = 0 ∧ t ≤ P.tick then P.feeGrowth
    else (P.tickInfo t).feeGrowthOutside

/-- Whether a change of liquidity flips a tick between empty and used. -/
def Pool.flips (P : Pool) (t d : ℤ) : Bool :=
  decide ((P.tickInfo t).liquidityGross + d = 0) !=
    decide ((P.tickInfo t).liquidityGross = 0)

/-- A boundary tick at the end of `modifyLiquidity`. -/
def Pool.tickAfter (P : Pool) (t d : ℤ) (upper : Bool) : TickInfo :=
  if d < 0 ∧ P.flips t d = true then newTickInfo else (P.touchTick t d upper).readBack

/-- Both boundary ticks updated, nothing cleared yet. -/
def Pool.touched (P : Pool) (key : PositionKey) (d : ℤ) : Pool :=
  { P with
    tickInfo := Function.update
      (Function.update P.tickInfo key.tickLower (P.touchTick key.tickLower d false).readBack)
      key.tickUpper (P.touchTick key.tickUpper d true).readBack }

/-- The fee growth inside a range of a pool. -/
def Pool.inside (P : Pool) (tickLower tickUpper : ℤ) (i : Token) : ℕ :=
  let lower := (P.tickInfo tickLower).feeGrowthOutside i
  let upper := (P.tickInfo tickUpper).feeGrowthOutside i
  let below := if tickLower ≤ P.tick then lower else sub256 (P.feeGrowth i) lower
  let above := if P.tick < tickUpper then upper else sub256 (P.feeGrowth i) upper
  sub256 (sub256 (P.feeGrowth i) below) above

/-- The pool's current tick is inside the range of a position. -/
def Pool.inRange (P : Pool) (key : PositionKey) : Prop :=
  (key.tickLower : ℤ) ≤ P.tick ∧ P.tick < key.tickUpper

instance (P : Pool) (key : PositionKey) : Decidable (P.inRange key) :=
  inferInstanceAs (Decidable (_ ∧ _))

/-- The pool after `modifyLiquidity`. -/
def Pool.modify (P : Pool) (spacing : ℤ) (key : PositionKey) (d : ℤ) (fees : Token → ℕ) :
    Pool where
  sqrtPrice := P.sqrtPrice
  tick := P.tick
  liquidity :=
    if P.inRange key then wordToUint (uintWord ((P.liquidity : ℤ) + d).toNat)
    else P.liquidity
  feeGrowth := P.feeGrowth
  tickInfo := Function.update
    (Function.update P.tickInfo key.tickLower (P.tickAfter key.tickLower d false))
    key.tickUpper (P.tickAfter key.tickUpper d true)
  words :=
    let flipLower :=
      if P.flips key.tickLower d then flipTick P.words key.tickLower spacing else P.words
    if P.flips key.tickUpper d then flipTick flipLower key.tickUpper spacing else flipLower
  position := Function.update P.position key
    (Position.readBack
      { liquidity := (((P.position key).liquidity : ℤ) + d).toNat
        feeGrowthInsideLast := (P.touched key d).inside key.tickLower key.tickUpper
        tokensOwed := fun i => (P.position key).tokensOwed i + fees i })

/-- A change of liquidity that went through, with the fees it credited and the
principal it moved. -/
structure Modify (spacing : ℤ) (P : Pool) (key : PositionKey) (d : ℤ)
    (fees amounts : Token → ℕ) (P' : Pool) : Prop where
  liquidity_nonneg : 0 ≤ ((P.position key).liquidity : ℤ) + d
  active_nonneg : P.inRange key → 0 ≤ (P.liquidity : ℤ) + d
  fees_eq : ∀ i, owedFees (P.position key)
    ((P.touched key d).inside key.tickLower key.tickUpper) i = some (fees i)
  amounts_eq : getAmountsForLiquidity P.sqrtPrice (sqrtRatio key.tickLower)
    (sqrtRatio key.tickUpper) d.natAbs = some (amounts .token0, amounts .token1)
  result : P' = P.modify spacing key d fees

theorem view_updateTick (db : Storage) (pk : PoolKey) (t d : ℤ) (upper : Bool) :
    (updateTick db pk t (db.view pk).tick d upper (db.view pk).feeGrowth).1.view pk =
      { db.view pk with
        tickInfo := Function.update (db.view pk).tickInfo t
          ((db.view pk).touchTick t d upper).readBack } := by
  simp only [updateTick, view_storeTickInfo]
  rfl

theorem view_flipIf (db : Storage) (pk : PoolKey) (flipped : Bool) (t : ℤ) :
    (flipIf flipped db pk t).view pk =
      { db.view pk with
        words := if flipped then flipTick (db.view pk).words t pk.tickSpacing
          else (db.view pk).words } := by
  cases flipped
  · rfl
  · exact view_flipTickBitmap db pk t

@[simp]
theorem newTickInfo_readBack : newTickInfo.readBack = newTickInfo :=
  TickInfo.readBack_eq (by simp [newTickInfo]) (by simp [newTickInfo]) (by simp [newTickInfo])

theorem view_clearIf (db : Storage) (pk : PoolKey) (flipped : Bool) (d t : ℤ) :
    (clearIf flipped d db pk t).view pk =
      { db.view pk with
        tickInfo := if d < 0 ∧ flipped = true then
            Function.update (db.view pk).tickInfo t newTickInfo
          else (db.view pk).tickInfo } := by
  unfold clearIf
  split_ifs with h
  · rw [clearTickInfo, view_storeTickInfo, newTickInfo_readBack]
  · rfl

theorem view_storeLiquidity (db : Storage) (pk : PoolKey) (v : ℕ) :
    (storeLiquidity db pk v).view pk =
      { db.view pk with liquidity := wordToUint (uintWord v) } := by
  rw [storeLiquidity, view_setPool]
  rfl

/-- `updateActive` on the viewed pool. -/
theorem updateActive_ok {db db' : Storage} {pk : PoolKey} {key : PositionKey} {d : ℤ}
    (h : updateActive db pk key (db.view pk).tick d = .ok db') :
    ((db.view pk).inRange key → 0 ≤ ((db.view pk).liquidity : ℤ) + d) ∧
    db'.view pk = { db.view pk with
      liquidity := if (db.view pk).inRange key then
          wordToUint (uintWord (((db.view pk).liquidity : ℤ) + d).toNat)
        else (db.view pk).liquidity } := by
  unfold updateActive at h
  by_cases hin : (db.view pk).inRange key
  · have hin' := hin
    unfold Pool.inRange at hin'
    rw [if_pos hin'] at h
    simp only at h
    split_ifs at h with hneg
    simp only [Except.ok.injEq] at h
    subst h
    refine ⟨fun _ => not_lt.mp hneg, ?_⟩
    rw [view_storeLiquidity, if_pos hin]
    rfl
  · have hin' := hin
    unfold Pool.inRange at hin'
    rw [if_neg hin', Except.ok.injEq] at h
    subst h
    refine ⟨fun hc => absurd hc hin, ?_⟩
    rw [if_neg hin]

theorem orPanic_ok {α : Type} {x : Option α} {a : α} (h : orPanic x = .ok a) :
    x = some a := by
  cases x with
  | none => cases h
  | some b =>
      simp only [orPanic, Except.ok.injEq] at h
      rw [h]

theorem updatePosition_ok {db db' : Storage} {pk : PoolKey} {key : PositionKey} {d : ℤ}
    {inside fees : Token → ℕ}
    (h : updatePosition db pk key d inside = .ok (db', fees)) :
    0 ≤ (((db.view pk).position key).liquidity : ℤ) + d ∧
    (∀ i, owedFees ((db.view pk).position key) inside i = some (fees i)) ∧
    db' = storePosition db pk key
      { liquidity := ((((db.view pk).position key).liquidity : ℤ) + d).toNat
        feeGrowthInsideLast := inside
        tokensOwed := fun i => ((db.view pk).position key).tokensOwed i + fees i } := by
  simp only [updatePosition, bind_eq_ok] at h
  obtain ⟨owed0, h0, owed1, h1, h⟩ := h
  split_ifs at h with hneg
  simp only [Except.ok.injEq, Prod.mk.injEq] at h
  obtain ⟨rfl, rfl⟩ := h
  refine ⟨not_lt.mp hneg, ?_, rfl⟩
  intro i
  cases i with
  | token0 => exact orPanic_ok h0
  | token1 => exact orPanic_ok h1

/-- The storage after both boundary ticks were updated and their bits flipped. -/
theorem view_updateTicks {db : Storage} {pk : PoolKey} {key : PositionKey} {d : ℤ}
    {ticks : Storage × Bool × Bool} (hlt : (key.tickLower : ℤ) < key.tickUpper)
    (h : updateTicks db pk key (db.view pk).tick d (db.view pk).feeGrowth = ticks) :
    ticks.2.1 = (db.view pk).flips key.tickLower d ∧
    ticks.2.2 = (db.view pk).flips key.tickUpper d ∧
    ticks.1.view pk =
      { (db.view pk).touched key d with
        words := ((db.view pk).modify pk.tickSpacing key d (fun _ => 0)).words } := by
  have hne : (key.tickUpper : ℤ) ≠ key.tickLower := by omega
  obtain ⟨lower, hlower⟩ : ∃ lower, updateTick db pk key.tickLower (db.view pk).tick d false
    (db.view pk).feeGrowth = lower := ⟨_, rfl⟩
  have hview1 := view_updateTick db pk key.tickLower d false
  rw [hlower] at hview1
  have hflip1 : lower.2 = (db.view pk).flips key.tickLower d := by
    rw [← hlower]
    rfl
  have hview2 := view_updateTick lower.1 pk key.tickUpper d true
  have htouch : (lower.1.view pk).touchTick key.tickUpper d true =
      (db.view pk).touchTick key.tickUpper d true := by
    simp only [Pool.touchTick, hview1, Function.update_of_ne hne]
  rw [htouch] at hview2
  obtain ⟨upper, hupper⟩ : ∃ upper, updateTick lower.1 pk key.tickUpper (db.view pk).tick d
    true (db.view pk).feeGrowth = upper := ⟨_, rfl⟩
  have hflip2 : upper.2 = (db.view pk).flips key.tickUpper d := by
    have hsame : (lower.1.view pk).flips key.tickUpper d =
        (db.view pk).flips key.tickUpper d := by
      simp only [Pool.flips, hview1, Function.update_of_ne hne]
    rw [← hupper, ← hsame]
    rfl
  simp only [hview1, hupper] at hview2
  simp only [updateTicks, hlower, hupper] at h
  subst h
  refine ⟨hflip1, hflip2, ?_⟩
  simp only [view_flipIf, hview2, hflip1, hflip2]
  rfl

/-- Clearing the boundary ticks that a removal emptied. -/
theorem clear_eq (P : Pool) (key : PositionKey) (d : ℤ)
    (hlt : (key.tickLower : ℤ) < key.tickUpper) :
    (let first := if d < 0 ∧ P.flips key.tickLower d = true then
        Function.update (P.touched key d).tickInfo key.tickLower newTickInfo
      else (P.touched key d).tickInfo
     if d < 0 ∧ P.flips key.tickUpper d = true then
        Function.update first key.tickUpper newTickInfo
      else first) =
    (P.modify 0 key d (fun _ => 0)).tickInfo := by
  have hne : (key.tickUpper : ℤ) ≠ key.tickLower := by omega
  funext t
  simp only [Pool.modify, Pool.tickAfter, Pool.touched]
  by_cases hu : t = key.tickUpper
  · subst hu
    split_ifs <;> simp [hne]
  · by_cases hl : t = key.tickLower
    · subst hl
      split_ifs <;> simp [hne.symm]
    · split_ifs <;> simp [hu, hl]

/-- `modifyLiquidity` on the pool it is called for. -/
theorem modifyLiquidity_ok {db : Storage} {pk : PoolKey} {key : PositionKey} {d : ℤ}
    {m : Modified} (hlt : (key.tickLower : ℤ) < key.tickUpper)
    (h : modifyLiquidity db pk key d = .ok m) :
    Modify pk.tickSpacing (db.view pk) key d m.feesCredited m.amounts
      (m.storage.view pk) := by
  simp only [modifyLiquidity, bind_eq_ok] at h
  obtain ⟨⟨db3, fees⟩, hpos, ⟨a0, a1⟩, hamounts, db5, hactive, h⟩ := h
  simp only [Except.ok.injEq] at h
  subst h
  obtain ⟨ticks, hticks⟩ : ∃ ticks, updateTicks db pk key (loadPoolTick db pk) d
    (loadFeeGrowthGlobal db pk) = ticks := ⟨_, rfl⟩
  rw [hticks] at hpos hactive
  obtain ⟨hflipLower, hflipUpper, hview⟩ := view_updateTicks hlt hticks
  have hinside : getFeeGrowthInside ticks.1 pk key.tickLower key.tickUpper
      (loadPoolTick db pk) (loadFeeGrowthGlobal db pk) =
      ((db.view pk).touched key d).inside key.tickLower key.tickUpper := by
    have hinfo : loadTickInfo ticks.1 pk = ((db.view pk).touched key d).tickInfo :=
      congrArg Pool.tickInfo hview
    funext i
    simp only [getFeeGrowthInside, hinfo]
    rfl
  obtain ⟨hnonneg, hfees, rfl⟩ := updatePosition_ok hpos
  simp only [hview, hinside] at hnonneg hfees
  obtain ⟨cleared, hcleared⟩ : ∃ cleared, clearIf ticks.2.2 d (clearIf ticks.2.1 d
    (storePosition ticks.1 pk key
      { liquidity := (((ticks.1.view pk).position key).liquidity + d).toNat
        feeGrowthInsideLast := getFeeGrowthInside ticks.1 pk key.tickLower key.tickUpper
          (loadPoolTick db pk) (loadFeeGrowthGlobal db pk)
        tokensOwed := fun i => ((ticks.1.view pk).position key).tokensOwed i + fees i })
    pk key.tickLower) pk key.tickUpper = cleared := ⟨_, rfl⟩
  have hclearedView : cleared.view pk =
      { (db.view pk).modify pk.tickSpacing key d fees with
        liquidity := (db.view pk).liquidity } := by
    rw [← hcleared, view_clearIf, view_clearIf, view_storePosition]
    simp only [hview, hinside, hflipLower, hflipUpper]
    have hclear := clear_eq (db.view pk) key d hlt
    simp only at hclear
    rw [hclear]
    rfl
  simp only [hcleared] at hactive
  have htick : loadPoolTick db pk = (cleared.view pk).tick := by
    rw [hclearedView]
    rfl
  rw [htick] at hactive
  obtain ⟨hactiveNonneg, hfinal⟩ := updateActive_ok hactive
  have hrange : (cleared.view pk).inRange key ↔ (db.view pk).inRange key := by
    rw [hclearedView]
    rfl
  refine ⟨hnonneg, ?_, hfees, orPanic_ok hamounts, ?_⟩
  · intro hin
    have := hactiveNonneg (hrange.mpr hin)
    rw [hclearedView] at this
    exact this
  · rw [hfinal, hclearedView]
    rfl

theorem Local.flipIf {pk : PoolKey} (db : Storage) (flipped : Bool) (t : ℤ) :
    Local pk db (V3.flipIf flipped db pk t) := by
  cases flipped
  · exact .refl db
  · exact .storeBitmapWord db _ _

theorem Local.clearIf {pk : PoolKey} (db : Storage) (flipped : Bool) (d t : ℤ) :
    Local pk db (V3.clearIf flipped d db pk t) := by
  unfold V3.clearIf
  split_ifs
  · exact .storeTickInfo db _ _
  · exact .refl db

theorem Local.updateTicks (pk : PoolKey) (db : Storage) (key : PositionKey)
    (currentTick d : ℤ) (fg : Token → ℕ) :
    Local pk db (V3.updateTicks db pk key currentTick d fg).1 :=
  (((Local.storeTickInfo db _ _).trans (.storeTickInfo _ _ _)).trans
    (.flipIf _ _ _)).trans (.flipIf _ _ _)

theorem Local.updateActive {pk : PoolKey} {db db' : Storage} {key : PositionKey}
    {currentTick d : ℤ} (h : V3.updateActive db pk key currentTick d = .ok db') :
    Local pk db db' := by
  unfold V3.updateActive at h
  simp only at h
  split_ifs at h
  · simp only [Except.ok.injEq] at h
    subst h
    exact .setPool db _
  · simp only [Except.ok.injEq] at h
    subst h
    exact .refl db

/-- `modifyLiquidity` writes words of its own pool only. -/
theorem modifyLiquidity_local {db : Storage} {pk : PoolKey} {key : PositionKey} {d : ℤ}
    {m : Modified} (h : modifyLiquidity db pk key d = .ok m) : Local pk db m.storage := by
  simp only [modifyLiquidity, bind_eq_ok] at h
  obtain ⟨⟨db3, fees⟩, hpos, ⟨a0, a1⟩, -, db5, hactive, h⟩ := h
  simp only [Except.ok.injEq] at h
  subst h
  have hticks := Local.updateTicks pk db key (loadPoolTick db pk) d
    (loadFeeGrowthGlobal db pk)
  have hposition : Local pk db db3 := by
    obtain ⟨-, -, rfl⟩ := updatePosition_ok hpos
    exact hticks.trans (.storePosition _ _ _)
  exact ((hposition.trans (.clearIf _ _ _ _)).trans (.clearIf _ _ _ _)).trans
    (.updateActive hactive)

/-! ## Payments -/

theorem pullAsset_view {host : Host} {w w' : World} {asset sender : Address} {amount : ℕ}
    (h : pullAsset host w asset sender amount = .ok w') (pk : PoolKey) :
    w'.storage.view pk = w.storage.view pk := by
  rcases pullAsset_storage h with ⟨heq, -⟩ | heq
  · rw [heq]
  · rw [heq]
    rfl

theorem payAsset_view {host : Host} {w w' : World} {asset recipient : Address} {amount : ℕ}
    (h : payAsset host w asset recipient amount = .ok w') (pk : PoolKey) :
    w'.storage.view pk = w.storage.view pk := by
  rcases payAsset_storage h with ⟨heq, -⟩ | ⟨-, heq⟩
  · rw [heq]
  · rw [heq]
    rfl

end LuxPrecompile.V3
