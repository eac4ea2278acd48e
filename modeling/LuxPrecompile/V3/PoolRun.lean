import LuxPrecompile.V3.Effects

/-!
# Runs seen from one pool

Every action of a run is, for a given pool, either idle or one of five steps on
the pool's decoded state.  An invariant of a pool therefore needs one argument
for each kind of step, and the rule `pool_invariant` turns it into a statement
about every run.
-/

namespace LuxPrecompile.V3

open Dex Evm Support

/-! ## A swap in progress -/

/-- The pool as the loop of a swap sees it: scalars from the loop variables, the
rest from storage. -/
def SwapState.pool (s : SwapState) (pk : PoolKey) : Pool :=
  { s.storage.view pk with
    sqrtPrice := s.sqrtPrice
    tick := s.tick
    liquidity := s.liquidity
    feeGrowth := s.feeGrowth }

/-- A tick after it was crossed. -/
def Pool.crossedTick (P : Pool) (t : ℤ) : TickInfo :=
  { P.tickInfo t with
    feeGrowthOutside := fun i =>
      sub256 (P.feeGrowth i) ((P.tickInfo t).feeGrowthOutside i) }

/-- The pool after a step that passed no initialised tick. -/
def Pool.move (P : Pool) (price : ℕ) (tick : ℤ) (fg : Token → ℕ) : Pool :=
  { P with sqrtPrice := price, tick := tick, feeGrowth := fg }

/-- The pool after it crossed an initialised tick. -/
def Pool.cross (P : Pool) (zeroForOne : Bool) (t : ℤ) : Pool :=
  { P with
    liquidity := ((P.liquidity : ℤ) +
      directedNet zeroForOne (P.tickInfo t).liquidityNet).toNat
    tickInfo := Function.update P.tickInfo t (P.crossedTick t).readBack }

/-- The two ways a step can change the pool. -/
theorem Settled.pool_cases {p : SwapParams} {s s' : SwapState} {step : SwapStepResult}
    {growth : ℕ} (h : Settled p s step growth s') :
    ((∀ i, Between s.tick s'.tick (i * p.pk.tickSpacing) →
        bitSet (s.pool p.pk).words i = false) ∧
      s'.pool p.pk = (s.pool p.pk).move step.sqrtRatioNextX96 s'.tick
        (accrueGrowth p s step.feeAmount growth)) ∨
    ∃ n, s'.tick = tickAfterCross p.zeroForOne (n * p.pk.tickSpacing) ∧
      bitSet (s.pool p.pk).words n = true ∧
      Between s.tick s'.tick (n * p.pk.tickSpacing) ∧
      (∀ i, i ≠ n → Between s.tick s'.tick (i * p.pk.tickSpacing) →
        bitSet (s.pool p.pk).words i = false) ∧
      0 ≤ ((s.pool p.pk).liquidity : ℤ) + directedNet p.zeroForOne
        ((s.pool p.pk).tickInfo (n * p.pk.tickSpacing)).liquidityNet ∧
      s'.pool p.pk = ((s.pool p.pk).move step.sqrtRatioNextX96 s'.tick
        (accrueGrowth p s step.feeAmount growth)).cross p.zeroForOne
          (n * p.pk.tickSpacing) := by
  cases h with
  | quiet tick hnone => exact Or.inl ⟨hnone, rfl⟩
  | crossed n hbit hat hnone hnonneg =>
      refine Or.inr ⟨n, rfl, hbit, hat, hnone, hnonneg, ?_⟩
      have hview := view_storeTickInfo s.storage p.pk (n * p.pk.tickSpacing)
        (((s.pool p.pk).move step.sqrtRatioNextX96 s.tick
          (accrueGrowth p s step.feeAmount growth)).crossedTick (n * p.pk.tickSpacing))
      have htick := congrArg Pool.tickInfo hview
      have hwords := congrArg Pool.words hview
      have hposition := congrArg Pool.position hview
      ext : 1
      · rfl
      · rfl
      · rfl
      · rfl
      · exact htick
      · exact hwords
      · exact hposition

/-- What else a step keeps: the words of other pools, the positions and the
bitmap of its own, and the record of the step. -/
theorem swapStep_frame {p : SwapParams} {s s' : SwapState} (h : swapStep p s = .ok s') :
    Local p.pk s.storage s'.storage ∧
      (s'.pool p.pk).position = (s.pool p.pk).position ∧
      (s'.pool p.pk).words = (s.pool p.pk).words := by
  obtain ⟨step, growth, -, hcases⟩ := swapStep_cases h
  rcases hcases with ⟨-, hok⟩ | ⟨-, -, tick, -, rfl⟩ | ⟨-, -, rfl⟩
  · rcases reachTick_ok hok with ⟨-, rfl⟩ | ⟨-, -, rfl⟩
    · exact ⟨.refl _, rfl, rfl⟩
    · exact ⟨.storeTickInfo _ _ _, rfl, rfl⟩
  · exact ⟨.refl _, rfl, rfl⟩
  · exact ⟨.refl _, rfl, rfl⟩

theorem accrueGrowth_lt {p : SwapParams} {s : SwapState} {fee : ℤ} {growth : ℕ}
    (h : ∀ i, s.feeGrowth i < 2 ^ 256) (i : Token) :
    accrueGrowth p s fee growth i < 2 ^ 256 := by
  unfold accrueGrowth
  split_ifs
  · by_cases hi : i = p.tokenIn
    · subst hi
      rw [Function.update_self]
      exact mod256_lt _
    · rw [Function.update_of_ne hi]
      exact h i
  · exact h i

/-- The fee counters stay in range during a swap. -/
theorem swapStep_feeGrowth {p : SwapParams} {s s' : SwapState} (h : swapStep p s = .ok s') :
    ∃ step growth, Stepped p s step growth ∧
      s'.feeGrowth = accrueGrowth p s step.feeAmount growth ∧
      s'.steps = s.steps ++ [stepRecord p s step growth] ∧
      s'.totalIn = s.totalIn + (step.amountIn + step.feeAmount) ∧
      s'.totalOut = s.totalOut + step.amountOut ∧
      s'.sqrtPrice = step.sqrtRatioNextX96 := by
  obtain ⟨step, growth, hstepped, hcases⟩ := swapStep_cases h
  refine ⟨step, growth, hstepped, ?_⟩
  rcases hcases with ⟨-, hok⟩ | ⟨-, -, tick, -, rfl⟩ | ⟨-, -, rfl⟩
  · obtain ⟨hprice, -, hsteps, hgrowth, hin, hout⟩ := reachTick_price hok
    exact ⟨hgrowth, hsteps, hin, hout, hprice⟩
  · exact ⟨rfl, rfl, rfl, rfl, rfl⟩
  · exact ⟨rfl, rfl, rfl, rfl, rfl⟩

/-- The pool a finished swap leaves in storage. -/
theorem persistSwap_view {s : SwapState} {pk : PoolKey} (hprice : Priced s.sqrtPrice s.tick)
    (hgrowth : ∀ i, s.feeGrowth i < 2 ^ 256) :
    (persistSwap s pk).view pk =
      { s.pool pk with liquidity := wordToUint (uintWord s.liquidity) } := by
  have hsqrt : wordToUint (uintWord s.sqrtPrice) = s.sqrtPrice := by
    apply wordToUint_uintWord_of_lt
    have := hprice.lt_max
    unfold maxSqrtRatio at this
    omega
  have htick : int32 (wordToInt (intWord s.tick)) = s.tick := by
    have h1 := hprice.minTick_le
    have h2 := hprice.lt_maxTick
    unfold minTick at h1
    unfold maxTick at h2
    rw [wordToInt_intWord (by omega) (by omega), int32_eq (by omega) (by omega)]
  have hfees : (fun i => wordToUint (uintWord (s.feeGrowth i))) = s.feeGrowth := by
    funext i
    exact wordToUint_uintWord_of_lt (hgrowth i)
  simp only [persistSwap, storeSqrtPrice, storePoolTick, storeLiquidity,
    storeFeeGrowthGlobal, setPool_setPool, setPool_pool, view_setPool,
    hsqrt, htick, hfees]
  rfl

theorem persistSwap_local {s : SwapState} {pk : PoolKey} :
    Local pk s.storage (persistSwap s pk) :=
  (((Local.setPool s.storage _).trans (.setPool _ _)).trans (.setPool _ _)).trans
    (.setPool _ _)

/-! ## The steps of one pool -/

/-- The pool an event is about. -/
def Event.pool : Event → PoolKey
  | .init pool _ _ => pool
  | .mint pool _ _ _ => pool
  | .burn pool _ _ _ => pool
  | .collect pool _ _ => pool
  | .swap pool _ _ _ _ _ => pool

/-- Owing a position more of both tokens. -/
def Pool.credit (P : Pool) (key : PositionKey) (amounts : Token → ℕ) : Pool :=
  { P with
    position := Function.update P.position key
      (Position.readBack
        { P.position key with
          tokensOwed := fun i => (P.position key).tokensOwed i + amounts i }) }

/-- Paying a position what it is owed. -/
def Pool.collect (P : Pool) (key : PositionKey) (amounts : Token → ℕ) : Pool :=
  { P with
    position := Function.update P.position key
      (Position.readBack
        { P.position key with
          tokensOwed := fun i => (P.position key).tokensOwed i - amounts i }) }

/-- One successful call, seen from the pool `pk`. -/
inductive PoolStep (pk : PoolKey) (P : Pool) : Pool → Outcome → Prop
  | idle {out : Outcome} (hevent : ∀ ev, out.event = some ev → ev.pool ≠ pk) :
      PoolStep pk P P out
  | init {out : Outcome} {price : ℕ} {tick : ℤ} (hnew : P.sqrtPrice = 0)
      (hpriced : Priced price tick) (hstrict : price < sqrtRatio (tick + 1))
      (hevent : out.event = some (.init pk tick price))
      (hsteps : out.steps = []) (hfees : ∀ i, out.feesCredited i = 0) :
      PoolStep pk P { P with sqrtPrice := price, tick := tick } out
  | mint {out : Outcome} {P' : Pool} {key : PositionKey} {amount : ℕ}
      {amounts : Token → ℕ} (hinit : P.sqrtPrice ≠ 0) (hrange : ValidRange pk key)
      (hpos : 0 < amount) (hle : amount ≤ maxUint128)
      (hmodify : Modify pk.tickSpacing P key amount out.feesCredited amounts P')
      (hevent : out.event = some (.mint pk key amount amounts))
      (hsteps : out.steps = []) : PoolStep pk P P' out
  | burn {out : Outcome} {P' : Pool} {key : PositionKey} {amount : ℕ}
      {amounts : Token → ℕ} (hinit : P.sqrtPrice ≠ 0) (hrange : ValidRange pk key)
      (hpos : 0 < amount) (hle : amount ≤ (P.position key).liquidity)
      (hmodify : Modify pk.tickSpacing P key (-amount) out.feesCredited amounts P')
      (hevent : out.event = some (.burn pk key amount amounts))
      (hsteps : out.steps = []) : PoolStep pk P (P'.credit key amounts) out
  | collect {out : Outcome} {key : PositionKey} {amounts : Token → ℕ}
      (hle : ∀ i, amounts i ≤ (P.position key).tokensOwed i)
      (hevent : out.event = some (.collect pk key amounts))
      (hsteps : out.steps = []) (hfees : ∀ i, out.feesCredited i = 0) :
      PoolStep pk P (P.collect key amounts) out
  | swap {out : Outcome} {db : Storage} {p : SwapParams} {sender : Address}
      {amountSpecified : ℤ} {fuel fuel' : ℕ} {s : SwapState}
      (hpk : p.pk = pk) (hview : db.view pk = P) (hinit : P.sqrtPrice ≠ 0)
      (hlimit : WithinLimit p P.sqrtPrice)
      (hloop : swapLoop p fuel (swapInit db pk amountSpecified) = .ok (s, fuel'))
      (hevent : out.event = some (.swap pk sender
        (swapAmounts p.zeroForOne s.totalIn s.totalOut) s.sqrtPrice s.liquidity s.tick))
      (hsteps : out.steps = s.steps) (hfees : ∀ i, out.feesCredited i = 0) :
      PoolStep pk P ((persistSwap s pk).view pk) out

/-! ## Every action is a step of every pool -/

theorem view_position_readBack (db : Storage) (pk : PoolKey) (key : PositionKey) :
    ((db.view pk).position key).readBack = (db.view pk).position key := by
  have hword : ∀ h : Word, wordToUint (uintWord (wordToUint h)) = wordToUint h :=
    fun h => wordToUint_uintWord_of_lt (wordToUint_lt h)
  simp only [Position.readBack, Storage.view, loadPosition, hword]

theorem view_creditPrincipal (db : Storage) (pk : PoolKey) (key : PositionKey)
    (amounts : Token → ℕ) :
    (creditPrincipal db pk key amounts).view pk = (db.view pk).credit key amounts := by
  unfold creditPrincipal
  split_ifs with h
  · exact view_storePosition db pk key _
  · have hzero : ∀ i, amounts i = 0 := by
      intro i
      cases i <;> omega
    have hsame : (Position.readBack
        { (db.view pk).position key with
          tokensOwed := fun i => ((db.view pk).position key).tokensOwed i + amounts i }) =
        (db.view pk).position key := by
      simp only [hzero, Nat.add_zero]
      exact view_position_readBack db pk key
    simp only [Pool.credit, hsame, Function.update_eq_self]

theorem creditPrincipal_local {pk : PoolKey} (db : Storage) (key : PositionKey)
    (amounts : Token → ℕ) : Local pk db (creditPrincipal db pk key amounts) := by
  unfold creditPrincipal
  split_ifs
  · exact .storePosition db _ _
  · exact .refl db

theorem view_init {db : Storage} {pk : PoolKey} {price : ℕ} {tick : ℤ}
    (h : Priced price tick) :
    (storePoolTick (storeSqrtPrice db pk price) pk tick).view pk =
      { db.view pk with sqrtPrice := price, tick := tick } := by
  have hsqrt : wordToUint (uintWord price) = price := by
    apply wordToUint_uintWord_of_lt
    have := h.lt_max
    unfold maxSqrtRatio at this
    omega
  have htick : int32 (wordToInt (intWord tick)) = tick := by
    have h1 := h.minTick_le
    have h2 := h.lt_maxTick
    unfold minTick at h1
    unfold maxTick at h2
    rw [wordToInt_intWord (by omega) (by omega), int32_eq (by omega) (by omega)]
  simp only [storeSqrtPrice, storePoolTick, setPool_setPool, setPool_pool, view_setPool,
    hsqrt, htick]
  rfl

theorem isInitialized_iff {db : Storage} {pk : PoolKey} :
    isInitialized db pk = true ↔ (db.view pk).sqrtPrice ≠ 0 := by
  unfold isInitialized
  rw [decide_eq_true_eq]
  exact Nat.pos_iff_ne_zero

/-- The loop of a swap writes words of its own pool only. -/
theorem swapLoop_local {p : SwapParams} :
    ∀ (fuel : ℕ) {s s' : SwapState} {fuel' : ℕ},
      swapLoop p fuel s = .ok (s', fuel') → Local p.pk s.storage s'.storage
  | 0, s, s', fuel', h => by
      unfold swapLoop at h
      split_ifs at h
      simp only [Except.ok.injEq, Prod.mk.injEq] at h
      rw [h.1]
      exact .refl _
  | fuel + 1, s, s', fuel', h => by
      unfold swapLoop at h
      split_ifs at h
      · cases hok : swapStep p s with
        | error e => simp [hok] at h
        | ok mid =>
            simp only [hok] at h
            exact (swapStep_frame hok).1.trans (swapLoop_local fuel h)
      · simp only [Except.ok.injEq, Prod.mk.injEq] at h
        rw [h.1]
        exact .refl _

/-- A transition is a step of every pool. -/
theorem Transition.poolStep {host : Host} {caller : Address} {w w' : World}
    {out : Outcome} (h : Transition host caller w w' out) (pk : PoolKey) :
    PoolStep pk (w.storage.view pk) (w'.storage.view pk) out := by
  cases h with
  | @init pk' price gas tick hnew hlo hhi htick =>
      obtain ⟨hpriced, hstrict⟩ := getTick_priced hlo hhi htick
      by_cases hpk : pk = pk'
      · subst hpk
        rw [view_init hpriced]
        have hzero : (w.storage.view pk).sqrtPrice = 0 := by
          by_contra hne
          rw [isInitialized_iff.mpr hne] at hnew
          cases hnew
        exact .init hzero hpriced hstrict rfl rfl (fun _ => rfl)
      · have hsame : (storePoolTick (storeSqrtPrice w.storage pk' price) pk' tick).view pk =
            w.storage.view pk :=
          ((Local.setPool w.storage _).trans (.setPool _ _)).view_eq pk hpk
        rw [hsame]
        refine .idle ?_
        rintro ev ⟨⟩
        exact Ne.symm hpk
  | @mint pk' key amount gas m w1 w2 hinit hrange howner hpos hle hcore hpull0 hpull1 =>
      rw [pullAsset_view hpull1, pullAsset_view hpull0]
      by_cases hpk : pk = pk'
      · subst hpk
        exact .mint (isInitialized_iff.mp hinit) hrange hpos hle
          (modifyLiquidity_ok hrange.lower_lt hcore) rfl rfl
      · rw [show m.storage.view pk = w.storage.view pk from
          (modifyLiquidity_local hcore).view_eq pk hpk]
        refine .idle ?_
        rintro ev ⟨⟩
        exact Ne.symm hpk
  | @burn pk' key amount gas m hinit hrange howner hpos hle hcore =>
      by_cases hpk : pk = pk'
      · subst hpk
        rw [show (creditPrincipal m.storage pk key m.amounts).view pk = _ from
          view_creditPrincipal m.storage pk key m.amounts]
        exact .burn (isInitialized_iff.mp hinit) hrange hpos hle
          (modifyLiquidity_ok hrange.lower_lt hcore) rfl rfl
      · rw [show (creditPrincipal m.storage pk' key m.amounts).view pk = w.storage.view pk from
          ((modifyLiquidity_local hcore).trans
            (creditPrincipal_local _ _ _)).view_eq pk hpk]
        refine .idle ?_
        rintro ev ⟨⟩
        exact Ne.symm hpk
  | @collect pk' key gas requested w1 w2 amounts howner hamounts hpay0 hpay1 =>
      rw [payAsset_view hpay1, payAsset_view hpay0]
      by_cases hpk : pk = pk'
      · subst hpk
        rw [view_storePosition]
        refine .collect ?_ rfl rfl (fun _ => rfl)
        intro i
        rw [hamounts]
        exact Nat.min_le_right _ _
      · rw [view_storePosition_of_ne _ _ _ hpk]
        refine .idle ?_
        rintro ev ⟨⟩
        exact Ne.symm hpk
  | @swap p amountSpecified fuel fuel' gas s w1 w2 hinit hamount hlimit hloop hpull hpay =>
      rw [payAsset_view hpay, pullAsset_view hpull]
      by_cases hpk : pk = p.pk
      · subst hpk
        exact .swap rfl rfl (isInitialized_iff.mp hinit)
          (withinLimit_of_priceLimitOk hlimit) hloop rfl rfl (fun _ => rfl)
      · rw [show (persistSwap s p.pk).view pk = w.storage.view pk from
          ((swapLoop_local fuel hloop).trans persistSwap_local).view_eq pk hpk]
        refine .idle ?_
        rintro ev ⟨⟩
        exact Ne.symm hpk

/-! ## Runs -/

theorem deliverValue_storage {w w' : World} {caller : Address} {value : ℕ}
    (h : deliverValue w caller value = some w') : w'.storage = w.storage := by
  unfold deliverValue at h
  simp only at h
  split_ifs at h
  simp only [Option.some.injEq] at h
  rw [← h]
  rfl

/-- A successful call is a step of every pool. -/
theorem call_poolStep {w w' : World} {c : Call} {out : Outcome}
    (h : call w c = some (w', out)) (pk : PoolKey) :
    PoolStep pk (w.storage.view pk) (w'.storage.view pk) out := by
  unfold call at h
  cases hdeliver : deliverValue w c.caller c.value with
  | none => simp [hdeliver] at h
  | some w1 =>
      simp only [hdeliver] at h
      cases hrun : run c.host w1 c.caller c.input c.gas c.readOnly with
      | error e => simp [hrun, Except.toOption] at h
      | ok r =>
          simp only [hrun, Except.toOption, Option.some.injEq] at h
          subst h
          rw [← deliverValue_storage hdeliver]
          rcases run_cases hrun with ⟨rfl, ret, gas', rfl⟩ | ⟨w2, htrans, rfl⟩
          · exact .idle (by simp [Outcome.plain])
          · exact htrans.poolStep pk

/-- An action either leaves a pool and the trace alone or is a step of the
pool. -/
theorem exec_pool (r : Execution) (a : Action) (pk : PoolKey) :
    ((exec r a).1.storage.view pk = r.1.storage.view pk ∧ (exec r a).2 = r.2) ∨
    ∃ out, (exec r a).2 = out :: r.2 ∧
      PoolStep pk (r.1.storage.view pk) ((exec r a).1.storage.view pk) out := by
  cases a with
  | call c =>
      cases hcall : call r.1 c with
      | none =>
          left
          simp [exec, hcall]
      | some res =>
          right
          refine ⟨res.2, ?_, ?_⟩
          · simp [exec, hcall]
          · simp only [exec, hcall]
            exact call_poolStep hcall pk
  | credit asset owner amount =>
      left
      simp only [exec]
      split_ifs
      · exact ⟨rfl, rfl⟩
      · exact ⟨rfl, rfl⟩
  | debit asset owner amount =>
      left
      simp only [exec]
      split_ifs
      · exact ⟨rfl, rfl⟩
      · exact ⟨rfl, rfl⟩

/-- A pool before its first call. -/
def Pool.empty : Pool where
  sqrtPrice := 0
  tick := 0
  liquidity := 0
  feeGrowth _ := 0
  tickInfo _ := newTickInfo
  words _ := 0
  position _ := ⟨0, fun _ => 0, fun _ => 0⟩

theorem view_empty (pk : PoolKey) : Storage.empty.view pk = Pool.empty := by
  ext : 1
  · rfl
  · simp only [Storage.view, loadPoolTick, Storage.empty, Pool.empty, wordToInt_zero]
    exact int32_eq (by norm_num) (by norm_num)
  · rfl
  · rfl
  · funext t
    simp only [Storage.view, loadTickInfo, Storage.empty, Pool.empty, newTickInfo,
      wordToInt_zero, wordToUint_zero, Nat.cast_zero]
  · rfl
  · rfl

/-- The rule for runs from any world: a property of a pool and the trace that
holds at the start and is kept by every step holds at the end. -/
theorem pool_invariant_from (pk : PoolKey) {I : Pool → List Outcome → Prop} {w : World}
    (hstart : I (w.storage.view pk) [])
    (hstep : ∀ P P' out trace, I P trace → PoolStep pk P P' out → I P' (out :: trace))
    (actions : List Action) :
    I ((runFrom w actions).1.storage.view pk) (runFrom w actions).2 := by
  refine foldl_invariant (P := fun r : Execution => I (r.1.storage.view pk) r.2) ?_
    actions hstart
  intro r a hr
  rcases exec_pool r a pk with ⟨hview, htrace⟩ | ⟨out, htrace, hpool⟩
  · simp only [hview, htrace]
    exact hr
  · simp only [htrace]
    exact hstep _ _ _ _ hr hpool

/-- The rule for runs: a property of a pool and the trace that holds of the
empty pool and is kept by every step holds after every run. -/
theorem pool_invariant (pk : PoolKey) {I : Pool → List Outcome → Prop}
    (hempty : I Pool.empty [])
    (hstep : ∀ P P' out trace, I P trace → PoolStep pk P P' out → I P' (out :: trace))
    {w : World} (hw : Genesis w) (actions : List Action) :
    I ((runFrom w actions).1.storage.view pk) (runFrom w actions).2 := by
  apply pool_invariant_from pk _ hstep actions
  rw [hw.storage_empty, view_empty]
  exact hempty

end LuxPrecompile.V3
