import LuxPrecompile.Dex.SwapContract
import LuxPrecompile.V3.PriceTick

/-!
# The outcome of a swap

Each pass of the swap loop keeps the contract of its step, so the amounts the loop adds up
stay tied to the amount that was asked for: what is left of it, together with what was
taken in or paid out, is the specified amount at every pass.  When the loop ends, nothing
is left or the price is at the limit.
-/

namespace LuxPrecompile.V3

open Dex Evm Support

/-! ## Passes of the loop -/

/-- The loop goes on. -/
def Continues (p : SwapParams) (s : SwapState) : Prop :=
  s.amountRemaining ≠ 0 ∧ s.sqrtPrice ≠ p.sqrtPriceLimit

instance (p : SwapParams) (s : SwapState) : Decidable (Continues p s) :=
  inferInstanceAs (Decidable (_ ∧ _))

/-- What `ComputeSwapStep` returns in the pass from `s`. -/
def stepResult (p : SwapParams) (s : SwapState) : Option SwapStepResult :=
  (getSqrtRatioAtTick (nextTick p s).1).bind fun sqrtPriceNextTick =>
    computeSwapStep s.sqrtPrice (stepTarget p sqrtPriceNextTick) s.liquidity s.amountRemaining
      p.pk.fee

/-- The steps the loop executes from `s`, in order. -/
def executedSteps (p : SwapParams) : ℕ → SwapState → List SwapStepResult
  | 0, _ => []
  | fuel + 1, s =>
      if Continues p s then
        match stepResult p s, swapStep p s with
        | some step, .ok s' => step :: executedSteps p fuel s'
        | _, _ => []
      else []

theorem Stepped.stepResult {p : SwapParams} {s : SwapState} {step : SwapStepResult}
    {growth : ℕ} (h : Stepped p s step growth) : stepResult p s = some step := by
  rw [V3.stepResult, getSqrtRatioAtTick_eq h.band.1 h.band.2, Option.bind_some, h.computed]

/-- What a pass adds to the accounts of the loop. -/
structure Accrued (p : SwapParams) (s s' : SwapState) (step : SwapStepResult) : Prop where
  sqrtPrice : s'.sqrtPrice = step.sqrtRatioNextX96
  amountRemaining : s'.amountRemaining =
    if p.exactInput then s.amountRemaining + (step.amountIn + step.feeAmount)
    else s.amountRemaining - step.amountOut
  totalIn : s'.totalIn = s.totalIn + (step.amountIn + step.feeAmount)
  totalOut : s'.totalOut = s.totalOut + step.amountOut

theorem swapStep_accrued {p : SwapParams} {s s' : SwapState} (h : swapStep p s = .ok s') :
    ∃ step growth, Stepped p s step growth ∧ Accrued p s s' step := by
  obtain ⟨step, growth, hstepped, hcases⟩ := swapStep_cases h
  refine ⟨step, growth, hstepped, ?_⟩
  rcases hcases with ⟨-, hok⟩ | ⟨-, -, tick, -, rfl⟩ | ⟨-, -, rfl⟩
  · rcases reachTick_ok hok with ⟨-, rfl⟩ | ⟨-, -, rfl⟩
    · exact ⟨rfl, rfl, rfl, rfl⟩
    · exact ⟨rfl, rfl, rfl, rfl⟩
  · exact ⟨rfl, rfl, rfl, rfl⟩
  · exact ⟨rfl, rfl, rfl, rfl⟩

/-- The rule for the loop: what every pass preserves while the loop goes on holds when it
ends, and then it does not go on. -/
theorem swapLoop_ends {p : SwapParams} {P : SwapState → Prop}
    (hstep : ∀ s s', Swapping p s → Continues p s → P s → swapStep p s = .ok s' → P s')
    (fuel : ℕ) {s s' : SwapState} {fuel' : ℕ} (hs : Swapping p s) (hP : P s)
    (h : swapLoop p fuel s = .ok (s', fuel')) :
    Swapping p s' ∧ P s' ∧ ¬Continues p s' := by
  induction fuel generalizing s with
  | zero =>
      unfold swapLoop at h
      split_ifs at h with hgo
      simp only [Except.ok.injEq, Prod.mk.injEq] at h
      obtain ⟨rfl, -⟩ := h
      exact ⟨hs, hP, hgo⟩
  | succ fuel ih =>
      unfold swapLoop at h
      split_ifs at h with hgo
      · cases hok : swapStep p s with
        | error e => simp [hok] at h
        | ok mid =>
            simp only [hok] at h
            exact ih (hs.step hok) (hstep s mid hs hgo hP hok) h
      · simp only [Except.ok.injEq, Prod.mk.injEq] at h
        obtain ⟨rfl, -⟩ := h
        exact ⟨hs, hP, hgo⟩

/-- The totals of the loop are the sums over the steps it executed. -/
theorem swapLoop_totals {p : SwapParams} (fuel : ℕ) {s s' : SwapState} {fuel' : ℕ}
    (h : swapLoop p fuel s = .ok (s', fuel')) :
    s'.totalIn = s.totalIn +
        ((executedSteps p fuel s).map fun r => (r.amountIn : ℤ) + r.feeAmount).sum ∧
      s'.totalOut = s.totalOut + ((executedSteps p fuel s).map fun r => r.amountOut).sum := by
  induction fuel generalizing s with
  | zero =>
      unfold swapLoop at h
      split_ifs at h
      simp only [Except.ok.injEq, Prod.mk.injEq] at h
      obtain ⟨rfl, -⟩ := h
      simp [executedSteps]
  | succ fuel ih =>
      unfold swapLoop at h
      split_ifs at h with hgo
      · cases hok : swapStep p s with
        | error e => simp [hok] at h
        | ok mid =>
            simp only [hok] at h
            obtain ⟨step, growth, hstepped, haccrued⟩ := swapStep_accrued hok
            have hsteps : executedSteps p (fuel + 1) s = step :: executedSteps p fuel mid := by
              rw [executedSteps, if_pos (show Continues p s from hgo), hstepped.stepResult, hok]
            obtain ⟨hin, hout⟩ := ih h
            rw [hsteps, List.map_cons, List.sum_cons, List.map_cons, List.sum_cons, hin, hout,
              haccrued.totalIn, haccrued.totalOut]
            exact ⟨by ring, by ring⟩
      · simp only [Except.ok.injEq, Prod.mk.injEq] at h
        obtain ⟨rfl, -⟩ := h
        rw [executedSteps, if_neg (show ¬Continues p s from hgo)]
        simp

/-! ## The contract of a pass -/

/-- The target of a step is a price of the pool. -/
theorem Swapping.target_inRange {p : SwapParams} {s : SwapState} {step : SwapStepResult}
    {growth : ℕ} (hs : Swapping p s) (h : Stepped p s step growth) :
    InRange (stepTarget p (sqrtRatio (nextTick p s).1)) := by
  have hlow : minSqrtRatio ≤ sqrtRatio (nextTick p s).1 := by
    rw [← sqrtRatio_minTick, sqrtRatio_le_iff ⟨le_rfl, by decide⟩ h.band]
    exact h.band.1
  have hhigh : sqrtRatio (nextTick p s).1 ≤ maxSqrtRatio := by
    rw [← sqrtRatio_maxTick, sqrtRatio_le_iff h.band ⟨by decide, le_rfl⟩]
    exact h.band.2
  have hlimit := hs.withinLimit
  have hmin := hs.priced.min_le
  have hmax := hs.priced.lt_max
  unfold WithinLimit at hlimit
  unfold stepTarget
  split_ifs at hlimit ⊢
  · exact ⟨hlow.trans (le_max_left _ _), max_le hhigh (by omega)⟩
  · exact ⟨le_min hlow (by omega), (min_le_left _ _).trans hhigh⟩

theorem Swapping.contract {p : SwapParams} {s : SwapState} {step : SwapStepResult}
    {growth : ℕ} (hs : Swapping p s) (hgo : Continues p s) (h : Stepped p s step growth) :
    StepContract s.sqrtPrice (stepTarget p (sqrtRatio (nextTick p s).1)) s.liquidity
      s.amountRemaining p.pk.fee step :=
  stepContract_of_some ⟨hs.priced.min_le, hs.priced.lt_max.le⟩ (hs.target_inRange h) hgo.1
    p.pk.fee_lt h.computed

theorem Moved.fee_nonneg {p : SwapParams} {s : SwapState} {step : SwapStepResult}
    (h : Moved p s step) : 0 ≤ step.feeAmount := by
  unfold Moved at h
  split_ifs at h
  · exact h.fee_nonneg
  · exact h.fee_nonneg

theorem Moved.onWay {p : SwapParams} {s : SwapState} {step : SwapStepResult}
    (h : Moved p s step) :
    OnWay p.zeroForOne s.sqrtPrice step.sqrtRatioNextX96 p.sqrtPriceLimit := by
  unfold Moved stepTarget at h
  unfold OnWay
  split_ifs at h ⊢
  · exact ⟨(le_max_right _ _).trans h.target_le, h.next_le⟩
  · exact ⟨h.le_next, h.next_le.trans (min_le_right _ _)⟩

theorem onWay_trans {z : Bool} {a b c t : ℕ} (h1 : OnWay z a b t) (h2 : OnWay z b c t) :
    OnWay z a c t := by
  unfold OnWay at *
  split_ifs at *
  · exact ⟨h2.1, h2.2.trans h1.2⟩
  · exact ⟨h1.1.trans h2.1, h2.2⟩

/-! ## The accounts of the loop -/

/-- The accounts of a swap that started at the price `start`: what remains is what was
specified less what was taken in, or paid out, and it never changes its sign. -/
structure Accounts (p : SwapParams) (start : ℕ) (amountSpecified : ℤ) (s : SwapState) :
    Prop where
  onWay : OnWay p.zeroForOne start s.sqrtPrice p.sqrtPriceLimit
  exactInput : p.exactInput = true →
    s.amountRemaining = amountSpecified + s.totalIn ∧ s.amountRemaining ≤ 0
  exactOutput : p.exactInput = false →
    s.amountRemaining = amountSpecified - s.totalOut ∧ 0 ≤ s.amountRemaining
  totalIn_nonneg : 0 ≤ s.totalIn

theorem Accounts.step {p : SwapParams} {start : ℕ} {amountSpecified : ℤ} {s s' : SwapState}
    (hs : Swapping p s) (hgo : Continues p s) (h : Accounts p start amountSpecified s)
    (hok : swapStep p s = .ok s') : Accounts p start amountSpecified s' := by
  obtain ⟨step, growth, hstepped, haccrued⟩ := swapStep_accrued hok
  have hmoved := moved_of_stepped hs.priced hs.withinLimit hstepped
  have hcontract := hs.contract hgo hstepped
  have hfee := hmoved.fee_nonneg
  have hne := hgo.1
  refine ⟨?_, fun hin => ?_, fun hout => ?_, ?_⟩
  · rw [haccrued.sqrtPrice]
    exact onWay_trans h.onWay hmoved.onWay
  · obtain ⟨hremaining, hsign⟩ := h.exactInput hin
    have hneg : s.amountRemaining < 0 := lt_of_le_of_ne hsign hne
    have hspent := (hcontract.exactInput hneg).1
    rw [abs_of_neg hneg] at hspent
    rw [haccrued.amountRemaining, if_pos hin, haccrued.totalIn]
    omega
  · obtain ⟨hremaining, hsign⟩ := h.exactOutput hout
    have hpos : 0 < s.amountRemaining := lt_of_le_of_ne hsign (Ne.symm hne)
    have hpaid := (hcontract.exactOutput hpos).1
    have hfalse : ¬p.exactInput = true := by simp [hout]
    rw [haccrued.amountRemaining, if_neg hfalse, haccrued.totalOut]
    push_cast
    omega
  · have htotal := h.totalIn_nonneg
    rw [haccrued.totalIn]
    omega

/-! ## Swap calls -/

/-- The arguments of a swap of `pk`. -/
def swapParams (pk : PoolKey) (data : List UInt8) : SwapParams where
  pk := pk
  zeroForOne := decide (wordToUint (argWord data 128) ≠ 0)
  exactInput := decide (wordToInt (argWord data 160) < 0)
  sqrtPriceLimit := wordToUint (argWord data 192)

/-- A swap call that passes the checks before the loop, which runs on the storage `db`
behind the guard. -/
structure Admitted (w : World) (c : Call) (p : SwapParams) (amountSpecified : ℤ)
    (db : Storage) : Prop where
  selector : bytesToNat (slice c.input 0 4) = selSwap
  key : parsePoolKey (slice (c.input.drop 4) 0 128) = .ok p.pk
  params : p = swapParams p.pk (c.input.drop 4)
  amount : amountSpecified = wordToInt (argWord (c.input.drop 4) 160)
  guarded : enterGuard w.storage = some db
  initialized : isInitialized w.storage p.pk = true
  nonzero : amountSpecified ≠ 0
  limit : priceLimitOk p.zeroForOne p.sqrtPriceLimit (loadSqrtPrice w.storage p.pk) = true

/-- A successful swap call: the loop ran on the gas the call brought, and its last variables
were stored and reported. -/
structure SwapCall (w w' : World) (c : Call) (out : Outcome) (p : SwapParams)
    (amountSpecified : ℤ) (db : Storage) (s : SwapState) : Prop
    extends Admitted w c p amountSpecified db where
  loop : ∃ fuel, swapLoop p ((c.gas - gasSwapBase) / gasSwapStep)
    (swapInit db p.pk amountSpecified) = .ok (s, fuel)
  stored : w'.storage.view p.pk = (persistSwap s p.pk).view p.pk
  event : out.event = some (.swap p.pk c.caller
    (swapAmounts p.zeroForOne s.totalIn s.totalOut) s.sqrtPrice s.liquidity s.tick)
  ret : out.ret = [intWord (swapAmounts p.zeroForOne s.totalIn s.totalOut .token0),
    intWord (swapAmounts p.zeroForOne s.totalIn s.totalOut .token1)]

theorem enterGuard_eq_some {db db' : Storage} (h : enterGuard db = some db') :
    db' = { db with guard := 1 } := by
  unfold enterGuard at h
  split_ifs at h
  exact (Option.some.inj h).symm

/-- The operation of a swap selector, past the guard. -/
theorem run_swap {host : Host} {w w' : World} {caller : Address} {input : List UInt8}
    {gas : ℕ} {readOnly : Bool} {out : Outcome}
    (h : run host w caller input gas readOnly = .ok (w', out))
    (hswap : bytesToNat (slice input 0 4) = selSwap) :
    ∃ db w1, enterGuard w.storage = some db ∧
      runSwap host { w with storage := db } caller (input.drop 4) gas = .ok (w1, out) ∧
      w' = { w1 with storage := exitGuard w1.storage } := by
  unfold run at h
  simp only [hswap] at h
  rw [refuse_eq_ok, if_neg (by decide), if_neg (by decide), if_neg (by decide),
    if_neg (by decide), if_pos (by decide), refuse_eq_ok] at h
  obtain ⟨-, -, h⟩ := h
  cases hguard : enterGuard w.storage with
  | none => simp [hguard] at h
  | some db =>
      simp only [hguard, bind_eq_ok, Except.ok.injEq, Prod.mk.injEq] at h
      obtain ⟨⟨w1, out1⟩, hrun, rfl, rfl⟩ := h
      rw [runTransition, if_neg (by decide), if_neg (by decide), if_neg (by decide),
        if_neg (by decide)] at hrun
      exact ⟨db, w1, rfl, hrun, rfl⟩

/-- What a successful swap call did. -/
theorem call_swap {w w' : World} {c : Call} {out : Outcome}
    (h : call w c = some (w', out)) (hswap : bytesToNat (slice c.input 0 4) = selSwap) :
    ∃ p amountSpecified db s, SwapCall w w' c out p amountSpecified db s := by
  unfold call at h
  cases hdeliver : deliverValue w c.caller c.value with
  | none => simp [hdeliver] at h
  | some w1 =>
      simp only [hdeliver] at h
      cases hrun : run c.host w1 c.caller c.input c.gas c.readOnly with
      | error e => simp [hrun, Except.toOption] at h
      | ok r =>
          simp only [hrun, Except.toOption, Option.some.injEq] at h
          subst h
          obtain ⟨db, w2, hguard, hop, rfl⟩ := run_swap hrun hswap
          rw [deliverValue_storage hdeliver] at hguard
          have hdb := enterGuard_eq_some hguard
          simp only [runSwap, bind_eq_ok, refuse_eq_ok, Except.ok.injEq, Prod.mk.injEq] at hop
          obtain ⟨gas, hgas, -, -, pk, hpk, hinit, hnonzero, hlimit, ⟨s, fuel⟩, hloop, w3, hpull,
            w4, hpay, rfl, rfl⟩ := hop
          have hgas' : c.gas - gasSwapBase = gas := by
            rw [chargeGas, refuse_eq_ok] at hgas
            exact Except.ok.inj hgas.2
          rw [Bool.not_eq_true', Bool.not_eq_false, hdb] at hinit
          rw [Bool.not_eq_true', Bool.not_eq_false, hdb] at hlimit
          exact ⟨swapParams pk (c.input.drop 4), _, db, s,
            { selector := hswap
              key := hpk
              params := rfl
              amount := rfl
              guarded := hguard
              initialized := hinit
              nonzero := hnonzero
              limit := hlimit
              loop := ⟨fuel, by rw [hgas']; exact hloop⟩
              stored := by
                show w4.storage.view pk = _
                rw [payAsset_view hpay, pullAsset_view hpull]
                rfl
              event := rfl
              ret := rfl }⟩

theorem Admitted.swapping {w : World} {c : Call} {p : SwapParams} {amountSpecified : ℤ}
    {db : Storage} (h : Admitted w c p amountSpecified db)
    (hpriced : Priced (loadSqrtPrice w.storage p.pk) (loadPoolTick w.storage p.pk)) :
    Swapping p (swapInit db p.pk amountSpecified) := by
  have hlimit := withinLimit_of_priceLimitOk h.limit
  rw [enterGuard_eq_some h.guarded]
  exact ⟨hpriced, hlimit⟩

theorem SwapCall.price {w w' : World} {c : Call} {out : Outcome} {p : SwapParams}
    {amountSpecified : ℤ} {db : Storage} {s : SwapState}
    (h : SwapCall w w' c out p amountSpecified db s)
    (hpriced : Priced (loadSqrtPrice w.storage p.pk) (loadPoolTick w.storage p.pk)) :
    loadSqrtPrice w'.storage p.pk = s.sqrtPrice := by
  obtain ⟨fuel, hloop⟩ := h.loop
  have hs := h.swapping hpriced
  have hview : (persistSwap s p.pk).view p.pk =
      { s.pool p.pk with liquidity := wordToUint (uintWord s.liquidity) } :=
    (persistSwap_priced hs.priced hs.withinLimit hloop).2
  have hstored := congrArg Pool.sqrtPrice (h.stored.trans hview)
  exact hstored

theorem Admitted.exactInput {w : World} {c : Call} {p : SwapParams} {amountSpecified : ℤ}
    {db : Storage} (h : Admitted w c p amountSpecified db) :
    p.exactInput = decide (amountSpecified < 0) := by
  rw [h.params, h.amount]
  rfl

/-- The accounts before the first pass. -/
theorem Admitted.accounts {w : World} {c : Call} {p : SwapParams} {amountSpecified : ℤ}
    {db : Storage} (h : Admitted w c p amountSpecified db)
    (hpriced : Priced (loadSqrtPrice w.storage p.pk) (loadPoolTick w.storage p.pk)) :
    Accounts p (loadSqrtPrice w.storage p.pk) amountSpecified
      (swapInit db p.pk amountSpecified) := by
  have hexact := h.exactInput
  have hlimit := (h.swapping hpriced).withinLimit
  have hprice : (swapInit db p.pk amountSpecified).sqrtPrice =
      loadSqrtPrice w.storage p.pk := by
    rw [enterGuard_eq_some h.guarded]
    rfl
  rw [hprice] at hlimit
  refine ⟨?_, fun hin => ⟨(add_zero _).symm, ?_⟩, fun hout => ⟨(sub_zero _).symm, ?_⟩, le_rfl⟩
  · rw [hprice]
    unfold WithinLimit at hlimit
    unfold OnWay
    split_ifs at hlimit ⊢
    · exact ⟨hlimit.2, le_rfl⟩
    · exact ⟨le_rfl, hlimit.1⟩
  · rw [hexact, decide_eq_true_eq] at hin
    exact hin.le
  · rw [hexact, decide_eq_false_iff_not] at hout
    exact not_lt.mp hout

theorem swapAmounts_tokenIn (p : SwapParams) (totalIn : ℤ) (totalOut : ℕ) :
    swapAmounts p.zeroForOne totalIn totalOut p.tokenIn = totalIn := by
  unfold swapAmounts SwapParams.tokenIn
  split_ifs
  · rfl
  · rfl

theorem swapAmounts_tokenOut (p : SwapParams) (totalIn : ℤ) (totalOut : ℕ) :
    swapAmounts p.zeroForOne totalIn totalOut p.tokenOut = -totalOut := by
  unfold swapAmounts SwapParams.tokenOut
  split_ifs
  · rfl
  · rfl

/-! ## Every swap -/

/-- What a swap from the price `before` to `after` owes its trader.  The amounts are those
reported: what the pool took in is positive, what it paid out is negative. -/
structure SwapOutcome (p : SwapParams) (amountSpecified : ℤ) (before after : ℕ)
    (amounts : Token → ℤ) (steps : List SwapStepResult) : Prop where
  onWay : OnWay p.zeroForOne before after p.sqrtPriceLimit
  exactInput : amountSpecified < 0 → amounts p.tokenIn ≤ |amountSpecified|
  exactOutput : 0 < amountSpecified → -amounts p.tokenOut ≤ amountSpecified
  full : after ≠ p.sqrtPriceLimit →
    (amountSpecified < 0 → amounts p.tokenIn = |amountSpecified|) ∧
      (0 < amountSpecified → -amounts p.tokenOut = amountSpecified)
  input_nonneg : 0 ≤ amounts p.tokenIn
  output_nonneg : 0 ≤ -amounts p.tokenOut
  input_eq : amounts p.tokenIn = (steps.map fun r => (r.amountIn : ℤ) + r.feeAmount).sum
  output_eq : -amounts p.tokenOut = ((steps.map fun r => r.amountOut).sum : ℕ)

/-- The accounts at the end of the loop give the outcome. -/
theorem Accounts.outcome {p : SwapParams} {start : ℕ} {amountSpecified : ℤ} {s : SwapState}
    {steps : List SwapStepResult} (h : Accounts p start amountSpecified s)
    (hend : ¬Continues p s) (hexact : p.exactInput = decide (amountSpecified < 0))
    (hin : s.totalIn = (steps.map fun r => (r.amountIn : ℤ) + r.feeAmount).sum)
    (hout : s.totalOut = (steps.map fun r => r.amountOut).sum) :
    SwapOutcome p amountSpecified start s.sqrtPrice
      (swapAmounts p.zeroForOne s.totalIn s.totalOut) steps := by
  have hspent : amountSpecified < 0 →
      s.amountRemaining = amountSpecified + s.totalIn ∧ s.amountRemaining ≤ 0 := by
    intro hneg
    exact h.exactInput (by rw [hexact, decide_eq_true hneg])
  have hpaid : 0 < amountSpecified →
      s.amountRemaining = amountSpecified - s.totalOut ∧ 0 ≤ s.amountRemaining := by
    intro hpos
    exact h.exactOutput (by rw [hexact, decide_eq_false hpos.not_gt])
  have hnothing : s.sqrtPrice ≠ p.sqrtPriceLimit → s.amountRemaining = 0 := by
    intro hne
    by_contra hremains
    exact hend ⟨hremains, hne⟩
  have hinput := swapAmounts_tokenIn p s.totalIn s.totalOut
  have houtput := swapAmounts_tokenOut p s.totalIn s.totalOut
  refine
    { onWay := h.onWay
      exactInput := fun hneg => ?_
      exactOutput := fun hpos => ?_
      full := fun hne => ⟨fun hneg => ?_, fun hpos => ?_⟩
      input_nonneg := by rw [hinput]; exact h.totalIn_nonneg
      output_nonneg := by rw [houtput, neg_neg]; exact Int.natCast_nonneg _
      input_eq := by rw [hinput, hin]
      output_eq := by rw [houtput, neg_neg, hout] }
  · have hremaining := hspent hneg
    rw [hinput, abs_of_neg hneg]
    omega
  · have hremaining := hpaid hpos
    rw [houtput]
    omega
  · have hremaining := hspent hneg
    have hzero := hnothing hne
    rw [hinput, abs_of_neg hneg]
    omega
  · have hremaining := hpaid hpos
    have hzero := hnothing hne
    rw [houtput]
    omega

/-- Every successful swap of a reachable state moves the price toward its limit and not past
it, spends at most the specified input or pays at most the specified output, all of it when
the price stops short of the limit, and reports the sums over the steps it executed. -/
theorem swap_outcome {w0 : World} (h0 : Genesis w0) (actions : List Action) {c : Call}
    {w' : World} {out : Outcome} (hcall : call (runFrom w0 actions).1 c = some (w', out))
    (hswap : bytesToNat (slice c.input 0 4) = selSwap) :
    ∃ p amountSpecified db amounts price liquidity tick,
      parsePoolKey (slice (c.input.drop 4) 0 128) = .ok p.pk ∧
      p = swapParams p.pk (c.input.drop 4) ∧
      amountSpecified = wordToInt (argWord (c.input.drop 4) 160) ∧
      enterGuard (runFrom w0 actions).1.storage = some db ∧
      out.event = some (.swap p.pk c.caller amounts price liquidity tick) ∧
      out.ret = [intWord (amounts .token0), intWord (amounts .token1)] ∧
      loadSqrtPrice w'.storage p.pk = price ∧
      SwapOutcome p amountSpecified (loadSqrtPrice (runFrom w0 actions).1.storage p.pk) price
        amounts (executedSteps p ((c.gas - gasSwapBase) / gasSwapStep)
          (swapInit db p.pk amountSpecified)) := by
  obtain ⟨p, amountSpecified, db, s, h⟩ := call_swap hcall hswap
  have hpriced := (reachable_consistent h0 actions p.pk h.initialized).priced
  have hs := h.swapping hpriced
  obtain ⟨fuel, hloop⟩ := h.loop
  obtain ⟨-, haccounts, hend⟩ := swapLoop_ends
    (fun s s' hs hgo hP hok => Accounts.step hs hgo hP hok) _ hs (h.accounts hpriced) hloop
  obtain ⟨hin, hout⟩ := swapLoop_totals _ hloop
  have hinit : (swapInit db p.pk amountSpecified).totalIn = 0 := rfl
  have hinit' : (swapInit db p.pk amountSpecified).totalOut = 0 := rfl
  rw [hinit, zero_add] at hin
  rw [hinit', zero_add] at hout
  exact ⟨p, amountSpecified, db, _, _, _, _, h.key, h.params, h.amount, h.guarded, h.event,
    h.ret, h.price hpriced, haccounts.outcome hend h.exactInput hin hout⟩

/-- A swap of a million units down to the word boundary at tick zero. -/
def swapToZero : Call :=
  ⟨plainHost, 7, 0,
    calldata selSwap (sixtyPoolWords ++ [1, intWord (-1000000), 2 ^ 96]), 10000000, false⟩

theorem swap_outcome_swapToZero :
    ∃ w' out p amountSpecified db amounts price,
      call (runFrom fundedWorld (stopThenDust.take 2)).1 swapToZero = some (w', out) ∧
      SwapOutcome p amountSpecified
        (loadSqrtPrice (runFrom fundedWorld (stopThenDust.take 2)).1.storage p.pk) price amounts
        (executedSteps p ((swapToZero.gas - gasSwapBase) / gasSwapStep)
          (swapInit db p.pk amountSpecified)) := by
  obtain ⟨⟨w', out⟩, hcall⟩ := Option.isSome_iff_exists.mp
    (show (call (runFrom fundedWorld (stopThenDust.take 2)).1 swapToZero).isSome = true by
      decide +kernel)
  obtain ⟨p, amountSpecified, db, amounts, price, liquidity, tick, -, -, -, -, -, -, -, h⟩ :=
    swap_outcome fundedWorld_genesis (stopThenDust.take 2) hcall (by decide)
  exact ⟨w', out, p, amountSpecified, db, amounts, price, hcall, h⟩

end LuxPrecompile.V3
