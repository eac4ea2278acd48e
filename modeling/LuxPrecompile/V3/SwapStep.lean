import LuxPrecompile.Dex.TickInverse
import LuxPrecompile.Support.Ranges
import LuxPrecompile.V3.Run

/-!
# One pass of the swap loop

Everything a successful pass establishes, said once: which tick it was heading
for, where the price went, and which of the three ways the tick was settled.
The invariants of a pool are all derived from these facts.
-/

namespace LuxPrecompile.V3

open Dex Evm Support

/-- A price and the tick a pool keeps for it.  The right end is reached only
after a downward move stopped on a tick. -/
structure Priced (price : ℕ) (tick : ℤ) : Prop where
  min_le : minSqrtRatio ≤ price
  lt_max : price < maxSqrtRatio
  minTick_le : minTick ≤ tick
  lt_maxTick : tick < maxTick
  tick_le : sqrtRatio tick ≤ price
  le_next : price ≤ sqrtRatio (tick + 1)

theorem Priced.ne_zero {price : ℕ} {tick : ℤ} (h : Priced price tick) : price ≠ 0 := by
  have := h.min_le
  unfold minSqrtRatio at this
  omega

theorem Priced.tickSucc_le {price : ℕ} {tick : ℤ} (h : Priced price tick) :
    minTick ≤ tick + 1 ∧ tick + 1 ≤ maxTick := by
  have := h.minTick_le
  have := h.lt_maxTick
  omega

/-! ## The tick a step heads for -/

/-- Every tick of the usable band has a bitmap position. -/
theorem compressed_range {t spacing : ℤ} (hs : 1 ≤ spacing)
    (hmin : minTick ≤ t) (hmax : t ≤ maxTick) :
    -2 ^ 22 ≤ t / spacing ∧ t / spacing + 1 < 2 ^ 22 := by
  unfold minTick at hmin
  unfold maxTick at hmax
  have hpos : 0 < spacing := by omega
  constructor
  · rw [Int.le_ediv_iff_mul_le hpos]
    nlinarith
  · have : t / spacing < 2 ^ 21 := by
      rw [Int.ediv_lt_iff_lt_mul hpos]
      nlinarith
    omega

/-- Moving down, the target tick is the greatest initialised multiple of the
spacing at or below the tick, or the edge of its bitmap word, or the least
usable tick. -/
theorem nextTick_down {p : SwapParams} {s : SwapState} (hdir : p.zeroForOne = true)
    (hmin : minTick ≤ s.tick) (hmax : s.tick < maxTick) :
    ∃ n, (nextTick p s).1 = max minTick (n * p.pk.tickSpacing) ∧
      (nextTick p s).1 ≤ s.tick ∧
      (nextTick p s).2 = bitSet (s.storage.view p.pk).words n ∧
      (∀ i, n < i → i * p.pk.tickSpacing ≤ s.tick →
        bitSet (s.storage.view p.pk).words i = false) ∧
      ((nextTick p s).2 = false → 256 ∣ n) := by
  have hs := p.pk.spacing_pos
  have hpos : 0 < p.pk.tickSpacing := by omega
  obtain ⟨hlo, hhi⟩ := compressed_range hs hmin hmax.le
  obtain ⟨n, hn, hle, -, hbit, hnone, hedge⟩ :=
    nextInitializedTick_lte (s.storage.view p.pk).words hpos ⟨hlo, by omega⟩
  rw [← nextInitializedTick_eq] at hn hbit
  have hnle : n * p.pk.tickSpacing ≤ s.tick := by
    rwa [← Int.le_ediv_iff_mul_le hpos]
  have hpair : nextTick p s = (max minTick (n * p.pk.tickSpacing),
      bitSet (s.storage.view p.pk).words n) := by
    simp only [nextTick, hdir]
    split_ifs with h1 h2
    · rw [hbit, max_eq_left (by omega)]
    · omega
    · rw [max_eq_right (by omega), ← hn, ← hbit]
  rw [hpair]
  refine ⟨n, rfl, max_le hmin hnle, rfl, ?_, hedge⟩
  intro i hi hit
  exact hnone i hi ((Int.le_ediv_iff_mul_le hpos).mpr hit)

/-- Moving up, the target tick is the least initialised multiple of the spacing
above the tick, or the edge of its bitmap word, or the greatest usable tick. -/
theorem nextTick_up {p : SwapParams} {s : SwapState} (hdir : p.zeroForOne = false)
    (hmin : minTick ≤ s.tick) (hmax : s.tick < maxTick) :
    ∃ n, (nextTick p s).1 = min maxTick (n * p.pk.tickSpacing) ∧
      s.tick < (nextTick p s).1 ∧
      (nextTick p s).2 = bitSet (s.storage.view p.pk).words n ∧
      (∀ i, i < n → s.tick < i * p.pk.tickSpacing →
        bitSet (s.storage.view p.pk).words i = false) := by
  have hs := p.pk.spacing_pos
  have hpos : 0 < p.pk.tickSpacing := by omega
  obtain ⟨hlo, hhi⟩ := compressed_range hs hmin hmax.le
  obtain ⟨n, hn, hgt, -, hbit, hnone⟩ :=
    nextInitializedTick_gt (s.storage.view p.pk).words hpos ⟨by omega, hhi⟩
  rw [← nextInitializedTick_eq] at hn hbit
  have hngt : s.tick < n * p.pk.tickSpacing := by
    rwa [← Int.ediv_lt_iff_lt_mul hpos]
  have hpair : nextTick p s = (min maxTick (n * p.pk.tickSpacing),
      bitSet (s.storage.view p.pk).words n) := by
    simp only [nextTick, hdir]
    split_ifs with h1 h2
    · omega
    · rw [hbit, min_eq_left (by omega)]
    · rw [min_eq_right (by omega), ← hn, ← hbit]
  rw [hpair]
  refine ⟨n, rfl, lt_min hmax hngt, rfl, ?_⟩
  intro i hi hit
  exact hnone i ((Int.ediv_lt_iff_lt_mul hpos).mpr hit) hi

/-! ## Inversion of a step -/

/-- The facts common to the three ways a step can settle the tick. -/
structure Stepped (p : SwapParams) (s : SwapState) (step : SwapStepResult)
    (growth : ℕ) : Prop where
  band : minTick ≤ (nextTick p s).1 ∧ (nextTick p s).1 ≤ maxTick
  computed : computeSwapStep s.sqrtPrice (stepTarget p (sqrtRatio (nextTick p s).1))
    s.liquidity s.amountRemaining p.pk.fee = some step
  grown : stepGrowth s.liquidity step.feeAmount = some growth

/-- A step ends on the tick it headed for, strictly between, or where it
started. -/
theorem swapStep_cases {p : SwapParams} {s s' : SwapState} (h : swapStep p s = .ok s') :
    ∃ step growth, Stepped p s step growth ∧
      ((step.sqrtRatioNextX96 = sqrtRatio (nextTick p s).1 ∧
          reachTick p (advance p s step growth) (nextTick p s).1 (nextTick p s).2 = .ok s') ∨
        (step.sqrtRatioNextX96 ≠ sqrtRatio (nextTick p s).1 ∧
          step.sqrtRatioNextX96 ≠ s.sqrtPrice ∧
          ∃ tick, getTickAtSqrtRatio step.sqrtRatioNextX96 = some tick ∧
            s' = { advance p s step growth with tick := tick }) ∨
        (step.sqrtRatioNextX96 ≠ sqrtRatio (nextTick p s).1 ∧
          step.sqrtRatioNextX96 = s.sqrtPrice ∧ s' = advance p s step growth)) := by
  unfold swapStep at h
  simp only at h
  cases hratio : getSqrtRatioAtTick (nextTick p s).1 with
  | none => simp [hratio] at h
  | some ratio =>
      obtain ⟨hband, rfl⟩ : (minTick ≤ (nextTick p s).1 ∧ (nextTick p s).1 ≤ maxTick) ∧
          ratio = sqrtRatio (nextTick p s).1 := by
        unfold getSqrtRatioAtTick at hratio
        split_ifs at hratio with hout
        simp only [Option.some.injEq] at hratio
        exact ⟨by omega, hratio.symm⟩
      simp only [hratio] at h
      cases hstep : computeSwapStep s.sqrtPrice (stepTarget p (sqrtRatio (nextTick p s).1))
          s.liquidity s.amountRemaining p.pk.fee with
      | none => simp [hstep] at h
      | some step =>
          simp only [hstep] at h
          cases hgrowth : stepGrowth s.liquidity step.feeAmount with
          | none => simp [hgrowth] at h
          | some growth =>
              simp only [hgrowth] at h
              refine ⟨step, growth, ⟨hband, hstep, hgrowth⟩, ?_⟩
              split_ifs at h with hreach hmoved
              · exact Or.inl ⟨hreach, h⟩
              · cases htick : getTickAtSqrtRatio step.sqrtRatioNextX96 with
                | none => simp [htick] at h
                | some tick =>
                    simp only [htick, Except.ok.injEq] at h
                    exact Or.inr (Or.inl ⟨hreach, hmoved, tick, rfl, h.symm⟩)
              · simp only [Except.ok.injEq] at h
                exact Or.inr (Or.inr ⟨hreach, not_not.mp hmoved, h.symm⟩)

/-- Reaching a tick: an uninitialised one only moves the tick. -/
theorem reachTick_ok {p : SwapParams} {s s' : SwapState} {t : ℤ} {initialized : Bool}
    (h : reachTick p s t initialized = .ok s') :
    (initialized = false ∧ s' = { s with tick := tickAfterCross p.zeroForOne t }) ∨
    (initialized = true ∧
      0 ≤ (s.liquidity : ℤ) +
        directedNet p.zeroForOne (loadTickInfo s.storage p.pk t).liquidityNet ∧
      s' = { s with
        storage := (crossTick s.storage p.pk t s.feeGrowth).1
        liquidity := ((s.liquidity : ℤ) +
          directedNet p.zeroForOne (loadTickInfo s.storage p.pk t).liquidityNet).toNat
        tick := tickAfterCross p.zeroForOne t }) := by
  unfold reachTick at h
  cases initialized with
  | false =>
      simp only [Bool.false_eq_true, if_false, Except.ok.injEq] at h
      exact Or.inl ⟨rfl, h.symm⟩
  | true =>
      simp only [if_true] at h
      split_ifs at h with hneg
      simp only [Except.ok.injEq] at h
      exact Or.inr ⟨rfl, not_lt.mp hneg, h.symm⟩

theorem reachTick_price {p : SwapParams} {s s' : SwapState} {t : ℤ} {initialized : Bool}
    (h : reachTick p s t initialized = .ok s') :
    s'.sqrtPrice = s.sqrtPrice ∧ s'.tick = tickAfterCross p.zeroForOne t ∧
      s'.steps = s.steps ∧ s'.feeGrowth = s.feeGrowth ∧ s'.totalIn = s.totalIn ∧
      s'.totalOut = s.totalOut := by
  rcases reachTick_ok h with ⟨-, rfl⟩ | ⟨-, -, rfl⟩ <;> simp

/-! ## Where a step leaves the pool -/

/-- The price has not passed the swap's limit, and the limit is inside the
usable prices. -/
def WithinLimit (p : SwapParams) (price : ℕ) : Prop :=
  if p.zeroForOne then minSqrtRatio < p.sqrtPriceLimit ∧ p.sqrtPriceLimit ≤ price
  else price ≤ p.sqrtPriceLimit ∧ p.sqrtPriceLimit < maxSqrtRatio

/-- The amounts and the price of a step, in the swap's direction. -/
def Moved (p : SwapParams) (s : SwapState) (step : SwapStepResult) : Prop :=
  if p.zeroForOne then
    StepDown s.sqrtPrice (stepTarget p (sqrtRatio (nextTick p s).1)) s.liquidity step
  else StepUp s.sqrtPrice (stepTarget p (sqrtRatio (nextTick p s).1)) s.liquidity step

/-- How the tick was settled: no initialised boundary was passed, or exactly one
was and it was crossed. -/
inductive Settled (p : SwapParams) (s : SwapState) (step : SwapStepResult) (growth : ℕ) :
    SwapState → Prop
  | quiet (tick : ℤ)
      (hnone : ∀ i, Between s.tick tick (i * p.pk.tickSpacing) →
        bitSet (s.storage.view p.pk).words i = false) :
      Settled p s step growth { advance p s step growth with tick := tick }
  | crossed (n : ℤ)
      (hbit : bitSet (s.storage.view p.pk).words n = true)
      (hat : Between s.tick (tickAfterCross p.zeroForOne (n * p.pk.tickSpacing))
        (n * p.pk.tickSpacing))
      (hnone : ∀ i, i ≠ n →
        Between s.tick (tickAfterCross p.zeroForOne (n * p.pk.tickSpacing))
          (i * p.pk.tickSpacing) →
        bitSet (s.storage.view p.pk).words i = false)
      (hnonneg : 0 ≤ (s.liquidity : ℤ) + directedNet p.zeroForOne
        (loadTickInfo s.storage p.pk (n * p.pk.tickSpacing)).liquidityNet) :
      Settled p s step growth
        { advance p s step growth with
          storage := (crossTick s.storage p.pk (n * p.pk.tickSpacing)
            (advance p s step growth).feeGrowth).1
          liquidity := ((s.liquidity : ℤ) + directedNet p.zeroForOne
            (loadTickInfo s.storage p.pk (n * p.pk.tickSpacing)).liquidityNet).toNat
          tick := tickAfterCross p.zeroForOne (n * p.pk.tickSpacing) }

/-- A step changes neither the swap's limit nor its direction: the new price is
again inside the limit. -/
theorem Moved.withinLimit {p : SwapParams} {s : SwapState} {step : SwapStepResult}
    (hlimit : WithinLimit p s.sqrtPrice) (h : Moved p s step) :
    WithinLimit p step.sqrtRatioNextX96 := by
  unfold WithinLimit Moved stepTarget at *
  split_ifs at * with hdir
  · exact ⟨hlimit.1, le_trans (le_max_right _ _) h.target_le⟩
  · exact ⟨le_trans h.next_le (min_le_right _ _), hlimit.2⟩

theorem Moved.usable {p : SwapParams} {s : SwapState} {step : SwapStepResult}
    (hprice : Priced s.sqrtPrice s.tick) (hlimit : WithinLimit p s.sqrtPrice)
    (h : Moved p s step) :
    minSqrtRatio ≤ step.sqrtRatioNextX96 ∧ step.sqrtRatioNextX96 < maxSqrtRatio := by
  have hin := h.withinLimit hlimit
  unfold WithinLimit at hin
  unfold Moved at h
  split_ifs at hin h with hdir
  · exact ⟨by omega, lt_of_le_of_lt h.next_le hprice.lt_max⟩
  · exact ⟨hprice.min_le.trans h.le_next, by omega⟩

theorem moved_of_stepped {p : SwapParams} {s : SwapState} {step : SwapStepResult}
    {growth : ℕ} (hprice : Priced s.sqrtPrice s.tick) (hlimit : WithinLimit p s.sqrtPrice)
    (h : Stepped p s step growth) : Moved p s step := by
  have hband := h.band
  unfold Moved
  unfold WithinLimit at hlimit
  split_ifs at hlimit ⊢ with hdir
  · obtain ⟨n, -, hle, -⟩ := nextTick_down hdir hprice.minTick_le hprice.lt_maxTick
    refine computeSwapStep_down ?_ ?_ h.computed
    · have := sqrtRatio_pos hband.1 hband.2
      simp only [stepTarget, hdir, if_true]
      omega
    · have hratio : sqrtRatio (nextTick p s).1 ≤ sqrtRatio s.tick := by
        rw [sqrtRatio_le_iff hband ⟨hprice.minTick_le, hprice.lt_maxTick.le⟩]
        exact hle
      simp only [stepTarget, hdir, if_true]
      exact max_le (hratio.trans hprice.tick_le) hlimit.2
  · have hdir' : p.zeroForOne = false := by simpa using hdir
    obtain ⟨n, -, hlt, -⟩ := nextTick_up hdir' hprice.minTick_le hprice.lt_maxTick
    refine computeSwapStep_up ?_ ?_ h.computed
    · exact lt_of_lt_of_le (by decide) hprice.min_le
    · have hratio : sqrtRatio (s.tick + 1) ≤ sqrtRatio (nextTick p s).1 := by
        rw [sqrtRatio_le_iff hprice.tickSucc_le hband]
        omega
      simp only [stepTarget, hdir', Bool.false_eq_true, if_false]
      exact le_min (hprice.le_next.trans hratio) hlimit.1

theorem getTick_priced {price : ℕ} {tick : ℤ} (hmin : minSqrtRatio ≤ price)
    (hmax : price < maxSqrtRatio) (h : getTickAtSqrtRatio price = some tick) :
    Priced price tick ∧ price < sqrtRatio (tick + 1) := by
  obtain ⟨t, ht, h1, h2, h3, h4⟩ := getTickAtSqrtRatio_spec hmin hmax
  rw [h, Option.some.injEq] at ht
  subst ht
  exact ⟨⟨hmin, hmax, h1, h2, h3, h4.le⟩, h4⟩

theorem lt_of_sqrtRatio_lt {s t : ℤ} (hs : minTick ≤ s ∧ s ≤ maxTick)
    (ht : minTick ≤ t ∧ t ≤ maxTick) (h : sqrtRatio s < sqrtRatio t) : s < t :=
  (sqrtRatio_lt_iff hs ht).mp h

theorem settled_same (p : SwapParams) (s : SwapState) (step : SwapStepResult)
    (growth : ℕ) : Settled p s step growth (advance p s step growth) := by
  refine Settled.quiet s.tick ?_
  intro i hi
  unfold Between at hi
  omega

/-- A step that ended on the tick it headed for: the tick is a multiple of the
spacing, it is the only boundary passed, and an uninitialised one on the way down
is the edge of its bitmap word. -/
structure Reached (p : SwapParams) (s : SwapState) (n : ℤ) : Prop where
  tick_eq : (nextTick p s).1 = n * p.pk.tickSpacing
  bit_eq : (nextTick p s).2 = bitSet (s.storage.view p.pk).words n
  passed : Between s.tick (tickAfterCross p.zeroForOne (n * p.pk.tickSpacing))
    (n * p.pk.tickSpacing)
  others : ∀ i, i ≠ n →
    Between s.tick (tickAfterCross p.zeroForOne (n * p.pk.tickSpacing))
      (i * p.pk.tickSpacing) → bitSet (s.storage.view p.pk).words i = false
  priced : Priced (sqrtRatio (n * p.pk.tickSpacing))
    (tickAfterCross p.zeroForOne (n * p.pk.tickSpacing))
  edge : p.zeroForOne = true → (nextTick p s).2 = false → 256 ∣ n

theorem reached_down {p : SwapParams} {s : SwapState} {step : SwapStepResult}
    {growth : ℕ} (hdir : p.zeroForOne = true) (hprice : Priced s.sqrtPrice s.tick)
    (hlimit : WithinLimit p s.sqrtPrice) (hstepped : Stepped p s step growth)
    (hmoved : Moved p s step)
    (hreach : step.sqrtRatioNextX96 = sqrtRatio (nextTick p s).1) :
    ∃ n, Reached p s n := by
  have hband := hstepped.band
  have hpos : 0 < p.pk.tickSpacing := by
    have := p.pk.spacing_pos
    omega
  obtain ⟨n, htn, hle, hbit, hnone, hedge⟩ :=
    nextTick_down hdir hprice.minTick_le hprice.lt_maxTick
  have hin := hmoved.withinLimit hlimit
  simp only [Moved, hdir, if_true] at hmoved
  simp only [WithinLimit, hdir, if_true] at hin
  have hmin : minSqrtRatio < step.sqrtRatioNextX96 := by omega
  have hmax : step.sqrtRatioNextX96 < maxSqrtRatio :=
    lt_of_le_of_lt hmoved.next_le hprice.lt_max
  have hgt : minTick < (nextTick p s).1 := by
    apply lt_of_sqrtRatio_lt ⟨le_rfl, by decide⟩ hband
    rw [sqrtRatio_minTick, ← hreach]
    exact hmin
  have hn : (nextTick p s).1 = n * p.pk.tickSpacing := by omega
  have hafter : tickAfterCross p.zeroForOne (n * p.pk.tickSpacing) =
      n * p.pk.tickSpacing - 1 := by
    simp only [tickAfterCross, hdir, if_true]
  have hmaxTick := hprice.lt_maxTick
  rw [hreach] at hmin hmax
  rw [hn] at hband hgt hle hmin hmax
  refine ⟨n, hn, hbit, ?_, ?_, ?_, fun _ => hedge⟩
  · rw [hafter]
    exact Or.inl ⟨by omega, hle⟩
  · rw [hafter]
    intro i hi hb
    unfold Between at hb
    have hge : n * p.pk.tickSpacing ≤ i * p.pk.tickSpacing := by omega
    have hni : n ≤ i := le_of_mul_le_mul_right hge hpos
    exact hnone i (lt_of_le_of_ne hni (Ne.symm hi)) (by omega)
  · rw [hafter]
    refine ⟨hmin.le, hmax, by omega, by omega, ?_, ?_⟩
    · rw [sqrtRatio_le_iff ⟨by omega, by omega⟩ hband]
      omega
    · rw [sub_add_cancel]

theorem reached_up {p : SwapParams} {s : SwapState} {step : SwapStepResult}
    {growth : ℕ} (hdir : p.zeroForOne = false) (hprice : Priced s.sqrtPrice s.tick)
    (hlimit : WithinLimit p s.sqrtPrice) (hstepped : Stepped p s step growth)
    (hmoved : Moved p s step)
    (hreach : step.sqrtRatioNextX96 = sqrtRatio (nextTick p s).1) :
    ∃ n, Reached p s n := by
  have hband := hstepped.band
  have hpos : 0 < p.pk.tickSpacing := by
    have := p.pk.spacing_pos
    omega
  obtain ⟨n, htn, hlt, hbit, hnone⟩ := nextTick_up hdir hprice.minTick_le hprice.lt_maxTick
  have hin := hmoved.withinLimit hlimit
  simp only [Moved, hdir, Bool.false_eq_true, if_false] at hmoved
  simp only [WithinLimit, hdir, Bool.false_eq_true, if_false] at hin
  have hmin : minSqrtRatio ≤ step.sqrtRatioNextX96 := hprice.min_le.trans hmoved.le_next
  have hmax : step.sqrtRatioNextX96 < maxSqrtRatio := by omega
  have hltMax : (nextTick p s).1 < maxTick := by
    apply lt_of_sqrtRatio_lt hband ⟨by decide, le_rfl⟩
    rw [sqrtRatio_maxTick, ← hreach]
    exact hmax
  have hn : (nextTick p s).1 = n * p.pk.tickSpacing := by omega
  have hafter : tickAfterCross p.zeroForOne (n * p.pk.tickSpacing) =
      n * p.pk.tickSpacing := by
    simp only [tickAfterCross, hdir, Bool.false_eq_true, if_false]
  rw [hreach] at hmin hmax
  rw [hn] at hband hltMax hlt hmin hmax
  refine ⟨n, hn, hbit, ?_, ?_, ?_, fun h => by rw [hdir] at h; cases h⟩
  · rw [hafter]
    exact Or.inr ⟨hlt, le_rfl⟩
  · rw [hafter]
    intro i hi hb
    unfold Between at hb
    have hle : i * p.pk.tickSpacing ≤ n * p.pk.tickSpacing := by omega
    have hin : i ≤ n := le_of_mul_le_mul_right hle hpos
    exact hnone i (lt_of_le_of_ne hin hi) (by omega)
  · rw [hafter]
    refine ⟨hmin, hmax, hband.1, hltMax, le_rfl, ?_⟩
    rw [sqrtRatio_le_iff hband ⟨by omega, by omega⟩]
    omega

theorem reached_of_stepped {p : SwapParams} {s : SwapState} {step : SwapStepResult}
    {growth : ℕ} (hprice : Priced s.sqrtPrice s.tick) (hlimit : WithinLimit p s.sqrtPrice)
    (hstepped : Stepped p s step growth) (hmoved : Moved p s step)
    (hreach : step.sqrtRatioNextX96 = sqrtRatio (nextTick p s).1) :
    ∃ n, Reached p s n := by
  cases hdir : p.zeroForOne with
  | true => exact reached_down hdir hprice hlimit hstepped hmoved hreach
  | false => exact reached_up hdir hprice hlimit hstepped hmoved hreach

/-- A reached tick is crossed when it is initialised and passed quietly
otherwise. -/
theorem Reached.settled {p : SwapParams} {s s' : SwapState} {n : ℤ} {step : SwapStepResult}
    {growth : ℕ} (h : Reached p s n)
    (hok : reachTick p (advance p s step growth) (nextTick p s).1 (nextTick p s).2 = .ok s') :
    Settled p s step growth s' := by
  rw [h.tick_eq] at hok
  rcases reachTick_ok hok with ⟨huninit, rfl⟩ | ⟨hinit, hnonneg, rfl⟩
  · refine Settled.quiet _ ?_
    intro i hi
    by_cases hin : i = n
    · rw [hin, ← h.bit_eq, huninit]
    · exact h.others i hin hi
  · exact Settled.crossed n (by rw [← h.bit_eq, hinit]) h.passed h.others hnonneg

/-- A step that ended strictly before the tick it headed for passed no boundary,
and did not turn around. -/
theorem quiet_of_stepped {p : SwapParams} {s : SwapState} {step : SwapStepResult}
    {growth : ℕ} {tick : ℤ} (hprice : Priced s.sqrtPrice s.tick)
    (hstepped : Stepped p s step growth) (hmoved : Moved p s step)
    (hne : step.sqrtRatioNextX96 ≠ sqrtRatio (nextTick p s).1)
    (hchanged : step.sqrtRatioNextX96 ≠ s.sqrtPrice)
    (hpriced : Priced step.sqrtRatioNextX96 tick)
    (hstrict : step.sqrtRatioNextX96 < sqrtRatio (tick + 1)) :
    (p.zeroForOne = true → tick ≤ s.tick) ∧
    ∀ i, Between s.tick tick (i * p.pk.tickSpacing) →
      bitSet (s.storage.view p.pk).words i = false := by
  have hband := hstepped.band
  have hpos : 0 < p.pk.tickSpacing := by
    have := p.pk.spacing_pos
    omega
  cases hdir : p.zeroForOne with
  | true =>
      obtain ⟨n, htn, hle, hbit, hnone, -⟩ :=
        nextTick_down hdir hprice.minTick_le hprice.lt_maxTick
      simp only [Moved, hdir, if_true, stepTarget] at hmoved
      have htarget := hmoved.target_le
      have hge : (nextTick p s).1 < tick + 1 := by
        apply lt_of_sqrtRatio_lt hband hpriced.tickSucc_le
        omega
      have hle' : tick < s.tick + 1 := by
        apply lt_of_sqrtRatio_lt ⟨hpriced.minTick_le, hpriced.lt_maxTick.le⟩
          hprice.tickSucc_le
        have h1 := hpriced.tick_le
        have h2 := hprice.le_next
        have h3 := hmoved.next_le
        omega
      refine ⟨fun _ => by omega, ?_⟩
      intro i hi
      unfold Between at hi
      have hlt : n * p.pk.tickSpacing < i * p.pk.tickSpacing := by omega
      exact hnone i (lt_of_mul_lt_mul_right hlt hpos.le) (by omega)
  | false =>
      obtain ⟨n, htn, hlt, hbit, hnone⟩ :=
        nextTick_up hdir hprice.minTick_le hprice.lt_maxTick
      simp only [Moved, hdir, Bool.false_eq_true, if_false, stepTarget] at hmoved
      have htarget := hmoved.next_le
      have hge : s.tick < tick + 1 := by
        apply lt_of_sqrtRatio_lt ⟨hprice.minTick_le, hprice.lt_maxTick.le⟩
          hpriced.tickSucc_le
        have h1 := hprice.tick_le
        have h2 := hmoved.le_next
        omega
      have hlt' : tick < (nextTick p s).1 := by
        apply lt_of_sqrtRatio_lt ⟨hpriced.minTick_le, hpriced.lt_maxTick.le⟩ hband
        have h1 := hpriced.tick_le
        omega
      refine ⟨fun h => absurd h (by decide), ?_⟩
      intro i hi
      unfold Between at hi
      have hless : i * p.pk.tickSpacing < n * p.pk.tickSpacing := by omega
      exact hnone i (lt_of_mul_lt_mul_right hless hpos.le) (by omega)

/-- One step: the price moves toward the limit, the tick stays the price's tick,
and the tick is settled in one of the two ways. -/
theorem swapStep_spec {p : SwapParams} {s s' : SwapState}
    (hprice : Priced s.sqrtPrice s.tick) (hlimit : WithinLimit p s.sqrtPrice)
    (h : swapStep p s = .ok s') :
    ∃ step growth, Stepped p s step growth ∧ Moved p s step ∧
      s'.sqrtPrice = step.sqrtRatioNextX96 ∧ Priced s'.sqrtPrice s'.tick ∧
      Settled p s step growth s' := by
  obtain ⟨step, growth, hstepped, hcases⟩ := swapStep_cases h
  have hmoved := moved_of_stepped hprice hlimit hstepped
  refine ⟨step, growth, hstepped, hmoved, ?_⟩
  rcases hcases with ⟨hreach, hok⟩ | ⟨hne, hchanged, tick, htick, rfl⟩ | ⟨hne, hsame, rfl⟩
  · obtain ⟨n, hn⟩ := reached_of_stepped hprice hlimit hstepped hmoved hreach
    obtain ⟨hp, ht, -⟩ := reachTick_price hok
    have hp' : s'.sqrtPrice = step.sqrtRatioNextX96 := hp
    refine ⟨hp', ?_, hn.settled hok⟩
    rw [hp', hreach, ht, hn.tick_eq]
    exact hn.priced
  · obtain ⟨hmin, hmax⟩ := hmoved.usable hprice hlimit
    obtain ⟨hpriced, hstrict⟩ := getTick_priced hmin hmax htick
    exact ⟨rfl, hpriced,
      Settled.quiet tick (quiet_of_stepped hprice hstepped hmoved hne hchanged hpriced
        hstrict).2⟩
  · refine ⟨rfl, ?_, settled_same p s step growth⟩
    show Priced step.sqrtRatioNextX96 s.tick
    rw [hsame]
    exact hprice

/-! ## The whole loop -/

/-- What every state of a swap's loop satisfies. -/
structure Swapping (p : SwapParams) (s : SwapState) : Prop where
  priced : Priced s.sqrtPrice s.tick
  withinLimit : WithinLimit p s.sqrtPrice

theorem Swapping.step {p : SwapParams} {s s' : SwapState} (h : Swapping p s)
    (hstep : swapStep p s = .ok s') : Swapping p s' := by
  obtain ⟨step, growth, hstepped, hmoved, hnext, hpriced, -⟩ :=
    swapStep_spec h.priced h.withinLimit hstep
  refine ⟨hpriced, ?_⟩
  rw [hnext]
  exact hmoved.withinLimit h.withinLimit

/-- The rule for the loop: what every step from a priced state preserves holds
when the loop ends. -/
theorem swapLoop_invariant {p : SwapParams} {P : SwapState → Prop}
    (hstep : ∀ s s', Swapping p s → P s → swapStep p s = .ok s' → P s') :
    ∀ (fuel : ℕ) {s s' : SwapState} {fuel' : ℕ}, Swapping p s → P s →
      swapLoop p fuel s = .ok (s', fuel') → Swapping p s' ∧ P s'
  | 0, s, s', fuel', hs, hP, h => by
      unfold swapLoop at h
      split_ifs at h
      simp only [Except.ok.injEq, Prod.mk.injEq] at h
      obtain ⟨rfl, -⟩ := h
      exact ⟨hs, hP⟩
  | fuel + 1, s, s', fuel', hs, hP, h => by
      unfold swapLoop at h
      split_ifs at h
      · cases hok : swapStep p s with
        | error e => simp [hok] at h
        | ok mid =>
            simp only [hok] at h
            exact swapLoop_invariant hstep fuel (hs.step hok) (hstep s mid hs hP hok) h
      · simp only [Except.ok.injEq, Prod.mk.injEq] at h
        obtain ⟨rfl, -⟩ := h
        exact ⟨hs, hP⟩

theorem withinLimit_of_priceLimitOk {p : SwapParams} {price : ℕ}
    (h : priceLimitOk p.zeroForOne p.sqrtPriceLimit price = true) :
    WithinLimit p price := by
  unfold priceLimitOk at h
  unfold WithinLimit
  split_ifs at h ⊢
  · simp only [decide_eq_true_eq] at h
    exact ⟨h.2, h.1.le⟩
  · simp only [decide_eq_true_eq] at h
    exact ⟨h.1.le, h.2⟩

end LuxPrecompile.V3
