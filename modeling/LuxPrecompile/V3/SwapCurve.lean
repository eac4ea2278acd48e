import LuxPrecompile.Support.Curves
import LuxPrecompile.V3.SwapOutcome

/-!
# The curve of a pool

The initialised ticks of a pool say how deep it is at every price: the depth
changes by the net liquidity of each tick passed.  A swap of any direction moves
along this one curve.  Its input covers the exact amount between the prices it
started and ended at, and its output does not exceed it, over whatever steps the
loop took.
-/

namespace LuxPrecompile.V3

open Dex Evm Support

/-! ## The cells between ticks -/

/-- The prices of the usable ticks. -/
def tickGrid : Grid ℕ where
  mark n := sqrtRatio (minTick + n)
  size := (maxTick - minTick).toNat
  mono n hn := by
    have hle : minTick + (n : ℤ) + 1 ≤ maxTick := by
      unfold minTick maxTick at *
      omega
    have hmin : minTick ≤ minTick + (n : ℤ) := by omega
    rw [Nat.cast_succ, ← add_assoc, sqrtRatio_le_iff ⟨hmin, by omega⟩ ⟨by omega, hle⟩]
    omega

theorem tickGrid_first : tickGrid.mark 0 = minSqrtRatio := by
  rw [← sqrtRatio_minTick]
  rfl

theorem tickGrid_last : tickGrid.mark tickGrid.size = maxSqrtRatio := by
  rw [← sqrtRatio_maxTick]
  rfl

/-- What the exact amount of a token is the change of. -/
def potential : Token → ℕ → ℚ
  | .token0, p => -(2 ^ 96 / p)
  | .token1, p => p / 2 ^ 96

theorem potential_mono (i : Token) {x y : ℕ} (hx : 0 < x) (hxy : x ≤ y) :
    potential i x ≤ potential i y := by
  have hx' : (0 : ℚ) < x := by exact_mod_cast hx
  have hxy' : (x : ℚ) ≤ y := by exact_mod_cast hxy
  cases i with
  | token0 => exact neg_le_neg (div_le_div_of_nonneg_left (by positivity) hx' hxy')
  | token1 => exact div_le_div_of_nonneg_right hxy' (by positivity)

/-- The exact amounts of a move with a constant liquidity. -/
theorem exactIn_eq {p : SwapParams} {a b t L : ℕ} (ha : 0 < a) (hb : 0 < b)
    (hway : OnWay p.zeroForOne a b t) :
    exactIn p.zeroForOne a b L =
      L * (potential p.tokenIn (max a b) - potential p.tokenIn (min a b)) := by
  have ha' : (a : ℚ) ≠ 0 := by exact_mod_cast ha.ne'
  have hb' : (b : ℚ) ≠ 0 := by exact_mod_cast hb.ne'
  unfold OnWay exactIn SwapParams.tokenIn at *
  split_ifs at hway ⊢
  · rw [max_eq_left hway.2, min_eq_right hway.2]
    simp only [potential]
    field_simp
    ring
  · rw [max_eq_right hway.1, min_eq_left hway.1]
    simp only [potential]
    ring

theorem exactOut_eq {p : SwapParams} {a b t L : ℕ} (ha : 0 < a) (hb : 0 < b)
    (hway : OnWay p.zeroForOne a b t) :
    exactOut p.zeroForOne a b L =
      L * (potential p.tokenOut (max a b) - potential p.tokenOut (min a b)) := by
  have ha' : (a : ℚ) ≠ 0 := by exact_mod_cast ha.ne'
  have hb' : (b : ℚ) ≠ 0 := by exact_mod_cast hb.ne'
  unfold OnWay exactOut SwapParams.tokenOut at *
  split_ifs at hway ⊢
  · rw [max_eq_left hway.2, min_eq_right hway.2]
    simp only [potential]
    ring
  · rw [max_eq_right hway.1, min_eq_left hway.1]
    simp only [potential]
    field_simp
    ring

/-! ## The depth -/

/-- The net liquidity of the initialised ticks up to a tick. -/
noncomputable def Pool.netUpTo (P : Pool) (spacing t : ℤ) : ℤ :=
  ∑ u ∈ Finset.Ioc minTick t,
    if spacing ∣ u ∧ bitSet P.words (u / spacing) = true then (P.tickInfo u).liquidityNet
    else 0

/-- The liquidity a pool would have at a tick, counted from its own. -/
noncomputable def Pool.depthAt (P : Pool) (spacing t : ℤ) : ℤ :=
  P.liquidity + P.netUpTo spacing t - P.netUpTo spacing P.tick

/-- The depth of each cell.  A cell no swap can reach may have none. -/
noncomputable def Pool.depth (P : Pool) (spacing : ℤ) (n : ℕ) : ℚ :=
  ((P.depthAt spacing (minTick + n)).toNat : ℕ)

section Depth

variable {P : Pool} {spacing a b : ℤ}

theorem netUpTo_sub (P : Pool) (spacing : ℤ) (hmin : minTick ≤ a) (hab : a ≤ b) :
    P.netUpTo spacing b - P.netUpTo spacing a = ∑ u ∈ Finset.Ioc a b,
      if spacing ∣ u ∧ bitSet P.words (u / spacing) = true then (P.tickInfo u).liquidityNet
      else 0 := by
  unfold Pool.netUpTo
  rw [← Finset.Ioc_union_Ioc_eq_Ioc hmin hab,
    Finset.sum_union (Finset.Ioc_disjoint_Ioc_of_le le_rfl)]
  ring

theorem netUpTo_quiet (hs : 0 < spacing) (hmin : minTick ≤ a) (hab : a ≤ b)
    (hnone : ∀ i, a < i * spacing → i * spacing ≤ b → bitSet P.words i = false) :
    P.netUpTo spacing b = P.netUpTo spacing a := by
  have hsub := netUpTo_sub P spacing hmin hab
  rw [Finset.sum_eq_zero] at hsub
  · omega
  · intro u hu
    rw [if_neg]
    rintro ⟨⟨i, rfl⟩, hbit⟩
    obtain ⟨hlo, hhi⟩ := Finset.mem_Ioc.mp hu
    rw [Int.mul_ediv_cancel_left i hs.ne'] at hbit
    rw [mul_comm] at hlo hhi
    rw [hnone i hlo hhi] at hbit
    cases hbit

theorem netUpTo_cross (hs : 0 < spacing) (hmin : minTick ≤ a) {n : ℤ}
    (hlo : a < n * spacing) (hhi : n * spacing ≤ b) (hbit : bitSet P.words n = true)
    (hothers : ∀ i, i ≠ n → a < i * spacing → i * spacing ≤ b →
      bitSet P.words i = false) :
    P.netUpTo spacing b =
      P.netUpTo spacing a + (P.tickInfo (n * spacing)).liquidityNet := by
  have hsub := netUpTo_sub P spacing hmin (hlo.le.trans hhi)
  rw [Finset.sum_eq_single (n * spacing)] at hsub
  · rw [if_pos ⟨Dvd.intro_left n rfl, by rwa [Int.mul_ediv_cancel n hs.ne']⟩] at hsub
    omega
  · intro u hu hne
    rw [if_neg]
    rintro ⟨⟨i, rfl⟩, hset⟩
    obtain ⟨hulo, huhi⟩ := Finset.mem_Ioc.mp hu
    rw [Int.mul_ediv_cancel_left i hs.ne'] at hset
    rw [mul_comm] at hulo huhi hne
    rw [hothers i (fun h => hne (by rw [h])) hulo huhi] at hset
    cases hset
  · intro hnot
    exact absurd (Finset.mem_Ioc.mpr ⟨hlo, hhi⟩) hnot

theorem netUpTo_congr {Q : Pool} (hwords : Q.words = P.words)
    (hnets : ∀ t, (Q.tickInfo t).liquidityNet = (P.tickInfo t).liquidityNet) :
    Q.netUpTo spacing = P.netUpTo spacing := by
  funext t
  simp only [Pool.netUpTo, hwords, hnets]

end Depth

/-! ## One step along the curve -/

theorem Moved.amounts {p : SwapParams} {s : SwapState} {step : SwapStepResult}
    (h : Moved p s step) (hprice : 0 < s.sqrtPrice) (hnext : 0 < step.sqrtRatioNextX96) :
    exactIn p.zeroForOne s.sqrtPrice step.sqrtRatioNextX96 s.liquidity ≤ step.amountIn ∧
      step.amountOut ≤
        exactOut p.zeroForOne s.sqrtPrice step.sqrtRatioNextX96 s.liquidity := by
  unfold Moved at h
  cases hdir : p.zeroForOne with
  | true =>
      rw [if_pos hdir] at h
      exact ⟨(exactIn_le_iff_down hnext h.next_le).mpr h.covers,
        (le_exactOut_iff_down h.next_le).mpr h.affordable⟩
  | false =>
      rw [if_neg (by simp [hdir])] at h
      exact ⟨(exactIn_le_iff_up h.le_next).mpr h.covers,
        (le_exactOut_iff_up hprice h.le_next).mpr h.affordable⟩

/-- The ticks of the cells a step passes: none of them is separated from the
pool's tick by an initialised tick. -/
theorem Stepped.cell {p : SwapParams} {s : SwapState} {step : SwapStepResult}
    {growth : ℕ} {t : ℤ} (hs : Swapping p s) (h : Stepped p s step growth)
    (hmoved : Moved p s step) (ht : minTick ≤ t ∧ t < maxTick)
    (hlo : sqrtRatio t < max s.sqrtPrice step.sqrtRatioNextX96)
    (hhi : min s.sqrtPrice step.sqrtRatioNextX96 < sqrtRatio (t + 1)) :
    (s.pool p.pk).netUpTo p.pk.tickSpacing t =
      (s.pool p.pk).netUpTo p.pk.tickSpacing s.tick := by
  have hpos : 0 < p.pk.tickSpacing := by
    have := p.pk.spacing_pos
    omega
  have hband := h.band
  have hprice := hs.priced
  have hway := hmoved.onWay
  unfold OnWay at hway
  unfold Moved stepTarget at hmoved
  cases hdir : p.zeroForOne with
  | true =>
      simp only [hdir, if_true] at hmoved hway
      rw [max_eq_left hway.2] at hlo
      rw [min_eq_right hway.2] at hhi
      obtain ⟨n, htn, hle, -, hnone, -⟩ :=
        nextTick_down hdir hprice.minTick_le hprice.lt_maxTick
      have hbelow : t < s.tick + 1 :=
        lt_of_sqrtRatio_lt ⟨ht.1, ht.2.le⟩ hprice.tickSucc_le (hlo.trans_le hprice.le_next)
      have habove : (nextTick p s).1 < t + 1 := by
        apply lt_of_sqrtRatio_lt hband ⟨by omega, by omega⟩
        exact lt_of_le_of_lt ((le_max_left _ _).trans hmoved.target_le) hhi
      symm
      apply netUpTo_quiet hpos ht.1 (by omega)
      intro i hi hit
      have hlt : n * p.pk.tickSpacing < i * p.pk.tickSpacing := by omega
      exact hnone i (lt_of_mul_lt_mul_right hlt hpos.le) hit
  | false =>
      simp only [hdir, Bool.false_eq_true, if_false] at hmoved hway
      rw [max_eq_right hway.1] at hlo
      rw [min_eq_left hway.1] at hhi
      obtain ⟨n, htn, hlt, -, hnone⟩ :=
        nextTick_up hdir hprice.minTick_le hprice.lt_maxTick
      have hbelow : t < (nextTick p s).1 := by
        apply lt_of_sqrtRatio_lt ⟨ht.1, ht.2.le⟩ hband
        exact hlo.trans_le (hmoved.next_le.trans (min_le_left _ _))
      have habove : s.tick < t + 1 :=
        lt_of_sqrtRatio_lt ⟨hprice.minTick_le, hprice.lt_maxTick.le⟩ ⟨by omega, by omega⟩
          (lt_of_le_of_lt hprice.tick_le hhi)
      apply netUpTo_quiet hpos hprice.minTick_le (by omega)
      intro i hi hit
      have hless : i * p.pk.tickSpacing < n * p.pk.tickSpacing := by omega
      exact hnone i (lt_of_mul_lt_mul_right hless hpos.le) hi

/-! ## A swap along the curve -/

/-- Two views of a pool with the same initialised ticks. -/
structure SameTicks (P Q : Pool) : Prop where
  words : Q.words = P.words
  nets : ∀ t, (Q.tickInfo t).liquidityNet = (P.tickInfo t).liquidityNet

theorem SameTicks.netUpTo {P Q : Pool} (h : SameTicks P Q) (spacing : ℤ) :
    Q.netUpTo spacing = P.netUpTo spacing :=
  netUpTo_congr h.words h.nets

/-- A swap in progress that started from the pool `P`: it has the ticks of `P` and
the depth of the curve where it is, and its totals lean to the pool. -/
structure Leg (p : SwapParams) (P : Pool) (s : SwapState) : Prop where
  ticks : SameTicks P (s.pool p.pk)
  depth : (s.liquidity : ℤ) = P.depthAt p.pk.tickSpacing s.tick
  onWay : OnWay p.zeroForOne P.sqrtPrice s.sqrtPrice p.sqrtPriceLimit
  paid : tickGrid.between (potential p.tokenIn) (P.depth p.pk.tickSpacing) P.sqrtPrice
    s.sqrtPrice ≤ s.totalIn
  got : (s.totalOut : ℚ) ≤ tickGrid.between (potential p.tokenOut)
    (P.depth p.pk.tickSpacing) P.sqrtPrice s.sqrtPrice

namespace Leg

variable {p : SwapParams} {P : Pool} {s s' : SwapState}

/-- A step changes the net liquidity of no tick. -/
theorem sameTicks (h : Leg p P s) (hs : Swapping p s) (hok : swapStep p s = .ok s') :
    SameTicks P (s'.pool p.pk) := by
  refine ⟨(swapStep_frame hok).2.2.trans h.ticks.words, fun t => ?_⟩
  rw [← h.ticks.nets t]
  obtain ⟨step, growth, -, -, -, -, hsettled⟩ := swapStep_spec hs.priced hs.withinLimit hok
  rcases hsettled.pool_cases with ⟨-, hpool⟩ | ⟨n, -, -, -, -, -, hpool⟩
  · rw [hpool]
    rfl
  · rw [hpool]
    by_cases ht : t = n * p.pk.tickSpacing
    · subst ht
      simp only [Pool.cross, Function.update_self, Pool.crossedTick, TickInfo.readBack,
        Pool.move]
      obtain ⟨hlo, hhi⟩ := wordToInt_range (s.storage.tick p.pk (n * p.pk.tickSpacing)).net
      exact wordToInt_intWord hlo hhi
    · simp only [Pool.cross, Function.update_of_ne ht, Pool.move]

/-- The depth where a step ended. -/
theorem depth_step (h : Leg p P s) (hs : Swapping p s) (hok : swapStep p s = .ok s') :
    (s'.liquidity : ℤ) = P.depthAt p.pk.tickSpacing s'.tick := by
  have hpos : 0 < p.pk.tickSpacing := by
    have := p.pk.spacing_pos
    omega
  obtain ⟨step, growth, -, -, -, hpriced, hsettled⟩ :=
    swapStep_spec hs.priced hs.withinLimit hok
  have hmin := hs.priced.minTick_le
  have hmin' := hpriced.minTick_le
  have hdepth := h.depth
  unfold Pool.depthAt at hdepth ⊢
  rw [← h.ticks.netUpTo] at hdepth ⊢
  rcases hsettled.pool_cases with ⟨hnone, hpool⟩ | ⟨n, htick, hbit, hat, hothers, hnonneg, hpool⟩
  · have hliq : s'.liquidity = s.liquidity := congrArg Pool.liquidity hpool
    have hsame : (s.pool p.pk).netUpTo p.pk.tickSpacing s'.tick =
        (s.pool p.pk).netUpTo p.pk.tickSpacing s.tick := by
      rcases le_total s.tick s'.tick with hle | hle
      · exact netUpTo_quiet hpos hmin hle fun i hlo hhi => hnone i (Or.inr ⟨hlo, hhi⟩)
      · exact (netUpTo_quiet hpos hmin' hle
          fun i hlo hhi => hnone i (Or.inl ⟨hlo, hhi⟩)).symm
    rw [hliq, hsame]
    exact hdepth
  · have hliq : (s'.liquidity : ℤ) = s.liquidity + directedNet p.zeroForOne
        ((s.pool p.pk).tickInfo (n * p.pk.tickSpacing)).liquidityNet := by
      rw [show s'.liquidity = _ from congrArg Pool.liquidity hpool]
      exact Int.toNat_of_nonneg hnonneg
    have hnet : (s.pool p.pk).netUpTo p.pk.tickSpacing s'.tick =
        (s.pool p.pk).netUpTo p.pk.tickSpacing s.tick + directedNet p.zeroForOne
          ((s.pool p.pk).tickInfo (n * p.pk.tickSpacing)).liquidityNet := by
      unfold tickAfterCross at htick
      unfold directedNet
      split_ifs at htick ⊢
      · have hback := netUpTo_cross (P := s.pool p.pk) hpos hmin'
          (show s'.tick < n * p.pk.tickSpacing by omega)
          (show n * p.pk.tickSpacing ≤ s.tick by unfold Between at hat; omega) hbit
          fun i hi hlo hhi => hothers i hi (Or.inl ⟨hlo, hhi⟩)
        omega
      · exact netUpTo_cross hpos hmin
          (show s.tick < n * p.pk.tickSpacing by unfold Between at hat; omega)
          (show n * p.pk.tickSpacing ≤ s'.tick by omega) hbit
          fun i hi hlo hhi => hothers i hi (Or.inr ⟨hlo, hhi⟩)
    rw [hliq, hnet]
    omega

/-- The amounts of a step against the curve. -/
theorem amounts_step (h : Leg p P s) (hs : Swapping p s) {step : SwapStepResult} {growth : ℕ}
    (hstepped : Stepped p s step growth) (hmoved : Moved p s step) :
    tickGrid.between (potential p.tokenIn) (P.depth p.pk.tickSpacing) s.sqrtPrice
        step.sqrtRatioNextX96 ≤ step.amountIn ∧
      step.amountOut ≤ tickGrid.between (potential p.tokenOut) (P.depth p.pk.tickSpacing)
        s.sqrtPrice step.sqrtRatioNextX96 := by
  obtain ⟨hnextMin, hnextMax⟩ := hmoved.usable hs.priced hs.withinLimit
  have hpos : 0 < s.sqrtPrice := lt_of_lt_of_le (by decide) hs.priced.min_le
  have hnextPos : 0 < step.sqrtRatioNextX96 := lt_of_lt_of_le (by decide) hnextMin
  have hconst : ∀ φ : ℕ → ℚ, tickGrid.between φ (P.depth p.pk.tickSpacing) s.sqrtPrice
      step.sqrtRatioNextX96 = s.liquidity *
        (φ (max s.sqrtPrice step.sqrtRatioNextX96) -
          φ (min s.sqrtPrice step.sqrtRatioNextX96)) := by
    intro φ
    apply Grid.amount_of_const min_le_max
    · rw [tickGrid_first]
      exact le_min hs.priced.min_le hnextMin
    · rw [tickGrid_last]
      exact max_le hs.priced.lt_max.le hnextMax.le
    · intro n hn hlo hhi
      have hcell := hstepped.cell hs hmoved (t := minTick + n)
        (by
          have hsize : tickGrid.size = (maxTick - minTick).toNat := rfl
          rw [hsize] at hn
          unfold minTick maxTick at *
          omega)
        hlo (by
          have hmark : tickGrid.mark (n + 1) = sqrtRatio (minTick + n + 1) := by
            rw [add_assoc, ← Nat.cast_succ]
            rfl
          rwa [← hmark])
      have hdepth := h.depth
      unfold Pool.depthAt at hdepth
      rw [h.ticks.netUpTo] at hcell
      rw [Pool.depth, Pool.depthAt, hcell, ← hdepth, Int.toNat_natCast]
  obtain ⟨hin, hout⟩ := hmoved.amounts hpos hnextPos
  rw [exactIn_eq hpos hnextPos hmoved.onWay] at hin
  rw [exactOut_eq hpos hnextPos hmoved.onWay] at hout
  rw [hconst, hconst]
  exact ⟨hin, hout⟩

theorem step (h : Leg p P s) (hs : Swapping p s) (hok : swapStep p s = .ok s') :
    Leg p P s' := by
  obtain ⟨step, growth, hstepped, haccrued⟩ := swapStep_accrued hok
  have hmoved := moved_of_stepped hs.priced hs.withinLimit hstepped
  obtain ⟨hin, hout⟩ := h.amounts_step hs hstepped hmoved
  have hway := hmoved.onWay
  have hsplit : ∀ φ : ℕ → ℚ, tickGrid.between φ (P.depth p.pk.tickSpacing) P.sqrtPrice
      s'.sqrtPrice = tickGrid.between φ (P.depth p.pk.tickSpacing) P.sqrtPrice s.sqrtPrice +
        tickGrid.between φ (P.depth p.pk.tickSpacing) s.sqrtPrice step.sqrtRatioNextX96 := by
    intro φ
    rw [haccrued.sqrtPrice]
    apply Grid.between_split
    have hbefore := h.onWay
    unfold OnWay at hbefore hway
    split_ifs at hbefore hway
    · exact Or.inr ⟨hway.2, hbefore.2⟩
    · exact Or.inl ⟨hbefore.1, hway.1⟩
  refine ⟨h.sameTicks hs hok, h.depth_step hs hok, ?_, ?_, ?_⟩
  · rw [haccrued.sqrtPrice]
    exact onWay_trans h.onWay hway
  · rw [hsplit, haccrued.totalIn]
    have hfee : (0 : ℚ) ≤ step.feeAmount := by exact_mod_cast hmoved.fee_nonneg
    have hbefore := h.paid
    push_cast
    linarith
  · rw [hsplit, haccrued.totalOut]
    have hbefore := h.got
    push_cast
    linarith

/-- A swap that has not moved. -/
theorem start {db : Storage} {amountSpecified : ℤ}
    (hlimit : WithinLimit p (db.view p.pk).sqrtPrice) :
    Leg p (db.view p.pk) (swapInit db p.pk amountSpecified) := by
  have hprice : (swapInit db p.pk amountSpecified).sqrtPrice = (db.view p.pk).sqrtPrice := rfl
  refine ⟨⟨rfl, fun _ => rfl⟩, ?_, ?_, ?_, ?_⟩
  · show ((db.view p.pk).liquidity : ℤ) =
      (db.view p.pk).liquidity + (db.view p.pk).netUpTo p.pk.tickSpacing (db.view p.pk).tick -
        (db.view p.pk).netUpTo p.pk.tickSpacing (db.view p.pk).tick
    ring
  · rw [hprice]
    unfold WithinLimit at hlimit
    unfold OnWay
    split_ifs at hlimit ⊢
    · exact ⟨hlimit.2, le_rfl⟩
    · exact ⟨le_rfl, hlimit.1⟩
  · rw [hprice, Grid.between_self]
    exact le_rfl
  · rw [hprice, Grid.between_self]
    exact le_rfl

theorem of_loop {db : Storage} {amountSpecified : ℤ} {fuel fuel' : ℕ}
    (hs : Swapping p (swapInit db p.pk amountSpecified))
    (hloop : swapLoop p fuel (swapInit db p.pk amountSpecified) = .ok (s, fuel')) :
    Swapping p s ∧ Leg p (db.view p.pk) s :=
  swapLoop_invariant (fun _ _ hs h hok => h.step hs hok) fuel hs (start hs.withinLimit) hloop

/-- The pool a swap stored lies on the same curve, and is nowhere deeper. -/
theorem shallower (h : Leg p P s) {Q : Pool}
    (hstored : Q = { s.pool p.pk with liquidity := wordToUint (uintWord s.liquidity) })
    (n : ℕ) : Q.depth p.pk.tickSpacing n ≤ P.depth p.pk.tickSpacing n := by
  have hticks : SameTicks P Q := by
    rw [hstored]
    exact ⟨h.ticks.words, h.ticks.nets⟩
  have hdepth := h.depth
  have hle : Q.liquidity ≤ s.liquidity := by
    rw [hstored, wordToUint_uintWord]
    exact Nat.mod_le _ _
  have htick : Q.tick = s.tick := by rw [hstored]; rfl
  have hat : Q.depthAt p.pk.tickSpacing (minTick + n) ≤
      P.depthAt p.pk.tickSpacing (minTick + n) := by
    unfold Pool.depthAt at *
    rw [hticks.netUpTo, htick]
    omega
  unfold Pool.depth
  exact_mod_cast Int.toNat_le_toNat hat

end Leg

end LuxPrecompile.V3
