import LuxPrecompile.Support.Curves
import LuxPrecompile.V3.FeeAccounts
import LuxPrecompile.V3.SwapCurve

/-!
# Solvency of one pool

The vault keeps one reserve for each asset, so nothing it checks keeps a pool from
being paid out of the deposits of another.  What a pool has paid out, what it owes
its positions and what these hold at its price are covered by what it took in, up to
one unit for each mint, which rounds down what it pulls.
-/

namespace LuxPrecompile.V3

open Dex Evm Support

/-! ## What positions hold -/

/-- The amount of a token behind one unit of liquidity, up to a constant. -/
def held : Token → ℕ → ℚ
  | .token0, price => -potential .token0 price
  | .token1, price => potential .token1 price

/-- The end of a range at which a position holds none of a token. -/
def PositionKey.emptyAt (key : PositionKey) : Token → ℕ
  | .token0 => sqrtRatio key.tickUpper
  | .token1 => sqrtRatio key.tickLower

theorem PositionKey.unit_eq {key : PositionKey} (hlt : key.lower < key.upper) (price : ℕ)
    (i : Token) :
    key.unit price i =
      held i (clamp (sqrtRatio key.lower) (sqrtRatio key.upper) price) -
        held i (key.emptyAt i) := by
  have hpos := sqrtRatio_pos key.tickLower.2.1 key.tickLower.2.2
  have hle : sqrtRatio key.lower ≤ sqrtRatio key.upper :=
    (sqrtRatio_strictMono key.tickLower.2.1 hlt key.tickUpper.2.2).le
  obtain ⟨hlo, hhi⟩ := clamp_mem hle price
  have hclamp : (0 : ℚ) < clamp (sqrtRatio key.lower) (sqrtRatio key.upper) price := by
    exact_mod_cast hpos.trans_le hlo
  have hupper : (0 : ℚ) < sqrtRatio key.upper := by exact_mod_cast hpos.trans_le hle
  have hsame : clampPrice (sqrtRatio key.tickLower) (sqrtRatio key.tickUpper) price =
      clamp (sqrtRatio key.lower) (sqrtRatio key.upper) price := rfl
  unfold PositionKey.unit
  cases i with
  | token0 =>
      have hend : key.emptyAt .token0 = sqrtRatio key.upper := rfl
      simp only [unitPrincipal, held, potential, hsame, hend]
      have hsub : ((sqrtRatio key.tickUpper -
          clamp (sqrtRatio key.lower) (sqrtRatio key.upper) price : ℕ) : ℚ) =
          sqrtRatio key.upper - clamp (sqrtRatio key.lower) (sqrtRatio key.upper) price :=
        Nat.cast_sub hhi
      have hcast : (sqrtRatio key.tickUpper : ℚ) = sqrtRatio key.upper := rfl
      rw [hsub, hcast]
      field_simp
  | token1 =>
      have hend : key.emptyAt .token1 = sqrtRatio key.lower := rfl
      simp only [unitPrincipal, held, potential, hsame, hend]
      have hsub : ((clamp (sqrtRatio key.lower) (sqrtRatio key.upper) price -
          sqrtRatio key.tickLower : ℕ) : ℚ) =
          clamp (sqrtRatio key.lower) (sqrtRatio key.upper) price - sqrtRatio key.lower :=
        Nat.cast_sub hlo
      rw [hsub]
      ring

/-- What positions of some weights hold of a token at a price. -/
noncomputable def holdings (weight : PositionKey → ℤ) (price : ℕ) (i : Token) : ℚ :=
  ∑ k : PositionKey, (weight k : ℚ) * k.unit price i

theorem holdings_addWeight (weight : PositionKey → ℤ) (key : PositionKey) (d : ℤ)
    (price : ℕ) (i : Token) :
    holdings (addWeight weight key d) price i =
      holdings weight price i + d * key.unit price i := by
  have hsum := sum_add_of_eq_off (f := fun k => (weight k : ℚ) * k.unit price i)
    (g := fun k => (addWeight weight key d k : ℚ) * k.unit price i) key (by
      intro k hk
      simp only [addWeight, Function.update_of_ne hk])
  unfold holdings
  simp only [addWeight, Function.update_self] at hsum ⊢
  push_cast at hsum
  linarith

/-! ## A step between two boundaries -/

section Moves

variable {p : SwapParams} {s s' : SwapState} {step : SwapStepResult} {growth : ℕ}

/-- The price of a step passes no initialised tick. -/
theorem Stepped.clear (hs : Swapping p s) (h : Stepped p s step growth)
    (hmoved : Moved p s step) {n : ℤ} (hbit : bitSet (s.pool p.pk).words n = true)
    (ht : minTick ≤ n * p.pk.tickSpacing ∧ n * p.pk.tickSpacing ≤ maxTick) :
    (n * p.pk.tickSpacing ≤ s.tick →
        sqrtRatio (n * p.pk.tickSpacing) ≤ min s.sqrtPrice step.sqrtRatioNextX96) ∧
      (s.tick < n * p.pk.tickSpacing →
        max s.sqrtPrice step.sqrtRatioNextX96 ≤ sqrtRatio (n * p.pk.tickSpacing)) := by
  have hpos : 0 < p.pk.tickSpacing := by
    have := p.pk.spacing_pos
    omega
  have hband := h.band
  have hprice := hs.priced
  have hway := hmoved.onWay
  have hbelow : n * p.pk.tickSpacing ≤ s.tick →
      sqrtRatio (n * p.pk.tickSpacing) ≤ s.sqrtPrice := fun hle =>
    ((sqrtRatio_le_iff ht ⟨hprice.minTick_le, hprice.lt_maxTick.le⟩).mpr hle).trans
      hprice.tick_le
  have habove : s.tick < n * p.pk.tickSpacing →
      s.sqrtPrice ≤ sqrtRatio (n * p.pk.tickSpacing) := fun hlt =>
    hprice.le_next.trans ((sqrtRatio_le_iff hprice.tickSucc_le ht).mpr (by omega))
  unfold OnWay at hway
  unfold Moved stepTarget at hmoved
  cases hdir : p.zeroForOne with
  | true =>
      simp only [hdir, if_true] at hmoved hway
      rw [max_eq_left hway.2, min_eq_right hway.2]
      refine ⟨fun hle => ?_, habove⟩
      obtain ⟨m, hm, -, -, hnone, -⟩ := nextTick_down hdir hprice.minTick_le hprice.lt_maxTick
      have hnm : n ≤ m := by
        by_contra hc
        have hclear : bitSet (s.pool p.pk).words n = false := hnone n (not_le.mp hc) hle
        rw [hclear] at hbit
        cases hbit
      have htarget : n * p.pk.tickSpacing ≤ (nextTick p s).1 := by
        rw [hm]
        exact (mul_le_mul_of_nonneg_right hnm hpos.le).trans (le_max_right _ _)
      calc sqrtRatio (n * p.pk.tickSpacing) ≤ sqrtRatio (nextTick p s).1 :=
            (sqrtRatio_le_iff ht hband).mpr htarget
        _ ≤ step.sqrtRatioNextX96 := (le_max_left _ _).trans hmoved.target_le
  | false =>
      simp only [hdir, Bool.false_eq_true, if_false] at hmoved hway
      rw [max_eq_right hway.1, min_eq_left hway.1]
      refine ⟨hbelow, fun hlt => ?_⟩
      obtain ⟨m, hm, -, -, hnone⟩ := nextTick_up hdir hprice.minTick_le hprice.lt_maxTick
      have hmn : m ≤ n := by
        by_contra hc
        have hclear : bitSet (s.pool p.pk).words n = false := hnone n (not_le.mp hc) hlt
        rw [hclear] at hbit
        cases hbit
      have htarget : (nextTick p s).1 ≤ n * p.pk.tickSpacing := by
        rw [hm]
        exact (min_le_right _ _).trans (mul_le_mul_of_nonneg_right hmn hpos.le)
      calc step.sqrtRatioNextX96 ≤ sqrtRatio (nextTick p s).1 :=
            hmoved.next_le.trans (min_le_left _ _)
        _ ≤ sqrtRatio (n * p.pk.tickSpacing) := (sqrtRatio_le_iff hband ht).mpr htarget

/-- A step lies inside the ranges active where it starts, and beside the others. -/
theorem Stepped.ranges (hs : Swapping p s) (h : Stepped p s step growth)
    (hmoved : Moved p s step) (hbook : Bookkeeping p.pk (s.pool p.pk)) {k : PositionKey}
    (hk : (s.pool p.pk).weight k ≠ 0) :
    (k.lower ≤ s.tick ∧ s.tick < k.upper →
        Around (sqrtRatio k.lower) (sqrtRatio k.upper) s.sqrtPrice step.sqrtRatioNextX96) ∧
      (¬(k.lower ≤ s.tick ∧ s.tick < k.upper) →
        Beside (sqrtRatio k.lower) (sqrtRatio k.upper) s.sqrtPrice step.sqrtRatioNextX96) := by
  have hrange := hbook.range k hk
  have hend : ∀ t : ℤ, k.lower = t ∨ k.upper = t → p.pk.tickSpacing ∣ t →
      minTick ≤ t ∧ t ≤ maxTick →
      (t ≤ s.tick → sqrtRatio t ≤ min s.sqrtPrice step.sqrtRatioNextX96) ∧
        (s.tick < t → max s.sqrtPrice step.sqrtRatioNextX96 ≤ sqrtRatio t) := by
    rintro t ht ⟨n, hn⟩ hband
    rw [mul_comm] at hn
    rw [hn] at ht hband ⊢
    have hgross : 0 < ((s.pool p.pk).tickInfo (n * p.pk.tickSpacing)).liquidityGross := by
      rw [hbook.gross]
      exact grossAt_pos (s.pool p.pk).weight_nonneg ht hk
    exact h.clear hs hmoved ((hbook.bit n).mpr hgross) hband
  obtain ⟨hlow, hlow'⟩ := hend k.lower (Or.inl rfl) hrange.lower_aligned k.tickLower.2
  obtain ⟨hupp, hupp'⟩ := hend k.upper (Or.inr rfl) hrange.upper_aligned k.tickUpper.2
  constructor
  · rintro ⟨hle, hlt⟩
    exact ⟨hlow hle, hupp' hlt⟩
  · intro hout
    by_cases hle : k.lower ≤ s.tick
    · exact Or.inr (hupp (by by_contra hc; exact hout ⟨hle, not_le.mp hc⟩))
    · exact Or.inl (hlow' (not_le.mp hle))

/-- Only the active liquidity changes what it holds in a step. -/
theorem Stepped.holdings (hs : Swapping p s) (h : Stepped p s step growth)
    (hmoved : Moved p s step) (hbook : Bookkeeping p.pk (s.pool p.pk)) (i : Token) :
    V3.holdings (s.pool p.pk).weight step.sqrtRatioNextX96 i =
      V3.holdings (s.pool p.pk).weight s.sqrtPrice i +
        s.liquidity * (held i step.sqrtRatioNextX96 - held i s.sqrtPrice) := by
  have hlt : ∀ k, (s.pool p.pk).weight k ≠ 0 → k.lower < k.upper := fun k hk =>
    (hbook.range k hk).lower_lt
  have hsplit : ∀ price, V3.holdings (s.pool p.pk).weight price i =
      (∑ k : PositionKey, ((s.pool p.pk).weight k : ℚ) *
        held i (clamp (sqrtRatio k.lower) (sqrtRatio k.upper) price)) -
      ∑ k : PositionKey, ((s.pool p.pk).weight k : ℚ) * held i (k.emptyAt i) := by
    intro price
    unfold V3.holdings
    rw [← Finset.sum_sub_distrib]
    apply Finset.sum_congr rfl
    intro k _
    by_cases hzero : (s.pool p.pk).weight k = 0
    · simp [hzero]
    · rw [PositionKey.unit_eq (hlt k hzero)]
      ring
  have hcast : ∀ k, ((s.pool p.pk).weight k : ℚ) ≠ 0 → (s.pool p.pk).weight k ≠ 0 :=
    fun k hk hzero => hk (by rw [hzero, Int.cast_zero])
  have hmove := sum_clamp_move (held i) (fun k : PositionKey => sqrtRatio k.lower)
    (fun k => sqrtRatio k.upper) (fun k => ((s.pool p.pk).weight k : ℚ))
    (fun k => k.lower ≤ s.tick ∧ s.tick < k.upper)
    (fun k hk => (sqrtRatio_strictMono k.tickLower.2.1 (hlt k (hcast k hk))
      k.tickUpper.2.2).le)
    (fun k hk => (h.ranges hs hmoved hbook (hcast k hk)).1)
    (fun k hk => (h.ranges hs hmoved hbook (hcast k hk)).2)
  have hactive : (∑ k : PositionKey, if k.lower ≤ s.tick ∧ s.tick < k.upper then
      ((s.pool p.pk).weight k : ℚ) else 0) = s.liquidity := by
    have hliq : (s.liquidity : ℤ) =
        activeAt PositionKey.lower PositionKey.upper (s.pool p.pk).weight s.tick := hbook.active
    have hliq' : ((s.liquidity : ℤ) : ℚ) = (activeAt PositionKey.lower PositionKey.upper
        (s.pool p.pk).weight s.tick : ℤ) := by rw [hliq]
    rw [Int.cast_natCast] at hliq'
    rw [hliq', activeAt]
    push_cast
    rfl
  rw [hsplit, hsplit, hmove, hactive]
  ring

theorem Stepped.unique {step' : SwapStepResult} {growth' : ℕ} (h : Stepped p s step growth)
    (h' : Stepped p s step' growth') : step' = step ∧ growth' = growth := by
  obtain rfl := Option.some.inj (h.computed.symm.trans h'.computed)
  exact ⟨rfl, Option.some.inj (h'.grown.symm.trans h.grown)⟩

/-- A step takes in at least, and pays out at most, the change of what the active
liquidity holds. -/
theorem Moved.funds (hs : Swapping p s) (hmoved : Moved p s step) (i : Token) :
    (s.liquidity : ℚ) * (held i step.sqrtRatioNextX96 - held i s.sqrtPrice) +
        (if p.tokenIn = i then (step.feeAmount : ℚ) else 0) ≤
      if p.tokenIn = i then ((step.amountIn + step.feeAmount : ℤ) : ℚ)
      else -(step.amountOut : ℚ) := by
  obtain ⟨hnext, -⟩ := hmoved.usable hs.priced hs.withinLimit
  have hpos : 0 < s.sqrtPrice := lt_of_lt_of_le (by decide) hs.priced.min_le
  have hnextPos : 0 < step.sqrtRatioNextX96 := lt_of_lt_of_le (by decide) hnext
  have hposq : (s.sqrtPrice : ℚ) ≠ 0 := by exact_mod_cast hpos.ne'
  have hnextq : (step.sqrtRatioNextX96 : ℚ) ≠ 0 := by exact_mod_cast hnextPos.ne'
  obtain ⟨hin, hout⟩ := hmoved.amounts hpos hnextPos
  unfold exactIn at hin
  unfold exactOut at hout
  unfold SwapParams.tokenIn
  cases hdir : p.zeroForOne with
  | true =>
      simp only [hdir, if_true] at hin hout ⊢
      cases i with
      | token0 =>
          have heq : (s.liquidity : ℚ) *
              (held .token0 step.sqrtRatioNextX96 - held .token0 s.sqrtPrice) =
              s.liquidity * 2 ^ 96 * (s.sqrtPrice - step.sqrtRatioNextX96) /
                (step.sqrtRatioNextX96 * s.sqrtPrice) := by
            simp only [held, potential]
            field_simp
          rw [heq, if_pos rfl, if_pos rfl]
          push_cast
          linarith
      | token1 =>
          have heq : (s.liquidity : ℚ) *
              (held .token1 step.sqrtRatioNextX96 - held .token1 s.sqrtPrice) =
              -(s.liquidity * (s.sqrtPrice - step.sqrtRatioNextX96) / 2 ^ 96) := by
            simp only [held, potential]
            ring
          rw [heq, if_neg (by decide), if_neg (by decide)]
          linarith
  | false =>
      simp only [hdir, Bool.false_eq_true, if_false] at hin hout ⊢
      cases i with
      | token0 =>
          have heq : (s.liquidity : ℚ) *
              (held .token0 step.sqrtRatioNextX96 - held .token0 s.sqrtPrice) =
              -(s.liquidity * 2 ^ 96 * (step.sqrtRatioNextX96 - s.sqrtPrice) /
                (s.sqrtPrice * step.sqrtRatioNextX96)) := by
            simp only [held, potential]
            field_simp
            ring
          rw [heq, if_neg (by decide), if_neg (by decide)]
          linarith
      | token1 =>
          have heq : (s.liquidity : ℚ) *
              (held .token1 step.sqrtRatioNextX96 - held .token1 s.sqrtPrice) =
              s.liquidity * (step.sqrtRatioNextX96 - s.sqrtPrice) / 2 ^ 96 := by
            simp only [held, potential]
            ring
          rw [heq, if_pos rfl, if_pos rfl]
          push_cast
          linarith

/-- What a swap has moved of a token so far, as its event will report it. -/
def SwapState.moved (p : SwapParams) (s : SwapState) (i : Token) : ℤ :=
  swapAmounts p.zeroForOne s.totalIn s.totalOut i

theorem SwapState.moved_eq (p : SwapParams) (s : SwapState) (i : Token) :
    s.moved p i = if p.tokenIn = i then s.totalIn else -(s.totalOut : ℤ) := by
  unfold SwapState.moved swapAmounts SwapParams.tokenIn
  cases p.zeroForOne with
  | true => cases i with
    | token0 => rfl
    | token1 => rfl
  | false => cases i with
    | token0 => rfl
    | token1 => rfl

theorem Accrued.moved (h : Accrued p s s' step) (i : Token) :
    s'.moved p i = s.moved p i +
      if p.tokenIn = i then (step.amountIn + step.feeAmount : ℤ) else -(step.amountOut : ℤ) := by
  rw [SwapState.moved_eq, SwapState.moved_eq, h.totalIn, h.totalOut]
  by_cases hi : p.tokenIn = i
  · simp only [if_pos hi]
  · simp only [if_neg hi]
    push_cast
    ring

/-- A step moves what its event will report, which covers what the positions hold more
and their shares of its fee. -/
theorem swapStep_funds (hs : Swapping p s) (hbook : Bookkeeping p.pk (s.pool p.pk))
    (hok : swapStep p s = .ok s') (i : Token) :
    ∃ r, s'.steps = s.steps ++ [r] ∧
      V3.holdings (s.pool p.pk).weight s'.sqrtPrice i +
          ((∑ k : PositionKey, (s.pool p.pk).weight k *
            (growthIn k.lower k.upper i [r] : ℕ) : ℤ) : ℚ) / 2 ^ 128 + s.moved p i ≤
        V3.holdings (s.pool p.pk).weight s.sqrtPrice i + s'.moved p i := by
  obtain ⟨step, growth, hstepped, hmoved, hprice, -, hsettled⟩ :=
    swapStep_spec hs.priced hs.withinLimit hok
  obtain ⟨step', growth', hstepped', haccrued⟩ := swapStep_accrued hok
  obtain ⟨rfl, rfl⟩ := hstepped.unique hstepped'
  refine ⟨_, hsettled.steps, ?_⟩
  have hshares := hstepped.shares hmoved hbook i
  generalize (∑ k : PositionKey, (s.pool p.pk).weight k *
    ((growthIn k.lower k.upper i [stepRecord p s step' growth'] : ℕ) : ℤ)) = share at hshares ⊢
  have hshare : (share : ℚ) / 2 ^ 128 ≤ if p.tokenIn = i then (step'.feeAmount : ℚ) else 0 := by
    rw [div_le_iff₀ (by positivity)]
    calc (share : ℚ) ≤ ((2 ^ 128 * if p.tokenIn = i then step'.feeAmount else 0 : ℤ) : ℚ) := by
          exact_mod_cast hshares
      _ = (if p.tokenIn = i then (step'.feeAmount : ℚ) else 0) * 2 ^ 128 := by
          push_cast
          ring
  have hfunds := Moved.funds hs hmoved i
  rw [haccrued.moved, hprice, hstepped.holdings hs hmoved hbook i]
  push_cast at hfunds ⊢
  linarith

end Moves

/-- A swap moves what its event reports, which covers what the positions hold more and
their shares of its fees. -/
theorem swapLoop_funds {p : SwapParams} {db : Storage} {amountSpecified : ℤ}
    {fuel fuel' : ℕ} {s : SwapState} (hbook : Bookkeeping p.pk (db.view p.pk))
    (hbound : totalWeight (db.view p.pk).weight < 2 ^ 255)
    (hs : Swapping p (swapInit db p.pk amountSpecified))
    (hloop : swapLoop p fuel (swapInit db p.pk amountSpecified) = .ok (s, fuel')) (i : Token) :
    holdings (db.view p.pk).weight s.sqrtPrice i +
        ((∑ k : PositionKey, (db.view p.pk).weight k *
          (growthIn k.lower k.upper i s.steps : ℕ) : ℤ) : ℚ) / 2 ^ 128 ≤
      holdings (db.view p.pk).weight (db.view p.pk).sqrtPrice i + s.moved p i := by
  have hkeep : ∀ s s', Swapping p s →
      (Bookkeeping p.pk (s.pool p.pk) ∧ (s.pool p.pk).position = (db.view p.pk).position ∧
        holdings (db.view p.pk).weight s.sqrtPrice i +
            ((∑ k : PositionKey, (db.view p.pk).weight k *
              (growthIn k.lower k.upper i s.steps : ℕ) : ℤ) : ℚ) / 2 ^ 128 ≤
          holdings (db.view p.pk).weight (db.view p.pk).sqrtPrice i + s.moved p i) →
      swapStep p s = .ok s' →
      Bookkeeping p.pk (s'.pool p.pk) ∧ (s'.pool p.pk).position = (db.view p.pk).position ∧
        holdings (db.view p.pk).weight s'.sqrtPrice i +
            ((∑ k : PositionKey, (db.view p.pk).weight k *
              (growthIn k.lower k.upper i s'.steps : ℕ) : ℤ) : ℚ) / 2 ^ 128 ≤
          holdings (db.view p.pk).weight (db.view p.pk).sqrtPrice i + s'.moved p i := by
    rintro s s' hs ⟨hb, hpos, hle⟩ hstep
    have hweight : (s.pool p.pk).weight = (db.view p.pk).weight := Pool.weight_congr hpos
    obtain ⟨r, hsteps, hfunds⟩ := swapStep_funds hs hb hstep i
    have hsmall : totalWeight (s.pool p.pk).weight < 2 ^ 255 := hweight.symm ▸ hbound
    have hb' : Bookkeeping p.pk (s'.pool p.pk) := hb.swapStep hs hsmall hstep
    have hpos' : (s'.pool p.pk).position = (db.view p.pk).position :=
      (swapStep_frame hstep).2.1.trans hpos
    refine ⟨hb', hpos', ?_⟩
    rw [hweight] at hfunds
    have hsum : ∑ k : PositionKey, (db.view p.pk).weight k *
        ((growthIn k.lower k.upper i s'.steps : ℕ) : ℤ) =
        ∑ k : PositionKey, (db.view p.pk).weight k *
            ((growthIn k.lower k.upper i s.steps : ℕ) : ℤ) +
          ∑ k : PositionKey, (db.view p.pk).weight k *
            ((growthIn k.lower k.upper i [r] : ℕ) : ℤ) := by
      rw [hsteps, ← Finset.sum_add_distrib]
      apply Finset.sum_congr rfl
      intro k _
      rw [growthIn_append, Nat.cast_add, mul_add]
    rw [hsum, Int.cast_add, add_div]
    linarith
  refine (swapLoop_invariant hkeep fuel hs ⟨hbook, rfl, ?_⟩ hloop).2.2.2
  have hsteps : (swapInit db p.pk amountSpecified).steps = [] := rfl
  have hprice : (swapInit db p.pk amountSpecified).sqrtPrice = (db.view p.pk).sqrtPrice := rfl
  have hmoved : (swapInit db p.pk amountSpecified).moved p i = 0 := by
    have hin : (swapInit db p.pk amountSpecified).totalIn = 0 := rfl
    have hout : (swapInit db p.pk amountSpecified).totalOut = 0 := rfl
    rw [SwapState.moved_eq, hin, hout]
    simp
  rw [hsteps, hprice, hmoved]
  simp

/-! ## The accounts of a pool -/

/-- What a call took in for a pool. -/
def Outcome.takenIn (pk : PoolKey) (i : Token) (out : Outcome) : ℕ :=
  match out.event with
  | some (.mint pool _ _ amounts) => if pool = pk then amounts i else 0
  | some (.swap pool _ amounts _ _ _) => if pool = pk then (amounts i).toNat else 0
  | _ => 0

/-- What a call paid out for a pool. -/
def Outcome.paidOut (pk : PoolKey) (i : Token) (out : Outcome) : ℕ :=
  match out.event with
  | some (.collect pool _ amounts) => if pool = pk then amounts i else 0
  | some (.swap pool _ amounts _ _ _) => if pool = pk then (-amounts i).toNat else 0
  | _ => 0

/-- What was ever taken in for a pool. -/
def takenIn (pk : PoolKey) (i : Token) (trace : List Outcome) : ℕ :=
  (trace.map (Outcome.takenIn pk i)).sum

/-- What was ever paid out for a pool. -/
def paidOut (pk : PoolKey) (i : Token) (trace : List Outcome) : ℕ :=
  (trace.map (Outcome.paidOut pk i)).sum

/-- What a pool owes its positions. -/
noncomputable def Pool.owed (P : Pool) (i : Token) : ℤ :=
  ∑ k : PositionKey, ((P.position k).tokensOwed i : ℤ)

section Accounts

variable {pk : PoolKey} {i : Token} {P P' : Pool} {out : Outcome} {trace : List Outcome}

theorem takenIn_cons : takenIn pk i (out :: trace) = out.takenIn pk i + takenIn pk i trace := by
  simp [takenIn]

theorem paidOut_cons : paidOut pk i (out :: trace) = out.paidOut pk i + paidOut pk i trace := by
  simp [paidOut]

theorem mintsOf_length_cons : (mintsOf pk (out :: trace)).length =
    (if (out.mintIn pk).isSome then 1 else 0) + (mintsOf pk trace).length := by
  unfold mintsOf
  rcases h : out.mintIn pk with _ | change
  · simp [h]
  · simp [h, Nat.add_comm]

theorem still_of_ne (h : ∀ ev, out.event = some ev → ev.pool ≠ pk) :
    out.takenIn pk i = 0 ∧ out.paidOut pk i = 0 ∧ out.mintIn pk = none := by
  unfold Outcome.takenIn Outcome.paidOut Outcome.mintIn
  rcases hev : out.event with _ | ev
  · simp
  · have hne := h ev hev
    cases ev <;> simp_all [Event.pool]

theorem owed_le_of_update {key : PositionKey} {q : Position} {d : ℤ}
    (hpos : P'.position = Function.update P.position key q)
    (hq : (q.tokensOwed i : ℤ) ≤ (P.position key).tokensOwed i + d) :
    P'.owed i ≤ P.owed i + d := by
  have hsum := sum_add_of_eq_off (f := fun k => ((P.position k).tokensOwed i : ℤ))
    (g := fun k => ((P'.position k).tokensOwed i : ℤ)) key (by
      intro k hk
      simp only [hpos, Function.update_of_ne hk])
  simp only [hpos, Function.update_self] at hsum
  unfold Pool.owed
  rw [hpos]
  linarith

theorem readBack_owed_le (q : Position) (i : Token) :
    (q.readBack.tokensOwed i : ℤ) ≤ q.tokensOwed i := by
  simp only [Position.readBack, wordToUint_uintWord]
  exact_mod_cast Nat.mod_le _ _

end Accounts

/-! ## Every run -/

/-- What a pool owes, what its positions hold and the shares they have earned are
covered by what it took in and did not pay out, and one unit for each mint. -/
def Funded (pk : PoolKey) (i : Token) (P : Pool) (trace : List Outcome) : Prop :=
  (P.owed i : ℚ) + holdings P.weight P.sqrtPrice i + (pending pk i P trace : ℚ) / 2 ^ 128 +
      paidOut pk i trace ≤
    takenIn pk i trace + (mintsOf pk trace).length

section Changes

variable {pk : PoolKey} {P P' : Pool} {key : PositionKey} {fees amounts : Token → ℕ}

theorem Modify.floor {d : ℤ} (h : Modify pk.tickSpacing P key d fees amounts P')
    (hrange : ValidRange pk key) (i : Token) :
    (amounts i : ℚ) ≤ d.natAbs * key.unit P.sqrtPrice i ∧
      d.natAbs * key.unit P.sqrtPrice i < amounts i + 1 := by
  have hfloor : (amounts i : ℤ) = ⌊(d.natAbs : ℚ) * key.unit P.sqrtPrice i⌋ :=
    roundedDown_of_amounts hrange.lower_lt h.amounts_eq i
  have hle := Int.floor_le ((d.natAbs : ℚ) * key.unit P.sqrtPrice i)
  have hlt := Int.lt_floor_add_one ((d.natAbs : ℚ) * key.unit P.sqrtPrice i)
  rw [← hfloor] at hle hlt
  exact ⟨by exact_mod_cast hle, by exact_mod_cast hlt⟩

theorem Modify.owed_le {d : ℤ} (h : Modify pk.tickSpacing P key d fees amounts P')
    (i : Token) : P'.owed i ≤ P.owed i + fees i := by
  rw [h.result]
  refine owed_le_of_update rfl ((readBack_owed_le _ i).trans ?_)
  push_cast
  exact le_rfl

end Changes

theorem share_div_le {x y : ℤ} {n : ℕ} (h : x + 2 ^ 128 * n ≤ y) :
    (x : ℚ) / 2 ^ 128 + n ≤ (y : ℚ) / 2 ^ 128 := by
  have hcast : ((x + 2 ^ 128 * n : ℤ) : ℚ) ≤ (y : ℤ) := by exact_mod_cast h
  rw [le_div_iff₀ (by positivity), add_mul, div_mul_cancel₀ _ (by positivity)]
  push_cast at hcast
  linarith

section Steps

variable {pk : PoolKey} {i : Token} {P P' : Pool} {key : PositionKey} {amounts : Token → ℕ}
  {trace : List Outcome} {out : Outcome}

/-- A call keeps a pool funded when what it adds to the debts of the pool is covered by what it
takes in, and a unit if it mints. -/
theorem Funded.cons (h : Funded pk i P trace)
    (hmoves : (P'.owed i : ℚ) + holdings P'.weight P'.sqrtPrice i +
        (pending pk i P' (out :: trace) : ℚ) / 2 ^ 128 + out.paidOut pk i ≤
      P.owed i + holdings P.weight P.sqrtPrice i + (pending pk i P trace : ℚ) / 2 ^ 128 +
        out.takenIn pk i + (if (out.mintIn pk).isSome then 1 else 0 : ℕ)) :
    Funded pk i P' (out :: trace) := by
  unfold Funded at h ⊢
  rw [takenIn_cons, paidOut_cons, mintsOf_length_cons]
  push_cast at hmoves ⊢
  linarith

theorem Funded.idle (h : Funded pk i P trace)
    (hevent : ∀ ev, out.event = some ev → ev.pool ≠ pk) : Funded pk i P (out :: trace) := by
  obtain ⟨hsteps, htouches, -⟩ := silent_of_ne (i := i) hevent
  obtain ⟨htaken, hpaid, hmint⟩ := still_of_ne (i := i) hevent
  refine h.cons ?_
  rw [pending_of_silent rfl hsteps htouches, htaken, hpaid, hmint]
  simp

/-- No position has liquidity before a pool has a price, so the price does not matter. -/
theorem Funded.init {price : ℕ} {tick : ℤ} (h : Funded pk i P trace)
    (hzero : P.weight = fun _ => 0) (hevent : out.event = some (.init pk tick price)) :
    Funded pk i { P with sqrtPrice := price, tick := tick } (out :: trace) := by
  have hsteps : out.stepsIn pk = [] := by simp [Outcome.stepsIn, Outcome.swapIn, hevent]
  have htouches : ∀ k, out.touches pk k = false := by simp [Outcome.touches, hevent]
  have hpending : pending pk i { P with sqrtPrice := price, tick := tick } (out :: trace) =
      pending pk i P trace := pending_of_silent rfl hsteps htouches
  have hempty : ∀ x, holdings P.weight x i = 0 := by
    intro x
    simp [holdings, hzero]
  have hprice : holdings (Pool.weight { P with sqrtPrice := price, tick := tick }) price i =
      holdings P.weight P.sqrtPrice i := by
    rw [hempty]
    exact hempty price
  have howed : Pool.owed { P with sqrtPrice := price, tick := tick } i = P.owed i := rfl
  have htaken : out.takenIn pk i = 0 := by simp [Outcome.takenIn, hevent]
  have hpaid : out.paidOut pk i = 0 := by simp [Outcome.paidOut, hevent]
  have hmint : out.mintIn pk = none := by simp [Outcome.mintIn, hevent]
  refine h.cons ?_
  rw [hpending, hprice, howed, htaken, hpaid, hmint]
  simp

theorem Funded.mint {amount : ℕ} (h : Funded pk i P trace) (htracked : Tracked pk P trace)
    (hbook : Bookkeeping pk P) (hbound : totalWeight P.weight + amount < 2 ^ 255)
    (hrange : ValidRange pk key)
    (hmodify : Modify pk.tickSpacing P key amount out.feesCredited amounts P')
    (hevent : out.event = some (.mint pk key amount amounts)) :
    Funded pk i P' (out :: trace) := by
  obtain ⟨-, hweight⟩ := hbook.modify hrange hmodify.liquidity_nonneg (by omega)
    out.feesCredited
  rw [← hmodify.result] at hweight
  have hsteps : out.stepsIn pk = [] := by simp [Outcome.stepsIn, Outcome.swapIn, hevent]
  have hpending := share_div_le (hmodify.pending_le (i := i) hbook htracked hrange hweight
    hsteps fun k => by simp [Outcome.touches, hevent])
  have howed : (P'.owed i : ℚ) ≤ P.owed i + out.feesCredited i := by
    exact_mod_cast hmodify.owed_le i
  obtain ⟨-, hfloor⟩ := hmodify.floor hrange i
  have hprice : P'.sqrtPrice = P.sqrtPrice := by rw [hmodify.result]; rfl
  have htaken : out.takenIn pk i = amounts i := by simp [Outcome.takenIn, hevent]
  have hpaid : out.paidOut pk i = 0 := by simp [Outcome.paidOut, hevent]
  have hmint : (out.mintIn pk).isSome = true := by simp [Outcome.mintIn, hevent]
  refine h.cons ?_
  rw [hweight, hprice, holdings_addWeight, htaken, hpaid, if_pos hmint]
  rw [Int.natAbs_natCast] at hfloor
  push_cast
  linarith

theorem Funded.burn {P1 : Pool} {amount : ℕ} (h : Funded pk i P trace)
    (htracked : Tracked pk P trace) (hbook : Bookkeeping pk P)
    (hbound : totalWeight P.weight < 2 ^ 255) (hrange : ValidRange pk key)
    (hmodify : Modify pk.tickSpacing P key (-amount) out.feesCredited amounts P1)
    (hevent : out.event = some (.burn pk key amount amounts)) :
    Funded pk i (P1.credit key amounts) (out :: trace) := by
  obtain ⟨hbook1, hweight⟩ := hbook.modify hrange hmodify.liquidity_nonneg (by omega)
    out.feesCredited
  rw [← hmodify.result] at hbook1 hweight
  have hsmall1 : totalWeight P1.weight < 2 ^ 255 := by
    rw [hweight, totalWeight_addWeight]
    omega
  have hcredit : (P1.credit key amounts).weight = P1.weight :=
    (hbook1.setOwed hsmall1 key _).2
  have hsteps : out.stepsIn pk = [] := by simp [Outcome.stepsIn, Outcome.swapIn, hevent]
  have hpending := share_div_le (hmodify.pending_le (i := i) hbook htracked hrange
    (hcredit.trans hweight) hsteps fun k => by simp [Outcome.touches, hevent])
  have hcredited : (P1.credit key amounts).owed i ≤ P1.owed i + amounts i := by
    refine owed_le_of_update rfl ((readBack_owed_le _ i).trans ?_)
    push_cast
    exact le_rfl
  have howed : ((P1.credit key amounts).owed i : ℚ) ≤
      P.owed i + out.feesCredited i + amounts i := by
    have hown := hmodify.owed_le i
    exact_mod_cast hcredited.trans (by omega)
  obtain ⟨hfloor, -⟩ := hmodify.floor hrange i
  have hprice : (P1.credit key amounts).sqrtPrice = P.sqrtPrice := by
    show P1.sqrtPrice = P.sqrtPrice
    rw [hmodify.result]
    rfl
  have htaken : out.takenIn pk i = 0 := by simp [Outcome.takenIn, hevent]
  have hpaid : out.paidOut pk i = 0 := by simp [Outcome.paidOut, hevent]
  have hmint : out.mintIn pk = none := by simp [Outcome.mintIn, hevent]
  refine h.cons ?_
  rw [hcredit, hweight, hprice, holdings_addWeight, htaken, hpaid, hmint]
  rw [Int.natAbs_neg, Int.natAbs_natCast] at hfloor
  push_cast
  simp only [Option.isSome_none, Bool.false_eq_true, if_false]
  linarith

theorem Funded.collect (h : Funded pk i P trace) (hbook : Bookkeeping pk P)
    (hbound : totalWeight P.weight < 2 ^ 255)
    (hle : ∀ i, amounts i ≤ (P.position key).tokensOwed i)
    (hevent : out.event = some (.collect pk key amounts)) :
    Funded pk i (P.collect key amounts) (out :: trace) := by
  have hcollect : (P.collect key amounts).weight = P.weight :=
    (hbook.setOwed hbound key _).2
  have hsteps : out.stepsIn pk = [] := by simp [Outcome.stepsIn, Outcome.swapIn, hevent]
  have hpending : pending pk i (P.collect key amounts) (out :: trace) = pending pk i P trace :=
    pending_of_silent hcollect hsteps fun k => by simp [Outcome.touches, hevent]
  have howed : ((P.collect key amounts).owed i : ℚ) ≤ P.owed i - amounts i := by
    have hall : (P.collect key amounts).owed i ≤ P.owed i + -(amounts i : ℤ) := by
      refine owed_le_of_update rfl ((readBack_owed_le _ i).trans ?_)
      have hcovered := hle i
      simp only
      omega
    exact_mod_cast hall
  have hprice : (P.collect key amounts).sqrtPrice = P.sqrtPrice := rfl
  have htaken : out.takenIn pk i = 0 := by simp [Outcome.takenIn, hevent]
  have hpaid : out.paidOut pk i = amounts i := by simp [Outcome.paidOut, hevent]
  have hmint : out.mintIn pk = none := by simp [Outcome.mintIn, hevent]
  refine h.cons ?_
  rw [hcollect, hprice, hpending, htaken, hpaid, hmint]
  push_cast
  simp only [Option.isSome_none, Bool.false_eq_true, if_false]
  linarith

theorem Funded.swap {db : Storage} {p : SwapParams} {sender : Address} {amountSpecified : ℤ}
    {fuel fuel' : ℕ} {s : SwapState} (h : Funded p.pk i (db.view p.pk) trace)
    (hbook : Bookkeeping p.pk (db.view p.pk))
    (hbound : totalWeight (db.view p.pk).weight < 2 ^ 255)
    (hpriced : Priced (db.view p.pk).sqrtPrice (db.view p.pk).tick)
    (hlimit : WithinLimit p (db.view p.pk).sqrtPrice)
    (hloop : swapLoop p fuel (swapInit db p.pk amountSpecified) = .ok (s, fuel'))
    (hevent : out.event = some (.swap p.pk sender
      (swapAmounts p.zeroForOne s.totalIn s.totalOut) s.sqrtPrice s.liquidity s.tick))
    (hrecords : out.steps = s.steps) :
    Funded p.pk i ((persistSwap s p.pk).view p.pk) (out :: trace) := by
  obtain ⟨-, hpos, hpersist⟩ := hbook.swapLoop hbound hpriced hlimit hloop
  have hfunds := swapLoop_funds hbook hbound ⟨hpriced, hlimit⟩ hloop i
  have hsteps : out.stepsIn p.pk = s.steps := by
    simp [Outcome.stepsIn, Outcome.swapIn, hevent, hrecords]
  have hpending : pending p.pk i ((persistSwap s p.pk).view p.pk) (out :: trace) = _ :=
    pending_of_swap hpersist hpos hsteps fun k => by simp [Outcome.touches, hevent]
  have howed : ((persistSwap s p.pk).view p.pk).owed i = (db.view p.pk).owed i := by
    rw [hpersist, Pool.owed, hpos]
    rfl
  have hprice : ((persistSwap s p.pk).view p.pk).sqrtPrice = s.sqrtPrice := by
    rw [hpersist]
    rfl
  have hweight : ((persistSwap s p.pk).view p.pk).weight = (db.view p.pk).weight := by
    rw [hpersist]
    exact Pool.weight_congr hpos
  have hmint : out.mintIn p.pk = none := by simp [Outcome.mintIn, hevent]
  have hmoved : (s.moved p i : ℚ) = out.takenIn p.pk i - out.paidOut p.pk i := by
    have htaken : out.takenIn p.pk i = (s.moved p i).toNat := by
      simp [Outcome.takenIn, hevent, SwapState.moved]
    have hpaid : out.paidOut p.pk i = (-s.moved p i).toNat := by
      simp [Outcome.paidOut, hevent, SwapState.moved]
    have hsplit : s.moved p i = ((s.moved p i).toNat : ℤ) - ((-s.moved p i).toNat : ℤ) := by
      omega
    rw [htaken, hpaid]
    exact_mod_cast hsplit
  refine h.cons ?_
  rw [howed, hprice, hweight, hpending, hmint, Int.cast_add, add_div]
  push_cast at hfunds ⊢
  simp only [Option.isSome_none, Bool.false_eq_true, if_false]
  linarith

/-- One call keeps a pool funded. -/
theorem Funded.step (h : Funded pk i P trace) (htracked : Tracked pk P trace)
    (hsound : Sound pk P trace) (hbound : minted pk (out :: trace) < 2 ^ 255)
    (hstep : PoolStep pk P P' out) : Funded pk i P' (out :: trace) := by
  rw [minted_cons] at hbound
  have htotal := hsound.total_le
  have hsmall : totalWeight P.weight < 2 ^ 255 := by omega
  cases hstep with
  | idle hevent => exact h.idle hevent
  | init hnew _ _ hevent _ _ => exact h.init (funext (hsound.fresh hnew)) hevent
  | @mint _ _ key amount amounts _ hrange _ _ hmodify hevent _ =>
      have hminted : out.minted pk = amount := by simp [Outcome.minted, hevent]
      exact h.mint htracked hsound.book (by omega) hrange hmodify hevent
  | burn _ hrange _ _ hmodify hevent _ =>
      exact h.burn htracked hsound.book hsmall hrange hmodify hevent
  | collect hle hevent _ _ => exact h.collect hsound.book hsmall hle hevent
  | swap hpk hview hinit hlimit hloop hevent hrecords _ =>
      subst hpk
      subst hview
      exact h.swap hsound.book hsmall (hsound.priced hinit) hlimit hloop hevent hrecords

end Steps

/-- Over every run, what a pool has paid out, what it owes its positions and what these
would be credited if they were burned at once are covered by what it took in and one
unit for each of its mints.  So no pool can draw on another by more than that. -/
theorem pool_solvent {w : World} (hw : Genesis w) (actions : List Action) (pk : PoolKey)
    (hbound : minted pk (runFrom w actions).2 < 2 ^ 255) (i : Token) :
    (paidOut pk i (runFrom w actions).2 : ℚ) +
        ∑ k, ((loadPosition (runFrom w actions).1.storage pk k).tokensOwed i +
          (loadPosition (runFrom w actions).1.storage pk k).liquidity *
            k.unit (loadSqrtPrice (runFrom w actions).1.storage pk) i) ≤
      takenIn pk i (runFrom w actions).2 + (mintsOf pk (runFrom w actions).2).length := by
  obtain ⟨-, -, hfunded⟩ := sound_invariant pk
    (I := fun P trace => Tracked pk P trace ∧ Funded pk i P trace) (by
      refine ⟨fun k hk => absurd rfl hk, ?_⟩
      have hzero : Pool.empty.weight = fun _ => 0 := rfl
      have howed : Pool.empty.owed i = 0 := by
        apply Finset.sum_eq_zero
        intro k _
        rfl
      simp [Funded, holdings, pending, hzero, howed, paidOut, takenIn, mintsOf])
    (by
      rintro P P' out trace hsound hlt ⟨htracked, hfunded⟩ hstep
      exact ⟨htracked.step hsound hlt hstep, hfunded.step htracked hsound hlt hstep⟩)
    hw actions hbound
  have hpending : (0 : ℚ) ≤ pending pk i ((runFrom w actions).1.storage.view pk)
      (runFrom w actions).2 := by
    have hsum : 0 ≤ pending pk i ((runFrom w actions).1.storage.view pk)
        (runFrom w actions).2 := by
      apply Finset.sum_nonneg
      intro k _
      exact mul_nonneg (Pool.weight_nonneg _ k) (Int.natCast_nonneg _)
    exact_mod_cast hsum
  have hshare := div_nonneg hpending (show (0 : ℚ) ≤ 2 ^ 128 by positivity)
  unfold Funded Pool.owed holdings at hfunded
  push_cast at hfunded
  have hcover : (∑ k, ((loadPosition (runFrom w actions).1.storage pk k).tokensOwed i : ℚ)) +
      (∑ k, ((loadPosition (runFrom w actions).1.storage pk k).liquidity : ℚ) *
        k.unit (loadSqrtPrice (runFrom w actions).1.storage pk) i) +
      (pending pk i ((runFrom w actions).1.storage.view pk) (runFrom w actions).2 : ℚ) /
        2 ^ 128 + paidOut pk i (runFrom w actions).2 ≤
      takenIn pk i (runFrom w actions).2 + (mintsOf pk (runFrom w actions).2).length := hfunded
  rw [Finset.sum_add_distrib]
  linarith

theorem pool_solvent_stopThenDust :
    (paidOut sixtyPool .token0 (runFrom fundedWorld stopThenDust).2 : ℚ) +
        ∑ k, ((loadPosition (runFrom fundedWorld stopThenDust).1.storage sixtyPool
            k).tokensOwed .token0 +
          (loadPosition (runFrom fundedWorld stopThenDust).1.storage sixtyPool k).liquidity *
            k.unit (loadSqrtPrice (runFrom fundedWorld stopThenDust).1.storage sixtyPool)
              .token0) ≤
      takenIn sixtyPool .token0 (runFrom fundedWorld stopThenDust).2 +
        (mintsOf sixtyPool (runFrom fundedWorld stopThenDust).2).length :=
  pool_solvent fundedWorld_genesis stopThenDust sixtyPool minted_stopThenDust .token0

end LuxPrecompile.V3
