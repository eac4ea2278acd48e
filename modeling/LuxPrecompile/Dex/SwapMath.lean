import LuxPrecompile.Dex.SqrtPriceMath

/-!
# One step of a swap

`ComputeSwapStep` of `dex/swap_math.go`: how far the price moves toward a
target inside one range of constant liquidity, what enters, what leaves and
what fee is charged.  A negative `amountRemaining` is an exact input, a
positive one an exact output.  The results below are the rounding facts every
property of the pool rests on: the price stays between its start and the
target, the input covers the exact amount, and the output never exceeds it.
-/

namespace LuxPrecompile.Dex

/-- `SwapStepResult`.  The fee is a signed difference in the source. -/
structure SwapStepResult where
  sqrtRatioNextX96 : ℕ
  amountIn : ℕ
  amountOut : ℕ
  feeAmount : ℤ
deriving DecidableEq, Repr

/-- `feeDenominator`: fees are in millionths. -/
def feeDenominator : ℕ := 1000000

/-- The input between two prices, rounded up. -/
def amountInBetween (zeroForOne : Bool) (current next liquidity : ℕ) : Option ℕ :=
  if zeroForOne then getAmount0Delta next current liquidity true
  else getAmount1Delta current next liquidity true

/-- The output between two prices, rounded down. -/
def amountOutBetween (zeroForOne : Bool) (current next liquidity : ℕ) : Option ℕ :=
  if zeroForOne then getAmount1Delta next current liquidity false
  else getAmount0Delta current next liquidity false

/-- A failed next-price computation clamps to the target. -/
def clampToTarget (target : ℕ) : Except NextPriceError ℕ → ℕ
  | .ok price => price
  | .error _ => target

/-- The exact-input half of the step: the price reached, and the input the
target would need. -/
def exactInputNext (zeroForOne : Bool) (current target liquidity remaining
    feePips : ℕ) : Option (ℕ × ℕ) := do
  let remainingLessFee ← mulDiv remaining (feeDenominator - feePips) feeDenominator
  let amountIn ← amountInBetween zeroForOne current target liquidity
  if amountIn ≤ remainingLessFee then some (target, amountIn)
  else
    let next ← getNextSqrtPriceFromInput current liquidity remainingLessFee zeroForOne
    some (clampToTarget target next, amountIn)

/-- The exact-output half of the step: the price reached, and the output the
target would give. -/
def exactOutputNext (zeroForOne : Bool) (current target liquidity remaining : ℕ) :
    Option (ℕ × ℕ) := do
  let amountOut ← amountOutBetween zeroForOne current target liquidity
  if amountOut ≤ remaining then some (target, amountOut)
  else
    let next ← getNextSqrtPriceFromOutput current liquidity remaining zeroForOne
    some (clampToTarget target next, amountOut)

/-- The output of an exact-output step before the cap: the one computed for the
target when the step reached it. -/
def exactOutputAmount (zeroForOne : Bool) (current target next liquidity
    amountOutToTarget : ℕ) : Option ℕ :=
  if next = target then some amountOutToTarget
  else amountOutBetween zeroForOne current next liquidity

/-- The fee on an input whose step reached its target. -/
def feeOnInput (amountIn feePips : ℕ) : Option ℕ :=
  mulDivRoundingUp amountIn feePips (feeDenominator - feePips)

/-- `ComputeSwapStep`, for a fee below `feeDenominator`; `none` is a panic of
the arithmetic. -/
def computeSwapStep (sqrtRatioCurrentX96 sqrtRatioTargetX96 liquidity : ℕ)
    (amountRemaining : ℤ) (feePips : ℕ) : Option SwapStepResult :=
  let zeroForOne := decide (sqrtRatioTargetX96 ≤ sqrtRatioCurrentX96)
  let remaining := amountRemaining.natAbs
  if amountRemaining < 0 then do
    let (next, amountInToTarget) ← exactInputNext zeroForOne
      sqrtRatioCurrentX96 sqrtRatioTargetX96 liquidity remaining feePips
    if next = sqrtRatioTargetX96 then
      let amountOut ← amountOutBetween zeroForOne sqrtRatioCurrentX96 next liquidity
      let feeAmount ← feeOnInput amountInToTarget feePips
      some ⟨next, amountInToTarget, amountOut, feeAmount⟩
    else
      let amountIn ← amountInBetween zeroForOne sqrtRatioCurrentX96 next liquidity
      let amountOut ← amountOutBetween zeroForOne sqrtRatioCurrentX96 next liquidity
      some ⟨next, amountIn, amountOut, (remaining : ℤ) - amountIn⟩
  else do
    let (next, amountOutToTarget) ← exactOutputNext zeroForOne
      sqrtRatioCurrentX96 sqrtRatioTargetX96 liquidity remaining
    let amountIn ← amountInBetween zeroForOne sqrtRatioCurrentX96 next liquidity
    let amountOut ← exactOutputAmount zeroForOne sqrtRatioCurrentX96
      sqrtRatioTargetX96 next liquidity amountOutToTarget
    let feeAmount ← feeOnInput amountIn feePips
    some ⟨next, amountIn, min amountOut remaining, feeAmount⟩

/-! ## The price reached -/

theorem mulDiv_sub_le {x d f y : ℕ} (h : mulDiv x (d - f) d = some y) : y ≤ x := by
  obtain ⟨-, rfl, -⟩ := mulDiv_eq_some h
  apply Nat.div_le_of_le_mul
  rw [Nat.mul_comm]
  exact Nat.mul_le_mul_right x (Nat.sub_le _ _)

theorem exactInputNext_down {P T L x fee : ℕ} {r : ℕ × ℕ} (hTP : T ≤ P)
    (h : exactInputNext true P T L x fee = some r) :
    T ≤ r.1 ∧ r.1 ≤ P ∧ (r.1 ≠ T → L * 2 ^ 96 * (P - r.1) ≤ x * (r.1 * P)) ∧
      amountInBetween true P T L = some r.2 := by
  simp only [exactInputNext, Option.bind_eq_bind, Option.bind_eq_some_iff] at h
  obtain ⟨lessFee, hfee, amountIn, hin, h⟩ := h
  have hless := mulDiv_sub_le hfee
  split_ifs at h with hreach
  · simp only [Option.some.injEq] at h
    subst h
    exact ⟨le_rfl, hTP, fun hne => absurd rfl hne, hin⟩
  · simp only [Option.bind_eq_some_iff] at h
    obtain ⟨next, hnext, h⟩ := h
    simp only [Option.some.injEq] at h
    subst h
    simp only [getNextSqrtPriceFromInput, if_true] at hnext
    have hmin := (getAmount0Delta_up_spec hTP (Or.inl hin)).2
    have hshort := mt (hmin _).mpr hreach
    cases next with
    | error e => exact ⟨le_rfl, hTP, fun hne => absurd rfl hne, hin⟩
    | ok p =>
        obtain ⟨h1, h2, h3⟩ := nextPrice_amount0_add hTP (not_le.mp hshort) hnext
        simp only [clampToTarget]
        have hscaled := Nat.mul_le_mul_right (p * P) hless
        exact ⟨h1, h2, fun _ => h3.trans hscaled, hin⟩

theorem exactInputNext_up {P T L x fee : ℕ} {r : ℕ × ℕ} (hPT : P ≤ T)
    (h : exactInputNext false P T L x fee = some r) :
    P ≤ r.1 ∧ r.1 ≤ T ∧ (r.1 ≠ T → L * (r.1 - P) ≤ x * 2 ^ 96) ∧
      amountInBetween false P T L = some r.2 := by
  simp only [exactInputNext, Option.bind_eq_bind, Option.bind_eq_some_iff] at h
  obtain ⟨lessFee, hfee, amountIn, hin, h⟩ := h
  have hless := mulDiv_sub_le hfee
  split_ifs at h with hreach
  · simp only [Option.some.injEq] at h
    subst h
    exact ⟨hPT, le_rfl, fun hne => absurd rfl hne, hin⟩
  · simp only [Option.bind_eq_some_iff] at h
    obtain ⟨next, hnext, h⟩ := h
    simp only [Option.some.injEq] at h
    subst h
    simp only [getNextSqrtPriceFromInput, Bool.false_eq_true, if_false] at hnext
    have hmin := getAmount1Delta_up_spec hPT (Or.inl hin)
    have hshort := mt (hmin _).mpr hreach
    have hL : 0 < L := by
      rcases Nat.eq_zero_or_pos L with rfl | hL
      · omega
      · exact hL
    cases next with
    | error e => exact ⟨hPT, le_rfl, fun hne => absurd rfl hne, hin⟩
    | ok p =>
        obtain ⟨h1, h2, h3⟩ := nextPrice_amount1_add hPT hL (not_le.mp hshort) hnext
        simp only [clampToTarget]
        have hscaled := Nat.mul_le_mul_right (2 ^ 96) hless
        exact ⟨h1, h2, fun _ => h3.trans hscaled, hin⟩

theorem exactOutputNext_down {P T L x : ℕ} {r : ℕ × ℕ} (hT : 0 < T) (hTP : T ≤ P)
    (h : exactOutputNext true P T L x = some r) :
    T ≤ r.1 ∧ r.1 ≤ P ∧ amountOutBetween true P T L = some r.2 := by
  simp only [exactOutputNext, Option.bind_eq_bind, Option.bind_eq_some_iff] at h
  obtain ⟨amountOut, hout, h⟩ := h
  split_ifs at h with hreach
  · simp only [Option.some.injEq] at h
    subst h
    exact ⟨le_rfl, hTP, hout⟩
  · simp only [Option.bind_eq_some_iff] at h
    obtain ⟨next, hnext, h⟩ := h
    simp only [Option.some.injEq] at h
    subst h
    simp only [getNextSqrtPriceFromOutput, if_true] at hnext
    have hmax := getAmount1Delta_down_spec hTP (Or.inl hout)
    have hsmall := (hmax x).mp (by omega)
    have hL : 0 < L := by
      rcases Nat.eq_zero_or_pos L with rfl | hL
      · have := (hmax amountOut).mp le_rfl
        omega
      · exact hL
    obtain ⟨p, rfl, h1, h2⟩ := nextPrice_amount1_remove hT hTP hL hsmall hnext
    exact ⟨h1, h2, hout⟩

theorem exactOutputNext_up {P T L x : ℕ} {r : ℕ × ℕ} (hP : 0 < P) (hPT : P ≤ T)
    (h : exactOutputNext false P T L x = some r) :
    P ≤ r.1 ∧ r.1 ≤ T ∧ amountOutBetween false P T L = some r.2 := by
  simp only [exactOutputNext, Option.bind_eq_bind, Option.bind_eq_some_iff] at h
  obtain ⟨amountOut, hout, h⟩ := h
  split_ifs at h with hreach
  · simp only [Option.some.injEq] at h
    subst h
    exact ⟨hPT, le_rfl, hout⟩
  · simp only [Option.bind_eq_some_iff] at h
    obtain ⟨next, hnext, h⟩ := h
    simp only [Option.some.injEq] at h
    subst h
    simp only [getNextSqrtPriceFromOutput, Bool.false_eq_true, if_false] at hnext
    obtain ⟨hpos, hmax⟩ := getAmount0Delta_down_spec hPT (Or.inl hout)
    have hsmall := (hmax x).mp (by omega)
    have hL : 0 < L := by
      rcases Nat.eq_zero_or_pos L with rfl | hL
      · have := (hmax amountOut).mp le_rfl
        have : 0 < amountOut * (P * T) := Nat.mul_pos (by omega) hpos
        omega
      · exact hL
    obtain ⟨p, rfl, h1, h2⟩ := nextPrice_amount0_remove hP hPT hL hsmall hnext
    exact ⟨h1, h2, hout⟩

/-! ## The whole step -/

/-- What a step that moved the price from `P` down to `s.sqrtRatioNextX96`
guarantees. -/
structure StepDown (P T L : ℕ) (s : SwapStepResult) : Prop where
  target_le : T ≤ s.sqrtRatioNextX96
  next_le : s.sqrtRatioNextX96 ≤ P
  covers : L * 2 ^ 96 * (P - s.sqrtRatioNextX96) ≤
    s.amountIn * (s.sqrtRatioNextX96 * P)
  affordable : s.amountOut * 2 ^ 96 ≤ L * (P - s.sqrtRatioNextX96)
  fee_nonneg : 0 ≤ s.feeAmount

/-- What a step that moved the price from `P` up to `s.sqrtRatioNextX96`
guarantees. -/
structure StepUp (P T L : ℕ) (s : SwapStepResult) : Prop where
  le_next : P ≤ s.sqrtRatioNextX96
  next_le : s.sqrtRatioNextX96 ≤ T
  covers : L * (s.sqrtRatioNextX96 - P) ≤ s.amountIn * 2 ^ 96
  affordable : s.amountOut * (P * s.sqrtRatioNextX96) ≤
    L * 2 ^ 96 * (s.sqrtRatioNextX96 - P)
  fee_nonneg : 0 ≤ s.feeAmount

theorem computeSwapStep_down {P T L fee : ℕ} {r : ℤ} {s : SwapStepResult}
    (hT : 0 < T) (hTP : T ≤ P) (h : computeSwapStep P T L r fee = some s) :
    StepDown P T L s := by
  simp only [computeSwapStep, hTP, decide_true] at h
  split_ifs at h with hr
  · simp only [Option.bind_eq_bind, Option.bind_eq_some_iff] at h
    obtain ⟨⟨next, amountIn⟩, hnext, h⟩ := h
    obtain ⟨h1, h2, h3, hin⟩ := exactInputNext_down hTP hnext
    simp only at h h1 h2 h3 hin
    split_ifs at h with hreach
    · simp only [Option.bind_eq_some_iff] at h
      obtain ⟨amountOut, hout, feeAmount, hfee, h⟩ := h
      simp only [Option.some.injEq] at h
      subst h hreach
      refine ⟨h1, h2, ?_, ?_, Int.natCast_nonneg _⟩
      · exact ((getAmount0Delta_up_spec hTP (Or.inl hin)).2 _).mp le_rfl
      · exact (getAmount1Delta_down_spec hTP (Or.inl hout) _).mp le_rfl
    · simp only [Option.bind_eq_some_iff] at h
      obtain ⟨amountIn', hin', amountOut, hout, h⟩ := h
      simp only [Option.some.injEq] at h
      subst h
      have hmin := (getAmount0Delta_up_spec h2 (Or.inl hin')).2
      refine ⟨h1, h2, (hmin _).mp le_rfl, ?_, ?_⟩
      · exact (getAmount1Delta_down_spec h2 (Or.inl hout) _).mp le_rfl
      · have := (hmin _).mpr (h3 hreach)
        show 0 ≤ ((r.natAbs : ℕ) : ℤ) - (amountIn' : ℤ)
        omega
  · simp only [Option.bind_eq_bind, Option.bind_eq_some_iff] at h
    obtain ⟨⟨next, amountOut⟩, hnext, amountIn, hin, amountOut', hout', fee', hfee, h⟩ := h
    obtain ⟨h1, h2, hout⟩ := exactOutputNext_down hT hTP hnext
    simp only [Option.some.injEq] at h
    subst h
    have hgive : amountOutBetween true P next L = some amountOut' := by
      simp only [exactOutputAmount] at hout' hout
      split_ifs at hout' with hreach
      · simp only [Option.some.injEq] at hout'
        subst hreach hout'
        exact hout
      · exact hout'
    refine ⟨h1, h2, ?_, ?_, Int.natCast_nonneg _⟩
    · exact ((getAmount0Delta_up_spec h2 (Or.inl hin)).2 _).mp le_rfl
    · exact (getAmount1Delta_down_spec h2 (Or.inl hgive) _).mp (Nat.min_le_left _ _)

/-- A step whose target is its start moves nothing, whichever way it was
meant to go. -/
theorem StepDown.toStepUp {P L : ℕ} {s : SwapStepResult} (h : StepDown P P L s) :
    StepUp P P L s := by
  have hnext : s.sqrtRatioNextX96 = P := le_antisymm h.next_le h.target_le
  have hout : s.amountOut = 0 := by
    have := h.affordable
    rw [hnext, Nat.sub_self, Nat.mul_zero] at this
    omega
  refine ⟨hnext.ge, hnext.le, ?_, ?_, h.fee_nonneg⟩
  · rw [hnext, Nat.sub_self, Nat.mul_zero]
    exact Nat.zero_le _
  · rw [hout, Nat.zero_mul]
    exact Nat.zero_le _

theorem computeSwapStep_up {P T L fee : ℕ} {r : ℤ} {s : SwapStepResult}
    (hP : 0 < P) (hle : P ≤ T) (h : computeSwapStep P T L r fee = some s) :
    StepUp P T L s := by
  rcases hle.eq_or_lt with rfl | hPT
  · exact (computeSwapStep_down hP le_rfl h).toStepUp
  have hdir : ¬T ≤ P := by omega
  simp only [computeSwapStep, hdir, decide_false] at h
  split_ifs at h with hr
  · simp only [Option.bind_eq_bind, Option.bind_eq_some_iff] at h
    obtain ⟨⟨next, amountIn⟩, hnext, h⟩ := h
    obtain ⟨h1, h2, h3, hin⟩ := exactInputNext_up hPT.le hnext
    simp only at h h1 h2 h3 hin
    split_ifs at h with hreach
    · simp only [Option.bind_eq_some_iff] at h
      obtain ⟨amountOut, hout, feeAmount, hfee, h⟩ := h
      simp only [Option.some.injEq] at h
      subst h hreach
      refine ⟨h1, h2, ?_, ?_, Int.natCast_nonneg _⟩
      · exact (getAmount1Delta_up_spec h1 (Or.inl hin) _).mp le_rfl
      · exact ((getAmount0Delta_down_spec h1 (Or.inl hout)).2 _).mp le_rfl
    · simp only [Option.bind_eq_some_iff] at h
      obtain ⟨amountIn', hin', amountOut, hout, h⟩ := h
      simp only [Option.some.injEq] at h
      subst h
      have hmin := getAmount1Delta_up_spec h1 (Or.inl hin')
      refine ⟨h1, h2, (hmin _).mp le_rfl, ?_, ?_⟩
      · exact ((getAmount0Delta_down_spec h1 (Or.inl hout)).2 _).mp le_rfl
      · have := (hmin _).mpr (h3 hreach)
        show 0 ≤ ((r.natAbs : ℕ) : ℤ) - (amountIn' : ℤ)
        omega
  · simp only [Option.bind_eq_bind, Option.bind_eq_some_iff] at h
    obtain ⟨⟨next, amountOut⟩, hnext, amountIn, hin, amountOut', hout', fee', hfee, h⟩ := h
    obtain ⟨h1, h2, hout⟩ := exactOutputNext_up hP hPT.le hnext
    simp only [Option.some.injEq] at h
    subst h
    have hgive : amountOutBetween false P next L = some amountOut' := by
      simp only [exactOutputAmount] at hout' hout
      split_ifs at hout' with hreach
      · simp only [Option.some.injEq] at hout'
        subst hreach hout'
        exact hout
      · exact hout'
    refine ⟨h1, h2, ?_, ?_, Int.natCast_nonneg _⟩
    · exact (getAmount1Delta_up_spec h1 (Or.inl hin) _).mp le_rfl
    · exact ((getAmount0Delta_down_spec h1 (Or.inl hgive)).2 _).mp (Nat.min_le_left _ _)

end LuxPrecompile.Dex
