import LuxPrecompile.Dex.SwapMath

/-!
# The contract of a swap step

In the price range of the pool, with liquidity below `2 ^ 128` and a fee below one,
`ComputeSwapStep` always returns: no quotient leaves the 256-bit range and no next-price
computation fails.  Amounts are compared with the exact rational amounts of the move.
-/

namespace LuxPrecompile.Dex

/-! ## Helpers that do not panic -/

theorem mulDiv_eq_of_le {x y d k : ℕ} (hd : 0 < d) (h : x * y ≤ k * d) (hk : k < 2 ^ 256) :
    mulDiv x y d = some (x * y / d) := by
  have hle : x * y / d ≤ k := by
    apply Nat.div_le_of_le_mul
    rwa [Nat.mul_comm d]
  have hfits : ¬ maxU256 < x * y / d := by
    rw [maxU256]
    omega
  rw [mulDiv, if_neg hd.ne', checkU256, if_neg hfits]

theorem mulDivRoundingUp_eq_of_le {x y d k : ℕ} (hd : 0 < d) (h : x * y ≤ k * d)
    (hk : k < 2 ^ 256) : mulDivRoundingUp x y d = some (divRoundingUp (x * y) d) := by
  have hle : divRoundingUp (x * y) d ≤ k := (divRoundingUp_le_iff hd).mpr h
  have hfits : ¬ maxU256 < divRoundingUp (x * y) d := by
    rw [maxU256]
    omega
  rw [mulDivRoundingUp, if_neg hd.ne', checkU256, if_neg hfits]

/-! ## Moves of the price -/

/-- A price of the pool. -/
def InRange (p : ℕ) : Prop := minSqrtRatio ≤ p ∧ p ≤ maxSqrtRatio

/-- `q` lies on the way from `p` to `t`. -/
def OnWay (zeroForOne : Bool) (p q t : ℕ) : Prop :=
  if zeroForOne then t ≤ q ∧ q ≤ p else p ≤ q ∧ q ≤ t

/-- The exact input of a move from `p` to `q`. -/
def exactIn (zeroForOne : Bool) (p q liquidity : ℕ) : ℚ :=
  if zeroForOne then liquidity * 2 ^ 96 * (p - q) / (q * p)
  else liquidity * (q - p) / 2 ^ 96

/-- The exact output of a move from `p` to `q`. -/
def exactOut (zeroForOne : Bool) (p q liquidity : ℕ) : ℚ :=
  if zeroForOne then liquidity * (p - q) / 2 ^ 96
  else liquidity * 2 ^ 96 * (q - p) / (p * q)

theorem InRange.pos {p : ℕ} (h : InRange p) : 0 < p := lt_of_lt_of_le (by decide) h.1

theorem InRange.lt {p : ℕ} (h : InRange p) : p < 2 ^ 160 := lt_of_le_of_lt h.2 (by decide)

theorem InRange.lt_word {p : ℕ} (h : InRange p) : p < 2 ^ 256 := h.lt.trans (by norm_num)

theorem OnWay.inRange {z : Bool} {p q t : ℕ} (h : OnWay z p q t) (hp : InRange p)
    (ht : InRange t) : InRange q := by
  cases z with
  | true => exact ⟨ht.1.trans h.1, h.2.trans hp.2⟩
  | false => exact ⟨hp.1.trans h.1, h.2.trans ht.2⟩

theorem div_le_natCast_iff {a b L d k : ℕ} (hab : a ≤ b) (hd : 0 < d) :
    (L : ℚ) * (b - a) / d ≤ k ↔ L * (b - a) ≤ k * d := by
  have hd' : (0 : ℚ) < d := by exact_mod_cast hd
  rw [div_le_iff₀ hd', ← Nat.cast_sub hab]
  exact_mod_cast Iff.rfl

theorem natCast_le_div_iff {a b L d k : ℕ} (hab : a ≤ b) (hd : 0 < d) :
    (k : ℚ) ≤ L * (b - a) / d ↔ k * d ≤ L * (b - a) := by
  have hd' : (0 : ℚ) < d := by exact_mod_cast hd
  rw [le_div_iff₀ hd', ← Nat.cast_sub hab]
  exact_mod_cast Iff.rfl

theorem exactIn_le_iff_down {p q L k : ℕ} (hq : 0 < q) (hqp : q ≤ p) :
    exactIn true p q L ≤ k ↔ L * 2 ^ 96 * (p - q) ≤ k * (q * p) := by
  rw [← div_le_natCast_iff hqp (Nat.mul_pos hq (by omega))]
  simp only [exactIn, if_true, Nat.cast_mul, Nat.cast_pow, Nat.cast_ofNat]

theorem exactIn_le_iff_up {p q L k : ℕ} (hpq : p ≤ q) :
    exactIn false p q L ≤ k ↔ L * (q - p) ≤ k * 2 ^ 96 := by
  rw [← div_le_natCast_iff hpq (by norm_num)]
  simp only [exactIn, Bool.false_eq_true, if_false, Nat.cast_pow, Nat.cast_ofNat]

theorem le_exactOut_iff_down {p q L k : ℕ} (hqp : q ≤ p) :
    k ≤ exactOut true p q L ↔ k * 2 ^ 96 ≤ L * (p - q) := by
  rw [← natCast_le_div_iff hqp (by norm_num)]
  simp only [exactOut, if_true, Nat.cast_pow, Nat.cast_ofNat]

theorem le_exactOut_iff_up {p q L k : ℕ} (hp : 0 < p) (hpq : p ≤ q) :
    k ≤ exactOut false p q L ↔ k * (p * q) ≤ L * 2 ^ 96 * (q - p) := by
  rw [← natCast_le_div_iff hpq (Nat.mul_pos hp (by omega))]
  simp only [exactOut, Bool.false_eq_true, if_false, Nat.cast_mul, Nat.cast_pow,
    Nat.cast_ofNat]

/-! ## Amounts -/

/-- The input is the exact input rounded up, and fits 192 bits. -/
theorem amountInBetween_total {z : Bool} {p q t L : ℕ} (hway : OnWay z p q t) (hp : InRange p)
    (ht : InRange t) (hL : L < 2 ^ 128) :
    ∃ x, amountInBetween z p q L = some x ∧ x ≤ 2 ^ 192 ∧
      ∀ k : ℕ, x ≤ k ↔ exactIn z p q L ≤ k := by
  have hq := hway.inRange hp ht
  cases z with
  | true =>
      have hqp : q ≤ p := hway.2
      have hpos : q * p ≠ 0 := (Nat.mul_pos hq.pos hp.pos).ne'
      have hsome : amountInBetween true p q L =
          some (divRoundingUp (L <<< 96 * (p - q)) (q * p)) := by
        simp [amountInBetween, getAmount0Delta, hqp, unsafeDivRoundingUp, hpos]
      have hspec := (getAmount0Delta_up_spec hqp (Or.inl hsome)).2
      refine ⟨_, hsome, (hspec _).mpr ?_, fun k => ?_⟩
      · have hmin : 2 ^ 32 ≤ q := le_trans (by decide) hq.1
        calc L * 2 ^ 96 * (p - q) ≤ 2 ^ 128 * 2 ^ 96 * p :=
              Nat.mul_le_mul (Nat.mul_le_mul_right _ hL.le) (Nat.sub_le _ _)
          _ = 2 ^ 192 * (2 ^ 32 * p) := by ring
          _ ≤ 2 ^ 192 * (q * p) := Nat.mul_le_mul_left _ (Nat.mul_le_mul_right p hmin)
      · rw [hspec, exactIn_le_iff_down hq.pos hqp]
  | false =>
      have hpq : p ≤ q := hway.1
      have hbound : L * (q - p) ≤ 2 ^ 192 * q96 :=
        calc L * (q - p) ≤ 2 ^ 128 * 2 ^ 160 :=
              Nat.mul_le_mul hL.le ((Nat.sub_le _ _).trans hq.lt.le)
          _ = 2 ^ 192 * q96 := by norm_num [q96]
      have hsome : amountInBetween false p q L = some (divRoundingUp (L * (q - p)) q96) := by
        simp [amountInBetween, getAmount1Delta, hpq,
          mulDivRoundingUp_eq_of_le (by norm_num [q96]) hbound (by norm_num)]
      have hspec := getAmount1Delta_up_spec hpq (Or.inl hsome)
      refine ⟨_, hsome, (hspec _).mpr (by simpa [q96] using hbound), fun k => ?_⟩
      rw [hspec, exactIn_le_iff_up hpq]

/-- The output is the exact output rounded down. -/
theorem amountOutBetween_total {z : Bool} {p q t L : ℕ} (hway : OnWay z p q t)
    (hp : InRange p) (ht : InRange t) (hL : L < 2 ^ 128) :
    ∃ x, amountOutBetween z p q L = some x ∧ ∀ k : ℕ, k ≤ x ↔ k ≤ exactOut z p q L := by
  have hq := hway.inRange hp ht
  cases z with
  | true =>
      have hqp : q ≤ p := hway.2
      have hbound : L * (p - q) ≤ 2 ^ 192 * q96 :=
        calc L * (p - q) ≤ 2 ^ 128 * 2 ^ 160 :=
              Nat.mul_le_mul hL.le ((Nat.sub_le _ _).trans hp.lt.le)
          _ = 2 ^ 192 * q96 := by norm_num [q96]
      have hsome : amountOutBetween true p q L = some (L * (p - q) / q96) := by
        simp [amountOutBetween, getAmount1Delta, hqp,
          mulDiv_eq_of_le (by norm_num [q96]) hbound (by norm_num)]
      have hspec := getAmount1Delta_down_spec hqp (Or.inl hsome)
      refine ⟨_, hsome, fun k => ?_⟩
      rw [hspec, le_exactOut_iff_down hqp]
  | false =>
      have hpq : p ≤ q := hway.1
      have hpos : p * q ≠ 0 := (Nat.mul_pos hp.pos hq.pos).ne'
      have hsome : amountOutBetween false p q L =
          some (L <<< 96 * (q - p) / (p * q)) := by
        simp [amountOutBetween, getAmount0Delta, hpq, bigDiv, hpos]
      have hspec := (getAmount0Delta_down_spec hpq (Or.inl hsome)).2
      refine ⟨_, hsome, fun k => ?_⟩
      rw [hspec, le_exactOut_iff_up hp.pos hpq]

/-! ## The next price -/

/-- Token0 short of a target that is below moves the price, and the move is paid for. -/
theorem nextPrice_amount0_add_total {P T L x : ℕ} (hP : P < 2 ^ 256) (hTP : T ≤ P)
    (hx : x * (T * P) < L * 2 ^ 96 * (P - T)) :
    ∃ q, getNextSqrtPriceFromAmount0RoundingUp P L x true = some (.ok q) ∧
      T ≤ q ∧ q ≤ P ∧ L * 2 ^ 96 * (P - q) ≤ x * (q * P) := by
  have hL : L ≠ 0 := by
    rintro rfl
    simp at hx
  have hsome : ∃ q, getNextSqrtPriceFromAmount0RoundingUp P L x true = some (.ok q) := by
    by_cases hx0 : x = 0
    · exact ⟨P, by simp [getNextSqrtPriceFromAmount0RoundingUp, hx0]⟩
    · have hN : 0 < L <<< 96 := by
        rw [Nat.shiftLeft_eq]
        exact Nat.mul_pos (Nat.pos_of_ne_zero hL) (by norm_num)
      have hden : 0 < L <<< 96 + x * P := Nat.add_pos_left hN _
      have hle : L <<< 96 * P ≤ P * (L <<< 96 + x * P) := by
        rw [Nat.mul_comm]
        exact Nat.mul_le_mul_left P (Nat.le_add_right _ _)
      refine ⟨divRoundingUp (L <<< 96 * P) (L <<< 96 + x * P), ?_⟩
      simp [getNextSqrtPriceFromAmount0RoundingUp, hx0, hL, mulDivRoundingUp_eq_of_le hden hle hP]
  obtain ⟨q, hq⟩ := hsome
  exact ⟨q, hq, nextPrice_amount0_add hTP hx hq⟩

/-- Token1 short of a target that is above. -/
theorem nextPrice_amount1_add_total {P T L x : ℕ} (hT : T < 2 ^ 256) (hPT : P ≤ T)
    (hx : x * 2 ^ 96 < L * (T - P)) :
    ∃ q, getNextSqrtPriceFromAmount1RoundingDown P L x true = some (.ok q) ∧
      P ≤ q ∧ q ≤ T ∧ L * (q - P) ≤ x * 2 ^ 96 := by
  have hL : 0 < L := by
    rcases Nat.eq_zero_or_pos L with rfl | hL
    · simp at hx
    · exact hL
  have hle : x * q96 ≤ T * L := by
    rw [q96, Nat.mul_comm T]
    exact hx.le.trans (Nat.mul_le_mul_left L (Nat.sub_le _ _))
  have hsome : getNextSqrtPriceFromAmount1RoundingDown P L x true =
      some (.ok (P + x * q96 / L)) := by
    simp [getNextSqrtPriceFromAmount1RoundingDown, hL.ne', mulDiv_eq_of_le hL hle hT]
  exact ⟨_, hsome, nextPrice_amount1_add hPT hL hx hsome⟩

/-- Token1 that a target below yields can be removed, and the move yields it. -/
theorem nextPrice_amount1_remove_total {P T L x : ℕ} (hP : P < 2 ^ 256) (hT : 0 < T)
    (hTP : T ≤ P) (hL : 0 < L) (hx : x * 2 ^ 96 ≤ L * (P - T)) :
    ∃ q, getNextSqrtPriceFromAmount1RoundingDown P L x false = some (.ok q) ∧
      T ≤ q ∧ q ≤ P ∧ x * 2 ^ 96 ≤ L * (P - q) := by
  have hle : x * q96 ≤ (P - T) * L := by rwa [q96, Nat.mul_comm (P - T)]
  have hquotient : divRoundingUp (x * q96) L ≤ P - T := (divRoundingUp_le_iff hL).mpr hle
  have hpays := le_divRoundingUp_mul (x * q96) hL
  refine ⟨P - divRoundingUp (x * q96) L, ?_, by omega, Nat.sub_le _ _, ?_⟩
  · have hshort : ¬ P ≤ divRoundingUp (x * q96) L := by omega
    simp [getNextSqrtPriceFromAmount1RoundingDown, hL.ne',
      mulDivRoundingUp_eq_of_le hL hle (by omega), subQuotient, hshort]
  · rw [Nat.sub_sub_self (by omega), Nat.mul_comm L]
    exact hpays

theorem remove_denominator {N P T x : ℕ} (hN : 0 < N) (hP : 0 < P) (hPT : P ≤ T)
    (hx : x * (P * T) ≤ N * (T - P)) : x * P < N ∧ N * P ≤ T * (N - x * P) := by
  obtain ⟨d, rfl⟩ := Nat.exists_eq_add_of_le hPT
  rw [Nat.add_sub_cancel_left] at hx
  have hshort : x * P < N := by
    by_contra hge
    have hNP := Nat.mul_pos hN hP
    nlinarith
  obtain ⟨m, rfl⟩ := Nat.exists_eq_add_of_le hshort.le
  refine ⟨hshort, ?_⟩
  rw [Nat.add_sub_cancel_left]
  nlinarith

theorem remove_yields {N P q x : ℕ} (hPq : P ≤ q) (hshort : x * P < N)
    (hq : N * P ≤ q * (N - x * P)) : x * (P * q) ≤ N * (q - P) := by
  obtain ⟨d, rfl⟩ := Nat.exists_eq_add_of_le hPq
  obtain ⟨m, rfl⟩ := Nat.exists_eq_add_of_le hshort.le
  rw [Nat.add_sub_cancel_left] at hq ⊢
  nlinarith

/-- Token0 that a target above yields can be removed, and the move yields it. -/
theorem nextPrice_amount0_remove_total {P T L x : ℕ} (hT : T < 2 ^ 256) (hP : 0 < P)
    (hPT : P ≤ T) (hL : 0 < L) (hx : x * (P * T) ≤ L * 2 ^ 96 * (T - P)) :
    ∃ q, getNextSqrtPriceFromAmount0RoundingUp P L x false = some (.ok q) ∧
      P ≤ q ∧ q ≤ T ∧ x * (P * q) ≤ L * 2 ^ 96 * (q - P) := by
  by_cases hx0 : x = 0
  · exact ⟨P, by simp [getNextSqrtPriceFromAmount0RoundingUp, hx0], le_rfl, hPT, by simp [hx0]⟩
  have hN : 0 < L <<< 96 := by
    rw [Nat.shiftLeft_eq]
    exact Nat.mul_pos hL (by norm_num)
  obtain ⟨hshort, hle⟩ := remove_denominator hN hP hPT (by rwa [Nat.shiftLeft_eq])
  have hden : 0 < L <<< 96 - x * P := Nat.sub_pos_of_lt hshort
  have hsome : getNextSqrtPriceFromAmount0RoundingUp P L x false =
      some (.ok (divRoundingUp (L <<< 96 * P) (L <<< 96 - x * P))) := by
    simp only [getNextSqrtPriceFromAmount0RoundingUp, hx0, hL.ne', if_false,
      Bool.false_eq_true, not_le.mpr hshort, mulDivRoundingUp_eq_of_le hden hle hT,
      Option.map_some]
  obtain ⟨q, hq, hPq, hqT⟩ := nextPrice_amount0_remove hP hPT hL hx hsome
  have hpays := le_divRoundingUp_mul (L <<< 96 * P) hden
  rw [Except.ok.inj hq] at hpays hsome
  refine ⟨q, hsome, hPq, hqT, ?_⟩
  rw [← Nat.shiftLeft_eq]
  exact remove_yields hPq hshort hpays

/-- An input short of the target is spent on a move that it pays for. -/
theorem nextPriceFromInput_ok {z : Bool} {P T L x : ℕ} (hP : InRange P) (hT : InRange T)
    (hdir : OnWay z P T T) (hx : (x : ℚ) < exactIn z P T L) :
    ∃ q, getNextSqrtPriceFromInput P L x z = some (.ok q) ∧ OnWay z P q T ∧
      exactIn z P q L ≤ x := by
  cases z with
  | true =>
      have hTP : T ≤ P := hdir.2
      have hx := not_le.mp (mt (exactIn_le_iff_down hT.pos hTP).mpr (not_le.mpr hx))
      obtain ⟨q, hq, hTq, hqP, hpays⟩ := nextPrice_amount0_add_total hP.lt_word hTP hx
      refine ⟨q, ?_, ⟨hTq, hqP⟩, (exactIn_le_iff_down (hT.pos.trans_le hTq) hqP).mpr hpays⟩
      rw [getNextSqrtPriceFromInput, if_pos rfl, hq]
  | false =>
      have hPT : P ≤ T := hdir.1
      have hx := not_le.mp (mt (exactIn_le_iff_up hPT).mpr (not_le.mpr hx))
      obtain ⟨q, hq, hPq, hqT, hpays⟩ := nextPrice_amount1_add_total hT.lt_word hPT hx
      refine ⟨q, ?_, ⟨hPq, hqT⟩, (exactIn_le_iff_up hPq).mpr hpays⟩
      rw [getNextSqrtPriceFromInput, if_neg Bool.false_ne_true, hq]

/-- An output that the target yields is taken by a move that yields it. -/
theorem nextPriceFromOutput_ok {z : Bool} {P T L x : ℕ} (hP : InRange P) (hT : InRange T)
    (hdir : OnWay z P T T) (hL : 0 < L) (hx : (x : ℚ) ≤ exactOut z P T L) :
    ∃ q, getNextSqrtPriceFromOutput P L x z = some (.ok q) ∧ OnWay z P q T ∧
      x ≤ exactOut z P q L := by
  cases z with
  | true =>
      have hTP : T ≤ P := hdir.2
      rw [le_exactOut_iff_down hTP] at hx
      obtain ⟨q, hq, hTq, hqP, hyields⟩ :=
        nextPrice_amount1_remove_total hP.lt_word hT.pos hTP hL hx
      exact ⟨q, hq, ⟨hTq, hqP⟩, (le_exactOut_iff_down hqP).mpr hyields⟩
  | false =>
      have hPT : P ≤ T := hdir.1
      rw [le_exactOut_iff_up hP.pos hPT] at hx
      obtain ⟨q, hq, hPq, hqT, hyields⟩ :=
        nextPrice_amount0_remove_total hT.lt_word hP.pos hPT hL hx
      exact ⟨q, hq, ⟨hPq, hqT⟩, (le_exactOut_iff_up hP.pos hPq).mpr hyields⟩

/-! ## The step -/

/-- What a step guarantees. -/
structure StepContract (P T L : ℕ) (remaining : ℤ) (fee : ℕ) (s : SwapStepResult) : Prop where
  between : min P T ≤ s.sqrtRatioNextX96 ∧ s.sqrtRatioNextX96 ≤ max P T
  exactInput : remaining < 0 → s.amountIn + s.feeAmount ≤ |remaining| ∧
    (s.sqrtRatioNextX96 ≠ T → s.amountIn + s.feeAmount = |remaining|)
  exactOutput : 0 < remaining → (s.amountOut : ℤ) ≤ remaining ∧
    (s.sqrtRatioNextX96 ≠ T → (s.amountOut : ℤ) = remaining)
  fee : s.sqrtRatioNextX96 = T →
    ⌈(s.amountIn * fee / (10 ^ 6 - fee) : ℚ)⌉ ≤ s.feeAmount
  covers : exactIn (decide (T ≤ P)) P s.sqrtRatioNextX96 L ≤ s.amountIn
  affordable : s.amountOut ≤ exactOut (decide (T ≤ P)) P s.sqrtRatioNextX96 L

/-- Where the step asks for the next price, it gets one. -/
structure NoFallback (P T L : ℕ) (remaining : ℤ) (fee : ℕ) : Prop where
  input : remaining < 0 → ∀ lessFee amountIn,
    mulDiv remaining.natAbs (feeDenominator - fee) feeDenominator = some lessFee →
      amountInBetween (decide (T ≤ P)) P T L = some amountIn → lessFee < amountIn →
        ∃ q, getNextSqrtPriceFromInput P L lessFee (decide (T ≤ P)) = some (.ok q)
  output : 0 < remaining → ∀ amountOut,
    amountOutBetween (decide (T ≤ P)) P T L = some amountOut → remaining.natAbs < amountOut →
      ∃ q, getNextSqrtPriceFromOutput P L remaining.natAbs (decide (T ≤ P)) = some (.ok q)

theorem OnWay.between {z : Bool} {p q t : ℕ} (h : OnWay z p q t) :
    min p t ≤ q ∧ q ≤ max p t := by
  cases z with
  | true => exact ⟨(min_le_right _ _).trans h.1, h.2.trans (le_max_left _ _)⟩
  | false => exact ⟨(min_le_left _ _).trans h.1, h.2.trans (le_max_right _ _)⟩

theorem onWay_target (P T : ℕ) : OnWay (decide (T ≤ P)) P T T := by
  by_cases h : T ≤ P
  · simp [OnWay, h]
  · simp only [OnWay, h, decide_false, Bool.false_eq_true, if_false]
    omega

theorem feeOnInput_total {amountIn fee : ℕ} (hfee : fee < feeDenominator)
    (hin : amountIn ≤ 2 ^ 192) :
    feeOnInput amountIn fee = some (divRoundingUp (amountIn * fee) (feeDenominator - fee)) := by
  have hd : 0 < feeDenominator - fee := Nat.sub_pos_of_lt hfee
  have hsmall : amountIn * fee ≤ 2 ^ 192 * feeDenominator := Nat.mul_le_mul hin hfee.le
  exact mulDivRoundingUp_eq_of_le hd (Nat.le_mul_of_pos_right _ hd)
    (hsmall.trans_lt (by norm_num [feeDenominator]))

theorem ceil_le_feeOnInput {amountIn fee : ℕ} (hfee : fee < feeDenominator) :
    ⌈(amountIn * fee / (10 ^ 6 - fee) : ℚ)⌉ ≤
      (divRoundingUp (amountIn * fee) (feeDenominator - fee) : ℤ) := by
  have hd : 0 < feeDenominator - fee := Nat.sub_pos_of_lt hfee
  have hcast : ((feeDenominator - fee : ℕ) : ℚ) = 10 ^ 6 - fee := by
    rw [Nat.cast_sub hfee.le, feeDenominator]
    norm_num
  have hpos : (0 : ℚ) < 10 ^ 6 - fee := by
    rw [← hcast]
    exact_mod_cast hd
  rw [Int.ceil_le, div_le_iff₀ hpos, ← hcast]
  exact_mod_cast le_divRoundingUp_mul (amountIn * fee) hd

/-- What is left of an input after its fee covers an amount only if the input covers the
amount and the fee on it. -/
theorem add_fee_le {amountIn fee x : ℕ} (hfee : fee < feeDenominator)
    (h : amountIn ≤ x * (feeDenominator - fee) / feeDenominator) :
    amountIn + divRoundingUp (amountIn * fee) (feeDenominator - fee) ≤ x := by
  have hd : 0 < feeDenominator - fee := Nat.sub_pos_of_lt hfee
  have hle : amountIn * feeDenominator ≤ x * (feeDenominator - fee) :=
    (Nat.le_div_iff_mul_le (by decide)).mp h
  obtain ⟨e, he⟩ := Nat.exists_eq_add_of_le hfee.le
  rw [he, Nat.add_sub_cancel_left] at hle hd ⊢
  have hin : amountIn ≤ x := by
    refine Nat.le_of_mul_le_mul_right ?_ hd
    nlinarith
  obtain ⟨y, rfl⟩ := Nat.exists_eq_add_of_le hin
  have hrest : divRoundingUp (amountIn * fee) e ≤ y := by
    rw [divRoundingUp_le_iff hd]
    nlinarith
  omega

/-! ## A step that returned -/

theorem OnWay.self {z : Bool} {p q t : ℕ} (h : OnWay z p q t) : OnWay z p q q := by
  cases z with
  | true => exact ⟨le_rfl, h.2⟩
  | false => exact ⟨h.1, le_rfl⟩

theorem amountInBetween_least {z : Bool} {p q L x : ℕ} (hq : 0 < q) (hway : OnWay z p q q)
    (h : amountInBetween z p q L = some x) (k : ℕ) : x ≤ k ↔ exactIn z p q L ≤ k := by
  cases z with
  | true =>
      have hqp : q ≤ p := hway.2
      simp only [amountInBetween, if_true] at h
      rw [(getAmount0Delta_up_spec hqp (Or.inl h)).2, exactIn_le_iff_down hq hqp]
  | false =>
      have hpq : p ≤ q := hway.1
      simp only [amountInBetween, Bool.false_eq_true, if_false] at h
      rw [getAmount1Delta_up_spec hpq (Or.inl h), exactIn_le_iff_up hpq]

theorem amountOutBetween_greatest {z : Bool} {p q L x : ℕ} (hp : 0 < p) (hway : OnWay z p q q)
    (h : amountOutBetween z p q L = some x) (k : ℕ) : k ≤ x ↔ k ≤ exactOut z p q L := by
  cases z with
  | true =>
      have hqp : q ≤ p := hway.2
      simp only [amountOutBetween, if_true] at h
      rw [getAmount1Delta_down_spec hqp (Or.inl h), le_exactOut_iff_down hqp]
  | false =>
      have hpq : p ≤ q := hway.1
      simp only [amountOutBetween, Bool.false_eq_true, if_false] at h
      rw [(getAmount0Delta_down_spec hpq (Or.inl h)).2, le_exactOut_iff_up hp hpq]

theorem feeOnInput_eq_some {amountIn fee x : ℕ} (h : feeOnInput amountIn fee = some x) :
    x = divRoundingUp (amountIn * fee) (feeDenominator - fee) :=
  (mulDivRoundingUp_eq_some h).2.1

section Returned

variable {P T L fee : ℕ} {r : ℤ} {s : SwapStepResult}

/-- An exact-input step that returned keeps its contract, with any liquidity. -/
theorem exactInput_of_some (hP : InRange P) (hT : InRange T) (hr : r < 0)
    (hfee : fee < feeDenominator) (h : computeSwapStep P T L r fee = some s) :
    StepContract P T L r fee s := by
  have hdir := onWay_target P T
  have hrem : ((r.natAbs : ℕ) : ℤ) = |r| := Int.natCast_natAbs r
  simp only [computeSwapStep, if_pos hr, exactInputNext, Option.bind_eq_bind,
    Option.bind_eq_some_iff] at h
  obtain ⟨⟨next, toTarget⟩, ⟨lessFee, hless, amountIn, htarget, hnext⟩, h⟩ := h
  have hleast := amountInBetween_least hT.pos hdir htarget
  obtain ⟨-, hlessFee, -⟩ := mulDiv_eq_some hless
  split_ifs at hnext with hreach
  · simp only [Option.some.injEq, Prod.mk.injEq] at hnext
    obtain ⟨rfl, rfl⟩ := hnext
    simp only [if_true, Option.bind_eq_some_iff, Option.some.injEq] at h
    obtain ⟨out, hout, feeAmount, hfeeAmount, rfl⟩ := h
    have hfeeEq := feeOnInput_eq_some hfeeAmount
    rw [hlessFee] at hreach
    have hsum : (amountIn : ℤ) + feeAmount ≤ |r| := by
      rw [← hrem, hfeeEq]
      exact_mod_cast add_fee_le hfee hreach
    exact
      { between := hdir.between
        exactInput := fun _ => ⟨hsum, fun hne => absurd rfl hne⟩
        exactOutput := fun hpos => absurd hpos (by omega)
        fee := fun _ => by rw [hfeeEq]; exact ceil_le_feeOnInput hfee
        covers := (hleast _).mp le_rfl
        affordable := (amountOutBetween_greatest hP.pos hdir hout _).mp le_rfl }
  · have hshort : (lessFee : ℚ) < exactIn (decide (T ≤ P)) P T L :=
      not_le.mp (mt (hleast lessFee).mpr hreach)
    obtain ⟨q, hq, hway, hpaid⟩ := nextPriceFromInput_ok hP hT hdir hshort
    have hne : q ≠ T := by
      rintro rfl
      exact absurd hpaid (not_le.mpr hshort)
    simp only [hq, Option.bind_some, clampToTarget, Option.some.injEq, Prod.mk.injEq] at hnext
    obtain ⟨rfl, rfl⟩ := hnext
    simp only [if_neg hne, Option.bind_eq_some_iff, Option.some.injEq] at h
    obtain ⟨spent, hspent, out, hout, rfl⟩ := h
    have hpos := (hway.inRange hP hT).pos
    exact
      { between := hway.between
        exactInput := fun _ => ⟨by simp [hrem], fun _ => by simp [hrem]⟩
        exactOutput := fun hpos => absurd hpos (by omega)
        fee := fun heq => absurd heq hne
        covers := (amountInBetween_least hpos hway.self hspent _).mp le_rfl
        affordable := (amountOutBetween_greatest hP.pos hway.self hout _).mp le_rfl }

/-- An exact-output step that returned keeps its contract, with any liquidity. -/
theorem exactOutput_of_some (hP : InRange P) (hT : InRange T) (hr : 0 < r)
    (hfee : fee < feeDenominator) (h : computeSwapStep P T L r fee = some s) :
    StepContract P T L r fee s := by
  have hdir := onWay_target P T
  have hrem : ((r.natAbs : ℕ) : ℤ) = r := Int.natAbs_of_nonneg hr.le
  simp only [computeSwapStep, if_neg hr.not_gt, exactOutputNext, Option.bind_eq_bind,
    Option.bind_eq_some_iff, Option.some.injEq] at h
  obtain ⟨⟨next, toTarget⟩, ⟨amountOut, htarget, hnext⟩, amountIn, hin, out, hout, feeAmount,
    hfeeAmount, rfl⟩ := h
  have hgreatest := amountOutBetween_greatest hP.pos hdir htarget
  have hfeeEq := feeOnInput_eq_some hfeeAmount
  obtain ⟨hway, hmost, hrest⟩ : OnWay (decide (T ≤ P)) P next T ∧
      (∀ k : ℕ, k ≤ out ↔ k ≤ exactOut (decide (T ≤ P)) P next L) ∧
      (next ≠ T → r.natAbs ≤ out) := by
    split_ifs at hnext with hreach
    · simp only [Option.some.injEq, Prod.mk.injEq] at hnext
      obtain ⟨rfl, rfl⟩ := hnext
      rw [exactOutputAmount, if_pos rfl, Option.some.injEq] at hout
      rw [← hout]
      exact ⟨hdir, hgreatest, fun hne => absurd rfl hne⟩
    · have hpos : 0 < L := by
        rcases Nat.eq_zero_or_pos L with rfl | hpos
        · have hle := (hgreatest amountOut).mp le_rfl
          have hzero : exactOut (decide (T ≤ P)) P T 0 = 0 := by simp [exactOut]
          rw [hzero] at hle
          have hnone : amountOut ≤ 0 := by exact_mod_cast hle
          omega
        · exact hpos
      obtain ⟨q, hq, hway, hyields⟩ := nextPriceFromOutput_ok hP hT hdir hpos
        ((hgreatest _).mp (not_le.mp hreach).le)
      simp only [hq, Option.bind_some, clampToTarget, Option.some.injEq, Prod.mk.injEq] at hnext
      obtain ⟨rfl, rfl⟩ := hnext
      rw [exactOutputAmount] at hout
      split_ifs at hout with hqT
      · rw [Option.some.injEq] at hout
        subst hqT
        rw [← hout]
        exact ⟨hway, hgreatest, fun hne => absurd rfl hne⟩
      · have hmost := amountOutBetween_greatest hP.pos hway.self hout
        exact ⟨hway, hmost, fun _ => (hmost _).mpr hyields⟩
  have hpos := (hway.inRange hP hT).pos
  exact
    { between := hway.between
      exactInput := fun hneg => absurd hneg hr.not_gt
      exactOutput := fun _ =>
        ⟨by rw [← hrem]; exact_mod_cast min_le_right out r.natAbs,
          fun hne => by rw [min_eq_right (hrest hne), hrem]⟩
      fee := fun _ => by rw [hfeeEq]; exact ceil_le_feeOnInput hfee
      covers := (amountInBetween_least hpos hway.self hin _).mp le_rfl
      affordable := (hmost _).mp (min_le_left _ _) }

theorem stepContract_of_some (hP : InRange P) (hT : InRange T) (hr : r ≠ 0)
    (hfee : fee < feeDenominator) (h : computeSwapStep P T L r fee = some s) :
    StepContract P T L r fee s := by
  rcases lt_or_gt_of_ne hr with hneg | hpos
  · exact exactInput_of_some hP hT hneg hfee h
  · exact exactOutput_of_some hP hT hpos hfee h

end Returned

section Step

variable {P T L fee : ℕ} {r : ℤ}

/-- A step that spends an exact input. -/
theorem exactInput_contract (hP : InRange P) (hT : InRange T) (hL : L < 2 ^ 128) (hr : r < 0)
    (hr' : |r| < 2 ^ 255) (hfee : fee < feeDenominator) :
    (∃ s, computeSwapStep P T L r fee = some s ∧ StepContract P T L r fee s) ∧
      NoFallback P T L r fee := by
  have hdir := onWay_target P T
  have hrem : ((r.natAbs : ℕ) : ℤ) = |r| := Int.natCast_natAbs r
  have hword : r.natAbs < 2 ^ 256 := by omega
  have hless : mulDiv r.natAbs (feeDenominator - fee) feeDenominator =
      some (r.natAbs * (feeDenominator - fee) / feeDenominator) :=
    mulDiv_eq_of_le (by decide) (Nat.mul_le_mul_left _ (Nat.sub_le _ _)) hword
  obtain ⟨toTarget, htarget, hsize, hleast⟩ := amountInBetween_total hdir hP hT hL
  -- an input short of the target never fails to move the price
  have hmoves : ∀ x, x < toTarget → ∃ q,
      getNextSqrtPriceFromInput P L x (decide (T ≤ P)) = some (.ok q) ∧
        OnWay (decide (T ≤ P)) P q T ∧ q ≠ T := by
    intro x hx
    have hshort : (x : ℚ) < exactIn (decide (T ≤ P)) P T L :=
      not_le.mp (mt (hleast x).mpr (not_le.mpr hx))
    obtain ⟨q, hq, hway, hpaid⟩ := nextPriceFromInput_ok hP hT hdir hshort
    refine ⟨q, hq, hway, ?_⟩
    rintro rfl
    exact absurd hpaid (not_le.mpr hshort)
  have hreturns : ∃ s, computeSwapStep P T L r fee = some s := by
    by_cases hreach : toTarget ≤ r.natAbs * (feeDenominator - fee) / feeDenominator
    · have hnext : exactInputNext (decide (T ≤ P)) P T L r.natAbs fee = some (T, toTarget) := by
        simp only [exactInputNext, hless, htarget, Option.bind_eq_bind, Option.bind_some,
          if_pos hreach]
      obtain ⟨out, hout, -⟩ := amountOutBetween_total hdir hP hT hL
      refine ⟨⟨T, toTarget, out, divRoundingUp (toTarget * fee) (feeDenominator - fee)⟩, ?_⟩
      simp only [computeSwapStep, if_pos hr, hnext, hout, feeOnInput_total hfee hsize,
        Option.bind_eq_bind, Option.bind_some, if_true]
    · obtain ⟨q, hq, hway, hne⟩ := hmoves _ (not_le.mp hreach)
      have hnext : exactInputNext (decide (T ≤ P)) P T L r.natAbs fee = some (q, toTarget) := by
        simp only [exactInputNext, hless, htarget, hq, Option.bind_eq_bind, Option.bind_some,
          if_neg hreach, clampToTarget]
      obtain ⟨amountIn, hin, -, -⟩ := amountInBetween_total hway hP hT hL
      obtain ⟨out, hout, -⟩ := amountOutBetween_total hway hP hT hL
      refine ⟨⟨q, amountIn, out, (r.natAbs : ℤ) - amountIn⟩, ?_⟩
      simp only [computeSwapStep, if_pos hr, hnext, hin, hout, Option.bind_eq_bind,
        Option.bind_some, if_neg hne]
  refine ⟨?_, fun _ lessFee amountIn hl hin hlt => ?_, fun hpos => absurd hpos (by omega)⟩
  · obtain ⟨s, hs⟩ := hreturns
    exact ⟨s, hs, exactInput_of_some hP hT hr hfee hs⟩
  · obtain rfl := Option.some.inj (htarget.symm.trans hin)
    obtain ⟨q, hq, -⟩ := hmoves lessFee hlt
    exact ⟨q, hq⟩

/-- A step that yields an exact output. -/
theorem exactOutput_contract (hP : InRange P) (hT : InRange T) (hL : L < 2 ^ 128) (hr : 0 < r)
    (hfee : fee < feeDenominator) :
    (∃ s, computeSwapStep P T L r fee = some s ∧ StepContract P T L r fee s) ∧
      NoFallback P T L r fee := by
  have hdir := onWay_target P T
  obtain ⟨toTarget, htarget, hgreatest⟩ := amountOutBetween_total hdir hP hT hL
  -- an output short of the target's never fails to move the price
  have hmoves : ∀ x, x < toTarget → ∃ q,
      getNextSqrtPriceFromOutput P L x (decide (T ≤ P)) = some (.ok q) ∧
        OnWay (decide (T ≤ P)) P q T := by
    intro x hx
    have hlt : ((x + 1 : ℕ) : ℚ) ≤ exactOut (decide (T ≤ P)) P T L := (hgreatest _).mp hx
    have hpos : 0 < L := by
      rcases Nat.eq_zero_or_pos L with rfl | hpos
      · have hzero : exactOut (decide (T ≤ P)) P T 0 = 0 := by simp [exactOut]
        rw [hzero] at hlt
        exact absurd hlt (not_le.mpr (by exact_mod_cast Nat.succ_pos x))
      · exact hpos
    obtain ⟨q, hq, hway, -⟩ := nextPriceFromOutput_ok hP hT hdir hpos ((hgreatest _).mp hx.le)
    exact ⟨q, hq, hway⟩
  have hreturns : ∃ s, computeSwapStep P T L r fee = some s := by
    -- the price reached, and what the move to it yields
    obtain ⟨q, out, hnext, hway, hout⟩ : ∃ q out,
        exactOutputNext (decide (T ≤ P)) P T L r.natAbs = some (q, toTarget) ∧
          OnWay (decide (T ≤ P)) P q T ∧
          exactOutputAmount (decide (T ≤ P)) P T q L toTarget = some out := by
      by_cases hreach : toTarget ≤ r.natAbs
      · refine ⟨T, toTarget, ?_, hdir, if_pos rfl⟩
        simp only [exactOutputNext, htarget, Option.bind_eq_bind, Option.bind_some, if_pos hreach]
      · obtain ⟨q, hq, hway⟩ := hmoves _ (not_le.mp hreach)
        have hnext : exactOutputNext (decide (T ≤ P)) P T L r.natAbs = some (q, toTarget) := by
          simp only [exactOutputNext, htarget, hq, Option.bind_eq_bind, Option.bind_some,
            if_neg hreach, clampToTarget]
        by_cases hqT : q = T
        · subst hqT
          exact ⟨q, toTarget, hnext, hway, if_pos rfl⟩
        · obtain ⟨out, hout, -⟩ := amountOutBetween_total hway hP hT hL
          exact ⟨q, out, hnext, hway, by rw [exactOutputAmount, if_neg hqT, hout]⟩
    obtain ⟨amountIn, hin, hsize, -⟩ := amountInBetween_total hway hP hT hL
    refine ⟨⟨q, amountIn, min out r.natAbs,
      divRoundingUp (amountIn * fee) (feeDenominator - fee)⟩, ?_⟩
    simp only [computeSwapStep, if_neg hr.not_gt, hnext, hin, hout,
      feeOnInput_total hfee hsize, Option.bind_eq_bind, Option.bind_some]
  refine ⟨?_, fun hneg => absurd hneg (by omega), fun _ amountOut hout hlt => ?_⟩
  · obtain ⟨s, hs⟩ := hreturns
    exact ⟨s, hs, exactOutput_of_some hP hT hr hfee hs⟩
  · obtain rfl := Option.some.inj (htarget.symm.trans hout)
    obtain ⟨q, hq, -⟩ := hmoves _ hlt
    exact ⟨q, hq⟩

/-- In the price range, with liquidity below `2 ^ 128` and a fee below one, a step of any
non-zero amount returns, keeps its contract and never falls back. -/
theorem computeSwapStep_contract (hP : InRange P) (hT : InRange T) (hL : L < 2 ^ 128)
    (hr : r ≠ 0) (hr' : |r| < 2 ^ 255) (hfee : fee < 1000000) :
    (∃ s, computeSwapStep P T L r fee = some s ∧ StepContract P T L r fee s) ∧
      NoFallback P T L r fee := by
  rcases lt_or_gt_of_ne hr with hneg | hpos
  · exact exactInput_contract hP hT hL hneg hr' hfee
  · exact exactOutput_contract hP hT hL hpos hfee

/-- A swap of 1000 units below the price 1. -/
theorem computeSwapStep_contract_thousand :
    (∃ s, computeSwapStep (2 ^ 96) (2 ^ 95) (10 ^ 18) (-1000) 3000 = some s ∧
        StepContract (2 ^ 96) (2 ^ 95) (10 ^ 18) (-1000) 3000 s) ∧
      NoFallback (2 ^ 96) (2 ^ 95) (10 ^ 18) (-1000) 3000 :=
  computeSwapStep_contract ⟨by decide, by decide⟩ ⟨by decide, by decide⟩ (by norm_num)
    (by norm_num) (by norm_num) (by norm_num)

end Step

end LuxPrecompile.Dex
