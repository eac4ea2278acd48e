import LuxPrecompile.Dex.TickMath

/-!
# Square-root price arithmetic

`dex/sqrt_price_math.go`: the next price after an amount enters or leaves the
active liquidity, and the token amounts between two prices.  Every function
works on exact integers.  `none` is a panic of the division helpers; the
`error` results of the next-price functions are values of their own, because
the swap step catches them.
-/

namespace LuxPrecompile.Dex

/-- The errors of the next-price functions. -/
inductive NextPriceError
  /-- "liquidity must be positive" -/
  | zeroLiquidity
  /-- "denominator underflow: removing too much amount0" -/
  | denominatorUnderflow
  /-- "sqrt price underflow: removing too much amount1" -/
  | priceUnderflow
deriving DecidableEq, Repr

def getNextSqrtPriceFromAmount0RoundingUp
    (sqrtPriceX96 liquidity amount : ℕ) (add : Bool) :
    Option (Except NextPriceError ℕ) :=
  if amount = 0 then some (.ok sqrtPriceX96)
  else if liquidity = 0 then some (.error .zeroLiquidity)
  else if add then
    (mulDivRoundingUp (liquidity <<< 96) sqrtPriceX96
      (liquidity <<< 96 + amount * sqrtPriceX96)).map .ok
  else if liquidity <<< 96 ≤ amount * sqrtPriceX96 then
    some (.error .denominatorUnderflow)
  else
    (mulDivRoundingUp (liquidity <<< 96) sqrtPriceX96
      (liquidity <<< 96 - amount * sqrtPriceX96)).map .ok

/-- The subtraction `GetNextSqrtPriceFromAmount1RoundingDown` ends with. -/
def subQuotient (sqrtPriceX96 quotient : ℕ) : Except NextPriceError ℕ :=
  if sqrtPriceX96 ≤ quotient then .error .priceUnderflow
  else .ok (sqrtPriceX96 - quotient)

def getNextSqrtPriceFromAmount1RoundingDown
    (sqrtPriceX96 liquidity amount : ℕ) (add : Bool) :
    Option (Except NextPriceError ℕ) :=
  if liquidity = 0 then some (.error .zeroLiquidity)
  else if add then
    (mulDiv amount q96 liquidity).map
      (fun quotient => .ok (sqrtPriceX96 + quotient))
  else
    (mulDivRoundingUp amount q96 liquidity).map (subQuotient sqrtPriceX96)

def getNextSqrtPriceFromInput
    (sqrtPriceX96 liquidity amountIn : ℕ) (zeroForOne : Bool) :
    Option (Except NextPriceError ℕ) :=
  if zeroForOne then
    getNextSqrtPriceFromAmount0RoundingUp sqrtPriceX96 liquidity amountIn true
  else
    getNextSqrtPriceFromAmount1RoundingDown sqrtPriceX96 liquidity amountIn true

def getNextSqrtPriceFromOutput
    (sqrtPriceX96 liquidity amountOut : ℕ) (zeroForOne : Bool) :
    Option (Except NextPriceError ℕ) :=
  if zeroForOne then
    getNextSqrtPriceFromAmount1RoundingDown sqrtPriceX96 liquidity amountOut false
  else
    getNextSqrtPriceFromAmount0RoundingUp sqrtPriceX96 liquidity amountOut false

/-- `GetAmount0Delta`: the two prices may come in either order. -/
def getAmount0Delta (sqrtRatioAX96 sqrtRatioBX96 liquidity : ℕ)
    (roundUp : Bool) : Option ℕ :=
  let a := min sqrtRatioAX96 sqrtRatioBX96
  let b := max sqrtRatioAX96 sqrtRatioBX96
  let numerator := liquidity <<< 96 * (b - a)
  let denominator := a * b
  if roundUp then unsafeDivRoundingUp numerator denominator
  else bigDiv numerator denominator

def getAmount1Delta (sqrtRatioAX96 sqrtRatioBX96 liquidity : ℕ)
    (roundUp : Bool) : Option ℕ :=
  let a := min sqrtRatioAX96 sqrtRatioBX96
  let b := max sqrtRatioAX96 sqrtRatioBX96
  let diff := b - a
  if roundUp then mulDivRoundingUp liquidity diff q96
  else mulDiv liquidity diff q96

/-! ## Amounts between two prices -/

/-- Rounding up, the token0 amount covers the exact one, and it is the least
such integer. -/
theorem getAmount0Delta_up_spec {a b L x : ℕ} (hab : a ≤ b)
    (h : getAmount0Delta a b L true = some x ∨ getAmount0Delta b a L true = some x) :
    0 < a * b ∧ ∀ k, x ≤ k ↔ L * 2 ^ 96 * (b - a) ≤ k * (a * b) := by
  have hspec : unsafeDivRoundingUp (L <<< 96 * (b - a)) (a * b) = some x := by
    rcases h with h | h
    · simpa [getAmount0Delta, hab] using h
    · simpa [getAmount0Delta, hab] using h
  obtain ⟨hpos, rfl⟩ := unsafeDivRoundingUp_eq_some hspec
  refine ⟨hpos, fun k => ?_⟩
  rw [divRoundingUp_le_iff hpos, Nat.shiftLeft_eq]

/-- Rounding down, the token0 amount is the greatest integer the exact one
covers. -/
theorem getAmount0Delta_down_spec {a b L x : ℕ} (hab : a ≤ b)
    (h : getAmount0Delta a b L false = some x ∨
      getAmount0Delta b a L false = some x) :
    0 < a * b ∧ ∀ k, k ≤ x ↔ k * (a * b) ≤ L * 2 ^ 96 * (b - a) := by
  have hspec : bigDiv (L <<< 96 * (b - a)) (a * b) = some x := by
    rcases h with h | h
    · simpa [getAmount0Delta, hab] using h
    · simpa [getAmount0Delta, hab] using h
  obtain ⟨hpos, rfl⟩ := bigDiv_eq_some hspec
  refine ⟨hpos, fun k => ?_⟩
  rw [Nat.le_div_iff_mul_le hpos, Nat.shiftLeft_eq]

theorem getAmount1Delta_up_spec {a b L x : ℕ} (hab : a ≤ b)
    (h : getAmount1Delta a b L true = some x ∨ getAmount1Delta b a L true = some x) :
    ∀ k, x ≤ k ↔ L * (b - a) ≤ k * 2 ^ 96 := by
  have hspec : mulDivRoundingUp L (b - a) q96 = some x := by
    rcases h with h | h
    · simpa [getAmount1Delta, hab] using h
    · simpa [getAmount1Delta, hab] using h
  obtain ⟨hpos, rfl, -⟩ := mulDivRoundingUp_eq_some hspec
  intro k
  rw [divRoundingUp_le_iff hpos, q96]

theorem getAmount1Delta_down_spec {a b L x : ℕ} (hab : a ≤ b)
    (h : getAmount1Delta a b L false = some x ∨
      getAmount1Delta b a L false = some x) :
    ∀ k, k ≤ x ↔ k * 2 ^ 96 ≤ L * (b - a) := by
  have hspec : mulDiv L (b - a) q96 = some x := by
    rcases h with h | h
    · simpa [getAmount1Delta, hab] using h
    · simpa [getAmount1Delta, hab] using h
  obtain ⟨hpos, rfl, -⟩ := mulDiv_eq_some hspec
  intro k
  rw [Nat.le_div_iff_mul_le hpos, q96]

/-! ## The next price

Each lemma takes an amount too small to reach a target price, and places the
computed price between the current price and the target. -/

/-- Adding token0 moves the price down, but not past a target that needs more. -/
theorem nextPrice_amount0_add {P T L x p : ℕ} (hTP : T ≤ P)
    (hx : x * (T * P) < L * 2 ^ 96 * (P - T))
    (h : getNextSqrtPriceFromAmount0RoundingUp P L x true = some (.ok p)) :
    T ≤ p ∧ p ≤ P ∧ L * 2 ^ 96 * (P - p) ≤ x * (p * P) := by
  simp only [getNextSqrtPriceFromAmount0RoundingUp, if_true] at h
  split_ifs at h with hx0 hL
  · simp only [Option.some.injEq, Except.ok.injEq] at h
    subst h
    simp [hTP]
  · simp at h
  · simp only [Option.map_eq_some_iff, Except.ok.injEq] at h
    obtain ⟨q, hq, rfl⟩ := h
    obtain ⟨hden, rfl, -⟩ := mulDivRoundingUp_eq_some hq
    rw [Nat.shiftLeft_eq] at hden ⊢
    have hmin : ∀ k, divRoundingUp (L * 2 ^ 96 * P) (L * 2 ^ 96 + x * P) ≤ k ↔
        L * 2 ^ 96 * P ≤ k * (L * 2 ^ 96 + x * P) :=
      fun k => divRoundingUp_le_iff hden
    generalize divRoundingUp (L * 2 ^ 96 * P) (L * 2 ^ 96 + x * P) = p at hmin ⊢
    generalize L * 2 ^ 96 = N at hx hmin ⊢
    have hup : N * P ≤ p * (N + x * P) := (hmin p).mp le_rfl
    have hle : p ≤ P := by
      rw [hmin, Nat.mul_comm P]
      exact Nat.mul_le_mul_right P (Nat.le_add_right N (x * P))
    have hge : T ≤ p := by
      by_contra hlt
      have hstep : p * (N + x * P) ≤ T * (N + x * P) :=
        Nat.mul_le_mul_right _ (by omega)
      have hsub : N * (P - T) + N * T = N * P := by
        rw [← Nat.mul_add, Nat.sub_add_cancel hTP]
      nlinarith
    refine ⟨hge, hle, ?_⟩
    have hsub : N * (P - p) + N * p = N * P := by
      rw [← Nat.mul_add, Nat.sub_add_cancel hle]
    nlinarith

/-- Removing token0 moves the price up, but not past a target that yields
more. -/
theorem nextPrice_amount0_remove {P T L x : ℕ} (hP : 0 < P) (hPT : P ≤ T)
    (hL : 0 < L) (hx : x * (P * T) ≤ L * 2 ^ 96 * (T - P))
    {r : Except NextPriceError ℕ}
    (h : getNextSqrtPriceFromAmount0RoundingUp P L x false = some r) :
    ∃ p, r = .ok p ∧ P ≤ p ∧ p ≤ T := by
  simp only [getNextSqrtPriceFromAmount0RoundingUp, Bool.false_eq_true,
    if_false] at h
  have hT : 0 < T := lt_of_lt_of_le hP hPT
  have hsubT : L * 2 ^ 96 * (T - P) + L * 2 ^ 96 * P = L * 2 ^ 96 * T := by
    rw [← Nat.mul_add, Nat.sub_add_cancel hPT]
  have hN : 0 < L * 2 ^ 96 := Nat.mul_pos hL (by norm_num)
  split_ifs at h with hx0 hL0 hden
  · simp only [Option.some.injEq] at h
    exact ⟨P, h.symm, le_rfl, hPT⟩
  · omega
  · rw [Nat.shiftLeft_eq] at hden
    generalize L * 2 ^ 96 = N at hx hsubT hN hden
    have : N * T ≤ x * P * T := Nat.mul_le_mul_right T hden
    have : 0 < N * P := Nat.mul_pos hN hP
    nlinarith
  · simp only [Option.map_eq_some_iff] at h
    obtain ⟨q, hq, rfl⟩ := h
    obtain ⟨hpos, rfl, -⟩ := mulDivRoundingUp_eq_some hq
    rw [Nat.shiftLeft_eq] at hpos hden ⊢
    have hmin : ∀ k, divRoundingUp (L * 2 ^ 96 * P) (L * 2 ^ 96 - x * P) ≤ k ↔
        L * 2 ^ 96 * P ≤ k * (L * 2 ^ 96 - x * P) :=
      fun k => divRoundingUp_le_iff hpos
    refine ⟨_, rfl, ?_, ?_⟩
    · by_contra hlt
      have hk := (hmin (P - 1)).mp (by omega)
      generalize L * 2 ^ 96 = N at hk hN
      have h1 : (P - 1) * (N - x * P) ≤ (P - 1) * N :=
        Nat.mul_le_mul_left _ (Nat.sub_le _ _)
      have h2 : (P - 1) * N + N = N * P := by
        obtain ⟨k, rfl⟩ : ∃ k, P = k + 1 := ⟨P - 1, by omega⟩
        simp
        ring
      omega
    · rw [hmin]
      generalize L * 2 ^ 96 = N at hx hsubT hN hden
      have hsplit : T * (N - x * P) + T * (x * P) = T * N := by
        rw [← Nat.mul_add, Nat.sub_add_cancel (by omega)]
      nlinarith

/-- Adding token1 moves the price up, but not past a target that needs more. -/
theorem nextPrice_amount1_add {P T L x p : ℕ} (hPT : P ≤ T) (hL : 0 < L)
    (hx : x * 2 ^ 96 < L * (T - P))
    (h : getNextSqrtPriceFromAmount1RoundingDown P L x true = some (.ok p)) :
    P ≤ p ∧ p ≤ T ∧ L * (p - P) ≤ x * 2 ^ 96 := by
  unfold getNextSqrtPriceFromAmount1RoundingDown at h
  rw [if_neg hL.ne', if_pos rfl] at h
  simp only [Option.map_eq_some_iff, Except.ok.injEq] at h
  obtain ⟨q, hq, rfl⟩ := h
  obtain ⟨-, rfl, -⟩ := mulDiv_eq_some hq
  have hle : x * q96 / L ≤ T - P := by
    apply Nat.div_le_of_le_mul
    rw [q96]
    exact hx.le
  refine ⟨Nat.le_add_right _ _, by omega, ?_⟩
  rw [Nat.add_sub_cancel_left, q96]
  exact Nat.mul_div_le _ _

/-- Removing token1 moves the price down, but not past a target that yields
more. -/
theorem nextPrice_amount1_remove {P T L x : ℕ} (hT : 0 < T) (hTP : T ≤ P)
    (hL : 0 < L) (hx : x * 2 ^ 96 ≤ L * (P - T))
    {r : Except NextPriceError ℕ}
    (h : getNextSqrtPriceFromAmount1RoundingDown P L x false = some r) :
    ∃ p, r = .ok p ∧ T ≤ p ∧ p ≤ P := by
  unfold getNextSqrtPriceFromAmount1RoundingDown at h
  rw [if_neg hL.ne', if_neg (by decide)] at h
  simp only [Option.map_eq_some_iff] at h
  obtain ⟨q, hq, rfl⟩ := h
  obtain ⟨-, rfl, -⟩ := mulDivRoundingUp_eq_some hq
  have hle : divRoundingUp (x * q96) L ≤ P - T := by
    rw [divRoundingUp_le_iff hL, q96, Nat.mul_comm (P - T)]
    exact hx
  unfold subQuotient
  rw [if_neg (by omega)]
  exact ⟨_, rfl, by omega, by omega⟩

end LuxPrecompile.Dex
