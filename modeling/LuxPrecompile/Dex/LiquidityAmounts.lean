import LuxPrecompile.Dex.SqrtPriceMath

/-!
# Token amounts of a liquidity range

`dex/liquidity_amounts.go`.  `GetAmountsForLiquidity` rounds both amounts down, for a mint as
for a burn.  `GetLiquidityForAmounts` rounds each candidate down, the token0 candidate in two
stages, and inside the range the smaller one counts.  So the liquidity it quotes never costs
more than the amounts it was quoted for.
-/

namespace LuxPrecompile.Dex

def getAmount0ForLiquidity (sqrtRatioAX96 sqrtRatioBX96 liquidity : ℕ) : Option ℕ :=
  getAmount0Delta sqrtRatioAX96 sqrtRatioBX96 liquidity false

def getAmount1ForLiquidity (sqrtRatioAX96 sqrtRatioBX96 liquidity : ℕ) : Option ℕ :=
  getAmount1Delta sqrtRatioAX96 sqrtRatioBX96 liquidity false

/-- `GetAmountsForLiquidity`: below the range only token0, above it only
token1, inside it both. -/
def getAmountsForLiquidity
    (sqrtRatioX96 sqrtRatioAX96 sqrtRatioBX96 liquidity : ℕ) : Option (ℕ × ℕ) :=
  let a := min sqrtRatioAX96 sqrtRatioBX96
  let b := max sqrtRatioAX96 sqrtRatioBX96
  if sqrtRatioX96 ≤ a then do
    let amount0 ← getAmount0ForLiquidity a b liquidity
    some (amount0, 0)
  else if b ≤ sqrtRatioX96 then do
    let amount1 ← getAmount1ForLiquidity a b liquidity
    some (0, amount1)
  else do
    let amount0 ← getAmount0ForLiquidity sqrtRatioX96 b liquidity
    let amount1 ← getAmount1ForLiquidity a sqrtRatioX96 liquidity
    some (amount0, amount1)

/-- The price, moved to the nearer end of the range when it lies outside. -/
def clampPrice (a b p : ℕ) : ℕ := max a (min p b)

/-- Both amounts are the floors of the exact ones over the part of the range
above, respectively below, the price. -/
theorem getAmountsForLiquidity_spec {p a b L : ℕ} {r : ℕ × ℕ}
    (ha : 0 < a) (hab : a ≤ b) (h : getAmountsForLiquidity p a b L = some r) :
    (∀ k, k ≤ r.1 ↔
      k * (clampPrice a b p * b) ≤ L * 2 ^ 96 * (b - clampPrice a b p)) ∧
    (∀ k, k ≤ r.2 ↔ k * 2 ^ 96 ≤ L * (clampPrice a b p - a)) := by
  simp only [getAmountsForLiquidity, hab, inf_of_le_left, sup_of_le_right] at h
  split_ifs at h with hlow hhigh
  · simp only [Option.bind_eq_bind, Option.bind_eq_some_iff, Option.some.injEq] at h
    obtain ⟨amount0, h0, rfl⟩ := h
    have hclamp : clampPrice a b p = a := by
      unfold clampPrice
      omega
    rw [hclamp]
    refine ⟨(getAmount0Delta_down_spec hab (Or.inl h0)).2, fun k => ?_⟩
    simp
  · simp only [Option.bind_eq_bind, Option.bind_eq_some_iff, Option.some.injEq] at h
    obtain ⟨amount1, h1, rfl⟩ := h
    have hclamp : clampPrice a b p = b := by
      unfold clampPrice
      omega
    rw [hclamp]
    refine ⟨fun k => ?_, getAmount1Delta_down_spec hab (Or.inl h1)⟩
    have hpos : 0 < b * b := Nat.mul_pos (by omega) (by omega)
    rw [Nat.sub_self, Nat.mul_zero, Nat.le_zero, Nat.le_zero, Nat.mul_eq_zero]
    omega
  · simp only [Option.bind_eq_bind, Option.bind_eq_some_iff, Option.some.injEq] at h
    obtain ⟨amount0, h0, amount1, h1, rfl⟩ := h
    have hclamp : clampPrice a b p = p := by
      unfold clampPrice
      omega
    rw [hclamp]
    exact ⟨(getAmount0Delta_down_spec (by omega) (Or.inl h0)).2,
      getAmount1Delta_down_spec (by omega) (Or.inl h1)⟩

/-! ## Liquidity for given token amounts -/

/-- `GetLiquidityForAmount0`: the product of the two prices is divided first. -/
def getLiquidityForAmount0 (sqrtRatioAX96 sqrtRatioBX96 amount0 : ℕ) : Option ℕ :=
  let a := min sqrtRatioAX96 sqrtRatioBX96
  let b := max sqrtRatioAX96 sqrtRatioBX96
  do
    let intermediate ← mulDiv a b q96
    if b - a = 0 then some 0 else mulDiv amount0 intermediate (b - a)

def getLiquidityForAmount1 (sqrtRatioAX96 sqrtRatioBX96 amount1 : ℕ) : Option ℕ :=
  let a := min sqrtRatioAX96 sqrtRatioBX96
  let b := max sqrtRatioAX96 sqrtRatioBX96
  if b - a = 0 then some 0 else mulDiv amount1 q96 (b - a)

/-- `GetLiquidityForAmounts`: below the range token0 decides, above it token1, inside it the
smaller candidate. -/
def getLiquidityForAmounts
    (sqrtRatioX96 sqrtRatioAX96 sqrtRatioBX96 amount0 amount1 : ℕ) : Option ℕ :=
  let a := min sqrtRatioAX96 sqrtRatioBX96
  let b := max sqrtRatioAX96 sqrtRatioBX96
  if sqrtRatioX96 ≤ a then getLiquidityForAmount0 a b amount0
  else if b ≤ sqrtRatioX96 then getLiquidityForAmount1 a b amount1
  else do
    let liq0 ← getLiquidityForAmount0 sqrtRatioX96 b amount0
    let liq1 ← getLiquidityForAmount1 a sqrtRatioX96 amount1
    some (if liq0 < liq1 then liq0 else liq1)

/-! ## What the liquidity costs at most -/

/-- Both floors of the token0 candidate err in favour of the amount. -/
theorem getLiquidityForAmount0_le {a b x L : ℕ} (hab : a ≤ b)
    (h : getLiquidityForAmount0 a b x = some L) :
    L * 2 ^ 96 * (b - a) ≤ x * (a * b) := by
  simp only [getLiquidityForAmount0, hab, inf_of_le_left, sup_of_le_right,
    Option.bind_eq_bind, Option.bind_eq_some_iff] at h
  obtain ⟨intermediate, hproduct, h⟩ := h
  obtain ⟨-, rfl, -⟩ := mulDiv_eq_some hproduct
  have hfirst : a * b / q96 * 2 ^ 96 ≤ a * b := Nat.div_mul_le_self _ _
  split_ifs at h with hdiff
  · simp [hdiff]
  · obtain ⟨-, rfl, -⟩ := mulDiv_eq_some h
    calc x * (a * b / q96) / (b - a) * 2 ^ 96 * (b - a)
        = x * (a * b / q96) / (b - a) * (b - a) * 2 ^ 96 := by ring
      _ ≤ x * (a * b / q96) * 2 ^ 96 :=
          Nat.mul_le_mul_right _ (Nat.div_mul_le_self _ _)
      _ = x * (a * b / q96 * 2 ^ 96) := by ring
      _ ≤ x * (a * b) := Nat.mul_le_mul_left x hfirst

theorem getLiquidityForAmount1_le {a b y L : ℕ} (hab : a ≤ b)
    (h : getLiquidityForAmount1 a b y = some L) : L * (b - a) ≤ y * 2 ^ 96 := by
  simp only [getLiquidityForAmount1, hab, inf_of_le_left, sup_of_le_right] at h
  split_ifs at h with hdiff
  · simp [hdiff]
  · obtain ⟨-, rfl, -⟩ := mulDiv_eq_some h
    exact Nat.div_mul_le_self _ _

/-- In every region the liquidity costs at most the amounts, over the part of the range
above, respectively below, the price. -/
theorem getLiquidityForAmounts_le {p a b x y L : ℕ} (hab : a ≤ b)
    (h : getLiquidityForAmounts p a b x y = some L) :
    L * 2 ^ 96 * (b - clampPrice a b p) ≤ x * (clampPrice a b p * b) ∧
      L * (clampPrice a b p - a) ≤ y * 2 ^ 96 := by
  simp only [getLiquidityForAmounts, hab, inf_of_le_left, sup_of_le_right] at h
  split_ifs at h with hlow hhigh
  · have hclamp : clampPrice a b p = a := by
      unfold clampPrice
      omega
    rw [hclamp]
    refine ⟨getLiquidityForAmount0_le hab h, ?_⟩
    simp
  · have hclamp : clampPrice a b p = b := by
      unfold clampPrice
      omega
    rw [hclamp]
    refine ⟨?_, getLiquidityForAmount1_le hab h⟩
    simp
  · simp only [Option.bind_eq_bind, Option.bind_eq_some_iff, Option.some.injEq] at h
    obtain ⟨liq0, h0, liq1, h1, hmin⟩ := h
    have hclamp : clampPrice a b p = p := by
      unfold clampPrice
      omega
    have hbound0 := getLiquidityForAmount0_le (by omega) h0
    have hbound1 := getLiquidityForAmount1_le (by omega) h1
    have hle0 : L ≤ liq0 := by
      rw [← hmin]
      split_ifs
      · exact le_rfl
      · omega
    have hle1 : L ≤ liq1 := by
      rw [← hmin]
      split_ifs
      · omega
      · exact le_rfl
    rw [hclamp]
    constructor
    · exact (Nat.mul_le_mul_right _ (Nat.mul_le_mul_right _ hle0)).trans hbound0
    · exact (Nat.mul_le_mul_right _ hle1).trans hbound1

/-! ## Back to the amounts -/

/-- The amounts of some liquidity can be given as long as token1's fits a word. -/
theorem getAmountsForLiquidity_isSome {p a b L : ℕ} (ha : 0 < a) (hab : a ≤ b)
    (hfits : L * (clampPrice a b p - a) < 2 ^ 256 * 2 ^ 96) :
    ∃ r, getAmountsForLiquidity p a b L = some r := by
  have hdelta0 : ∀ {c d : ℕ}, 0 < c → 0 < d → ∃ r, getAmount0ForLiquidity c d L = some r := by
    intro c d hc hd
    have hne : min c d * max c d ≠ 0 := by
      rw [min_mul_max]
      exact (Nat.mul_pos hc hd).ne'
    simp only [getAmount0ForLiquidity, getAmount0Delta, Bool.false_eq_true, if_false, bigDiv,
      if_neg hne]
    exact ⟨_, rfl⟩
  have hdelta1 : ∀ {c d : ℕ}, c ≤ d → L * (d - c) < 2 ^ 256 * 2 ^ 96 →
      ∃ r, getAmount1ForLiquidity c d L = some r := by
    intro c d hcd hlt
    have hquotient : L * (d - c) / q96 ≤ maxU256 := by
      have hdiv : L * (d - c) / q96 < 2 ^ 256 := Nat.div_lt_of_lt_mul (by rw [q96]; omega)
      unfold maxU256
      omega
    have hq : q96 ≠ 0 := by decide
    simp only [getAmount1ForLiquidity, getAmount1Delta, hcd, inf_of_le_left, sup_of_le_right,
      Bool.false_eq_true, if_false, mulDiv, if_neg hq, checkU256, if_neg (not_lt.mpr hquotient)]
    exact ⟨_, rfl⟩
  simp only [getAmountsForLiquidity, hab, inf_of_le_left, sup_of_le_right]
  by_cases hlow : p ≤ a
  · obtain ⟨r0, hr0⟩ := hdelta0 ha (lt_of_lt_of_le ha hab)
    rw [if_pos hlow, hr0]
    exact ⟨_, rfl⟩
  · rw [if_neg hlow]
    by_cases hhigh : b ≤ p
    · have hclamp : clampPrice a b p = b := by
        unfold clampPrice
        omega
      rw [hclamp] at hfits
      obtain ⟨r1, hr1⟩ := hdelta1 hab hfits
      rw [if_pos hhigh, hr1]
      exact ⟨_, rfl⟩
    · have hclamp : clampPrice a b p = p := by
        unfold clampPrice
        omega
      rw [hclamp] at hfits
      obtain ⟨r0, hr0⟩ := hdelta0 (by omega : 0 < p) (by omega : 0 < b)
      obtain ⟨r1, hr1⟩ := hdelta1 (by omega : a ≤ p) hfits
      rw [if_neg hhigh, hr0, hr1]
      exact ⟨_, rfl⟩

/-- The amounts of the quoted liquidity never exceed the amounts it was quoted for; and
where token1's is a word, the amounts of the quoted liquidity can always be given. -/
theorem quoted_liquidity_covered {p a b x y L : ℕ} (ha : 0 < a) (hab : a < b)
    (h : getLiquidityForAmounts p a b x y = some L) :
    (∀ r, getAmountsForLiquidity p a b L = some r → r.1 ≤ x ∧ r.2 ≤ y) ∧
      (y < 2 ^ 256 → ∃ r, getAmountsForLiquidity p a b L = some r) := by
  obtain ⟨hcost0, hcost1⟩ := getLiquidityForAmounts_le hab.le h
  refine ⟨fun r hr => ?_, fun hy => ?_⟩
  · obtain ⟨hfloor0, hfloor1⟩ := getAmountsForLiquidity_spec ha hab.le hr
    have hclamp : 0 < clampPrice a b p * b := by
      refine Nat.mul_pos ?_ (by omega)
      unfold clampPrice
      omega
    have hexact0 := ((hfloor0 r.1).mp le_rfl).trans hcost0
    have hexact1 := ((hfloor1 r.2).mp le_rfl).trans hcost1
    exact ⟨Nat.le_of_mul_le_mul_right hexact0 hclamp,
      Nat.le_of_mul_le_mul_right hexact1 (by norm_num)⟩
  · apply getAmountsForLiquidity_isSome ha hab.le
    exact lt_of_le_of_lt hcost1 (Nat.mul_lt_mul_of_pos_right hy (by norm_num))

/-- Inside a range token1 is the scarce one: it decides the liquidity, which asks for as much
of token0. -/
theorem quoted_liquidity_covered_sample :
    getLiquidityForAmounts (2 ^ 96) (2 ^ 95) (2 ^ 97) (10 ^ 18) (10 ^ 15) = some (2 * 10 ^ 15) ∧
      getAmountsForLiquidity (2 ^ 96) (2 ^ 95) (2 ^ 97) (2 * 10 ^ 15) =
        some (10 ^ 15, 10 ^ 15) ∧
      10 ^ 15 ≤ 10 ^ 18 ∧ 10 ^ 15 ≤ 10 ^ 15 := by
  have hquoted : getLiquidityForAmounts (2 ^ 96) (2 ^ 95) (2 ^ 97) (10 ^ 18) (10 ^ 15) =
      some (2 * 10 ^ 15) := by
    decide
  have hamounts : getAmountsForLiquidity (2 ^ 96) (2 ^ 95) (2 ^ 97) (2 * 10 ^ 15) =
      some (10 ^ 15, 10 ^ 15) := by
    decide
  exact ⟨hquoted, hamounts,
    (quoted_liquidity_covered (by decide) (by decide) hquoted).1 _ hamounts⟩

end LuxPrecompile.Dex
