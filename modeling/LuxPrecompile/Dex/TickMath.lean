import LuxPrecompile.Dex.FullMath

/-!
# Ticks and square-root prices

The two conversions of `dex/tick_math.go`.  `getSqrtRatioAtTick` multiplies one
`Q128.128` constant for each set bit of the tick and inverts the product for a
positive tick; `getTickAtSqrtRatio` takes a binary logarithm by repeated
squaring and corrects the candidate by one comparison.
-/

namespace LuxPrecompile.Dex

def minTick : ℤ := -887272
def maxTick : ℤ := 887272
def minSqrtRatio : ℕ := 4295128739
def maxSqrtRatio : ℕ := 1461446703485210103287273052203988822378723970342

def q96 : ℕ := 2 ^ 96
def q128 : ℕ := 2 ^ 128

/-- The constant of bit `i`, `2 ^ 128 * 1.0001 ^ (-2 ^ i / 2)`. -/
def sqrtFactor : ℕ → ℕ
  | 0 => 0xfffcb933bd6fad37aa2d162d1a594001
  | 1 => 0xfff97272373d413259a46990580e213a
  | 2 => 0xfff2e50f5f656932ef12357cf3c7fdcc
  | 3 => 0xffe5caca7e10e4e61c3624eaa0941cd0
  | 4 => 0xffcb9843d60f6159c9db58835c926644
  | 5 => 0xff973b41fa98c081472e6896dfb254c0
  | 6 => 0xff2ea16466c96a3843ec78b326b52861
  | 7 => 0xfe5dee046a99a2a811c461f1969c3053
  | 8 => 0xfcbe86c7900a88aedcffc83b479aa3a4
  | 9 => 0xf987a7253ac413176f2b074cf7815e54
  | 10 => 0xf3392b0822b70005940c7a398e4b70f3
  | 11 => 0xe7159475a2c29b7443b29c7fa6e889d9
  | 12 => 0xd097f3bdfd2022b8845ad8f792aa5825
  | 13 => 0xa9f746462d870fdf8a65dc1f90e061e5
  | 14 => 0x70d869a156d2a1b890bb3df62baf32f7
  | 15 => 0x31be135f97d08fd981231505542fcfa6
  | 16 => 0x9aa508b5b7a84e1c677de54f3e99bc9
  | 17 => 0x5d6af8dedb81196699c329225ee604
  | 18 => 0x2216e584f5fa1ea926041bedfe98
  | 19 => 0x48a170391f7dc42444e8fa2
  | _ => 0

/-- `mulShift`: a `Q128.128` product. -/
def mulShift (r f : ℕ) : ℕ := (r * f) >>> 128

/-- The product over the bits below `n`: a set bit zero picks the starting
value, each further set bit multiplies its constant in. -/
def ratioBelow (absTick : ℕ) : ℕ → ℕ
  | 0 => 2 ^ 128
  | n + 1 =>
      if absTick.testBit n then
        if n = 0 then sqrtFactor 0
        else mulShift (ratioBelow absTick n) (sqrtFactor n)
      else ratioBelow absTick n

/-- The `Q128.128` ratio of a non-positive tick. -/
def ratioQ128 (absTick : ℕ) : ℕ := ratioBelow absTick 20

/-- From `Q128.128` to `Q96`, rounding up. -/
def toQ96 (ratio : ℕ) : ℕ :=
  if 0 < ratio % 2 ^ 32 then (ratio >>> 32) + 1 else ratio >>> 32

/-- The price `GetSqrtRatioAtTick` computes for a tick in range. -/
def sqrtRatio (tick : ℤ) : ℕ :=
  if 0 < tick then toQ96 (maxU256 / ratioQ128 tick.natAbs)
  else toQ96 (ratioQ128 tick.natAbs)

/-- `GetSqrtRatioAtTick`; `none` is its out-of-range error. -/
def getSqrtRatioAtTick (tick : ℤ) : Option ℕ :=
  if tick < minTick ∨ maxTick < tick then none else some (sqrtRatio tick)

theorem getSqrtRatioAtTick_eq {tick : ℤ} (hmin : minTick ≤ tick) (hmax : tick ≤ maxTick) :
    getSqrtRatioAtTick tick = some (sqrtRatio tick) := by
  rw [getSqrtRatioAtTick, if_neg (by omega)]

/-- One squaring of the logarithm loop: bit `i` of `log2` is the carry. -/
def logStep (i : ℕ) (s : ℕ × ℕ) : ℕ × ℕ :=
  let ratio := (s.2 * s.2) >>> 127
  let f := ratio >>> 128
  (s.1 ||| (f <<< i), ratio >>> f)

/-- The loop `for i := 63; i >= 50; i--`. -/
def logLoop (s : ℕ × ℕ) : ℕ × ℕ :=
  [63, 62, 61, 60, 59, 58, 57, 56, 55, 54, 53, 52, 51, 50].foldl
    (fun s i => logStep i s) s

/-- `uint256ToInt256`: the two's-complement reading of a word. -/
def uint256ToInt256 (x : ℕ) : ℤ :=
  if 2 ^ 255 ≤ x then (x : ℤ) - 2 ^ 256 else x

/-- The ratio scaled into `[2 ^ 127, 2 ^ 128)`. -/
def normalizeRatio (ratio : ℕ) : ℕ :=
  let msb := Nat.log2 ratio
  if 128 ≤ msb then ratio >>> (msb - 127) else ratio <<< (127 - msb)

/-- `log_2` of a `Q128.128` ratio as a signed 64-bit fixed-point number. -/
def logTwo (ratio : ℕ) : ℤ :=
  let intPart : ℤ := ((Nat.log2 ratio : ℤ) - 128) * 2 ^ 64
  let log2 := if intPart < 0 then intPart + 2 ^ 256 else intPart
  let s := logLoop (log2.toNat, normalizeRatio ratio)
  uint256ToInt256 (s.1 &&& maxU256)

def logFactor : ℤ := 255738958999603826347141
def tickLowOffset : ℤ := 3402992956809132418596140100660247210
def tickHighOffset : ℤ := 291339464771989622907027621153398088495

/-- `GetTickAtSqrtRatio`; `none` is its out-of-range error. -/
def getTickAtSqrtRatio (sqrtPriceX96 : ℕ) : Option ℤ :=
  if sqrtPriceX96 < minSqrtRatio ∨ maxSqrtRatio ≤ sqrtPriceX96 then none
  else
    let logSqrt10001 := logTwo (sqrtPriceX96 <<< 32) * logFactor
    let tickLow := (logSqrt10001 - tickLowOffset) / 2 ^ 128
    let tickHigh := (logSqrt10001 + tickHighOffset) / 2 ^ 128
    if tickLow = tickHigh then some tickLow
    else
      match getSqrtRatioAtTick tickHigh with
      | none => some tickLow
      | some sqrtAtHighTick =>
          if sqrtAtHighTick ≤ sqrtPriceX96 then some tickHigh
          else some tickLow

end LuxPrecompile.Dex
