import Mathlib.Analysis.SpecialFunctions.Log.Basic
import Mathlib.Tactic

/-!
# Logarithms of rounded fixed-point numbers

General facts behind integer logarithm tables and binary-logarithm loops: the
logarithm of a floored or rounded-up quotient stays within one unit over the
result of the exact one, and repeated squaring of a normalised mantissa reads
off the binary digits of its logarithm, with an error of one unit in the last
place for each squaring.
-/

namespace LuxPrecompile.Support

open Real

/-- A floor loses at most one unit, so its logarithm loses at most one over
it. -/
theorem log_floor_bounds {x : ℝ} {n : ℕ} (hn : 0 < n)
    (hle : (n : ℝ) ≤ x) (hlt : x < n + 1) :
    log n ≤ log x ∧ log x ≤ log n + 1 / n := by
  have hn' : (0 : ℝ) < n := by exact_mod_cast hn
  refine ⟨log_le_log hn' hle, ?_⟩
  have hratio : log (x / n) ≤ x / n - 1 :=
    log_le_sub_one_of_pos (div_pos (lt_of_lt_of_le hn' hle) hn')
  rw [log_div (ne_of_gt (lt_of_lt_of_le hn' hle)) (ne_of_gt hn')] at hratio
  have hstep : x / n - 1 ≤ 1 / n := by
    rw [div_sub_one (ne_of_gt hn')]
    exact (div_le_div_iff_of_pos_right hn').mpr (by linarith)
  linarith

/-- A quotient rounded up gains less than one unit. -/
theorem log_ceil_bounds {x : ℝ} {n : ℕ} (hx : 0 < x)
    (hle : x ≤ n) (hlt : (n : ℝ) < x + 1) :
    log x ≤ log n ∧ log n ≤ log x + 1 / x := by
  have hn' : (0 : ℝ) < n := lt_of_lt_of_le hx hle
  refine ⟨log_le_log hx hle, ?_⟩
  have hratio : log (n / x) ≤ n / x - 1 :=
    log_le_sub_one_of_pos (div_pos hn' hx)
  rw [log_div (ne_of_gt hn') (ne_of_gt hx)] at hratio
  have hstep : (n : ℝ) / x - 1 ≤ 1 / x := by
    rw [div_sub_one (ne_of_gt hx)]
    exact (div_le_div_iff_of_pos_right hx).mpr (by linarith)
  linarith

theorem log_mul_two_pow {a : ℕ} (ha : 0 < a) (k : ℕ) :
    log ((a * 2 ^ k : ℕ) : ℝ) = log a + k * log 2 := by
  have ha' : (a : ℝ) ≠ 0 := by exact_mod_cast ha.ne'
  rw [Nat.cast_mul, Nat.cast_pow, Nat.cast_ofNat,
    log_mul ha' (by positivity), log_pow]

theorem log_natMul {a b : ℕ} (ha : 0 < a) (hb : 0 < b) :
    log ((a * b : ℕ) : ℝ) = log a + log b := by
  have ha' : (a : ℝ) ≠ 0 := by exact_mod_cast ha.ne'
  have hb' : (b : ℝ) ≠ 0 := by exact_mod_cast hb.ne'
  rw [Nat.cast_mul, log_mul ha' hb']

/-- The real value of a natural quotient, between the floor and the floor plus
one. -/
theorem natDiv_bounds (a : ℕ) {b : ℕ} (hb : 0 < b) :
    ((a / b : ℕ) : ℝ) ≤ (a : ℝ) / b ∧ (a : ℝ) / b < ((a / b : ℕ) : ℝ) + 1 := by
  have hb' : (0 : ℝ) < b := by exact_mod_cast hb
  refine ⟨Nat.cast_div_le, ?_⟩
  rw [div_lt_iff₀ hb']
  have hlt : a < (a / b + 1) * b := by
    have := Nat.lt_mul_div_succ a hb
    rw [Nat.mul_comm]
    exact this
  exact_mod_cast hlt

section Squaring

variable {N : ℕ}

/-- The digit one squaring of a mantissa in `[2 ^ N, 2 ^ (N + 1))` produces. -/
def squareCarry (N r : ℕ) : ℕ := ((r * r) >>> N) >>> (N + 1)

/-- The mantissa after one squaring, scaled back into range. -/
def squareNext (N r : ℕ) : ℕ := ((r * r) >>> N) >>> squareCarry N r

/-- `k` squarings, collecting the digits into the first component. -/
def squareDigits (N : ℕ) : ℕ → ℕ × ℕ → ℕ × ℕ
  | 0, s => s
  | k + 1, s =>
      squareDigits N k (2 * s.1 + squareCarry N s.2, squareNext N s.2)

/-- The square of a normalised mantissa has one or two integer bits, and the
digit tells which. -/
theorem squareCarry_cases {r : ℕ} (hlo : 2 ^ N ≤ r) (hhi : r < 2 ^ (N + 1)) :
    (squareCarry N r = 0 ∧ 2 ^ N ≤ r * r / 2 ^ N ∧
      r * r / 2 ^ N < 2 ^ (N + 1)) ∨
    (squareCarry N r = 1 ∧ 2 ^ (N + 1) ≤ r * r / 2 ^ N ∧
      r * r / 2 ^ N < 2 ^ (N + 2)) := by
  have hpos : 0 < 2 ^ N := Nat.two_pow_pos N
  have hsq : 2 ^ N * 2 ^ N ≤ r * r := Nat.mul_le_mul hlo hlo
  have hlow : 2 ^ N ≤ r * r / 2 ^ N := (Nat.le_div_iff_mul_le hpos).mpr hsq
  have hhigh : r * r / 2 ^ N < 2 ^ (N + 2) := by
    rw [Nat.div_lt_iff_lt_mul hpos]
    have : r * r < 2 ^ (N + 1) * 2 ^ (N + 1) :=
      Nat.mul_lt_mul_of_lt_of_le hhi hhi.le (by positivity)
    calc r * r < 2 ^ (N + 1) * 2 ^ (N + 1) := this
      _ = 2 ^ (N + 2) * 2 ^ N := by ring
  have hcarry : squareCarry N r = r * r / 2 ^ N / 2 ^ (N + 1) := by
    simp only [squareCarry, Nat.shiftRight_eq_div_pow]
  by_cases hbig : r * r / 2 ^ N < 2 ^ (N + 1)
  · left
    refine ⟨?_, hlow, hbig⟩
    rw [hcarry]
    exact Nat.div_eq_of_lt hbig
  · right
    have hge : 2 ^ (N + 1) ≤ r * r / 2 ^ N := by omega
    refine ⟨?_, hge, hhigh⟩
    rw [hcarry]
    apply Nat.div_eq_of_lt_le
    · simpa using hge
    · calc r * r / 2 ^ N < 2 ^ (N + 2) := hhigh
        _ = (1 + 1) * 2 ^ (N + 1) := by ring

/-- One squaring: the mantissa stays in range and the digit together with the
new mantissa carry twice the logarithm, up to one unit in the last place. -/
theorem log_squareNext {r : ℕ} (hlo : 2 ^ N ≤ r) (hhi : r < 2 ^ (N + 1)) :
    (2 ^ N ≤ squareNext N r ∧ squareNext N r < 2 ^ (N + 1)) ∧
    squareCarry N r * log 2 + log (squareNext N r) ≤
      2 * log r - N * log 2 ∧
    2 * log r - N * log 2 ≤
      squareCarry N r * log 2 + log (squareNext N r) + 1 / 2 ^ N := by
  have hr : (0 : ℝ) < r := by
    exact_mod_cast lt_of_lt_of_le (Nat.two_pow_pos N) hlo
  have hnext : squareNext N r = r * r / 2 ^ N / 2 ^ squareCarry N r := by
    simp only [squareNext, Nat.shiftRight_eq_div_pow]
  have hrange : 2 ^ N ≤ squareNext N r ∧ squareNext N r < 2 ^ (N + 1) := by
    rw [hnext]
    rcases squareCarry_cases hlo hhi with ⟨hc, h1, h2⟩ | ⟨hc, h1, h2⟩
    · rw [hc]
      simpa using ⟨h1, h2⟩
    · rw [hc, pow_one]
      constructor
      · rw [Nat.le_div_iff_mul_le (by norm_num)]
        calc 2 ^ N * 2 = 2 ^ (N + 1) := by ring
          _ ≤ _ := h1
      · rw [Nat.div_lt_iff_lt_mul (by norm_num)]
        calc _ < 2 ^ (N + 2) := h2
          _ = 2 ^ (N + 1) * 2 := by ring
  refine ⟨hrange, ?_⟩
  -- both floors together are one floor of the exact scaled square
  have hfloor : squareNext N r = r * r / (2 ^ N * 2 ^ squareCarry N r) := by
    rw [hnext, Nat.div_div_eq_div_mul]
  have hden : 0 < 2 ^ N * 2 ^ squareCarry N r := by positivity
  have hbounds := natDiv_bounds (r * r) hden
  rw [← hfloor] at hbounds
  have hpos : 0 < squareNext N r := lt_of_lt_of_le (Nat.two_pow_pos N) hrange.1
  have hlog := log_floor_bounds hpos hbounds.1 hbounds.2
  have hexact : log (((r * r : ℕ) : ℝ) /
      ((2 ^ N * 2 ^ squareCarry N r : ℕ) : ℝ)) =
      2 * log r - N * log 2 - squareCarry N r * log 2 := by
    push_cast
    rw [log_div (by positivity) (by positivity), log_mul hr.ne' hr.ne',
      log_mul (by positivity) (by positivity), log_pow, log_pow]
    ring
  rw [hexact] at hlog
  have hulp : 1 / (squareNext N r : ℝ) ≤ 1 / 2 ^ N := by
    apply one_div_le_one_div_of_le (by positivity)
    exact_mod_cast hrange.1
  constructor
  · linarith [hlog.1]
  · linarith [hlog.2]

/-- `k` squarings: the collected digits are the binary logarithm of the
mantissa to `k` places. -/
theorem log_squareDigits (k : ℕ) {a r : ℕ}
    (hlo : 2 ^ N ≤ r) (hhi : r < 2 ^ (N + 1)) :
    let s := squareDigits N k (a, r)
    let start := a * log 2 + (log r - N * log 2)
    s.1 * log 2 ≤ 2 ^ k * start ∧
    2 ^ k * start ≤ s.1 * log 2 + log 2 + 2 ^ k * (1 / 2 ^ N) := by
  induction k generalizing a r with
  | zero =>
      have hr : (0 : ℝ) < r := by
        exact_mod_cast lt_of_lt_of_le (Nat.two_pow_pos N) hlo
      have hlow : N * log 2 ≤ log r := by
        rw [← log_pow]
        exact log_le_log (by positivity) (by exact_mod_cast hlo)
      have hhigh : log r ≤ (N + 1) * log 2 := by
        have : log r ≤ log ((2 : ℝ) ^ (N + 1)) :=
          log_le_log hr (by exact_mod_cast hhi.le)
        rwa [log_pow, Nat.cast_add, Nat.cast_one] at this
      have hulp : (0 : ℝ) ≤ 1 / 2 ^ N := by positivity
      simp only [squareDigits, pow_zero, one_mul]
      constructor
      · linarith
      · linarith
  | succ k ih =>
      obtain ⟨⟨hlo', hhi'⟩, hle, hge⟩ := log_squareNext hlo hhi
      have hih := ih (a := 2 * a + squareCarry N r) hlo' hhi'
      simp only [squareDigits] at hih ⊢
      push_cast at hih ⊢
      have hk : (0 : ℝ) < 2 ^ k := by positivity
      have hstepLo : (2 * a + squareCarry N r : ℝ) * log 2 +
          (log (squareNext N r) - N * log 2) ≤
          2 * (a * log 2 + (log r - N * log 2)) := by
        linarith
      have hstepHi : 2 * (a * log 2 + (log r - N * log 2)) ≤
          (2 * a + squareCarry N r : ℝ) * log 2 +
          (log (squareNext N r) - N * log 2) + 1 / 2 ^ N := by
        linarith
      have hmulLo := mul_le_mul_of_nonneg_left hstepLo hk.le
      have hmulHi := mul_le_mul_of_nonneg_left hstepHi hk.le
      have hpow : (2 : ℝ) ^ (k + 1) = 2 ^ k * 2 := pow_succ 2 k
      rw [hpow]
      constructor
      · linarith [hih.1]
      · linarith [hih.2]

end Squaring

end LuxPrecompile.Support
