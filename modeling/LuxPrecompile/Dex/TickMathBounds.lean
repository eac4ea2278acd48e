import LuxPrecompile.Dex.TickMath
import LuxPrecompile.Support.BinaryLog
import Mathlib.Analysis.Complex.ExponentialBounds
import Mathlib.Analysis.SpecialFunctions.Log.Deriv

/-!
# Tick prices on a logarithmic scale

Every integer result of `tick_math.go` is compared with the exact price
`2 ^ 96 * 1.0001 ^ (t / 2)` through its logarithm.  The constants of the table
are correct to about seventy bits, so the computed price of a tick is within
`2 ^ (-30)` of the exact one in logarithm, while neighbouring ticks are
`5e-5` apart.  Monotonicity of the tick prices and the correctness of the
inverse both follow from that gap.
-/

namespace LuxPrecompile.Dex

open Real LuxPrecompile.Support

/-- Half the logarithm of the price ratio of neighbouring ticks. -/
noncomputable def tickLog : ℝ := log 1.0001 / 2

theorem tickLog_bounds :
    4.99975001666e-5 < tickLog ∧ tickLog < 4.99975001668e-5 := by
  have h := abs_log_sub_add_sum_range_le (x := -0.0001)
    (by rw [abs_lt]; constructor <;> norm_num) 3
  rw [abs_le] at h
  norm_num [Finset.sum_range_succ] at h
  unfold tickLog
  constructor
  · norm_num
    linarith [h.1, h.2]
  · norm_num
    linarith [h.1, h.2]

theorem tickLog_pos : 0 < tickLog := by
  linarith [tickLog_bounds.1]

/-! ## The table of constants -/

/-- Two positive integers that agree to ninety-two bits have logarithms that
agree to ninety-one. -/
theorem abs_log_sub_log_le {a b : ℕ} (hb : 0 < b)
    (hle : a * 2 ^ 92 ≤ b * (2 ^ 92 + 1))
    (hge : b * (2 ^ 92 - 1) ≤ a * 2 ^ 92) :
    |log a - log b| ≤ 1 / 2 ^ 91 := by
  have ha : 0 < a := by
    rcases Nat.eq_zero_or_pos a with rfl | ha
    · omega
    · exact ha
  have ha' : (0 : ℝ) < a := by exact_mod_cast ha
  have hb' : (0 : ℝ) < b := by exact_mod_cast hb
  have hle' : (a : ℝ) * 2 ^ 92 ≤ b * (2 ^ 92 + 1) := by exact_mod_cast hle
  have hge' : (b : ℝ) * (2 ^ 92 - 1) ≤ a * 2 ^ 92 := by
    have : ((b * (2 ^ 92 - 1) : ℕ) : ℝ) ≤ ((a * 2 ^ 92 : ℕ) : ℝ) := by
      exact_mod_cast hge
    norm_num at this ⊢
    linarith
  rw [abs_le]
  constructor
  · have hratio := log_le_sub_one_of_pos (div_pos hb' ha')
    rw [log_div hb'.ne' ha'.ne'] at hratio
    have : (b : ℝ) / a - 1 ≤ 1 / 2 ^ 91 := by
      rw [div_sub_one ha'.ne', div_le_iff₀ ha']
      norm_num at hge' ⊢
      linarith
    linarith
  · have hratio := log_le_sub_one_of_pos (div_pos ha' hb')
    rw [log_div ha'.ne' hb'.ne'] at hratio
    have : (a : ℝ) / b - 1 ≤ 1 / 2 ^ 91 := by
      rw [div_sub_one hb'.ne', div_le_iff₀ hb']
      norm_num at hle' ⊢
      linarith
    linarith

theorem sqrtFactor_succ_sq (i : Fin 19) :
    0 < sqrtFactor i ∧
    sqrtFactor (i + 1) * 2 ^ 128 * 2 ^ 92 ≤
      sqrtFactor i * sqrtFactor i * (2 ^ 92 + 1) ∧
    sqrtFactor i * sqrtFactor i * (2 ^ 92 - 1) ≤
      sqrtFactor (i + 1) * 2 ^ 128 * 2 ^ 92 := by
  revert i
  decide

theorem sqrtFactor_pos {i : ℕ} (hi : i < 20) : 0 < sqrtFactor i := by
  have h : ∀ j : Fin 20, 0 < sqrtFactor j := by decide
  exact h ⟨i, hi⟩

/-- The constant of bit `i` is `2 ^ 128 * exp (-2 ^ i * tickLog)`. -/
theorem log_sqrtFactor {i : ℕ} (hi : i < 20) :
    |log (sqrtFactor i) - 128 * log 2 + 2 ^ i * tickLog| ≤
      (2 ^ (i + 1) - 1) * (1 / 2 ^ 91) := by
  induction i with
  | zero =>
      have hpos : 0 < sqrtFactor 0 := sqrtFactor_pos hi
      have h := abs_log_sub_log_le
        (a := sqrtFactor 0 * sqrtFactor 0 * 10001) (b := 10000 * 2 ^ 256)
        (by norm_num) (by decide) (by decide)
      have hratio : log 1.0001 = log 10001 - log 10000 := by
        rw [← log_div (by norm_num) (by norm_num)]
        norm_num
      have hlog : log ((sqrtFactor 0 * sqrtFactor 0 * 10001 : ℕ) : ℝ) -
          log ((10000 * 2 ^ 256 : ℕ) : ℝ) =
          2 * (log (sqrtFactor 0) - 128 * log 2 + tickLog) := by
        rw [log_mul_two_pow (by norm_num), log_natMul (by positivity)
          (by norm_num), log_natMul hpos hpos, tickLog, hratio]
        push_cast
        ring
      rw [hlog, abs_mul] at h
      norm_num at h ⊢
      linarith [abs_nonneg (log (sqrtFactor 0) - 128 * log 2 + tickLog)]
  | succ i ih =>
      have hprev := ih (by omega)
      obtain ⟨hpos, hle, hge⟩ := sqrtFactor_succ_sq ⟨i, by omega⟩
      simp only at hpos hle hge
      have h := abs_log_sub_log_le (Nat.mul_pos hpos hpos) hle hge
      have hlog : log ((sqrtFactor (i + 1) * 2 ^ 128 : ℕ) : ℝ) -
          log ((sqrtFactor i * sqrtFactor i : ℕ) : ℝ) =
          (log (sqrtFactor (i + 1)) - 128 * log 2 + 2 ^ (i + 1) * tickLog) -
          2 * (log (sqrtFactor i) - 128 * log 2 + 2 ^ i * tickLog) := by
        rw [log_mul_two_pow (sqrtFactor_pos hi), log_natMul hpos hpos]
        push_cast
        ring
      rw [hlog] at h
      have hpow : (2 : ℝ) ^ (i + 1 + 1) = 2 * 2 ^ (i + 1) := pow_succ' 2 (i + 1)
      rw [abs_le] at h hprev ⊢
      rw [hpow]
      constructor
      · linarith [h.1, hprev.1]
      · linarith [h.2, hprev.2]

/-! ## The price of a tick -/

/-- A fixed-point product in the table's range loses at most `2 ^ (-62)` of
its logarithm. -/
theorem log_mulShift {r f : ℕ} (hr : 0 < r) (hf : 0 < f)
    (hlarge : 191 * log 2 ≤ log r + log f) :
    0 < mulShift r f ∧
    log (mulShift r f) ≤ log r + log f - 128 * log 2 ∧
    log r + log f - 128 * log 2 ≤ log (mulShift r f) + 1 / 2 ^ 62 := by
  have hprod : 0 < r * f := Nat.mul_pos hr hf
  have hpow : (2 : ℝ) ^ 191 ≤ ((r * f : ℕ) : ℝ) := by
    have hlog : log ((2 : ℝ) ^ 191) ≤ log ((r * f : ℕ) : ℝ) := by
      rw [log_pow, log_natMul hr hf]
      exact_mod_cast hlarge
    exact (log_le_log_iff (by positivity) (by exact_mod_cast hprod)).mp hlog
  have hnat : 2 ^ 191 ≤ r * f := by exact_mod_cast hpow
  have hfloor : mulShift r f = r * f / 2 ^ 128 := by
    simp only [mulShift, Nat.shiftRight_eq_div_pow]
  have hbig : 2 ^ 63 ≤ mulShift r f := by
    rw [hfloor, Nat.le_div_iff_mul_le (by norm_num)]
    calc 2 ^ 63 * 2 ^ 128 = 2 ^ 191 := by norm_num
      _ ≤ r * f := hnat
  have hpos : 0 < mulShift r f := lt_of_lt_of_le (by norm_num) hbig
  have hbounds := natDiv_bounds (r * f) (b := 2 ^ 128) (by norm_num)
  rw [← hfloor] at hbounds
  have hlog := log_floor_bounds hpos hbounds.1 hbounds.2
  have hexact : log (((r * f : ℕ) : ℝ) / ((2 ^ 128 : ℕ) : ℝ)) =
      log r + log f - 128 * log 2 := by
    rw [log_div (by positivity) (by norm_num), log_natMul hr hf,
      Nat.cast_pow, log_pow]
    norm_num
  rw [hexact] at hlog
  have hulp : 1 / (mulShift r f : ℝ) ≤ 1 / 2 ^ 62 := by
    apply one_div_le_one_div_of_le (by positivity)
    exact_mod_cast le_trans (by norm_num) hbig
  exact ⟨hpos, hlog.1, by linarith [hlog.2]⟩

theorem ratioBelow_succ (a n : ℕ) :
    ratioBelow a (n + 1) =
      if a.testBit n then mulShift (ratioBelow a n) (sqrtFactor n)
      else ratioBelow a n := by
  rw [ratioBelow]
  split_ifs with hbit hn
  · subst hn
    simp only [ratioBelow]
    decide
  · rfl
  · rfl

/-- The product of the first `n` bits, on the logarithmic scale. -/
theorem log_ratioBelow {a : ℕ} (ha : a ≤ 887272) {n : ℕ} (hn : n ≤ 20) :
    0 < ratioBelow a n ∧
    |log (ratioBelow a n) - 128 * log 2 + (a % 2 ^ n : ℕ) * tickLog| ≤
      n * (1 / 2 ^ 60) := by
  have hlog2 := log_two_gt_d9
  have htick := tickLog_bounds
  induction n with
  | zero =>
      refine ⟨by norm_num [ratioBelow], ?_⟩
      have hone : log ((2 ^ 128 : ℕ) : ℝ) = 128 * log 2 := by
        rw [Nat.cast_pow, log_pow]
        norm_num
      simp only [ratioBelow, hone, pow_zero, Nat.mod_one]
      simp
  | succ n ih =>
      obtain ⟨hpos, hprev⟩ := ih (by omega)
      have hmod : a % 2 ^ (n + 1) =
          a % 2 ^ n + 2 ^ n * (a.testBit n).toNat := by
        rw [Nat.mod_pow_succ, Nat.testBit_eq_decide_div_mod_eq]
        rcases Nat.mod_two_eq_zero_or_one (a / 2 ^ n) with h | h <;> simp [h]
      rw [hmod, ratioBelow_succ]
      by_cases hbit : a.testBit n
      · simp only [hbit, if_true, Bool.toNat_true, mul_one]
        have hfactor := log_sqrtFactor (i := n) (by omega)
        have hmodLe : a % 2 ^ n + 2 ^ n ≤ 887272 := by
          have := Nat.mod_le a (2 ^ (n + 1))
          rw [hmod, hbit, Bool.toNat_true, mul_one] at this
          omega
        have hmodLe' : ((a % 2 ^ n : ℕ) : ℝ) + 2 ^ n ≤ 887272 := by
          exact_mod_cast hmodLe
        have hsmall : ((2 : ℝ) ^ (n + 1) - 1) * (1 / 2 ^ 91) ≤ 1 / 2 ^ 62 := by
          have : (2 : ℝ) ^ (n + 1) ≤ 2 ^ 20 :=
            pow_le_pow_right₀ (by norm_num) (by omega)
          norm_num at this ⊢
          linarith
        have hcount : (n : ℝ) ≤ 20 := by exact_mod_cast (by omega)
        rw [abs_le] at hprev hfactor
        have hlarge : 191 * log 2 ≤
            log (ratioBelow a n) + log (sqrtFactor n) := by
          have hdrop : (((a % 2 ^ n : ℕ) : ℝ) + 2 ^ n) * tickLog ≤
              887272 * 4.99975001668e-5 :=
            mul_le_mul hmodLe' htick.2.le tickLog_pos.le (by norm_num)
          norm_num at hprev hfactor hdrop hsmall ⊢
          linarith [hprev.1, hfactor.1]
        obtain ⟨hpos', hle, hge⟩ :=
          log_mulShift hpos (sqrtFactor_pos (by omega)) hlarge
        refine ⟨hpos', ?_⟩
        rw [abs_le]
        push_cast at hprev hfactor hsmall ⊢
        norm_num at hprev hfactor hle hge hsmall ⊢
        constructor
        · linarith [hprev.1, hfactor.1]
        · linarith [hprev.2, hfactor.2]
      · simp only [hbit, Bool.false_eq_true, if_false, Bool.toNat_false,
          mul_zero, add_zero]
        refine ⟨hpos, le_trans hprev ?_⟩
        push_cast
        norm_num

theorem log_ratioQ128 {a : ℕ} (ha : a ≤ 887272) :
    0 < ratioQ128 a ∧
    |log (ratioQ128 a) - 128 * log 2 + a * tickLog| ≤ 1 / 2 ^ 55 := by
  obtain ⟨hpos, h⟩ := log_ratioBelow ha (n := 20) le_rfl
  rw [Nat.mod_eq_of_lt (by omega : a < 2 ^ 20)] at h
  refine ⟨hpos, le_trans h ?_⟩
  norm_num

theorem two_pow_le_of_log {k r : ℕ} (hr : 0 < r) (h : k * log 2 ≤ log r) :
    2 ^ k ≤ r := by
  have hlog : log ((2 : ℝ) ^ k) ≤ log r := by
    rw [log_pow]
    exact h
  have hreal := (log_le_log_iff (by positivity) (by exact_mod_cast hr)).mp hlog
  exact_mod_cast hreal

theorem toQ96_eq (r : ℕ) : toQ96 r = divRoundingUp r (2 ^ 32) := by
  simp only [toQ96, divRoundingUp, Nat.shiftRight_eq_div_pow]

/-- Rounding a `Q128.128` ratio up to `Q96` moves its logarithm by at most
`2 ^ (-31)` in the range of tick prices. -/
theorem log_toQ96 {r : ℕ} (hr : 2 ^ 63 ≤ r) :
    0 < toQ96 r ∧ log r - 32 * log 2 ≤ log (toQ96 r) ∧
      log (toQ96 r) ≤ log r - 32 * log 2 + 1 / 2 ^ 31 := by
  have hrpos : 0 < r := lt_of_lt_of_le (by norm_num) hr
  have hup := le_divRoundingUp_mul r (y := 2 ^ 32) (by norm_num)
  have hdown : divRoundingUp r (2 ^ 32) * 2 ^ 32 < r + 2 ^ 32 := by
    unfold divRoundingUp
    split_ifs <;> omega
  rw [← toQ96_eq] at hup hdown
  have hpos : 0 < toQ96 r := by
    by_contra h
    have hz : toQ96 r = 0 := by omega
    rw [hz] at hup
    omega
  have hx : (2 : ℝ) ^ 31 ≤ (r : ℝ) / 2 ^ 32 := by
    rw [le_div_iff₀ (by norm_num)]
    have : ((2 ^ 63 : ℕ) : ℝ) ≤ r := by exact_mod_cast hr
    norm_num at this ⊢
    linarith
  have hle : (r : ℝ) / 2 ^ 32 ≤ toQ96 r := by
    rw [div_le_iff₀ (by norm_num)]
    exact_mod_cast hup
  have hlt : (toQ96 r : ℝ) < r / 2 ^ 32 + 1 := by
    rw [div_add_one (by norm_num), lt_div_iff₀ (by norm_num)]
    exact_mod_cast hdown
  have hlog := log_ceil_bounds (lt_of_lt_of_le (by norm_num) hx) hle hlt
  have hexact : log ((r : ℝ) / 2 ^ 32) = log r - 32 * log 2 := by
    rw [log_div (by exact_mod_cast hrpos.ne') (by norm_num), log_pow]
    norm_num
  rw [hexact] at hlog
  have hulp : 1 / ((r : ℝ) / 2 ^ 32) ≤ 1 / 2 ^ 31 :=
    one_div_le_one_div_of_le (by norm_num) hx
  exact ⟨hpos, hlog.1, by linarith [hlog.2]⟩

/-- Inverting a ratio for a positive tick. -/
theorem log_maxU256_div {r : ℕ} (hr : 0 < r) (hle : r ≤ 2 ^ 128) :
    2 ^ 127 ≤ maxU256 / r ∧
    |log (maxU256 / r : ℕ) - (256 * log 2 - log r)| ≤ 1 / 2 ^ 90 := by
  have hbig : 2 ^ 127 ≤ maxU256 / r := by
    rw [Nat.le_div_iff_mul_le hr]
    calc 2 ^ 127 * r ≤ 2 ^ 127 * 2 ^ 128 := Nat.mul_le_mul_left _ hle
      _ ≤ maxU256 := by decide
  refine ⟨hbig, ?_⟩
  have hpos : 0 < maxU256 / r := lt_of_lt_of_le (by norm_num) hbig
  have hbounds := natDiv_bounds maxU256 hr
  have hlog := log_floor_bounds hpos hbounds.1 hbounds.2
  have hmax := abs_log_sub_log_le (a := maxU256) (b := 2 ^ 256)
    (by norm_num) (by decide) (by decide)
  have hpow : log ((2 ^ 256 : ℕ) : ℝ) = 256 * log 2 := by
    rw [Nat.cast_pow, log_pow]
    norm_num
  have hexact : log ((maxU256 : ℝ) / r) = log maxU256 - log r :=
    log_div (by norm_num [maxU256]) (by exact_mod_cast hr.ne')
  rw [hexact] at hlog
  have hulp : 1 / ((maxU256 / r : ℕ) : ℝ) ≤ 1 / 2 ^ 127 := by
    apply one_div_le_one_div_of_le (by positivity)
    exact_mod_cast hbig
  rw [hpow, abs_le] at hmax
  rw [abs_le]
  norm_num at hmax hulp ⊢
  constructor
  · linarith [hlog.2, hmax.1, one_div ((maxU256 / r : ℕ) : ℝ)]
  · linarith [hlog.1, hmax.2]

/-- The computed price of a tick is the exact one to `2 ^ (-30)` in
logarithm. -/
theorem log_sqrtRatio {t : ℤ} (hmin : minTick ≤ t) (hmax : t ≤ maxTick) :
    0 < sqrtRatio t ∧
      |log (sqrtRatio t) - 96 * log 2 - t * tickLog| ≤ 1 / 2 ^ 30 := by
  have hlog2 := log_two_gt_d9
  have htick := tickLog_bounds
  have habs : t.natAbs ≤ 887272 := by
    unfold minTick at hmin
    unfold maxTick at hmax
    omega
  obtain ⟨hpos, hratio⟩ := log_ratioQ128 habs
  have hdrop : (t.natAbs : ℝ) * tickLog ≤ 887272 * 4.99975001668e-5 :=
    mul_le_mul (by exact_mod_cast habs) htick.2.le tickLog_pos.le (by norm_num)
  rw [abs_le] at hratio
  unfold sqrtRatio
  split_ifs with ht
  · have hcast : (t.natAbs : ℝ) = t := by
      rw [Nat.cast_natAbs, abs_of_pos ht]
    rw [hcast] at hratio
    have hone : (1 : ℝ) ≤ t := by exact_mod_cast ht
    have hgap : tickLog ≤ t * tickLog := le_mul_of_one_le_left tickLog_pos.le hone
    have hle : ratioQ128 t.natAbs ≤ 2 ^ 128 := by
      have hlog : log (ratioQ128 t.natAbs) ≤ log ((2 : ℝ) ^ 128) := by
        rw [log_pow]
        norm_num at hratio ⊢
        linarith [hratio.2]
      have hreal := (log_le_log_iff (by exact_mod_cast hpos)
        (by positivity)).mp hlog
      exact_mod_cast hreal
    obtain ⟨hbig, hinv⟩ := log_maxU256_div hpos hle
    obtain ⟨hpos', hlo, hhi⟩ := log_toQ96 (le_trans (by norm_num) hbig)
    refine ⟨hpos', ?_⟩
    rw [abs_le] at hinv ⊢
    norm_num at hinv hlo hhi hratio ⊢
    constructor
    · linarith [hinv.1, hratio.2]
    · linarith [hinv.2, hratio.1]
  · have hcast : (t.natAbs : ℝ) = -t := by
      rw [Nat.cast_natAbs, abs_of_nonpos (not_lt.mp ht), Int.cast_neg]
    have hbig : 2 ^ 63 ≤ ratioQ128 t.natAbs := by
      apply two_pow_le_of_log hpos
      norm_num at hratio hdrop ⊢
      linarith [hratio.1]
    obtain ⟨hpos', hlo, hhi⟩ := log_toQ96 hbig
    refine ⟨hpos', ?_⟩
    rw [hcast] at hratio
    rw [abs_le]
    norm_num at hlo hhi hratio ⊢
    constructor
    · linarith [hratio.1]
    · linarith [hratio.2]

/-! ## Monotonicity -/

theorem sqrtRatio_pos {t : ℤ} (hmin : minTick ≤ t) (hmax : t ≤ maxTick) :
    0 < sqrtRatio t :=
  (log_sqrtRatio hmin hmax).1

/-- Neighbouring ticks are further apart than twice the error of a price. -/
theorem sqrtRatio_strictMono {s t : ℤ}
    (hmin : minTick ≤ s) (hst : s < t) (hmax : t ≤ maxTick) :
    sqrtRatio s < sqrtRatio t := by
  obtain ⟨hs, hslog⟩ := log_sqrtRatio hmin (hst.le.trans hmax)
  obtain ⟨ht, htlog⟩ := log_sqrtRatio (hmin.trans hst.le) hmax
  have htick := tickLog_bounds
  have hstep : (s : ℝ) + 1 ≤ t := by exact_mod_cast hst
  have hgap : ((s : ℝ) + 1) * tickLog ≤ t * tickLog :=
    mul_le_mul_of_nonneg_right hstep tickLog_pos.le
  rw [abs_le] at hslog htlog
  have hlog : log (sqrtRatio s) < log (sqrtRatio t) := by
    norm_num at hslog htlog
    linarith [hslog.2, htlog.1]
  have hreal := (log_lt_log_iff (by exact_mod_cast hs)
    (by exact_mod_cast ht)).mp hlog
  exact_mod_cast hreal

theorem sqrtRatio_le_iff {s t : ℤ}
    (hs : minTick ≤ s ∧ s ≤ maxTick) (ht : minTick ≤ t ∧ t ≤ maxTick) :
    sqrtRatio s ≤ sqrtRatio t ↔ s ≤ t := by
  constructor
  · intro h
    by_contra hlt
    exact absurd (sqrtRatio_strictMono ht.1 (not_le.mp hlt) hs.2) (not_lt.mpr h)
  · intro h
    rcases h.eq_or_lt with rfl | hlt
    · exact le_rfl
    · exact (sqrtRatio_strictMono hs.1 hlt ht.2).le

theorem sqrtRatio_lt_iff {s t : ℤ}
    (hs : minTick ≤ s ∧ s ≤ maxTick) (ht : minTick ≤ t ∧ t ≤ maxTick) :
    sqrtRatio s < sqrtRatio t ↔ s < t := by
  rw [← not_le, sqrtRatio_le_iff ht hs, not_le]

theorem sqrtRatio_minTick : sqrtRatio minTick = minSqrtRatio := by
  decide

theorem sqrtRatio_maxTick : sqrtRatio maxTick = maxSqrtRatio := by
  decide

end LuxPrecompile.Dex
