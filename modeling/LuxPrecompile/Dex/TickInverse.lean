import LuxPrecompile.Dex.TickMathBounds

/-!
# The tick of a price

`GetTickAtSqrtRatio` returns the greatest tick whose price does not exceed the
given one.  The logarithm loop is the digit recursion of repeated squaring, its
fourteen digits leave an uncertainty of `0.85` ticks, the two candidates
enclose that interval, and the final comparison picks the right one.
-/

namespace LuxPrecompile.Dex

open Real LuxPrecompile.Support

/-! ## The logarithm loop -/

/-- One pass of the loop appends the squaring digit below the digits already
collected. -/
theorem logStep_digits {a r i : ℕ} (hlo : 2 ^ 127 ≤ r) (hhi : r < 2 ^ 128) :
    logStep i (a * 2 ^ (i + 1), r) =
      ((2 * a + squareCarry 127 r) * 2 ^ i, squareNext 127 r) := by
  have hcarry : squareCarry 127 r < 2 := by
    rcases squareCarry_cases (N := 127) hlo hhi with ⟨hc, -⟩ | ⟨hc, -⟩ <;> omega
  have hsmall : squareCarry 127 r * 2 ^ i < 2 ^ (i + 1) := by
    rw [pow_succ']
    exact Nat.mul_lt_mul_of_pos_right hcarry (Nat.two_pow_pos i)
  have hor : a * 2 ^ (i + 1) ||| squareCarry 127 r * 2 ^ i =
      a * 2 ^ (i + 1) + squareCarry 127 r * 2 ^ i := by
    rw [Nat.mul_comm a, Nat.two_pow_add_eq_or_of_lt hsmall]
  have hfst : a * 2 ^ (i + 1) + squareCarry 127 r * 2 ^ i =
      (2 * a + squareCarry 127 r) * 2 ^ i := by
    rw [pow_succ]
    ring
  show (a * 2 ^ (i + 1) ||| squareCarry 127 r <<< i, squareNext 127 r) = _
  rw [Nat.shiftLeft_eq, hor, hfst]

/-- `k` indices counting down to `i`. -/
def countDown (i : ℕ) : ℕ → List ℕ
  | 0 => []
  | k + 1 => (i + k) :: countDown i k

theorem foldl_logStep_digits (i k : ℕ) {a r : ℕ}
    (hlo : 2 ^ 127 ≤ r) (hhi : r < 2 ^ 128) :
    ((countDown i k).foldl (fun s j => logStep j s) (a * 2 ^ (i + k), r)).1 =
      (squareDigits 127 k (a, r)).1 * 2 ^ i := by
  induction k generalizing a r with
  | zero => simp [countDown, squareDigits]
  | succ k ih =>
      obtain ⟨⟨hlo', hhi'⟩, -, -⟩ := log_squareNext (N := 127) hlo hhi
      rw [countDown, List.foldl_cons, ← Nat.add_assoc,
        logStep_digits hlo hhi, squareDigits]
      exact ih hlo' hhi'

theorem logLoop_digits {a r : ℕ} (hlo : 2 ^ 127 ≤ r) (hhi : r < 2 ^ 128) :
    (logLoop (a * 2 ^ 64, r)).1 =
      (squareDigits 127 14 (a, r)).1 * 2 ^ 50 :=
  foldl_logStep_digits 50 14 hlo hhi

/-- The normalised mantissa of a ratio. -/
theorem log_normalizeRatio {ratio : ℕ} (hr : 0 < ratio) :
    (2 ^ 127 ≤ normalizeRatio ratio ∧ normalizeRatio ratio < 2 ^ 128) ∧
    log (normalizeRatio ratio) ≤
      log ratio - ((Nat.log2 ratio : ℝ) - 127) * log 2 ∧
    log ratio - ((Nat.log2 ratio : ℝ) - 127) * log 2 ≤
      log (normalizeRatio ratio) + 1 / 2 ^ 127 := by
  have hlow := Nat.log2_self_le hr.ne'
  have hhigh := Nat.lt_log2_self (n := ratio)
  unfold normalizeRatio
  generalize Nat.log2 ratio = m at hlow hhigh ⊢
  by_cases hm : 128 ≤ m
  · simp only [hm, if_true, Nat.shiftRight_eq_div_pow]
    have hsplit : m = 127 + (m - 127) := by omega
    have hden : 0 < 2 ^ (m - 127) := Nat.two_pow_pos _
    have hlo : 2 ^ 127 ≤ ratio / 2 ^ (m - 127) := by
      rw [Nat.le_div_iff_mul_le hden, ← pow_add, ← hsplit]
      exact hlow
    have hhi : ratio / 2 ^ (m - 127) < 2 ^ 128 := by
      rw [Nat.div_lt_iff_lt_mul hden, ← pow_add]
      have hexp : 128 + (m - 127) = m + 1 := by omega
      rw [hexp]
      exact hhigh
    have hbounds := natDiv_bounds ratio hden
    have hlog := log_floor_bounds (lt_of_lt_of_le (by norm_num) hlo)
      hbounds.1 hbounds.2
    have hcast : ((m - 127 : ℕ) : ℝ) = (m : ℝ) - 127 := by
      rw [Nat.cast_sub (by omega)]
      norm_num
    have hexact : log ((ratio : ℝ) / ((2 ^ (m - 127) : ℕ) : ℝ)) =
        log ratio - ((m : ℝ) - 127) * log 2 := by
      rw [log_div (by exact_mod_cast hr.ne') (by positivity), Nat.cast_pow,
        log_pow, hcast, Nat.cast_ofNat]
    rw [hexact] at hlog
    have hulp : 1 / ((ratio / 2 ^ (m - 127) : ℕ) : ℝ) ≤ 1 / 2 ^ 127 := by
      apply one_div_le_one_div_of_le (by positivity)
      exact_mod_cast hlo
    exact ⟨⟨hlo, hhi⟩, hlog.1, by linarith [hlog.2]⟩
  · simp only [hm, if_false, Nat.shiftLeft_eq]
    have hcast : ((127 - m : ℕ) : ℝ) = 127 - (m : ℝ) := by
      rw [Nat.cast_sub (by omega)]
      norm_num
    have hlo : 2 ^ 127 ≤ ratio * 2 ^ (127 - m) := by
      calc 2 ^ 127 = 2 ^ m * 2 ^ (127 - m) := by
            rw [← pow_add]
            congr 1
            omega
        _ ≤ _ := Nat.mul_le_mul_right _ hlow
    have hhi : ratio * 2 ^ (127 - m) < 2 ^ 128 := by
      calc ratio * 2 ^ (127 - m) < 2 ^ (m + 1) * 2 ^ (127 - m) :=
            Nat.mul_lt_mul_of_pos_right hhigh (Nat.two_pow_pos _)
        _ = 2 ^ 128 := by
            rw [← pow_add]
            congr 1
            omega
    have hlog := log_mul_two_pow hr (127 - m)
    rw [hcast] at hlog
    rw [hlog]
    refine ⟨⟨hlo, hhi⟩, by linarith, ?_⟩
    have : (0 : ℝ) ≤ 1 / 2 ^ 127 := by positivity
    linarith

/-- The digits stay below the next value of the integer part. -/
theorem squareDigits_bounds {N : ℕ} (k : ℕ) {a r : ℕ}
    (hlo : 2 ^ N ≤ r) (hhi : r < 2 ^ (N + 1)) :
    a * 2 ^ k ≤ (squareDigits N k (a, r)).1 ∧
      (squareDigits N k (a, r)).1 < (a + 1) * 2 ^ k := by
  induction k generalizing a r with
  | zero => simp [squareDigits]
  | succ k ih =>
      obtain ⟨⟨hlo', hhi'⟩, -, -⟩ := log_squareNext hlo hhi
      have hcarry : squareCarry N r ≤ 1 := by
        rcases squareCarry_cases hlo hhi with ⟨hc, -⟩ | ⟨hc, -⟩ <;> omega
      have h := ih (a := 2 * a + squareCarry N r) hlo' hhi'
      have hlow : a * 2 ^ (k + 1) ≤ (2 * a + squareCarry N r) * 2 ^ k := by
        rw [pow_succ', ← mul_assoc, Nat.mul_comm a 2]
        exact Nat.mul_le_mul_right _ (Nat.le_add_right _ _)
      have hhigh : (2 * a + squareCarry N r + 1) * 2 ^ k ≤
          (a + 1) * 2 ^ (k + 1) := by
        rw [pow_succ', ← mul_assoc]
        exact Nat.mul_le_mul_right _ (by omega)
      exact ⟨hlow.trans h.1, lt_of_lt_of_le h.2 hhigh⟩

/-- Reading a word back as a signed number, for the two kinds of word the loop
leaves: a small one, and a small one below `2 ^ 256`. -/
theorem uint256ToInt256_digits {A : ℕ} (d : ℤ)
    (hd : (A : ℤ) = d ∧ 0 ≤ d ∧ d < 2 ^ 205 ∨
      (A : ℤ) = d + 2 ^ 206 ∧ -2 ^ 205 ≤ d ∧ d < 0) :
    uint256ToInt256 (A * 2 ^ 50 &&& maxU256) = d * 2 ^ 50 := by
  have hA : A * 2 ^ 50 < 2 ^ 256 := by omega
  rw [maxU256, Nat.and_two_pow_sub_one_eq_mod, Nat.mod_eq_of_lt hA]
  unfold uint256ToInt256
  split_ifs with h
  · push_cast
    omega
  · push_cast
    omega

/-- `logTwo` is the binary logarithm of the ratio over `2 ^ 128`, truncated to
fourteen binary digits. -/
theorem logTwo_bounds {ratio : ℕ} (hlo : 2 ^ 64 ≤ ratio)
    (hhi : ratio < 2 ^ 192) :
    ∃ digits : ℤ, logTwo ratio = digits * 2 ^ 50 ∧ |digits| ≤ 2 ^ 20 ∧
      digits * log 2 ≤ 2 ^ 14 * (log ratio - 128 * log 2) ∧
      2 ^ 14 * (log ratio - 128 * log 2) ≤
        digits * log 2 + log 2 + 1 / 2 ^ 100 := by
  have hr : 0 < ratio := lt_of_lt_of_le (by norm_num) hlo
  obtain ⟨⟨hnlo, hnhi⟩, hnle, hnge⟩ := log_normalizeRatio hr
  have hmlo : 64 ≤ Nat.log2 ratio := (Nat.le_log2 hr.ne').mpr hlo
  have hmhi : Nat.log2 ratio < 192 := (Nat.log2_lt hr.ne').mpr hhi
  unfold logTwo
  generalize Nat.log2 ratio = m at hnle hnge hmlo hmhi ⊢
  generalize normalizeRatio ratio = r at hnlo hnhi hnle hnge ⊢
  obtain ⟨h, off, hword, hh⟩ : ∃ h off : ℕ,
      (if ((m : ℤ) - 128) * 2 ^ 64 < 0 then
        ((m : ℤ) - 128) * 2 ^ 64 + 2 ^ 256 else ((m : ℤ) - 128) * 2 ^ 64).toNat =
        h * 2 ^ 64 ∧
      (h : ℤ) = m - 128 + off ∧ (off = 0 ∧ 128 ≤ m ∨ off = 2 ^ 192 ∧ m < 128) := by
    by_cases hm : m < 128
    · refine ⟨m + 2 ^ 192 - 128, 2 ^ 192, ?_, by omega, Or.inr ⟨rfl, hm⟩⟩
      rw [if_pos (by omega)]
      omega
    · refine ⟨m - 128, 0, ?_, by omega, Or.inl ⟨rfl, by omega⟩⟩
      rw [if_neg (by omega)]
      omega
  obtain ⟨hh, hoff⟩ := hh
  have hbounds := squareDigits_bounds (N := 127) 14 (a := h) hnlo hnhi
  have hdigits := log_squareDigits (N := 127) 14 (a := h) hnlo hnhi
  simp only [hword, logLoop_digits hnlo hnhi]
  simp only at hdigits
  generalize (squareDigits 127 14 (h, r)).1 = A at hbounds hdigits ⊢
  refine ⟨(A : ℤ) - off * 2 ^ 14, uint256ToInt256_digits _ ?_, ?_, ?_⟩
  · rcases hoff with ⟨rfl, hm⟩ | ⟨rfl, hm⟩
    · left
      omega
    · right
      omega
  · rw [abs_le]
    rcases hoff with ⟨rfl, hm⟩ | ⟨rfl, hm⟩ <;> omega
  · have hcast : (h : ℝ) = m - 128 + off := by exact_mod_cast hh
    rw [hcast] at hdigits
    push_cast at hdigits ⊢
    norm_num at hdigits hnge ⊢
    constructor
    · linarith [hdigits.1]
    · linarith [hdigits.2]

/-! ## The two candidates -/

/-- `logFactor` converts binary logarithms to tick units. -/
theorem logFactor_bounds :
    |(logFactor : ℝ) / 2 ^ 64 * tickLog - log 2| ≤ 1e-9 := by
  have hgt := log_two_gt_d9
  have hlt := log_two_lt_d9
  have htick := tickLog_bounds
  have hfactor : (0 : ℝ) ≤ (logFactor : ℝ) / 2 ^ 64 := by
    norm_num [logFactor]
  have hlo := mul_le_mul_of_nonneg_left htick.1.le hfactor
  have hhi := mul_le_mul_of_nonneg_left htick.2.le hfactor
  generalize hx : (logFactor : ℝ) / 2 ^ 64 * tickLog = x at hlo hhi ⊢
  norm_num [logFactor] at hlo hhi
  rw [abs_le]
  norm_num
  constructor
  · linarith
  · linarith

/-- The candidate computed with an offset lies within one tick below the
shifted logarithm. -/
theorem floorDiv_bounds (x : ℤ) :
    ((x / 2 ^ 128 : ℤ) : ℝ) ≤ (x : ℝ) / 2 ^ 128 ∧
      (x : ℝ) / 2 ^ 128 < ((x / 2 ^ 128 : ℤ) : ℝ) + 1 := by
  have hpos : (0 : ℝ) < 2 ^ 128 := by positivity
  have hle : x / 2 ^ 128 * 2 ^ 128 ≤ x := Int.ediv_mul_le x (by norm_num)
  have hlt : x < (x / 2 ^ 128 + 1) * 2 ^ 128 := Int.lt_ediv_add_one_mul_self x (by norm_num)
  constructor
  · rw [le_div_iff₀ hpos]
    exact_mod_cast hle
  · rw [div_lt_iff₀ hpos]
    exact_mod_cast hlt

/-- The lower candidate is at most the price's tick and the upper one at least,
by more than the error of any tick price. -/
theorem candidates_bounds {p : ℕ} (hlo : minSqrtRatio ≤ p)
    (hhi : p < maxSqrtRatio) :
    let x : ℤ := logTwo (p <<< 32) * logFactor
    let tickLow : ℤ := (x - tickLowOffset) / 2 ^ 128
    let tickHigh : ℤ := (x + tickHighOffset) / 2 ^ 128
    (tickLow : ℝ) * tickLog + 1e-7 ≤ log p - 96 * log 2 ∧
    log p - 96 * log 2 + 1e-7 ≤ ((tickHigh : ℝ) + 1) * tickLog ∧
    tickLow ≤ tickHigh ∧ tickHigh ≤ tickLow + 1 := by
  intro x tickLow tickHigh
  have hp : 0 < p := lt_of_lt_of_le (by decide) hlo
  have hratioLo : 2 ^ 64 ≤ p <<< 32 := by
    rw [Nat.shiftLeft_eq]
    unfold minSqrtRatio at hlo
    omega
  have hratioHi : p <<< 32 < 2 ^ 192 := by
    rw [Nat.shiftLeft_eq]
    unfold maxSqrtRatio at hhi
    omega
  obtain ⟨d, hd, habs, hdle, hdge⟩ := logTwo_bounds hratioLo hratioHi
  have hratio : log ((p <<< 32 : ℕ) : ℝ) = log p + 32 * log 2 := by
    rw [Nat.shiftLeft_eq, log_mul_two_pow hp]
    norm_num
  rw [hratio] at hdle hdge
  have htick := tickLog_bounds
  have hfactor := logFactor_bounds
  have hlowFloor := floorDiv_bounds (x - tickLowOffset)
  have hhighFloor := floorDiv_bounds (x + tickHighOffset)
  -- the conversion to tick units is off by less than a hundredth of a tick
  have hscaled : |(x : ℝ) / 2 ^ 128 * tickLog - d * log 2 / 2 ^ 14| ≤
      64 * 1e-9 := by
    have hsplit : (x : ℝ) / 2 ^ 128 * tickLog - d * log 2 / 2 ^ 14 =
        (d : ℝ) / 2 ^ 14 * ((logFactor : ℝ) / 2 ^ 64 * tickLog - log 2) := by
      simp only [x, hd]
      push_cast
      ring
    rw [hsplit, abs_mul]
    apply mul_le_mul _ hfactor (abs_nonneg _) (by norm_num)
    rw [abs_div, div_le_iff₀ (by norm_num)]
    have habs' : |(d : ℝ)| ≤ 2 ^ 20 := by exact_mod_cast habs
    norm_num at habs' ⊢
    linarith
  have hlowGap : (4.9e-7 : ℝ) ≤ (tickLowOffset : ℝ) / 2 ^ 128 * tickLog := by
    have := mul_le_mul_of_nonneg_left htick.1.le
      (show (0 : ℝ) ≤ (tickLowOffset : ℝ) / 2 ^ 128 by norm_num [tickLowOffset])
    refine le_trans ?_ this
    norm_num [tickLowOffset]
  have hhighGap : (4.2806e-5 : ℝ) ≤ (tickHighOffset : ℝ) / 2 ^ 128 * tickLog := by
    have := mul_le_mul_of_nonneg_left htick.1.le
      (show (0 : ℝ) ≤ (tickHighOffset : ℝ) / 2 ^ 128 by norm_num [tickHighOffset])
    refine le_trans ?_ this
    norm_num [tickHighOffset]
  have hlow : (tickLow : ℝ) * tickLog ≤ _ :=
    mul_le_mul_of_nonneg_right hlowFloor.1 tickLog_pos.le
  have hhigh : _ ≤ ((tickHigh : ℝ) + 1) * tickLog :=
    mul_le_mul_of_nonneg_right hhighFloor.2.le tickLog_pos.le
  have hlt := log_two_lt_d9
  rw [abs_le] at hscaled
  have hlowSplit : ((x - tickLowOffset : ℤ) : ℝ) / 2 ^ 128 * tickLog =
      (x : ℝ) / 2 ^ 128 * tickLog - (tickLowOffset : ℝ) / 2 ^ 128 * tickLog := by
    push_cast
    ring
  have hhighSplit : ((x + tickHighOffset : ℤ) : ℝ) / 2 ^ 128 * tickLog =
      (x : ℝ) / 2 ^ 128 * tickLog + (tickHighOffset : ℝ) / 2 ^ 128 * tickLog := by
    push_cast
    ring
  rw [hlowSplit] at hlow
  rw [hhighSplit] at hhigh
  refine ⟨?_, ?_, ?_, ?_⟩
  · norm_num at hlow hscaled hlowGap hdle ⊢
    linarith [hscaled.2]
  · norm_num at hhigh hscaled hhighGap hdge ⊢
    linarith [hscaled.1]
  · apply Int.ediv_le_ediv (by norm_num)
    unfold tickLowOffset tickHighOffset
    omega
  · have hgap : x + tickHighOffset ≤ x - tickLowOffset + 1 * 2 ^ 128 := by
      unfold tickLowOffset tickHighOffset
      omega
    calc tickHigh ≤ (x - tickLowOffset + 1 * 2 ^ 128) / 2 ^ 128 :=
          Int.ediv_le_ediv (by norm_num) hgap
      _ = tickLow + 1 := Int.add_mul_ediv_right _ _ (by norm_num)

/-! ## The inverse -/

/-- A tick whose exact price is below `p` by the error margin has its computed
price below `p`. -/
theorem sqrtRatio_le_of_log {p : ℕ} {t : ℤ} (hp : 0 < p)
    (hmin : minTick ≤ t) (hmax : t ≤ maxTick)
    (h : (t : ℝ) * tickLog + 1e-7 ≤ log p - 96 * log 2) : sqrtRatio t ≤ p := by
  obtain ⟨hpos, hlog⟩ := log_sqrtRatio hmin hmax
  rw [abs_le] at hlog
  have hle : log (sqrtRatio t) ≤ log p := by
    norm_num at hlog h
    linarith [hlog.2]
  have hreal := (log_le_log_iff (by exact_mod_cast hpos) (by exact_mod_cast hp)).mp hle
  exact_mod_cast hreal

theorem lt_sqrtRatio_of_log {p : ℕ} {t : ℤ} (hp : 0 < p)
    (hmin : minTick ≤ t) (hmax : t ≤ maxTick)
    (h : log p - 96 * log 2 + 1e-7 ≤ (t : ℝ) * tickLog) : p < sqrtRatio t := by
  obtain ⟨hpos, hlog⟩ := log_sqrtRatio hmin hmax
  rw [abs_le] at hlog
  have hlt : log p < log (sqrtRatio t) := by
    norm_num at hlog h
    linarith [hlog.1]
  have hreal := (log_lt_log_iff (by exact_mod_cast hp) (by exact_mod_cast hpos)).mp hlt
  exact_mod_cast hreal

/-- A tick that is above the price's by the margin is not below the least
tick. -/
theorem minTick_le_of_log {p : ℕ} {t : ℤ} (hlo : minSqrtRatio ≤ p)
    (h : log p - 96 * log 2 + 1e-7 ≤ ((t : ℝ) + 1) * tickLog) : minTick ≤ t := by
  obtain ⟨hpos, hlog⟩ := log_sqrtRatio (t := minTick) le_rfl (by decide)
  rw [sqrtRatio_minTick] at hpos hlog
  have hle : log minSqrtRatio ≤ log p :=
    log_le_log (by exact_mod_cast hpos) (by exact_mod_cast hlo)
  rw [abs_le] at hlog
  by_contra hlt
  have hstep : (t : ℝ) + 1 ≤ minTick := by exact_mod_cast not_le.mp hlt
  have hmul := mul_le_mul_of_nonneg_right hstep tickLog_pos.le
  norm_num at hlog h
  linarith [hlog.1]

theorem lt_maxTick_of_log {p : ℕ} {t : ℤ} (hp : 0 < p) (hhi : p < maxSqrtRatio)
    (h : (t : ℝ) * tickLog + 1e-7 ≤ log p - 96 * log 2) : t < maxTick := by
  obtain ⟨hpos, hlog⟩ := log_sqrtRatio (t := maxTick) (by decide) le_rfl
  rw [sqrtRatio_maxTick] at hpos hlog
  have hle : log p ≤ log maxSqrtRatio :=
    log_le_log (by exact_mod_cast hp) (by exact_mod_cast hhi.le)
  rw [abs_le] at hlog
  by_contra hge
  have hstep : (maxTick : ℝ) ≤ t := by exact_mod_cast not_lt.mp hge
  have hmul := mul_le_mul_of_nonneg_right hstep tickLog_pos.le
  norm_num at hlog h
  linarith [hlog.2]

/-- `GetTickAtSqrtRatio` on every valid price: the tick it returns is the
greatest one whose price does not exceed the given price. -/
theorem getTickAtSqrtRatio_spec {p : ℕ} (hlo : minSqrtRatio ≤ p)
    (hhi : p < maxSqrtRatio) :
    ∃ t, getTickAtSqrtRatio p = some t ∧ minTick ≤ t ∧ t < maxTick ∧
      sqrtRatio t ≤ p ∧ p < sqrtRatio (t + 1) := by
  have hp : 0 < p := lt_of_lt_of_le (by decide) hlo
  obtain ⟨hlow, hhigh, hle, hge⟩ := candidates_bounds hlo hhi
  have hrange : ¬(p < minSqrtRatio ∨ maxSqrtRatio ≤ p) := by omega
  simp only [getTickAtSqrtRatio, hrange, if_false]
  generalize (logTwo (p <<< 32) * logFactor - tickLowOffset) / 2 ^ 128 = tl at *
  generalize (logTwo (p <<< 32) * logFactor + tickHighOffset) / 2 ^ 128 = th at *
  have hthMin : minTick ≤ th := minTick_le_of_log hlo hhigh
  have htlMax : tl < maxTick := lt_maxTick_of_log hp hhi hlow
  have hupper : th < maxTick → p < sqrtRatio (th + 1) := by
    intro hth
    exact lt_sqrtRatio_of_log hp (by omega) (by omega) (by exact_mod_cast hhigh)
  have hlower : minTick ≤ tl → sqrtRatio tl ≤ p := by
    intro htl
    exact sqrtRatio_le_of_log hp htl htlMax.le hlow
  by_cases heq : tl = th
  · subst heq
    rw [if_pos rfl]
    exact ⟨tl, rfl, hthMin, htlMax, hlower hthMin, hupper htlMax⟩
  · rw [if_neg heq]
    have hth : th = tl + 1 := by omega
    simp only [getSqrtRatioAtTick_eq hthMin (by omega : th ≤ maxTick)]
    split_ifs with hcmp
    · have hne : th ≠ maxTick := by
        rintro rfl
        rw [sqrtRatio_maxTick] at hcmp
        omega
      exact ⟨th, rfl, hthMin, by omega, hcmp, hupper (by omega)⟩
    · have hne : th ≠ minTick := by
        rintro h
        rw [h, sqrtRatio_minTick] at hcmp
        omega
      refine ⟨tl, rfl, by omega, htlMax, hlower (by omega), ?_⟩
      rw [← hth]
      omega

/-- The prices of the ticks in range increase strictly, and for every price in range the
tick that `GetTickAtSqrtRatio` returns is the greatest one whose price does not exceed it. -/
theorem tick_price_inverse :
    (∀ s t, minTick ≤ s → s < t → t ≤ maxTick → ∃ p q, getSqrtRatioAtTick s = some p ∧
      getSqrtRatioAtTick t = some q ∧ p < q) ∧
    ∀ p, minSqrtRatio ≤ p → p < maxSqrtRatio → ∃ t, getTickAtSqrtRatio p = some t ∧
      IsGreatest {u : ℤ | ∃ q, getSqrtRatioAtTick u = some q ∧ q ≤ p} t := by
  constructor
  · intro s t hs hst ht
    exact ⟨sqrtRatio s, sqrtRatio t, getSqrtRatioAtTick_eq hs (by omega),
      getSqrtRatioAtTick_eq (by omega) ht, sqrtRatio_strictMono hs hst ht⟩
  · intro p hlo hhi
    obtain ⟨t, htick, hmin, hmax, hle, hlt⟩ := getTickAtSqrtRatio_spec hlo hhi
    refine ⟨t, htick, ⟨sqrtRatio t, getSqrtRatioAtTick_eq hmin hmax.le, hle⟩, ?_⟩
    rintro u ⟨q, hq, hqp⟩
    rw [getSqrtRatioAtTick] at hq
    split_ifs at hq with hrange
    obtain rfl := Option.some.inj hq
    by_contra hut
    have hnext : sqrtRatio (t + 1) ≤ sqrtRatio u :=
      (sqrtRatio_le_iff ⟨by omega, by omega⟩ ⟨by omega, by omega⟩).mpr (by omega)
    omega

end LuxPrecompile.Dex
