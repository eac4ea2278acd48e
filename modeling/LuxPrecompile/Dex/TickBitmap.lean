import Mathlib.Data.Int.Basic
import Mathlib.Tactic

/-!
# The tick bitmap

`dex/tick_bitmap_math.go`: one bit for each multiple of the tick spacing, packed
into 256-bit words.  A bitmap is a function from word positions to words; an
absent word is zero.  The search looks at one word only and reports the word's
edge when it holds no further bit in the direction of the search.
-/

namespace LuxPrecompile.Dex

/-- Go's conversion to `int16`. -/
def int16 (x : ℤ) : ℤ := x.bmod (2 ^ 16)

/-- `Compress`: division rounding toward negative infinity, from Go's truncating
operators. -/
def compress (tick tickSpacing : ℤ) : ℤ :=
  if tick < 0 ∧ tick.tmod tickSpacing ≠ 0 then tick.tdiv tickSpacing - 1
  else tick.tdiv tickSpacing

/-- `TickBitmapPosition`: the word and the bit inside it. -/
def tickBitmapPosition (compressed : ℤ) : ℤ × ℕ :=
  (int16 (compressed >>> (8 : ℕ)), (compressed % 256).toNat)

/-- `TickBitmap`: the word at each position. -/
abbrev TickBitmap := ℤ → ℕ

/-- `FlipTick`: toggles the bit of an aligned tick. -/
def flipTick (bitmap : TickBitmap) (tick tickSpacing : ℤ) : TickBitmap :=
  if tick.tmod tickSpacing ≠ 0 then bitmap
  else
    let pos := tickBitmapPosition (compress tick tickSpacing)
    Function.update bitmap pos.1 (bitmap pos.1 ^^^ 1 <<< pos.2)

/-- `lsb256`: the lowest set bit of a word. -/
def lsb256 (x : ℕ) : ℕ :=
  ((List.range 256).find? (fun i => x.testBit i)).getD 0

def nextInitializedTickWithinOneWord (bitmap : TickBitmap)
    (tick tickSpacing : ℤ) (lte : Bool) : ℤ × Bool :=
  let compressed := compress tick tickSpacing
  if lte then
    let pos := tickBitmapPosition compressed
    let masked := bitmap pos.1 &&& (1 <<< (pos.2 + 1) - 1)
    if masked ≠ 0 then
      ((pos.1 * 256 + (Nat.log2 masked : ℤ)) * tickSpacing, true)
    else (pos.1 * 256 * tickSpacing, false)
  else
    let pos := tickBitmapPosition (compressed + 1)
    let fullMask := 1 <<< 256 - 1
    let mask := ((1 <<< pos.2 - 1) ^^^ fullMask) &&& fullMask
    let masked := bitmap pos.1 &&& mask
    if masked ≠ 0 then
      ((pos.1 * 256 + (lsb256 masked : ℤ)) * tickSpacing, true)
    else ((pos.1 * 256 + 255) * tickSpacing, false)

/-! ## Positions of bits -/

theorem compress_eq {tick spacing : ℤ} (hs : 0 < spacing) :
    compress tick spacing = tick / spacing := by
  unfold compress
  rcases lt_or_ge tick 0 with hneg | hpos
  · by_cases hmod : tick.tmod spacing = 0
    · rw [if_neg (by simp [hmod])]
      exact Int.tdiv_eq_ediv_of_dvd (Int.dvd_of_tmod_eq_zero hmod)
    · rw [if_pos ⟨hneg, hmod⟩, Int.tdiv_eq_ediv]
      have hdvd : ¬spacing ∣ tick := fun h => hmod (Int.tmod_eq_zero_of_dvd h)
      rw [if_neg (by simp [hdvd]; omega), Int.sign_eq_one_of_pos hs]
      ring
  · rw [if_neg (by omega), Int.tdiv_eq_ediv_of_nonneg hpos]

/-- Whether the bit of a compressed tick is set. -/
def bitSet (bitmap : TickBitmap) (i : ℤ) : Bool :=
  (bitmap (i / 256)).testBit (i % 256).toNat

theorem tickBitmapPosition_eq {i : ℤ} (h : -2 ^ 22 ≤ i ∧ i < 2 ^ 22) :
    tickBitmapPosition i = (i / 256, (i % 256).toNat) := by
  have hshift : i >>> (8 : ℕ) = i / 256 := by
    rw [Int.shiftRight_eq_div_pow]
    norm_num
  simp only [tickBitmapPosition, int16, hshift]
  congr 1
  apply Int.bmod_eq_of_le <;> norm_num <;> omega

theorem bitSet_word (bitmap : TickBitmap) {c : ℤ} {m : ℕ} (hm : m < 256) :
    bitSet bitmap (c / 256 * 256 + m) = (bitmap (c / 256)).testBit m := by
  have hdiv : (c / 256 * 256 + m) / 256 = c / 256 := by omega
  have hmod : ((c / 256 * 256 + m) % 256).toNat = m := by omega
  simp only [bitSet, hdiv, hmod]

theorem bitSet_flip (bitmap : TickBitmap) {spacing c i : ℤ} (hs : 0 < spacing)
    (hc : -2 ^ 22 ≤ c ∧ c < 2 ^ 22) :
    bitSet (flipTick bitmap (c * spacing) spacing) i =
      if i = c then !bitSet bitmap i else bitSet bitmap i := by
  have haligned : (c * spacing).tmod spacing = 0 :=
    Int.tmod_eq_zero_of_dvd (Dvd.intro_left c rfl)
  have hcomp : compress (c * spacing) spacing = c := by
    rw [compress_eq hs, Int.mul_ediv_cancel _ hs.ne']
  simp only [flipTick, haligned, ne_eq, not_true_eq_false, if_false, hcomp,
    tickBitmapPosition_eq hc, bitSet]
  by_cases hword : i / 256 = c / 256
  · rw [hword, Function.update_self, Nat.testBit_xor, Nat.shiftLeft_eq,
      Nat.one_mul, Nat.testBit_two_pow]
    by_cases hi : i = c
    · subst hi
      simp
    · have hne : (c % 256).toNat ≠ (i % 256).toNat := by omega
      simp [hi, hne]
  · have hne : i ≠ c := fun h => hword (by rw [h])
    rw [Function.update_of_ne hword, if_neg hne]

/-! ## The search -/

/-- The search reads one word of the bitmap. -/
theorem nextInitializedTick_congr {bitmap bitmap' : TickBitmap} {tick spacing : ℤ}
    {lte : Bool}
    (h : bitmap (tickBitmapPosition
        (if lte then compress tick spacing else compress tick spacing + 1)).1 =
      bitmap' (tickBitmapPosition
        (if lte then compress tick spacing else compress tick spacing + 1)).1) :
    nextInitializedTickWithinOneWord bitmap tick spacing lte =
      nextInitializedTickWithinOneWord bitmap' tick spacing lte := by
  unfold nextInitializedTickWithinOneWord
  cases lte
  · simp only [Bool.false_eq_true, if_false] at h ⊢
    rw [h]
  · simp only [if_true] at h ⊢
    rw [h]

/-- The search to the left stops at the greatest set bit at or below the tick,
or at the word's left edge when there is none. -/
theorem nextInitializedTick_lte (bitmap : TickBitmap) {tick spacing : ℤ}
    (hs : 0 < spacing) (hc : -2 ^ 22 ≤ tick / spacing ∧ tick / spacing < 2 ^ 22) :
    ∃ n, (nextInitializedTickWithinOneWord bitmap tick spacing true).1 = n * spacing ∧
      n ≤ tick / spacing ∧ tick / spacing - 256 < n ∧
      (nextInitializedTickWithinOneWord bitmap tick spacing true).2 = bitSet bitmap n ∧
      (∀ i, n < i → i ≤ tick / spacing → bitSet bitmap i = false) ∧
      (bitSet bitmap n = false → 256 ∣ n) := by
  simp only [nextInitializedTickWithinOneWord, if_true, compress_eq hs,
    tickBitmapPosition_eq hc]
  generalize tick / spacing = c at hc ⊢
  obtain ⟨b, hb⟩ : ∃ b : ℕ, (c % 256).toNat = b := ⟨_, rfl⟩
  have hb' : b < 256 := by omega
  have hcb : c = c / 256 * 256 + b := by omega
  rw [hb, Nat.shiftLeft_eq, Nat.one_mul, Nat.and_two_pow_sub_one_eq_mod]
  generalize hmasked : bitmap (c / 256) % 2 ^ (b + 1) = masked
  have hbit : ∀ j, masked.testBit j =
      (decide (j < b + 1) && (bitmap (c / 256)).testBit j) := by
    intro j
    rw [← hmasked, Nat.testBit_mod_two_pow]
  split_ifs with hzero
  · have htop := Nat.testBit_log2 hzero
    rw [hbit, Bool.and_eq_true, decide_eq_true_eq] at htop
    have hset : bitSet bitmap (c / 256 * 256 + masked.log2) = true := by
      rw [bitSet_word bitmap (by omega), htop.2]
    refine ⟨_, rfl, by omega, by omega, hset.symm, ?_, by simp [hset]⟩
    · intro i hi hic
      obtain ⟨m, hm, rfl⟩ : ∃ m : ℕ, m < 256 ∧ i = c / 256 * 256 + m :=
        ⟨(i - c / 256 * 256).toNat, by omega, by omega⟩
      rw [bitSet_word bitmap hm]
      have hfalse : masked.testBit m = false := by
        apply Nat.testBit_lt_two_pow
        exact lt_of_lt_of_le Nat.lt_log2_self
          (Nat.pow_le_pow_right (by norm_num) (by omega))
      rw [hbit] at hfalse
      simpa [show m < b + 1 by omega] using hfalse
  · have hall : ∀ m : ℕ, m ≤ b → (bitmap (c / 256)).testBit m = false := by
      intro m hm
      have := hbit m
      rw [not_not.mp hzero, Nat.zero_testBit] at this
      simpa [show m < b + 1 by omega] using this.symm
    refine ⟨c / 256 * 256, rfl, by omega, by omega, ?_, ?_, fun _ => Dvd.intro_left _ rfl⟩
    · have := bitSet_word bitmap (c := c) (m := 0) (by norm_num)
      simp only [Nat.cast_zero, add_zero] at this
      rw [this, hall 0 (by omega)]
    · intro i hi hic
      obtain ⟨m, hm, rfl⟩ : ∃ m : ℕ, m < 256 ∧ i = c / 256 * 256 + m :=
        ⟨(i - c / 256 * 256).toNat, by omega, by omega⟩
      rw [bitSet_word bitmap hm]
      exact hall m (by omega)

/-- The lowest set bit of a word below `2 ^ 256`. -/
theorem lsb256_spec {x i : ℕ} (hi : i < 256) (hx : x.testBit i = true) :
    lsb256 x < 256 ∧ x.testBit (lsb256 x) = true ∧
      ∀ j, j < lsb256 x → x.testBit j = false := by
  unfold lsb256
  cases hfind : (List.range 256).find? (fun i => x.testBit i) with
  | none =>
      rw [List.find?_range_eq_none] at hfind
      have := hfind i hi
      simp [hx] at this
  | some m =>
      rw [List.find?_range_eq_some] at hfind
      obtain ⟨hm, hrange, hbelow⟩ := hfind
      refine ⟨List.mem_range.mp hrange, hm, fun j hj => ?_⟩
      simpa using hbelow j hj

/-- The search to the right stops at the least set bit above the tick, or at
the word's right edge when there is none. -/
theorem nextInitializedTick_gt (bitmap : TickBitmap) {tick spacing : ℤ}
    (hs : 0 < spacing)
    (hc : -2 ^ 22 ≤ tick / spacing + 1 ∧ tick / spacing + 1 < 2 ^ 22) :
    ∃ n, (nextInitializedTickWithinOneWord bitmap tick spacing false).1 = n * spacing ∧
      tick / spacing < n ∧ n ≤ tick / spacing + 256 ∧
      (nextInitializedTickWithinOneWord bitmap tick spacing false).2 = bitSet bitmap n ∧
      ∀ i, tick / spacing < i → i < n → bitSet bitmap i = false := by
  simp only [nextInitializedTickWithinOneWord, Bool.false_eq_true, if_false,
    compress_eq hs, tickBitmapPosition_eq hc]
  obtain ⟨c, hcdef⟩ : ∃ c, tick / spacing + 1 = c := ⟨_, rfl⟩
  have hprev : tick / spacing = c - 1 := by omega
  rw [hprev] at hc ⊢
  simp only [sub_add_cancel]
  obtain ⟨b, hb⟩ : ∃ b : ℕ, (c % 256).toNat = b := ⟨_, rfl⟩
  have hb' : b < 256 := by omega
  have hcb : c = c / 256 * 256 + b := by omega
  rw [hb]
  generalize hmasked : bitmap (c / 256) &&&
    ((1 <<< b - 1 ^^^ (1 <<< 256 - 1)) &&& (1 <<< 256 - 1)) = masked
  have hbit : ∀ j, masked.testBit j =
      ((bitmap (c / 256)).testBit j && (decide (b ≤ j) && decide (j < 256))) := by
    intro j
    rw [← hmasked, Nat.shiftLeft_eq, Nat.one_mul, Nat.shiftLeft_eq, Nat.one_mul,
      Nat.testBit_and, Nat.testBit_and, Nat.testBit_xor,
      Nat.testBit_two_pow_sub_one, Nat.testBit_two_pow_sub_one]
    by_cases h1 : j < b
    · have h2 : j < 256 := by omega
      simp [h1, h2, Nat.not_le.mpr h1]
    · simp [h1, Nat.not_lt.mp h1]
  split_ifs with hzero
  · obtain ⟨i, hi⟩ := Nat.exists_testBit_of_ne_zero hzero
    have hi256 : i < 256 := by
      rw [hbit] at hi
      simp only [Bool.and_eq_true, decide_eq_true_eq] at hi
      exact hi.2.2
    obtain ⟨hlt, hset, hbelow⟩ := lsb256_spec hi256 hi
    rw [hbit] at hset
    simp only [Bool.and_eq_true, decide_eq_true_eq] at hset
    refine ⟨_, rfl, by omega, by omega, ?_, ?_⟩
    · rw [bitSet_word bitmap hlt, hset.1]
    · intro i hi1 hi2
      obtain ⟨m, hm, rfl⟩ : ∃ m : ℕ, m < 256 ∧ i = c / 256 * 256 + m :=
        ⟨(i - c / 256 * 256).toNat, by omega, by omega⟩
      rw [bitSet_word bitmap hm]
      have hfalse := hbelow m (by omega)
      rw [hbit] at hfalse
      simpa [show b ≤ m by omega, hm] using hfalse
  · have hall : ∀ m : ℕ, b ≤ m → m < 256 → (bitmap (c / 256)).testBit m = false := by
      intro m hm hm'
      have := hbit m
      rw [not_not.mp hzero, Nat.zero_testBit] at this
      simpa [hm, hm'] using this.symm
    refine ⟨c / 256 * 256 + 255, rfl, by omega, by omega, ?_, ?_⟩
    · have := bitSet_word bitmap (c := c) (m := 255) (by norm_num)
      simp only [Nat.cast_ofNat] at this
      rw [this, hall 255 (by omega) (by norm_num)]
    · intro i hi1 hi2
      obtain ⟨m, hm, rfl⟩ : ∃ m : ℕ, m < 256 ∧ i = c / 256 * 256 + m :=
        ⟨(i - c / 256 * 256).toNat, by omega, by omega⟩
      rw [bitSet_word bitmap hm]
      exact hall m (by omega) hm

theorem nextInitializedTick_gt_edge (bitmap : TickBitmap) {tick spacing : ℤ}
    (hs : 0 < spacing)
    (hc : -2 ^ 22 ≤ tick / spacing + 1 ∧ tick / spacing + 1 < 2 ^ 22)
    (h : (nextInitializedTickWithinOneWord bitmap tick spacing false).2 = false) :
    (nextInitializedTickWithinOneWord bitmap tick spacing false).1 =
      ((tick / spacing + 1) / 256 * 256 + 255) * spacing := by
  simp only [nextInitializedTickWithinOneWord, Bool.false_eq_true, if_false,
    compress_eq hs, tickBitmapPosition_eq hc] at h ⊢
  split_ifs at h ⊢ with hzero
  rfl

theorem lsb256_lt (x : ℕ) : lsb256 x < 256 := by
  unfold lsb256
  cases hfind : (List.range 256).find? (fun i => x.testBit i) with
  | none => decide
  | some m =>
      rw [List.find?_range_eq_some] at hfind
      exact List.mem_range.mp hfind.2.1

/-- A search to the left stays in the word of the tick. -/
theorem nextInitializedTick_lte_word (bitmap : TickBitmap) {tick spacing : ℤ}
    (hs : 0 < spacing) (hc : -2 ^ 22 ≤ tick / spacing ∧ tick / spacing < 2 ^ 22) :
    ∃ m : ℕ, m < 256 ∧ (nextInitializedTickWithinOneWord bitmap tick spacing true).1 =
      (tick / spacing / 256 * 256 + m) * spacing := by
  simp only [nextInitializedTickWithinOneWord, if_true, compress_eq hs,
    tickBitmapPosition_eq hc, Nat.shiftLeft_eq, Nat.one_mul, Nat.and_two_pow_sub_one_eq_mod]
  generalize hmasked : bitmap (tick / spacing / 256) %
    2 ^ ((tick / spacing % 256).toNat + 1) = masked
  split_ifs with hzero
  · have hlt : masked < 2 ^ ((tick / spacing % 256).toNat + 1) := by
      rw [← hmasked]
      exact Nat.mod_lt _ (by positivity)
    have hlog := (Nat.log2_lt hzero).mpr hlt
    exact ⟨masked.log2, by omega, rfl⟩
  · exact ⟨0, by norm_num, by simp⟩

theorem nextInitializedTick_gt_word (bitmap : TickBitmap) {tick spacing : ℤ}
    (hs : 0 < spacing)
    (hc : -2 ^ 22 ≤ tick / spacing + 1 ∧ tick / spacing + 1 < 2 ^ 22) :
    ∃ m : ℕ, m < 256 ∧ (nextInitializedTickWithinOneWord bitmap tick spacing false).1 =
      ((tick / spacing + 1) / 256 * 256 + m) * spacing := by
  simp only [nextInitializedTickWithinOneWord, Bool.false_eq_true, if_false,
    compress_eq hs, tickBitmapPosition_eq hc]
  split_ifs with hzero
  · exact ⟨_, lsb256_lt _, rfl⟩
  · exact ⟨255, by norm_num, rfl⟩

/-! ## A bitmap of a set of ticks -/

/-- The bitmap after each of the ticks was flipped once. -/
def flipTicks (spacing : ℤ) : List ℤ → TickBitmap
  | [] => fun _ => 0
  | t :: ts => flipTick (flipTicks spacing ts) t spacing

/-- Once each of a list of aligned ticks was flipped, their bits are the ones set. -/
theorem bitSet_flipTicks {spacing : ℤ} (hs : 0 < spacing) {ts : List ℤ} (hnodup : ts.Nodup)
    (haligned : ∀ t ∈ ts, spacing ∣ t)
    (hrange : ∀ t ∈ ts, -2 ^ 22 ≤ t / spacing ∧ t / spacing < 2 ^ 22) (i : ℤ) :
    bitSet (flipTicks spacing ts) i = true ↔ i * spacing ∈ ts := by
  induction ts with
  | nil => simp [flipTicks, bitSet]
  | cons t ts ih =>
      obtain ⟨c, rfl⟩ := haligned t List.mem_cons_self
      have hcompressed : spacing * c / spacing = c := Int.mul_ediv_cancel_left c hs.ne'
      have hc := hrange _ List.mem_cons_self
      rw [hcompressed] at hc
      have hrest := ih (List.nodup_cons.mp hnodup).2
        (fun u hu => haligned u (List.mem_cons_of_mem _ hu))
        (fun u hu => hrange u (List.mem_cons_of_mem _ hu))
      have hfresh := (List.nodup_cons.mp hnodup).1
      have hcomm : spacing * c = c * spacing := mul_comm _ _
      rw [hcomm] at hfresh ⊢
      rw [flipTicks, bitSet_flip _ hs hc, List.mem_cons]
      split_ifs with hi
      · subst hi
        have hunset : bitSet (flipTicks spacing ts) i = false := by
          rw [← Bool.not_eq_true, hrest]
          exact hfresh
        simp [hunset]
      · have hne : i * spacing ≠ c * spacing := fun h =>
          hi (mul_right_cancel₀ hs.ne' h)
        simp [hne, hrest]

end LuxPrecompile.Dex
