import LuxPrecompile.Evm.Bytes

/-!
# Numbers copied into a field

`copy` puts the bytes of a number at the left end of a field.  The field reads as the
number only when they fill it.
-/

namespace LuxPrecompile.Evm

/-- `copy` of bytes into a zeroed field. -/
def copyBytes (width : ℕ) (bs : List UInt8) : List UInt8 :=
  (bs ++ List.replicate width 0).take width

/-- What a field reads as after the bytes of a number were copied into it. -/
def copied (width n : ℕ) : ℕ := bytesToNat (copyBytes width (bigBytes n))

@[simp]
theorem copyBytes_length (width : ℕ) (bs : List UInt8) : (copyBytes width bs).length = width := by
  rw [copyBytes, List.length_take, List.length_append, List.length_replicate]
  omega

theorem bytesToNat_take (bs : List UInt8) (k : ℕ) :
    bytesToNat (bs.take k) = bytesToNat bs / 256 ^ (bs.length - k) := by
  have hdrop := bytesToNat_lt (bs.drop k)
  have hsplit := bytesToNat_append (bs.take k) (bs.drop k)
  rw [List.length_drop] at hdrop hsplit
  rw [List.take_append_drop] at hsplit
  rw [hsplit, mul_comm, Nat.mul_add_div (by positivity), Nat.div_eq_of_lt hdrop, add_zero]

theorem copied_of_le {width n : ℕ} (h : (bigBytes n).length ≤ width) :
    copied width n = n * 256 ^ (width - (bigBytes n).length) := by
  rw [copied, copyBytes, List.take_append, List.take_of_length_le h, List.take_replicate,
    min_eq_left (Nat.sub_le _ _), bytesToNat_append, bytesToNat_replicate_zero,
    List.length_replicate, bytesToNat_bigBytes, add_zero]

theorem copied_of_ge {width n : ℕ} (h : width ≤ (bigBytes n).length) :
    copied width n = n / 256 ^ ((bigBytes n).length - width) := by
  rw [copied, copyBytes, List.take_append_of_le_length h, bytesToNat_take,
    bytesToNat_bigBytes]

theorem pow_le_of_bigBytes_length {n k : ℕ} (h : k < (bigBytes n).length) : 256 ^ k ≤ n := by
  by_contra hlt
  exact absurd (bigBytes_length_le_iff.mpr (not_le.mp hlt)) (not_le.mpr h)

theorem copied_eq_zero_iff {width n : ℕ} (hwidth : 0 < width) : copied width n = 0 ↔ n = 0 := by
  rcases Nat.le_total (bigBytes n).length width with hle | hge
  · rw [copied_of_le hle, Nat.mul_eq_zero, or_iff_left (by positivity)]
  · rw [copied_of_ge hge, Nat.div_eq_zero_iff, or_iff_right (by positivity)]
    constructor
    · intro hlt
      by_contra hne
      have hlarge := pow_le_of_bigBytes_length (n := n) (k := (bigBytes n).length - 1) (by omega)
      have hpow : (256 : ℕ) ^ ((bigBytes n).length - width) ≤ 256 ^ ((bigBytes n).length - 1) :=
        Nat.pow_le_pow_right (by norm_num) (by omega)
      omega
    · rintro rfl
      positivity

/-- A field reads as the number copied into it when that is zero or fills it. -/
theorem copied_eq_iff {width n : ℕ} :
    copied width n = n ↔ n = 0 ∨ (bigBytes n).length = width := by
  rcases Nat.eq_zero_or_pos n with rfl | hpos
  · rw [copied_of_le (by simp)]
    simp
  · rw [or_iff_right hpos.ne']
    rcases Nat.lt_trichotomy (bigBytes n).length width with hlt | heq | hgt
    · rw [copied_of_le hlt.le]
      have hpow : 1 < 256 ^ (width - (bigBytes n).length) :=
        Nat.one_lt_pow (by omega) (by norm_num)
      exact iff_of_false (lt_mul_of_one_lt_right hpos hpow).ne' hlt.ne
    · rw [copied_of_le heq.le, heq, Nat.sub_self, pow_zero, mul_one]
      exact iff_of_true rfl rfl
    · rw [copied_of_ge hgt.le]
      have hpow : 1 < 256 ^ ((bigBytes n).length - width) :=
        Nat.one_lt_pow (by omega) (by norm_num)
      exact iff_of_false (Nat.div_lt_self hpos hpow).ne hgt.ne'

theorem bigBytes_length_eq_iff {width n : ℕ} (hwidth : 0 < width) :
    (bigBytes n).length = width ↔ 256 ^ (width - 1) ≤ n ∧ n < 256 ^ width := by
  rw [← bigBytes_length_le_iff, ← not_lt, ← bigBytes_length_le_iff]
  omega

/-! ## Two numbers in a word -/

/-- A word from two byte strings, each copied into its half. -/
def packHalves (high low : List UInt8) : Word :=
  bytesToHash (copyBytes 16 high ++ copyBytes 16 low)

/-- `SetBytes(data[:16])`. -/
def highHalf (w : Word) : ℕ := bytesToNat ((hashBytes w).take 16)

/-- `SetBytes(data[16:])`. -/
def lowHalf (w : Word) : ℕ := bytesToNat ((hashBytes w).drop 16)

theorem hashBytes_packHalves (high low : List UInt8) :
    hashBytes (packHalves high low) = copyBytes 16 high ++ copyBytes 16 low :=
  hashBytes_bytesToHash (by rw [List.length_append, copyBytes_length, copyBytes_length])

@[simp]
theorem highHalf_packHalves (high low : List UInt8) :
    highHalf (packHalves high low) = bytesToNat (copyBytes 16 high) := by
  rw [highHalf, hashBytes_packHalves, List.take_left' (copyBytes_length _ _)]

@[simp]
theorem lowHalf_packHalves (high low : List UInt8) :
    lowHalf (packHalves high low) = bytesToNat (copyBytes 16 low) := by
  rw [lowHalf, hashBytes_packHalves, List.drop_left' (copyBytes_length _ _)]

/-- A word is zero when both halves are. -/
theorem packHalves_eq_zero_iff (high low : List UInt8) :
    packHalves high low = 0 ↔
      bytesToNat (copyBytes 16 high) = 0 ∧ bytesToNat (copyBytes 16 low) = 0 := by
  have hlt : bytesToNat (copyBytes 16 high ++ copyBytes 16 low) < 2 ^ 256 := by
    have hbound := bytesToNat_lt (copyBytes 16 high ++ copyBytes 16 low)
    rw [List.length_append, copyBytes_length, copyBytes_length] at hbound
    exact lt_of_lt_of_le hbound (by norm_num)
  have hzero : packHalves high low = 0 ↔
      bytesToNat (copyBytes 16 high ++ copyBytes 16 low) = 0 := by
    rw [packHalves, bytesToHash, ← BitVec.toNat_inj, BitVec.toNat_ofNat, Nat.mod_eq_of_lt hlt]
    rfl
  rw [hzero, bytesToNat_append, Nat.add_eq_zero_iff, Nat.mul_eq_zero,
    or_iff_left (by positivity)]

end LuxPrecompile.Evm
