import Mathlib.Data.Int.ModEq
import LuxPrecompile.Fhe.Ledger
import LuxPrecompile.Fhe.Widths

/-!
# Scalars and rotations

The operations of `fhe/fhe_ops.go` on a ciphertext and a public number, over plaintexts.  The
number is a word of 64 bits whatever the width of the ciphertext is: subtraction negates it
modulo 2⁶⁴, and division and remainder encrypt its low bits.  The rotations are those of
`BitVec`.
-/

namespace LuxPrecompile.Fhe

open Evm Support

/-! ## Plaintexts -/

/-- The library over plaintexts: a ciphertext of `n` bits stands for a number below `2 ^ n`.
What a division by zero gives is left open. -/
structure Library.Semantics {BitCiphertext Ciphertext : Type}
    (fhe : Library BitCiphertext Ciphertext) where
  value : BitCiphertext → ℕ
  quotientByZero : ℕ → ℕ → ℕ
  remainderByZero : ℕ → ℕ → ℕ
  evaluator : fhe.evaluator = true
  encryptor : fhe.encryptor = true
  value_lt : ∀ a, value a < 2 ^ fhe.numBits a
  unmarshal : ∀ data a, fhe.unmarshalBinary data = some a → fhe.numBits a = declaredBits data
  marshal : ∀ a, fhe.numBits a ≤ maxCiphertextBits → ∃ data, fhe.marshalBinary a = some data ∧
    wellFramed data = true ∧ fhe.unmarshalBinary data = some a
  scalarAdd : ∀ a s, ∃ r, fhe.scalarAdd a s = some r ∧ fhe.numBits r = fhe.numBits a ∧
    value r = (value a + s.toNat) % 2 ^ fhe.numBits a
  encryptUint64 : ∀ s target, ∃ r, fhe.encryptUint64 s target = some r ∧
    fhe.numBits r = target.bits ∧ value r = s.toNat % 2 ^ target.bits
  mismatch : ∀ op a b, fhe.numBits a ≠ fhe.numBits b → fhe.arithmetic op a b = none
  or : ∀ a b, fhe.numBits a = fhe.numBits b → ∃ r, fhe.arithmetic .or a b = some r ∧
    fhe.numBits r = fhe.numBits a ∧ value r = value a ||| value b
  div : ∀ a b, fhe.numBits a = fhe.numBits b → ∃ r, fhe.arithmetic .div a b = some r ∧
    fhe.numBits r = fhe.numBits a ∧
    value r = if value b = 0 then quotientByZero (fhe.numBits a) (value a)
      else value a / value b
  rem : ∀ a b, fhe.numBits a = fhe.numBits b → ∃ r, fhe.arithmetic .rem a b = some r ∧
    fhe.numBits r = fhe.numBits a ∧
    value r = if value b = 0 then remainderByZero (fhe.numBits a) (value a)
      else value a % value b
  shl : ∀ a k, fhe.numBits (fhe.shl a k) = fhe.numBits a ∧
    value (fhe.shl a k) = value a <<< k % 2 ^ fhe.numBits a
  shr : ∀ a k, fhe.numBits (fhe.shr a k) = fhe.numBits a ∧
    value (fhe.shr a k) = value a >>> k

section Plaintexts

variable {BitCiphertext Ciphertext : Type} {fhe : Library BitCiphertext Ciphertext}

/-- A ciphertext of `n` bits that stands for `v`. -/
structure Library.Semantics.Encrypts (sem : fhe.Semantics) (a : BitCiphertext) (n v : ℕ) :
    Prop where
  width : fhe.numBits a = n
  value : sem.value a = v

/-- An encoding of such a ciphertext. -/
def Library.Semantics.Encodes (sem : fhe.Semantics) (data : List UInt8) (n v : ℕ) : Prop :=
  ∃ a, deserializeBitCiphertext fhe data = some a ∧ sem.Encrypts a n v

/-- A computation that gives such an encoding. -/
def Library.Semantics.Yields (sem : fhe.Semantics) (x : Option (List UInt8)) (n v : ℕ) : Prop :=
  ∃ data, x = some data ∧ sem.Encodes data n v

variable {sem : fhe.Semantics}

theorem Library.Semantics.Encodes.width_le {data : List UInt8} {n v : ℕ}
    (h : sem.Encodes data n v) : n ≤ maxCiphertextBits := by
  obtain ⟨a, ha, hwidth, -⟩ := h
  unfold deserializeBitCiphertext at ha
  split_ifs at ha with hframed
  rw [← hwidth, sem.unmarshal data a ha]
  by_contra hwide
  rw [wellFramed, if_pos (not_le.mp hwide)] at hframed
  split_ifs at hframed

theorem Library.Semantics.Encodes.value_lt {data : List UInt8} {n v : ℕ}
    (h : sem.Encodes data n v) : v < 2 ^ n := by
  obtain ⟨a, -, rfl, rfl⟩ := h
  exact sem.value_lt a

/-- The encoding of a result stands for one plaintext. -/
theorem yields_serialize_iff {r : BitCiphertext} {n v w : ℕ} (hr : sem.Encrypts r n w)
    (hn : n ≤ maxCiphertextBits) :
    sem.Yields (serializeBitCiphertext fhe r) n v ↔ w = v := by
  obtain ⟨data, hdata, hframed, hback⟩ := sem.marshal r (hr.width ▸ hn)
  have hdeserialize : deserializeBitCiphertext fhe data = some r :=
    (if_pos hframed).trans hback
  constructor
  · rintro ⟨data', heq, a, ha, -, hvalue⟩
    obtain rfl := Option.some.inj (hdata.symm.trans heq)
    obtain rfl := Option.some.inj (hdeserialize.symm.trans ha)
    exact hr.value.symm.trans hvalue
  · rintro rfl
    exact ⟨data, hdata, r, hdeserialize, hr⟩

theorem not_yields_none {n v : ℕ} : ¬ sem.Yields none n v := by
  rintro ⟨data, heq, -⟩
  cases heq

theorem getEvaluator_eq (sem : fhe.Semantics) : getEvaluator fhe = some () :=
  if_pos sem.evaluator

theorem getEncryptor_eq (sem : fhe.Semantics) : getEncryptor fhe = some () :=
  if_pos sem.encryptor

theorem yields_tfheUnary_iff {method : BitCiphertext → Option BitCiphertext} {data : List UInt8}
    {a r : BitCiphertext} {n v w : ℕ} (ha : deserializeBitCiphertext fhe data = some a)
    (hmethod : method a = some r) (hr : sem.Encrypts r n w) (hn : n ≤ maxCiphertextBits) :
    sem.Yields (tfheUnary fhe method data) n v ↔ w = v := by
  have heq : tfheUnary fhe method data = serializeBitCiphertext fhe r := by
    simp only [tfheUnary, getEvaluator_eq sem, ha, hmethod, Option.bind_eq_bind,
      Option.bind_some]
  rw [heq]
  exact yields_serialize_iff hr hn

end Plaintexts

/-! ## Subtraction -/

theorem natMod_eq_toNat_iff {x m : ℕ} {y : ℤ} (hm : 0 < m) :
    x % m = (y % m).toNat ↔ (x : ℤ) ≡ y [ZMOD m] := by
  have hy := Int.emod_nonneg y (by exact_mod_cast hm.ne' : (m : ℤ) ≠ 0)
  rw [← Int.natCast_inj, Int.toNat_of_nonneg hy, Int.natCast_emod]
  exact Iff.rfl

/-- The scalar that `tfheScalarSub` adds for a width. -/
def negScalar (s : UInt64) (n : ℕ) : UInt64 := (~~~s + 1) &&& UInt64.ofNat (2 ^ n - 1)

theorem negScalar_toNat (s : UInt64) (n : ℕ) :
    (negScalar s n).toNat = (2 ^ 64 - s.toNat) % 2 ^ min n 64 := by
  have hmask : (2 ^ n - 1) % 2 ^ 64 = 2 ^ min n 64 - 1 := by
    rcases Nat.le_total n 64 with hle | hle
    · have hpow : 2 ^ n ≤ 2 ^ 64 := Nat.pow_le_pow_right (by decide) hle
      rw [Nat.min_eq_left hle, Nat.mod_eq_of_lt (by omega)]
    · obtain ⟨k, rfl⟩ := Nat.exists_eq_add_of_le hle
      have hpos := Nat.two_pow_pos k
      rw [Nat.min_eq_right hle, pow_add]
      omega
  have hnot : (~~~s + 1).toNat = (2 ^ 64 - s.toNat) % 2 ^ 64 := by
    have hlt := s.toNat_lt
    rw [UInt64.toNat_add, UInt64.toNat_not]
    simp only [UInt64.size, UInt64.reduceToNat]
    omega
  have hdvd : 2 ^ min n 64 ∣ 2 ^ 64 := pow_dvd_pow 2 (Nat.min_le_right n 64)
  rw [negScalar, UInt64.toNat_and, UInt64.toNat_ofNat', hmask, Nat.and_two_pow_sub_one_eq_mod,
    hnot, Nat.mod_mod_of_dvd _ hdvd]

/-- The scalar added is the negated one exactly up to 64 bits. -/
theorem negScalar_modEq_iff (s : UInt64) (n : ℕ) :
    ((negScalar s n).toNat : ℤ) ≡ -s.toNat [ZMOD (2 ^ n : ℕ)] ↔ n ≤ 64 ∨ s = 0 := by
  have hlt := s.toNat_lt
  have hword : ((2 ^ 64 - s.toNat : ℕ) : ℤ) = 2 ^ 64 - s.toNat := by
    rw [Nat.cast_sub hlt.le]
    norm_num
  have hdiff : -(s.toNat : ℤ) - (2 ^ 64 - s.toNat) = -((2 ^ 64 : ℕ) : ℤ) := by
    push_cast
    ring
  have hdvd : ((2 ^ n : ℕ) : ℤ) ∣ -(s.toNat : ℤ) - (2 ^ 64 - s.toNat : ℕ) ↔ n ≤ 64 := by
    rw [hword, hdiff, dvd_neg, Int.natCast_dvd_natCast]
    exact Nat.pow_dvd_pow_iff_le_right' (b := 0)
  rw [negScalar_toNat]
  rcases Nat.le_total n 64 with hle | hle
  · refine iff_of_true ?_ (.inl hle)
    rw [Nat.min_eq_left hle, Int.natCast_emod]
    exact (Int.mod_modEq _ _).trans (Int.modEq_iff_dvd.mpr (hdvd.mpr hle))
  · rw [Nat.min_eq_right hle]
    by_cases hs : s = 0
    · refine iff_of_true ?_ (.inr hs)
      rw [hs]
      exact Int.ModEq.refl 0
    · have hpos : 0 < s.toNat := Nat.pos_of_ne_zero fun h => hs (UInt64.toNat_inj.mp h)
      rw [Nat.mod_eq_of_lt (Nat.sub_lt (by decide) hpos), Int.modEq_iff_dvd, hdvd]
      exact ⟨.inl, fun h => h.resolve_right hs⟩

section Operations

variable {BitCiphertext Ciphertext : Type} {fhe : Library BitCiphertext Ciphertext}
  {sem : fhe.Semantics}

theorem tfheScalarSub_yields_iff {data : List UInt8} {n a : ℕ} (hdata : sem.Encodes data n a)
    (s : UInt64) :
    sem.Yields (tfheScalarSub fhe s data) n ((a - s.toNat : ℤ) % (2 ^ n : ℕ)).toNat ↔
      n ≤ 64 ∨ s = 0 := by
  have hn := hdata.width_le
  obtain ⟨ct, hct, rfl, rfl⟩ := hdata
  obtain ⟨r, hr, hwidth, hvalue⟩ := sem.scalarAdd ct (negScalar s (fhe.numBits ct))
  have hmethod : (fun ct => fhe.scalarAdd ct ((~~~s + 1) &&&
      UInt64.ofNat (2 ^ fhe.numBits ct - 1))) ct = some r := hr
  rw [tfheScalarSub, yields_tfheUnary_iff hct hmethod ⟨hwidth, hvalue⟩ hn,
    natMod_eq_toNat_iff (Nat.two_pow_pos _), ← negScalar_modEq_iff, Nat.cast_add, sub_eq_add_neg]
  exact ⟨Int.ModEq.add_left_cancel' _, Int.ModEq.add_left _⟩

/-! ## Division and remainder -/

/-- A division of an encoding by a scalar encrypted under its type. -/
theorem tfheEncrypted_yields_iff {op : Arithmetic} {f : ℕ → ℕ → ℕ → ℕ}
    (hop : ∀ a b, fhe.numBits a = fhe.numBits b → ∃ r, fhe.arithmetic op a b = some r ∧
      fhe.numBits r = fhe.numBits a ∧
      sem.value r = f (fhe.numBits a) (sem.value a) (sem.value b))
    {data : List UInt8} {n a : ℕ} (hdata : sem.Encodes data n a) (s : UInt64) (t : UInt8)
    (v : ℕ) :
    sem.Yields (tfheEncrypted fhe op data s t) n v ↔
      (fheTypeToTFHEType t).bits = n ∧ f n a (s.toNat % 2 ^ n) = v := by
  have hn := hdata.width_le
  obtain ⟨ct, hct, rfl, rfl⟩ := hdata
  obtain ⟨scalar, hscalar, hbits, hvalue⟩ := sem.encryptUint64 s (fheTypeToTFHEType t)
  by_cases htype : (fheTypeToTFHEType t).bits = fhe.numBits ct
  · obtain ⟨r, hr, hwidth, hresult⟩ := hop ct scalar (htype.symm.trans hbits.symm)
    rw [hvalue, htype] at hresult
    have heq : tfheEncrypted fhe op data s t = serializeBitCiphertext fhe r := by
      simp only [tfheEncrypted, hct, hscalar, hr, Option.bind_eq_bind, Option.bind_some]
    rw [heq, yields_serialize_iff ⟨hwidth, hresult⟩ hn]
    exact (and_iff_right htype).symm
  · have hnone := sem.mismatch op ct scalar (by rw [hbits]; exact fun h => htype h.symm)
    have heq : tfheEncrypted fhe op data s t = none := by
      simp only [tfheEncrypted, hct, hscalar, hnone, Option.bind_eq_bind, Option.bind_some,
        Option.bind_none]
    rw [heq]
    exact iff_of_false not_yields_none fun h => htype h.1

/-- The scalar that a division by `s` works with leaves the quotient of an `n`-bit number as it
is: it is the scalar, or exceeds the number as the scalar does, or is zero and the quotient by
zero happens to be zero. -/
def QuotientKept (sem : fhe.Semantics) (n a s : ℕ) : Prop :=
  s < 2 ^ n ∨ a < s % 2 ^ n ∨ s % 2 ^ n = 0 ∧ sem.quotientByZero n a = 0

/-- The same of the remainder. -/
def RemainderKept (sem : fhe.Semantics) (n a s : ℕ) : Prop :=
  s < 2 ^ n ∨ a < s % 2 ^ n ∨ s % 2 ^ n = 0 ∧ sem.remainderByZero n a = a

theorem quotient_eq_iff {n a s : ℕ} (ha : a < 2 ^ n) (hs : 0 < s) :
    (if s % 2 ^ n = 0 then sem.quotientByZero n a else a / (s % 2 ^ n)) = a / s ↔
      QuotientKept sem n a s := by
  unfold QuotientKept
  by_cases hfits : s < 2 ^ n
  · rw [Nat.mod_eq_of_lt hfits, if_neg hs.ne']
    exact iff_of_true rfl (.inl hfits)
  · have hzero : a / s = 0 := Nat.div_eq_of_lt (lt_of_lt_of_le ha (not_lt.mp hfits))
    rw [hzero]
    by_cases hlow : s % 2 ^ n = 0
    · rw [if_pos hlow, hlow]
      simp [hfits]
    · rw [if_neg hlow, Nat.div_eq_zero_iff]
      simp [hfits, hlow]

theorem remainder_eq_iff {n a s : ℕ} (ha : a < 2 ^ n) (hs : 0 < s) :
    (if s % 2 ^ n = 0 then sem.remainderByZero n a else a % (s % 2 ^ n)) = a % s ↔
      RemainderKept sem n a s := by
  unfold RemainderKept
  by_cases hfits : s < 2 ^ n
  · rw [Nat.mod_eq_of_lt hfits, if_neg hs.ne']
    exact iff_of_true rfl (.inl hfits)
  · have hself : a % s = a := Nat.mod_eq_of_lt (lt_of_lt_of_le ha (not_lt.mp hfits))
    rw [hself]
    by_cases hlow : s % 2 ^ n = 0
    · rw [if_pos hlow, hlow]
      simp [hfits]
    · rw [if_neg hlow, Nat.mod_eq_iff_lt hlow]
      simp [hfits, hlow]

theorem tfheScalarDiv_yields_iff {data : List UInt8} {n a : ℕ} (hdata : sem.Encodes data n a)
    {s : UInt64} (hs : s ≠ 0) (t : UInt8) :
    sem.Yields (tfheScalarDiv fhe data s t) n (a / s.toNat) ↔
      (fheTypeToTFHEType t).bits = n ∧ QuotientKept sem n a s.toNat := by
  have heq : tfheScalarDiv fhe data s t = tfheEncrypted fhe .div data s t := by
    simp only [tfheScalarDiv, getEvaluator_eq sem, getEncryptor_eq sem, if_neg hs,
      Option.bind_eq_bind, Option.bind_some]
  have hpos : 0 < s.toNat := Nat.pos_of_ne_zero fun h => hs (UInt64.toNat_inj.mp h)
  rw [heq, tfheEncrypted_yields_iff
    (f := fun n a b => if b = 0 then sem.quotientByZero n a else a / b) sem.div hdata]
  exact and_congr_right fun _ => quotient_eq_iff hdata.value_lt hpos

theorem tfheScalarRem_yields_iff {data : List UInt8} {n a : ℕ} (hdata : sem.Encodes data n a)
    {s : UInt64} (hs : s ≠ 0) (t : UInt8) :
    sem.Yields (tfheScalarRem fhe data s t) n (a % s.toNat) ↔
      (fheTypeToTFHEType t).bits = n ∧ RemainderKept sem n a s.toNat := by
  have heq : tfheScalarRem fhe data s t = tfheEncrypted fhe .rem data s t := by
    simp only [tfheScalarRem, getEvaluator_eq sem, getEncryptor_eq sem, if_neg hs,
      Option.bind_eq_bind, Option.bind_some]
  have hpos : 0 < s.toNat := Nat.pos_of_ne_zero fun h => hs (UInt64.toNat_inj.mp h)
  rw [heq, tfheEncrypted_yields_iff
    (f := fun n a b => if b = 0 then sem.remainderByZero n a else a % b) sem.rem hdata]
  exact and_congr_right fun _ => remainder_eq_iff hdata.value_lt hpos

/-! ## Rotations -/

theorem rotateRight_rotateLeft {n : ℕ} (x : BitVec n) (k : ℕ) :
    (x.rotateLeft k).rotateRight k = x := by
  apply BitVec.eq_of_getElem_eq
  intro i hi
  have hlt := Nat.mod_lt k (Nat.zero_lt_of_lt hi)
  rw [BitVec.getElem_rotateRight hi]
  split_ifs with hlow
  · rw [BitVec.getElem_rotateLeft, dif_neg (Nat.not_lt.mpr (Nat.le_add_right _ i))]
    simp only [Nat.add_sub_cancel_left]
  · rw [BitVec.getElem_rotateLeft, dif_pos (by omega)]
    congr 1
    omega

theorem rotateLeft_rotateRight {n : ℕ} (x : BitVec n) (k : ℕ) :
    (x.rotateRight k).rotateLeft k = x := by
  apply BitVec.eq_of_getElem_eq
  intro i hi
  have hlt := Nat.mod_lt k (Nat.zero_lt_of_lt hi)
  rw [BitVec.getElem_rotateLeft hi]
  split_ifs with hlow
  · rw [BitVec.getElem_rotateRight, dif_neg (by omega)]
    congr 1
    omega
  · rw [BitVec.getElem_rotateRight, dif_pos (by omega)]
    congr 1
    omega

/-- The bits of a number below `2 ^ n`, rotated. -/
def rotatedLeft (n a k : ℕ) : ℕ := ((BitVec.ofNat n a).rotateLeft k).toNat
def rotatedRight (n a k : ℕ) : ℕ := ((BitVec.ofNat n a).rotateRight k).toNat

theorem rotatedRight_rotatedLeft {n a k : ℕ} (ha : a < 2 ^ n) :
    rotatedRight n (rotatedLeft n a k) k = a := by
  rw [rotatedRight, rotatedLeft, BitVec.ofNat_toNat, BitVec.setWidth_eq, rotateRight_rotateLeft,
    BitVec.toNat_ofNat, Nat.mod_eq_of_lt ha]

theorem rotatedLeft_rotatedRight {n a k : ℕ} (ha : a < 2 ^ n) :
    rotatedLeft n (rotatedRight n a k) k = a := by
  rw [rotatedRight, rotatedLeft, BitVec.ofNat_toNat, BitVec.setWidth_eq, rotateLeft_rotateRight,
    BitVec.toNat_ofNat, Nat.mod_eq_of_lt ha]

theorem tfheRotl_yields {data : List UInt8} {n a : ℕ} (hdata : sem.Encodes data n a)
    (hpos : 0 < n) (k : ℕ) : sem.Yields (tfheRotl fhe k data) n (rotatedLeft n a k) := by
  have hn := hdata.width_le
  have ha := hdata.value_lt
  obtain ⟨ct, hct, rfl, rfl⟩ := hdata
  have hfirst := sem.shl ct (k % fhe.numBits ct)
  have hsecond := sem.shr ct (fhe.numBits ct - k % fhe.numBits ct)
  obtain ⟨r, hr, hwidth, hvalue⟩ := sem.or _ _ (hfirst.1.trans hsecond.1.symm)
  rw [hfirst.1] at hwidth
  rw [hfirst.2, hsecond.2] at hvalue
  have hmethod : rotate fhe fhe.shl fhe.shr k ct = some r := (if_neg hpos.ne').trans hr
  rw [tfheRotl, yields_tfheUnary_iff hct hmethod ⟨hwidth, hvalue⟩ hn, rotatedLeft,
    BitVec.toNat_rotateLeft, BitVec.toNat_ofNat, Nat.mod_eq_of_lt ha]

theorem tfheRotr_yields {data : List UInt8} {n a : ℕ} (hdata : sem.Encodes data n a)
    (hpos : 0 < n) (k : ℕ) : sem.Yields (tfheRotr fhe k data) n (rotatedRight n a k) := by
  have hn := hdata.width_le
  have ha := hdata.value_lt
  obtain ⟨ct, hct, rfl, rfl⟩ := hdata
  have hfirst := sem.shr ct (k % fhe.numBits ct)
  have hsecond := sem.shl ct (fhe.numBits ct - k % fhe.numBits ct)
  obtain ⟨r, hr, hwidth, hvalue⟩ := sem.or _ _ (hfirst.1.trans hsecond.1.symm)
  rw [hfirst.1] at hwidth
  rw [hfirst.2, hsecond.2] at hvalue
  have hmethod : rotate fhe fhe.shr fhe.shl k ct = some r := (if_neg hpos.ne').trans hr
  rw [tfheRotr, yields_tfheUnary_iff hct hmethod ⟨hwidth, hvalue⟩ hn, rotatedRight,
    BitVec.toNat_rotateRight, BitVec.toNat_ofNat, Nat.mod_eq_of_lt ha]

/-! ## The operations of the precompile -/

/-- An operation's result: an encoding of a plaintext under the type it is stored under. -/
def Library.Semantics.Stores (sem : fhe.Semantics) (x : Option (List UInt8 × UInt8)) (t : UInt8)
    (n v : ℕ) : Prop :=
  ∃ data, x = some (data, t) ∧ sem.Encodes data n v

theorem stores_map_iff {x : Option (List UInt8)} {t : UInt8} {n v : ℕ} :
    sem.Stores (x.map fun data => (data, t)) t n v ↔ sem.Yields x n v := by
  simp [Library.Semantics.Stores, Library.Semantics.Yields]

variable {keccak256 : List UInt8 → Word} {st : Storage} {handle : Word} {data : List UInt8}
  {t : UInt8}

theorem fheScalarOperation_eq (hget : getCiphertext keccak256 st handle = some (data, t))
    (op : ScalarOp) {s : ℕ} (hs : s < 2 ^ 64) :
    fheScalarOperation keccak256 fhe st op handle s =
      (op.evaluate fhe data (UInt64.ofNat s) t).map fun data => (data, t) := by
  have hword : unsigned64 s = some (UInt64.ofNat s) := if_pos hs
  simp only [fheScalarOperation, hget, hword, Option.bind_eq_bind, Option.bind_some]
  exact Option.map_eq_bind.symm

theorem fheShiftOperation_eq (hget : getCiphertext keccak256 st handle = some (data, t))
    (op : ShiftOp) (k : ℕ) :
    fheShiftOperation keccak256 fhe st op handle k =
      (op.evaluate fhe k data).map fun data => (data, t) := by
  simp only [fheShiftOperation, hget, Option.bind_eq_bind, Option.bind_some]
  exact Option.map_eq_bind.symm

theorem stores_unique {x : Option (List UInt8 × UInt8)} {n v : ℕ} {out : List UInt8}
    (h : sem.Stores x t n v) (hx : x = some (out, t)) : sem.Encodes out n v := by
  obtain ⟨data, hdata, hencodes⟩ := h
  obtain ⟨rfl, -⟩ := Prod.mk.inj (Option.some.inj (hdata.symm.trans hx))
  exact hencodes

/-- On a stored ciphertext of `n` bits that stands for `a`: the difference with a scalar comes
out exactly for `n ≤ 64` or a zero scalar; the quotient and the remainder by a positive scalar
exactly when the stored type is encrypted with `n` bits and the scalar's low bits keep them;
the rotations by any shift come out, and undo each other. -/
theorem scalars_and_rotations_iff (sem : fhe.Semantics)
    (hget : getCiphertext keccak256 st handle = some (data, t)) {n a : ℕ}
    (hdata : sem.Encodes data n a) (hpos : 0 < n) :
    (∀ s < 2 ^ 64, sem.Stores (fheScalarOperation keccak256 fhe st .sub handle s) t n
        ((a - s : ℤ) % (2 ^ n : ℕ)).toNat ↔ n ≤ 64 ∨ s = 0) ∧
    (∀ s < 2 ^ 64, 0 < s →
      (sem.Stores (fheScalarOperation keccak256 fhe st .div handle s) t n (a / s) ↔
        (fheTypeToTFHEType t).bits = n ∧ QuotientKept sem n a s)) ∧
    (∀ s < 2 ^ 64, 0 < s →
      (sem.Stores (fheScalarOperation keccak256 fhe st .rem handle s) t n (a % s) ↔
        (fheTypeToTFHEType t).bits = n ∧ RemainderKept sem n a s)) ∧
    ∀ k, sem.Stores (fheShiftOperation keccak256 fhe st .rotl handle k) t n
        (rotatedLeft n a k) ∧
      sem.Stores (fheShiftOperation keccak256 fhe st .rotr handle k) t n
        (rotatedRight n a k) ∧
      ∀ st' handle' out, getCiphertext keccak256 st' handle' = some (out, t) →
        (fheShiftOperation keccak256 fhe st .rotl handle k = some (out, t) →
          sem.Stores (fheShiftOperation keccak256 fhe st' .rotr handle' k) t n a) ∧
        (fheShiftOperation keccak256 fhe st .rotr handle k = some (out, t) →
          sem.Stores (fheShiftOperation keccak256 fhe st' .rotl handle' k) t n a) := by
  have hword : ∀ {s : ℕ}, s < 2 ^ 64 → (UInt64.ofNat s).toNat = s := fun hs => by
    rw [UInt64.toNat_ofNat', Nat.mod_eq_of_lt hs]
  have hzero : ∀ {s : ℕ}, s < 2 ^ 64 → (UInt64.ofNat s = 0 ↔ s = 0) := fun hs => by
    rw [← UInt64.toNat_inj, hword hs]
    rfl
  refine ⟨fun s hs => ?_, fun s hs hs0 => ?_, fun s hs hs0 => ?_, fun k => ?_⟩
  · have hsub := tfheScalarSub_yields_iff hdata (UInt64.ofNat s)
    rw [hword hs, hzero hs] at hsub
    rw [fheScalarOperation_eq hget _ hs, stores_map_iff]
    exact hsub
  · have hdiv := tfheScalarDiv_yields_iff hdata (mt (hzero hs).mp hs0.ne') t
    rw [hword hs] at hdiv
    rw [fheScalarOperation_eq hget _ hs, stores_map_iff]
    exact hdiv
  · have hrem := tfheScalarRem_yields_iff hdata (mt (hzero hs).mp hs0.ne') t
    rw [hword hs] at hrem
    rw [fheScalarOperation_eq hget _ hs, stores_map_iff]
    exact hrem
  · have hleft : sem.Stores (fheShiftOperation keccak256 fhe st .rotl handle k) t n
        (rotatedLeft n a k) := by
      rw [fheShiftOperation_eq hget, stores_map_iff]
      exact tfheRotl_yields hdata hpos k
    have hright : sem.Stores (fheShiftOperation keccak256 fhe st .rotr handle k) t n
        (rotatedRight n a k) := by
      rw [fheShiftOperation_eq hget, stores_map_iff]
      exact tfheRotr_yields hdata hpos k
    refine ⟨hleft, hright, fun st' handle' out hget' => ⟨fun hout => ?_, fun hout => ?_⟩⟩
    · have hback := tfheRotr_yields (stores_unique hleft hout) hpos k
      rw [rotatedRight_rotatedLeft hdata.value_lt] at hback
      rw [fheShiftOperation_eq hget', stores_map_iff]
      exact hback
    · have hback := tfheRotl_yields (stores_unique hright hout) hpos k
      rw [rotatedLeft_rotatedRight hdata.value_lt] at hback
      rw [fheShiftOperation_eq hget', stores_map_iff]
      exact hback

end Operations

/-! ## Bits in the clear -/

theorem bitsValue_lowBits (n v : ℕ) : bitsValue (lowBits n v) = v % 2 ^ n := by
  induction n generalizing v with
  | zero => rw [pow_zero, Nat.mod_one]; rfl
  | succ n ih =>
      have hcons : lowBits (n + 1) v = v.testBit 0 :: lowBits n (v / 2) := by
        rw [lowBits, lowBits, List.range_succ_eq_map, List.map_cons, List.map_map]
        congr 2
        funext i
        exact Nat.testBit_succ v i
      have hbit : (v.testBit 0).toNat = v % 2 := by
        rw [Nat.testBit_zero]
        rcases Nat.mod_two_eq_zero_or_one v with h | h
        · rw [h]; rfl
        · rw [h]; rfl
      have hstep : bitsValue (v.testBit 0 :: lowBits n (v / 2)) =
          2 * bitsValue (lowBits n (v / 2)) + (v.testBit 0).toNat := rfl
      rw [hcons, hstep, ih, hbit, pow_succ', Nat.mod_mul, Nat.add_comm]

theorem bitsValue_lt (bits : List Bool) : bitsValue bits < 2 ^ bits.length := by
  induction bits with
  | nil => exact Nat.one_pos
  | cons b bits ih =>
      have hstep : bitsValue (b :: bits) = 2 * bitsValue bits + b.toNat := rfl
      have hb := Bool.toNat_le b
      rw [hstep, List.length_cons, pow_succ']
      omega

theorem bitsFramed_clear (bits : List Bool) (before : List UInt8) :
    bitsFramed (before ++ bits.flatMap clearBit) bits.length before.length = true := by
  induction bits generalizing before with
  | nil => rfl
  | cons b bits ih =>
      have hsplit : before ++ (b :: bits).flatMap clearBit =
          (before ++ clearBit b) ++ bits.flatMap clearBit := by
        rw [List.flatMap_cons, List.append_assoc]
      have hlength : (before ++ clearBit b).length = before.length + 4 + 1 := by
        rw [List.length_append]
        rfl
      have hbit : littleEndian (slice (before ++ (b :: bits).flatMap clearBit) before.length
          (before.length + 4)) = 1 := by
        rw [slice_append_right le_rfl, Nat.sub_self, Nat.add_sub_cancel_left, List.flatMap_cons,
          slice_append_left (Nat.le_succ 4 : 4 ≤ (clearBit b).length)]
        rfl
      have htotal : before.length + 4 + 1 ≤
          (before ++ (b :: bits).flatMap clearBit).length := by
        rw [hsplit, List.length_append, hlength]
        exact Nat.le_add_right _ _
      rw [List.length_cons, bitsFramed, if_neg (by omega), hbit, if_neg (by omega), ← hlength,
        hsplit]
      exact ih _

theorem wellFramed_clearBytes {bits : List Bool} (h : bits.length ≤ maxCiphertextBits) :
    wellFramed (clearBytes bits) = true := by
  have hlength := clearBytes_length bits
  have hframed := bitsFramed_clear bits ((natToBytes 4 bits.length).reverse ++ [0])
  rw [List.length_append, List.length_reverse, natToBytes_length, List.append_assoc] at hframed
  rw [wellFramed, if_neg (by omega), declaredBits_clearBytes h, if_neg (not_lt.mpr h)]
  exact hframed

theorem unmarshal_clearBytes {bits : List Bool} (h : bits.length ≤ maxCiphertextBits) :
    clearFhe.unmarshalBinary (clearBytes bits) = some bits := by
  have hbit : ∀ (bits : List Bool) (i : ℕ) (hi : i < bits.length),
      ((bits.flatMap clearBit).getD (5 * i + 4) 0 == 1) = bits[i] := by
    intro bits i hi
    rw [List.getD_eq_getElem?_getD, ← List.getElem?_drop,
      drop_flatMap_of_length (fun bit => (rfl : (clearBit bit).length = 5)),
      List.drop_eq_getElem_cons hi]
    rcases bits[i]
    · rfl
    · rfl
  refine congrArg some (List.ext_getElem ?_ fun i hi hi' => ?_)
  · rw [List.length_map, List.length_range, declaredBits_clearBytes h]
  · have hindex : 9 + 5 * i - (natToBytes 4 bits.length).reverse.length = 5 * i + 4 + 1 := by
      rw [List.length_reverse, natToBytes_length]
      omega
    have hle : (natToBytes 4 bits.length).reverse.length ≤ 9 + 5 * i := by
      rw [List.length_reverse, natToBytes_length]
      omega
    rw [List.getElem_map, List.getElem_range, ← hbit bits i hi', clearBytes,
      List.getD_eq_getElem?_getD, List.getElem?_append_right hle, hindex, List.getElem?_cons_succ,
      List.getD_eq_getElem?_getD]

/-- Bits in the clear compute with their values; a quotient by zero is all ones, and a
remainder by zero is the dividend. -/
def clearSemantics : clearFhe.Semantics where
  value := bitsValue
  quotientByZero n _ := 2 ^ n - 1
  remainderByZero _ a := a
  evaluator := rfl
  encryptor := rfl
  value_lt := bitsValue_lt
  unmarshal := clearFhe_widths.unmarshal
  marshal a h :=
    ⟨clearBytes a, if_pos h, wellFramed_clearBytes h, unmarshal_clearBytes h⟩
  scalarAdd a s := ⟨_, rfl, lowBits_length _ _, bitsValue_lowBits _ _⟩
  encryptUint64 s target := ⟨_, rfl, lowBits_length _ _, bitsValue_lowBits _ _⟩
  mismatch op a b h := if_neg h
  or a b h := by
    refine ⟨_, if_pos h, lowBits_length _ _, (bitsValue_lowBits _ _).trans ?_⟩
    have hb := bitsValue_lt b
    rw [show b.length = a.length from h.symm] at hb
    exact Nat.mod_eq_of_lt (Nat.or_lt_two_pow (bitsValue_lt a) hb)
  div a b h := by
    refine ⟨_, if_pos h, lowBits_length _ _, (bitsValue_lowBits _ _).trans ?_⟩
    by_cases hb : bitsValue b = 0
    · rw [Arithmetic.value, if_pos hb, if_pos hb]
      exact Nat.mod_eq_of_lt (Nat.sub_lt (Nat.two_pow_pos _) Nat.one_pos)
    · rw [Arithmetic.value, if_neg hb, if_neg hb]
      exact Nat.mod_eq_of_lt (lt_of_le_of_lt (Nat.div_le_self _ _) (bitsValue_lt a))
  rem a b h := by
    refine ⟨_, if_pos h, lowBits_length _ _, (bitsValue_lowBits _ _).trans ?_⟩
    by_cases hb : bitsValue b = 0
    · rw [Arithmetic.value, if_pos hb, hb, Nat.mod_zero]
      exact Nat.mod_eq_of_lt (bitsValue_lt a)
    · rw [Arithmetic.value, if_neg hb]
      exact Nat.mod_eq_of_lt (lt_of_le_of_lt (Nat.mod_le _ _) (bitsValue_lt a))
  shl a k := ⟨lowBits_length _ _, bitsValue_lowBits _ _⟩
  shr a k := by
    refine ⟨lowBits_length _ _, (bitsValue_lowBits _ _).trans ?_⟩
    have hle : bitsValue a >>> k ≤ bitsValue a := Nat.shiftRight_le _ _
    exact Nat.mod_eq_of_lt (lt_of_le_of_lt hle (bitsValue_lt a))

theorem encodes_clearBytes (bits : List Bool) (h : bits.length ≤ maxCiphertextBits) :
    clearSemantics.Encodes (clearBytes bits) bits.length (bitsValue bits) :=
  ⟨bits, (if_pos (wellFramed_clearBytes h)).trans (unmarshal_clearBytes h), rfl, rfl⟩

/-- The storage after 200 is stored in eight bits. -/
def sampleStorage : Storage :=
  (storeCiphertext sampleHash 0 (clearBytes (lowBits 8 200)) typeEuint8).2

theorem scalars_and_rotations_sample :
    clearSemantics.Stores (fheScalarOperation sampleHash clearFhe sampleStorage .sub
        (sampleHash (clearBytes (lowBits 8 200))) 201) typeEuint8 8 255 ∧
      clearSemantics.Stores (fheShiftOperation sampleHash clearFhe sampleStorage .rotl
        (sampleHash (clearBytes (lowBits 8 200))) 3) typeEuint8 8 70 :=
  have h := @scalars_and_rotations_iff _ _ clearFhe sampleHash sampleStorage
    (sampleHash (clearBytes (lowBits 8 200))) (clearBytes (lowBits 8 200)) typeEuint8
    clearSemantics (by decide +kernel) 8 200 (encodes_clearBytes (lowBits 8 200) (by decide))
    (by decide)
  ⟨(h.1 201 (by decide)).mpr (.inl (by decide)), (h.2.2.2 3).1⟩

/-- In 128 bits 5 − 3 does not come out, and in eight bits neither do the quotient of 200 by
257 nor its remainder by 263. -/
theorem scalars_fail :
    (¬ ∀ data n a s, clearSemantics.Encodes data n a →
      clearSemantics.Yields (tfheScalarSub clearFhe s data) n
        ((a - s.toNat : ℤ) % (2 ^ n : ℕ)).toNat) ∧
    (¬ ∀ data n a s t, clearSemantics.Encodes data n a → s ≠ 0 → typeBits t = some n →
      clearSemantics.Yields (tfheScalarDiv clearFhe data s t) n (a / s.toNat)) ∧
    ¬ ∀ data n a s t, clearSemantics.Encodes data n a → s ≠ 0 → typeBits t = some n →
      clearSemantics.Yields (tfheScalarRem clearFhe data s t) n (a % s.toNat) := by
  have hwide := encodes_clearBytes (lowBits 128 5) (by rw [lowBits_length]; decide)
  have hbyte := encodes_clearBytes (lowBits 8 200) (by decide)
  refine ⟨fun h => ?_, fun h => ?_, fun h => ?_⟩
  · have hkept := (tfheScalarSub_yields_iff hwide 3).mp (h _ _ _ 3 hwide)
    rw [lowBits_length] at hkept
    exact absurd hkept (by decide)
  · have hkept := (tfheScalarDiv_yields_iff hbyte (by decide) typeEuint8).mp
      (h _ _ _ 257 typeEuint8 hbyte (by decide) rfl)
    rcases hkept.2 with hfits | hlow | ⟨hzero, -⟩
    · exact absurd hfits (by decide)
    · exact absurd hlow (by decide)
    · exact absurd hzero (by decide)
  · have hkept := (tfheScalarRem_yields_iff hbyte (by decide) typeEuint8).mp
      (h _ _ _ 263 typeEuint8 hbyte (by decide) rfl)
    rcases hkept.2 with hfits | hlow | ⟨hzero, -⟩
    · exact absurd hfits (by decide)
    · exact absurd hlow (by decide)
    · exact absurd hzero (by decide)

end LuxPrecompile.Fhe
