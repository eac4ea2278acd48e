import Mathlib.Data.Nat.Size
import LuxPrecompile.Evm.Word

/-!
# Big-endian fields

Numbers written in a fixed number of bytes, fields inside a longer byte string and
`encoding/binary`'s big-endian integers.
-/

namespace LuxPrecompile.Evm

theorem natToBytes_add (m k x : ℕ) :
    natToBytes (m + k) x = natToBytes m (x / 256 ^ k) ++ natToBytes k x := by
  induction k generalizing x with
  | zero => simp [natToBytes]
  | succ k ih =>
      have hdiv : x / 256 / 256 ^ k = x / 256 ^ (k + 1) := by
        rw [Nat.div_div_eq_div_mul, pow_succ']
      rw [← Nat.add_assoc, natToBytes, ih, hdiv, natToBytes, List.append_assoc]

theorem drop_natToBytes (m k x : ℕ) : (natToBytes (m + k) x).drop m = natToBytes k x := by
  rw [natToBytes_add]
  exact List.drop_left' (natToBytes_length _ _)

theorem bytesToNat_natToBytes_mod (n x : ℕ) : bytesToNat (natToBytes n x) = x % 256 ^ n := by
  induction n generalizing x with
  | zero =>
      rw [pow_zero, Nat.mod_one]
      rfl
  | succ n ih =>
      have hbyte : (UInt8.ofNat x).toNat = x % 256 := UInt8.toNat_ofNat'
      rw [natToBytes, bytesToNat_append_singleton, ih, hbyte, pow_succ', Nat.mod_mul]
      ring

theorem bytesToNat_append (a b : List UInt8) :
    bytesToNat (a ++ b) = bytesToNat a * 256 ^ b.length + bytesToNat b := by
  induction b using List.reverseRecOn with
  | nil => simp [bytesToNat]
  | append_singleton b x ih =>
      rw [← List.append_assoc, bytesToNat_append_singleton, ih, bytesToNat_append_singleton,
        List.length_append, List.length_singleton, pow_succ]
      ring

theorem bytesToNat_replicate_zero (n : ℕ) : bytesToNat (List.replicate n 0) = 0 := by
  induction n with
  | zero => rfl
  | succ n ih => rw [List.replicate_succ', bytesToNat_append_singleton, ih]; rfl

theorem slice_natToBytes (m k x : ℕ) :
    slice (natToBytes (m + k) x) m (m + k) = natToBytes k x := by
  rw [slice, drop_natToBytes, List.take_of_length_le (by simp)]

/-! ## `encoding/binary` -/

theorem uint64_toNat_ofNat {n : ℕ} (h : n < 2 ^ 64) : (UInt64.ofNat n).toNat = n := by
  rw [UInt64.toNat_ofNat', Nat.mod_eq_of_lt h]

theorem uint64_ofNat_inj {n m : ℕ} (hn : n < 2 ^ 64) (hm : m < 2 ^ 64)
    (h : UInt64.ofNat n = UInt64.ofNat m) : n = m := by
  rw [← uint64_toNat_ofNat hn, h, uint64_toNat_ofNat hm]

/-- `binary.BigEndian.PutUint64`. -/
def uint64Bytes (x : UInt64) : List UInt8 := natToBytes 8 x.toNat

/-- `binary.BigEndian.Uint64` of eight bytes. -/
def bytesToUint64 (bs : List UInt8) : UInt64 := UInt64.ofNat (bytesToNat bs)

@[simp]
theorem uint64Bytes_length (x : UInt64) : (uint64Bytes x).length = 8 := natToBytes_length _ _

@[simp]
theorem bytesToUint64_uint64Bytes (x : UInt64) : bytesToUint64 (uint64Bytes x) = x := by
  have hlt : x.toNat < 256 ^ 8 := by
    have h := x.toNat_lt
    norm_num at h ⊢
    exact h
  rw [bytesToUint64, uint64Bytes, bytesToNat_natToBytes hlt, UInt64.ofNat_toNat]

theorem uint64Bytes_inj {x y : UInt64} (h : uint64Bytes x = uint64Bytes y) : x = y := by
  rw [← bytesToUint64_uint64Bytes x, h, bytesToUint64_uint64Bytes]

theorem uint64Bytes_bytesToUint64 {bs : List UInt8} (h : bs.length = 8) :
    uint64Bytes (bytesToUint64 bs) = bs := by
  have hlt := bytesToNat_lt bs
  rw [h] at hlt
  rw [uint64Bytes, bytesToUint64, UInt64.toNat_ofNat', Nat.mod_eq_of_lt (by simpa using hlt),
    ← h, natToBytes_bytesToNat]

/-- `binary.BigEndian.PutUint32`. -/
def uint32Bytes (x : UInt32) : List UInt8 := natToBytes 4 x.toNat

/-- `binary.BigEndian.Uint32` of four bytes. -/
def bytesToUint32 (bs : List UInt8) : UInt32 := UInt32.ofNat (bytesToNat bs)

@[simp]
theorem uint32Bytes_length (x : UInt32) : (uint32Bytes x).length = 4 := natToBytes_length _ _

@[simp]
theorem bytesToUint32_uint32Bytes (x : UInt32) : bytesToUint32 (uint32Bytes x) = x := by
  have hlt : x.toNat < 256 ^ 4 := by
    have h := x.toNat_lt
    norm_num at h ⊢
    exact h
  rw [bytesToUint32, uint32Bytes, bytesToNat_natToBytes hlt, UInt32.ofNat_toNat]

theorem uint32Bytes_bytesToUint32 {bs : List UInt8} (h : bs.length = 4) :
    uint32Bytes (bytesToUint32 bs) = bs := by
  have hlt := bytesToNat_lt bs
  rw [h] at hlt
  rw [uint32Bytes, bytesToUint32, UInt32.toNat_ofNat', Nat.mod_eq_of_lt (by simpa using hlt),
    ← h, natToBytes_bytesToNat]

/-- `Address.Bytes`. -/
def addressBytes (a : Address) : List UInt8 := natToBytes 20 a

@[simp]
theorem addressBytes_length (a : Address) : (addressBytes a).length = 20 := natToBytes_length _ _

@[simp]
theorem bytesToAddress_addressBytes (a : Address) : bytesToAddress (addressBytes a) = a := by
  have ha : (a : ℕ) < 256 ^ 20 := by
    have h := a.isLt
    norm_num at h ⊢
    exact h
  apply Fin.ext
  rw [bytesToAddress, addressBytes, bytesToNat_natToBytes ha, Fin.ofNat_eq_cast,
    Fin.val_natCast, Nat.mod_eq_of_lt a.isLt]

theorem bytesToNat_byte {x : ℕ} (h : x < 256) : bytesToNat (natToBytes 1 x) = x :=
  bytesToNat_natToBytes (by simpa using h)

/-- The ASCII codes of a text. -/
def ascii (cs : List Char) : List UInt8 := cs.map fun c => UInt8.ofNat c.toNat

/-! ## Words of a string -/

/-- The word at an offset. -/
def argWord (data : List UInt8) (i : ℕ) : Word := bytesToHash (slice data i (i + 32))

/-- The words that hold a string of a length. -/
def wordCount (length : ℕ) : ℕ := (length + 31) / 32

theorem le_wordCount (length : ℕ) : length ≤ 32 * wordCount length := by
  unfold wordCount
  omega

/-! ## Packed words -/

/-- A word from its leading bytes; the others are zero. -/
def packWord (b : List UInt8) : Word := bytesToHash (b ++ List.replicate (32 - b.length) 0)

@[simp]
theorem hashBytes_packWord {b : List UInt8} (h : b.length ≤ 32) :
    hashBytes (packWord b) = b ++ List.replicate (32 - b.length) 0 := by
  rw [packWord, hashBytes_bytesToHash]
  simp
  omega

/-- Bytes `i` to `j` of a word. -/
def wordSlice (w : Word) (i j : ℕ) : List UInt8 := slice (hashBytes w) i j

theorem wordSlice_packWord {b : List UInt8} {i j : ℕ} (hb : b.length ≤ 32)
    (hj : j ≤ b.length) : wordSlice (packWord b) i j = slice b i j := by
  rw [wordSlice, packWord, hashBytes_bytesToHash, slice_append_left hj]
  simp
  omega

/-- `common.BytesToAddress` of a word. -/
def wordAddress (w : Word) : Address := Fin.ofNat (2 ^ 160) w.toNat

theorem wordAddress_addressWord (a : Address) : wordAddress (addressWord a) = a := by
  have ha := a.isLt
  apply Fin.ext
  rw [wordAddress, addressWord, BitVec.toNat_ofNat, Fin.ofNat_eq_cast, Fin.val_natCast,
    Nat.mod_eq_of_lt (by omega : (a : ℕ) < 2 ^ 256), Nat.mod_eq_of_lt ha]

theorem wordAddress_zero : wordAddress 0 = 0 := rfl

/-! ## Fields of records -/

/-- `binary.BigEndian.PutUint16`. -/
def uint16Bytes (x : UInt16) : List UInt8 := natToBytes 2 x.toNat

/-- `binary.BigEndian.Uint16` of two bytes. -/
def bytesToUint16 (bs : List UInt8) : UInt16 := UInt16.ofNat (bytesToNat bs)

@[simp]
theorem uint16Bytes_length (x : UInt16) : (uint16Bytes x).length = 2 := natToBytes_length _ _

@[simp]
theorem bytesToUint16_uint16Bytes (x : UInt16) : bytesToUint16 (uint16Bytes x) = x := by
  have hlt : x.toNat < 256 ^ 2 := by
    have h := x.toNat_lt
    norm_num at h ⊢
    exact h
  rw [bytesToUint16, uint16Bytes, bytesToNat_natToBytes hlt, UInt16.ofNat_toNat]

theorem uint16Bytes_bytesToUint16 {bs : List UInt8} (h : bs.length = 2) :
    uint16Bytes (bytesToUint16 bs) = bs := by
  have hlt := bytesToNat_lt bs
  rw [h] at hlt
  rw [uint16Bytes, bytesToUint16, UInt16.toNat_ofNat', Nat.mod_eq_of_lt (by simpa using hlt),
    ← h, natToBytes_bytesToNat]

theorem addressBytes_bytesToAddress {bs : List UInt8} (h : bs.length = 20) :
    addressBytes (bytesToAddress bs) = bs := by
  have hlt := bytesToNat_lt bs
  rw [h] at hlt
  rw [addressBytes, bytesToAddress, Fin.ofNat_eq_cast, Fin.val_natCast,
    Nat.mod_eq_of_lt (lt_of_lt_of_eq hlt (by norm_num)), ← h, natToBytes_bytesToNat]

/-! ## Calldata and hashes -/

/-- The selector of a call. -/
def selectorOf (input : List UInt8) : ℕ := bytesToNat (slice input 0 4)

/-- The calldata of an operation: its selector and its argument words. -/
def calldata (selector : ℕ) (args : List Word) : List UInt8 :=
  natToBytes 4 selector ++ args.flatMap hashBytes

theorem selectorOf_append {selector : ℕ} (h : selector < 2 ^ 32) (args : List UInt8) :
    selectorOf (natToBytes 4 selector ++ args) = selector := by
  rw [selectorOf, slice_append_left (by simp), slice_all (by simp),
    bytesToNat_natToBytes (by simpa using h)]

/-- The two hash functions a custody precompile calls. -/
structure Hashes where
  keccak256 : List UInt8 → Word
  sha256 : List UInt8 → Word

/-- No two of the strings have one hash. -/
def NoCollisions (hash : List UInt8 → Word) (strings : List (List UInt8)) : Prop :=
  ∀ x ∈ strings, ∀ y ∈ strings, hash x = hash y → x = y

instance (hash : List UInt8 → Word) (strings : List (List UInt8)) :
    Decidable (NoCollisions hash strings) :=
  inferInstanceAs (Decidable (∀ x ∈ strings, ∀ y ∈ strings, hash x = hash y → x = y))

/-! ## Bytes without leading zeros

`big.Int.Bytes` and `common.LeftPadBytes`: the bytes of a number have the length of its
magnitude, so they fit a field of fixed width exactly when the number does. -/

/-- `big.Int.Bytes` of a magnitude. -/
def bigBytes (n : ℕ) : List UInt8 := natToBytes ((n.size + 7) / 8) n

def leftPadBytes (bs : List UInt8) (width : ℕ) : List UInt8 :=
  List.replicate (width - bs.length) 0 ++ bs

@[simp]
theorem bigBytes_length (n : ℕ) : (bigBytes n).length = (n.size + 7) / 8 :=
  natToBytes_length _ _

theorem bigBytes_length_le_iff {n k : ℕ} : (bigBytes n).length ≤ k ↔ n < 256 ^ k := by
  have hpow : (256 : ℕ) ^ k = 2 ^ (8 * k) := by
    rw [pow_mul]
    norm_num
  rw [bigBytes_length, hpow, ← Nat.size_le]
  omega

theorem lt_pow_bigBytes_length (n : ℕ) : n < 256 ^ (bigBytes n).length :=
  bigBytes_length_le_iff.mp le_rfl

@[simp]
theorem bytesToNat_bigBytes (n : ℕ) : bytesToNat (bigBytes n) = n := by
  have hlt := lt_pow_bigBytes_length n
  rw [bigBytes_length] at hlt
  exact bytesToNat_natToBytes hlt

@[simp]
theorem bytesToNat_leftPadBytes (bs : List UInt8) (width : ℕ) :
    bytesToNat (leftPadBytes bs width) = bytesToNat bs := by
  rw [leftPadBytes, bytesToNat_append, bytesToNat_replicate_zero]
  omega

theorem leftPadBytes_length {bs : List UInt8} {width : ℕ} (h : bs.length ≤ width) :
    (leftPadBytes bs width).length = width := by
  rw [leftPadBytes, List.length_append, List.length_replicate]
  omega

theorem eq_of_bytesToNat_eq {a b : List UInt8} (hlen : a.length = b.length)
    (h : bytesToNat a = bytesToNat b) : a = b := by
  rw [← natToBytes_bytesToNat a, ← natToBytes_bytesToNat b, hlen, h]

theorem leftPadBytes_bigBytes {n width : ℕ} (h : n < 256 ^ width) :
    leftPadBytes (bigBytes n) width = natToBytes width n := by
  have hlen := bigBytes_length_le_iff.mpr h
  apply eq_of_bytesToNat_eq
  · rw [leftPadBytes_length hlen, natToBytes_length]
  · rw [bytesToNat_leftPadBytes, bytesToNat_bigBytes, bytesToNat_natToBytes h]

end LuxPrecompile.Evm
