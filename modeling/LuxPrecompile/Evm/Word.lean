import Mathlib.Data.BitVec
import Mathlib.Data.ZMod.Basic
import Mathlib.Tactic

/-!
# Addresses, storage words and call data

The host types every precompile of the repository works with: 20-byte
addresses, 32-byte storage words and big-endian byte strings.  A word read as a
number is either unsigned or two's complement; writing a number keeps its low
256 bits.
-/

namespace LuxPrecompile.Evm

/-- A 20-byte account address, ordered as its big-endian value. -/
abbrev Address := Fin (2 ^ 160)

/-- There are addresses, so a number in the code denotes one. -/
instance neZero_addresses : NeZero (2 ^ 160 : ℕ) := ⟨by norm_num⟩

/-- A 32-byte storage word, `common.Hash`. -/
abbrev Word := BitVec 256

/-- Words are compared by their bits. -/
instance lawfulBEq_word : LawfulBEq Word := inferInstance

/-- There are finitely many words, so sums over all of them make sense. -/
noncomputable instance : Fintype Word := Fintype.ofEquiv _ BitVec.equivFin.symm.toEquiv

/-- `common.BigToHash`: the magnitude's low 32 bytes. -/
def bigToHash (v : ℤ) : Word := BitVec.ofNat 256 v.natAbs

def uintWord (v : ℤ) : Word := bigToHash v

/-- `intWord`: two's complement. -/
def intWord (v : ℤ) : Word :=
  if v < 0 then bigToHash (v + 2 ^ 256) else bigToHash v

def wordToUint (h : Word) : ℕ := h.toNat

/-- `wordToInt`: the word read as two's complement. -/
def wordToInt (h : Word) : ℤ :=
  if h.toNat.testBit 255 then (h.toNat : ℤ) - 2 ^ 256 else h.toNat

/-- `mod256`, Euclidean as `big.Int.Mod`. -/
def mod256 (x : ℤ) : ℕ := (x % 2 ^ 256).toNat

def add256 (a b : ℕ) : ℕ := mod256 (a + b)
def sub256 (a b : ℕ) : ℕ := mod256 (a - b)

/-- Go's conversion of a `big.Int` to `int32` through `Int64`. -/
def int32 (x : ℤ) : ℤ := x.bmod (2 ^ 32)

/-- The value of a big-endian byte string. -/
def bytesToNat (bs : List UInt8) : ℕ :=
  bs.foldl (fun acc b => acc * 256 + b.toNat) 0

/-- `data[i:j]`. -/
def slice (data : List UInt8) (i j : ℕ) : List UInt8 := (data.drop i).take (j - i)

def bytesToHash (bs : List UInt8) : Word := BitVec.ofNat 256 (bytesToNat bs)

def bytesToAddress (bs : List UInt8) : Address := Fin.ofNat (2 ^ 160) (bytesToNat bs)

/-- The `n` low bytes of a number, big-endian. -/
def natToBytes : ℕ → ℕ → List UInt8
  | 0, _ => []
  | n + 1, x => natToBytes n (x / 256) ++ [UInt8.ofNat x]

/-- `Hash.Bytes`: the 32 bytes of a word. -/
def hashBytes (h : Word) : List UInt8 := natToBytes 32 h.toNat

/-- `addressWord`: the address left-padded to a word. -/
def addressWord (a : Address) : Word := BitVec.ofNat 256 a

/-! ## Reading back a written word -/

@[simp]
theorem wordToUint_zero : wordToUint 0 = 0 := rfl

@[simp]
theorem wordToInt_zero : wordToInt 0 = 0 := by
  decide

theorem wordToUint_lt (h : Word) : wordToUint h < 2 ^ 256 := h.isLt

theorem wordToUint_uintWord (n : ℕ) : wordToUint (uintWord n) = n % 2 ^ 256 := by
  simp [wordToUint, uintWord, bigToHash]

theorem wordToUint_uintWord_of_lt {n : ℕ} (h : n < 2 ^ 256) :
    wordToUint (uintWord n) = n := by
  rw [wordToUint_uintWord, Nat.mod_eq_of_lt h]

theorem wordToUint_uintWord_int {v : ℤ} (h0 : 0 ≤ v) (h : v < 2 ^ 256) :
    (wordToUint (uintWord v) : ℤ) = v := by
  lift v to ℕ using h0
  rw [wordToUint_uintWord_of_lt (by exact_mod_cast h)]

theorem wordToInt_eq (h : Word) :
    wordToInt h =
      if 2 ^ 255 ≤ h.toNat then (h.toNat : ℤ) - 2 ^ 256 else (h.toNat : ℤ) := by
  have hlt : h.toNat < 2 ^ 256 := h.isLt
  have hbit : h.toNat.testBit 255 = decide (2 ^ 255 ≤ h.toNat) := by
    rw [Nat.testBit_eq_decide_div_mod_eq]
    congr 1
    apply propext
    omega
  unfold wordToInt
  rw [hbit]
  simp only [decide_eq_true_eq]

theorem wordToInt_range (h : Word) : -2 ^ 255 ≤ wordToInt h ∧ wordToInt h < 2 ^ 255 := by
  have hlt : h.toNat < 2 ^ 256 := h.isLt
  rw [wordToInt_eq]
  split_ifs
  · omega
  · omega

/-- A signed number that fits is read back unchanged. -/
theorem wordToInt_intWord {v : ℤ} (hlo : -2 ^ 255 ≤ v) (hhi : v < 2 ^ 255) :
    wordToInt (intWord v) = v := by
  rw [wordToInt_eq]
  unfold intWord bigToHash
  by_cases hneg : v < 0
  · have hnat : (BitVec.ofNat 256 (v + 2 ^ 256).natAbs).toNat =
        (v + 2 ^ 256).natAbs := by
      rw [BitVec.toNat_ofNat, Nat.mod_eq_of_lt (by omega)]
    rw [if_pos hneg, hnat, if_pos (by omega)]
    omega
  · have hnat : (BitVec.ofNat 256 v.natAbs).toNat = v.natAbs := by
      rw [BitVec.toNat_ofNat, Nat.mod_eq_of_lt (by omega)]
    rw [if_neg hneg, hnat, if_neg (by omega)]
    omega

theorem int32_eq {x : ℤ} (hlo : -2 ^ 31 ≤ x) (hhi : x < 2 ^ 31) : int32 x = x := by
  unfold int32
  apply Int.bmod_eq_of_le <;> norm_num <;> omega

/-! ## Fixed-width encodings -/

@[simp]
theorem natToBytes_length (n x : ℕ) : (natToBytes n x).length = n := by
  induction n generalizing x with
  | zero => rfl
  | succ n ih => simp [natToBytes, ih]

theorem bytesToNat_append_singleton (bs : List UInt8) (b : UInt8) :
    bytesToNat (bs ++ [b]) = bytesToNat bs * 256 + b.toNat := by
  simp [bytesToNat]

/-- A number that fits is read back from its bytes. -/
theorem bytesToNat_natToBytes {n x : ℕ} (h : x < 256 ^ n) :
    bytesToNat (natToBytes n x) = x := by
  induction n generalizing x with
  | zero =>
      have hx : x = 0 := by simpa using h
      rw [hx]
      rfl
  | succ n ih =>
      have hdiv : x / 256 < 256 ^ n := by
        rw [Nat.div_lt_iff_lt_mul (by norm_num)]
        rwa [pow_succ] at h
      rw [natToBytes, bytesToNat_append_singleton, ih hdiv, UInt8.toNat_ofNat']
      omega

theorem natToBytes_inj {n x y : ℕ} (hx : x < 256 ^ n) (hy : y < 256 ^ n)
    (h : natToBytes n x = natToBytes n y) : x = y := by
  rw [← bytesToNat_natToBytes hx, h, bytesToNat_natToBytes hy]

/-- The bytes of the value of a byte string are the string. -/
theorem natToBytes_bytesToNat (bs : List UInt8) : natToBytes bs.length (bytesToNat bs) = bs := by
  induction bs using List.reverseRecOn with
  | nil => rfl
  | append_singleton bs b ih =>
      have hb : b.toNat < 256 := b.toNat_lt
      rw [List.length_append, List.length_singleton, natToBytes,
        bytesToNat_append_singleton]
      have hdiv : (bytesToNat bs * 256 + b.toNat) / 256 = bytesToNat bs := by omega
      have hlow : UInt8.ofNat (bytesToNat bs * 256 + b.toNat) = b := by
        apply UInt8.toNat_inj.mp
        rw [UInt8.toNat_ofNat']
        omega
      rw [hdiv, hlow, ih]

theorem bytesToNat_lt (bs : List UInt8) : bytesToNat bs < 256 ^ bs.length := by
  induction bs using List.reverseRecOn with
  | nil => simp [bytesToNat]
  | append_singleton bs b ih =>
      have hb : b.toNat < 256 := b.toNat_lt
      rw [List.length_append, List.length_singleton, pow_succ, bytesToNat_append_singleton]
      omega

theorem hashBytes_bytesToHash {bs : List UInt8} (h : bs.length = 32) :
    hashBytes (bytesToHash bs) = bs := by
  have hlt : bytesToNat bs < 2 ^ 256 := by
    have hpow := bytesToNat_lt bs
    rw [h] at hpow
    norm_num at hpow ⊢
    exact hpow
  rw [hashBytes, bytesToHash, BitVec.toNat_ofNat, Nat.mod_eq_of_lt hlt, ← h,
    natToBytes_bytesToNat]

theorem bytesToHash_hashBytes (h : Word) : bytesToHash (hashBytes h) = h := by
  have hlt : h.toNat < 256 ^ 32 := by
    have hword := h.isLt
    norm_num at hword ⊢
    exact hword
  rw [bytesToHash, hashBytes, bytesToNat_natToBytes hlt, BitVec.ofNat_toNat, BitVec.setWidth_eq]

theorem hashBytes_inj {a b : Word} (h : hashBytes a = hashBytes b) : a = b := by
  rw [← bytesToHash_hashBytes a, h, bytesToHash_hashBytes]

@[simp]
theorem hashBytes_length (h : Word) : (hashBytes h).length = 32 :=
  natToBytes_length _ _

/-! ## Byte ranges -/

theorem slice_append_left {a b : List UInt8} {i j : ℕ} (h : j ≤ a.length) :
    slice (a ++ b) i j = slice a i j := by
  unfold slice
  by_cases hij : i ≤ j
  · rw [List.drop_append_of_le_length (hij.trans h), List.take_append_of_le_length]
    rw [List.length_drop]
    omega
  · rw [Nat.sub_eq_zero_of_le (by omega), List.take_zero, List.take_zero]

theorem slice_append_right {a b : List UInt8} {i j : ℕ} (h : a.length ≤ i) :
    slice (a ++ b) i j = slice b (i - a.length) (j - a.length) := by
  unfold slice
  rw [List.drop_append, List.drop_eq_nil_of_le h, List.nil_append]
  congr 1
  omega

theorem slice_all {a : List UInt8} {j : ℕ} (h : a.length ≤ j) : slice a 0 j = a := by
  simp [slice, List.take_of_length_le h]

/-! ## Modular counters

The fee-growth counters wrap, so differences and sums of them are compared in
`ZMod (2 ^ 256)`. -/

theorem mod256_lt (x : ℤ) : mod256 x < 2 ^ 256 := by
  unfold mod256
  omega

theorem mod256_cast (x : ℤ) : ((mod256 x : ℕ) : ZMod (2 ^ 256)) = (x : ZMod (2 ^ 256)) := by
  have hnonneg : 0 ≤ x % 2 ^ 256 := Int.emod_nonneg x (by norm_num)
  have hcast : ((mod256 x : ℕ) : ℤ) = x % 2 ^ 256 := Int.toNat_of_nonneg hnonneg
  have hint : (((mod256 x : ℕ) : ℤ) : ZMod (2 ^ 256)) = (x : ZMod (2 ^ 256)) := by
    rw [hcast, ZMod.intCast_eq_intCast_iff_dvd_sub]
    have := Int.emod_add_mul_ediv x (2 ^ 256)
    exact ⟨x / 2 ^ 256, by push_cast; omega⟩
  simpa using hint

@[simp]
theorem add256_cast (a b : ℕ) :
    ((add256 a b : ℕ) : ZMod (2 ^ 256)) = (a : ZMod (2 ^ 256)) + b := by
  rw [add256, mod256_cast]
  push_cast
  ring

@[simp]
theorem sub256_cast (a b : ℕ) :
    ((sub256 a b : ℕ) : ZMod (2 ^ 256)) = (a : ZMod (2 ^ 256)) - b := by
  rw [sub256, mod256_cast]
  push_cast
  ring

theorem eq_of_cast_eq {a b : ℕ} (ha : a < 2 ^ 256) (hb : b < 2 ^ 256)
    (h : (a : ZMod (2 ^ 256)) = b) : a = b := by
  rw [ZMod.natCast_eq_natCast_iff] at h
  exact Nat.ModEq.eq_of_lt_of_lt h ha hb

end LuxPrecompile.Evm
