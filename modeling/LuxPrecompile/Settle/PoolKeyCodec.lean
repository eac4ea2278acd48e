import LuxPrecompile.Evm.Bytes
import LuxPrecompile.Settle.PositionManager

/-!
# The two encodings of a pool key

`EncodePoolKeyABI` and `DecodePoolKey` of `dex/module.go`, five words, and `ToBytes` and
`PoolKeyFromBytes` of `dex/types.go`, 66 bytes.  The word decoder refuses a fee or a tick
spacing that does not fit its field, but an address is the last 20 bytes of its word
whatever stands in front of it.  So an accepted block is the encoding of its key once
those bytes are cleared, and the pool id depends on the others alone.
-/

namespace LuxPrecompile.Settle

open Evm Support

/-! ## The compact form -/

def PoolKey.toBytes (key : PoolKey) : List UInt8 :=
  addressBytes key.currency0 ++ (addressBytes key.currency1 ++ (natToBytes 3 key.fee ++
    (putInt24 key.tickSpacing ++ addressBytes key.hooks)))

/-- The refusal of `PoolKeyFromBytes`. -/
inductive PoolKeyBytesError
  | invalidLength
deriving DecidableEq, Repr

/-- `PoolKeyFromBytes`: both three-byte fields are read as unsigned numbers. -/
def poolKeyFromBytes (data : List UInt8) : Except PoolKeyBytesError PoolKey :=
  if data.length < 66 then .error .invalidLength
  else
    .ok { currency0 := bytesToAddress (slice data 0 20)
          currency1 := bytesToAddress (slice data 20 40)
          fee := bytesToNat (slice data 40 43)
          tickSpacing := bytesToNat (slice data 43 46)
          hooks := bytesToAddress (slice data 46 66) }

theorem PoolKey.toBytes_length (key : PoolKey) : key.toBytes.length = 66 := by
  simp [PoolKey.toBytes]

/-- Everything is read back but the sign of the tick spacing. -/
theorem poolKeyFromBytes_toBytes {key : PoolKey} (h : key.Fits) :
    poolKeyFromBytes key.toBytes = .ok { key with tickSpacing := key.tickSpacing % 2 ^ 24 } := by
  have hfee : key.fee < 256 ^ 3 := lt_of_lt_of_eq h.fee (by norm_num)
  have hspacing : (key.tickSpacing % 2 ^ 24).toNat < 256 ^ 3 := by omega
  have hc0 : slice key.toBytes 0 20 = addressBytes key.currency0 := by
    rw [PoolKey.toBytes, slice_append_left (by simp), slice_all (by simp)]
  have hc1 : slice key.toBytes 20 40 = addressBytes key.currency1 := by
    rw [PoolKey.toBytes, slice_append_right (by simp), addressBytes_length,
      slice_append_left (by simp), slice_all (by simp)]
  have hfeeBytes : slice key.toBytes 40 43 = natToBytes 3 key.fee := by
    rw [PoolKey.toBytes, slice_append_right (by simp), addressBytes_length,
      slice_append_right (by simp), addressBytes_length, slice_append_left (by simp),
      slice_all (by simp)]
  have hspacingBytes : slice key.toBytes 43 46 = putInt24 key.tickSpacing := by
    rw [PoolKey.toBytes, slice_append_right (by simp), addressBytes_length,
      slice_append_right (by simp), addressBytes_length, slice_append_right (by simp),
      natToBytes_length, slice_append_left (by simp), slice_all (by simp)]
  have hhooks : slice key.toBytes 46 66 = addressBytes key.hooks := by
    rw [PoolKey.toBytes, slice_append_right (by simp), addressBytes_length,
      slice_append_right (by simp), addressBytes_length, slice_append_right (by simp),
      natToBytes_length, slice_append_right (by simp), putInt24_length, slice_all (by simp)]
  rw [poolKeyFromBytes, if_neg (by rw [PoolKey.toBytes_length]; omega), hc0, hc1, hfeeBytes,
    hspacingBytes, hhooks, putInt24, bytesToNat_natToBytes hfee, bytesToNat_natToBytes hspacing,
    bytesToAddress_addressBytes, bytesToAddress_addressBytes, bytesToAddress_addressBytes,
    Int.toNat_of_nonneg (by omega)]

/-! ## Accepted blocks -/

/-- The bytes of a block that `DecodePoolKey` looks at, field by field. -/
def poolKeyBytes (data : List UInt8) : List (List UInt8) :=
  [slice data 12 32, slice data 44 64, slice data 64 96, slice data 96 128, slice data 140 160]

/-- A block with the bytes in front of its three addresses cleared. -/
def clearPadding (data : List UInt8) : List UInt8 :=
  (List.replicate 12 0 ++ slice data 12 32) ++ (List.replicate 12 0 ++ slice data 44 64) ++
    slice data 64 96 ++ slice data 96 128 ++ (List.replicate 12 0 ++ slice data 140 160)

section Slots

variable {bs : List UInt8}

theorem slice_length {data : List UInt8} {i j : ℕ} (hij : i ≤ j) (h : j ≤ data.length) :
    (slice data i j).length = j - i := by
  rw [slice, List.length_take, List.length_drop]
  omega

theorem bytesToNat_lt_word (hlen : bs.length = 32) : bytesToNat bs < 2 ^ 256 := by
  have hlt := bytesToNat_lt bs
  rw [hlen] at hlt
  exact lt_of_lt_of_eq hlt (by norm_num)

theorem bytesToHash_toNat (hlen : bs.length = 32) : (bytesToHash bs).toNat = bytesToNat bs := by
  rw [bytesToHash, BitVec.toNat_ofNat, Nat.mod_eq_of_lt (bytesToNat_lt_word hlen)]

/-- The address of a word, written as a word again, has the word's last 20 bytes. -/
theorem addressSlot_clear (hlen : bs.length = 32) :
    hashBytes (addressWord (wordAddress (bytesToHash bs))) =
      List.replicate 12 0 ++ bs.drop 12 := by
  have hdrop : (bs.drop 12).length = 20 := by
    rw [List.length_drop]
    omega
  have hlow := bytesToNat_lt (bs.drop 12)
  rw [hdrop] at hlow
  have hsplit : bytesToNat bs = bytesToNat (bs.take 12) * 256 ^ 20 + bytesToNat (bs.drop 12) := by
    rw [← hdrop, ← bytesToNat_append, List.take_append_drop]
  have haddress : ((wordAddress (bytesToHash bs) : Address) : ℕ) = bytesToNat (bs.drop 12) := by
    rw [wordAddress, bytesToHash_toNat hlen, Fin.ofNat_eq_cast, Fin.val_natCast, hsplit]
    norm_num at hlow ⊢
    omega
  apply eq_of_bytesToNat_eq
  · rw [hashBytes_length, List.length_append, List.length_replicate, hdrop]
  · have hlt : bytesToNat (bs.drop 12) < 2 ^ 256 := hlow.trans (by norm_num)
    rw [hashBytes, addressWord, haddress, BitVec.toNat_ofNat, Nat.mod_eq_of_lt hlt,
      bytesToNat_append, bytesToNat_replicate_zero, Nat.zero_mul, Nat.zero_add,
      bytesToNat_natToBytes (hlt.trans_eq (by norm_num))]

theorem feeSlot_clear (hlen : bs.length = 32) (hfits : bytesToNat bs < 2 ^ 24) :
    List.replicate 29 0 ++ natToBytes 3 (bytesToNat bs) = bs := by
  have hlt : bytesToNat bs < 256 ^ 3 := lt_of_lt_of_eq hfits (by norm_num)
  apply eq_of_bytesToNat_eq
  · rw [List.length_append, List.length_replicate, natToBytes_length, hlen]
  · rw [bytesToNat_append, bytesToNat_replicate_zero, bytesToNat_natToBytes hlt, Nat.zero_mul,
      Nat.zero_add]

/-- A word that fits the tick spacing is the sign-extended slot of that spacing. -/
theorem spacingSlot_clear (hlen : bs.length = 32)
    (hlo : -2 ^ 23 ≤ wordToInt (bytesToHash bs)) (hhi : wordToInt (bytesToHash bs) < 2 ^ 23) :
    List.replicate 29 (if wordToInt (bytesToHash bs) < 0 then 0xff else 0) ++
      putInt24 (wordToInt (bytesToHash bs)) = bs := by
  have hread := spacingSlot_read hlo hhi
  have hinj : ∀ {x y : List UInt8}, x.length = 32 → y.length = 32 →
      wordToInt (bytesToHash x) = wordToInt (bytesToHash y) → x = y := by
    intro x y hx hy hxy
    have hxlt := bytesToNat_lt_word hx
    have hylt := bytesToNat_lt_word hy
    rw [wordToInt_eq, wordToInt_eq, bytesToHash_toNat hx, bytesToHash_toNat hy] at hxy
    apply eq_of_bytesToNat_eq (hx.trans hy.symm)
    split_ifs at hxy
    · omega
    · omega
    · omega
    · omega
  exact hinj (by simp) hlen hread

end Slots

/-- An accepted block is the encoding of its key, with the padding cleared. -/
theorem encodePoolKeyABI_decodePoolKey {data : List UInt8} {key : PoolKey}
    (h : decodePoolKey data = .ok key) : encodePoolKeyABI key = clearPadding data := by
  simp only [decodePoolKey, refuse_eq_ok, Except.ok.injEq] at h
  obtain ⟨hlen, hfee, hspacing, rfl⟩ := h
  have hslot : ∀ i, i + 32 ≤ 160 → (slice data i (i + 32)).length = 32 := by
    intro i hi
    rw [slice_length (by omega) (by omega)]
    omega
  have haddress : ∀ i, i + 32 ≤ 160 → hashBytes (addressWord (argAddress data i)) =
      List.replicate 12 0 ++ slice data (i + 12) (i + 32) := by
    intro i hi
    have hdrop : (slice data i (i + 32)).drop 12 = slice data (i + 12) (i + 32) := by
      rw [slice, slice, List.drop_take, List.drop_drop]
      congr 1
    rw [argAddress, argWord, addressSlot_clear (hslot i hi), hdrop]
  have hfeeSlot : List.replicate 29 0 ++ natToBytes 3 (argWord data 64).toNat =
      slice data 64 96 := by
    rw [argWord, bytesToHash_toNat (hslot 64 (by norm_num))] at hfee ⊢
    exact feeSlot_clear (hslot 64 (by norm_num)) (not_le.mp hfee)
  have hfits : -2 ^ 23 ≤ argSigned data 96 ∧ argSigned data 96 < 2 ^ 23 := by
    simpa [fitsInt24] using hspacing
  have hspacingSlot : List.replicate 29 (if argSigned data 96 < 0 then 0xff else 0) ++
      putInt24 (argSigned data 96) = slice data 96 128 :=
    spacingSlot_clear (hslot 96 (by norm_num)) hfits.1 hfits.2
  simp only [encodePoolKeyABI, haddress 0 (by norm_num), haddress 32 (by norm_num),
    haddress 128 (by norm_num), hfeeSlot, hspacingSlot, clearPadding]

/-- Clearing the padding keeps the other bytes and nothing else. -/
theorem clearPadding_eq_iff {a b : List UInt8} (ha : 160 ≤ a.length) (hb : 160 ≤ b.length) :
    clearPadding a = clearPadding b ↔ poolKeyBytes a = poolKeyBytes b := by
  have hlen : ∀ i j, i ≤ j → j ≤ 160 → (slice a i j).length = (slice b i j).length := by
    intro i j hij hj
    rw [slice_length hij (by omega), slice_length hij (by omega)]
  constructor
  · intro h
    simp only [clearPadding, List.append_assoc] at h
    obtain ⟨-, h⟩ := List.append_inj h rfl
    obtain ⟨h0, h⟩ := List.append_inj h (hlen 12 32 (by norm_num) (by norm_num))
    obtain ⟨-, h⟩ := List.append_inj h rfl
    obtain ⟨h1, h⟩ := List.append_inj h (hlen 44 64 (by norm_num) (by norm_num))
    obtain ⟨h2, h⟩ := List.append_inj h (hlen 64 96 (by norm_num) (by norm_num))
    obtain ⟨h3, h⟩ := List.append_inj h (hlen 96 128 (by norm_num) (by norm_num))
    obtain ⟨-, h4⟩ := List.append_inj h rfl
    rw [poolKeyBytes, poolKeyBytes, h0, h1, h2, h3, h4]
  · intro h
    simp only [poolKeyBytes, List.cons.injEq, and_true] at h
    obtain ⟨h0, h1, h2, h3, h4⟩ := h
    rw [clearPadding, clearPadding, h0, h1, h2, h3, h4]

theorem decodePoolKey_length {data : List UInt8} {key : PoolKey}
    (h : decodePoolKey data = .ok key) : 160 ≤ data.length := by
  simp only [decodePoolKey, refuse_eq_ok] at h
  exact not_lt.mp h.1

/-! ## Identity -/

/-- A key that fits the wire comes back from its five words, and from its compact form when
its tick spacing is not negative; an accepted block is the encoding of its key up to the
bytes in front of its addresses; and where the hash separates the cleared blocks, two
accepted blocks name one pool exactly when they agree on every other byte. -/
theorem poolKey_codecs (hashes : Hashes) :
    (∀ key : PoolKey, key.Fits → decodePoolKey (encodePoolKeyABI key) = .ok key ∧
      (0 ≤ key.tickSpacing → poolKeyFromBytes key.toBytes = .ok key)) ∧
    (∀ data key, decodePoolKey data = .ok key → encodePoolKeyABI key = clearPadding data) ∧
    (∀ a b keyA keyB, decodePoolKey a = .ok keyA → decodePoolKey b = .ok keyB →
      (hashes.keccak256 (clearPadding a) = hashes.keccak256 (clearPadding b) →
        clearPadding a = clearPadding b) →
      (keyA.id hashes = keyB.id hashes ↔ poolKeyBytes a = poolKeyBytes b)) := by
  refine ⟨fun key hfits => ⟨decodePoolKey_encodePoolKeyABI hfits, fun hspacing => ?_⟩,
    fun data key => encodePoolKeyABI_decodePoolKey, fun a b keyA keyB ha hb hcollision => ?_⟩
  · have hmod : key.tickSpacing % 2 ^ 24 = key.tickSpacing := by
      have hlt := hfits.spacing.2
      omega
    rw [poolKeyFromBytes_toBytes hfits, hmod]
  · rw [PoolKey.id, PoolKey.id, encodePoolKeyABI_decodePoolKey ha,
      encodePoolKeyABI_decodePoolKey hb,
      ← clearPadding_eq_iff (decodePoolKey_length ha) (decodePoolKey_length hb)]
    exact ⟨hcollision, fun h => by rw [h]⟩

/-- The sample key with a byte set in front of its first currency. -/
def dirtyPoolKey : List UInt8 := 0xff :: (encodePoolKeyABI sampleKey).drop 1

theorem poolKey_codecs_sample :
    sampleKey.id sampleHashes = sampleKey.id sampleHashes ↔
      poolKeyBytes dirtyPoolKey = poolKeyBytes (encodePoolKeyABI sampleKey) :=
  (poolKey_codecs sampleHashes).2.2 dirtyPoolKey (encodePoolKeyABI sampleKey) sampleKey sampleKey
    (by decide +kernel) (by decide +kernel) (fun _ => by decide +kernel)

/-- A block that is accepted, is not the encoding of its key, and names the same pool. -/
theorem dirtyPoolKey_accepted :
    decodePoolKey dirtyPoolKey = .ok sampleKey ∧ dirtyPoolKey.length = 160 ∧
      encodePoolKeyABI sampleKey ≠ dirtyPoolKey ∧
      decodePoolKey (encodePoolKeyABI sampleKey) = .ok sampleKey := by
  decide +kernel

end LuxPrecompile.Settle
