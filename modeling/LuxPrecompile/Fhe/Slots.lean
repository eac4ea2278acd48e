import LuxPrecompile.Fhe.Contract
import LuxPrecompile.Support.Chunks
import LuxPrecompile.Support.Runs

/-!
# The slots of a ciphertext

Which strings are hashed for the slots of a ciphertext, what a store writes to them
and what is read back.  Hashing is assumed free of collisions among the strings that
are hashed, never among all strings.
-/

namespace LuxPrecompile.Fhe

open Evm Support

/-! ## Keys -/

@[simp]
theorem chunkKey_length (handle : Word) (i : ℕ) : (chunkKey handle i).length = 64 := by
  simp [chunkKey]

@[simp]
theorem ownerKey_length (handle : Word) : (ownerKey handle).length = 48 := by
  simp [ownerKey, aclOwnerPrefix, ascii]

theorem chunkKey_ne_ownerKey (h g : Word) (i : ℕ) : chunkKey h i ≠ ownerKey g := fun hc => by
  have hlength := congrArg List.length hc
  rw [chunkKey_length, ownerKey_length] at hlength
  omega

theorem chunkKey_inj {h g : Word} {i j : ℕ} (hi : i < 2 ^ 256) (hj : j < 2 ^ 256)
    (heq : chunkKey h i = chunkKey g j) : h = g ∧ i = j := by
  obtain ⟨hhandle, hindex⟩ := List.append_inj heq (by simp)
  refine ⟨hashBytes_inj hhandle, ?_⟩
  have hword := congrArg BitVec.toNat (hashBytes_inj hindex)
  rwa [BitVec.toNat_ofNat, BitVec.toNat_ofNat, Nat.mod_eq_of_lt hi, Nat.mod_eq_of_lt hj]
    at hword

theorem ownerKey_inj {h g : Word} (heq : ownerKey h = ownerKey g) : h = g :=
  hashBytes_inj (List.append_cancel_left heq)

/-- A string that reads as the key of a chunk: a handle and an index. -/
def isChunkKey (data : List UInt8) : Bool :=
  data.length = 64 && bytesToNat (data.drop 32) < 2 ^ 27

theorem isChunkKey_chunkKey (handle : Word) {i : ℕ} (hi : i < 2 ^ 27) :
    isChunkKey (chunkKey handle i) = true := by
  have hi' : i < 2 ^ 256 := hi.trans (by norm_num)
  have hdrop : (chunkKey handle i).drop 32 = hashBytes (BitVec.ofNat 256 i) :=
    List.drop_left' (hashBytes_length handle)
  have hvalue : bytesToNat (hashBytes (BitVec.ofNat 256 i)) = i := by
    rw [hashBytes, BitVec.toNat_ofNat, Nat.mod_eq_of_lt hi']
    exact bytesToNat_natToBytes (hi'.trans_eq (by norm_num))
  rw [isChunkKey, chunkKey_length, hdrop, hvalue, Bool.and_eq_true]
  exact ⟨rfl, decide_eq_true hi⟩

theorem isChunkKey_of_length {data : List UInt8} (h : data.length ≠ 64) :
    isChunkKey data = false := by
  rw [isChunkKey, decide_eq_false h, Bool.false_and]

theorem declaredBits_ownerKey (handle : Word) : 256 < declaredBits (ownerKey handle) := by
  have hslice : slice (ownerKey handle) 0 4 = ascii ['f', 'h', 'e', '/'] := by
    rw [ownerKey, slice_append_left (by decide)]
    rfl
  rw [declaredBits, hslice]
  decide

theorem wordCount_le {n : ℕ} (hn : n < 2 ^ 32) : wordCount n ≤ 2 ^ 27 := by
  unfold wordCount
  omega

/-! ## Metadata -/

theorem hashBytes_metaWord (ct : List UInt8) (ctType : UInt8) :
    hashBytes (metaWord ct ctType) =
      (ctType :: natToBytes 4 ct.length) ++ List.replicate 27 0 := by
  rw [metaWord, hashBytes_packWord (by simp), List.length_cons, natToBytes_length]

@[simp]
theorem metaType_metaWord (ct : List UInt8) (ctType : UInt8) :
    metaType (metaWord ct ctType) = ctType := by
  rw [metaType, hashBytes_metaWord]
  rfl

theorem metaLength_metaWord {ct : List UInt8} (ctType : UInt8) (hct : ct.length < 2 ^ 32) :
    metaLength (metaWord ct ctType) = ct.length := by
  rw [metaLength, metaWord, wordSlice_packWord (by simp) (by simp)]
  have hslice : slice (ctType :: natToBytes 4 ct.length) 1 5 = natToBytes 4 ct.length := by
    rw [slice, List.drop_succ_cons, List.drop_zero, List.take_of_length_le (by simp)]
  rw [hslice]
  exact bytesToNat_natToBytes (hct.trans_eq (by norm_num))

theorem metaLength_zero : metaLength 0 = 0 := by
  decide

theorem metaLength_addressWord (a : Address) : metaLength (addressWord a) = 0 := by
  have ha : (a : ℕ) < 2 ^ 256 := lt_trans a.isLt (by norm_num)
  have hlow : (addressWord a).toNat = a := by
    rw [addressWord, BitVec.toNat_ofNat, Nat.mod_eq_of_lt ha]
  have hzero : (a : ℕ) / 256 ^ 20 = 0 := Nat.div_eq_of_lt (by
    have h := a.isLt
    norm_num at h ⊢
    exact h)
  rw [metaLength, wordSlice, hashBytes, hlow, natToBytes_add 12 20, hzero,
    slice_append_left (by simp)]
  decide

/-! ## What a store writes -/

section Writes

variable {keccak256 : List UInt8 → Word}

/-- The slots of an encoding hold its metadata and its chunks. -/
structure Holds (keccak256 : List UInt8 → Word) (st : Storage) (ct : List UInt8)
    (ctType : UInt8) : Prop where
  metadata : st (keccak256 ct) = metaWord ct ctType
  data : ∀ i < wordCount ct.length, st (chunkSlot keccak256 (keccak256 ct) i) = chunkWord ct i

theorem take_chunkWord (ct : List UInt8) (i : ℕ) :
    (hashBytes (chunkWord ct i)).take (ct.length - 32 * i) = (ct.drop (32 * i)).take 32 := by
  have hslice : slice ct (32 * i) (32 * i + 32) = (ct.drop (32 * i)).take 32 := by
    rw [slice, Nat.add_sub_cancel_left]
  have hlength : (slice ct (32 * i) (32 * i + 32)).length = min 32 (ct.length - 32 * i) := by
    rw [hslice, List.length_take, List.length_drop]
  rw [chunkWord, hashBytes_packWord (by omega), List.take_append, hlength, hslice,
    List.take_take, List.take_replicate]
  have hpad : min (ct.length - 32 * i - min 32 (ct.length - 32 * i))
      (32 - min 32 (ct.length - 32 * i)) = 0 := by omega
  rw [hpad, List.replicate_zero, List.append_nil]
  by_cases hlast : 32 ≤ ct.length - 32 * i
  · rw [min_eq_right hlast]
  · rw [min_eq_left (by omega), List.take_of_length_le (by simp),
      List.take_of_length_le (by rw [List.length_drop]; omega)]

/-- An encoding is read back with the type it was stored under. -/
theorem Holds.get {st : Storage} {ct : List UInt8} {ctType : UInt8}
    (h : Holds keccak256 st ct ctType) (hpos : 0 < ct.length) (hct : ct.length < 2 ^ 32) :
    getCiphertext keccak256 st (keccak256 ct) = some (ct, ctType) := by
  have hlength := metaLength_metaWord ctType hct
  have hne : metaWord ct ctType ≠ 0 := fun hc => by
    rw [hc, metaLength_zero] at hlength
    omega
  have hread : readChunks keccak256 st (keccak256 ct) ct.length = ct := by
    have hchunks : readChunks keccak256 st (keccak256 ct) ct.length =
        (List.range (wordCount ct.length)).flatMap fun i => (ct.drop (32 * i)).take 32 := by
      apply List.flatMap_congr
      intro i hi
      rw [h.data i (List.mem_range.mp hi), take_chunkWord]
    rw [hchunks, flatMap_range_chunk, List.take_of_length_le (le_wordCount ct.length)]
  rw [getCiphertext, h.metadata]
  simp only [hne, if_false, hlength, hread, metaType_metaWord]
  rw [if_neg (by omega)]

theorem getCiphertext_eq_some {st : Storage} {handle : Word} {ct : List UInt8} {ctType : UInt8}
    (h : getCiphertext keccak256 st handle = some (ct, ctType)) :
    st handle ≠ 0 ∧ metaLength (st handle) ≠ 0 := by
  simp only [getCiphertext] at h
  split_ifs at h with hzero hlength
  exact ⟨hzero, hlength⟩

variable {ct : List UInt8} (st : Storage) (ctType : UInt8) (owner : Address)

theorem storeCiphertext_of_ne {slot : Word} (hhandle : slot ≠ keccak256 ct)
    (hchunk : ∀ i < wordCount ct.length, slot ≠ chunkSlot keccak256 (keccak256 ct) i) :
    (storeCiphertext keccak256 st ct ctType).2 slot = st slot := by
  exact (Store.foldl_set_of_ne _ _ _ _ hchunk).trans (Store.set_of_ne _ _ hhandle)

theorem storeCiphertext_holds
    (hhandle : ∀ i < wordCount ct.length, keccak256 ct ≠ chunkSlot keccak256 (keccak256 ct) i)
    (hchunk : ∀ i < wordCount ct.length, ∀ j < wordCount ct.length,
      chunkSlot keccak256 (keccak256 ct) i = chunkSlot keccak256 (keccak256 ct) j → i = j) :
    Holds keccak256 (storeCiphertext keccak256 st ct ctType).2 ct ctType := by
  constructor
  · exact (Store.foldl_set_of_ne _ _ _ _ hhandle).trans (Store.set_self _ _ _)
  · intro i hi
    exact Store.foldl_set_self _ _ _ hchunk hi

theorem storeCiphertextOwned_fst :
    (storeCiphertextOwned keccak256 st ct ctType owner).1 = keccak256 ct := rfl

theorem setOwner_of_ne {handle slot : Word} (h : slot ≠ ownerSlot keccak256 handle) :
    setOwner keccak256 st handle owner slot = st slot := by
  unfold setOwner
  split_ifs
  · rfl
  · exact Store.set_of_ne _ _ h

theorem setOwner_of_owned {handle : Word} (h : st (ownerSlot keccak256 handle) ≠ 0) :
    setOwner keccak256 st handle owner = st := by
  rw [setOwner, if_pos h]

theorem setOwner_of_free {handle : Word} (h : st (ownerSlot keccak256 handle) = 0) :
    setOwner keccak256 st handle owner (ownerSlot keccak256 handle) = addressWord owner := by
  rw [setOwner, if_neg (not_not_intro h), Store.set_self]

theorem storeCiphertextOwned_of_ne {slot : Word}
    (h : slot ≠ ownerSlot keccak256 (keccak256 ct)) :
    (storeCiphertextOwned keccak256 st ct ctType owner).2 slot =
      (storeCiphertext keccak256 st ct ctType).2 slot := by
  simp only [storeCiphertextOwned]
  split_ifs
  · exact setOwner_of_ne _ _ h
  · rfl

theorem storeCiphertextOwned_owner (hne : keccak256 ct ≠ 0) :
    (storeCiphertextOwned keccak256 st ct ctType owner).2 =
      setOwner keccak256 (storeCiphertext keccak256 st ct ctType).2 (keccak256 ct) owner := by
  exact if_pos hne

end Writes

/-! ## Owners -/

theorem addressWord_ne_zero {a : Address} (ha : a ≠ 0) : addressWord a ≠ 0 := fun hc =>
  ha (by rw [← wordAddress_addressWord a, hc, wordAddress_zero])

theorem isAuthorized_iff {keccak256 : List UInt8 → Word} {st : Storage} {handle : Word}
    {caller : Address} :
    isAuthorized keccak256 st handle caller = true ↔
      getOwner keccak256 st handle = caller ∧ caller ≠ 0 := by
  unfold isAuthorized
  by_cases hzero : getOwner keccak256 st handle = 0
  · rw [if_pos hzero, hzero]
    exact ⟨fun h => absurd h Bool.false_ne_true, fun h => absurd h.1.symm h.2⟩
  · rw [if_neg hzero, decide_eq_true_iff]
    exact ⟨fun h => ⟨h, h ▸ hzero⟩, fun h => h.1⟩

end LuxPrecompile.Fhe
