import LuxPrecompile.Settle.Records
import LuxPrecompile.Support.Chunks

/-!
# Records over consecutive slots

A byte string of any length is kept as a length word and data words of 32 bytes, the
last one padded with zeros.  What was written is read back, whatever the slots held
before, as long as its length is one that `slotLen` accepts.
-/

namespace LuxPrecompile.Settle

open Evm Support

/-! ## Writing words -/

section Loop

variable (slotAt : UInt64 → Slot) (word : ℕ → Word) (st : Storage)

theorem foldl_set_of_ne (n : ℕ) {slot : Slot} (h : ∀ i < n, slot ≠ slotAt (UInt64.ofNat (i + 1))) :
    ((List.range n).foldl (fun st i => st.set (slotAt (UInt64.ofNat (i + 1))) (word i)) st)
      slot = st slot := by
  induction n with
  | zero => rfl
  | succ n ih =>
      rw [List.range_succ, List.foldl_append, List.foldl_cons, List.foldl_nil,
        Storage.set_of_ne (h n (Nat.lt_succ_self n))]
      exact ih fun i hi => h i (Nat.lt_succ_of_lt hi)

/-- After the loop every data slot holds its word. -/
theorem foldl_set_self (hinj : Function.Injective slotAt) {n : ℕ} (hn : n < 2 ^ 64) {i : ℕ}
    (hi : i < n) :
    ((List.range n).foldl (fun st i => st.set (slotAt (UInt64.ofNat (i + 1))) (word i)) st)
      (slotAt (UInt64.ofNat (i + 1))) = word i := by
  induction n with
  | zero => exact absurd hi (Nat.not_lt_zero i)
  | succ n ih =>
      rw [List.range_succ, List.foldl_append, List.foldl_cons, List.foldl_nil]
      by_cases hlast : i = n
      · rw [hlast, Storage.set_self]
      · have hne : slotAt (UInt64.ofNat (i + 1)) ≠ slotAt (UInt64.ofNat (n + 1)) := by
          intro hc
          have heq := uint64_ofNat_inj (by omega) (by omega) (hinj hc)
          omega
        rw [Storage.set_of_ne hne]
        exact ih (by omega) (by omega)

end Loop

/-! ## Data words -/

/-- The bytes of a data word are those of the record, padded to whole words. -/
theorem hashBytes_recordWord {b : List UInt8} {i : ℕ} (hi : i < wordCount b.length) :
    hashBytes (recordWord b i) =
      ((b ++ List.replicate (32 * wordCount b.length - b.length) 0).drop (32 * i)).take 32 := by
  have hlength := le_wordCount b.length
  have hchunk : (b.drop (32 * i)).length = b.length - 32 * i := List.length_drop
  have hstart : 32 * i ≤ b.length := by
    unfold wordCount at hi
    omega
  rw [List.drop_append_of_le_length hstart, List.take_append, hchunk, List.take_replicate,
    recordWord, packWord, slice, Nat.add_sub_cancel_left]
  have hpad : 32 - ((b.drop (32 * i)).take 32).length =
      min (32 - (b.length - 32 * i)) (32 * wordCount b.length - b.length) := by
    rw [List.length_take, hchunk]
    omega
  rw [hpad]
  apply hashBytes_bytesToHash
  rw [List.length_append, List.length_take, hchunk, List.length_replicate]
  omega

theorem take_flatMap_recordWord (b : List UInt8) :
    (((List.range (wordCount b.length)).flatMap fun i => hashBytes (recordWord b i)).take
      b.length) = b := by
  have hlength := le_wordCount b.length
  have hwords : ((List.range (wordCount b.length)).flatMap fun i => hashBytes (recordWord b i)) =
      (List.range (wordCount b.length)).flatMap fun i =>
        ((b ++ List.replicate (32 * wordCount b.length - b.length) 0).drop (32 * i)).take 32 := by
    apply List.flatMap_congr
    intro i hi
    exact hashBytes_recordWord (List.mem_range.mp hi)
  rw [hwords, flatMap_range_chunk, List.take_take, min_eq_left hlength,
    List.take_append_of_le_length le_rfl, List.take_length]

/-! ## Records -/

/-- The largest length `slotLen` accepts. -/
def maxSlotLen : ℕ := 2 ^ 31 - 1

/-- The data slots hold the words of a record. -/
def HoldsData (slotAt : UInt64 → Slot) (st : Storage) (b : List UInt8) : Prop :=
  ∀ i < wordCount b.length, st (slotAt (UInt64.ofNat (i + 1))) = recordWord b i

/-- The slots hold a record: its length and its words. -/
structure HoldsRecord (slotAt : UInt64 → Slot) (st : Storage) (b : List UInt8) : Prop where
  length : st (slotAt 0) = BitVec.ofNat 256 b.length
  data : HoldsData slotAt st b

theorem HoldsRecord.congr {slotAt : UInt64 → Slot} {st st' : Storage} {b : List UInt8}
    (h : HoldsRecord slotAt st b) (hst : ∀ i, st' (slotAt i) = st (slotAt i)) :
    HoldsRecord slotAt st' b :=
  ⟨by rw [hst, h.length], fun i hi => by rw [hst, h.data i hi]⟩

theorem writeRecord_of_ne (slotAt : UInt64 → Slot) (st : Storage) (b : List UInt8)
    {slot : Slot} (h : ∀ i, slot ≠ slotAt i) : writeRecord slotAt st b slot = st slot := by
  rw [writeRecord, foldl_set_of_ne _ _ _ _ fun i _ => h _, Storage.set_of_ne (h 0)]

theorem writeRecord_holds {slotAt : UInt64 → Slot} (hinj : Function.Injective slotAt)
    (st : Storage) {b : List UInt8} (hb : b.length < 2 ^ 63) :
    HoldsRecord slotAt (writeRecord slotAt st b) b := by
  have hwords : wordCount b.length < 2 ^ 63 := by
    unfold wordCount
    omega
  constructor
  · rw [writeRecord, foldl_set_of_ne, Storage.set_self, uint64_toNat_ofNat (by omega)]
    intro i hi hc
    have h0 : UInt64.ofNat 0 = UInt64.ofNat (i + 1) := hinj hc
    have heq := uint64_ofNat_inj (by norm_num) (by omega) h0
    omega
  · intro i hi
    exact foldl_set_self slotAt (recordWord b) _ hinj (by omega) hi

theorem slotLen_ofNat {n : ℕ} (h : n < 2 ^ 64) :
    slotLen (BitVec.ofNat 256 n) = if n = 0 ∨ maxSlotLen < n then none else some n := by
  have hmod : (BitVec.ofNat 256 n).toNat % 2 ^ 64 = n := by
    rw [BitVec.toNat_ofNat, Nat.mod_eq_of_lt (by omega : n < 2 ^ 256), Nat.mod_eq_of_lt h]
  simp only [slotLen, hmod]
  rfl

/-- What a record reads as: itself, if its length is one. -/
theorem HoldsRecord.read {slotAt : UInt64 → Slot} {st : Storage} {b : List UInt8}
    (h : HoldsRecord slotAt st b) (hb : b.length < 2 ^ 63) (hne : b ≠ []) :
    readRecord slotAt st = if b.length ≤ maxSlotLen then some b else none := by
  have hpositive : b.length ≠ 0 := fun hc => hne (List.length_eq_zero_iff.mp hc)
  rw [readRecord, h.length, slotLen_ofNat (by omega)]
  by_cases hlong : b.length ≤ maxSlotLen
  · rw [if_neg (by omega), if_pos hlong, Option.map_some]
    have hwords : ((List.range (wordCount b.length)).flatMap
        fun i => hashBytes (st (slotAt (UInt64.ofNat (i + 1))))) =
        (List.range (wordCount b.length)).flatMap fun i => hashBytes (recordWord b i) := by
      apply List.flatMap_congr
      intro i hi
      rw [h.data i (List.mem_range.mp hi)]
    rw [hwords, take_flatMap_recordWord]
  · rw [if_pos (.inr (by omega)), if_neg hlong, Option.map_none]

end LuxPrecompile.Settle
