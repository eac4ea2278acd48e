import LuxPrecompile.Fill.Manager

/-!
# Attestations read back

What `saveAttestation` writes is loaded again field by field, and no write touches the
record of another order or the configuration.  A pending attestation of block zero is
the only one whose first word is empty.
-/

namespace LuxPrecompile.Fill

open Evm

/-! ## The first word -/

/-- The statuses that are written. -/
def FillStatus.Written (s : FillStatus) : Prop := s = .pending ∨ s = .finalized ∨ s = .reversed

theorem FillStatus.ofByte_toByte {s : FillStatus} (h : s.Written) : ofByte s.toByte = s := by
  rcases h with rfl | rfl | rfl <;> rfl

theorem packed_slice (att : Settlement) {i j : ℕ} (hj : j ≤ 17) :
    wordSlice att.packed i j =
      slice ([att.status.toByte] ++ (uint64Bytes att.timestamp ++ uint64Bytes att.block)) i j := by
  rw [Settlement.packed, wordSlice_packWord (by simp) (by simp; omega)]

theorem packed_timestamp (att : Settlement) :
    bytesToUint64 (wordSlice att.packed 1 9) = att.timestamp := by
  rw [packed_slice att (by norm_num), slice_append_right (by simp), slice_append_left (by simp)]
  simp [slice_all]

theorem packed_block (att : Settlement) :
    bytesToUint64 (wordSlice att.packed 9 17) = att.block := by
  rw [packed_slice att (by norm_num), slice_append_right (by simp), slice_append_right (by simp)]
  simp [slice_all]

theorem packed_status (att : Settlement) :
    (hashBytes att.packed).headD 0 = att.status.toByte := by
  rw [Settlement.packed, packWord, hashBytes_bytesToHash]
  · rfl
  · simp

theorem packed_ne_zero {att : Settlement} (h : att.block ≠ 0 ∨ att.status.toByte ≠ 0) :
    att.packed ≠ 0 := by
  intro hzero
  rcases h with h | h
  · have hblock := packed_block att
    rw [hzero] at hblock
    exact h (hblock.symm.trans (by decide))
  · have hstatus := packed_status att
    rw [hzero] at hstatus
    exact h (hstatus.symm.trans (by decide))

/-! ## Records -/

theorem stored_eq_some {st : Storage} {orderID : Word} {att : Settlement} :
    stored st orderID = some att ↔ st (.attest orderID) ≠ 0 ∧ load st orderID = att := by
  unfold stored
  split_ifs with h
  · simp [h]
  · exact ⟨fun hload => ⟨h, Option.some.inj hload⟩, fun hload => congrArg some hload.2⟩

theorem stored_orderID {st : Storage} {orderID : Word} {att : Settlement}
    (h : stored st orderID = some att) : att.orderID = orderID := by
  rw [← (stored_eq_some.mp h).2, load]

theorem stored_amount_lt {st : Storage} {orderID : Word} {att : Settlement}
    (h : stored st orderID = some att) : att.amount < 2 ^ 256 ∧ att.price < 2 ^ 256 := by
  rw [← (stored_eq_some.mp h).2, load]
  exact ⟨BitVec.isLt _, BitVec.isLt _⟩

theorem stored_congr {st st' : Storage} {orderID : Word}
    (hattest : st' (.attest orderID) = st (.attest orderID))
    (hfield : ∀ i, st' (.field orderID i) = st (.field orderID i)) :
    stored st' orderID = stored st orderID := by
  simp only [stored, load, hattest, hfield]

theorem stored_set_of_config (st : Storage) {slot : Slot} (value : Word)
    (hattest : ∀ orderID, slot ≠ .attest orderID) (hfield : ∀ orderID i, slot ≠ .field orderID i) :
    stored (st.set slot value) = stored st := by
  funext orderID
  exact stored_congr (Store.set_of_ne _ _ (Ne.symm (hattest orderID)))
    fun i => Store.set_of_ne _ _ (Ne.symm (hfield orderID i))

theorem writeAttestation_of_ne (st : Storage) (att : Settlement) (amount price : Word)
    {slot : Slot} (hattest : slot ≠ .attest att.orderID)
    (hfield : ∀ i, slot ≠ .field att.orderID i) :
    writeAttestation st att amount price slot = st slot := by
  simp [writeAttestation, hattest, hfield]

/-- The record that is written is the one that is stored. -/
theorem stored_writeAttestation_self (st : Storage) {att : Settlement}
    (hamount : att.amount < 2 ^ 256) (hprice : att.price < 2 ^ 256)
    (hstatus : att.status.Written) (hword : att.packed ≠ 0) :
    stored (writeAttestation st att (BitVec.ofNat 256 att.amount) (BitVec.ofNat 256 att.price))
      att.orderID = some att := by
  let st' := writeAttestation st att (BitVec.ofNat 256 att.amount) (BitVec.ofNat 256 att.price)
  have hfirst : st' (.attest att.orderID) = att.packed := by simp [st', writeAttestation]
  have hamountWord : st' (.field att.orderID 1) = BitVec.ofNat 256 att.amount := by
    simp [st', writeAttestation]
  have hpriceWord : st' (.field att.orderID 2) = BitVec.ofNat 256 att.price := by
    simp [st', writeAttestation]
  have huser : st' (.field att.orderID 3) = addressWord att.user := by
    simp [st', writeAttestation]
  have hattester : st' (.field att.orderID 4) = addressWord att.attester := by
    simp [st', writeAttestation]
  have hsymbol : st' (.field att.orderID 5) = att.symbol := by
    simp [st', writeAttestation]
  change stored st' att.orderID = some att
  rw [stored_eq_some, hfirst]
  refine ⟨hword, ?_⟩
  simp only [load, hfirst, hamountWord, hpriceWord, huser, hattester, hsymbol,
    packed_timestamp, packed_block, packed_status, FillStatus.ofByte_toByte hstatus,
    wordAddress_addressWord, BitVec.toNat_ofNat, Nat.mod_eq_of_lt hamount,
    Nat.mod_eq_of_lt hprice]

theorem stored_writeAttestation_of_ne (st : Storage) (att : Settlement) (amount price : Word)
    {orderID : Word} (h : orderID ≠ att.orderID) :
    stored (writeAttestation st att amount price) orderID = stored st orderID :=
  stored_congr (writeAttestation_of_ne _ _ _ _ (by simpa using h) (by simp))
    fun i => writeAttestation_of_ne _ _ _ _ (by simp) (by simp [h])

theorem bigWord_of_lt {v : ℕ} (h : v < 2 ^ 256) : bigWord v = some (BitVec.ofNat 256 v) :=
  if_pos h

theorem bigWord_eq_none {v : ℕ} : bigWord v = none ↔ 2 ^ 256 ≤ v := by
  unfold bigWord
  split_ifs with h
  · simpa using h
  · simpa using h

end LuxPrecompile.Fill
