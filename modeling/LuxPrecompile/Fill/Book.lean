import LuxPrecompile.Fill.Record

/-!
# The book of attestations

What the manager is for: a record for each order, and the value outstanding.  An
attestation opens a record, and a challenge or a finalization closes it.  As long as
the manager's map agrees with the state database, every call of the manager is one
step of the book, and the map goes on agreeing.
-/

namespace LuxPrecompile.Fill

open Evm

/-- The records with the value outstanding, the block and the window in force. -/
structure Book where
  records : Word → Option Settlement
  outstanding : ℕ
  block : UInt64
  window : UInt64

/-- The book with another record of an order. -/
def Book.enter (b : Book) (att : Settlement) (outstanding : ℕ) : Book :=
  { b with
    records := Function.update b.records att.orderID (some att)
    outstanding := outstanding }

theorem Book.enter_self (b : Book) (att : Settlement) {orderID : Word} (v : ℕ)
    (h : orderID = att.orderID) : (b.enter att v).records orderID = some att := by
  simp [Book.enter, h]

theorem Book.enter_of_ne (b : Book) (att : Settlement) {orderID : Word} (v : ℕ)
    (h : orderID ≠ att.orderID) : (b.enter att v).records orderID = b.records orderID := by
  simp [Book.enter, h]

/-- One step of the book, for a call that asks to finalize the given order if any.  The
end of a fraud window is computed in 64 bits. -/
inductive Book.Step (asked : Option Word) (b : Book) : Book → Prop
  | idle : Step asked b b
  | configured (window : UInt64) : Step asked b { b with window := window }
  | opened (att : Settlement) (hfresh : b.records att.orderID = none)
      (hpending : att.status = .pending) :
      Step asked b (b.enter att (b.outstanding + att.value))
  | closed (att : Settlement) (status : FillStatus)
      (hrecord : b.records att.orderID = some att)
      (hopen : att.status ≠ .finalized ∧ att.status ≠ .reversed)
      (hclosed : status = .reversed ∨
        status = .finalized ∧ asked = some att.orderID ∧ ¬ b.block < att.block + b.window) :
      Step asked b (b.enter { att with status := status } (b.outstanding - att.value))

/-- The book a state database holds. -/
def bookOf (st : Storage) : Book :=
  { records := stored st
    outstanding := getOutstanding st
    block := getCurrentBlock st
    window := getFraudWindow st }

/-! ## Coherence -/

/-- The map agrees with the state database. -/
def Coherent (w : World) : Prop :=
  ∀ orderID att, w.attestations orderID = some att → stored w.storage orderID = some att

/-- The block word is a 64-bit number. -/
def BlockFits (st : Storage) : Prop := (st .block).toNat < 2 ^ 64

theorem getCurrentBlock_ne_zero {st : Storage} (h : BlockFits st) : getCurrentBlock st ≠ 0 := by
  unfold getCurrentBlock
  split_ifs with hzero
  · decide
  · intro hblock
    apply hzero
    have hnat := congrArg UInt64.toNat hblock
    rw [uint64_toNat_ofNat h] at hnat
    exact BitVec.eq_of_toNat_eq hnat

/-- What a call does to the manager and the state database. -/
structure Effect (asked : Option Word) (w w' : World) : Prop where
  step : (bookOf w.storage).Step asked (bookOf w'.storage)
  coherent : Coherent w'
  block : w'.storage .block = w.storage .block
  changed : ∀ orderID, stored w'.storage orderID ≠ stored w.storage orderID →
    w'.attestations orderID ≠ none
  grows : ∀ orderID, w.attestations orderID ≠ none → w'.attestations orderID ≠ none

theorem Effect.refl {asked : Option Word} {w : World} (hw : Coherent w) : Effect asked w w where
  step := .idle
  coherent := hw
  block := rfl
  changed _ h := absurd rfl h
  grows _ h := h

/-! ## Looking a record up -/

theorem getAttestation_storage (w : World) (orderID : Word) :
    (getAttestation w orderID).1.storage = w.storage := by
  unfold getAttestation
  split
  · rfl
  · split <;> rfl

theorem getAttestation_eq_stored {w : World} (hw : Coherent w) (orderID : Word) :
    (getAttestation w orderID).2 = stored w.storage orderID := by
  unfold getAttestation
  split
  case h_1 att hatt => exact (hw orderID att hatt).symm
  case h_2 hnone =>
      split
      · next att hatt => exact hatt.symm
      · next hstored => exact hstored.symm

theorem remember_attestations (w : World) (att : Settlement) (orderID : Word) :
    (w.remember att).attestations orderID =
      if orderID = att.orderID then some att else w.attestations orderID := by
  simp [World.remember, Function.update_apply]

theorem getAttestation_coherent {w : World} (hw : Coherent w) (orderID : Word) :
    Coherent (getAttestation w orderID).1 := by
  unfold getAttestation
  split
  · exact hw
  · split
    · next att hatt =>
        intro other att' hother
        rw [remember_attestations] at hother
        split_ifs at hother with heq
        · rw [heq, stored_orderID hatt, ← Option.some.inj hother]
          exact hatt
        · exact hw other att' hother
    · exact hw

theorem getAttestation_grows (w : World) (orderID : Word) {other : Word}
    (h : w.attestations other ≠ none) : (getAttestation w orderID).1.attestations other ≠ none := by
  unfold getAttestation
  split
  · exact h
  · split
    · rw [remember_attestations]
      split_ifs
      · exact Option.some_ne_none _
      · exact h
    · exact h

theorem Effect.of_look {asked : Option Word} {w w' : World} {orderID : Word}
    (h : Effect asked (getAttestation w orderID).1 w') : Effect asked w w' := by
  have hstorage := getAttestation_storage w orderID
  refine ⟨?_, h.coherent, ?_, fun other hother => ?_, fun other hother => ?_⟩
  · rw [← hstorage]
    exact h.step
  · rw [h.block, hstorage]
  · apply h.changed other
    rwa [hstorage]
  · exact h.grows other (getAttestation_grows w orderID hother)

/-! ## Writing a record -/

theorem writeAttestation_config (st : Storage) (att : Settlement) (amount price : Word) :
    getOutstanding (writeAttestation st att amount price) = getOutstanding st ∧
    getCurrentBlock (writeAttestation st att amount price) = getCurrentBlock st ∧
    getFraudWindow (writeAttestation st att amount price) = getFraudWindow st ∧
    writeAttestation st att amount price .block = st .block := by
  have hconfig : ∀ slot : Slot, slot ≠ .attest att.orderID →
      (∀ i, slot ≠ .field att.orderID i) →
      writeAttestation st att amount price slot = st slot :=
    fun slot hattest hfield => writeAttestation_of_ne _ _ _ _ hattest hfield
  simp [getOutstanding, getCurrentBlock, getFraudWindow, hconfig]

theorem stored_writeAttestation (st : Storage) {att : Settlement} (hamount : att.amount < 2 ^ 256)
    (hprice : att.price < 2 ^ 256) (hstatus : att.status.Written) (hword : att.packed ≠ 0) :
    stored (writeAttestation st att (BitVec.ofNat 256 att.amount) (BitVec.ofNat 256 att.price)) =
      Function.update (stored st) att.orderID (some att) := by
  funext orderID
  by_cases h : orderID = att.orderID
  · rw [h, Function.update_self]
    exact stored_writeAttestation_self st hamount hprice hstatus hword
  · rw [Function.update_of_ne h]
    exact stored_writeAttestation_of_ne st att _ _ h

/-- The storage after a record and the outstanding value are written. -/
theorem bookOf_write (st : Storage) (att : Settlement) (hamount : att.amount < 2 ^ 256)
    (hprice : att.price < 2 ^ 256) (hstatus : att.status.Written) (hword : att.packed ≠ 0)
    {st' : Storage} (value : Word)
    (hst' : st' = (writeAttestation st att (BitVec.ofNat 256 att.amount)
      (BitVec.ofNat 256 att.price)).set .outstanding value) :
    bookOf st' = (bookOf st).enter att value.toNat ∧ st' .block = st .block := by
  obtain ⟨-, hblock, hwindow, hslot⟩ := writeAttestation_config st att
    (BitVec.ofNat 256 att.amount) (BitVec.ofNat 256 att.price)
  have hrecords := stored_writeAttestation st hamount hprice hstatus hword
  subst hst'
  constructor
  · simp only [bookOf, Book.enter, Book.mk.injEq]
    refine ⟨?_, by simp [getOutstanding], ?_, ?_⟩
    · rw [stored_set_of_config _ _ (by simp) (by simp), hrecords]
    · rw [← hblock]
      simp [getCurrentBlock]
    · rw [← hwindow]
      simp [getFraudWindow]
  · rw [Store.set_of_ne _ _ (by simp), hslot]

/-- A record that is written and remembered keeps the map coherent. -/
theorem Effect.of_write {asked : Option Word} {w w' : World} {att : Settlement}
    {outstanding : ℕ} (hw : Coherent w)
    (hmap : w'.attestations = (w.remember att).attestations)
    (hbook : bookOf w'.storage = (bookOf w.storage).enter att outstanding)
    (hblock : w'.storage .block = w.storage .block)
    (hstep : (bookOf w.storage).Step asked ((bookOf w.storage).enter att outstanding)) :
    Effect asked w w' := by
  have hrecords : stored w'.storage = Function.update (stored w.storage) att.orderID (some att) :=
    congrArg Book.records hbook
  refine ⟨hbook ▸ hstep, fun orderID att' hatt' => ?_, hblock, fun orderID horder => ?_,
    fun orderID horder => ?_⟩
  · rw [hmap, remember_attestations] at hatt'
    rw [hrecords]
    split_ifs at hatt' with heq
    · rw [heq, Function.update_self, hatt']
    · rw [Function.update_of_ne heq]
      exact hw orderID att' hatt'
  · rw [hmap, remember_attestations]
    split_ifs with heq
    · exact Option.some_ne_none _
    · rw [hrecords, Function.update_of_ne heq] at horder
      exact absurd rfl horder
  · rw [hmap, remember_attestations]
    split_ifs
    · exact Option.some_ne_none _
    · exact horder

end LuxPrecompile.Fill
