import LuxPrecompile.Fill.Book

/-!
# Effects of the calls

Every call of the manager on a coherent map is a step of the book.  A call panics
only where a value does not fit its word: a ceiling that is no 256-bit number, or an
attestation that takes the outstanding value past it.
-/

namespace LuxPrecompile.Fill

open Evm

/-! ## Opening and closing a record -/

theorem saveAttestation_eq (w : World) (att : Settlement) (hamount : att.amount < 2 ^ 256)
    (hprice : att.price < 2 ^ 256) :
    saveAttestation w att = some { w.remember att with
      storage := writeAttestation w.storage att (BitVec.ofNat 256 att.amount)
        (BitVec.ofNat 256 att.price) } := by
  rw [saveAttestation, bigWord_of_lt hamount, bigWord_of_lt hprice]

theorem setOutstanding_eq {st : Storage} {value : ℕ} (h : value < 2 ^ 256) :
    setOutstanding st value = some (st.set .outstanding (BitVec.ofNat 256 value)) := by
  rw [setOutstanding, bigWord_of_lt h, Option.map_some]

theorem setOutstanding_eq_none {st : Storage} {value : ℕ} :
    setOutstanding st value = none ↔ 2 ^ 256 ≤ value := by
  rw [setOutstanding, Option.map_eq_none_iff, bigWord_eq_none]

theorem writeAttestation_set_outstanding (st : Storage) (att : Settlement)
    (amount price value : Word) :
    writeAttestation (st.set .outstanding value) att amount price =
      (writeAttestation st att amount price).set .outstanding value := by
  funext slot
  by_cases h : slot = .outstanding
  · rw [h, Store.set_self, writeAttestation_of_ne _ _ _ _ (by simp) (by simp), Store.set_self]
  · rw [Store.set_of_ne _ _ h]
    simp [writeAttestation, Store.set, Function.update_apply, h]

/-- An attestation that fits is recorded and counted. -/
theorem openAttestation_of_lt {w : World} {att : Settlement}
    (hpositive : 0 < att.amount ∧ 0 < att.price)
    (hfits : getOutstanding w.storage + att.value < 2 ^ 256) :
    openAttestation w att = ({ w.remember att with
      storage := (writeAttestation w.storage att (BitVec.ofNat 256 att.amount)
        (BitVec.ofNat 256 att.price)).set .outstanding
          (BitVec.ofNat 256 (getOutstanding w.storage + att.value)) }, .ok ()) := by
  have hamount : att.amount ≤ att.value := Nat.le_mul_of_pos_right _ hpositive.2
  have hprice : att.price ≤ att.value := Nat.le_mul_of_pos_left _ hpositive.1
  rw [openAttestation, setOutstanding_eq hfits]
  simp only [saveAttestation_eq _ att (show att.amount < 2 ^ 256 by omega)
    (show att.price < 2 ^ 256 by omega), writeAttestation_set_outstanding]
  rfl

theorem openAttestation_of_le {w : World} {att : Settlement}
    (hover : 2 ^ 256 ≤ getOutstanding w.storage + att.value) :
    openAttestation w att = (w, .error .panic) := by
  rw [openAttestation, setOutstanding_eq_none.mpr hover]

theorem openAttestation_effect {asked : Option Word} {w : World} (hw : Coherent w)
    {att : Settlement}
    (hpositive : 0 < att.amount ∧ 0 < att.price) (hfresh : stored w.storage att.orderID = none)
    (hpending : att.status = .pending) (hblock : att.block ≠ 0) :
    Effect asked w (openAttestation w att).1 := by
  by_cases hfits : getOutstanding w.storage + att.value < 2 ^ 256
  · have hamount : att.amount ≤ att.value := Nat.le_mul_of_pos_right _ hpositive.2
    have hprice : att.price ≤ att.value := Nat.le_mul_of_pos_left _ hpositive.1
    rw [openAttestation_of_lt hpositive hfits]
    obtain ⟨hbook, hslot⟩ := bookOf_write w.storage att (by omega) (by omega) (.inl hpending)
      (packed_ne_zero (.inl hblock)) (BitVec.ofNat 256 (getOutstanding w.storage + att.value)) rfl
    rw [BitVec.toNat_ofNat, Nat.mod_eq_of_lt hfits] at hbook
    exact .of_write hw rfl hbook hslot (.opened att hfresh hpending)
  · rw [openAttestation_of_le (Nat.le_of_not_lt hfits)]
    exact .refl hw

/-- Closing a stored record never panics. -/
theorem closeAttestation_eq {w : World} {att : Settlement} (hamount : att.amount < 2 ^ 256)
    (hprice : att.price < 2 ^ 256) (status : FillStatus) :
    closeAttestation w att status = ({ w.remember { att with status := status } with
      storage := (writeAttestation w.storage { att with status := status }
        (BitVec.ofNat 256 att.amount) (BitVec.ofNat 256 att.price)).set .outstanding
          (BitVec.ofNat 256 (getOutstanding w.storage - att.value)) }, .ok ()) := by
  have hlt : getOutstanding w.storage - att.value < 2 ^ 256 := by
    have hword : getOutstanding w.storage < 2 ^ 256 := BitVec.isLt _
    omega
  have hsave := saveAttestation_eq w { att with status := status } hamount hprice
  have houtstanding := (writeAttestation_config w.storage { att with status := status }
    (BitVec.ofNat 256 att.amount) (BitVec.ofNat 256 att.price)).1
  simp only [closeAttestation, hsave, houtstanding, setOutstanding_eq hlt]

theorem closeAttestation_effect {asked : Option Word} {w : World} (hw : Coherent w)
    {att : Settlement}
    (hrecord : stored w.storage att.orderID = some att)
    (hopen : att.status ≠ .finalized ∧ att.status ≠ .reversed) {status : FillStatus}
    (hclosed : status = .reversed ∨ status = .finalized ∧ asked = some att.orderID ∧
      ¬ getCurrentBlock w.storage < att.block + getFraudWindow w.storage) :
    Effect asked w (closeAttestation w att status).1 := by
  obtain ⟨hamount, hprice⟩ := stored_amount_lt hrecord
  have hwritten : status.Written ∧ status.toByte ≠ 0 := by
    rcases hclosed with rfl | ⟨rfl, -⟩
    · exact ⟨.inr (.inr rfl), by decide⟩
    · exact ⟨.inr (.inl rfl), by decide⟩
  have hlt : getOutstanding w.storage - att.value < 2 ^ 256 := by
    have hword : getOutstanding w.storage < 2 ^ 256 := BitVec.isLt _
    omega
  rw [closeAttestation_eq hamount hprice]
  obtain ⟨hbook, hslot⟩ := bookOf_write w.storage { att with status := status } hamount
    hprice hwritten.1 (packed_ne_zero (.inr hwritten.2))
    (BitVec.ofNat 256 (getOutstanding w.storage - att.value)) rfl
  rw [BitVec.toNat_ofNat, Nat.mod_eq_of_lt hlt] at hbook
  exact .of_write hw rfl hbook hslot (.closed att status hrecord hopen hclosed)

/-! ## The calls -/

/-- The checks `Attest` makes. -/
def Attestable (st : Storage) (caller : Address) (orderID : Word) (amount price : Option ℤ)
    (user : Address) : Prop :=
  getAttester st ≠ 0 ∧ caller = getAttester st ∧ user ≠ 0 ∧ stored st orderID = none ∧
    ∃ a p, positive amount = some a ∧ positive price = some p ∧
      ¬ (0 < getCeiling st ∧ getCeiling st < getOutstanding st + a * p)

theorem positive_eq_some {v : Option ℤ} {n : ℕ} (h : positive v = some n) :
    0 < n ∧ v = some (n : ℤ) := by
  cases v with
  | none => cases h
  | some v =>
      simp only [positive] at h
      split_ifs at h with hv
      obtain rfl := Option.some.inj h
      refine ⟨by omega, ?_⟩
      rw [Int.toNat_of_nonneg (by omega)]

/-- The attestation `Attest` records. -/
def attested (st : Storage) (caller : Address) (orderID symbol : Word) (amount price : ℕ)
    (user : Address) (timestamp : UInt64) : Settlement :=
  { orderID := orderID
    symbol := symbol
    amount := amount
    price := price
    user := user
    attester := caller
    timestamp := timestamp
    block := getCurrentBlock st
    status := .pending }

theorem getAttestation_of_none {w : World} (hw : Coherent w) {orderID : Word}
    (h : stored w.storage orderID = none) : getAttestation w orderID = (w, none) := by
  have hmap : w.attestations orderID = none := by
    cases hatt : w.attestations orderID with
    | none => rfl
    | some att =>
        rw [hw orderID att hatt] at h
        cases h
  simp [getAttestation, hmap, h]

theorem getAttestation_of_some {w : World} (hw : Coherent w) {orderID : Word} {att : Settlement}
    (h : stored w.storage orderID = some att) :
    getAttestation w orderID = ((getAttestation w orderID).1, some att) := by
  rw [← h, ← getAttestation_eq_stored hw]

/-- `Attest` either records the attestation or returns an error. -/
theorem attest_cases {w : World} (hw : Coherent w) (caller : Address) (orderID symbol : Word)
    (amount price : Option ℤ) (user : Address) (timestamp : UInt64) :
    (∃ a p, positive amount = some a ∧ positive price = some p ∧
      Attestable w.storage caller orderID amount price user ∧
      attest w caller orderID symbol amount price user timestamp =
        openAttestation w (attested w.storage caller orderID symbol a p user timestamp)) ∨
    (¬ Attestable w.storage caller orderID amount price user ∧ ∃ w' e, Effect none w w' ∧
      attest w caller orderID symbol amount price user timestamp = fail w' e) := by
  by_cases hset : getAttester w.storage = 0
  · exact .inr ⟨fun h => h.1 hset, w, _, .refl hw, if_pos hset⟩
  by_cases hcaller : caller ≠ getAttester w.storage
  · exact .inr ⟨fun h => hcaller h.2.1, w, _, .refl hw, by rw [attest, if_neg hset, if_pos hcaller]⟩
  cases hamount : positive amount with
  | none =>
      refine .inr ⟨?_, w, .invalidAttestationParam, .refl hw, ?_⟩
      · rintro ⟨-, -, -, -, a, p, ha, -⟩
        rw [hamount] at ha
        cases ha
      · simp [attest, hset, hcaller, hamount]
  | some a =>
      cases hprice : positive price with
      | none =>
          refine .inr ⟨?_, w, .invalidAttestationParam, .refl hw, ?_⟩
          · rintro ⟨-, -, -, -, a, p, -, hp, -⟩
            rw [hprice] at hp
            cases hp
          · simp [attest, hset, hcaller, hamount, hprice]
      | some p =>
          by_cases huser : user = 0
          · exact .inr ⟨fun h => h.2.2.1 huser, w, .invalidAttestationParam, .refl hw,
              by simp [attest, hset, hcaller, hamount, hprice, huser]⟩
          cases hrecord : stored w.storage orderID with
          | some att =>
              refine .inr ⟨?_, (getAttestation w orderID).1, .duplicateAttestation,
                .of_look (.refl (getAttestation_coherent hw orderID)), ?_⟩
              · intro h
                have hnone := h.2.2.2.1
                rw [hrecord] at hnone
                cases hnone
              · simp only [attest, if_neg hset, if_neg hcaller, hamount, hprice, if_neg huser]
                rw [getAttestation_of_some hw hrecord]
          | none =>
              have hlook := getAttestation_of_none hw hrecord
              by_cases hceiling : 0 < getCeiling w.storage ∧
                  getCeiling w.storage < getOutstanding w.storage + a * p
              · refine .inr ⟨?_, w, .prefundCeilingExceeded, .refl hw, ?_⟩
                · rintro ⟨-, -, -, -, a', p', ha, hp, hnot⟩
                  rw [hamount] at ha
                  rw [hprice] at hp
                  cases ha
                  cases hp
                  exact hnot hceiling
                · simp only [attest, if_neg hset, if_neg hcaller, hamount, hprice, if_neg huser,
                    hlook, if_pos hceiling]
              · refine .inl ⟨a, p, rfl, rfl, ⟨hset, not_not.mp hcaller, huser, hrecord, a, p,
                  hamount, hprice, hceiling⟩, ?_⟩
                simp only [attest, if_neg hset, if_neg hcaller, hamount, hprice, if_neg huser,
                  hlook, if_neg hceiling]
                rfl

/-- `Challenge` either reverses an open record or returns an error. -/
theorem challenge_cases {w : World} (hw : Coherent w) (caller : Address) (orderID : Word)
    (reversalProof : List UInt8) :
    (∃ att, stored w.storage orderID = some att ∧
      (att.status ≠ .finalized ∧ att.status ≠ .reversed) ∧
      challenge w caller orderID reversalProof =
        closeAttestation (getAttestation w orderID).1 att .reversed) ∨
    ∃ w' e, Effect none w w' ∧ challenge w caller orderID reversalProof = fail w' e := by
  cases hrecord : stored w.storage orderID with
  | none =>
      refine .inr ⟨w, .attestationNotFound, .refl hw, ?_⟩
      simp only [challenge, getAttestation_of_none hw hrecord]
  | some att =>
      have heffect : Effect none w (getAttestation w orderID).1 :=
        .of_look (.refl (getAttestation_coherent hw orderID))
      have hlook := getAttestation_of_some hw hrecord
      unfold challenge
      rw [hlook]
      by_cases hfinal : att.status = .finalized
      · exact .inr ⟨_, _, heffect, if_pos hfinal⟩
      by_cases hreversed : att.status = .reversed
      · exact .inr ⟨_, .attestationReversed, heffect, by
          simp only [if_neg hfinal, if_pos hreversed]⟩
      by_cases hcaller : caller ≠ getAttester (getAttestation w orderID).1.storage
      · exact .inr ⟨_, .unauthorizedAttester, heffect, by
          simp only [if_neg hfinal, if_neg hreversed, if_pos hcaller]⟩
      by_cases hproof : reversalProof.length = 0
      · exact .inr ⟨_, .invalidReversalProof, heffect, by
          simp only [if_neg hfinal, if_neg hreversed, if_neg hcaller, if_pos hproof]⟩
      · exact .inl ⟨att, rfl, ⟨hfinal, hreversed⟩, by
          simp only [if_neg hfinal, if_neg hreversed, if_neg hcaller, if_neg hproof]⟩

theorem finalize_of_over {w : World} (hw : Coherent w) {orderID : Word} {att : Settlement}
    (hrecord : stored w.storage orderID = some att)
    (hopen : att.status ≠ .finalized ∧ att.status ≠ .reversed)
    (hwindow : ¬ getCurrentBlock w.storage < att.block + getFraudWindow w.storage) :
    finalize w orderID = closeAttestation (getAttestation w orderID).1 att .finalized := by
  have hstorage := getAttestation_storage w orderID
  unfold finalize
  rw [getAttestation_of_some hw hrecord]
  simp only [if_neg hopen.1, if_neg hopen.2, hstorage, if_neg hwindow]

/-- `Finalize` either finalizes an open record whose window is over or returns an
error. -/
theorem finalize_cases {w : World} (hw : Coherent w) (orderID : Word) :
    (∃ att, stored w.storage orderID = some att ∧
      (att.status ≠ .finalized ∧ att.status ≠ .reversed) ∧
      ¬ getCurrentBlock w.storage < att.block + getFraudWindow w.storage ∧
      finalize w orderID = closeAttestation (getAttestation w orderID).1 att .finalized) ∨
    ∃ w' e, Effect (some orderID) w w' ∧ finalize w orderID = fail w' e := by
  cases hrecord : stored w.storage orderID with
  | none =>
      refine .inr ⟨w, .attestationNotFound, .refl hw, ?_⟩
      simp only [finalize, getAttestation_of_none hw hrecord]
  | some att =>
      have heffect : Effect (some orderID) w (getAttestation w orderID).1 :=
        .of_look (.refl (getAttestation_coherent hw orderID))
      have hlook := getAttestation_of_some hw hrecord
      have hstorage := getAttestation_storage w orderID
      unfold finalize
      rw [hlook]
      by_cases hfinal : att.status = .finalized
      · exact .inr ⟨_, _, heffect, if_pos hfinal⟩
      by_cases hreversed : att.status = .reversed
      · exact .inr ⟨_, .attestationReversed, heffect, by
          simp only [if_neg hfinal, if_pos hreversed]⟩
      by_cases hwindow : getCurrentBlock w.storage < att.block + getFraudWindow w.storage
      · exact .inr ⟨_, .fraudWindowActive, heffect, by
          simp only [if_neg hfinal, if_neg hreversed, hstorage, if_pos hwindow]⟩
      · refine .inl ⟨att, rfl, ⟨hfinal, hreversed⟩, hwindow, ?_⟩
        rw [← finalize_of_over hw hrecord ⟨hfinal, hreversed⟩ hwindow, finalize, hlook]

/-- A call that writes configuration words only. -/
theorem Effect.of_config {asked : Option Word} {w : World} (hw : Coherent w) {st : Storage}
    (hrecords : stored st = stored w.storage)
    (houtstanding : st .outstanding = w.storage .outstanding)
    (hblock : st .block = w.storage .block) : Effect asked w { w with storage := st } := by
  have hbook : bookOf st = { bookOf w.storage with window := getFraudWindow st } := by
    simp only [bookOf, Book.mk.injEq, getOutstanding, getCurrentBlock, houtstanding, hblock]
    exact ⟨hrecords, trivial, trivial, trivial⟩
  refine ⟨?_, fun orderID att hatt => ?_, hblock, fun orderID horder => ?_, fun _ h => h⟩
  · change (bookOf w.storage).Step asked (bookOf st)
    rw [hbook]
    exact .configured _
  · rw [hrecords]
    exact hw orderID att hatt
  · exact absurd (congrFun hrecords orderID) horder

/-- The order a call asks to finalize. -/
def Call.finalizes : Call → Option Word
  | .finalize orderID => some orderID
  | _ => none

/-- Every call of the manager is a step of the book. -/
theorem perform_effect {w : World} (hw : Coherent w) (hblock : BlockFits w.storage) (c : Call) :
    Effect c.finalizes w (perform w c).1 := by
  cases c with
  | attest caller orderID symbol amount price user timestamp =>
      rcases attest_cases hw caller orderID symbol amount price user timestamp with
        ⟨a, p, ha, hp, hchecks, heq⟩ | ⟨-, w', e, heffect, heq⟩
      · rw [perform, heq]
        exact openAttestation_effect hw ⟨(positive_eq_some ha).1, (positive_eq_some hp).1⟩
          hchecks.2.2.2.1 rfl (getCurrentBlock_ne_zero hblock)
      · rw [perform, heq]
        exact heffect
  | challenge caller orderID reversalProof =>
      rcases challenge_cases hw caller orderID reversalProof with
        ⟨att, hatt, hopen, heq⟩ | ⟨w', e, heffect, heq⟩
      · rw [perform, heq]
        refine .of_look (closeAttestation_effect (getAttestation_coherent hw orderID) ?_ hopen
          (.inl rfl))
        rw [getAttestation_storage, stored_orderID hatt, hatt]
      · rw [perform, heq]
        exact heffect
  | finalize orderID =>
      rcases finalize_cases hw orderID with ⟨att, hatt, hopen, hwindow, heq⟩ | ⟨w', e, heffect, heq⟩
      · rw [perform, heq]
        refine .of_look (closeAttestation_effect (getAttestation_coherent hw orderID) ?_ hopen
          (.inr ⟨rfl, congrArg some (stored_orderID hatt).symm, ?_⟩))
        · rw [getAttestation_storage, stored_orderID hatt, hatt]
        · rwa [getAttestation_storage]
      · rw [perform, heq]
        exact heffect
  | setAttester caller newAttester =>
      simp only [perform, Outcome.done, setAttester]
      split_ifs
      · exact .refl hw
      · exact .of_config hw (stored_set_of_config _ _ (by simp) (by simp)) (by simp) (by simp)
  | setCeiling caller ceiling =>
      simp only [perform, Outcome.done, setCeiling]
      split_ifs
      · exact .refl hw
      · cases ceiling.bind fun c => bigWord c.natAbs with
        | none => exact .refl hw
        | some data =>
            exact .of_config hw (stored_set_of_config _ _ (by simp) (by simp)) (by simp) (by simp)
  | setFraudWindow caller blocks =>
      simp only [perform, Outcome.done, setFraudWindow]
      split_ifs
      · exact .refl hw
      · refine .of_config hw ?_ (by simp) (by simp)
        rw [stored_set_of_config _ _ (by simp) (by simp),
          stored_set_of_config _ _ (by simp) (by simp)]
  | getAttestation orderID => exact .of_look (.refl (getAttestation_coherent hw orderID))
  | getOutstanding => exact .refl hw
  | getCeiling => exact .refl hw

end LuxPrecompile.Fill
