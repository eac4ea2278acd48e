import LuxPrecompile.Fhe.Ledger
import LuxPrecompile.Fhe.Widths

/-!
# Handles keep their ciphertexts

In a run whose types fit, a handle that the precompile returned keeps its bytes, its
type and its owner, is the hash of those bytes, and its type is as wide as they
declare.  Chunks share the space of handles, so a word that is no handle resolves too
when a chunk reads as metadata.
-/

namespace LuxPrecompile.Fhe

open Evm Support

section Handles

variable {BitCiphertext Ciphertext : Type} (keccak256 : List UInt8 → Word)
  (fhe : Library BitCiphertext Ciphertext)

/-- A word that a call returned as a handle. -/
def issued (l : Ledger) (handle : Word) : Bool :=
  l.log.any fun d => keccak256 d.ct == handle

/-- A word that reads as a ciphertext. -/
def resolves (st : Storage) (handle : Word) : Bool :=
  (getCiphertext keccak256 st handle).isSome

/-- An operation computes with handles only, and its types fit. -/
def Operation.regular (l : Ledger) (op : Operation) : Bool :=
  op.operands.all (fun handle => !resolves keccak256 l.storage handle ||
    issued keccak256 l handle) && op.fits keccak256 l.storage

/-- A call that is refused, or whose operation is regular. -/
def Call.regular (l : Ledger) (c : Call) : Bool :=
  match c.admission with
  | .error _ => true
  | .ok (op, _) => op.regular keccak256 l

/-- A regular call by an account other than the zero address. -/
def Clean (l : Ledger) (c : Call) : Prop := c.caller ≠ 0 ∧ c.regular keccak256 l = true

instance (l : Ledger) (c : Call) : Decidable (Clean keccak256 l c) :=
  inferInstanceAs (Decidable (_ ∧ _))

/-- No chunk of an encoding reads as metadata. -/
def Plain (ct : List UInt8) : Prop :=
  ∀ i < wordCount ct.length, metaLength (chunkWord ct i) = 0

instance (ct : List UInt8) : Decidable (Plain ct) :=
  inferInstanceAs (Decidable (∀ i < wordCount ct.length, metaLength (chunkWord ct i) = 0))

/-- What a handle that resolves in one storage guarantees in a later one. -/
def Lawful (st st' : Storage) (handle : Word) : Prop :=
  ∀ ct ctType, getCiphertext keccak256 st handle = some (ct, ctType) →
    getCiphertext keccak256 st' handle = some (ct, ctType) ∧
      getOwner keccak256 st' handle = getOwner keccak256 st handle ∧
      keccak256 ct = handle ∧ typeBits ctType = some (declaredBits ct)

/-! ## The invariant -/

/-- The encodings of a run are well typed and in their slots, with their owners, and
nothing else is stored. -/
structure Valid (l : Ledger) : Prop where
  typed : ∀ d ∈ l.log, WellTyped (d.ct, d.ctType)
  holds : ∀ d ∈ l.log, Holds keccak256 l.storage d.ct d.ctType
  owned : ∀ d ∈ l.log, ∃ a ≠ 0,
    l.storage (ownerSlot keccak256 (keccak256 d.ct)) = addressWord a
  slots : ∀ slot, l.storage slot ≠ 0 →
    ∃ d ∈ l.log, ∃ p ∈ storedKeys keccak256 d.ct, slot = keccak256 p

theorem Valid.start : Valid keccak256 Ledger.start where
  typed := fun _ hd => absurd hd List.not_mem_nil
  holds := fun _ hd => absurd hd List.not_mem_nil
  owned := fun _ hd => absurd hd List.not_mem_nil
  slots := fun _ hslot => absurd rfl hslot

end Handles

section Steps

variable {keccak256 : List UInt8 → Word}

theorem WellTyped.length_pos {ct : List UInt8} {ctType : UInt8} (h : WellTyped (ct, ctType)) :
    0 < ct.length := by
  by_contra hzero
  have hnil : ct = [] := List.length_eq_zero_iff.mp (by omega)
  have hbits := (typeBits_bounds h.1).1
  dsimp only at hbits
  rw [hnil] at hbits
  exact absurd hbits (by decide)

theorem WellTyped.ne_ownerKey {ct : List UInt8} {ctType : UInt8} (h : WellTyped (ct, ctType))
    (handle : Word) : ct ≠ ownerKey handle := fun hc => by
  have hbits := typeBits_bounds h.1
  have hwide := declaredBits_ownerKey handle
  rw [← hc] at hwide
  exact absurd hbits.2 (Nat.not_le.mpr hwide)

theorem WellTyped.ne_chunkKey {ct : List UInt8} {ctType : UInt8} (h : WellTyped (ct, ctType))
    (handle : Word) {i : ℕ} (hi : i < 2 ^ 27) : ct ≠ chunkKey handle i := fun hc => by
  have hkey := h.2
  dsimp only at hkey
  rw [hc, isChunkKey_chunkKey handle hi] at hkey
  exact Bool.false_ne_true hkey.symm

/-- An encoding whose strings are among those hashed and whose length fits its metadata. -/
structure Separate (keccak256 : List UInt8 → Word) (keys : List (List UInt8))
    (d : Derivation) : Prop where
  keys : storedKeys keccak256 d.ct ⊆ keys
  small : d.ct.length < 2 ^ 32

theorem Separate.index_lt {keys : List (List UInt8)} {d : Derivation}
    (h : Separate keccak256 keys d) {i : ℕ} (hi : i < wordCount d.ct.length) : i < 2 ^ 27 :=
  lt_of_lt_of_le hi (wordCount_le h.small)

variable {keys : List (List UInt8)} (hfree : NoCollisions keccak256 keys)

include hfree

theorem handle_ne_chunkSlot {d e : Derivation} (hd : Separate keccak256 keys d)
    (he : Separate keccak256 keys e) (htyped : WellTyped (d.ct, d.ctType)) {i : ℕ}
    (hi : i < wordCount e.ct.length) :
    keccak256 d.ct ≠ chunkSlot keccak256 (keccak256 e.ct) i := fun hc =>
  htyped.ne_chunkKey _ (he.index_lt hi)
    (hfree _ (hd.keys (ct_mem_storedKeys _)) _ (he.keys (chunkKey_mem_storedKeys hi)) hc)

theorem handle_ne_ownerSlot {d e : Derivation} (hd : Separate keccak256 keys d)
    (he : Separate keccak256 keys e) (htyped : WellTyped (d.ct, d.ctType)) :
    keccak256 d.ct ≠ ownerSlot keccak256 (keccak256 e.ct) := fun hc =>
  htyped.ne_ownerKey _
    (hfree _ (hd.keys (ct_mem_storedKeys _)) _ (he.keys (ownerKey_mem_storedKeys _)) hc)

theorem chunkSlot_ne_ownerSlot {d e : Derivation} (hd : Separate keccak256 keys d)
    (he : Separate keccak256 keys e) {i : ℕ} (hi : i < wordCount d.ct.length) :
    chunkSlot keccak256 (keccak256 d.ct) i ≠ ownerSlot keccak256 (keccak256 e.ct) := fun hc =>
  chunkKey_ne_ownerKey _ _ _
    (hfree _ (hd.keys (chunkKey_mem_storedKeys hi)) _ (he.keys (ownerKey_mem_storedKeys _)) hc)

theorem chunkSlot_inj {d e : Derivation} (hd : Separate keccak256 keys d)
    (he : Separate keccak256 keys e) {i j : ℕ} (hi : i < wordCount d.ct.length)
    (hj : j < wordCount e.ct.length)
    (heq : chunkSlot keccak256 (keccak256 d.ct) i = chunkSlot keccak256 (keccak256 e.ct) j) :
    d.ct = e.ct ∧ i = j := by
  have hkey := hfree _ (hd.keys (chunkKey_mem_storedKeys hi)) _
    (he.keys (chunkKey_mem_storedKeys hj)) heq
  have hpow : (2 : ℕ) ^ 27 < 2 ^ 256 := by norm_num
  obtain ⟨hhandle, hindex⟩ := chunkKey_inj ((hd.index_lt hi).trans hpow)
    ((he.index_lt hj).trans hpow) hkey
  exact ⟨hfree _ (hd.keys (ct_mem_storedKeys _)) _ (he.keys (ct_mem_storedKeys _)) hhandle,
    hindex⟩

/-- One encoding's slots hold it after it is stored. -/
theorem store_holds (st : Storage) {d : Derivation} (hd : Separate keccak256 keys d)
    (htyped : WellTyped (d.ct, d.ctType)) :
    Holds keccak256 (storeCiphertextOwned keccak256 st d.ct d.ctType d.caller).2 d.ct
      d.ctType := by
  have hstored := storeCiphertext_holds st d.ctType
    (fun i hi => handle_ne_chunkSlot hfree hd hd htyped hi)
    (fun i hi j hj heq => (chunkSlot_inj hfree hd hd hi hj heq).2)
  constructor
  · rw [storeCiphertextOwned_of_ne _ _ _ (handle_ne_ownerSlot hfree hd hd htyped)]
    exact hstored.metadata
  · intro i hi
    rw [storeCiphertextOwned_of_ne _ _ _ (chunkSlot_ne_ownerSlot hfree hd hd hi)]
    exact hstored.data i hi

/-- Storing one encoding leaves the slots of another. -/
theorem store_holds_other {st : Storage} {d e : Derivation} (hd : Separate keccak256 keys d)
    (he : Separate keccak256 keys e) (hdtyped : WellTyped (d.ct, d.ctType))
    (hetyped : WellTyped (e.ct, e.ctType)) (hne : e.ct ≠ d.ct)
    (hholds : Holds keccak256 st e.ct e.ctType) :
    Holds keccak256 (storeCiphertextOwned keccak256 st d.ct d.ctType d.caller).2 e.ct
      e.ctType := by
  have hhandle : keccak256 e.ct ≠ keccak256 d.ct := fun hc =>
    hne (hfree _ (he.keys (ct_mem_storedKeys _)) _ (hd.keys (ct_mem_storedKeys _)) hc)
  constructor
  · rw [storeCiphertextOwned_of_ne _ _ _ (handle_ne_ownerSlot hfree he hd hetyped),
      storeCiphertext_of_ne _ _ hhandle
        fun i hi => handle_ne_chunkSlot hfree he hd hetyped hi]
    exact hholds.metadata
  · intro i hi
    rw [storeCiphertextOwned_of_ne _ _ _ (chunkSlot_ne_ownerSlot hfree he hd hi),
      storeCiphertext_of_ne _ _
        (fun hc => handle_ne_chunkSlot hfree hd he hdtyped hi hc.symm)
        fun j hj hc => hne (chunkSlot_inj hfree he hd hi hj hc).1]
    exact hholds.data i hi

theorem storeCiphertext_ownerSlot (st : Storage) {d e : Derivation}
    (hd : Separate keccak256 keys d) (he : Separate keccak256 keys e)
    (htyped : WellTyped (d.ct, d.ctType)) :
    (storeCiphertext keccak256 st d.ct d.ctType).2 (ownerSlot keccak256 (keccak256 e.ct)) =
      st (ownerSlot keccak256 (keccak256 e.ct)) :=
  storeCiphertext_of_ne _ _ (fun hc => handle_ne_ownerSlot hfree hd he htyped hc.symm)
    fun _ hi hc => chunkSlot_ne_ownerSlot hfree hd he hi hc.symm

/-- Storing an encoding leaves the slot of a recorded owner. -/
theorem store_owner {st : Storage} {d e : Derivation} (hd : Separate keccak256 keys d)
    (he : Separate keccak256 keys e) (htyped : WellTyped (d.ct, d.ctType))
    (hzero : keccak256 d.ct ≠ 0)
    (howned : st (ownerSlot keccak256 (keccak256 e.ct)) ≠ 0) :
    (storeCiphertextOwned keccak256 st d.ct d.ctType d.caller).2
      (ownerSlot keccak256 (keccak256 e.ct)) = st (ownerSlot keccak256 (keccak256 e.ct)) := by
  have hstored := storeCiphertext_ownerSlot hfree st hd he htyped
  by_cases hslot : ownerSlot keccak256 (keccak256 e.ct) = ownerSlot keccak256 (keccak256 d.ct)
  · have hkept : (storeCiphertext keccak256 st d.ct d.ctType).2
        (ownerSlot keccak256 (keccak256 d.ct)) ≠ 0 := by
      rw [← hslot, hstored]
      exact howned
    rw [storeCiphertextOwned_owner _ _ _ hzero, setOwner_of_owned _ _ hkept, hstored]
  · rw [storeCiphertextOwned_of_ne _ _ _ hslot, hstored]

theorem store_owner_of_free {st : Storage} {d : Derivation} (hd : Separate keccak256 keys d)
    (htyped : WellTyped (d.ct, d.ctType)) (hzero : keccak256 d.ct ≠ 0)
    (hslot : st (ownerSlot keccak256 (keccak256 d.ct)) = 0) :
    (storeCiphertextOwned keccak256 st d.ct d.ctType d.caller).2
      (ownerSlot keccak256 (keccak256 d.ct)) = addressWord d.caller := by
  rw [storeCiphertextOwned_owner _ _ _ hzero]
  exact setOwner_of_free _ _ ((storeCiphertext_ownerSlot hfree st hd hd htyped).trans hslot)

omit hfree in
theorem store_slots {st : Storage} {d : Derivation} {slot : Word}
    (h : (storeCiphertextOwned keccak256 st d.ct d.ctType d.caller).2 slot ≠ 0) :
    st slot ≠ 0 ∨ ∃ p ∈ storedKeys keccak256 d.ct, slot = keccak256 p := by
  by_cases hkey : ∃ p ∈ storedKeys keccak256 d.ct, slot = keccak256 p
  · exact .inr hkey
  · left
    have hne : ∀ p ∈ storedKeys keccak256 d.ct, slot ≠ keccak256 p :=
      fun p hp hc => hkey ⟨p, hp, hc⟩
    rwa [storeCiphertextOwned_of_ne _ _ _ (hne _ (ownerKey_mem_storedKeys _)),
      storeCiphertext_of_ne _ _ (hne _ (ct_mem_storedKeys _))
        fun i hi => hne _ (chunkKey_mem_storedKeys hi)] at h

/-- An owner's slot that is not empty belongs to a recorded encoding. -/
theorem Valid.owner {l : Ledger} (hl : Valid keccak256 l)
    (hlog : ∀ e ∈ l.log, Separate keccak256 keys e) {d : Derivation}
    (hd : Separate keccak256 keys d)
    (hslot : l.storage (ownerSlot keccak256 (keccak256 d.ct)) ≠ 0) :
    ∃ a ≠ 0, l.storage (ownerSlot keccak256 (keccak256 d.ct)) = addressWord a := by
  obtain ⟨e, he, p, hp, hkey⟩ := hl.slots _ hslot
  have hsep := hlog e he
  rcases List.mem_cons.mp hp with rfl | hp
  · exact absurd hkey.symm (handle_ne_ownerSlot hfree hsep hd (hl.typed e he))
  · rcases List.mem_cons.mp hp with rfl | hp
    · rw [hkey]
      exact hl.owned e he
    · obtain ⟨i, hi, rfl⟩ := List.mem_map.mp hp
      exact absurd hkey.symm (chunkSlot_ne_ownerSlot hfree hsep hd (List.mem_range.mp hi))

/-- Storing a well typed encoding keeps the storage of a run. -/
theorem Valid.store {l : Ledger} (hl : Valid keccak256 l)
    (hlog : ∀ e ∈ l.log, Separate keccak256 keys e) {d : Derivation}
    (hd : Separate keccak256 keys d) (htyped : WellTyped (d.ct, d.ctType))
    (hzero : keccak256 d.ct ≠ 0) (hcaller : d.caller ≠ 0) :
    Valid keccak256
      ⟨(storeCiphertextOwned keccak256 l.storage d.ct d.ctType d.caller).2, d :: l.log⟩ where
  typed := List.forall_mem_cons.mpr ⟨htyped, hl.typed⟩
  holds := by
    refine List.forall_mem_cons.mpr ⟨store_holds hfree l.storage hd htyped, fun e he => ?_⟩
    have hetyped := hl.typed e he
    by_cases hsame : e.ct = d.ct
    · have htype : e.ctType = d.ctType :=
        typeBits_inj hetyped.1 (hsame ▸ htyped.1)
      rw [hsame, htype]
      exact store_holds hfree l.storage hd htyped
    · exact store_holds_other hfree hd (hlog e he) htyped hetyped hsame (hl.holds e he)
  owned := by
    refine List.forall_mem_cons.mpr ⟨?_, fun e he => ?_⟩
    · by_cases hslot : l.storage (ownerSlot keccak256 (keccak256 d.ct)) = 0
      · exact ⟨d.caller, hcaller, store_owner_of_free hfree hd htyped hzero hslot⟩
      · obtain ⟨a, ha, hword⟩ := hl.owner hfree hlog hd hslot
        exact ⟨a, ha, (store_owner hfree hd hd htyped hzero hslot).trans hword⟩
    · obtain ⟨a, ha, hword⟩ := hl.owned e he
      refine ⟨a, ha, (store_owner hfree hd (hlog e he) htyped hzero ?_).trans hword⟩
      rw [hword]
      exact addressWord_ne_zero ha
  slots := by
    intro slot hslot
    rcases store_slots hslot with hbefore | hkey
    · obtain ⟨e, he, hkey⟩ := hl.slots slot hbefore
      exact ⟨e, List.mem_cons_of_mem _ he, hkey⟩
    · exact ⟨d, List.mem_cons_self, hkey⟩

omit hfree in
theorem Valid.get {l : Ledger} (hl : Valid keccak256 l) {d : Derivation} (hd : d ∈ l.log)
    (hsep : Separate keccak256 keys d) :
    getCiphertext keccak256 l.storage (keccak256 d.ct) = some (d.ct, d.ctType) :=
  (hl.holds d hd).get (hl.typed d hd).length_pos hsep.small

omit hfree in
/-- A word that resolves is a recorded handle, where no chunk reads as metadata. -/
theorem Valid.issued_of_plain {l : Ledger} (hl : Valid keccak256 l)
    (hplain : ∀ d ∈ l.log, Plain d.ct) {handle : Word} {r : List UInt8 × UInt8}
    (h : getCiphertext keccak256 l.storage handle = some r) :
    ∃ d ∈ l.log, handle = keccak256 d.ct := by
  obtain ⟨hword, hlength⟩ := getCiphertext_eq_some h
  obtain ⟨d, hd, p, hp, hkey⟩ := hl.slots handle hword
  rcases List.mem_cons.mp hp with rfl | hp
  · exact ⟨d, hd, hkey⟩
  · rcases List.mem_cons.mp hp with rfl | hp
    · obtain ⟨a, -, ha⟩ := hl.owned d hd
      change handle = ownerSlot keccak256 (keccak256 d.ct) at hkey
      rw [hkey, ha, metaLength_addressWord] at hlength
      exact absurd rfl hlength
    · obtain ⟨i, hi, rfl⟩ := List.mem_map.mp hp
      change handle = chunkSlot keccak256 (keccak256 d.ct) i at hkey
      have hi' := List.mem_range.mp hi
      rw [hkey, (hl.holds d hd).data i hi', hplain d hd i hi'] at hlength
      exact absurd rfl hlength

end Steps

/-! ## Runs -/

section Runs

variable {BitCiphertext Ciphertext : Type} {keccak256 : List UInt8 → Word}
  {fhe : Library BitCiphertext Ciphertext}

theorem issued_iff {l : Ledger} {handle : Word} :
    issued keccak256 l handle = true ↔ ∃ d ∈ l.log, keccak256 d.ct = handle := by
  simp [issued]

/-- What a clean call stores is well typed. -/
theorem derivation_wellTyped (hfhe : fhe.Widths) {keys : List (List UInt8)} {l : Ledger}
    (hl : Valid keccak256 l) (hlog : ∀ e ∈ l.log, Separate keccak256 keys e) {c : Call}
    (hclean : Clean keccak256 l c) {d : Derivation}
    (hd : derivation keccak256 fhe l.storage c = some d) :
    WellTyped (d.ct, d.ctType) ∧ d.caller ≠ 0 ∧ keccak256 d.ct ≠ 0 := by
  obtain ⟨⟨gas, hadmitted⟩, -, hcaller, hresult, hzero⟩ := derivation_eq_some keccak256 fhe hd
  obtain ⟨hsender, hregular⟩ := hclean
  simp only [Call.regular, hadmitted, Operation.regular, Bool.and_eq_true, List.all_eq_true]
    at hregular
  refine ⟨?_, hcaller ▸ hsender, hzero⟩
  refine Operation.result_wellTyped hfhe hresult hregular.2 fun handle hhandle r hr => ?_
  have hissued : issued keccak256 l handle = true := by
    simpa [resolves, hr] using hregular.1 handle hhandle
  obtain ⟨e, he, rfl⟩ := issued_iff.mp hissued
  rw [hl.get he (hlog e he)] at hr
  exact Option.some.inj hr ▸ hl.typed e he

variable {keys : List (List UInt8)}

/-- The strings of a call's encoding are hashed in the run and it is not too long. -/
def Hashed (keccak256 : List UInt8 → Word) (fhe : Library BitCiphertext Ciphertext)
    (keys : List (List UInt8)) (l : Ledger) (c : Call) : Prop :=
  ∀ d, derivation keccak256 fhe l.storage c = some d → Separate keccak256 keys d

/-- The storage of a run and the strings hashed for it. -/
def Kept (keccak256 : List UInt8 → Word) (keys : List (List UInt8)) (l : Ledger) : Prop :=
  Valid keccak256 l ∧ ∀ e ∈ l.log, Separate keccak256 keys e

/-- One call keeps the storage of a run, and every owner in it. -/
theorem Kept.record (hfhe : fhe.Widths) (hfree : NoCollisions keccak256 keys) {l : Ledger}
    {c : Call} (hl : Kept keccak256 keys l) (hclean : Clean keccak256 l c)
    (hhashed : Hashed keccak256 fhe keys l c) :
    Kept keccak256 keys (Fhe.record keccak256 fhe l c) ∧
      ∀ e ∈ l.log, (Fhe.record keccak256 fhe l c).storage
        (ownerSlot keccak256 (keccak256 e.ct)) =
          l.storage (ownerSlot keccak256 (keccak256 e.ct)) := by
  obtain ⟨hvalid, hlog⟩ := hl
  rcases record_cases keccak256 fhe l c with ⟨-, hrecord⟩ | ⟨d, hd, hrecord⟩
  · rw [hrecord]
    exact ⟨⟨hvalid, hlog⟩, fun _ _ => rfl⟩
  · rw [hrecord]
    have hsep := hhashed d hd
    obtain ⟨htyped, hcaller, hzero⟩ := derivation_wellTyped hfhe hvalid hlog hclean hd
    refine ⟨⟨hvalid.store hfree hlog hsep htyped hzero hcaller,
      List.forall_mem_cons.mpr ⟨hsep, hlog⟩⟩, fun e he => ?_⟩
    obtain ⟨a, ha, hword⟩ := hvalid.owned e he
    refine store_owner hfree hsep (hlog e he) htyped hzero ?_
    rw [hword]
    exact addressWord_ne_zero ha

theorem along_hashed {log : List Derivation} (hlog : ∀ d ∈ log, Separate keccak256 keys d)
    (calls : List Call) :
    ∀ l : Ledger, (calls.foldl (Fhe.record keccak256 fhe) l).log ⊆ log →
      Along (Fhe.record keccak256 fhe) (Hashed keccak256 fhe keys) l calls := by
  induction calls with
  | nil => exact fun _ _ => trivial
  | cons c calls ih =>
      intro l hsub
      refine ⟨fun d hd => hlog d (hsub (log_subset_foldl keccak256 fhe calls _ ?_)),
        ih _ hsub⟩
      rw [Fhe.record, hd]
      exact List.mem_cons_self

theorem Kept.run (hfhe : fhe.Widths) (hfree : NoCollisions keccak256 keys) {l : Ledger}
    (hl : Kept keccak256 keys l) {calls : List Call}
    (h : Along (Fhe.record keccak256 fhe)
      (fun l c => Clean keccak256 l c ∧ Hashed keccak256 fhe keys l c) l calls) :
    Kept keccak256 keys (calls.foldl (Fhe.record keccak256 fhe) l) :=
  Along.invariant (I := Kept keccak256 keys)
    (fun _ _ hl h => (hl.record hfhe hfree h.1 h.2).1) calls hl h

/-- The owner of a recorded encoding stays its owner. -/
theorem Kept.owner (hfhe : fhe.Widths) (hfree : NoCollisions keccak256 keys) {l : Ledger}
    (hl : Kept keccak256 keys l) {calls : List Call}
    (h : Along (Fhe.record keccak256 fhe)
      (fun l c => Clean keccak256 l c ∧ Hashed keccak256 fhe keys l c) l calls)
    {e : Derivation} (he : e ∈ l.log) :
    (calls.foldl (Fhe.record keccak256 fhe) l).storage (ownerSlot keccak256 (keccak256 e.ct)) =
      l.storage (ownerSlot keccak256 (keccak256 e.ct)) := by
  have hkept := Along.invariant (I := fun l' : Ledger => Kept keccak256 keys l' ∧ e ∈ l'.log ∧
    l'.storage (ownerSlot keccak256 (keccak256 e.ct)) =
      l.storage (ownerSlot keccak256 (keccak256 e.ct))) ?_ calls ⟨hl, he, rfl⟩ h
  · exact hkept.2.2
  · intro l' c hl' h'
    obtain ⟨hkept, hmem, hslot⟩ := hl'
    obtain ⟨hnext, howner⟩ := hkept.record hfhe hfree h'.1 h'.2
    exact ⟨hnext, log_subset_record keccak256 fhe l' c hmem, (howner e hmem).trans hslot⟩

/-- In a clean run whose hashes do not collide, a handle that a call returned keeps its
bytes, its type and its owner, is their hash and is of the width they declare; where no
chunk reads as metadata, this holds of every word that resolves. -/
theorem handles_lawful (hfhe : fhe.Widths) (earlier later : List Call)
    (hfree : NoCollisions keccak256
      ((Ledger.after keccak256 fhe (earlier ++ later)).hashed keccak256))
    (hsmall : ∀ d ∈ (Ledger.after keccak256 fhe (earlier ++ later)).log,
      d.ct.length < 2 ^ 32)
    (hclean : Along (Fhe.record keccak256 fhe) (Clean keccak256) Ledger.start
      (earlier ++ later)) :
    (∀ handle, issued keccak256 (Ledger.after keccak256 fhe earlier) handle = true →
      Lawful keccak256 (Ledger.after keccak256 fhe earlier).storage
        (Ledger.after keccak256 fhe (earlier ++ later)).storage handle) ∧
      ((∀ d ∈ (Ledger.after keccak256 fhe earlier).log, Plain d.ct) → ∀ handle,
        Lawful keccak256 (Ledger.after keccak256 fhe earlier).storage
          (Ledger.after keccak256 fhe (earlier ++ later)).storage handle) := by
  generalize hkeys : (Ledger.after keccak256 fhe (earlier ++ later)).hashed keccak256 = keys
    at hfree
  have hseparate : ∀ d ∈ (Ledger.after keccak256 fhe (earlier ++ later)).log,
      Separate keccak256 keys d := fun d hd =>
    ⟨hkeys ▸ List.Subset.trans (storedKeys_subset d) (Derivation.hashed_subset hd), hsmall d hd⟩
  have halong := hclean.and (along_hashed hseparate (earlier ++ later) _ (List.Subset.refl _))
  obtain ⟨hearlier, hlater⟩ := along_append.mp halong
  have hstart : Kept keccak256 keys Ledger.start :=
    ⟨Valid.start keccak256, fun _ he => absurd he List.not_mem_nil⟩
  have hbefore : Kept keccak256 keys (Ledger.after keccak256 fhe earlier) :=
    hstart.run hfhe hfree hearlier
  have hafter : Kept keccak256 keys (Ledger.after keccak256 fhe (earlier ++ later)) :=
    hstart.run hfhe hfree halong
  have hrun : Ledger.after keccak256 fhe (earlier ++ later) =
      later.foldl (Fhe.record keccak256 fhe) (Ledger.after keccak256 fhe earlier) := by
    rw [Ledger.after, List.foldl_append, Ledger.after]
  have hlawful : ∀ d ∈ (Ledger.after keccak256 fhe earlier).log,
      Lawful keccak256 (Ledger.after keccak256 fhe earlier).storage
        (Ledger.after keccak256 fhe (earlier ++ later)).storage (keccak256 d.ct) := by
    intro d hd ct ctType hget
    have hlogged : d ∈ (Ledger.after keccak256 fhe (earlier ++ later)).log := by
      rw [hrun]
      exact log_subset_foldl keccak256 fhe later _ hd
    rw [hbefore.1.get hd (hbefore.2 d hd)] at hget
    obtain ⟨rfl, rfl⟩ := Prod.mk.inj (Option.some.inj hget)
    refine ⟨hafter.1.get hlogged (hafter.2 d hlogged), ?_, rfl, (hbefore.1.typed d hd).1⟩
    rw [getOwner, getOwner, hrun, hbefore.owner hfhe hfree hlater hd]
  refine ⟨fun handle hissued => ?_, fun hplain handle ct ctType hget => ?_⟩
  · obtain ⟨d, hd, rfl⟩ := issued_iff.mp hissued
    exact hlawful d hd
  · obtain ⟨d, hd, rfl⟩ := hbefore.1.issued_of_plain hplain hget
    exact hlawful d hd ct ctType hget

end Runs

/-- A boolean and its negation, stored by one account, keep their handles. -/
theorem handles_lawful_sample :
    issued sampleHash (Ledger.after sampleHash clearFhe [sampleAsEbool 1 1])
        (sampleHash (clearBytes [true])) = true ∧
      ∀ handle, Lawful sampleHash
        (Ledger.after sampleHash clearFhe [sampleAsEbool 1 1]).storage
        (Ledger.after sampleHash clearFhe
          ([sampleAsEbool 1 1] ++ [sampleNot 1 (sampleHash (clearBytes [true]))])).storage
        handle := by
  have hlawful := @handles_lawful _ _ sampleHash clearFhe clearFhe_widths
    [sampleAsEbool 1 1] [sampleNot 1 (sampleHash (clearBytes [true]))] (by decide +kernel)
    (by decide +kernel) ⟨by decide +kernel, by decide +kernel, trivial⟩
  exact ⟨by decide, hlawful.2 (by decide)⟩

/-- A ciphertext of four bits is stored with thirty-two, and a stranger who submits its
bytes again under another type changes the type of its handle. -/
theorem handle_changes_type :
    ¬ ∀ earlier later : List Call,
      NoCollisions sampleHash
        ((Ledger.after sampleHash clearFhe (earlier ++ later)).hashed sampleHash) →
      (∀ d ∈ (Ledger.after sampleHash clearFhe (earlier ++ later)).log, d.ct.length < 2 ^ 32) →
      ∀ handle, issued sampleHash (Ledger.after sampleHash clearFhe earlier) handle = true →
        Lawful sampleHash (Ledger.after sampleHash clearFhe earlier).storage
          (Ledger.after sampleHash clearFhe (earlier ++ later)).storage handle := by
  intro h
  have hlawful := h [sampleAsEuint4 1 9] [sampleVerify 2 typeEuint32 (clearBytes (lowBits 32 9))]
    (by decide +kernel) (by decide +kernel) (sampleHash (clearBytes (lowBits 32 9)))
    (by decide +kernel) (clearBytes (lowBits 32 9)) typeEuint4 (by decide +kernel)
  exact absurd hlawful.1 (by decide +kernel)

end LuxPrecompile.Fhe
