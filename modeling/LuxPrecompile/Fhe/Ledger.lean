import LuxPrecompile.Fhe.Slots

/-!
# Runs of the FHE precompile

The calls of a run are recorded with what they stored: the encoding, its type, the
operation it came from and the storage the operation read.
-/

namespace LuxPrecompile.Fhe

open Evm Support

/-- An encoding that a call stored, with the storage it was computed in. -/
structure Derivation where
  before : Storage
  caller : Address
  operation : Operation
  ct : List UInt8
  ctType : UInt8

section Runs

variable {BitCiphertext Ciphertext : Type} (keccak256 : List UInt8 → Word)
  (fhe : Library BitCiphertext Ciphertext)

/-- What a call stores, if it stores anything. -/
def derivation (st : Storage) (c : Call) : Option Derivation :=
  match c.admission with
  | .error _ => none
  | .ok (op, _) =>
      match op.result keccak256 fhe st c.caller with
      | none => none
      | some (ct, ctType) =>
          if keccak256 ct = 0 then none else some ⟨st, c.caller, op, ct, ctType⟩

theorem derivation_eq_some {st : Storage} {c : Call} {d : Derivation}
    (h : derivation keccak256 fhe st c = some d) :
    (∃ gas, c.admission = .ok (d.operation, gas)) ∧ d.before = st ∧ d.caller = c.caller ∧
      d.operation.result keccak256 fhe st c.caller = some (d.ct, d.ctType) ∧
      keccak256 d.ct ≠ 0 := by
  unfold derivation at h
  cases hadmitted : c.admission with
  | error failure => simp [hadmitted] at h
  | ok admitted =>
      obtain ⟨op, gas⟩ := admitted
      cases hresult : op.result keccak256 fhe st c.caller with
      | none => simp [hadmitted, hresult] at h
      | some result =>
          obtain ⟨ct, ctType⟩ := result
          simp only [hadmitted, hresult] at h
          split_ifs at h with hzero
          obtain rfl := Option.some.inj h
          exact ⟨⟨gas, rfl⟩, rfl, rfl, hresult, hzero⟩

/-- The two selectors that write nothing reach the two operations that store nothing. -/
theorem result_of_reader {c : Call} {op : Operation} {gas : UInt64}
    (hadmitted : c.admission = .ok (op, gas)) (hreader : writesState c.selector = false)
    (st : Storage) : op.result keccak256 fhe st c.caller = none := by
  have hdispatch : dispatch c.selector c.data c.gas = .ok (op, gas) := by
    unfold Call.admission at hadmitted
    split_ifs at hadmitted
    exact hadmitted
  have hselector : c.selector = selectorDecrypt ∨ c.selector = selectorSealOutput := by
    unfold writesState at hreader
    by_cases hdecrypt : c.selector = selectorDecrypt
    · exact .inl hdecrypt
    · right
      simpa [hdecrypt] using hreader
  cases hselector with
  | inl hdecrypt =>
      rw [hdecrypt] at hdispatch
      change handleDecrypt c.data c.gas = _ at hdispatch
      unfold handleDecrypt handler at hdispatch
      split_ifs at hdispatch
      rw [← (Prod.mk.inj (Except.ok.inj hdispatch)).1]
      rfl
  | inr hseal =>
      rw [hseal] at hdispatch
      change handleSealOutput c.data c.gas = _ at hdispatch
      unfold handleSealOutput handler at hdispatch
      split_ifs at hdispatch
      rw [← (Prod.mk.inj (Except.ok.inj hdispatch)).1]
      rfl

/-- An operation with a result stores it; without one it writes nothing. -/
theorem perform_of_result (op : Operation) (st : Storage) (caller : Address) :
    match op.result keccak256 fhe st caller with
    | none => (∃ e, op.perform keccak256 fhe st caller = .error e) ∨
        op.perform keccak256 fhe st caller = .ok (0, st)
    | some (ct, ctType) => op.perform keccak256 fhe st caller =
        .ok (storeCiphertextOwned keccak256 st ct ctType caller) := by
  cases hresult : op.result keccak256 fhe st caller with
  | none =>
      cases op with
      | decrypt handle => exact .inl ⟨_, rfl⟩
      | sealOutput handle => exact .inl ⟨_, rfl⟩
      | _ => exact .inr (by simp only [Operation.perform, hresult])
  | some result =>
      cases op with
      | decrypt handle => cases hresult
      | sealOutput handle => cases hresult
      | _ => simp only [Operation.perform, hresult]

/-- A call leaves the storage of what it stored, or the storage it found. -/
theorem run_storage (st : Storage) (c : Call) :
    (run keccak256 fhe st c).storage =
      match derivation keccak256 fhe st c with
      | none => st
      | some d => (storeCiphertextOwned keccak256 st d.ct d.ctType d.caller).2 := by
  unfold run derivation
  cases hadmitted : c.admission with
  | error failure => rfl
  | ok admitted =>
      obtain ⟨op, gas⟩ := admitted
      have hperform := perform_of_result keccak256 fhe op st c.caller
      cases hresult : op.result keccak256 fhe st c.caller with
      | none =>
          simp only [hresult] at hperform ⊢
          rcases hperform with ⟨e, he⟩ | hzero
          · rw [he]
          · rw [hzero]
            dsimp only
            split_ifs <;> rfl
      | some result =>
          have hwriter : writesState c.selector = true := by
            by_contra hreader
            have hnone := result_of_reader keccak256 fhe hadmitted
              (Bool.eq_false_of_not_eq_true hreader) st
            rw [hresult] at hnone
            cases hnone
          obtain ⟨ct, ctType⟩ := result
          simp only [hresult] at hperform ⊢
          rw [hperform]
          have hfailed : failedResult c.selector
              (storeCiphertextOwned keccak256 st ct ctType c.caller).1 =
                decide (keccak256 ct = 0) := by
            rw [failedResult, hwriter, Bool.true_and, storeCiphertextOwned_fst]
          by_cases hzero : keccak256 ct = 0
          · dsimp only
            rw [if_pos hzero, hfailed, if_pos (decide_eq_true hzero)]
          · dsimp only
            rw [if_neg hzero, hfailed, if_neg fun h => hzero (of_decide_eq_true h)]

/-- The storage of a run and the encodings stored in it, the last one first. -/
structure Ledger where
  storage : Storage
  log : List Derivation

/-- A run starts from an empty account. -/
def Ledger.start : Ledger := ⟨fun _ => 0, []⟩

/-- A call and its record. -/
def record (l : Ledger) (c : Call) : Ledger where
  storage := (run keccak256 fhe l.storage c).storage
  log :=
    match derivation keccak256 fhe l.storage c with
    | none => l.log
    | some d => d :: l.log

/-- A run of calls. -/
def Ledger.after (calls : List Call) : Ledger :=
  calls.foldl (record keccak256 fhe) Ledger.start

/-- What a recorded call does. -/
theorem record_cases (l : Ledger) (c : Call) :
    derivation keccak256 fhe l.storage c = none ∧ record keccak256 fhe l c = l ∨
      ∃ d, derivation keccak256 fhe l.storage c = some d ∧
        record keccak256 fhe l c =
          ⟨(storeCiphertextOwned keccak256 l.storage d.ct d.ctType d.caller).2, d :: l.log⟩ := by
  have hstorage := run_storage keccak256 fhe l.storage c
  cases hderivation : derivation keccak256 fhe l.storage c with
  | none =>
      rw [hderivation] at hstorage
      exact .inl ⟨rfl, by rw [record, hstorage, hderivation]⟩
  | some d =>
      rw [hderivation] at hstorage
      exact .inr ⟨d, rfl, by rw [record, hstorage, hderivation]⟩

theorem log_subset_record (l : Ledger) (c : Call) :
    l.log ⊆ (record keccak256 fhe l c).log := by
  rcases record_cases keccak256 fhe l c with ⟨-, hrecord⟩ | ⟨d, -, hrecord⟩
  · rw [hrecord]
    exact List.Subset.refl _
  · rw [hrecord]
    exact List.subset_cons_self _ _

theorem log_subset_foldl (calls : List Call) :
    ∀ l : Ledger, l.log ⊆ (calls.foldl (record keccak256 fhe) l).log := by
  induction calls with
  | nil => exact fun l => List.Subset.refl _
  | cons c calls ih =>
      exact fun l => List.Subset.trans (log_subset_record keccak256 fhe l c) (ih _)

/-! ## Hashing -/

/-- The strings hashed to store an encoding. -/
def storedKeys (ct : List UInt8) : List (List UInt8) :=
  ct :: ownerKey (keccak256 ct) ::
    (List.range (wordCount ct.length)).map (chunkKey (keccak256 ct))

/-- The strings hashed to look at a handle. -/
def readKeys (st : Storage) (handle : Word) : List (List UInt8) :=
  ownerKey handle :: (List.range (wordCount (metaLength (st handle)))).map (chunkKey handle)

/-- The strings a recorded call hashes. -/
def Derivation.hashed (d : Derivation) : List (List UInt8) :=
  storedKeys keccak256 d.ct ++ d.operation.operands.flatMap (readKeys d.before)

/-- The strings hashed in a run. -/
def Ledger.hashed (l : Ledger) : List (List UInt8) :=
  l.log.flatMap (Derivation.hashed keccak256)

end Runs

section Keys

variable {keccak256 : List UInt8 → Word} {keys : List (List UInt8)}

theorem Derivation.hashed_subset {l : Ledger} {d : Derivation} (hd : d ∈ l.log) :
    d.hashed keccak256 ⊆ l.hashed keccak256 := by
  intro p hp
  exact List.mem_flatMap.mpr ⟨d, hd, hp⟩

theorem storedKeys_subset (d : Derivation) :
    storedKeys keccak256 d.ct ⊆ d.hashed keccak256 := by
  intro p hp
  exact List.mem_append_left _ hp

theorem ct_mem_storedKeys (ct : List UInt8) : ct ∈ storedKeys keccak256 ct :=
  List.mem_cons_self

theorem ownerKey_mem_storedKeys (ct : List UInt8) :
    ownerKey (keccak256 ct) ∈ storedKeys keccak256 ct :=
  List.mem_cons_of_mem _ List.mem_cons_self

theorem chunkKey_mem_storedKeys {ct : List UInt8} {i : ℕ} (hi : i < wordCount ct.length) :
    chunkKey (keccak256 ct) i ∈ storedKeys keccak256 ct :=
  List.mem_cons_of_mem _ (List.mem_cons_of_mem _
    (List.mem_map_of_mem (List.mem_range.mpr hi)))

end Keys

/-! ## Sample calls -/

/-- A polynomial in the bytes, for sample runs. -/
def sampleHash (m : List UInt8) : Word :=
  BitVec.ofNat 256 (m.foldl (fun h b => (h * 257 + b.toNat + 1) % (2 ^ 256 - 189)) 0)

/-- A call with all the gas it needs. -/
def sampleCall (caller : Address) (selector data : List UInt8) : Call :=
  ⟨caller, selector ++ data, 4000000000, false⟩

def sampleAsEbool (caller : Address) (value : Word) : Call :=
  sampleCall caller [0x8c, 0x3f, 0x5a, 0x42] (hashBytes value)

def sampleAsEuint4 (caller : Address) (value : Word) : Call :=
  sampleCall caller [0x2d, 0xfa, 0x48, 0x63] (hashBytes value)

def sampleNot (caller : Address) (handle : Word) : Call :=
  sampleCall caller [0x6b, 0x3a, 0x00, 0x11] (hashBytes handle)

def sampleVerify (caller : Address) (ctType : UInt8) (ct : List UInt8) : Call :=
  sampleCall caller [0x45, 0xa9, 0x32, 0x18] (ctType :: ct)

end LuxPrecompile.Fhe
