import LuxPrecompile.Fhe.Ledger
import LuxPrecompile.Fhe.Widths

/-!
# Confinement

Decryption is gated by the owner of a handle, and a computing call makes its caller the
owner of what it computes.  In a run whose calls compute only with handles their callers
are authorised for, whoever is authorised for a handle built it in calls of its own.
-/

namespace LuxPrecompile.Fhe

open Evm Support

section Confinement

variable {BitCiphertext Ciphertext : Type} (keccak256 : List UInt8 → Word)
  (fhe : Library BitCiphertext Ciphertext)

/-- A handle that an account built: a call of the account stored its ciphertext, from
plaintexts and bytes of the call and from handles the account was authorised for then,
which the account built too. -/
inductive Built (log : List Derivation) (caller : Address) : Word → Prop
  | intro {handle : Word} (d : Derivation) (hd : d ∈ log) (hcaller : d.caller = caller)
      (hhandle : keccak256 d.ct = handle)
      (hauthorized : ∀ operand ∈ d.operation.operands,
        isAuthorized keccak256 d.before operand caller = true)
      (hbuilt : ∀ operand ∈ d.operation.operands, Built log caller operand) :
      Built log caller handle

/-- What a call stores, it computes from handles its caller is authorised for. -/
def Permitted (l : Ledger) (c : Call) : Prop :=
  ∀ d ∈ derivation keccak256 fhe l.storage c, ∀ operand ∈ d.operation.operands,
    isAuthorized keccak256 l.storage operand c.caller = true

end Confinement

/-- No encoding that the library writes declares more bits than the widest type has. -/
def Library.Bounded {BitCiphertext Ciphertext : Type} (fhe : Library BitCiphertext Ciphertext) :
    Prop :=
  ∀ ct data, fhe.marshalBinary ct = some data → declaredBits data ≤ maxCiphertextBits

/-! ## What is stored declares few bits -/

section Bounds

variable {BitCiphertext Ciphertext : Type} {fhe : Library BitCiphertext Ciphertext}

theorem declaredBits_of_wellFramed {data : List UInt8} (h : wellFramed data = true) :
    declaredBits data ≤ maxCiphertextBits := by
  unfold wellFramed at h
  split_ifs at h with hlength hbits
  exact Nat.not_lt.mp hbits

theorem tfheVerify_bounded {data : List UInt8} (h : tfheVerify fhe data = true) :
    declaredBits data ≤ maxCiphertextBits := by
  unfold tfheVerify deserializeBitCiphertext at h
  split_ifs at h with hframed
  · exact declaredBits_of_wellFramed hframed
  · cases h

/-- The encoding of some ciphertext of the library. -/
def Serialized (fhe : Library BitCiphertext Ciphertext) (data : List UInt8) : Prop :=
  ∃ ct, serializeBitCiphertext fhe ct = some data

theorem tfheArithmetic_serialized {op : Arithmetic} {lhs rhs data : List UInt8}
    (h : tfheArithmetic fhe op lhs rhs = some data) : Serialized fhe data := by
  simp only [tfheArithmetic, Option.bind_eq_bind, Option.bind_eq_some_iff] at h
  obtain ⟨_, _, result, _, hdata⟩ := h
  exact ⟨result, hdata⟩

theorem tfheComparison_serialized {op : Comparison} {lhs rhs data : List UInt8}
    (h : tfheComparison fhe op lhs rhs = some data) : Serialized fhe data := by
  simp only [tfheComparison, Option.bind_eq_bind, Option.bind_eq_some_iff] at h
  obtain ⟨_, _, result, _, hdata⟩ := h
  exact ⟨_, hdata⟩

theorem tfheNe_serialized {lhs rhs data : List UInt8} (h : tfheNe fhe lhs rhs = some data) :
    Serialized fhe data := by
  simp only [tfheNe, Option.bind_eq_bind, Option.bind_eq_some_iff] at h
  obtain ⟨_, _, lt, _, gt, _, result, _, hdata⟩ := h
  exact ⟨result, hdata⟩

theorem tfhePick_serialized {op : Comparison} {lhs rhs data : List UInt8}
    (h : tfhePick fhe op lhs rhs = some data) : Serialized fhe data := by
  simp only [tfhePick, Option.bind_eq_bind, Option.bind_eq_some_iff] at h
  obtain ⟨_, _, picked, _, result, _, hdata⟩ := h
  exact ⟨result, hdata⟩

theorem tfheUnary_serialized {method : BitCiphertext → Option BitCiphertext}
    {ct data : List UInt8} (h : tfheUnary fhe method ct = some data) : Serialized fhe data := by
  simp only [tfheUnary, Option.bind_eq_bind, Option.bind_eq_some_iff] at h
  obtain ⟨-, -, ctIn, -, result, -, hdata⟩ := h
  exact ⟨result, hdata⟩

theorem tfheSelect_serialized {control ifTrue ifFalse data : List UInt8}
    (h : tfheSelect fhe control ifTrue ifFalse = some data) : Serialized fhe data := by
  simp only [tfheSelect, Option.bind_eq_bind, Option.bind_eq_some_iff] at h
  obtain ⟨-, -, bit, -, ctTrue, -, ctFalse, -, result, -, hdata⟩ := h
  exact ⟨result, hdata⟩

theorem tfheEncrypted_serialized {op : Arithmetic} {ct data : List UInt8} {scalar : UInt64}
    {fheType : UInt8} (h : tfheEncrypted fhe op ct scalar fheType = some data) :
    Serialized fhe data := by
  simp only [tfheEncrypted, Option.bind_eq_bind, Option.bind_eq_some_iff] at h
  obtain ⟨ctIn, -, ctScalar, -, result, -, hdata⟩ := h
  exact ⟨result, hdata⟩

theorem BinaryOp.evaluate_serialized {op : BinaryOp} {lhs rhs data : List UInt8}
    (h : op.evaluate fhe lhs rhs = some data) : Serialized fhe data := by
  cases op with
  | arithmetic op => cases op <;> exact tfheArithmetic_serialized h
  | comparison op => cases op <;> exact tfheComparison_serialized h
  | ne => exact tfheNe_serialized h
  | min => exact tfhePick_serialized h
  | max => exact tfhePick_serialized h

/-- A scalar operation writes an encoding or gives its operand back. -/
theorem ScalarOp.evaluate_serialized {op : ScalarOp} {ct data : List UInt8} {s : UInt64}
    {ctType : UInt8} (h : op.evaluate fhe ct s ctType = some data) :
    Serialized fhe data ∨ data = ct := by
  cases op with
  | add => exact .inl (tfheUnary_serialized h)
  | sub => exact .inl (tfheUnary_serialized h)
  | mul => exact .inl (tfheUnary_serialized h)
  | div =>
      simp only [ScalarOp.evaluate, tfheScalarDiv, tfheMaxValue, Option.bind_eq_bind,
        Option.bind_eq_some_iff] at h
      obtain ⟨-, -, -, -, hdata⟩ := h
      left
      split_ifs at hdata
      · simp only [Option.bind_eq_some_iff] at hdata
        obtain ⟨-, -, hdata⟩ := hdata
        exact ⟨_, hdata⟩
      · exact tfheEncrypted_serialized hdata
  | rem =>
      simp only [ScalarOp.evaluate, tfheScalarRem, Option.bind_eq_bind,
        Option.bind_eq_some_iff] at h
      obtain ⟨-, -, -, -, hdata⟩ := h
      split_ifs at hdata
      · exact .inr (Option.some.inj hdata).symm
      · exact .inl (tfheEncrypted_serialized hdata)

variable {keccak256 : List UInt8 → Word} {st : Storage}

/-- What an operation stores declares few bits, if what it gives back does. -/
theorem Operation.result_bounded (hfhe : fhe.Bounded) {caller : Address} {op : Operation}
    {result : List UInt8 × UInt8} (h : op.result keccak256 fhe st caller = some result)
    (hoperands : ∀ handle ∈ op.operands, ∀ r, getCiphertext keccak256 st handle = some r →
      declaredBits r.1 ≤ maxCiphertextBits) :
    declaredBits result.1 ≤ maxCiphertextBits := by
  have hserialized : ∀ data, Serialized fhe data → declaredBits data ≤ maxCiphertextBits :=
    fun data hdata => hdata.elim fun ct hct => hfhe ct data hct
  cases op with
  | binary op handle1 handle2 =>
      simp only [Operation.result, fheOperation, Option.bind_eq_bind,
        Option.bind_eq_some_iff] at h
      obtain ⟨_, _, _, _, data, hdata, hresult⟩ := h
      obtain rfl := Option.some.inj hresult
      exact hserialized data (op.evaluate_serialized hdata)
  | select condition ifTrue ifFalse =>
      simp only [Operation.result, fheSelect, Option.bind_eq_bind, Option.bind_eq_some_iff] at h
      obtain ⟨_, _, _, _, _, _, data, hdata, hresult⟩ := h
      obtain rfl := Option.some.inj hresult
      exact hserialized data (tfheSelect_serialized hdata)
  | unary op handle =>
      simp only [Operation.result, fheUnaryOperation, Option.bind_eq_bind,
        Option.bind_eq_some_iff] at h
      obtain ⟨_, _, data, hdata, hresult⟩ := h
      obtain rfl := Option.some.inj hresult
      cases op <;> exact hserialized data (tfheUnary_serialized hdata)
  | scalar op handle value =>
      simp only [Operation.result, fheScalarOperation, Option.bind_eq_bind,
        Option.bind_eq_some_iff] at h
      obtain ⟨r, hr, s, _, data, hdata, hresult⟩ := h
      obtain rfl := Option.some.inj hresult
      rcases op.evaluate_serialized hdata with hwritten | hsame
      · exact hserialized data hwritten
      · exact hsame ▸ hoperands handle (by simp [operands]) r hr
  | shift op handle amount =>
      simp only [Operation.result, fheShiftOperation, Option.bind_eq_bind,
        Option.bind_eq_some_iff] at h
      obtain ⟨_, _, data, hdata, hresult⟩ := h
      obtain rfl := Option.some.inj hresult
      cases op <;> exact hserialized data (tfheUnary_serialized hdata)
  | cast handle toType =>
      simp only [Operation.result, fheCast, Option.bind_eq_bind, Option.bind_eq_some_iff] at h
      obtain ⟨_, _, data, hdata, hresult⟩ := h
      obtain rfl := Option.some.inj hresult
      exact hserialized data (tfheUnary_serialized hdata)
  | encrypt value ctType =>
      simp only [Operation.result, encryptValue, tfheTrivialEncrypt, Option.bind_eq_bind,
        Option.bind_eq_some_iff] at h
      obtain ⟨data, ⟨_, _, _, _, ct, _, hdata⟩, hresult⟩ := h
      obtain rfl := Option.some.inj hresult
      exact hserialized data ⟨ct, hdata⟩
  | random ctType =>
      simp only [Operation.result, generateEncryptedRandom, tfheRandom, Option.bind_eq_bind,
        Option.bind_eq_some_iff] at h
      obtain ⟨data, ⟨_, _, ct, _, hdata⟩, hresult⟩ := h
      obtain rfl := Option.some.inj hresult
      exact hserialized data ⟨ct, hdata⟩
  | verify ct ctType =>
      simp only [Operation.result, fheVerify] at h
      split_ifs at h with hverify
      obtain rfl := Option.some.inj h
      exact tfheVerify_bounded hverify
  | decrypt handle => cases h
  | sealOutput handle => cases h

end Bounds

/-! ## First chunks

A handle's first chunk may be overwritten by the metadata of an encoding that reads as
its key, but what it holds never declares more bits than an encoding does. -/

theorem littleEndian_take_le (bs : List UInt8) (k : ℕ) :
    littleEndian (bs.take k) ≤ littleEndian bs := by
  have happend : bs.reverse = (bs.drop k).reverse ++ (bs.take k).reverse := by
    rw [← List.reverse_append, List.take_append_drop]
  rw [littleEndian, littleEndian, happend, bytesToNat_append]
  exact Nat.le_add_left _ _

theorem littleEndian_append_zeros (bs : List UInt8) (k : ℕ) :
    littleEndian (bs ++ List.replicate k 0) = littleEndian bs := by
  rw [littleEndian, List.reverse_append, List.reverse_replicate, bytesToNat_append,
    bytesToNat_replicate_zero, Nat.zero_mul, Nat.zero_add, littleEndian]

/-- A word that declares few bits where an encoding would. -/
def FirstBounded (w : Word) : Prop := littleEndian (wordSlice w 0 4) ≤ maxCiphertextBits

theorem firstBounded_zero : FirstBounded 0 := by
  unfold FirstBounded
  decide

theorem firstBounded_chunkWord {ct : List UInt8} (h : declaredBits ct ≤ maxCiphertextBits) :
    FirstBounded (chunkWord ct 0) := by
  have hfirst : slice (slice ct 0 32) 0 4 = slice ct 0 4 := by
    simp [slice, List.take_take]
  have hlength : (slice ct 0 32).length ≤ 32 := by
    simp [slice]
  rw [FirstBounded, chunkWord, wordSlice, hashBytes_packWord hlength]
  generalize 32 - (slice ct (32 * 0) (32 * 0 + 32)).length = k
  have hzeros : ∃ j, slice (slice ct 0 32 ++ List.replicate k (0 : UInt8)) 0 4 =
      slice ct 0 4 ++ List.replicate j 0 := by
    rw [← hfirst]
    simp only [slice, List.drop_zero, Nat.sub_zero, List.take_append, List.take_replicate]
    exact ⟨_, rfl⟩
  obtain ⟨j, hj⟩ := hzeros
  change littleEndian (slice (slice ct 0 32 ++ List.replicate k (0 : UInt8)) 0 4) ≤ _
  rw [hj, littleEndian_append_zeros]
  exact h

theorem firstBounded_metaWord {ct : List UInt8} (ctType : UInt8) (h : ct.length = 64) :
    FirstBounded (metaWord ct ctType) := by
  have hslice : wordSlice (metaWord ct ctType) 0 4 = [ctType, 0, 0, 0] := by
    rw [metaWord, wordSlice_packWord (by simp) (by simp), h]
    rfl
  have hvalue : littleEndian [ctType, 0, 0, 0] = ctType.toNat := by
    simp [littleEndian, bytesToNat]
  rw [FirstBounded, hslice, hvalue]
  exact le_of_lt (lt_of_lt_of_eq ctType.toNat_lt rfl)

section Reads

variable {keccak256 : List UInt8 → Word}

theorem take_readChunks (st : Storage) (handle : Word) (length : ℕ) :
    (readChunks keccak256 st handle length).take 4 =
      ((hashBytes (st (chunkSlot keccak256 handle 0))).take 4).take length := by
  rcases Nat.eq_zero_or_pos length with rfl | hpos
  · rw [List.take_zero]
    rfl
  · obtain ⟨n, hn⟩ : ∃ n, wordCount length = n + 1 := ⟨wordCount length - 1, by
      unfold wordCount
      omega⟩
    rw [readChunks, hn, List.range_succ_eq_map, List.flatMap_cons, Nat.mul_zero, Nat.sub_zero,
      List.take_append, List.length_take, hashBytes_length, List.take_take, List.take_take,
      min_comm]
    by_cases hshort : length < 4
    · have hone : n = 0 := by
        unfold wordCount at hn
        omega
      rw [hone]
      simp
    · rw [show 4 - min length 32 = 0 by omega, List.take_zero, List.append_nil]

theorem declaredBits_get_le {st : Storage} {handle : Word} {r : List UInt8 × UInt8}
    (h : getCiphertext keccak256 st handle = some r)
    (hfirst : FirstBounded (st (chunkSlot keccak256 handle 0))) :
    declaredBits r.1 ≤ maxCiphertextBits := by
  simp only [getCiphertext] at h
  split_ifs at h
  obtain rfl := Option.some.inj h
  have hslice : slice (readChunks keccak256 st handle (metaLength (st handle))) 0 4 =
      (wordSlice (st (chunkSlot keccak256 handle 0)) 0 4).take (metaLength (st handle)) := by
    simpa [slice, wordSlice] using take_readChunks st handle (metaLength (st handle))
  rw [declaredBits, hslice]
  exact (littleEndian_take_le _ _).trans hfirst

end Reads

/-! ## The invariant -/

section Steps

variable {keccak256 : List UInt8 → Word}

theorem Built.mono {log : List Derivation} (d : Derivation) {caller : Address} {handle : Word}
    (h : Built keccak256 log caller handle) : Built keccak256 (d :: log) caller handle := by
  induction h with
  | intro e he hcaller hhandle hauthorized _ ih =>
      exact .intro e (List.mem_cons_of_mem _ he) hcaller hhandle hauthorized ih

/-- Every authorised handle whose owner's slot is among the hashed strings was built, and
every first chunk among them declares few bits. -/
structure Confined (keccak256 : List UInt8 → Word) (keys : List (List UInt8)) (l : Ledger) :
    Prop where
  first : ∀ handle, chunkKey handle 0 ∈ keys →
    FirstBounded (l.storage (chunkSlot keccak256 handle 0))
  built : ∀ handle, ownerKey handle ∈ keys → ∀ caller,
    isAuthorized keccak256 l.storage handle caller = true →
      Built keccak256 l.log caller handle

theorem Confined.start (keys : List (List UInt8)) : Confined keccak256 keys Ledger.start where
  first := fun _ _ => firstBounded_zero
  built := fun _ _ _ h => absurd h Bool.false_ne_true

/-- A recorded call whose strings are among those hashed; a slice has an `int` length. -/
structure Located (keccak256 : List UInt8 → Word) (keys : List (List UInt8))
    (d : Derivation) : Prop where
  keys : d.hashed keccak256 ⊆ keys
  small : d.ct.length < 2 ^ 63

theorem Located.stored {keys : List (List UInt8)} {d : Derivation}
    (h : Located keccak256 keys d) {p : List UInt8} (hp : p ∈ storedKeys keccak256 d.ct) :
    p ∈ keys := h.keys (storedKeys_subset d hp)

theorem Located.read {keys : List (List UInt8)} {d : Derivation}
    (h : Located keccak256 keys d) {operand : Word} (ho : operand ∈ d.operation.operands)
    {p : List UInt8} (hp : p ∈ readKeys d.before operand) : p ∈ keys :=
  h.keys (List.mem_append_right _ (List.mem_flatMap.mpr ⟨operand, ho, hp⟩))

theorem Located.index_lt {keys : List (List UInt8)} {d : Derivation}
    (h : Located keccak256 keys d) {i : ℕ} (hi : i < wordCount d.ct.length) : i < 2 ^ 256 := by
  have hsmall := h.small
  have hlt : i < 2 ^ 63 := by
    unfold wordCount at hi
    omega
  exact hlt.trans (by norm_num)

variable {keys : List (List UInt8)} (hfree : NoCollisions keccak256 keys)

include hfree

/-- A store leaves a first chunk that declares few bits. -/
theorem store_firstBounded {st : Storage} {d : Derivation} (hd : Located keccak256 keys d)
    (hbounded : declaredBits d.ct ≤ maxCiphertextBits) {handle : Word}
    (hkey : chunkKey handle 0 ∈ keys)
    (hst : FirstBounded (st (chunkSlot keccak256 handle 0))) :
    FirstBounded ((storeCiphertextOwned keccak256 st d.ct d.ctType d.caller).2
      (chunkSlot keccak256 handle 0)) := by
  have howner : chunkSlot keccak256 handle 0 ≠ ownerSlot keccak256 (keccak256 d.ct) := fun hc =>
    chunkKey_ne_ownerKey _ _ _ (hfree _ hkey _ (hd.stored (ownerKey_mem_storedKeys _)) hc)
  rw [storeCiphertextOwned_of_ne _ _ _ howner]
  by_cases hchunk : ∃ i < wordCount d.ct.length,
      chunkSlot keccak256 handle 0 = chunkSlot keccak256 (keccak256 d.ct) i
  · obtain ⟨i, hi, hslot⟩ := hchunk
    obtain ⟨rfl, rfl⟩ := chunkKey_inj (by norm_num) (hd.index_lt hi)
      (hfree _ hkey _ (hd.stored (chunkKey_mem_storedKeys hi)) hslot)
    have hword : (storeCiphertext keccak256 st d.ct d.ctType).2
        (chunkSlot keccak256 (keccak256 d.ct) 0) = chunkWord d.ct 0 :=
      Store.foldl_set_self _ _ _ (fun i hi j hj heq =>
        (chunkKey_inj (hd.index_lt hi) (hd.index_lt hj)
          (hfree _ (hd.stored (chunkKey_mem_storedKeys hi)) _
            (hd.stored (chunkKey_mem_storedKeys hj)) heq)).2) hi
    rw [hword]
    exact firstBounded_chunkWord hbounded
  · have hne : ∀ i < wordCount d.ct.length,
        chunkSlot keccak256 handle 0 ≠ chunkSlot keccak256 (keccak256 d.ct) i :=
      fun i hi hc => hchunk ⟨i, hi, hc⟩
    by_cases hhandle : chunkSlot keccak256 handle 0 = keccak256 d.ct
    · have hct := hfree _ hkey _ (hd.stored (ct_mem_storedKeys _)) hhandle
      have hword : (storeCiphertext keccak256 st d.ct d.ctType).2
          (chunkSlot keccak256 handle 0) = metaWord d.ct d.ctType := by
        refine (Store.foldl_set_of_ne _ _ _ _ hne).trans ?_
        rw [hhandle, Store.set_self]
      rw [hword]
      exact firstBounded_metaWord _ (by rw [← hct, chunkKey_length])
    · rw [storeCiphertext_of_ne _ _ hhandle hne]
      exact hst

/-- A store changes no owner's slot but the encoding's, and that only when it is empty. -/
theorem store_ownerSlot (st : Storage) {d : Derivation} (hd : Located keccak256 keys d)
    (hbounded : declaredBits d.ct ≤ maxCiphertextBits) (hzero : keccak256 d.ct ≠ 0)
    {handle : Word} (hkey : ownerKey handle ∈ keys) :
    (storeCiphertextOwned keccak256 st d.ct d.ctType d.caller).2 (ownerSlot keccak256 handle) =
        st (ownerSlot keccak256 handle) ∨
      handle = keccak256 d.ct ∧
        (storeCiphertextOwned keccak256 st d.ct d.ctType d.caller).2
          (ownerSlot keccak256 handle) = addressWord d.caller := by
  have hct : ownerSlot keccak256 handle ≠ keccak256 d.ct := fun hc => by
    have hwide := declaredBits_ownerKey handle
    rw [hfree _ hkey _ (hd.stored (ct_mem_storedKeys _)) hc] at hwide
    exact absurd hbounded (Nat.not_le.mpr hwide)
  have hstored : (storeCiphertext keccak256 st d.ct d.ctType).2 (ownerSlot keccak256 handle) =
      st (ownerSlot keccak256 handle) :=
    storeCiphertext_of_ne _ _ hct fun i hi hc => chunkKey_ne_ownerKey _ _ _
      (hfree _ (hd.stored (chunkKey_mem_storedKeys hi)) _ hkey hc.symm)
  by_cases hslot : ownerSlot keccak256 handle = ownerSlot keccak256 (keccak256 d.ct)
  · have hhandle : handle = keccak256 d.ct :=
      ownerKey_inj (hfree _ hkey _ (hd.stored (ownerKey_mem_storedKeys _)) hslot)
    subst hhandle
    rw [storeCiphertextOwned_owner _ _ _ hzero]
    by_cases hempty : st (ownerSlot keccak256 (keccak256 d.ct)) = 0
    · exact .inr ⟨rfl, setOwner_of_free _ _ (hstored.trans hempty)⟩
    · left
      rw [setOwner_of_owned _ _ (hstored ▸ hempty), hstored]
  · left
    rw [storeCiphertextOwned_of_ne _ _ _ hslot, hstored]

end Steps

/-! ## Runs -/

section Runs

variable {BitCiphertext Ciphertext : Type} {keccak256 : List UInt8 → Word}
  {fhe : Library BitCiphertext Ciphertext} {keys : List (List UInt8)}

/-- The strings that a call's encoding and operands take are hashed in the run. -/
def Recorded (keccak256 : List UInt8 → Word) (fhe : Library BitCiphertext Ciphertext)
    (keys : List (List UInt8)) (l : Ledger) (c : Call) : Prop :=
  ∀ d, derivation keccak256 fhe l.storage c = some d → Located keccak256 keys d

theorem derivation_bounded (hfhe : fhe.Bounded) {l : Ledger} (hl : Confined keccak256 keys l)
    {c : Call} {d : Derivation} (hd : derivation keccak256 fhe l.storage c = some d)
    (hlocated : Located keccak256 keys d) : declaredBits d.ct ≤ maxCiphertextBits := by
  obtain ⟨-, hbefore, -, hresult, -⟩ := derivation_eq_some keccak256 fhe hd
  refine Operation.result_bounded hfhe hresult fun handle hhandle r hr => ?_
  have hlength := (getCiphertext_eq_some hr).2
  have hchunk : 0 < wordCount (metaLength (l.storage handle)) := by
    unfold wordCount
    omega
  refine declaredBits_get_le hr (hl.first handle (hlocated.read hhandle ?_))
  rw [hbefore]
  exact List.mem_cons_of_mem _ (List.mem_map_of_mem (List.mem_range.mpr hchunk))

/-- One permitted call keeps a run confined. -/
theorem Confined.record (hfhe : fhe.Bounded) (hfree : NoCollisions keccak256 keys) {l : Ledger}
    {c : Call} (hl : Confined keccak256 keys l) (hpermitted : Permitted keccak256 fhe l c)
    (hrecorded : Recorded keccak256 fhe keys l c) :
    Confined keccak256 keys (Fhe.record keccak256 fhe l c) := by
  rcases record_cases keccak256 fhe l c with ⟨-, hrecord⟩ | ⟨d, hd, hrecord⟩
  · rw [hrecord]
    exact hl
  · rw [hrecord]
    have hlocated := hrecorded d hd
    have hbounded := derivation_bounded hfhe hl hd hlocated
    obtain ⟨-, hbefore, hcaller, -, hzero⟩ := derivation_eq_some keccak256 fhe hd
    have hauthorized := hpermitted d hd
    constructor
    · exact fun handle hkey => store_firstBounded hfree hlocated hbounded hkey
        (hl.first handle hkey)
    · intro handle hkey caller hauth
      dsimp only at hauth
      rcases store_ownerSlot hfree l.storage hlocated hbounded hzero hkey with
        hslot | ⟨rfl, hslot⟩
      · refine Built.mono d (hl.built handle hkey caller ?_)
        rwa [isAuthorized, getOwner, hslot] at hauth
      · have hown : caller = c.caller := by
          obtain ⟨howner, -⟩ := isAuthorized_iff.mp hauth
          rw [getOwner, hslot, wordAddress_addressWord] at howner
          rw [← howner, hcaller]
        subst hown
        refine .intro d List.mem_cons_self hcaller rfl
          (fun operand ho => hbefore ▸ hauthorized operand ho) fun operand ho => ?_
        exact (hl.built operand (hlocated.read ho List.mem_cons_self) _
          (hauthorized operand ho)).mono d

theorem along_recorded {log : List Derivation} (hlog : ∀ d ∈ log, Located keccak256 keys d)
    (calls : List Call) :
    ∀ l : Ledger, (calls.foldl (Fhe.record keccak256 fhe) l).log ⊆ log →
      Along (Fhe.record keccak256 fhe) (Recorded keccak256 fhe keys) l calls := by
  induction calls with
  | nil => exact fun _ _ => trivial
  | cons c calls ih =>
      intro l hsub
      refine ⟨fun d hd => hlog d (hsub (log_subset_foldl keccak256 fhe calls _ ?_)),
        ih _ hsub⟩
      rw [Fhe.record, hd]
      exact List.mem_cons_self

/-- In a run of permitted calls whose hashes do not collide, whoever is authorised for a
handle built it in calls of its own, from handles it was authorised for. -/
theorem authorized_built (hfhe : fhe.Bounded) (calls : List Call) (handle : Word)
    (hfree : NoCollisions keccak256
      (ownerKey handle :: (Ledger.after keccak256 fhe calls).hashed keccak256))
    (hsmall : ∀ d ∈ (Ledger.after keccak256 fhe calls).log, d.ct.length < 2 ^ 63)
    (hpermitted : Along (Fhe.record keccak256 fhe) (Permitted keccak256 fhe) Ledger.start calls)
    (caller : Address)
    (hauth : isAuthorized keccak256 (Ledger.after keccak256 fhe calls).storage handle caller =
      true) :
    Built keccak256 (Ledger.after keccak256 fhe calls).log caller handle := by
  generalize hkeys : ownerKey handle :: (Ledger.after keccak256 fhe calls).hashed keccak256 =
    keys at hfree
  have hlocated : ∀ d ∈ (Ledger.after keccak256 fhe calls).log, Located keccak256 keys d :=
    fun d hd => ⟨hkeys ▸ List.Subset.trans (Derivation.hashed_subset hd)
      (List.subset_cons_self _ _), hsmall d hd⟩
  have halong := hpermitted.and (along_recorded hlocated calls _ (List.Subset.refl _))
  have hconfined : Confined keccak256 keys (Ledger.after keccak256 fhe calls) :=
    Along.invariant (I := Confined keccak256 keys)
      (fun _ _ hl h => hl.record hfhe hfree h.1 h.2) calls (Confined.start keys) halong
  exact hconfined.built handle (hkeys ▸ List.mem_cons_self) caller hauth

theorem permitted_of_admitted {l : Ledger} {c : Call} {op : Operation} {gas : UInt64}
    (hadmitted : c.admission = .ok (op, gas))
    (hauthorized : ∀ operand ∈ op.operands,
      isAuthorized keccak256 l.storage operand c.caller = true) :
    Permitted keccak256 fhe l c := by
  intro d hd operand ho
  obtain ⟨⟨left, hadmitted'⟩, -⟩ := derivation_eq_some keccak256 fhe hd
  obtain ⟨rfl, -⟩ := Prod.mk.inj (Except.ok.inj (hadmitted.symm.trans hadmitted'))
  exact hauthorized operand ho

theorem Built.last {log : List Derivation} {caller : Address} {handle : Word}
    (h : Built keccak256 log caller handle) :
    ∃ d ∈ log, d.caller = caller ∧ keccak256 d.ct = handle ∧
      ∀ operand ∈ d.operation.operands,
        isAuthorized keccak256 d.before operand caller = true := by
  cases h with
  | intro d hd hcaller hhandle hauthorized _ => exact ⟨d, hd, hcaller, hhandle, hauthorized⟩

end Runs

theorem clearFhe_bounded : clearFhe.Bounded := by
  intro bits data h
  simp only [clearFhe] at h
  split_ifs at h with hlength
  rw [← Option.some.inj h, declaredBits_clearBytes hlength]
  exact hlength

/-- An account that encrypts a boolean and negates it built the negation. -/
theorem authorized_built_sample :
    Built sampleHash
      (Ledger.after sampleHash clearFhe
        [sampleAsEbool 1 1, sampleNot 1 (sampleHash (clearBytes [true]))]).log 1
      (sampleHash (clearBytes [false])) := by
  have hencrypt : (sampleAsEbool 1 1).admission =
      .ok (.encrypt 1 typeEbool, 4000000000 - gasEncrypt) := by
    decide
  have hnot : (sampleNot 1 (sampleHash (clearBytes [true]))).admission =
      .ok (.unary .not (sampleHash (clearBytes [true])), 4000000000 - gasNot) := by
    decide +kernel
  have hpermitted : Along (record sampleHash clearFhe) (Permitted sampleHash clearFhe)
      Ledger.start [sampleAsEbool 1 1, sampleNot 1 (sampleHash (clearBytes [true]))] :=
    ⟨permitted_of_admitted hencrypt fun _ ho => absurd ho List.not_mem_nil,
      permitted_of_admitted hnot (List.forall_mem_singleton.mpr (by decide +kernel)), trivial⟩
  exact authorized_built clearFhe_bounded _ _ (by decide +kernel) (by decide +kernel)
    hpermitted 1 (by decide +kernel)

/-- A stranger negates the ciphertext of another account and is authorised for the result,
which it did not build. -/
theorem stranger_authorized :
    ¬ ∀ (calls : List Call) (handle : Word),
      NoCollisions sampleHash
        (ownerKey handle :: (Ledger.after sampleHash clearFhe calls).hashed sampleHash) →
      (∀ d ∈ (Ledger.after sampleHash clearFhe calls).log, d.ct.length < 2 ^ 63) →
      ∀ caller : Address, isAuthorized sampleHash
          (Ledger.after sampleHash clearFhe calls).storage handle caller = true →
        Built sampleHash (Ledger.after sampleHash clearFhe calls).log caller handle := by
  intro h
  have hbuilt := h [sampleAsEbool 1 1, sampleNot 2 (sampleHash (clearBytes [true]))]
    (sampleHash (clearBytes [false])) (by decide +kernel) (by decide +kernel) 2
    (by decide +kernel)
  have hlast : ((Ledger.after sampleHash clearFhe
      [sampleAsEbool 1 1, sampleNot 2 (sampleHash (clearBytes [true]))]).log.any fun d =>
        d.caller == 2 && d.operation.operands.all fun operand =>
          isAuthorized sampleHash d.before operand 2) = false := by
    decide +kernel
  obtain ⟨d, hd, hcaller, -, hauthorized⟩ := hbuilt.last
  have hnone := List.any_eq_false.mp hlast d hd
  exact hnone (by
    rw [hcaller, Bool.and_eq_true, List.all_eq_true]
    exact ⟨rfl, hauthorized⟩)

end LuxPrecompile.Fhe
