import LuxPrecompile.Fhe.Checked
import LuxPrecompile.Fhe.Ledger
import LuxPrecompile.Fhe.Widths

/-!
# Calls that panic

No handler of `fhe/contract.go` reads outside its arguments, and no operation but the two
rotations panics: these do on an encoding that declares no bits, which `verify` accepts.  A run
of calls returns from each of them exactly when none rotates such an encoding.
-/

namespace LuxPrecompile.Fhe

open Evm Support

namespace Checked

open Support.Checked

/-! ## What the handlers read -/

/-- The slices of its arguments that the handler of an operation reads. -/
def reads (data : List UInt8) : Operation → List (ℕ × ℕ)
  | .binary _ _ _ => [(0, 32), (32, 64)]
  | .select _ _ _ => [(0, 32), (32, 64), (64, 96)]
  | .unary _ _ => [(0, 32)]
  | .scalar _ _ _ => [(0, 32), (32, 64)]
  | .shift _ _ _ => [(0, 32), (32, 33)]
  | .cast _ _ => [(0, 32), (32, 33)]
  | .encrypt _ _ => [(0, 32)]
  | .random _ => [(0, 1)]
  | .verify _ _ => [(0, 1), (1, data.length)]
  | .decrypt _ => [(0, 32)]
  | .sealOutput _ => [(0, 32)]

/-- The slices lie inside the data. -/
def Inside (data : List UInt8) (slices : List (ℕ × ℕ)) : Prop :=
  ∀ s ∈ slices, s.1 ≤ s.2 ∧ s.2 ≤ data.length

instance (data : List UInt8) (slices : List (ℕ × ℕ)) : Decidable (Inside data slices) :=
  inferInstanceAs (Decidable (∀ s ∈ slices, s.1 ≤ s.2 ∧ s.2 ≤ data.length))

/-- A handler that reads inside its arguments. -/
def ReadsInside (handle : Handler) : Prop :=
  ∀ data gas op gas', handle data gas = .ok (op, gas') → Inside data (reads data op)

theorem handler_eq_ok {size : ℕ} {cost gas gas' : UInt64} {data : List UInt8}
    {op op' : Operation} (h : handler size cost data gas op = .ok (op', gas')) :
    size ≤ data.length ∧ op' = op := by
  rw [handler, refuse_eq_ok, refuse_eq_ok] at h
  obtain ⟨hlength, -, h⟩ := h
  exact ⟨not_lt.mp hlength, (Prod.mk.inj (Except.ok.inj h)).1.symm⟩

theorem readsInside_handler {size : ℕ} {cost : List UInt8 → UInt64}
    {op : List UInt8 → Operation}
    (hreads : ∀ data, ∀ s ∈ reads data (op data), s.1 ≤ s.2 ∧ s.2 ≤ size) :
    ReadsInside fun data gas => handler size (cost data) data gas (op data) := by
  intro data gas op' gas' h
  obtain ⟨hle, rfl⟩ := handler_eq_ok h
  exact fun s hs => ⟨(hreads data s hs).1, (hreads data s hs).2.trans hle⟩

theorem readsInside_binary (op : BinaryOp) (cost : UInt64) :
    ReadsInside (handleBinary op cost) := readsInside_handler fun _ => by simp [reads]

theorem readsInside_unary (op : UnaryOp) (cost : UInt64) : ReadsInside (handleUnary op cost) :=
  readsInside_handler fun _ => by simp [reads]

theorem readsInside_scalar (op : ScalarOp) (cost : UInt64) :
    ReadsInside (handleScalar op cost) := readsInside_handler fun _ => by simp [reads]

theorem readsInside_shift (op : ShiftOp) (cost : UInt64) : ReadsInside (handleShift op cost) :=
  readsInside_handler fun _ => by simp [reads]

theorem readsInside_encrypt (ctType : UInt8) (value : Word → ℕ) :
    ReadsInside (handleEncrypt ctType value) := readsInside_handler fun _ => by simp [reads]

theorem readsInside_verify : ReadsInside handleVerify := by
  intro data gas op gas' h
  obtain ⟨hle, rfl⟩ := handler_eq_ok h
  intro s hs
  have hs' : s = (0, 1) ∨ s = (1, data.length) := by simpa [reads] using hs
  rcases hs' with rfl | rfl
  · exact ⟨Nat.zero_le 1, by omega⟩
  · exact ⟨by omega, le_rfl⟩

theorem readsInside_select : ReadsInside handleSelect :=
  readsInside_handler fun _ => by simp [reads]

theorem readsInside_cast : ReadsInside handleCast :=
  readsInside_handler fun _ => by simp [reads]

theorem readsInside_rand : ReadsInside handleRand :=
  readsInside_handler fun _ => by simp [reads]

theorem readsInside_decrypt : ReadsInside handleDecrypt :=
  readsInside_handler fun _ => by simp [reads]

theorem readsInside_sealOutput : ReadsInside handleSealOutput :=
  readsInside_handler fun _ => by simp [reads]

/-- Every handler reads inside its arguments; the groups are those of the table. -/
theorem handlers_readInside : ∀ p ∈ handlers, ReadsInside p.2 := by
  simp only [handlers, List.forall_mem_cons, List.not_mem_nil, false_imp_iff, implies_true,
    and_true]
  have hbinary := readsInside_binary
  have hscalar := readsInside_scalar
  have hshift := readsInside_shift
  have hencrypt := readsInside_encrypt
  exact ⟨hbinary _ _, hbinary _ _, hbinary _ _, hbinary _ _, hbinary _ _,
    readsInside_unary _ _,
    hscalar _ _, hscalar _ _, hscalar _ _, hscalar _ _, hscalar _ _,
    hbinary _ _, hbinary _ _, hbinary _ _, hbinary _ _, hbinary _ _, hbinary _ _,
    hbinary _ _, hbinary _ _, hbinary _ _, hbinary _ _, hbinary _ _,
    readsInside_unary _ _,
    hshift _ _, hshift _ _, hshift _ _, hshift _ _,
    readsInside_select, readsInside_cast,
    hencrypt _ _, hencrypt _ _, hencrypt _ _, hencrypt _ _, hencrypt _ _, hencrypt _ _,
    hencrypt _ _, hencrypt _ _, hencrypt _ _,
    readsInside_rand, readsInside_decrypt, readsInside_verify, readsInside_sealOutput⟩

theorem dispatch_readsInside (selector : List UInt8) : ReadsInside (dispatch selector) := by
  unfold dispatch
  rcases hlookup : handlers.lookup selector with _ | handle
  · intro data gas op gas' h
    cases h
  · obtain ⟨before, after, hsplit, -⟩ := List.lookup_eq_some_iff.mp hlookup
    exact handlers_readInside (selector, handle) (by simp [hsplit])

section Calls

variable {BitCiphertext Ciphertext : Type} (keccak256 : List UInt8 → Word)
  (fhe : Library BitCiphertext Ciphertext) (st : Storage)

/-- The checks of `Run` and of the handler. -/
def admission (c : Call) : Support.Checked Failure (Operation × UInt64) :=
  if c.input.length < 4 then .error (.refused ⟨.invalidInput, c.gas⟩)
  else if c.gas = 0 then .error (.refused ⟨.insufficientGas, 0⟩)
  else do
    let selector ← cut c.input 0 4
    let data ← cut c.input 4 c.input.length
    if c.readOnly && writesState selector then .error (.refused ⟨.readOnly, c.gas⟩)
    else
      let (op, gas) ← ofExcept (dispatch selector data c.gas)
      demand (Inside data (reads data op))
      .ok (op, gas)

/-- An operation. -/
def perform (caller : Address) (op : Operation) : Support.Checked Error (Word × Storage) :=
  match op with
  | .decrypt handle => .error (.refused (requestPlaintext keccak256 st handle caller))
  | .sealOutput handle => .error (.refused (requestPlaintext keccak256 st handle caller))
  | op =>
      match result keccak256 fhe st caller op with
      | .error .panic => .error .panic
      | .error (.refused _) => .ok (0, st)
      | .ok (ct, ctType) => .ok (storeCiphertextOwned keccak256 st ct ctType caller)

/-- `Run`; a call that panics has no outcome. -/
def run (c : Call) : Option Outcome :=
  match admission c with
  | .error .panic => none
  | .error (.refused failure) => some ⟨st, .error failure⟩
  | .ok (op, gas) =>
      match perform keccak256 fhe st c.caller op with
      | .error .panic => none
      | .error (.refused e) => some ⟨st, .error ⟨e, gas⟩⟩
      | .ok (handle, st') =>
          if failedResult c.selector handle then some ⟨st, .error ⟨.operationFailed, gas⟩⟩
          else some ⟨st', .ok (handle, gas)⟩

/-- The outcomes of a run of calls, if none of them panics. -/
def runs : Storage → List Call → Option (List Outcome)
  | _, [] => some []
  | st, c :: calls => do
      let outcome ← run keccak256 fhe st c
      let outcomes ← runs outcome.storage calls
      return outcome :: outcomes

variable {keccak256 fhe st}

/-- No call reads outside its input. -/
theorem admission_eq (c : Call) : admission c = ofExcept c.admission := by
  rw [admission, Call.admission]
  by_cases hshort : c.input.length < 4
  · rw [if_pos hshort, if_pos hshort]
    rfl
  by_cases hgas : c.gas = 0
  · rw [if_neg hshort, if_pos hgas, if_neg hshort, if_pos hgas]
    rfl
  have hselector : (cut c.input 0 4 : Support.Checked Failure _) = .ok c.selector :=
    cut_of_le (by decide) (not_lt.mp hshort)
  have hdata : (cut c.input 4 c.input.length : Support.Checked Failure _) = .ok c.data := by
    rw [cut_of_le (not_lt.mp hshort) le_rfl, Call.data, List.take_of_length_le]
    rw [List.length_drop]
  rw [if_neg hshort, if_neg hgas, if_neg hshort, if_neg hgas, hselector, hdata, ok_bind, ok_bind]
  by_cases hread : (c.readOnly && writesState c.selector) = true
  · rw [if_pos hread, if_pos hread]
    rfl
  · rw [if_neg hread, if_neg hread]
    rcases hdispatch : dispatch c.selector c.data c.gas with failure | ⟨op, gas⟩
    · rfl
    · have hinside := dispatch_readsInside c.selector c.data c.gas op gas hdispatch
      simp only [ofExcept_ok, ok_bind, demand_of hinside]

theorem perform_eq {caller : Address} {op : Operation}
    (h : ¬ RotatesNoBits keccak256 fhe st op) :
    perform keccak256 fhe st caller op = ofExcept (op.perform keccak256 fhe st caller) := by
  have hresult : result keccak256 fhe st caller op = _ := result_eq h
  cases op with
  | decrypt handle => rfl
  | sealOutput handle => rfl
  | _ =>
      simp only [perform, Operation.perform, hresult]
      rcases Operation.result keccak256 fhe st caller _ with _ | ⟨ct, t⟩
      · rfl
      · rfl

theorem perform_eq_panic {caller : Address} {op : Operation}
    (h : RotatesNoBits keccak256 fhe st op) :
    perform keccak256 fhe st caller op = .error .panic := by
  have hresult : result keccak256 fhe st caller op = _ := result_eq_panic h
  obtain ⟨rotation, handle, shift, rfl⟩ := h.eq_shift
  simp only [perform, hresult]

/-- The calls that are admitted and rotate an encoding without bits. -/
def RotatesEmpty (keccak256 : List UInt8 → Word) (fhe : Library BitCiphertext Ciphertext)
    (st : Storage) (c : Call) : Prop :=
  ∃ op gas, c.admission = .ok (op, gas) ∧ RotatesNoBits keccak256 fhe st op

theorem run_eq {c : Call} (h : ¬ RotatesEmpty keccak256 fhe st c) :
    run keccak256 fhe st c = some (Fhe.run keccak256 fhe st c) := by
  rw [run, Fhe.run, admission_eq]
  rcases hadmission : c.admission with failure | ⟨op, gas⟩
  · rfl
  · have hop : perform keccak256 fhe st c.caller op = _ :=
      perform_eq fun hrotates => h ⟨op, gas, hadmission, hrotates⟩
    simp only [ofExcept_ok, hop]
    rcases op.perform keccak256 fhe st c.caller with e | ⟨handle, st'⟩
    · rfl
    · simp only [ofExcept_ok]
      split_ifs
      · rfl
      · rfl

theorem run_eq_none {c : Call} (h : RotatesEmpty keccak256 fhe st c) :
    run keccak256 fhe st c = none := by
  obtain ⟨op, gas, hadmission, hrotates⟩ := h
  have hop : perform keccak256 fhe st c.caller op = _ := perform_eq_panic hrotates
  rw [run, admission_eq, hadmission]
  simp only [ofExcept_ok, hop]

/-- The storage a call leaves. -/
def next (keccak256 : List UInt8 → Word) (fhe : Library BitCiphertext Ciphertext)
    (st : Storage) (c : Call) : Storage := (Fhe.run keccak256 fhe st c).storage

/-- A run of calls has its outcomes exactly when none of them rotates an encoding without
bits. -/
theorem runs_ne_none_iff (calls : List Call) (st : Storage) :
    runs keccak256 fhe st calls ≠ none ↔
      Along (next keccak256 fhe) (fun st c => ¬ RotatesEmpty keccak256 fhe st c) st calls := by
  induction calls generalizing st with
  | nil => simp [runs, Along]
  | cons c calls ih =>
      by_cases hc : RotatesEmpty keccak256 fhe st c
      · simp [runs, Along, run_eq_none hc, hc]
      · have htail : runs keccak256 fhe st (c :: calls) ≠ none ↔
            runs keccak256 fhe (next keccak256 fhe st c) calls ≠ none := by
          rw [runs, run_eq hc]
          change (runs keccak256 fhe (next keccak256 fhe st c) calls >>= _) ≠ none ↔ _
          rcases runs keccak256 fhe (next keccak256 fhe st c) calls with _ | outcomes
          · simp
          · simp
        rw [htail, ih, Along, and_iff_right hc]

end Calls

end Checked

/-! ## The calls that return -/

/-- The keys are installed, and the library decodes every well framed encoding to the bits it
declares. -/
structure Library.Framing {BitCiphertext Ciphertext : Type}
    (fhe : Library BitCiphertext Ciphertext) : Prop where
  evaluator : fhe.evaluator = true
  encryptor : fhe.encryptor = true
  publicKey : fhe.publicKey = true
  unmarshal : ∀ data, wellFramed data = true → ∃ a, fhe.unmarshalBinary data = some a
  numBits : ∀ data a, fhe.unmarshalBinary data = some a → fhe.numBits a = declaredBits data

section Framing

variable {BitCiphertext Ciphertext : Type} {fhe : Library BitCiphertext Ciphertext}

/-- A call that is admitted as a rotation of a handle, and the handle resolves to a well framed
encoding that declares no bits. -/
def RotatesEmptyFrame (keccak256 : List UInt8 → Word) (st : Storage) (c : Call) : Prop :=
  ∃ op handle shift gas ct t, c.admission = .ok (.shift op handle shift, gas) ∧
    (op = .rotl ∨ op = .rotr) ∧ getCiphertext keccak256 st handle = some (ct, t) ∧
    wellFramed ct = true ∧ declaredBits ct = 0

/-- The test of a call and what its handle resolves to. -/
def rotatesEmptyFrame (keccak256 : List UInt8 → Word) (st : Storage) (c : Call) : Bool :=
  match c.admission with
  | .ok (.shift op handle _, _) =>
      match getCiphertext keccak256 st handle with
      | some (ct, _) =>
          (op = .rotl ∨ op = .rotr) && wellFramed ct && declaredBits ct == 0
      | none => false
  | _ => false

theorem rotatesEmptyFrame_of {keccak256 : List UInt8 → Word} {st : Storage} {c : Call}
    (h : RotatesEmptyFrame keccak256 st c) : rotatesEmptyFrame keccak256 st c = true := by
  obtain ⟨op, handle, shift, gas, ct, t, hadmission, hop, hget, hframed, hbits⟩ := h
  simp [rotatesEmptyFrame, hadmission, hget, hop, hframed, hbits]

theorem noBits_iff (hfhe : fhe.Framing) {ct : List UInt8} :
    Checked.NoBits fhe ct ↔ wellFramed ct = true ∧ declaredBits ct = 0 := by
  unfold Checked.NoBits deserializeBitCiphertext
  constructor
  · rintro ⟨-, a, ha, hbits⟩
    split_ifs at ha with hframed
    exact ⟨hframed, (hfhe.numBits ct a ha).symm.trans hbits⟩
  · rintro ⟨hframed, hbits⟩
    obtain ⟨a, ha⟩ := hfhe.unmarshal ct hframed
    exact ⟨hfhe.evaluator, a, (if_pos hframed).trans ha, (hfhe.numBits ct a ha).trans hbits⟩

theorem rotatesEmpty_iff (hfhe : fhe.Framing) {keccak256 : List UInt8 → Word} {st : Storage}
    {c : Call} :
    Checked.RotatesEmpty keccak256 fhe st c ↔ RotatesEmptyFrame keccak256 st c := by
  constructor
  · rintro ⟨op, gas, hadmission, hrotates⟩
    obtain ⟨rotation, handle, shift, rfl⟩ := hrotates.eq_shift
    obtain ⟨hop, ct, t, hget, hct⟩ := hrotates
    exact ⟨rotation, handle, shift, gas, ct, t, hadmission, hop, hget,
      (noBits_iff hfhe).mp hct⟩
  · rintro ⟨op, handle, shift, gas, ct, t, hadmission, hop, hget, hct⟩
    exact ⟨_, gas, hadmission, hop, ct, t, hget, (noBits_iff hfhe).mpr hct⟩

/-- Of an encoding that `verify` accepts, a rotation panics exactly when it declares no bits. -/
theorem evaluateShift_eq_panic_iff (hfhe : fhe.Framing) {op : ShiftOp} {shift : ℕ}
    {ct : List UInt8} (hop : op = .rotl ∨ op = .rotr) (hct : tfheVerify fhe ct = true) :
    Checked.evaluateShift fhe shift op ct = .error .panic ↔ declaredBits ct = 0 := by
  have hframed : wellFramed ct = true := by
    unfold tfheVerify deserializeBitCiphertext at hct
    split_ifs at hct with hframed
    · exact hframed
    · cases hct
  constructor
  · intro hpanic
    by_contra hbits
    rw [Checked.evaluateShift_eq fun h => hbits ((noBits_iff hfhe).mp h.2).2] at hpanic
    exact Checked.ofOption_ne_panic _ _ hpanic
  · intro hbits
    exact Checked.evaluateShift_eq_panic hop ((noBits_iff hfhe).mpr ⟨hframed, hbits⟩)

/-- Framing cuts nothing outside the data, whatever they are; of the encodings that `verify`
accepts, the rotations panic on those of no bits alone; and every call of a run returns exactly
when no call of it rotates such an encoding. -/
theorem calls_return_iff (hfhe : fhe.Framing) (keccak256 : List UInt8 → Word) :
    (∀ data, Checked.wellFramed data = .ok (wellFramed data) ∧
      Checked.boolBit data ≠ .error .panic) ∧
    (∀ ct shift op, tfheVerify fhe ct = true → op = .rotl ∨ op = .rotr →
      (Checked.evaluateShift fhe shift op ct = .error .panic ↔ declaredBits ct = 0)) ∧
    ∀ (st : Storage) (calls : List Call),
      Checked.runs keccak256 fhe st calls ≠ none ↔
        Along (Checked.next keccak256 fhe) (fun st c => ¬ RotatesEmptyFrame keccak256 st c) st
          calls := by
  refine ⟨fun data => ⟨Checked.wellFramed_eq data, ?_⟩, fun ct shift op hct hop =>
    evaluateShift_eq_panic_iff hfhe hop hct, fun st calls => ?_⟩
  · rw [Checked.boolBit_eq]
    exact Support.Checked.ofOption_ne_panic _ _
  · rw [Checked.runs_ne_none_iff]
    simp only [rotatesEmpty_iff hfhe]

end Framing

/-! ## An encoding of no bits -/

theorem clearFhe_framing : clearFhe.Framing where
  evaluator := rfl
  encryptor := rfl
  publicKey := rfl
  unmarshal _ _ := ⟨_, rfl⟩
  numBits := clearFhe_widths.unmarshal

/-- 32 zero bytes: no bits, and bytes after them. -/
def emptyFrame : List UInt8 := List.replicate 32 0

def sampleRotl (caller : Address) (handle : Word) (shift : UInt8) : Call :=
  sampleCall caller [0x89, 0xa1, 0x9e, 0x6b] (hashBytes handle ++ [shift])

theorem calls_return_sample :
    Checked.runs sampleHash clearFhe 0
      [sampleAsEbool 1 1, sampleRotl 1 (sampleHash (clearBytes [true])) 3] ≠ none :=
  ((calls_return_iff clearFhe_framing sampleHash).2.2 0 _).mpr
    ⟨fun h => absurd (rotatesEmptyFrame_of h) (by decide),
      fun h => absurd (rotatesEmptyFrame_of h) (by decide +kernel), trivial⟩

/-- An encoding of no bits is verified, and the next call, that rotates it, panics. -/
theorem empty_frame_panics :
    ¬ ∀ calls : List Call, Checked.runs sampleHash clearFhe 0 calls ≠ none := by
  intro h
  refine h [sampleVerify 1 typeEuint8 emptyFrame, sampleRotl 1 (sampleHash emptyFrame) 1] ?_
  exact Option.isNone_iff_eq_none.mp (by decide +kernel)

end LuxPrecompile.Fhe
