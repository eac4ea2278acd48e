import LuxPrecompile.Fhe.Slots

/-!
# Widths

What the library promises about the bits of its ciphertexts, and from it the bits that
the encoding of each operation's result declares.
-/

namespace LuxPrecompile.Fhe

open Evm Support

/-- The widths of the library's ciphertexts.  An encoding declares the bits it holds, and
none is as short as the key of a chunk: a single bit is a lattice ciphertext.  A method
gives the width of its operands or of the type it is asked for. -/
structure Library.Widths {BitCiphertext Ciphertext : Type}
    (fhe : Library BitCiphertext Ciphertext) : Prop where
  marshal : ∀ ct data, fhe.marshalBinary ct = some data → declaredBits data = fhe.numBits ct
  marshal_length : ∀ ct data, fhe.marshalBinary ct = some data → data.length ≠ 64
  unmarshal : ∀ data ct, fhe.unmarshalBinary data = some ct → fhe.numBits ct = declaredBits data
  arithmetic : ∀ op a b ct, fhe.numBits a = fhe.numBits b →
    fhe.arithmetic op a b = some ct → fhe.numBits ct = fhe.numBits a
  wrapBool : ∀ bit, fhe.numBits (fhe.wrapBool bit) = 1
  not : ∀ a, fhe.numBits (fhe.not a) = fhe.numBits a
  neg : ∀ a ct, fhe.neg a = some ct → fhe.numBits ct = fhe.numBits a
  select : ∀ bit a b ct, fhe.numBits a = fhe.numBits b → fhe.select bit a b = some ct →
    fhe.numBits ct = fhe.numBits a
  castTo : ∀ a target, fhe.numBits (fhe.castTo a target) = target.bits
  shl : ∀ a n, fhe.numBits (fhe.shl a n) = fhe.numBits a
  shr : ∀ a n, fhe.numBits (fhe.shr a n) = fhe.numBits a
  scalarAdd : ∀ a s ct, fhe.scalarAdd a s = some ct → fhe.numBits ct = fhe.numBits a
  scalarMul : ∀ a s ct, fhe.scalarMul a s = some ct → fhe.numBits ct = fhe.numBits a
  maxValue : ∀ target, fhe.numBits (fhe.maxValue target) = target.bits
  encryptUint64 : ∀ value target ct, fhe.encryptUint64 value target = some ct →
    fhe.numBits ct = target.bits
  randomUint : ∀ seed target ct, fhe.randomUint seed target = some ct →
    fhe.numBits ct = target.bits

/-- An encoding of some bits that is no key of a chunk. -/
structure Encodes (n : ℕ) (data : List UInt8) : Prop where
  bits : declaredBits data = n
  apart : isChunkKey data = false

/-- A type that the precompile asks the library for under its own width. -/
def mapped (fheType : UInt8) : Bool :=
  typeBits fheType == some (fheTypeToTFHEType fheType).bits

theorem typeBits_of_mapped {fheType : UInt8} (h : mapped fheType = true) :
    typeBits fheType = some (fheTypeToTFHEType fheType).bits := eq_of_beq h

section Results

variable {BitCiphertext Ciphertext : Type} {fhe : Library BitCiphertext Ciphertext}

theorem deserialize_width (hfhe : fhe.Widths) {data : List UInt8} {ct : BitCiphertext}
    (h : deserializeBitCiphertext fhe data = some ct) : fhe.numBits ct = declaredBits data := by
  unfold deserializeBitCiphertext at h
  split_ifs at h
  exact hfhe.unmarshal data ct h

theorem serialize_encodes (hfhe : fhe.Widths) {ct : BitCiphertext} {data : List UInt8}
    (h : serializeBitCiphertext fhe ct = some data) : Encodes (fhe.numBits ct) data :=
  ⟨hfhe.marshal ct data h, isChunkKey_of_length (hfhe.marshal_length ct data h)⟩

theorem serialize_encodes_of (hfhe : fhe.Widths) {ct : BitCiphertext} {data : List UInt8} {n : ℕ}
    (h : serializeBitCiphertext fhe ct = some data) (hn : fhe.numBits ct = n) :
    Encodes n data := hn ▸ serialize_encodes hfhe h

theorem deserializePair_eq_some {lhs rhs : List UInt8} {p : BitCiphertext × BitCiphertext}
    (h : deserializePair fhe lhs rhs = some p) :
    deserializeBitCiphertext fhe lhs = some p.1 ∧ deserializeBitCiphertext fhe rhs = some p.2 := by
  simp only [deserializePair, Option.bind_eq_bind, Option.bind_eq_some_iff] at h
  obtain ⟨-, -, ctLhs, hlhs, ctRhs, hrhs, hp⟩ := h
  obtain rfl := Option.some.inj hp
  exact ⟨hlhs, hrhs⟩

/-! ## Two operands -/

theorem tfheArithmetic_encodes (hfhe : fhe.Widths) {op : Arithmetic} {lhs rhs data : List UInt8}
    (h : tfheArithmetic fhe op lhs rhs = some data) (hbits : declaredBits lhs = declaredBits rhs) :
    Encodes (declaredBits lhs) data := by
  simp only [tfheArithmetic, Option.bind_eq_bind, Option.bind_eq_some_iff] at h
  obtain ⟨⟨ctLhs, ctRhs⟩, hpair, result, hresult, hdata⟩ := h
  obtain ⟨hlhs, hrhs⟩ := deserializePair_eq_some hpair
  have hl := deserialize_width hfhe hlhs
  have hr := deserialize_width hfhe hrhs
  refine serialize_encodes_of hfhe hdata ?_
  rw [hfhe.arithmetic op ctLhs ctRhs result (by rw [hl, hr, hbits]) hresult, hl]

theorem tfheComparison_encodes (hfhe : fhe.Widths) {op : Comparison} {lhs rhs data : List UInt8}
    (h : tfheComparison fhe op lhs rhs = some data) : Encodes 1 data := by
  simp only [tfheComparison, Option.bind_eq_bind, Option.bind_eq_some_iff] at h
  obtain ⟨-, -, result, -, hdata⟩ := h
  exact serialize_encodes_of hfhe hdata (hfhe.wrapBool result)

theorem tfheNe_encodes (hfhe : fhe.Widths) {lhs rhs data : List UInt8}
    (h : tfheNe fhe lhs rhs = some data) : Encodes 1 data := by
  simp only [tfheNe, Option.bind_eq_bind, Option.bind_eq_some_iff] at h
  obtain ⟨-, -, lt, -, gt, -, result, hresult, hdata⟩ := h
  refine serialize_encodes_of hfhe hdata ?_
  rw [hfhe.arithmetic .or _ _ result (by rw [hfhe.wrapBool, hfhe.wrapBool]) hresult,
    hfhe.wrapBool]

theorem tfhePick_encodes (hfhe : fhe.Widths) {op : Comparison} {lhs rhs data : List UInt8}
    (h : tfhePick fhe op lhs rhs = some data) (hbits : declaredBits lhs = declaredBits rhs) :
    Encodes (declaredBits lhs) data := by
  simp only [tfhePick, Option.bind_eq_bind, Option.bind_eq_some_iff] at h
  obtain ⟨⟨ctLhs, ctRhs⟩, hpair, picked, -, result, hresult, hdata⟩ := h
  obtain ⟨hlhs, hrhs⟩ := deserializePair_eq_some hpair
  have hl := deserialize_width hfhe hlhs
  have hr := deserialize_width hfhe hrhs
  refine serialize_encodes_of hfhe hdata ?_
  rw [hfhe.select picked ctLhs ctRhs result (by rw [hl, hr, hbits]) hresult, hl]

theorem BinaryOp.evaluate_encodes (hfhe : fhe.Widths) {op : BinaryOp} {lhs rhs data : List UInt8}
    (h : op.evaluate fhe lhs rhs = some data)
    (hbits : op.compares = true ∨ declaredBits lhs = declaredBits rhs) :
    Encodes (if op.compares then 1 else declaredBits lhs) data := by
  cases op with
  | arithmetic op =>
      have heq := hbits.resolve_left Bool.false_ne_true
      cases op <;> exact tfheArithmetic_encodes hfhe h heq
  | comparison op => cases op <;> exact tfheComparison_encodes hfhe h
  | ne => exact tfheNe_encodes hfhe h
  | min => exact tfhePick_encodes hfhe h (hbits.resolve_left Bool.false_ne_true)
  | max => exact tfhePick_encodes hfhe h (hbits.resolve_left Bool.false_ne_true)

theorem tfheSelect_encodes (hfhe : fhe.Widths) {control ifTrue ifFalse data : List UInt8}
    (h : tfheSelect fhe control ifTrue ifFalse = some data)
    (hbits : declaredBits ifTrue = declaredBits ifFalse) :
    Encodes (declaredBits ifTrue) data := by
  simp only [tfheSelect, Option.bind_eq_bind, Option.bind_eq_some_iff] at h
  obtain ⟨-, -, bit, -, ctTrue, htrue, ctFalse, hfalse, result, hresult, hdata⟩ := h
  have ht := deserialize_width hfhe htrue
  have hf := deserialize_width hfhe hfalse
  refine serialize_encodes_of hfhe hdata ?_
  rw [hfhe.select bit ctTrue ctFalse result (by rw [ht, hf, hbits]) hresult, ht]

/-! ## One operand -/

theorem tfheUnary_encodes (hfhe : fhe.Widths) {method : BitCiphertext → Option BitCiphertext}
    (hmethod : ∀ a ct, method a = some ct → fhe.numBits ct = fhe.numBits a)
    {ct data : List UInt8} (h : tfheUnary fhe method ct = some data) :
    Encodes (declaredBits ct) data := by
  simp only [tfheUnary, Option.bind_eq_bind, Option.bind_eq_some_iff] at h
  obtain ⟨-, -, ctIn, hin, result, hresult, hdata⟩ := h
  refine serialize_encodes_of hfhe hdata ?_
  rw [hmethod ctIn result hresult, deserialize_width hfhe hin]

theorem rotate_width (hfhe : fhe.Widths) {first second : BitCiphertext → ℕ → BitCiphertext}
    (hfirst : ∀ a n, fhe.numBits (first a n) = fhe.numBits a)
    (hsecond : ∀ a n, fhe.numBits (second a n) = fhe.numBits a) (shift : ℕ)
    (a ct : BitCiphertext) (h : rotate fhe first second shift a = some ct) :
    fhe.numBits ct = fhe.numBits a := by
  unfold rotate at h
  split_ifs at h
  rw [hfhe.arithmetic .or _ _ ct (by rw [hfirst, hsecond]) h, hfirst]

theorem UnaryOp.evaluate_encodes (hfhe : fhe.Widths) {op : UnaryOp} {ct data : List UInt8}
    (h : op.evaluate fhe ct = some data) : Encodes (declaredBits ct) data := by
  cases op with
  | not => exact tfheUnary_encodes hfhe (fun a ct h => Option.some.inj h ▸ hfhe.not a) h
  | neg => exact tfheUnary_encodes hfhe hfhe.neg h

theorem ShiftOp.evaluate_encodes (hfhe : fhe.Widths) {op : ShiftOp} {amount : ℕ}
    {ct data : List UInt8} (h : op.evaluate fhe amount ct = some data) :
    Encodes (declaredBits ct) data := by
  cases op with
  | shl => exact tfheUnary_encodes hfhe (fun a ct h => Option.some.inj h ▸ hfhe.shl a _) h
  | shr => exact tfheUnary_encodes hfhe (fun a ct h => Option.some.inj h ▸ hfhe.shr a _) h
  | rotl => exact tfheUnary_encodes hfhe (rotate_width hfhe hfhe.shl hfhe.shr amount) h
  | rotr => exact tfheUnary_encodes hfhe (rotate_width hfhe hfhe.shr hfhe.shl amount) h

theorem tfheCast_encodes (hfhe : fhe.Widths) {toType : UInt8} {ct data : List UInt8}
    (h : tfheCast fhe toType ct = some data) :
    Encodes (fheTypeToTFHEType toType).bits data := by
  simp only [tfheCast, tfheUnary, Option.bind_eq_bind, Option.bind_eq_some_iff] at h
  obtain ⟨-, -, ctIn, -, result, hresult, hdata⟩ := h
  refine serialize_encodes_of hfhe hdata ?_
  rw [← Option.some.inj hresult, hfhe.castTo]

/-! ## Scalars -/

theorem tfheMaxValue_encodes (hfhe : fhe.Widths) {fheType : UInt8} {data : List UInt8}
    (h : tfheMaxValue fhe fheType = some data) :
    Encodes (fheTypeToTFHEType fheType).bits data := by
  simp only [tfheMaxValue, Option.bind_eq_bind, Option.bind_eq_some_iff] at h
  obtain ⟨-, -, hdata⟩ := h
  exact serialize_encodes_of hfhe hdata (hfhe.maxValue _)

theorem tfheEncrypted_encodes (hfhe : fhe.Widths) {op : Arithmetic} {ct data : List UInt8}
    {scalar : UInt64} {fheType : UInt8}
    (hbits : declaredBits ct = (fheTypeToTFHEType fheType).bits)
    (h : tfheEncrypted fhe op ct scalar fheType = some data) : Encodes (declaredBits ct) data := by
  simp only [tfheEncrypted, Option.bind_eq_bind, Option.bind_eq_some_iff] at h
  obtain ⟨ctIn, hin, ctScalar, hscalar, result, hresult, hdata⟩ := h
  have hi := deserialize_width hfhe hin
  have hs := hfhe.encryptUint64 _ _ _ hscalar
  refine serialize_encodes_of hfhe hdata ?_
  rw [hfhe.arithmetic op ctIn ctScalar result (by rw [hi, hs, hbits]) hresult, hi]

/-- Division and a remainder by a scalar other than zero need the operand's type mapped. -/
def ScalarOp.encrypts (scalar : ℕ) : ScalarOp → Bool
  | .div => true
  | .rem => scalar != 0
  | _ => false

theorem ScalarOp.evaluate_encodes (hfhe : fhe.Widths) {op : ScalarOp} {ct data : List UInt8}
    {scalar : ℕ} {s : UInt64} {ctType : UInt8} (hs : unsigned64 scalar = some s)
    (h : op.evaluate fhe ct s ctType = some data) (hct : isChunkKey ct = false)
    (hbits : op.encrypts scalar = true →
      declaredBits ct = (fheTypeToTFHEType ctType).bits) :
    Encodes (declaredBits ct) data := by
  cases op with
  | add => exact tfheUnary_encodes hfhe (fun a ct h => hfhe.scalarAdd a _ ct h) h
  | sub => exact tfheUnary_encodes hfhe (fun a ct h => hfhe.scalarAdd a _ ct h) h
  | mul => exact tfheUnary_encodes hfhe (fun a ct h => hfhe.scalarMul a _ ct h) h
  | div =>
      simp only [ScalarOp.evaluate, tfheScalarDiv, Option.bind_eq_bind,
        Option.bind_eq_some_iff] at h
      obtain ⟨-, -, -, -, hdata⟩ := h
      have heq := hbits rfl
      split_ifs at hdata
      · rw [heq]
        exact tfheMaxValue_encodes hfhe hdata
      · exact tfheEncrypted_encodes hfhe heq hdata
  | rem =>
      simp only [ScalarOp.evaluate, tfheScalarRem, Option.bind_eq_bind,
        Option.bind_eq_some_iff] at h
      obtain ⟨-, -, -, -, hdata⟩ := h
      unfold unsigned64 at hs
      split_ifs at hs with hlt
      split_ifs at hdata with hzero
      · exact Option.some.inj hdata ▸ ⟨rfl, hct⟩
      · refine tfheEncrypted_encodes hfhe (hbits ?_) hdata
        refine bne_iff_ne.mpr fun hscalar => hzero ?_
        rw [← Option.some.inj hs, hscalar]
        rfl

/-! ## Plaintexts -/

theorem tfheTrivialEncrypt_encodes (hfhe : fhe.Widths) {value : ℕ} {toType : UInt8}
    {data : List UInt8} (h : tfheTrivialEncrypt fhe value toType = some data) :
    Encodes (fheTypeToTFHEType toType).bits data := by
  simp only [tfheTrivialEncrypt, Option.bind_eq_bind, Option.bind_eq_some_iff] at h
  obtain ⟨-, -, plaintext, -, ct, hct, hdata⟩ := h
  exact serialize_encodes_of hfhe hdata (hfhe.encryptUint64 _ _ _ hct)

theorem tfheRandom_encodes (hfhe : fhe.Widths) {fheType : UInt8} {seed : UInt64}
    {data : List UInt8} (h : tfheRandom fhe fheType seed = some data) :
    Encodes (fheTypeToTFHEType fheType).bits data := by
  simp only [tfheRandom, Option.bind_eq_bind, Option.bind_eq_some_iff] at h
  obtain ⟨-, -, ct, hct, hdata⟩ := h
  exact serialize_encodes_of hfhe hdata (hfhe.randomUint _ _ _ hct)

/-! ## The result of an operation -/

variable {keccak256 : List UInt8 → Word} {st : Storage}

/-- A stored encoding and its type. -/
def WellTyped (result : List UInt8 × UInt8) : Prop :=
  typeBits result.2 = some (declaredBits result.1) ∧ isChunkKey result.1 = false

theorem Encodes.wellTyped {n : ℕ} {ct : List UInt8} {ctType : UInt8} (h : Encodes n ct)
    (ht : typeBits ctType = some n) : WellTyped (ct, ctType) :=
  ⟨ht.trans (congrArg some h.bits.symm), h.apart⟩

section Fits

variable (keccak256) (st)

/-- Two handles that resolve to one type. -/
def sameType (handle1 handle2 : Word) : Bool :=
  match getCiphertext keccak256 st handle1, getCiphertext keccak256 st handle2 with
  | some (_, s), some (_, t) => s == t
  | _, _ => true

/-- A handle that resolves to a type the library has. -/
def mappedType (handle : Word) : Bool :=
  match getCiphertext keccak256 st handle with
  | some (_, t) => mapped t
  | none => true

/-- The types an operation combines fit: operands of one type, types that the library is
asked for under their own width, and a submitted encoding of the width it is declared
under. -/
def Operation.fits : Operation → Bool
  | .binary op handle1 handle2 => op.compares || sameType keccak256 st handle1 handle2
  | .select _ ifTrue ifFalse => sameType keccak256 st ifTrue ifFalse
  | .scalar op handle value => !op.encrypts value || mappedType keccak256 st handle
  | .cast _ toType => mapped toType
  | .encrypt _ ctType => mapped ctType
  | .random ctType => mapped ctType
  | .verify ct ctType => typeBits ctType == some (declaredBits ct) && !isChunkKey ct
  | _ => true

end Fits

theorem declaredBits_of_sameType {handle1 handle2 : Word} {lhs rhs : List UInt8}
    {lhsType rhsType : UInt8} (hsame : sameType keccak256 st handle1 handle2 = true)
    (h1 : getCiphertext keccak256 st handle1 = some (lhs, lhsType))
    (h2 : getCiphertext keccak256 st handle2 = some (rhs, rhsType))
    (hlhs : WellTyped (lhs, lhsType)) (hrhs : WellTyped (rhs, rhsType)) :
    declaredBits lhs = declaredBits rhs := by
  have htypes : lhsType = rhsType := by
    rw [sameType, h1, h2] at hsame
    exact eq_of_beq hsame
  have hwidth := hlhs.1
  rw [htypes] at hwidth
  exact Option.some.inj (hwidth.symm.trans hrhs.1)

theorem fheOperation_wellTyped (hfhe : fhe.Widths) {op : BinaryOp} {handle1 handle2 : Word}
    {result : List UInt8 × UInt8}
    (h : fheOperation keccak256 fhe st op handle1 handle2 = some result)
    (hfits : (op.compares || sameType keccak256 st handle1 handle2) = true)
    (h1 : ∀ r, getCiphertext keccak256 st handle1 = some r → WellTyped r)
    (h2 : ∀ r, getCiphertext keccak256 st handle2 = some r → WellTyped r) :
    WellTyped result := by
  simp only [fheOperation, Option.bind_eq_bind, Option.bind_eq_some_iff] at h
  obtain ⟨⟨lhs, lhsType⟩, hlhs, ⟨rhs, rhsType⟩, hrhs, data, hdata, hresult⟩ := h
  obtain rfl := Option.some.inj hresult
  have hbits : op.compares = true ∨ declaredBits lhs = declaredBits rhs := by
    rcases Bool.or_eq_true_iff.mp hfits with hcompare | hsame
    · exact .inl hcompare
    · exact .inr (declaredBits_of_sameType hsame hlhs hrhs (h1 _ hlhs) (h2 _ hrhs))
  refine (op.evaluate_encodes hfhe hdata hbits).wellTyped ?_
  by_cases hcompare : op.compares = true
  · rw [if_pos hcompare, if_pos hcompare]
    rfl
  · rw [if_neg hcompare, if_neg hcompare]
    exact (h1 _ hlhs).1

/-- An operation whose types fit, on operands that are well typed, stores a well typed
encoding. -/
theorem Operation.result_wellTyped (hfhe : fhe.Widths) {caller : Address} {op : Operation}
    {result : List UInt8 × UInt8} (h : op.result keccak256 fhe st caller = some result)
    (hfits : op.fits keccak256 st = true)
    (hoperands : ∀ handle ∈ op.operands, ∀ r, getCiphertext keccak256 st handle = some r →
      WellTyped r) : WellTyped result := by
  cases op with
  | binary op handle1 handle2 =>
      exact fheOperation_wellTyped hfhe h hfits (hoperands handle1 (by simp [operands]))
        (hoperands handle2 (by simp [operands]))
  | select condition ifTrue ifFalse =>
      simp only [Operation.result, fheSelect, Option.bind_eq_bind, Option.bind_eq_some_iff] at h
      obtain ⟨⟨ctControl, controlType⟩, _, ⟨ctTrue, trueType⟩, htrue, ⟨ctFalse, falseType⟩,
        hfalse, data, hdata, hresult⟩ := h
      obtain rfl := Option.some.inj hresult
      have ht := hoperands ifTrue (by simp [operands]) _ htrue
      have hf := hoperands ifFalse (by simp [operands]) _ hfalse
      exact (tfheSelect_encodes hfhe hdata
        (declaredBits_of_sameType hfits htrue hfalse ht hf)).wellTyped ht.1
  | unary op handle =>
      simp only [Operation.result, fheUnaryOperation, Option.bind_eq_bind,
        Option.bind_eq_some_iff] at h
      obtain ⟨⟨ct, ctType⟩, hct, data, hdata, hresult⟩ := h
      obtain rfl := Option.some.inj hresult
      exact (op.evaluate_encodes hfhe hdata).wellTyped
        (hoperands handle (by simp [operands]) _ hct).1
  | scalar op handle value =>
      simp only [Operation.result, fheScalarOperation, Option.bind_eq_bind,
        Option.bind_eq_some_iff] at h
      obtain ⟨⟨ct, ctType⟩, hct, s, hs, data, hdata, hresult⟩ := h
      obtain rfl := Option.some.inj hresult
      have htyped := hoperands handle (by simp [operands]) _ hct
      refine (op.evaluate_encodes hfhe hs hdata htyped.2 fun hencrypts => ?_).wellTyped htyped.1
      have hmapped : mapped ctType = true := by
        simpa [Operation.fits, hencrypts, mappedType, hct] using hfits
      exact Option.some.inj (htyped.1.symm.trans (typeBits_of_mapped hmapped))
  | shift op handle amount =>
      simp only [Operation.result, fheShiftOperation, Option.bind_eq_bind,
        Option.bind_eq_some_iff] at h
      obtain ⟨⟨ct, ctType⟩, hct, data, hdata, hresult⟩ := h
      obtain rfl := Option.some.inj hresult
      exact (op.evaluate_encodes hfhe hdata).wellTyped
        (hoperands handle (by simp [operands]) _ hct).1
  | cast handle toType =>
      simp only [Operation.result, fheCast, Option.bind_eq_bind, Option.bind_eq_some_iff] at h
      obtain ⟨⟨ct, ctType⟩, _, data, hdata, hresult⟩ := h
      obtain rfl := Option.some.inj hresult
      exact (tfheCast_encodes hfhe hdata).wellTyped (typeBits_of_mapped hfits)
  | encrypt value ctType =>
      simp only [Operation.result, encryptValue, Option.bind_eq_bind,
        Option.bind_eq_some_iff] at h
      obtain ⟨data, hdata, hresult⟩ := h
      obtain rfl := Option.some.inj hresult
      exact (tfheTrivialEncrypt_encodes hfhe hdata).wellTyped (typeBits_of_mapped hfits)
  | random ctType =>
      simp only [Operation.result, generateEncryptedRandom, Option.bind_eq_bind,
        Option.bind_eq_some_iff] at h
      obtain ⟨data, hdata, hresult⟩ := h
      obtain rfl := Option.some.inj hresult
      exact (tfheRandom_encodes hfhe hdata).wellTyped (typeBits_of_mapped hfits)
  | verify ct ctType =>
      simp only [Operation.result, fheVerify] at h
      split_ifs at h
      obtain rfl := Option.some.inj h
      obtain ⟨hbits, hkey⟩ := Bool.and_eq_true_iff.mp hfits
      exact ⟨eq_of_beq hbits, by simpa using hkey⟩
  | decrypt handle => cases h
  | sealOutput handle => cases h

end Results

/-! ## Bits in the clear

A library whose ciphertexts are the bits themselves keeps the widths. -/

/-- The `n` low bits of a number, the lowest first. -/
def lowBits (n v : ℕ) : List Bool := (List.range n).map v.testBit

def bitsValue (bits : List Bool) : ℕ := bits.foldr (fun b v => 2 * v + b.toNat) 0

@[simp]
theorem lowBits_length (n v : ℕ) : (lowBits n v).length = n := by
  simp [lowBits]

def Arithmetic.value (n a b : ℕ) : Arithmetic → ℕ
  | .add => a + b
  | .sub => a + 2 ^ n - b
  | .mul => a * b
  | .div => if b = 0 then 2 ^ n - 1 else a / b
  | .rem => a % b
  | .and => a &&& b
  | .or => a ||| b
  | .xor => a ^^^ b

def Comparison.value (a b : ℕ) : Comparison → Bool
  | .lt => a < b
  | .le => a ≤ b
  | .gt => b < a
  | .ge => b ≤ a
  | .eq => a = b

/-- A bit: its length and its byte. -/
def clearBit (bit : Bool) : List UInt8 := [1, 0, 0, 0, if bit then 1 else 0]

/-- The encoding: the number of bits, a type and the bits. -/
def clearBytes (bits : List Bool) : List UInt8 :=
  (natToBytes 4 bits.length).reverse ++ 0 :: bits.flatMap clearBit

def clearFhe : Library (List Bool) Bool where
  evaluator := true
  encryptor := true
  publicKey := true
  marshalBinary bits := if bits.length ≤ 256 then some (clearBytes bits) else none
  unmarshalBinary data :=
    some ((List.range (declaredBits data)).map fun i => data.getD (9 + 5 * i) 0 == 1)
  unmarshalCiphertext data := some (data.getD 0 0 == 1)
  numBits := List.length
  arithmetic op a b :=
    if a.length = b.length then
      some (lowBits a.length (op.value a.length (bitsValue a) (bitsValue b)))
    else none
  comparison op a b :=
    if a.length = b.length then some (op.value (bitsValue a) (bitsValue b)) else none
  wrapBool bit := [bit]
  not a := a.map Bool.not
  neg a := some (lowBits a.length (2 ^ a.length - bitsValue a))
  select bit a b := if a.length = b.length then some (if bit then a else b) else none
  castTo a target := lowBits target.bits (bitsValue a)
  shl a n := lowBits a.length (bitsValue a <<< n)
  shr a n := lowBits a.length (bitsValue a >>> n)
  scalarAdd a s := some (lowBits a.length (bitsValue a + s.toNat))
  scalarMul a s := some (lowBits a.length (bitsValue a * s.toNat))
  maxValue target := List.replicate target.bits true
  encryptUint64 value target := some (lowBits target.bits value.toNat)
  randomUint seed target := some (lowBits target.bits (bytesToNat seed))

theorem clearBytes_length (bits : List Bool) : (clearBytes bits).length = 5 * bits.length + 5 := by
  have hflat : (bits.flatMap clearBit).length = 5 * bits.length :=
    length_flatMap_of_length (fun bit => (rfl : (clearBit bit).length = 5)) bits
  rw [clearBytes, List.length_append, List.length_cons, List.length_reverse, natToBytes_length,
    hflat]
  omega

theorem declaredBits_clearBytes {bits : List Bool} (h : bits.length ≤ 256) :
    declaredBits (clearBytes bits) = bits.length := by
  have hslice : slice (clearBytes bits) 0 4 = (natToBytes 4 bits.length).reverse := by
    rw [clearBytes, slice_append_left (by simp), slice_all (by simp)]
  rw [declaredBits, hslice, littleEndian, List.reverse_reverse]
  exact bytesToNat_natToBytes (lt_of_le_of_lt h (by norm_num))

theorem clearFhe_widths : clearFhe.Widths where
  marshal := by
    intro ct data h
    simp only [clearFhe] at h
    split_ifs at h with hlength
    exact Option.some.inj h ▸ declaredBits_clearBytes hlength
  marshal_length := by
    intro ct data h
    simp only [clearFhe] at h
    split_ifs at h
    rw [← Option.some.inj h, clearBytes_length]
    omega
  unmarshal := by
    intro data ct h
    rw [← Option.some.inj h]
    simp [clearFhe]
  arithmetic := by
    intro op a b ct heq h
    simp only [clearFhe] at h
    split_ifs at h
    rw [← Option.some.inj h]
    exact lowBits_length _ _
  wrapBool := fun _ => rfl
  not := fun a => List.length_map _
  neg := by
    intro a ct h
    rw [← Option.some.inj h]
    exact lowBits_length _ _
  select := by
    intro bit a b ct heq h
    simp only [clearFhe] at h heq
    split_ifs at h
    · exact Option.some.inj h ▸ rfl
    · rw [← Option.some.inj h]
      exact heq.symm
  castTo := fun _ _ => lowBits_length _ _
  shl := fun _ _ => lowBits_length _ _
  shr := fun _ _ => lowBits_length _ _
  scalarAdd := by
    intro a s ct h
    rw [← Option.some.inj h]
    exact lowBits_length _ _
  scalarMul := by
    intro a s ct h
    rw [← Option.some.inj h]
    exact lowBits_length _ _
  maxValue := fun _ => List.length_replicate
  encryptUint64 := by
    intro value target ct h
    rw [← Option.some.inj h]
    exact lowBits_length _ _
  randomUint := by
    intro seed target ct h
    rw [← Option.some.inj h]
    exact lowBits_length _ _

end LuxPrecompile.Fhe
