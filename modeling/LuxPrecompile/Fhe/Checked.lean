import LuxPrecompile.Fhe.Contract
import LuxPrecompile.Support.Faults

/-!
# Slices, remainders and panics

The functions of `fhe/fhe_ops.go` once more, with what Go panics on written out: a slice
outside its bytes and a remainder by zero.  Each agrees with the function that leaves these
out, but for the two rotations, which divide by the number of bits of their operand.
-/

namespace LuxPrecompile.Fhe

open Evm Support

namespace Checked

open Support.Checked

/-- A function of the package that gives a value, gives none, or panics. -/
abbrev Result (α : Type) := Support.Checked Unit α

/-- A value or none. -/
def given {α : Type} (x : Option α) : Result α := ofOption () x

/-! ## Framing -/

/-- The loop of `wellFramed`. -/
def bitsFramed (data : List UInt8) : ℕ → ℕ → Result Bool
  | 0, _ => .ok true
  | n + 1, off =>
      if data.length < off + 4 then .ok false
      else do
        let field ← cut data off (off + 4)
        if data.length < off + 4 + littleEndian field then .ok false
        else bitsFramed data n (off + 4 + littleEndian field)

def wellFramed (data : List UInt8) : Result Bool :=
  if data.length < 5 then .ok false
  else do
    let field ← cut data 0 4
    if maxCiphertextBits < littleEndian field then .ok false
    else bitsFramed data (littleEndian field) 5

def boolBit (data : List UInt8) : Result (List UInt8) := do
  let framed ← wellFramed data
  if !framed then .error (.refused ())
  else
    let width ← cut data 0 4
    if littleEndian width ≠ 1 then .error (.refused ())
    else
      let field ← cut data 5 9
      cut data 9 (9 + littleEndian field)

theorem cut_eq_slice {data : List UInt8} {i j : ℕ} (hij : i ≤ j) (hj : j ≤ data.length) :
    (cut data i j : Result (List UInt8)) = .ok (slice data i j) := cut_of_le hij hj

theorem bitsFramed_eq (data : List UInt8) (n off : ℕ) :
    bitsFramed data n off = .ok (Fhe.bitsFramed data n off) := by
  induction n generalizing off with
  | zero => rfl
  | succ n ih =>
      rw [bitsFramed, Fhe.bitsFramed]
      by_cases hshort : data.length < off + 4
      · rw [if_pos hshort, if_pos hshort]
      · rw [if_neg hshort, if_neg hshort, cut_eq_slice (Nat.le_add_right _ _) (not_lt.mp hshort),
          ok_bind]
        dsimp only
        split_ifs
        · rfl
        · exact ih _

theorem wellFramed_eq (data : List UInt8) : wellFramed data = .ok (Fhe.wellFramed data) := by
  rw [wellFramed, Fhe.wellFramed]
  by_cases hshort : data.length < 5
  · rw [if_pos hshort, if_pos hshort]
  · rw [if_neg hshort, if_neg hshort, cut_eq_slice (Nat.zero_le 4) (by omega), ok_bind,
      ← declaredBits]
    split_ifs
    · rfl
    · exact bitsFramed_eq data _ _

end Checked

theorem bit_le_of_wellFramed {data : List UInt8} (hframed : wellFramed data = true)
    (hone : declaredBits data = 1) :
    9 ≤ data.length ∧ 9 + littleEndian (slice data 5 9) ≤ data.length := by
  rw [wellFramed, hone] at hframed
  split_ifs at hframed with hshort
  simp only [bitsFramed] at hframed
  split_ifs at hframed with hfield hbit
  exact ⟨not_lt.mp hfield, not_lt.mp hbit⟩

namespace Checked

open Support.Checked

/-- `boolBit` cuts nothing outside the data. -/
theorem boolBit_eq (data : List UInt8) : boolBit data = given (Fhe.boolBit data) := by
  rw [boolBit, Fhe.boolBit, wellFramed_eq, ok_bind]
  by_cases hframed : Fhe.wellFramed data = true
  · have hlength : ¬ data.length < 5 := fun hshort => by
      rw [Fhe.wellFramed, if_pos hshort] at hframed
      cases hframed
    rw [hframed, if_neg (by decide), cut_eq_slice (Nat.zero_le 4) (by omega), ok_bind,
      ← declaredBits]
    by_cases hone : declaredBits data = 1
    · obtain ⟨hfield, hbit⟩ := bit_le_of_wellFramed hframed hone
      rw [if_neg (not_not.mpr hone), cut_eq_slice (by decide) hfield, ok_bind,
        cut_eq_slice (Nat.le_add_right _ _) hbit, hone]
      rfl
    · rw [if_pos hone, if_pos (by simp [hone])]
      rfl
  · rw [Bool.not_eq_true] at hframed
    rw [hframed]
    rfl

/-! ## The operations -/

section Operations

variable {BitCiphertext Ciphertext : Type} (fhe : Library BitCiphertext Ciphertext)

def deserializeBitCiphertext (data : List UInt8) : Result BitCiphertext := do
  let framed ← wellFramed data
  if framed then given (fhe.unmarshalBinary data) else .error (.refused ())

/-- Two encodings, decoded. -/
def deserializePair (lhs rhs : List UInt8) : Result (BitCiphertext × BitCiphertext) := do
  given (getEvaluator fhe)
  let ctLhs ← deserializeBitCiphertext fhe lhs
  let ctRhs ← deserializeBitCiphertext fhe rhs
  .ok (ctLhs, ctRhs)

def tfheArithmetic (op : Arithmetic) (lhs rhs : List UInt8) : Result (List UInt8) := do
  let (ctLhs, ctRhs) ← deserializePair fhe lhs rhs
  let result ← given (fhe.arithmetic op ctLhs ctRhs)
  given (serializeBitCiphertext fhe result)

def tfheComparison (op : Comparison) (lhs rhs : List UInt8) : Result (List UInt8) := do
  let (ctLhs, ctRhs) ← deserializePair fhe lhs rhs
  let result ← given (fhe.comparison op ctLhs ctRhs)
  given (serializeBitCiphertext fhe (fhe.wrapBool result))

def tfheNe (lhs rhs : List UInt8) : Result (List UInt8) := do
  let (ctLhs, ctRhs) ← deserializePair fhe lhs rhs
  let ltResult ← given (fhe.comparison .lt ctLhs ctRhs)
  let gtResult ← given (fhe.comparison .gt ctLhs ctRhs)
  let neResult ← given (fhe.arithmetic .or (fhe.wrapBool ltResult) (fhe.wrapBool gtResult))
  given (serializeBitCiphertext fhe neResult)

def tfhePick (op : Comparison) (lhs rhs : List UInt8) : Result (List UInt8) := do
  let (ctLhs, ctRhs) ← deserializePair fhe lhs rhs
  let picked ← given (fhe.comparison op ctLhs ctRhs)
  let result ← given (fhe.select picked ctLhs ctRhs)
  given (serializeBitCiphertext fhe result)

def tfheUnary (method : BitCiphertext → Result BitCiphertext) (ct : List UInt8) :
    Result (List UInt8) := do
  given (getEvaluator fhe)
  let ctIn ← deserializeBitCiphertext fhe ct
  let result ← method ctIn
  given (serializeBitCiphertext fhe result)

/-- A rotation: the shift is taken modulo the number of bits. -/
def rotate (first second : BitCiphertext → ℕ → BitCiphertext) (shift : ℕ)
    (ct : BitCiphertext) : Result BitCiphertext := do
  demand (fhe.numBits ct ≠ 0)
  given (fhe.arithmetic .or (first ct (shift % fhe.numBits ct))
    (second ct (fhe.numBits ct - shift % fhe.numBits ct)))

def tfheEncrypted (op : Arithmetic) (ct : List UInt8) (scalar : UInt64) (fheType : UInt8) :
    Result (List UInt8) := do
  let ctIn ← deserializeBitCiphertext fhe ct
  let ctScalar ← given (fhe.encryptUint64 scalar (fheTypeToTFHEType fheType))
  let result ← given (fhe.arithmetic op ctIn ctScalar)
  given (serializeBitCiphertext fhe result)

def tfheScalarDiv (ct : List UInt8) (scalar : UInt64) (fheType : UInt8) :
    Result (List UInt8) := do
  given (getEvaluator fhe)
  given (getEncryptor fhe)
  if scalar = 0 then given (tfheMaxValue fhe fheType)
  else tfheEncrypted fhe .div ct scalar fheType

def tfheScalarRem (ct : List UInt8) (scalar : UInt64) (fheType : UInt8) :
    Result (List UInt8) := do
  given (getEvaluator fhe)
  given (getEncryptor fhe)
  if scalar = 0 then .ok ct else tfheEncrypted fhe .rem ct scalar fheType

def tfheSelect (control ifTrue ifFalse : List UInt8) : Result (List UInt8) := do
  given (getEvaluator fhe)
  let bit ← boolBit control
  let ctControl ← given (deserializeCiphertext fhe bit)
  let ctTrue ← deserializeBitCiphertext fhe ifTrue
  let ctFalse ← deserializeBitCiphertext fhe ifFalse
  let result ← given (fhe.select ctControl ctTrue ctFalse)
  given (serializeBitCiphertext fhe result)

def tfheVerify (ct : List UInt8) : Result Unit := do
  let _ ← deserializeBitCiphertext fhe ct
  .ok ()

variable {fhe}

theorem deserializeBitCiphertext_eq (data : List UInt8) :
    deserializeBitCiphertext fhe data = given (Fhe.deserializeBitCiphertext fhe data) := by
  rw [deserializeBitCiphertext, Fhe.deserializeBitCiphertext, wellFramed_eq, ok_bind]
  split_ifs
  · rfl
  · rfl

theorem given_bind {α β : Type} (x : Option α) (f : α → Option β) :
    given (x >>= f) = given x >>= fun a => given (f a) := ofOption_bind () x f

theorem deserializePair_eq (lhs rhs : List UInt8) :
    deserializePair fhe lhs rhs = given (Fhe.deserializePair fhe lhs rhs) := by
  simp only [deserializePair, Fhe.deserializePair, deserializeBitCiphertext_eq, given_bind]
  rfl

theorem tfheArithmetic_eq (op : Arithmetic) (lhs rhs : List UInt8) :
    tfheArithmetic fhe op lhs rhs = given (Fhe.tfheArithmetic fhe op lhs rhs) := by
  simp only [tfheArithmetic, Fhe.tfheArithmetic, deserializePair_eq, given_bind]

theorem tfheComparison_eq (op : Comparison) (lhs rhs : List UInt8) :
    tfheComparison fhe op lhs rhs = given (Fhe.tfheComparison fhe op lhs rhs) := by
  simp only [tfheComparison, Fhe.tfheComparison, deserializePair_eq, given_bind]

theorem tfheNe_eq (lhs rhs : List UInt8) :
    tfheNe fhe lhs rhs = given (Fhe.tfheNe fhe lhs rhs) := by
  simp only [tfheNe, Fhe.tfheNe, deserializePair_eq, given_bind]

theorem tfhePick_eq (op : Comparison) (lhs rhs : List UInt8) :
    tfhePick fhe op lhs rhs = given (Fhe.tfhePick fhe op lhs rhs) := by
  simp only [tfhePick, Fhe.tfhePick, deserializePair_eq, given_bind]

theorem tfheUnary_eq {method : BitCiphertext → Option BitCiphertext} (ct : List UInt8) :
    tfheUnary fhe (fun a => given (method a)) ct = given (Fhe.tfheUnary fhe method ct) := by
  simp only [tfheUnary, Fhe.tfheUnary, deserializeBitCiphertext_eq, given_bind]

theorem tfheEncrypted_eq (op : Arithmetic) (ct : List UInt8) (scalar : UInt64) (t : UInt8) :
    tfheEncrypted fhe op ct scalar t = given (Fhe.tfheEncrypted fhe op ct scalar t) := by
  simp only [tfheEncrypted, Fhe.tfheEncrypted, deserializeBitCiphertext_eq, given_bind]

theorem tfheScalarDiv_eq (ct : List UInt8) (scalar : UInt64) (t : UInt8) :
    tfheScalarDiv fhe ct scalar t = given (Fhe.tfheScalarDiv fhe ct scalar t) := by
  by_cases hzero : scalar = 0
  · simp only [tfheScalarDiv, Fhe.tfheScalarDiv, given_bind, if_pos hzero]
  · simp only [tfheScalarDiv, Fhe.tfheScalarDiv, tfheEncrypted_eq, given_bind, if_neg hzero]

theorem tfheScalarRem_eq (ct : List UInt8) (scalar : UInt64) (t : UInt8) :
    tfheScalarRem fhe ct scalar t = given (Fhe.tfheScalarRem fhe ct scalar t) := by
  by_cases hzero : scalar = 0
  · simp only [tfheScalarRem, Fhe.tfheScalarRem, given_bind, if_pos hzero]
    rfl
  · simp only [tfheScalarRem, Fhe.tfheScalarRem, tfheEncrypted_eq, given_bind, if_neg hzero]

theorem tfheSelect_eq (control ifTrue ifFalse : List UInt8) :
    tfheSelect fhe control ifTrue ifFalse =
      given (Fhe.tfheSelect fhe control ifTrue ifFalse) := by
  have hcontrol : given ((Fhe.boolBit control).bind (deserializeCiphertext fhe)) =
      given (Fhe.boolBit control) >>= fun bit => given (deserializeCiphertext fhe bit) :=
    given_bind _ _
  simp only [tfheSelect, Fhe.tfheSelect, boolBit_eq, deserializeBitCiphertext_eq, given_bind,
    hcontrol, bind_assoc]

theorem tfheVerify_eq (ct : List UInt8) :
    tfheVerify fhe ct = given (if Fhe.tfheVerify fhe ct then some () else none) := by
  rw [tfheVerify, Fhe.tfheVerify, deserializeBitCiphertext_eq]
  rcases Fhe.deserializeBitCiphertext fhe ct with _ | a
  · rfl
  · rfl

theorem rotate_eq {first second : BitCiphertext → ℕ → BitCiphertext} {shift : ℕ}
    {ct : BitCiphertext} (hbits : fhe.numBits ct ≠ 0) :
    rotate fhe first second shift ct = given (Fhe.rotate fhe first second shift ct) := by
  rw [rotate, Fhe.rotate, demand_of hbits, if_neg hbits, ok_bind]

theorem rotate_eq_panic {first second : BitCiphertext → ℕ → BitCiphertext} {shift : ℕ}
    {ct : BitCiphertext} :
    rotate fhe first second shift ct = .error .panic ↔ fhe.numBits ct = 0 := by
  rw [rotate, bind_eq_panic, demand_eq_panic, not_not, or_iff_left]
  rintro ⟨-, -, h⟩
  exact ofOption_ne_panic _ _ h

/-- The encodings whose rotation panics under an evaluator: those of no bits. -/
def NoBits (fhe : Library BitCiphertext Ciphertext) (ct : List UInt8) : Prop :=
  fhe.evaluator = true ∧ ∃ a, Fhe.deserializeBitCiphertext fhe ct = some a ∧ fhe.numBits a = 0

theorem tfheUnary_rotate_eq_panic {first second : BitCiphertext → ℕ → BitCiphertext}
    {shift : ℕ} {ct : List UInt8} (hct : NoBits fhe ct) :
    tfheUnary fhe (rotate fhe first second shift) ct = .error .panic := by
  obtain ⟨hevaluator, a, ha, hbits⟩ := hct
  have hinstalled : getEvaluator fhe = some () := if_pos hevaluator
  have hdecoded : given (Fhe.deserializeBitCiphertext fhe ct) = .ok a := by
    rw [ha]
    rfl
  rw [tfheUnary, hinstalled, deserializeBitCiphertext_eq, hdecoded]
  change (rotate fhe first second shift a >>= _) = _
  rw [rotate_eq_panic.mpr hbits]
  rfl

theorem tfheUnary_rotate_eq {first second : BitCiphertext → ℕ → BitCiphertext} {shift : ℕ}
    {ct : List UInt8} (hct : ¬ NoBits fhe ct) :
    tfheUnary fhe (rotate fhe first second shift) ct =
      given (Fhe.tfheUnary fhe (Fhe.rotate fhe first second shift) ct) := by
  rw [← tfheUnary_eq, tfheUnary, tfheUnary]
  by_cases hevaluator : fhe.evaluator = true
  · rw [deserializeBitCiphertext_eq]
    rcases ha : Fhe.deserializeBitCiphertext fhe ct with _ | a
    · rfl
    · have hbits : fhe.numBits a ≠ 0 := fun hzero => hct ⟨hevaluator, a, ha, hzero⟩
      have hdecoded : given (some a) = .ok a := rfl
      rw [hdecoded, ok_bind, ok_bind, rotate_eq hbits]
  · have hnone : getEvaluator fhe = none := if_neg hevaluator
    rw [hnone]
    rfl

end Operations

/-! ## Results -/

section Results

variable {BitCiphertext Ciphertext : Type} (keccak256 : List UInt8 → Word)
  (fhe : Library BitCiphertext Ciphertext)

def evaluateBinary : BinaryOp → List UInt8 → List UInt8 → Result (List UInt8)
  | .arithmetic op => tfheArithmetic fhe op
  | .comparison op => tfheComparison fhe op
  | .ne => tfheNe fhe
  | .min => tfhePick fhe .lt
  | .max => tfhePick fhe .gt

def evaluateUnary : UnaryOp → List UInt8 → Result (List UInt8)
  | .not => tfheUnary fhe fun ct => given (some (fhe.not ct))
  | .neg => tfheUnary fhe fun ct => given (fhe.neg ct)

def evaluateScalar (ct : List UInt8) (scalar : UInt64) (ctType : UInt8) :
    ScalarOp → Result (List UInt8)
  | .add => tfheUnary fhe (fun ct => given (fhe.scalarAdd ct scalar)) ct
  | .sub =>
      tfheUnary fhe (fun ct => given (fhe.scalarAdd ct
        ((~~~scalar + 1) &&& UInt64.ofNat (2 ^ fhe.numBits ct - 1)))) ct
  | .mul => tfheUnary fhe (fun ct => given (fhe.scalarMul ct scalar)) ct
  | .div => tfheScalarDiv fhe ct scalar ctType
  | .rem => tfheScalarRem fhe ct scalar ctType

def evaluateShift (shift : ℕ) : ShiftOp → List UInt8 → Result (List UInt8)
  | .shl => tfheUnary fhe fun ct => given (some (fhe.shl ct shift))
  | .shr => tfheUnary fhe fun ct => given (some (fhe.shr ct shift))
  | .rotl => tfheUnary fhe (rotate fhe fhe.shl fhe.shr shift)
  | .rotr => tfheUnary fhe (rotate fhe fhe.shr fhe.shl shift)

variable (st : Storage)

/-- What each of the `perform` helpers computes, up to the store. -/
def result (caller : Address) : Operation → Result (List UInt8 × UInt8)
  | .binary op handle1 handle2 => do
      let (lhs, lhsType) ← given (getCiphertext keccak256 st handle1)
      let (rhs, _) ← given (getCiphertext keccak256 st handle2)
      let result ← evaluateBinary fhe op lhs rhs
      .ok (result, if op.compares then typeEbool else lhsType)
  | .select condition ifTrue ifFalse => do
      let (ctControl, _) ← given (getCiphertext keccak256 st condition)
      let (ctTrue, trueType) ← given (getCiphertext keccak256 st ifTrue)
      let (ctFalse, _) ← given (getCiphertext keccak256 st ifFalse)
      let result ← tfheSelect fhe ctControl ctTrue ctFalse
      .ok (result, trueType)
  | .unary op handle => do
      let (ct, ctType) ← given (getCiphertext keccak256 st handle)
      let result ← evaluateUnary fhe op ct
      .ok (result, ctType)
  | .scalar op handle scalar => do
      let (ct, ctType) ← given (getCiphertext keccak256 st handle)
      let s ← given (unsigned64 scalar)
      let result ← evaluateScalar fhe ct s ctType op
      .ok (result, ctType)
  | .shift op handle shift => do
      let (ct, ctType) ← given (getCiphertext keccak256 st handle)
      let result ← evaluateShift fhe shift op ct
      .ok (result, ctType)
  | .cast handle toType => do
      let (ct, _) ← given (getCiphertext keccak256 st handle)
      let result ← tfheUnary fhe
        (fun ct => given (some (fhe.castTo ct (fheTypeToTFHEType toType)))) ct
      .ok (result, toType)
  | .encrypt value ctType => given (encryptValue fhe value ctType)
  | .random ctType => given (generateEncryptedRandom fhe ctType caller)
  | .verify ct ctType => do
      tfheVerify fhe ct
      .ok (ct, ctType)
  | .decrypt _ => .error (.refused ())
  | .sealOutput _ => .error (.refused ())

/-- The operations that divide by the bits of an encoding without bits: the rotations of a
handle that resolves to one. -/
def RotatesNoBits : Operation → Prop
  | .shift op handle _ => (op = .rotl ∨ op = .rotr) ∧
      ∃ ct t, getCiphertext keccak256 st handle = some (ct, t) ∧ NoBits fhe ct
  | _ => False

variable {keccak256 fhe st}

theorem RotatesNoBits.eq_shift {op : Operation} (h : RotatesNoBits keccak256 fhe st op) :
    ∃ rotation handle shift, op = .shift rotation handle shift := by
  cases op with
  | shift rotation handle shift => exact ⟨rotation, handle, shift, rfl⟩
  | _ => exact h.elim

theorem evaluateBinary_eq (op : BinaryOp) (lhs rhs : List UInt8) :
    evaluateBinary fhe op lhs rhs = given (op.evaluate fhe lhs rhs) := by
  rcases op with op | op | _ | _ | _
  · rw [evaluateBinary, tfheArithmetic_eq]
    rcases op <;> rfl
  · rw [evaluateBinary, tfheComparison_eq]
    rcases op <;> rfl
  · exact tfheNe_eq lhs rhs
  · exact tfhePick_eq .lt lhs rhs
  · exact tfhePick_eq .gt lhs rhs

theorem evaluateUnary_eq (op : UnaryOp) (ct : List UInt8) :
    evaluateUnary fhe op ct = given (op.evaluate fhe ct) := by
  rcases op with _ | _
  · exact tfheUnary_eq ct
  · exact tfheUnary_eq ct

theorem evaluateScalar_eq (op : ScalarOp) (ct : List UInt8) (scalar : UInt64) (t : UInt8) :
    evaluateScalar fhe ct scalar t op = given (op.evaluate fhe ct scalar t) := by
  rcases op with _ | _ | _ | _ | _
  · exact tfheUnary_eq ct
  · exact tfheUnary_eq ct
  · exact tfheUnary_eq ct
  · exact tfheScalarDiv_eq ct scalar t
  · exact tfheScalarRem_eq ct scalar t

theorem evaluateShift_eq {op : ShiftOp} {shift : ℕ} {ct : List UInt8}
    (h : ¬ ((op = .rotl ∨ op = .rotr) ∧ NoBits fhe ct)) :
    evaluateShift fhe shift op ct = given (op.evaluate fhe shift ct) := by
  rcases op with _ | _ | _ | _
  · exact tfheUnary_eq ct
  · exact tfheUnary_eq ct
  · exact tfheUnary_rotate_eq fun hct => h ⟨.inl rfl, hct⟩
  · exact tfheUnary_rotate_eq fun hct => h ⟨.inr rfl, hct⟩

theorem evaluateShift_eq_panic {op : ShiftOp} {shift : ℕ} {ct : List UInt8}
    (hop : op = .rotl ∨ op = .rotr) (hct : NoBits fhe ct) :
    evaluateShift fhe shift op ct = .error .panic := by
  rcases hop with rfl | rfl
  · exact tfheUnary_rotate_eq_panic hct
  · exact tfheUnary_rotate_eq_panic hct

theorem ok_eq_given {α : Type} (a : α) : (.ok a : Result α) = given (pure a) := rfl

/-- An operation that rotates no encoding without bits computes what it does with the slices
and the remainders left out. -/
theorem result_eq {caller : Address} {op : Operation}
    (h : ¬ RotatesNoBits keccak256 fhe st op) :
    result keccak256 fhe st caller op = given (op.result keccak256 fhe st caller) := by
  rcases op with ⟨op, handle1, handle2⟩ | ⟨condition, ifTrue, ifFalse⟩ | ⟨op, handle⟩ |
    ⟨op, handle, scalar⟩ | ⟨op, handle, shift⟩ | ⟨handle, toType⟩ | ⟨value, ctType⟩ | ctType |
    ⟨ct, ctType⟩ | handle | handle
  · simp only [result, Operation.result, fheOperation, evaluateBinary_eq, given_bind,
      ok_eq_given]
  · simp only [result, Operation.result, fheSelect, tfheSelect_eq, given_bind, ok_eq_given]
  · simp only [result, Operation.result, fheUnaryOperation, evaluateUnary_eq, given_bind,
      ok_eq_given]
  · simp only [result, Operation.result, fheScalarOperation, evaluateScalar_eq, given_bind,
      ok_eq_given]
  · simp only [result, Operation.result, fheShiftOperation]
    rcases hget : getCiphertext keccak256 st handle with _ | ⟨ct, t⟩
    · rfl
    · have hshift : evaluateShift fhe shift op ct = given (op.evaluate fhe shift ct) :=
        evaluateShift_eq fun hrot => h ⟨hrot.1, ct, t, hget, hrot.2⟩
      have hresolved : given (some (ct, t)) = .ok (ct, t) := rfl
      simp only [given_bind, ok_eq_given]
      rw [hresolved, ok_bind, ok_bind, hshift]
  · simp only [result, Operation.result, fheCast, tfheCast, tfheUnary_eq, given_bind,
      ok_eq_given]
  · rfl
  · rfl
  · rw [result, Operation.result, fheVerify, tfheVerify_eq]
    split_ifs
    · rfl
    · rfl
  · rfl
  · rfl

theorem result_eq_panic {caller : Address} {op : Operation}
    (h : RotatesNoBits keccak256 fhe st op) :
    result keccak256 fhe st caller op = .error .panic := by
  obtain ⟨op, handle, shift, rfl⟩ := h.eq_shift
  obtain ⟨hop, ct, t, hget, hct⟩ := h
  have hresolved : given (getCiphertext keccak256 st handle) = .ok (ct, t) := by
    rw [hget]
    rfl
  rw [result, hresolved, ok_bind]
  dsimp only
  rw [evaluateShift_eq_panic hop hct]
  rfl

end Results

end Checked

end LuxPrecompile.Fhe
