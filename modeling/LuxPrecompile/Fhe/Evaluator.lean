import LuxPrecompile.Evm.Bytes

/-!
# Evaluation under the network keys

`fhe/fhe_ops.go`.  The library `luxfi/fhe` is outside the repository, so its
ciphertexts and its methods are parameters; what is modelled is how the precompile
decodes the encodings it keeps, which method it calls and what it encodes again.
-/

namespace LuxPrecompile.Fhe

open Evm

/-! ## Types -/

def typeEbool : UInt8 := 0
def typeEuint4 : UInt8 := 1
def typeEuint8 : UInt8 := 2
def typeEuint16 : UInt8 := 3
def typeEuint32 : UInt8 := 4
def typeEuint64 : UInt8 := 5
def typeEuint128 : UInt8 := 6
def typeEuint160 : UInt8 := 7
def typeEuint256 : UInt8 := 8
def typeEaddress : UInt8 := 7

/-- The bits of the types, in the order of their constants. -/
def typeWidths : List ℕ := [1, 4, 8, 16, 32, 64, 128, 160, 256]

/-- The bits of a ciphertext type; a byte above the last constant is no type. -/
def typeBits (fheType : UInt8) : Option ℕ := typeWidths[fheType.toNat]?

/-- The types of the library. -/
inductive FheUintType
  | fheBool
  | fheUint4
  | fheUint8
  | fheUint16
  | fheUint32
  | fheUint64
  | fheUint128
  | fheUint160
  | fheUint256
deriving DecidableEq, Repr

def FheUintType.bits : FheUintType → ℕ
  | .fheBool => 1
  | .fheUint4 => 4
  | .fheUint8 => 8
  | .fheUint16 => 16
  | .fheUint32 => 32
  | .fheUint64 => 64
  | .fheUint128 => 128
  | .fheUint160 => 160
  | .fheUint256 => 256

/-- `fheTypeToTFHEType`: four bits and unknown types fall to the default. -/
def fheTypeToTFHEType (fheType : UInt8) : FheUintType :=
  if fheType = typeEbool then .fheBool
  else if fheType = typeEuint8 then .fheUint8
  else if fheType = typeEuint16 then .fheUint16
  else if fheType = typeEuint32 then .fheUint32
  else if fheType = typeEuint64 then .fheUint64
  else if fheType = typeEuint128 then .fheUint128
  else if fheType = typeEuint256 then .fheUint256
  else if fheType = typeEaddress then .fheUint160
  else .fheUint32

theorem typeBits_inj {s t : UInt8} {n : ℕ} (hs : typeBits s = some n)
    (ht : typeBits t = some n) : s = t := by
  have hlt : s.toNat < typeWidths.length := (List.getElem?_eq_some_iff.mp hs).1
  have hnodup : typeWidths.Nodup := by decide
  exact UInt8.toNat_inj.mp ((List.getElem?_inj hlt hnodup).mp (hs.trans ht.symm))

theorem typeBits_bounds {t : UInt8} {n : ℕ} (ht : typeBits t = some n) : 0 < n ∧ n ≤ 256 := by
  have hall : ∀ width ∈ typeWidths, 0 < width ∧ width ≤ 256 := by decide
  exact hall n (List.mem_of_getElem? ht)

/-! ## The library -/

/-- The evaluator's methods on two integers. -/
inductive Arithmetic
  | add
  | sub
  | mul
  | div
  | rem
  | and
  | or
  | xor
deriving DecidableEq, Repr

/-- The evaluator's comparisons. -/
inductive Comparison
  | lt
  | le
  | gt
  | ge
  | eq
deriving DecidableEq, Repr

/-- `luxfi/fhe` with the keys that are installed, if they are.  A method that may fail
gives no value. -/
structure Library (BitCiphertext Ciphertext : Type) where
  evaluator : Bool
  encryptor : Bool
  publicKey : Bool
  marshalBinary : BitCiphertext → Option (List UInt8)
  unmarshalBinary : List UInt8 → Option BitCiphertext
  unmarshalCiphertext : List UInt8 → Option Ciphertext
  numBits : BitCiphertext → ℕ
  arithmetic : Arithmetic → BitCiphertext → BitCiphertext → Option BitCiphertext
  comparison : Comparison → BitCiphertext → BitCiphertext → Option Ciphertext
  wrapBool : Ciphertext → BitCiphertext
  not : BitCiphertext → BitCiphertext
  neg : BitCiphertext → Option BitCiphertext
  select : Ciphertext → BitCiphertext → BitCiphertext → Option BitCiphertext
  castTo : BitCiphertext → FheUintType → BitCiphertext
  shl : BitCiphertext → ℕ → BitCiphertext
  shr : BitCiphertext → ℕ → BitCiphertext
  scalarAdd : BitCiphertext → UInt64 → Option BitCiphertext
  scalarMul : BitCiphertext → UInt64 → Option BitCiphertext
  maxValue : FheUintType → BitCiphertext
  encryptUint64 : UInt64 → FheUintType → Option BitCiphertext
  randomUint : List UInt8 → FheUintType → Option BitCiphertext

/-! ## Encodings -/

/-- `binary.LittleEndian.Uint32` of four bytes. -/
def littleEndian (bs : List UInt8) : ℕ := bytesToNat bs.reverse

def maxCiphertextBits : ℕ := 256

/-- The number of bits an encoding declares. -/
def declaredBits (data : List UInt8) : ℕ := littleEndian (slice data 0 4)

/-- The loop of `wellFramed` from an offset, for the bits that remain. -/
def bitsFramed (data : List UInt8) : ℕ → ℕ → Bool
  | 0, _ => true
  | n + 1, off =>
      if data.length < off + 4 then false
      else
        let bitLen := littleEndian (slice data off (off + 4))
        if data.length < off + 4 + bitLen then false
        else bitsFramed data n (off + 4 + bitLen)

def wellFramed (data : List UInt8) : Bool :=
  if data.length < 5 then false
  else if maxCiphertextBits < declaredBits data then false
  else bitsFramed data (declaredBits data) 5

def boolBit (data : List UInt8) : Option (List UInt8) :=
  if !wellFramed data || declaredBits data != 1 then none
  else some (slice data 9 (9 + littleEndian (slice data 5 9)))

section Operations

variable {BitCiphertext Ciphertext : Type} (fhe : Library BitCiphertext Ciphertext)

def serializeBitCiphertext (ct : BitCiphertext) : Option (List UInt8) := fhe.marshalBinary ct

def deserializeBitCiphertext (data : List UInt8) : Option BitCiphertext :=
  if wellFramed data then fhe.unmarshalBinary data else none

def deserializeCiphertext (data : List UInt8) : Option Ciphertext :=
  if data.length = 0 then none else fhe.unmarshalCiphertext data

/-- The evaluator, when a bootstrap key is installed. -/
def getEvaluator : Option Unit := if fhe.evaluator then some () else none

/-- The encryptor, when a public key is installed. -/
def getEncryptor : Option Unit := if fhe.encryptor then some () else none

def getPublicKey : Option Unit := if fhe.publicKey then some () else none

/-! ## Two operands -/

/-- Two encodings, decoded. -/
def deserializePair (lhs rhs : List UInt8) : Option (BitCiphertext × BitCiphertext) := do
  getEvaluator fhe
  let ctLhs ← deserializeBitCiphertext fhe lhs
  let ctRhs ← deserializeBitCiphertext fhe rhs
  return (ctLhs, ctRhs)

def tfheArithmetic (op : Arithmetic) (lhs rhs : List UInt8) : Option (List UInt8) := do
  let (ctLhs, ctRhs) ← deserializePair fhe lhs rhs
  let result ← fhe.arithmetic op ctLhs ctRhs
  serializeBitCiphertext fhe result

def tfheAdd : List UInt8 → List UInt8 → Option (List UInt8) := tfheArithmetic fhe .add
def tfheSub : List UInt8 → List UInt8 → Option (List UInt8) := tfheArithmetic fhe .sub
def tfheMul : List UInt8 → List UInt8 → Option (List UInt8) := tfheArithmetic fhe .mul
def tfheDiv : List UInt8 → List UInt8 → Option (List UInt8) := tfheArithmetic fhe .div
def tfheRem : List UInt8 → List UInt8 → Option (List UInt8) := tfheArithmetic fhe .rem
def tfheAnd : List UInt8 → List UInt8 → Option (List UInt8) := tfheArithmetic fhe .and
def tfheOr : List UInt8 → List UInt8 → Option (List UInt8) := tfheArithmetic fhe .or
def tfheXor : List UInt8 → List UInt8 → Option (List UInt8) := tfheArithmetic fhe .xor

/-- The single bit of a comparison is wrapped as a boolean. -/
def tfheComparison (op : Comparison) (lhs rhs : List UInt8) : Option (List UInt8) := do
  let (ctLhs, ctRhs) ← deserializePair fhe lhs rhs
  let result ← fhe.comparison op ctLhs ctRhs
  serializeBitCiphertext fhe (fhe.wrapBool result)

def tfheLt : List UInt8 → List UInt8 → Option (List UInt8) := tfheComparison fhe .lt
def tfheLe : List UInt8 → List UInt8 → Option (List UInt8) := tfheComparison fhe .le
def tfheGt : List UInt8 → List UInt8 → Option (List UInt8) := tfheComparison fhe .gt
def tfheGe : List UInt8 → List UInt8 → Option (List UInt8) := tfheComparison fhe .ge
def tfheEq : List UInt8 → List UInt8 → Option (List UInt8) := tfheComparison fhe .eq

/-- `tfheNe`: less than or greater than. -/
def tfheNe (lhs rhs : List UInt8) : Option (List UInt8) := do
  let (ctLhs, ctRhs) ← deserializePair fhe lhs rhs
  let ltResult ← fhe.comparison .lt ctLhs ctRhs
  let gtResult ← fhe.comparison .gt ctLhs ctRhs
  let neResult ← fhe.arithmetic .or (fhe.wrapBool ltResult) (fhe.wrapBool gtResult)
  serializeBitCiphertext fhe neResult

/-- The operand that a comparison picks. -/
def tfhePick (op : Comparison) (lhs rhs : List UInt8) : Option (List UInt8) := do
  let (ctLhs, ctRhs) ← deserializePair fhe lhs rhs
  let picked ← fhe.comparison op ctLhs ctRhs
  let result ← fhe.select picked ctLhs ctRhs
  serializeBitCiphertext fhe result

def tfheMin : List UInt8 → List UInt8 → Option (List UInt8) := tfhePick fhe .lt
def tfheMax : List UInt8 → List UInt8 → Option (List UInt8) := tfhePick fhe .gt

/-! ## One operand -/

/-- A method applied to one decoded operand. -/
def tfheUnary (method : BitCiphertext → Option BitCiphertext) (ct : List UInt8) :
    Option (List UInt8) := do
  getEvaluator fhe
  let ctIn ← deserializeBitCiphertext fhe ct
  let result ← method ctIn
  serializeBitCiphertext fhe result

def tfheNot : List UInt8 → Option (List UInt8) := tfheUnary fhe fun ct => some (fhe.not ct)
def tfheNeg : List UInt8 → Option (List UInt8) := tfheUnary fhe fhe.neg

def tfheCast (toType : UInt8) : List UInt8 → Option (List UInt8) :=
  tfheUnary fhe fun ct => some (fhe.castTo ct (fheTypeToTFHEType toType))

def tfheShl (shift : ℕ) : List UInt8 → Option (List UInt8) :=
  tfheUnary fhe fun ct => some (fhe.shl ct shift)

def tfheShr (shift : ℕ) : List UInt8 → Option (List UInt8) :=
  tfheUnary fhe fun ct => some (fhe.shr ct shift)

/-- A rotation from two shifts.  Without a bit there is nothing to rotate by: the
remainder by zero panics. -/
def rotate (first second : BitCiphertext → ℕ → BitCiphertext) (shift : ℕ)
    (ct : BitCiphertext) : Option BitCiphertext :=
  if fhe.numBits ct = 0 then none
  else fhe.arithmetic .or (first ct (shift % fhe.numBits ct))
    (second ct (fhe.numBits ct - shift % fhe.numBits ct))

def tfheRotl (shift : ℕ) : List UInt8 → Option (List UInt8) :=
  tfheUnary fhe (rotate fhe fhe.shl fhe.shr shift)

def tfheRotr (shift : ℕ) : List UInt8 → Option (List UInt8) :=
  tfheUnary fhe (rotate fhe fhe.shr fhe.shl shift)

/-! ## Scalars -/

def tfheScalarAdd (scalar : UInt64) : List UInt8 → Option (List UInt8) :=
  tfheUnary fhe fun ct => fhe.scalarAdd ct scalar

/-- `tfheScalarSub`: the two's complement of the scalar, masked, is added. -/
def tfheScalarSub (scalar : UInt64) : List UInt8 → Option (List UInt8) :=
  tfheUnary fhe fun ct =>
    fhe.scalarAdd ct ((~~~scalar + 1) &&& UInt64.ofNat (2 ^ fhe.numBits ct - 1))

def tfheScalarMul (scalar : UInt64) : List UInt8 → Option (List UInt8) :=
  tfheUnary fhe fun ct => fhe.scalarMul ct scalar

def tfheMaxValue (fheType : UInt8) : Option (List UInt8) := do
  getEvaluator fhe
  serializeBitCiphertext fhe (fhe.maxValue (fheTypeToTFHEType fheType))

/-- The scalar is encrypted under the operand's type and the method applied to both. -/
def tfheEncrypted (op : Arithmetic) (ct : List UInt8) (scalar : UInt64) (fheType : UInt8) :
    Option (List UInt8) := do
  let ctIn ← deserializeBitCiphertext fhe ct
  let ctScalar ← fhe.encryptUint64 scalar (fheTypeToTFHEType fheType)
  let result ← fhe.arithmetic op ctIn ctScalar
  serializeBitCiphertext fhe result

/-- `tfheScalarDiv`: the quotient by zero is the greatest value. -/
def tfheScalarDiv (ct : List UInt8) (scalar : UInt64) (fheType : UInt8) :
    Option (List UInt8) := do
  getEvaluator fhe
  getEncryptor fhe
  if scalar = 0 then tfheMaxValue fhe fheType else tfheEncrypted fhe .div ct scalar fheType

/-- `tfheScalarRem`: the remainder by zero is the operand, as it is. -/
def tfheScalarRem (ct : List UInt8) (scalar : UInt64) (fheType : UInt8) :
    Option (List UInt8) := do
  getEvaluator fhe
  getEncryptor fhe
  if scalar = 0 then some ct else tfheEncrypted fhe .rem ct scalar fheType

/-! ## Selection and encryption -/

def tfheSelect (control ifTrue ifFalse : List UInt8) : Option (List UInt8) := do
  getEvaluator fhe
  let ctControl ← (boolBit control).bind (deserializeCiphertext fhe)
  let ctTrue ← deserializeBitCiphertext fhe ifTrue
  let ctFalse ← deserializeBitCiphertext fhe ifFalse
  let result ← fhe.select ctControl ctTrue ctFalse
  serializeBitCiphertext fhe result

/-- `contract.Unsigned` into 64 bits. -/
def unsigned64 (x : ℕ) : Option UInt64 := if x < 2 ^ 64 then some (UInt64.ofNat x) else none

def tfheTrivialEncrypt (plaintext : ℕ) (toType : UInt8) : Option (List UInt8) := do
  getEncryptor fhe
  let value ← unsigned64 plaintext
  let ct ← fhe.encryptUint64 value (fheTypeToTFHEType toType)
  serializeBitCiphertext fhe ct

def tfheRandom (fheType : UInt8) (seed : UInt64) : Option (List UInt8) := do
  getPublicKey fhe
  let ct ← fhe.randomUint (List.replicate 24 0 ++ uint64Bytes seed) (fheTypeToTFHEType fheType)
  serializeBitCiphertext fhe ct

def tfheVerify (ct : List UInt8) : Bool := (deserializeBitCiphertext fhe ct).isSome

end Operations

end LuxPrecompile.Fhe
