import LuxPrecompile.Evm.Store
import LuxPrecompile.Fhe.Evaluator

/-!
# The FHE precompile

`fhe/contract.go`.  Ciphertexts are kept in the storage of the precompile under the
hash of their bytes: a metadata word at the handle, the bytes in chunks at hashes of
the handle and an index, and the owner at a hash of a tag and the handle.  The three
kinds of slots share one space of words.
-/

namespace LuxPrecompile.Fhe

open Evm

/-- The errors of the package. -/
inductive Error
  | invalidInput
  | operationFailed
  | notImplemented
  | insufficientGas
  | readOnly
  | aclUnauthorized
  | thresholdDecryptionRequired
deriving DecidableEq, Repr

/-- The words of the precompile's account, by slot. -/
abbrev Storage := Store Word

/-! ## Gas -/

def gasAdd : UInt64 := 300000000
def gasSub : UInt64 := gasAdd
def gasMul : UInt64 := 2880000000
def gasDiv : UInt64 := 2016000000
def gasRem : UInt64 := gasDiv
def gasNeg : UInt64 := gasAdd
def gasEq : UInt64 := gasAdd
def gasNe : UInt64 := gasAdd
def gasGt : UInt64 := gasAdd
def gasGe : UInt64 := gasAdd
def gasLt : UInt64 := gasAdd
def gasLe : UInt64 := gasAdd
def gasMin : UInt64 := gasAdd * 2
def gasMax : UInt64 := gasAdd * 2
def gasSelect : UInt64 := gasAdd
def gasAnd : UInt64 := gasAdd / 6
def gasOr : UInt64 := gasAnd
def gasXor : UInt64 := gasAnd
def gasNot : UInt64 := gasAnd / 2
def gasShl : UInt64 := gasAdd
def gasShr : UInt64 := gasAdd
def gasRotl : UInt64 := gasAdd
def gasRotr : UInt64 := gasAdd
def gasEncrypt : UInt64 := 50000
def gasDecryptRequest : UInt64 := 10000
def gasRand : UInt64 := gasAdd
def gasCast : UInt64 := 30000
def gasVerifyPerByte : UInt64 := 32

/-! ## Operations

What a handler hands over once its arguments are decoded. -/

/-- The operations on two ciphertexts. -/
inductive BinaryOp
  | arithmetic (op : Arithmetic)
  | comparison (op : Comparison)
  | ne
  | min
  | max
deriving DecidableEq, Repr

inductive UnaryOp
  | not
  | neg
deriving DecidableEq, Repr

inductive ScalarOp
  | add
  | sub
  | mul
  | div
  | rem
deriving DecidableEq, Repr

inductive ShiftOp
  | shl
  | shr
  | rotl
  | rotr
deriving DecidableEq, Repr

/-- The operations of the precompile. -/
inductive Operation
  | binary (op : BinaryOp) (handle1 handle2 : Word)
  | select (condition ifTrue ifFalse : Word)
  | unary (op : UnaryOp) (handle : Word)
  | scalar (op : ScalarOp) (handle : Word) (value : ℕ)
  | shift (op : ShiftOp) (handle : Word) (amount : ℕ)
  | cast (handle : Word) (toType : UInt8)
  | encrypt (value : ℕ) (ctType : UInt8)
  | random (ctType : UInt8)
  | verify (ct : List UInt8) (ctType : UInt8)
  | decrypt (handle : Word)
  | sealOutput (handle : Word)
deriving DecidableEq

/-- The handles an operation computes with. -/
def Operation.operands : Operation → List Word
  | .binary _ handle1 handle2 => [handle1, handle2]
  | .select condition ifTrue ifFalse => [condition, ifTrue, ifFalse]
  | .unary _ handle => [handle]
  | .scalar _ handle _ => [handle]
  | .shift _ handle _ => [handle]
  | .cast handle _ => [handle]
  | _ => []

/-! ## Handlers -/

/-- An error with the gas left. -/
structure Failure where
  error : Error
  gas : UInt64
deriving DecidableEq

/-- What a handler checks before it works: the length of its arguments and the gas. -/
def handler (size : ℕ) (cost : UInt64) (data : List UInt8) (gas : UInt64) (op : Operation) :
    Except Failure (Operation × UInt64) :=
  if data.length < size then .error ⟨.invalidInput, gas⟩
  else if gas < cost then .error ⟨.insufficientGas, gas⟩
  else .ok (op, gas - cost)

/-- A handler takes the arguments of a call and its gas. -/
abbrev Handler := List UInt8 → UInt64 → Except Failure (Operation × UInt64)

/-- The handlers of two operands. -/
def handleBinary (op : BinaryOp) (cost : UInt64) : Handler := fun data gas =>
  handler 64 cost data gas (.binary op (argWord data 0) (argWord data 32))

def handleAdd : Handler := handleBinary (.arithmetic .add) gasAdd
def handleSub : Handler := handleBinary (.arithmetic .sub) gasSub
def handleMul : Handler := handleBinary (.arithmetic .mul) gasMul
def handleDiv : Handler := handleBinary (.arithmetic .div) gasDiv
def handleRem : Handler := handleBinary (.arithmetic .rem) gasRem
def handleLt : Handler := handleBinary (.comparison .lt) gasLt
def handleLe : Handler := handleBinary (.comparison .le) gasLe
def handleGt : Handler := handleBinary (.comparison .gt) gasGt
def handleGe : Handler := handleBinary (.comparison .ge) gasGe
def handleEq : Handler := handleBinary (.comparison .eq) gasEq
def handleNe : Handler := handleBinary .ne gasNe
def handleMin : Handler := handleBinary .min gasMin
def handleMax : Handler := handleBinary .max gasMax
def handleAnd : Handler := handleBinary (.arithmetic .and) gasAnd
def handleOr : Handler := handleBinary (.arithmetic .or) gasOr
def handleXor : Handler := handleBinary (.arithmetic .xor) gasXor

/-- The handlers of one operand. -/
def handleUnary (op : UnaryOp) (cost : UInt64) : Handler := fun data gas =>
  handler 32 cost data gas (.unary op (argWord data 0))

def handleNot : Handler := handleUnary .not gasNot
def handleNeg : Handler := handleUnary .neg gasNeg

/-- The handlers of an operand and a scalar word. -/
def handleScalar (op : ScalarOp) (cost : UInt64) : Handler := fun data gas =>
  handler 64 cost data gas (.scalar op (argWord data 0) (argWord data 32).toNat)

def handleScalarAdd : Handler := handleScalar .add gasAdd
def handleScalarSub : Handler := handleScalar .sub gasSub
def handleScalarMul : Handler := handleScalar .mul gasMul
def handleScalarDiv : Handler := handleScalar .div gasDiv
def handleScalarRem : Handler := handleScalar .rem gasRem

/-- The handlers of an operand and a byte to shift by. -/
def handleShift (op : ShiftOp) (cost : UInt64) : Handler := fun data gas =>
  handler 33 cost data gas (.shift op (argWord data 0) (data.getD 32 0).toNat)

def handleShl : Handler := handleShift .shl gasShl
def handleShr : Handler := handleShift .shr gasShr
def handleRotl : Handler := handleShift .rotl gasRotl
def handleRotr : Handler := handleShift .rotr gasRotr

def handleSelect : Handler := fun data gas =>
  handler 96 gasSelect data gas (.select (argWord data 0) (argWord data 32) (argWord data 64))

def handleCast : Handler := fun data gas =>
  handler 33 gasCast data gas (.cast (argWord data 0) (data.getD 32 0))

/-- The handlers of a plaintext word. -/
def handleEncrypt (ctType : UInt8) (value : Word → ℕ) : Handler := fun data gas =>
  handler 32 gasEncrypt data gas (.encrypt (value (argWord data 0)) ctType)

/-- `big.Int.Uint64` of a word, under a mask. -/
def masked (mask : ℕ) (value : Word) : ℕ := (value.toNat % 2 ^ 64) &&& mask

def handleAsEbool : Handler := handleEncrypt typeEbool fun value => if value = 0 then 0 else 1
def handleAsEuint4 : Handler := handleEncrypt typeEuint4 (masked 0xF)
def handleAsEuint8 : Handler := handleEncrypt typeEuint8 (masked 0xFF)
def handleAsEuint16 : Handler := handleEncrypt typeEuint16 (masked 0xFFFF)
def handleAsEuint32 : Handler := handleEncrypt typeEuint32 (masked 0xFFFFFFFF)
def handleAsEuint64 : Handler := handleEncrypt typeEuint64 fun value => value.toNat % 2 ^ 64
def handleAsEuint128 : Handler := handleEncrypt typeEuint128 fun value => value.toNat
def handleAsEuint256 : Handler := handleEncrypt typeEuint256 fun value => value.toNat

/-- The address is the last twenty bytes of the word. -/
def handleAsEaddress : Handler := handleEncrypt typeEaddress fun value => wordAddress value

def handleRand : Handler := fun data gas =>
  handler 1 gasRand data gas (.random (data.getD 0 0))

def handleDecrypt : Handler := fun data gas =>
  handler 32 gasDecryptRequest data gas (.decrypt (argWord data 0))

/-- `handleVerify`: the encoding is paid for by its length. -/
def handleVerify : Handler := fun data gas =>
  handler 33 (gasEncrypt + UInt64.ofNat (data.length - 1) * gasVerifyPerByte) data gas
    (.verify (data.drop 1) (data.getD 0 0))

def handleSealOutput : Handler := fun data gas =>
  handler 64 gasEncrypt data gas (.sealOutput (argWord data 0))

def selectorDecrypt : List UInt8 := [0x12, 0x3d, 0x4c, 0x87]
def selectorSealOutput : List UInt8 := [0x56, 0x7a, 0x11, 0x98]

/-- The handlers by selector. -/
def handlers : List (List UInt8 × Handler) :=
  [([0x23, 0xb8, 0x72, 0xdd], handleAdd),
    ([0x51, 0xca, 0xb0, 0x91], handleSub),
    ([0xc8, 0xa4, 0xac, 0x9c], handleMul),
    ([0x0f, 0x5e, 0x1b, 0x2a], handleDiv),
    ([0x1e, 0x19, 0x1a, 0x96], handleRem),
    ([0xe4, 0x7e, 0xf3, 0xfc], handleNeg),
    ([0xf5, 0xa7, 0x96, 0xfb], handleScalarAdd),
    ([0xb6, 0x3a, 0x9e, 0x11], handleScalarSub),
    ([0x3c, 0x96, 0x47, 0x95], handleScalarMul),
    ([0x7b, 0x8f, 0x4a, 0x2d], handleScalarDiv),
    ([0x52, 0x91, 0xa3, 0x21], handleScalarRem),
    ([0xa9, 0x05, 0x9c, 0xbb], handleLt),
    ([0x26, 0xa3, 0x31, 0x9e], handleLe),
    ([0x4b, 0x64, 0xe4, 0x92], handleGt),
    ([0x53, 0x1c, 0x19, 0xea], handleGe),
    ([0x1c, 0xf4, 0x86, 0x63], handleEq),
    ([0x14, 0x6e, 0x3a, 0x7e], handleNe),
    ([0x7a, 0x8f, 0x63, 0xb8], handleMin),
    ([0x6e, 0x32, 0x91, 0x28], handleMax),
    ([0xcd, 0x30, 0x32, 0x00], handleAnd),
    ([0x5a, 0x6b, 0x26, 0xba], handleOr),
    ([0xf6, 0x74, 0x70, 0x22], handleXor),
    ([0x6b, 0x3a, 0x00, 0x11], handleNot),
    ([0x3e, 0x8c, 0x6c, 0x10], handleShl),
    ([0x5f, 0x46, 0xe5, 0x15], handleShr),
    ([0x89, 0xa1, 0x9e, 0x6b], handleRotl),
    ([0xd7, 0x25, 0x1c, 0xb9], handleRotr),
    ([0x2e, 0x17, 0xde, 0x78], handleSelect),
    ([0xae, 0xd2, 0x44, 0x6b], handleCast),
    ([0xa5, 0x17, 0x5c, 0x89], handleAsEuint64),
    ([0xd4, 0x3f, 0x02, 0x80], handleAsEaddress),
    ([0x8c, 0x3f, 0x5a, 0x42], handleAsEbool),
    ([0x2d, 0xfa, 0x48, 0x63], handleAsEuint4),
    ([0x64, 0xc1, 0x51, 0x81], handleAsEuint8),
    ([0xf8, 0x91, 0x08, 0x50], handleAsEuint16),
    ([0x6c, 0xa9, 0xea, 0xe9], handleAsEuint32),
    ([0x7d, 0x6d, 0x81, 0x95], handleAsEuint128),
    ([0x9e, 0x5b, 0x2e, 0xf3], handleAsEuint256),
    ([0x71, 0x5a, 0xd3, 0x11], handleRand),
    (selectorDecrypt, handleDecrypt),
    ([0x45, 0xa9, 0x32, 0x18], handleVerify),
    (selectorSealOutput, handleSealOutput)]

def dispatch (selector : List UInt8) : Handler :=
  match handlers.lookup selector with
  | some handle => handle
  | none => fun _ gas => .error ⟨.notImplemented, gas⟩

def writesState (selector : List UInt8) : Bool :=
  selector != selectorDecrypt && selector != selectorSealOutput

def failedResult (selector : List UInt8) (handle : Word) : Bool :=
  writesState selector && handle = 0

/-- A call of the precompile. -/
structure Call where
  caller : Address
  input : List UInt8
  gas : UInt64
  readOnly : Bool

def Call.selector (c : Call) : List UInt8 := slice c.input 0 4

def Call.data (c : Call) : List UInt8 := c.input.drop 4

/-- The checks of `Run` and of the handler: the operation and the gas left. -/
def Call.admission (c : Call) : Except Failure (Operation × UInt64) :=
  if c.input.length < 4 then .error ⟨.invalidInput, c.gas⟩
  else if c.gas = 0 then .error ⟨.insufficientGas, 0⟩
  else if c.readOnly && writesState c.selector then .error ⟨.readOnly, c.gas⟩
  else dispatch c.selector c.data c.gas

/-! ## Storage -/

section Storage

variable (keccak256 : List UInt8 → Word)

/-- The bytes hashed for a chunk's slot. -/
def chunkKey (handle : Word) (i : ℕ) : List UInt8 :=
  hashBytes handle ++ hashBytes (BitVec.ofNat 256 i)

def aclOwnerPrefix : List UInt8 :=
  ascii ['f', 'h', 'e', '/', 'a', 'c', 'l', '/', 'o', 'w', 'n', 'e', 'r', '/', 'v', '1']

/-- The bytes hashed for an owner's slot. -/
def ownerKey (handle : Word) : List UInt8 := aclOwnerPrefix ++ hashBytes handle

def chunkSlot (handle : Word) (i : ℕ) : Word := keccak256 (chunkKey handle i)

def ownerSlot (handle : Word) : Word := keccak256 (ownerKey handle)

/-- The metadata word: the type and the four low bytes of the length. -/
def metaWord (ct : List UInt8) (ctType : UInt8) : Word :=
  packWord (ctType :: natToBytes 4 ct.length)

def chunkWord (ct : List UInt8) (i : ℕ) : Word := packWord (slice ct (32 * i) (32 * i + 32))

def storeCiphertext (st : Storage) (ct : List UInt8) (ctType : UInt8) : Word × Storage :=
  let handle := keccak256 ct
  (handle, (List.range (wordCount ct.length)).foldl
    (fun st i => st.set (chunkSlot keccak256 handle i) (chunkWord ct i))
    (st.set handle (metaWord ct ctType)))

/-- The type a metadata word names. -/
def metaType (w : Word) : UInt8 := (hashBytes w).getD 0 0

/-- The length a metadata word names. -/
def metaLength (w : Word) : ℕ := bytesToNat (wordSlice w 1 5)

/-- The bytes read from the chunks of a handle. -/
def readChunks (st : Storage) (handle : Word) (length : ℕ) : List UInt8 :=
  (List.range (wordCount length)).flatMap fun i =>
    (hashBytes (st (chunkSlot keccak256 handle i))).take (length - 32 * i)

def getCiphertext (st : Storage) (handle : Word) : Option (List UInt8 × UInt8) :=
  let word := st handle
  if word = 0 then none
  else if metaLength word = 0 then none
  else some (readChunks keccak256 st handle (metaLength word), metaType word)

/-- `setOwner`: the first writer is the owner. -/
def setOwner (st : Storage) (handle : Word) (owner : Address) : Storage :=
  if st (ownerSlot keccak256 handle) ≠ 0 then st
  else st.set (ownerSlot keccak256 handle) (addressWord owner)

def getOwner (st : Storage) (handle : Word) : Address :=
  wordAddress (st (ownerSlot keccak256 handle))

def isAuthorized (st : Storage) (handle : Word) (caller : Address) : Bool :=
  if getOwner keccak256 st handle = 0 then false
  else getOwner keccak256 st handle = caller

def storeCiphertextOwned (st : Storage) (ct : List UInt8) (ctType : UInt8) (owner : Address) :
    Word × Storage :=
  let (handle, st) := storeCiphertext keccak256 st ct ctType
  (handle, if handle ≠ 0 then setOwner keccak256 st handle owner else st)

end Storage

/-! ## Results

What each of the `perform` helpers computes and the type it stores it under. -/

section Results

variable {BitCiphertext Ciphertext : Type} (keccak256 : List UInt8 → Word)
  (fhe : Library BitCiphertext Ciphertext)

/-- A comparison is stored as a boolean. -/
def BinaryOp.compares : BinaryOp → Bool
  | .comparison _ => true
  | .ne => true
  | _ => false

/-- The function of an operation on two encodings. -/
def BinaryOp.evaluate : BinaryOp → List UInt8 → List UInt8 → Option (List UInt8)
  | .arithmetic .add => tfheAdd fhe
  | .arithmetic .sub => tfheSub fhe
  | .arithmetic .mul => tfheMul fhe
  | .arithmetic .div => tfheDiv fhe
  | .arithmetic .rem => tfheRem fhe
  | .arithmetic .and => tfheAnd fhe
  | .arithmetic .or => tfheOr fhe
  | .arithmetic .xor => tfheXor fhe
  | .comparison .lt => tfheLt fhe
  | .comparison .le => tfheLe fhe
  | .comparison .gt => tfheGt fhe
  | .comparison .ge => tfheGe fhe
  | .comparison .eq => tfheEq fhe
  | .ne => tfheNe fhe
  | .min => tfheMin fhe
  | .max => tfheMax fhe

def UnaryOp.evaluate : UnaryOp → List UInt8 → Option (List UInt8)
  | .not => tfheNot fhe
  | .neg => tfheNeg fhe

def ScalarOp.evaluate (ct : List UInt8) (scalar : UInt64) (ctType : UInt8) :
    ScalarOp → Option (List UInt8)
  | .add => tfheScalarAdd fhe scalar ct
  | .sub => tfheScalarSub fhe scalar ct
  | .mul => tfheScalarMul fhe scalar ct
  | .div => tfheScalarDiv fhe ct scalar ctType
  | .rem => tfheScalarRem fhe ct scalar ctType

def ShiftOp.evaluate (shift : ℕ) : ShiftOp → List UInt8 → Option (List UInt8)
  | .shl => tfheShl fhe shift
  | .shr => tfheShr fhe shift
  | .rotl => tfheRotl fhe shift
  | .rotr => tfheRotr fhe shift

variable (st : Storage)

/-- `performFHEOperation`, up to the store. -/
def fheOperation (op : BinaryOp) (handle1 handle2 : Word) : Option (List UInt8 × UInt8) := do
  let (lhs, lhsType) ← getCiphertext keccak256 st handle1
  let (rhs, _) ← getCiphertext keccak256 st handle2
  let result ← op.evaluate fhe lhs rhs
  return (result, if op.compares then typeEbool else lhsType)

/-- `performFHESelect`, up to the store. -/
def fheSelect (condition ifTrue ifFalse : Word) : Option (List UInt8 × UInt8) := do
  let (ctControl, _) ← getCiphertext keccak256 st condition
  let (ctTrue, trueType) ← getCiphertext keccak256 st ifTrue
  let (ctFalse, _) ← getCiphertext keccak256 st ifFalse
  let result ← tfheSelect fhe ctControl ctTrue ctFalse
  return (result, trueType)

/-- `performFHEUnaryOperation`, up to the store. -/
def fheUnaryOperation (op : UnaryOp) (handle : Word) : Option (List UInt8 × UInt8) := do
  let (ct, ctType) ← getCiphertext keccak256 st handle
  let result ← op.evaluate fhe ct
  return (result, ctType)

/-- `performFHEScalarOperation`, up to the store. -/
def fheScalarOperation (op : ScalarOp) (handle : Word) (scalar : ℕ) :
    Option (List UInt8 × UInt8) := do
  let (ct, ctType) ← getCiphertext keccak256 st handle
  let s ← unsigned64 scalar
  let result ← op.evaluate fhe ct s ctType
  return (result, ctType)

/-- `performFHEShiftOperation`, up to the store. -/
def fheShiftOperation (op : ShiftOp) (handle : Word) (shift : ℕ) :
    Option (List UInt8 × UInt8) := do
  let (ct, ctType) ← getCiphertext keccak256 st handle
  let result ← op.evaluate fhe shift ct
  return (result, ctType)

/-- `performFHECast`, up to the store. -/
def fheCast (handle : Word) (toType : UInt8) : Option (List UInt8 × UInt8) := do
  let (ct, _) ← getCiphertext keccak256 st handle
  let result ← tfheCast fhe toType ct
  return (result, toType)

/-- `encryptValue`, `encryptAddress` and `encryptBigIntValue`, up to the store. -/
def encryptValue (value : ℕ) (ctType : UInt8) : Option (List UInt8 × UInt8) := do
  let ct ← tfheTrivialEncrypt fhe value ctType
  return (ct, ctType)

/-- `generateEncryptedRandom`, up to the store: the seed is the caller. -/
def generateEncryptedRandom (ctType : UInt8) (caller : Address) :
    Option (List UInt8 × UInt8) := do
  let ct ← tfheRandom fhe ctType (UInt64.ofNat caller)
  return (ct, ctType)

/-- `performFHEVerify`, up to the store. -/
def fheVerify (ct : List UInt8) (ctType : UInt8) : Option (List UInt8 × UInt8) :=
  if tfheVerify fhe ct then some (ct, ctType) else none

/-- The encoding an operation stores and its type.  Decryption and sealing store none. -/
def Operation.result (caller : Address) : Operation → Option (List UInt8 × UInt8)
  | .binary op handle1 handle2 => fheOperation keccak256 fhe st op handle1 handle2
  | .select condition ifTrue ifFalse => fheSelect keccak256 fhe st condition ifTrue ifFalse
  | .unary op handle => fheUnaryOperation keccak256 fhe st op handle
  | .scalar op handle value => fheScalarOperation keccak256 fhe st op handle value
  | .shift op handle amount => fheShiftOperation keccak256 fhe st op handle amount
  | .cast handle toType => fheCast keccak256 fhe st handle toType
  | .encrypt value ctType => encryptValue fhe value ctType
  | .random ctType => generateEncryptedRandom fhe ctType caller
  | .verify ct ctType => fheVerify fhe ct ctType
  | .decrypt _ => none
  | .sealOutput _ => none

/-- The gate of decryption and sealing; past it they fail closed. -/
def requestPlaintext (handle : Word) (caller : Address) : Error :=
  if !isAuthorized keccak256 st handle caller then .aclUnauthorized
  else .thresholdDecryptionRequired

/-- An operation: the handle it returns and the storage it leaves.  No result is the zero
handle. -/
def Operation.perform (caller : Address) (op : Operation) : Except Error (Word × Storage) :=
  match op with
  | .decrypt handle => .error (requestPlaintext keccak256 st handle caller)
  | .sealOutput handle => .error (requestPlaintext keccak256 st handle caller)
  | op =>
      match op.result keccak256 fhe st caller with
      | none => .ok (0, st)
      | some (ct, ctType) => .ok (storeCiphertextOwned keccak256 st ct ctType caller)

/-- The storage a call leaves, and what it returns. -/
structure Outcome where
  storage : Storage
  result : Except Failure (Word × UInt64)

/-- `Run`.  The host reverts the writes of a call that fails. -/
def run (c : Call) : Outcome :=
  match c.admission with
  | .error failure => ⟨st, .error failure⟩
  | .ok (op, gas) =>
      match op.perform keccak256 fhe st c.caller with
      | .error e => ⟨st, .error ⟨e, gas⟩⟩
      | .ok (handle, st') =>
          if failedResult c.selector handle then ⟨st, .error ⟨.operationFailed, gas⟩⟩
          else ⟨st', .ok (handle, gas)⟩

end Results

end LuxPrecompile.Fhe
