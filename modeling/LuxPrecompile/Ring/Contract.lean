import LuxPrecompile.Evm.Bytes
import LuxPrecompile.Evm.Calldata
import LuxPrecompile.Support.Faults

/-!
# The ring signature precompile

`ring/contract.go`.  The challenges of a signature are recomputed along the ring, each from
the one before; the last has to be the first again.  A coordinate pair of the curve library
may be nil, and adding a nil one panics.
-/

namespace LuxPrecompile.Ring

open Evm Support Support.Checked

inductive Error
  | invalidInput
  | invalidScheme
  | invalidRingSize
  | invalidSignature
  | unsupportedOperation (op : UInt8)
  | outOfGas
deriving DecidableEq, Repr

def opVerify : UInt8 := 0x02

def schemeLSAGSecp256k1 : UInt8 := 0x01
def schemeLSAGEd25519 : UInt8 := 0x02
def schemeLatticeLSAG : UInt8 := 0x10

def compressedPubKeySize : ℕ := 33
def scalarSize : ℕ := 32

def gasVerifyBase : UInt64 := 4000
def gasVerifyPerMember : UInt64 := 2500

/-- `Point`: a coordinate pair. -/
structure Point where
  x : ℕ
  y : ℕ
deriving DecidableEq

/-- What the contract calls of the curve and hash libraries: `secp256k1`, with the order of its
group, `HashToG1` under the domain of the contract, and `sha256`. -/
structure Library where
  order : ℕ
  decompressPubkey : List UInt8 → Option Point
  scalarBaseMult : List UInt8 → Option Point
  scalarMult : Point → List UInt8 → Option Point
  add : Point → Point → Point
  hashToG1 : List UInt8 → Point
  sha256 : List UInt8 → List UInt8

/-- `LSAGSignature`. -/
structure LSAGSignature where
  keyImage : List UInt8
  c : List ℕ
  s : List ℕ
deriving DecidableEq

def padTo32 (b : List UInt8) : List UInt8 :=
  if 32 ≤ b.length then b else List.replicate (32 - b.length) 0 ++ b

def LSAGSignature.serialize (sig : LSAGSignature) : List UInt8 :=
  sig.keyImage ++ (sig.c.map fun c => padTo32 (bigBytes c)).flatten ++
    (sig.s.map fun s => padTo32 (bigBytes s)).flatten

section Verify

variable (lib : Library)

/-! ## Hashes -/

def hashToPoint (pk : List UInt8) : Point := lib.hashToG1 pk

def batchHashToPoint (ring : List (List UInt8)) : List Point := ring.map (hashToPoint lib)

/-- What `hashRing` hashes. -/
def ringInput (message : List UInt8) (l r : Point) : List UInt8 :=
  message ++ padTo32 (bigBytes l.x) ++ padTo32 (bigBytes l.y) ++ padTo32 (bigBytes r.x) ++
    padTo32 (bigBytes r.y)

/-- The digest as a number. -/
def digest (input : List UInt8) : ℕ := bytesToNat (lib.sha256 input)

def hashRing (message : List UInt8) (l r : Point) : ℕ := digest lib (ringInput message l r)

/-! ## Signatures -/

def scalar (b : List UInt8) : Option ℕ :=
  let x := bytesToNat b
  if 0 < x ∧ x < lib.order then some x else none

/-- Scalars read back to back. -/
def scalars : ℕ → List UInt8 → Except Error (List ℕ × List UInt8)
  | 0, rest => .ok ([], rest)
  | n + 1, rest => do
      let (b, rest) ← Cursor.bytes Error.invalidSignature scalarSize rest
      match scalar lib b with
      | none => .error .invalidSignature
      | some x => do
          let (xs, rest) ← scalars n rest
          .ok (x :: xs, rest)

def parseLSAGSignature (data : List UInt8) (ringSize : ℕ) : Except Error LSAGSignature := do
  let (keyImage, rest) ← Cursor.bytes Error.invalidSignature compressedPubKeySize data
  let (c, rest) ← scalars lib ringSize rest
  let (s, _) ← scalars lib ringSize rest
  .ok ⟨keyImage, c, s⟩

/-! ## Verification -/

/-- `curve.Add`. -/
def addPoints (p q : Option Point) : Checked Error Point :=
  match p, q with
  | some p, some q => .ok (lib.add p q)
  | _, _ => .error .panic

/-- The loop of `lsagVerify`, with the members that are left. -/
def lsagLoop (ring : List (List UInt8)) (hps : List Point) (sig : LSAGSignature)
    (message : List UInt8) (img : Point) : ℕ → ℕ → ℕ → Checked Error Bool
  | 0, _, _ => .ok false
  | m + 1, i, cPrev => do
      let member ← item ring i
      match lib.decompressPubkey member with
      | none => .ok false
      | some pk => do
          let s ← item sig.s i
          let sG := lib.scalarBaseMult (bigBytes s)
          let cP := lib.scalarMult pk (bigBytes cPrev)
          let hp ← item hps i
          let sH := lib.scalarMult hp (bigBytes s)
          let cI := lib.scalarMult img (bigBytes cPrev)
          if sG = none ∨ cP = none ∨ sH = none ∨ cI = none then .ok false
          else do
            let l ← addPoints lib sG cP
            let r ← addPoints lib sH cI
            let cNext := hashRing lib message l r
            if i = ring.length - 1 then do
              let c ← item sig.c 0
              .ok (decide (cNext = c))
            else lsagLoop ring hps sig message img m (i + 1) cNext

def lsagVerify (ring : List (List UInt8)) (sig : LSAGSignature) (message : List UInt8) :
    Checked Error Bool :=
  match lib.decompressPubkey sig.keyImage with
  | none => .ok false
  | some img => do
      let hps := batchHashToPoint lib ring
      let cPrev ← item sig.c 0
      lsagLoop lib ring hps sig message img ring.length 0 cPrev

/-- `verify`, with what follows the header. -/
def verify (scheme : UInt8) (ringSize : ℕ) (input : List UInt8) :
    Checked Error (List UInt8) := do
  if scheme ≠ schemeLSAGSecp256k1 then .error (.refused .invalidScheme)
  else if ringSize < 2 then .error (.refused .invalidRingSize)
  else do
    let (ring, rest) ← ofExcept
      (Cursor.fields Error.invalidInput compressedPubKeySize ringSize input)
    let sigLen := compressedPubKeySize + ringSize * scalarSize + ringSize * scalarSize
    let (signature, message) ← ofExcept (Cursor.bytes Error.invalidInput sigLen rest)
    match parseLSAGSignature lib signature ringSize with
    | .error _ => .ok [0x00]
    | .ok sig => do
        let valid ← lsagVerify lib ring sig message
        .ok (if valid then [0x01] else [0x00])

/-! ## The contract -/

/-- The header: the operation, the scheme and the ring size. -/
def header (input : List UInt8) : Except Error (UInt8 × UInt8 × UInt8 × List UInt8) := do
  let (op, rest) ← Cursor.byte Error.invalidInput input
  let (scheme, rest) ← Cursor.byte Error.invalidInput rest
  let (ringSize, rest) ← Cursor.byte Error.invalidInput rest
  .ok (op, scheme, ringSize, rest)

def requiredGas (input : List UInt8) : UInt64 :=
  match header input with
  | .error _ => 0
  | .ok (op, scheme, ringSize, _) =>
      if op ≠ opVerify then 0
      else if scheme = schemeLSAGSecp256k1 then
        gasVerifyBase + ringSize.toUInt64 * gasVerifyPerMember
      else if scheme = schemeLSAGEd25519 then
        gasVerifyBase - 1000 + ringSize.toUInt64 * (gasVerifyPerMember - 500)
      else if scheme = schemeLatticeLSAG then 50000 + ringSize.toUInt64 * 10000
      else 0

/-- `Run`, with the gas that remains. -/
def run (input : List UInt8) (suppliedGas : UInt64) :
    Checked (Error × UInt64) (List UInt8 × UInt64) :=
  match deductGas suppliedGas (requiredGas input) with
  | none => .error (.refused (.outOfGas, 0))
  | some remainingGas =>
      match header input with
      | .error why => .error (.refused (why, remainingGas))
      | .ok (op, scheme, ringSize, rest) =>
          if op ≠ opVerify then .error (.refused (.unsupportedOperation op, remainingGas))
          else
            match verify lib scheme ringSize.toNat rest with
            | .ok result => .ok (result, remainingGas)
            | .error (.refused why) => .error (.refused (why, remainingGas))
            | .error .panic => .error .panic

end Verify

end LuxPrecompile.Ring
