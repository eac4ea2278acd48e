import LuxPrecompile.Bridge.Registry
import LuxPrecompile.Evm.Calldata

/-!
# The registrar precompile

`bridge/registrar.go`.  Writes to the chain registry need the signatures of a
threshold of operators over the selector, the arguments and the current nonce;
reads need none.
-/

namespace LuxPrecompile.Bridge

open Evm Support

/-- The hash function and the signature recovery the registrar calls. -/
structure Crypto where
  keccak256 : List UInt8 → Word
  ecrecover : Word → List UInt8 → Option (List UInt8)

/-! ## Constants -/

def domainSeparator : List UInt8 :=
  ascii ['l', 'u', 'x', '.', 'b', 'r', 'i', 'd', 'g', 'e', '.',
    'r', 'e', 'g', 'i', 's', 't', 'r', 'a', 'r', '.', 'v', '1']

def selectorRegisterChain : UInt8 := 1
def selectorUnregisterChain : UInt8 := 2
def selectorSetGateway : UInt8 := 3
def selectorGetCount : UInt8 := 4
def selectorGetChain : UInt8 := 5
def selectorGetNonce : UInt8 := 6

def gasRegisterChain : ℕ := 60000
def gasUnregisterChain : ℕ := 30000
def gasSetGateway : ℕ := 22000
def gasGetCount : ℕ := 700
def gasGetChain : ℕ := 2400
def gasGetNonce : ℕ := 700
def gasPerSignature : ℕ := 3000

def argChainIDSize : ℕ := 4
def argNameLenSize : ℕ := 1
def argEVMFlagSize : ℕ := 1
def argAddressSize : ℕ := 20
def argSigLen : ℕ := 65
def maxChainNameSize : ℕ := 32
def maxOperators : ℕ := 2 ^ 16

/-! ## Governance -/

def governanceNonce (st : Storage) : UInt64 := bytesToUint64 (wordSlice (st .nonce) 24 32)

def bumpNonce (st : Storage) : Storage := st.set .nonce (encodeU64 (governanceNonce st + 1))

/-- The header `SeedGovernance` writes. -/
def govHeader (operators : ℕ) (threshold : UInt32) : Word :=
  bytesToHash (List.replicate 24 0 ++
    (uint32Bytes (UInt32.ofNat operators) ++ uint32Bytes threshold))

/-- The operators `SeedGovernance` writes. -/
def seedOperators (st : Storage) (operators : List Address) : Storage :=
  operators.zipIdx.foldl (fun st (op, i) => st.set (.gov (UInt64.ofNat (i + 1))) (addressWord op))
    st

def seedGovernance (st : Storage) (operators : List Address) (threshold : UInt32) :
    Except Error Storage :=
  if threshold = 0 ∨ operators.length < threshold.toNat then .error .invalidThreshold
  else if maxOperators < operators.length then .error .tooManyOperators
  else .ok (seedOperators (st.set (.gov 0) (govHeader operators.length threshold)) operators)

def loadGovernance (st : Storage) : Except Error (List Address × UInt32) :=
  let count := bytesToUint32 (wordSlice (st (.gov 0)) 24 28)
  let threshold := bytesToUint32 (wordSlice (st (.gov 0)) 28 32)
  if count = 0 ∨ threshold = 0 then .error .unauthorized
  else if maxOperators < count.toNat then .error .tooManyOperators
  else if count < threshold then .error .unauthorized
  else .ok ((List.range count.toNat).map fun i => wordAddress (st (.gov (UInt64.ofNat (i + 1)))),
    threshold)

/-! ## Multisig verification -/

/-- The bytes `registrarDigest` hashes. -/
def registrarMessage (sel : UInt8) (nonce : UInt64) (payload : List UInt8) : List UInt8 :=
  domainSeparator ++ (sel :: (uint64Bytes nonce ++ payload))

section Multisig

variable (crypto : Crypto)

def registrarDigest (sel : UInt8) (nonce : UInt64) (payload : List UInt8) : Word :=
  crypto.keccak256 (registrarMessage sel nonce payload)

/-- The address of a recovered public key, without its leading byte. -/
def signerAddress (pub : List UInt8) : Address := wordAddress (crypto.keccak256 (pub.drop 1))

/-- The loop of `verifyMultisig`; the valid signatures counted are those of the
operators seen. -/
def countSigners (operators : List Address) (threshold : UInt32) (digest : Word) :
    List Address → List (List UInt8) → Except Error Unit
  | _, [] => .error .unauthorized
  | seen, sig :: sigs =>
      if sig.length ≠ argSigLen then .error .invalidSignatureBytes
      else
        match crypto.ecrecover digest sig with
        | none => .error .invalidSignatureBytes
        | some pub =>
            if pub.length ≠ 65 then .error .invalidSignatureBytes
            else
              let addr := signerAddress crypto pub
              if addr ∉ operators then countSigners operators threshold digest seen sigs
              else if addr ∈ seen then .error .duplicateSigner
              else if threshold.toNat ≤ seen.length + 1 then .ok ()
              else countSigners operators threshold digest (addr :: seen) sigs

def verifyMultisig (st : Storage) (sel : UInt8) (payload : List UInt8)
    (sigs : List (List UInt8)) : Except Error Unit := do
  let (operators, threshold) ← loadGovernance st
  countSigners crypto operators threshold (registrarDigest crypto sel (governanceNonce st) payload)
    [] sigs

end Multisig

/-! ## Argument decoders -/

/-- The decoded arguments of a write, the bytes that are signed and the signatures. -/
structure Signed (α : Type) where
  args : α
  payload : List UInt8
  sigs : List (List UInt8)
deriving DecidableEq

def decodeSigs (b : List UInt8) : Except Error (List (List UInt8)) :=
  match b with
  | [] => .error .inputTooShort
  | n :: rest =>
      if b.length < 1 + n.toNat * argSigLen then .error .inputTooShort
      else .ok ((List.range n.toNat).map fun i =>
        slice rest (i * argSigLen) (i * argSigLen + argSigLen))

/-- The chain id of an argument list. -/
def argChainID (args : List UInt8) : ChainID := bytesToUint32 (slice args 0 argChainIDSize)

/-- The length of the name of `registerChain`. -/
def argNameLen (args : List UInt8) : ℕ := (args.getD 4 0).toNat

/-- The chain of the arguments of `registerChain`. -/
def argChain (args : List UInt8) : Chain :=
  let off := 5 + argNameLen args
  { id := argChainID args
    name := slice args 5 off
    evm := args.getD off 0 == 1
    gatewayAt := bytesToAddress (slice args (off + argEVMFlagSize)
      (off + argEVMFlagSize + argAddressSize)) }

/-- The gateway of the arguments of `setGateway`. -/
def argGateway (args : List UInt8) : Address :=
  bytesToAddress (slice args argChainIDSize (argChainIDSize + argAddressSize))

/-- Arguments signed up to `size`, with the signatures behind them. -/
def decodeSigned {α : Type} (args : List UInt8) (size : ℕ) (value : α) :
    Except Error (Signed α) := do
  let sigs ← decodeSigs (args.drop size)
  return { args := value, payload := args.take size, sigs := sigs }

def decodeRegisterChainArgs (args : List UInt8) : Except Error (Signed Chain) :=
  let size := 5 + argNameLen args + argEVMFlagSize + argAddressSize
  if args.length < argChainIDSize + argNameLenSize then .error .inputTooShort
  else if maxChainNameSize < argNameLen args then .error .chainNameTooLong
  else if args.length < size then .error .inputTooShort
  else decodeSigned args size (argChain args)

def decodeUnregisterChainArgs (args : List UInt8) : Except Error (Signed ChainID) :=
  if args.length < argChainIDSize then .error .inputTooShort
  else decodeSigned args argChainIDSize (argChainID args)

def decodeSetGatewayArgs (args : List UInt8) : Except Error (Signed (ChainID × Address)) :=
  if args.length < argChainIDSize + argAddressSize then .error .inputTooShort
  else decodeSigned args (argChainIDSize + argAddressSize) (argChainID args, argGateway args)

/-! ## Operations -/

abbrev Outcome := Evm.Outcome Error Storage

def encodeChain (c : Chain) : List UInt8 :=
  let name := c.name.take maxChainNameSize
  uint32Bytes c.id ++ (UInt8.ofNat name.length ::
    (name ++ ((if c.evm then 1 else 0) :: addressBytes c.gatewayAt)))

section Operations

variable (crypto : Crypto)

/-- The writes of `runRegisterChain`, with the index of the row. -/
def registerChain (st : Storage) (chain : Chain) : Except Error (Storage × UInt64) :=
  if (get st chain.id).isSome then .error .alreadyRegistered
  else .ok (addRow st chain, count st)

/-- The writes of `runUnregisterChain`. -/
def unregisterChain (st : Storage) (id : ChainID) : Except Error (Storage × UInt64) :=
  match indexOf st id with
  | none => .error .notRegistered
  | some idx => .ok (removeRow st idx (count st - 1), idx)

/-- The writes of `runSetGateway`. -/
def setGateway (st : Storage) (id : ChainID) (gw : Address) : Except Error (Storage × UInt64) :=
  match indexOf st id with
  | none => .error .notRegistered
  | some idx => .ok (patchRow st idx gw, idx)

/-- The course of every write: it refuses static calls, charges its cost, decodes its
arguments, charges and verifies the signatures, writes, and advances the nonce. -/
def runWrite {α : Type} (cost : ℕ) (decode : List UInt8 → Except Error (Signed α))
    (write : Storage → α → Except Error (Storage × UInt64)) (st : Storage) (sel : UInt8)
    (args : List UInt8) (suppliedGas : ℕ) (readOnly : Bool) : Outcome :=
  if readOnly then fail st .readOnly suppliedGas
  else if suppliedGas < cost then fail st .outOfGas 0
  else
    match decode args with
    | .error e => fail st e (suppliedGas - cost)
    | .ok signed =>
        let total := cost + signed.sigs.length * gasPerSignature
        if suppliedGas < total then fail st .outOfGas 0
        else
          match verifyMultisig crypto st sel signed.payload signed.sigs with
          | .error e => fail st e (suppliedGas - total)
          | .ok () =>
              match write st signed.args with
              | .error e => fail st e (suppliedGas - total)
              | .ok (st', idx) =>
                  ⟨bumpNonce st', .ok ⟨hashBytes (encodeU64 idx), suppliedGas - total⟩⟩

def runRegisterChain := runWrite crypto gasRegisterChain decodeRegisterChainArgs registerChain

def runUnregisterChain :=
  runWrite crypto gasUnregisterChain decodeUnregisterChainArgs unregisterChain

def runSetGateway :=
  runWrite crypto gasSetGateway decodeSetGatewayArgs fun st (id, gw) => setGateway st id gw

def runGetCount (st : Storage) (suppliedGas : ℕ) : Outcome :=
  if suppliedGas < gasGetCount then fail st .outOfGas 0
  else ⟨st, .ok ⟨hashBytes (encodeU64 (count st)), suppliedGas - gasGetCount⟩⟩

def runGetChain (st : Storage) (args : List UInt8) (suppliedGas : ℕ) : Outcome :=
  if suppliedGas < gasGetChain then fail st .outOfGas 0
  else if args.length < 8 then fail st .inputTooShort (suppliedGas - gasGetChain)
  else
    let idx := bytesToUint64 (slice args 0 8)
    if count st ≤ idx then fail st .indexOutOfRange (suppliedGas - gasGetChain)
    else ⟨st, .ok ⟨encodeChain (row st idx), suppliedGas - gasGetChain⟩⟩

def runGetNonce (st : Storage) (suppliedGas : ℕ) : Outcome :=
  if suppliedGas < gasGetNonce then fail st .outOfGas 0
  else ⟨st, .ok ⟨hashBytes (encodeU64 (governanceNonce st)), suppliedGas - gasGetNonce⟩⟩

def run (st : Storage) (c : Call) : Outcome :=
  match c.input with
  | [] => fail st .inputTooShort c.gas
  | sel :: args =>
      if sel = selectorRegisterChain then runRegisterChain crypto st sel args c.gas c.readOnly
      else if sel = selectorUnregisterChain then
        runUnregisterChain crypto st sel args c.gas c.readOnly
      else if sel = selectorSetGateway then runSetGateway crypto st sel args c.gas c.readOnly
      else if sel = selectorGetCount then runGetCount st c.gas
      else if sel = selectorGetChain then runGetChain st args c.gas
      else if sel = selectorGetNonce then runGetNonce st c.gas
      else fail st .unknownSelector c.gas

end Operations

end LuxPrecompile.Bridge
