import LuxPrecompile.Evm.Calldata
import LuxPrecompile.Support.Runs

/-!
# The mining precompile

`ai/ai_mining.go`, `ai/cross_chain_mining.go` and the dispatcher of
`ai/module.go`.  A miner signs a work proof or a data descriptor, and the
precompile verifies the signature and the attestation of the signing device,
computes the reward and marks the claim's id as spent.  The hash, the signature
schemes and the certificate check come from libraries and are parameters.
-/

namespace LuxPrecompile.Ai

open Evm Support

/-- The errors of the package. -/
inductive Error
  | readOnly
  | outOfGas
  | inputTooShort
  | unknownSelector (selector : ℕ)
  | invalidPublicKeySize
  | invalidSignatureSize
  /-- A public key the signature library cannot decode. -/
  | malformedPublicKey
  /-- "ml-dsa attestation invalid". -/
  | invalidSignature
  | invalidWorkProof
  | invalidPrivacyLevel
  | workAlreadySpent
  | invalidTeeReceipt
  | teeSignatureInvalid
  | unauthorized
  | missingAttestation
  | deviceKeyMismatch
  | claimTooLarge
deriving DecidableEq, Repr

/-- What the precompile takes from libraries. -/
structure Crypto where
  blake3 : List UInt8 → Word
  /-- `mldsaNN.Verify` for a key size; `none` is a key that cannot be decoded. -/
  mldsa : (pubkey message signature : List UInt8) → Option Bool
  /-- The certificate chain is trusted at the report's time and its leaf signed the
  report; `none` is a chain that cannot be parsed. -/
  certifies : (report chain signature : List UInt8) → Option Bool

/-! ## Constants -/

def gasVerifyMldsa : ℕ := 3000
def gasCalculateReward : ℕ := 1000
def gasVerifyTee : ℕ := 5000
def gasIsSpent : ℕ := 100
def gasComputeWorkId : ℕ := 50
def gasMarkSpent : ℕ := 5000

/-- `GasVerifyAndMintWork` and `GasVerifyAndMintData`. -/
def gasVerifyAndMint : ℕ := gasVerifyMldsa + gasVerifyTee + gasCalculateReward + gasMarkSpent

def workProofMinSize : ℕ := 78
def dataContributionSize : ℕ := 42
def teeReportLen : ℕ := 48
def maxComputeMinutes : ℕ := 44640
def maxDataSize : ℕ := 2 ^ 40
def baseRewardPerMinute : ℕ := 10 ^ 18
def privacySovereign : ℕ := 4

/-- `privacyMultipliers`, in basis points. -/
def privacyMultiplier : ℕ → Option ℕ
  | 1 => some 2500
  | 2 => some 5000
  | 3 => some 10000
  | 4 => some 15000
  | _ => none

/-- The public key and signature sizes of the three security levels. -/
def signatureSize (pubkeySize : ℕ) : Option ℕ :=
  if pubkeySize = 1312 then some 2420
  else if pubkeySize = 1952 then some 3309
  else if pubkeySize = 2592 then some 4627
  else none

/-! ## Verification -/

/-- `VerifyMLDSA`: the security level is the one of the key's size. -/
def verifyMldsa (crypto : Crypto) (pubkey message signature : List UInt8) :
    Except Error Bool :=
  match signatureSize pubkey.length with
  | none => .error .invalidPublicKeySize
  | some size =>
      if signature.length ≠ size then .error .invalidSignatureSize
      else
        match crypto.mldsa pubkey message signature with
        | none => .error .malformedPublicKey
        | some valid => .ok valid

def verifyAttestation (crypto : Crypto) (receipt signature : List UInt8) :
    Except Error Bool :=
  if receipt.length < teeReportLen then .error .invalidTeeReceipt
  else if signature.length = 0 then .error .teeSignatureInvalid
  else if (receipt.drop teeReportLen).length = 0 then .error .invalidTeeReceipt
  else
    match crypto.certifies (receipt.take teeReportLen) (receipt.drop teeReportLen)
        signature with
    | none => .error .invalidTeeReceipt
    | some valid => .ok valid

def verifyTee (crypto : Crypto) (receipt signature : List UInt8) : Except Error Bool :=
  if receipt.length < 48 then .error .invalidTeeReceipt
  else verifyAttestation crypto receipt signature

/-- The bytes of `blake3.Sum256` of a public key: the identity of its device. -/
def deviceIdOf (crypto : Crypto) (pubkey : List UInt8) : List UInt8 :=
  hashBytes (crypto.blake3 pubkey)

/-- `verifyDeviceBinding`: the envelope carries an attestation of the device the
signing key belongs to. -/
def verifyDeviceBinding (crypto : Crypto) (pubkey envelope : List UInt8) :
    Except Error Unit :=
  if envelope.length < 4 then .error .invalidTeeReceipt
  else
    let sigLen := bytesToNat (envelope.take 4)
    if sigLen = 0 ∨ envelope.length < 4 + sigLen then .error .invalidTeeReceipt
    else do
      let teeSig := slice envelope 4 (4 + sigLen)
      let receipt := envelope.drop (4 + sigLen)
      let ok ← verifyAttestation crypto receipt teeSig
      if !ok then .error .teeSignatureInvalid
      else if receipt.take 32 ≠ deviceIdOf crypto pubkey then .error .deviceKeyMismatch
      else .ok ()

/-! ## The spent set -/

/-- The storage words under the precompile's address. -/
abbrev Storage := Word → Word

def spentSetPrefix : List UInt8 := ascii ['s', 'p', 'n', 't']
def sovereignSetPrefix : List UInt8 := ascii ['s', 'o', 'v', 'r']

/-- The bytes `makeSpentKey` hashes. -/
def spentKeyBytes (workId : Word) : List UInt8 := spentSetPrefix ++ hashBytes workId

/-- The bytes `makeSovereignKey` hashes. -/
def sovereignKeyBytes (deviceId : Word) : List UInt8 :=
  sovereignSetPrefix ++ hashBytes deviceId

/-- `makeSpentKey`. -/
def spentKey (crypto : Crypto) (workId : Word) : Word := crypto.blake3 (spentKeyBytes workId)

/-- `makeSovereignKey`. -/
def sovereignKey (crypto : Crypto) (deviceId : Word) : Word :=
  crypto.blake3 (sovereignKeyBytes deviceId)

def isSpent (crypto : Crypto) (db : Storage) (workId : Word) : Bool :=
  decide (db (spentKey crypto workId) ≠ 0)

/-- The value of a set entry: its first byte is one. -/
def setValue : Word := BitVec.ofNat 256 (2 ^ 248)

def markSpent (crypto : Crypto) (db : Storage) (workId : Word) : Except Error Storage :=
  if isSpent crypto db workId then .error .workAlreadySpent
  else .ok (Function.update db (spentKey crypto workId) setValue)

/-- `HanzoOrgAuthorityDeviceID`. -/
def authorityDeviceId (crypto : Crypto) : Word :=
  crypto.blake3 (ascii "hanzo-org-sovereign-ai-compute".toList)

def isSovereignAuthorized (crypto : Crypto) (db : Storage) (pubkey : List UInt8) : Bool :=
  decide (crypto.blake3 pubkey = authorityDeviceId crypto) ||
    decide (db (sovereignKey crypto (crypto.blake3 pubkey)) ≠ 0)

/-! ## Rewards -/

/-- The reward schedule: a magnitude times a privacy multiplier. -/
def scaledReward (magnitude multiplier : ℕ) : ℕ :=
  baseRewardPerMinute * magnitude * multiplier / 10000

/-- The privacy level of a work proof. -/
def proofPrivacy (workProof : List UInt8) : ℕ := bytesToNat (slice workProof 72 74)

def calculateReward (workProof : List UInt8) : Except Error ℕ :=
  if workProof.length < workProofMinSize then .error .invalidWorkProof
  else
    let computeMinutes := bytesToNat (slice workProof 74 78)
    if maxComputeMinutes < computeMinutes then .error .claimTooLarge
    else
      match privacyMultiplier (proofPrivacy workProof) with
      | none => .error .invalidPrivacyLevel
      | some multiplier => .ok (scaledReward computeMinutes multiplier)

/-! ## Claims -/

/-- The two kinds of mint. -/
inductive Kind
  | work
  | data
deriving DecidableEq, Repr

/-- A mint call's arguments: the signed payload with its key and signature, and the
chain id that follows them in the calldata. -/
structure Claim where
  kind : Kind
  payload : List UInt8
  pubkey : List UInt8
  signature : List UInt8
  chainId : ℕ
deriving DecidableEq

/-- The bytes `ComputeWorkId` hashes. -/
def workIdBytes (deviceId nonce : List UInt8) (chainId : ℕ) : List UInt8 :=
  deviceId ++ nonce ++ natToBytes 8 chainId

def computeWorkId (crypto : Crypto) (deviceId nonce : List UInt8) (chainId : ℕ) : Word :=
  crypto.blake3 (workIdBytes deviceId nonce chainId)

/-- The data size of a descriptor. -/
def descriptorSize (descriptor : List UInt8) : ℕ := bytesToNat (slice descriptor 32 40)

/-- The privacy level of a descriptor. -/
def descriptorPrivacy (descriptor : List UInt8) : ℕ := bytesToNat (slice descriptor 40 42)

/-- The nonce `mintData` builds: size and privacy level in front of zeros. -/
def descriptorNonce (size privacy : ℕ) : List UInt8 :=
  natToBytes 8 size ++ natToBytes 2 privacy ++ List.replicate 22 0

/-- The bytes hashed into the id of a claim. -/
def Claim.idBytes (c : Claim) : List UInt8 :=
  match c.kind with
  | .work => workIdBytes (slice c.payload 0 32) (slice c.payload 32 64) c.chainId
  | .data => workIdBytes (slice c.payload 0 32)
      (descriptorNonce (descriptorSize c.payload) (descriptorPrivacy c.payload)) c.chainId

/-- The id under which a claim is spent. -/
def Claim.id (crypto : Crypto) (c : Claim) : Word := crypto.blake3 c.idBytes

def mintWork (crypto : Crypto) (db : Storage) (c : Claim) : Except Error (Storage × ℕ) :=
  if c.payload.length < workProofMinSize then .error .invalidWorkProof
  else if isSpent crypto db (c.id crypto) then .error .workAlreadySpent
  else do
    let reward ← calculateReward c.payload
    let db' ← markSpent crypto db (c.id crypto)
    .ok (db', reward)

def mintData (crypto : Crypto) (db : Storage) (c : Claim) : Except Error (Storage × ℕ) :=
  if c.payload.length < dataContributionSize then .error .invalidWorkProof
  else if maxDataSize < descriptorSize c.payload then .error .claimTooLarge
  else
    match privacyMultiplier (descriptorPrivacy c.payload) with
    | none => .error .invalidPrivacyLevel
    | some multiplier =>
        if isSpent crypto db (c.id crypto) then .error .workAlreadySpent
        else do
          let db' ← markSpent crypto db (c.id crypto)
          .ok (db', scaledReward (descriptorSize c.payload) multiplier)

/-- The trust gate of both mints: the sovereign level needs an authorised key, every
other level an attestation behind the fixed part of the payload. -/
def trustGate (crypto : Crypto) (db : Storage) (c : Claim) (privacy size : ℕ) :
    Except Error Unit :=
  if privacy = privacySovereign then
    if !isSovereignAuthorized crypto db c.pubkey then .error .unauthorized else .ok ()
  else if c.payload.length ≤ size then .error .missingAttestation
  else verifyDeviceBinding crypto c.pubkey (c.payload.drop size)

/-- The key signed this payload. -/
def checkSignature (crypto : Crypto) (c : Claim) : Except Error Unit := do
  let valid ← verifyMldsa crypto c.pubkey c.payload c.signature
  if !valid then .error .invalidSignature else .ok ()

/-- `verifyAndMintWork` after the calldata is decoded. -/
def settleWork (crypto : Crypto) (db : Storage) (c : Claim) :
    Except Error (Storage × ℕ) := do
  checkSignature crypto c
  if c.payload.length < workProofMinSize then .error .invalidWorkProof
  else do
    trustGate crypto db c (proofPrivacy c.payload) workProofMinSize
    if slice c.payload 0 32 ≠ deviceIdOf crypto c.pubkey then .error .deviceKeyMismatch
    else mintWork crypto db c

/-- `verifyAndMintData` after the calldata is decoded. -/
def settleData (crypto : Crypto) (db : Storage) (c : Claim) :
    Except Error (Storage × ℕ) := do
  checkSignature crypto c
  if c.payload.length < dataContributionSize then .error .invalidWorkProof
  else do
    trustGate crypto db c (descriptorPrivacy c.payload) dataContributionSize
    mintData crypto db c

/-- Both mints, by kind. -/
def settle (crypto : Crypto) (db : Storage) (c : Claim) : Except Error (Storage × ℕ) :=
  match c.kind with
  | .work => settleWork crypto db c
  | .data => settleData crypto db c

/-! ## Call data -/

/-- One pass of the loop of `blobs`: a length-prefixed blob and what follows it. -/
def blob (input : List UInt8) : Except Error (List UInt8 × List UInt8) :=
  if input.length < 4 then .error .inputTooShort
  else
    let n := bytesToNat (input.take 4)
    if (input.drop 4).length < n then .error .inputTooShort
    else .ok ((input.drop 4).take n, (input.drop 4).drop n)

/-- `parseTriple`: three blobs and the chain id. -/
def parseTriple (kind : Kind) (input : List UInt8) : Except Error Claim := do
  let (payload, rest) ← blob input
  let (pubkey, rest) ← blob rest
  let (signature, rest) ← blob rest
  if rest.length < 8 then .error .inputTooShort
  else .ok ⟨kind, payload, pubkey, signature, bytesToNat (rest.take 8)⟩

/-- What a call returns; `mint` is the claim it settled, if it was a mint. -/
structure Reply where
  ret : Word
  gas : ℕ
  mint : Option Claim
deriving DecidableEq

/-- `runVerifyAndMintWork` and `runVerifyAndMintData`. -/
def runVerifyAndMint (crypto : Crypto) (kind : Kind) (db : Storage) (input : List UInt8)
    (suppliedGas : ℕ) (readOnly : Bool) : Except Error (Storage × Reply) :=
  if readOnly then .error .readOnly
  else do
    let gas ← chargeGas Error.outOfGas suppliedGas gasVerifyAndMint
    let c ← parseTriple kind input
    let (db', reward) ← settle crypto db c
    .ok (db', ⟨uintWord reward, gas, some c⟩)

/-! ## The other selectors -/

def boolWord (b : Bool) : Word := if b then 1 else 0

def runVerifyMldsa (crypto : Crypto) (db : Storage) (input : List UInt8)
    (suppliedGas : ℕ) : Except Error (Storage × Reply) := do
  let gas ← chargeGas Error.outOfGas suppliedGas gasVerifyMldsa
  let (pubkey, rest) ← blob input
  let (message, rest) ← blob rest
  let (signature, _) ← blob rest
  let valid ← verifyMldsa crypto pubkey message signature
  .ok (db, ⟨boolWord valid, gas, none⟩)

def runCalculateReward (db : Storage) (input : List UInt8) (suppliedGas : ℕ) :
    Except Error (Storage × Reply) := do
  let gas ← chargeGas Error.outOfGas suppliedGas gasCalculateReward
  if input.length < 86 then .error .inputTooShort
  else do
    let reward ← calculateReward (input.take (input.length - 8))
    .ok (db, ⟨uintWord reward, gas, none⟩)

def runVerifyTee (crypto : Crypto) (db : Storage) (input : List UInt8)
    (suppliedGas : ℕ) : Except Error (Storage × Reply) := do
  let gas ← chargeGas Error.outOfGas suppliedGas gasVerifyTee
  let (receipt, rest) ← blob input
  let (signature, _) ← blob rest
  let valid ← verifyTee crypto receipt signature
  .ok (db, ⟨boolWord valid, gas, none⟩)

def runIsSpent (crypto : Crypto) (db : Storage) (input : List UInt8) (suppliedGas : ℕ) :
    Except Error (Storage × Reply) := do
  let gas ← chargeGas Error.outOfGas suppliedGas gasIsSpent
  if input.length < 32 then .error .inputTooShort
  else .ok (db, ⟨boolWord (isSpent crypto db (bytesToHash (input.take 32))), gas, none⟩)

/-- `runMarkSpent`, which is closed. -/
def runMarkSpent : Except Error (Storage × Reply) := .error .unauthorized

def runComputeWorkId (crypto : Crypto) (db : Storage) (input : List UInt8)
    (suppliedGas : ℕ) : Except Error (Storage × Reply) := do
  let gas ← chargeGas Error.outOfGas suppliedGas gasComputeWorkId
  if input.length < 72 then .error .inputTooShort
  else
    .ok (db, ⟨computeWorkId crypto (slice input 0 32) (slice input 32 64)
      (bytesToNat (slice input 64 72)), gas, none⟩)

/-! ## Dispatch -/

def selVerifyMldsa : ℕ := 0x01000000
def selCalculateReward : ℕ := 0x02000000
def selVerifyTee : ℕ := 0x03000000
def selIsSpent : ℕ := 0x04000000
def selMarkSpent : ℕ := 0x05000000
def selComputeWorkId : ℕ := 0x06000000
def selVerifyAndMintWork : ℕ := 0x07000000
def selVerifyAndMintData : ℕ := 0x08000000

/-- One call of the precompile. -/
structure Request where
  caller : Address
  input : List UInt8
  gas : ℕ
  readOnly : Bool

def run (crypto : Crypto) (db : Storage) (r : Request) : Except Error (Storage × Reply) :=
  if r.input.length < 4 then .error .inputTooShort
  else
    let selector := bytesToNat (r.input.take 4)
    let data := r.input.drop 4
    if selector = selVerifyMldsa then runVerifyMldsa crypto db data r.gas
    else if selector = selCalculateReward then runCalculateReward db data r.gas
    else if selector = selVerifyTee then runVerifyTee crypto db data r.gas
    else if selector = selIsSpent then runIsSpent crypto db data r.gas
    else if selector = selMarkSpent then runMarkSpent
    else if selector = selComputeWorkId then runComputeWorkId crypto db data r.gas
    else if selector = selVerifyAndMintWork then
      runVerifyAndMint crypto .work db data r.gas r.readOnly
    else if selector = selVerifyAndMintData then
      runVerifyAndMint crypto .data db data r.gas r.readOnly
    else .error (.unknownSelector selector)

/-- The claim a request presents for minting. -/
def Request.claim (r : Request) : Option Claim :=
  let selector := bytesToNat (r.input.take 4)
  if selector = selVerifyAndMintWork then (parseTriple .work (r.input.drop 4)).toOption
  else if selector = selVerifyAndMintData then
    (parseTriple .data (r.input.drop 4)).toOption
  else none

/-! ## Runs -/

/-- The storage and the claims settled so far, the latest first. -/
abbrev Execution := Storage × List Claim

/-- One call; a failed one leaves everything as it was. -/
def exec (crypto : Crypto) (s : Execution) (r : Request) : Execution :=
  match run crypto s.1 r with
  | .ok (db, reply) => (db, reply.mint.toList ++ s.2)
  | .error _ => s

/-- The execution of a list of calls. -/
def runFrom (crypto : Crypto) (db : Storage) (requests : List Request) : Execution :=
  requests.foldl (exec crypto) (db, [])

end LuxPrecompile.Ai
