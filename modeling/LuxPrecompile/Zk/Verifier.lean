import LuxPrecompile.Evm.Bytes

/-!
# Rollups and confidential pools of the proof verifier

`zk/verifier.go`.  A rollup advances its state root batch by batch, each on the
strength of one Groth16 or PLONK proof; a confidential pool collects commitments.
The curve operations of the `bn256` package and SHA-256 are parameters.
-/

namespace LuxPrecompile.Zk

open Evm

/-- The errors of the calls below. -/
inductive Error
  | invalidVerifyingKey
  | rollupNotFound
  | rollupDisabled
  | unauthorizedProposer
  | batchTooLarge
  | invalidStateRoot
  | invalidProof
  | proofSystemMismatch
  | poolNotFound
  | poolDisabled
deriving DecidableEq, Repr

/-- `ProofSystem`. -/
inductive ProofSystem
  | groth16
  | plonk
  | fflonk
  | halo2
  | stark
deriving DecidableEq, Repr

/-- A verifying key: curve elements as bytes. -/
structure VerifyingKey where
  alpha : List UInt8
  beta : List UInt8
  gamma : List UInt8
  delta : List UInt8
  ic : List (List UInt8)
deriving DecidableEq

/-- A proof: curve elements as bytes. -/
structure Proof where
  a : List UInt8
  b : List UInt8
  c : List UInt8
deriving DecidableEq

/-- `RollupBatch`. -/
structure RollupBatch where
  batchID : Word
  prevStateRoot : Word
  newStateRoot : Word
  transactions : UInt64
  proof : Option Proof
  l1BatchNum : UInt64
  proposer : Address
deriving DecidableEq

/-- `RollupConfig`. -/
structure RollupConfig where
  owner : Address
  verifyingKey : VerifyingKey
  proofSystem : ProofSystem
  maxTxPerBatch : UInt64
  sequencer : Address
  enabled : Bool
deriving DecidableEq

/-- `RollupState`. -/
structure RollupState where
  lastBatchID : Word
  lastStateRoot : Word
  lastL1Block : UInt64
  totalBatches : UInt64
  totalTxs : UInt64
deriving DecidableEq

/-- A commitment with its amount. -/
structure Commitment where
  value : List UInt8
  amount : ℤ
deriving DecidableEq

/-- `ConfidentialPool`. -/
structure ConfidentialPool where
  commitments : Word → Option Commitment
  totalDeposits : ℤ
  enabled : Bool

/-- `ZKVerifier`. -/
structure ZKVerifier where
  verifyingKeys : Word → Option VerifyingKey
  rollups : Word → Option RollupConfig
  rollupStates : Word → Option RollupState
  pools : Word → Option ConfidentialPool

/-- The operations of the `bn256` package. -/
structure Bn256 where
  G1 : Type
  G2 : Type
  unmarshalG1 : List UInt8 → Option G1
  unmarshalG2 : List UInt8 → Option G2
  zero : G1
  add : G1 → G1 → G1
  scalarMult : G1 → ℤ → G1
  pairingCheck : List G1 → List G2 → Bool

/-! ## Reading a proof -/

/-- `contract.Cursor.Fields`: `n` fields of `w` bytes, and what is left. -/
def fields (bs : List UInt8) (n w : ℕ) : Option (List (List UInt8) × List UInt8) :=
  if w = 0 then some ([], bs)
  else if bs.length / w < n then none
  else some ((List.range n).map fun i => slice bs (i * w) (i * w + w), bs.drop (n * w))

def isZeroBytes (b : List UInt8) : Bool := b.all (· == 0)

def degenerate (elems : List (List UInt8)) : Bool :=
  elems.any fun e => e.isEmpty || isZeroBytes e

/-- Go's conversion of a `uint64` to `int64`. -/
def int64 (x : UInt64) : ℤ := (x.toNat : ℤ).bmod (2 ^ 64)

section Verification

variable (curve : Bn256) (sha256 : List UInt8 → Word)

/-- A point negated, as `ScalarMult` by `-1`. -/
def neg (p : curve.G1) : curve.G1 := curve.scalarMult p (-1)

/-! ## Groth16 -/

/-- The loop of `groth16PairingCheck` over the public inputs. -/
def addInputs : curve.G1 → List curve.G1 → List ℤ → Option curve.G1
  | vkX, _, [] => some vkX
  | _, [], _ :: _ => none
  | vkX, p :: ic, input :: inputs =>
      addInputs (curve.add vkX (curve.scalarMult p input)) ic inputs

/-- The linear combination of the public inputs with the input constraints. -/
def inputCombination (ic : List curve.G1) (publicInputs : List ℤ) : Option curve.G1 :=
  match ic with
  | [] => none
  | ic0 :: ic => addInputs curve (curve.scalarMult ic0 1) ic publicInputs

def groth16PairingCheck (vk : VerifyingKey) (proof : Proof) (publicInputs : List ℤ) : Bool :=
  if degenerate [vk.alpha, vk.beta, vk.gamma, vk.delta] || degenerate vk.ic then false
  else
    (do
      let a ← curve.unmarshalG1 proof.a
      let b ← curve.unmarshalG2 proof.b
      let c ← curve.unmarshalG1 proof.c
      let alpha ← curve.unmarshalG1 vk.alpha
      let beta ← curve.unmarshalG2 vk.beta
      let gamma ← curve.unmarshalG2 vk.gamma
      let delta ← curve.unmarshalG2 vk.delta
      let ic ← vk.ic.mapM curve.unmarshalG1
      let vkX ← inputCombination curve ic publicInputs
      return curve.pairingCheck [a, neg curve alpha, neg curve vkX, neg curve c]
        [b, beta, gamma, delta]).getD false

/-- The public inputs of `verifyGroth16Batch`. -/
def groth16Inputs (batch : RollupBatch) : List ℤ :=
  [batch.prevStateRoot.toNat, batch.newStateRoot.toNat, int64 batch.transactions,
    int64 batch.l1BatchNum]

def verifyGroth16Batch (vk : VerifyingKey) (batch : RollupBatch) : Except Error Bool :=
  match batch.proof with
  | none => .error .invalidProof
  | some proof => .ok (groth16PairingCheck curve vk proof (groth16Inputs batch))

/-! ## PLONK -/

def plonkPoints : ℕ := 9
def plonkPointSize : ℕ := 64
def plonkEvals : ℕ := 6
def fieldLen : ℕ := 32

def computePlonkPIEvaluation (publicInputs : List ℤ) : ℤ := publicInputs.sum

def computeChallenge (proof domain : List UInt8) : ℕ := (sha256 (domain ++ proof)).toNat

/-- `computeLinearizationCommitment`, with the points and scalars it is given. -/
def computeLinearizationCommitment (commitments vkPoints : List curve.G1)
    (evaluations : List ℕ) (alpha _beta _gamma _zeta : ℕ) (_piEval : ℤ) : curve.G1 :=
  let point (ps : List curve.G1) (i : ℕ) := ps.getD i curve.zero
  let aEval := evaluations.getD 0 0
  let bEval := evaluations.getD 1 0
  let cEval := evaluations.getD 2 0
  let f := curve.add curve.zero (curve.scalarMult (point vkPoints 0) (aEval * bEval : ℕ))
  let f := curve.add f (curve.scalarMult (point vkPoints 1) aEval)
  let f := curve.add f (curve.scalarMult (point vkPoints 2) bEval)
  let f := curve.add f (curve.scalarMult (point vkPoints 3) cEval)
  let f := curve.add f (point vkPoints 4)
  curve.add f (curve.scalarMult (point commitments 3) alpha)

def plonkVerify (vk : VerifyingKey) (proof : List UInt8) (publicInputs : List ℤ) : Bool :=
  if degenerate [vk.beta] || degenerate vk.ic then false
  else
    (do
      let (rawPoints, rest) ← fields proof plonkPoints plonkPointSize
      let (rawEvals, _) ← fields rest plonkEvals fieldLen
      let commitments ← rawPoints.mapM curve.unmarshalG1
      let evaluations := rawEvals.map bytesToNat
      if vk.ic.length < 9 then none
      else do
        let vkPoints ← (vk.ic.take 8).mapM curve.unmarshalG1
        let x2 ← curve.unmarshalG2 (vk.ic.getD 8 [])
        let piEval := computePlonkPIEvaluation publicInputs
        let challenge := fun name => computeChallenge sha256 proof (ascii name)
        let alpha := challenge ['a', 'l', 'p', 'h', 'a']
        let beta := challenge ['b', 'e', 't', 'a']
        let gamma := challenge ['g', 'a', 'm', 'm', 'a']
        let zeta := challenge ['z', 'e', 't', 'a']
        let u := challenge ['u']
        let f := computeLinearizationCommitment curve commitments vkPoints evaluations
          alpha beta gamma zeta piEval
        let leftG1 := curve.add (commitments.getD 7 curve.zero)
          (curve.scalarMult (commitments.getD 8 curve.zero) u)
        let g2Gen ← curve.unmarshalG2 vk.beta
        return curve.pairingCheck [leftG1, neg curve f] [x2, g2Gen]).getD false

/-- The public inputs of `verifyPlonkBatch`. -/
def plonkInputs (batch : RollupBatch) : List ℤ :=
  [batch.prevStateRoot.toNat, batch.newStateRoot.toNat]

def verifyPlonkBatch (vk : VerifyingKey) (batch : RollupBatch) : Except Error Bool :=
  match batch.proof with
  | none => .error .invalidProof
  | some proof =>
      .ok (plonkVerify curve sha256 vk (proof.a ++ proof.b ++ proof.c) (plonkInputs batch))

/-! ## Rollups -/

/-- The dispatch of `VerifyRollupBatch` on the proof system. -/
def verifyBatchProof (config : RollupConfig) (batch : RollupBatch) : Except Error Bool :=
  match config.proofSystem with
  | .groth16 => verifyGroth16Batch curve config.verifyingKey batch
  | .plonk => verifyPlonkBatch curve sha256 config.verifyingKey batch
  | _ => .error .proofSystemMismatch

/-- The checks of `VerifyRollupBatch`. -/
def checkRollupBatch (config : RollupConfig) (state : RollupState) (batch : RollupBatch) :
    Except Error Unit :=
  if !config.enabled then .error .rollupDisabled
  else if batch.proposer ≠ config.sequencer ∧ batch.proposer ≠ config.owner then
    .error .unauthorizedProposer
  else if config.maxTxPerBatch < batch.transactions then .error .batchTooLarge
  else if batch.prevStateRoot ≠ state.lastStateRoot then .error .invalidStateRoot
  else do
    let valid ← verifyBatchProof curve sha256 config batch
    if valid then .ok () else .error .invalidProof

/-- The state after an accepted batch. -/
def RollupState.advance (state : RollupState) (batch : RollupBatch) : RollupState where
  lastBatchID := batch.batchID
  lastStateRoot := batch.newStateRoot
  lastL1Block := batch.l1BatchNum
  totalBatches := state.totalBatches + 1
  totalTxs := state.totalTxs + batch.transactions

def verifyRollupBatch (zv : ZKVerifier) (rollupID : Word) (batch : RollupBatch) :
    Except Error ZKVerifier :=
  match zv.rollups rollupID, zv.rollupStates rollupID with
  | some config, some state => do
      checkRollupBatch curve sha256 config state batch
      return { zv with
        rollupStates := Function.update zv.rollupStates rollupID (some (state.advance batch)) }
  | _, _ => .error .rollupNotFound

/-- The state of a rollup that has accepted no batch. -/
def genesisState : RollupState := ⟨0, 0, 0, 0, 0⟩

/-- The id of a rollup. -/
def rollupID (owner : Address) (verifyingKeyID : Word) : Word :=
  sha256 (addressBytes owner ++ hashBytes verifyingKeyID)

def registerRollup (zv : ZKVerifier) (owner : Address) (verifyingKeyID : Word)
    (proofSystem : ProofSystem) (maxTxPerBatch : UInt64) (sequencer : Address) :
    Except Error ZKVerifier :=
  match zv.verifyingKeys verifyingKeyID with
  | none => .error .invalidVerifyingKey
  | some vk =>
      let id := rollupID sha256 owner verifyingKeyID
      .ok { zv with
        rollups := Function.update zv.rollups id
          (some ⟨owner, vk, proofSystem, maxTxPerBatch, sequencer, true⟩)
        rollupStates := Function.update zv.rollupStates id (some genesisState) }

/-! ## Confidential pools -/

/-- The id of a pool. -/
def poolID (owner token : Address) : Word := sha256 (addressBytes owner ++ addressBytes token)

def createConfidentialPool (zv : ZKVerifier) (owner token : Address) : ZKVerifier :=
  { zv with
    pools := Function.update zv.pools (poolID sha256 owner token) (some ⟨fun _ => none, 0, true⟩) }

/-- A pool with one more commitment. -/
def ConfidentialPool.add (pool : ConfidentialPool) (id : Word) (commitment : Commitment) :
    ConfidentialPool :=
  { pool with
    commitments := Function.update pool.commitments id (some commitment)
    totalDeposits := pool.totalDeposits + commitment.amount }

def addCommitment (zv : ZKVerifier) (poolID : Word) (commitment : Commitment) :
    Except Error ZKVerifier :=
  match zv.pools poolID with
  | none => .error .poolNotFound
  | some pool =>
      if !pool.enabled then .error .poolDisabled
      else .ok { zv with
        pools := Function.update zv.pools poolID
          (some (pool.add (sha256 commitment.value) commitment)) }

end Verification

/-- `NewZKVerifier`, with the verifying keys registered on it. -/
def newZKVerifier (verifyingKeys : Word → Option VerifyingKey) : ZKVerifier where
  verifyingKeys := verifyingKeys
  rollups _ := none
  rollupStates _ := none
  pools _ := none

end LuxPrecompile.Zk
