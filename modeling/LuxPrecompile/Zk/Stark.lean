import LuxPrecompile.Evm.Bytes
import LuxPrecompile.Support.Runs

/-!
# The STARK verifier

`zk/stark.go`.  The verifier derives its challenges from a hash transcript over the
statement and the commitments, and then walks the queries of the proof; a query opens one
value a layer by a Merkle path.  The lists of a proof have lengths of their own, and an
index past the end of one, or a folding factor of zero, is a Go panic, which is an error of
its own here.  SHA-256 is a parameter.
-/

namespace LuxPrecompile.Zk

open Evm Support

/-- The errors of `Verify` and `STARKVerifyPrecompile`, and a Go panic. -/
inductive StarkError
  | invalidQueryResponseLength
  | merkleProofFailed
  | queryIndexMismatch
  | inputTooShort
  | unknownProgram
  | publicInputsTooShort
  | panic
deriving DecidableEq, Repr

/-- An element of a slice; past its end is a panic. -/
def starkAt {α : Type} (xs : List α) (k : ℕ) : Except StarkError α :=
  match xs[k]? with
  | some x => .ok x
  | none => .error .panic

/-! ## Proofs and verifiers -/

/-- `FRIVerifier`, with the parameters that are read.  `Verify` makes a slice of `NumQueries`
indices; that a number beyond the memory of the host panics there is left out. -/
structure FRIVerifier where
  numQueries : UInt64
  foldingFactor : UInt64
deriving DecidableEq

/-- `FRICommitment`. -/
structure FRICommitment where
  root : Word
  layerRoots : List Word
deriving DecidableEq

/-- `FRIQueryResponse`. -/
structure FRIQueryResponse where
  index : UInt64
  values : List UInt64
  authPaths : List (List Word)
deriving DecidableEq

/-- `STARKProof`, without the fields no check reads. -/
structure STARKProof where
  traceCommitment : Word
  constraintCommitment : Word
  friCommitment : FRICommitment
  friQueries : List FRIQueryResponse
deriving DecidableEq

/-- `STARKProof{}`. -/
def STARKProof.empty : STARKProof := ⟨0, 0, ⟨0, []⟩, []⟩

/-- `STARKVerifier`. -/
structure STARKVerifier where
  programHash : Word
  fri : FRIVerifier
deriving DecidableEq

def newSTARKVerifier (programHash : Word) : STARKVerifier := ⟨programHash, ⟨40, 2⟩⟩

section Verify

variable (sha256 : List UInt8 → Word)

/-! ## Merkle paths -/

/-- The loop of `verifyMerkleProof`. -/
def merkleRoot : Word → UInt64 → List Word → Word
  | current, _, [] => current
  | current, index, sibling :: rest =>
      let combined :=
        if index &&& 1 = 0 then hashBytes current ++ hashBytes sibling
        else hashBytes sibling ++ hashBytes current
      merkleRoot (sha256 combined) (index >>> 1) rest

def verifyMerkleProof (root : Word) (leaf : List UInt8) (index : UInt64) (proof : List Word) :
    Bool :=
  decide (merkleRoot sha256 (sha256 leaf) index proof = root)

/-- The loop of `VerifyQuery` over the layers that are left; the comparison of folded values
is computed there and not used. -/
def verifyLayers (v : FRIVerifier) (query : FRIQueryResponse) :
    List Word → ℕ → UInt64 → Except StarkError Unit
  | [], _, _ => .ok ()
  | root :: roots, layer, idx => do
      let value ← starkAt query.values layer
      let path ← starkAt query.authPaths layer
      if !verifyMerkleProof sha256 root (uint64Bytes value) idx path then
        .error .merkleProofFailed
      else if v.foldingFactor = 0 then .error .panic
      else verifyLayers v query roots (layer + 1) (idx / v.foldingFactor)

def verifyQuery (v : FRIVerifier) (commitment : FRICommitment) (query : FRIQueryResponse)
    (alphas : List UInt64) : Except StarkError Unit :=
  if query.values.length ≠ alphas.length + 1 then .error .invalidQueryResponseLength
  else verifyLayers sha256 v query commitment.layerRoots 0 query.index

/-! ## The transcript -/

/-- `Transcript.Append`. -/
def transcriptAppend (state : Word) (data : List UInt8) : Word :=
  sha256 (hashBytes state ++ data)

/-- `Transcript.Challenge`. -/
def transcriptChallenge (state : Word) : UInt64 × Word :=
  let state' := sha256 (hashBytes state)
  (bytesToUint64 (slice (hashBytes state') 0 8) &&& 0x7FFFFFFFFFFFFFFF, state')

/-- `n` challenges in a row. -/
def transcriptChallenges : ℕ → Word → List UInt64 × Word
  | 0, state => ([], state)
  | n + 1, state =>
      let (c, state') := transcriptChallenge sha256 state
      let (cs, state'') := transcriptChallenges n state'
      (c :: cs, state'')

/-- The label of the transcript. -/
def starkLabel : List UInt8 := ascii ['S', 'T', 'A', 'R', 'K', '-', 'v', '1']

/-- The folding challenges and the query indices `Verify` derives. -/
def deriveChallenges (v : STARKVerifier) (proof : STARKProof) (publicInputs : List UInt64) :
    List UInt64 × List UInt64 :=
  let state := transcriptAppend sha256 (sha256 starkLabel) (hashBytes v.programHash)
  let state := publicInputs.foldl (fun s pi => transcriptAppend sha256 s (uint64Bytes pi)) state
  let state := transcriptAppend sha256 state (hashBytes proof.traceCommitment)
  let state := (transcriptChallenge sha256 state).2
  let state := transcriptAppend sha256 state (hashBytes proof.constraintCommitment)
  -- the out-of-domain point and the two composition challenges are drawn and not used
  let state := (transcriptChallenges sha256 3 state).2
  let state := transcriptAppend sha256 state (hashBytes proof.friCommitment.root)
  let alphas := transcriptChallenges sha256 proof.friCommitment.layerRoots.length state
  let indices := transcriptChallenges sha256 v.fri.numQueries.toNat alphas.2
  (alphas.1, indices.1.map (· % (1 <<< 20)))

/-! ## Verification -/

/-- The loop of `Verify` over the queries that are left. -/
def verifyQueries (v : FRIVerifier) (commitment : FRICommitment) (alphas indices : List UInt64) :
    ℕ → List FRIQueryResponse → Except StarkError Unit
  | _, [] => .ok ()
  | i, query :: queries => do
      let index ← starkAt indices i
      if query.index ≠ index then .error .queryIndexMismatch
      else do
        verifyQuery sha256 v commitment query alphas
        verifyQueries v commitment alphas indices (i + 1) queries

/-- `STARKVerifier.Verify`. -/
def verifySTARK (v : STARKVerifier) (proof : STARKProof) (publicInputs : List UInt64) :
    Except StarkError Bool := do
  let (alphas, indices) := deriveChallenges sha256 v proof publicInputs
  verifyQueries sha256 v.fri proof.friCommitment alphas indices 0 proof.friQueries
  .ok true

/-- `STARKVerifyPrecompile`, with the registered verifiers.  The proof is not decoded. -/
def starkVerifyPrecompile (verifiers : Word → Option STARKVerifier) (input : List UInt8) :
    Except StarkError (List UInt8) :=
  if input.length < 32 then .error .inputTooShort
  else if input.length < 36 then .error .inputTooShort
  else
    match verifiers (bytesToHash (slice input 0 32)) with
    | none => .error .unknownProgram
    | some verifier =>
        let count := bytesToNat (slice input 32 36)
        if input.length < 36 + 8 * count then .error .publicInputsTooShort
        else do
          let publicInputs := (List.range count).map fun k =>
            bytesToUint64 (slice input (36 + 8 * k) (44 + 8 * k))
          let valid ← verifySTARK sha256 verifier .empty publicInputs
          .ok (natToBytes 32 (if valid then 1 else 0))

end Verify

end LuxPrecompile.Zk
