import LuxPrecompile.Evm.Calldata
import LuxPrecompile.Zk.Verifier

/-!
# Gas of the proof precompile

`zk/contract.go`: what a call is charged and what it parses.  The price is computed from the input
by routines of its own; the verifiers then parse the same input.  A run is modelled with a tally of
the public inputs `statement` has parsed and of the batch entries whose header was read.  What the
verifiers decide about a parsed proof is a parameter.
-/

namespace LuxPrecompile.Zk.Contract

open Evm

/-- The errors of the calls below. -/
inductive ContractError
  | outOfGas
  | invalidInput
  | invalidOperation
  | invalidProofLength
  | unknownProofSystem
  | fflonkDisabled
  | invalidRounds
  | ipaUnavailable
  | invalidBitLength
  | verification
deriving DecidableEq, Repr

/-! ## The cursor -/

/-- `Cursor.Bytes`, on what is left of the input. -/
def cursorBytes (n : ℕ) (rest : List UInt8) : Option (List UInt8 × List UInt8) :=
  (Cursor.bytes () n rest).toOption

/-- `Cursor.Byte`. -/
def cursorByte (rest : List UInt8) : Option (UInt8 × List UInt8) :=
  (Cursor.byte () rest).toOption

/-- `Cursor.Uint32`, as a number. -/
def cursorUint32 (rest : List UInt8) : Option (ℕ × List UInt8) :=
  (Cursor.uint32 () rest).toOption.map fun r => (r.1.toNat, r.2)

/-! ## Operations and prices -/

def opVerifyGroth16 : UInt8 := 0x01
def opVerifyPLONK : UInt8 := 0x02
def opVerifyFflonk : UInt8 := 0x03
def opVerifyHalo2 : UInt8 := 0x04
def opVerifyKZG : UInt8 := 0x10
def opVerifyIPA : UInt8 := 0x12
def opVerifyRangeProof : UInt8 := 0x23
def opVerifyNullifier : UInt8 := 0x21
def opVerifyCommitment : UInt8 := 0x22
def opVerifyBatch : UInt8 := 0x30

def gasGroth16Base : ℕ := 150000
def gasPLONKBase : ℕ := 200000
def gasFflonkBase : ℕ := 180000
def gasHalo2Base : ℕ := 250000
def gasKZGBase : ℕ := 50000
def gasIPABase : ℕ := 75000
def gasRangeProofBase : ℕ := 30000
def gasNullifierBase : ℕ := 10000
def gasCommitmentBase : ℕ := 20000
def gasPerPublicInput : ℕ := 1000
def gasPerBatchProof : ℕ := 50000
def minCallGas : ℕ := 21000

def numInputsOff : ℕ := 1 + 32

def countPublicInputs (input : List UInt8) : ℕ :=
  match cursorBytes numInputsOff input with
  | none => 0
  | some (_, rest) =>
      match cursorUint32 rest with
      | none => 0
      | some (claimed, rest) => min claimed (rest.length / fieldLen)

def countBatchProofs (input : List UInt8) : ℕ :=
  match cursorByte input with
  | none => 0
  | some (_, rest) =>
      match cursorUint32 rest with
      | none => 0
      | some (claimed, rest) => min claimed (rest.length / 5)

def price (input : List UInt8) : ℕ :=
  match input with
  | [] => 0
  | op :: _ =>
      if op = opVerifyGroth16 then gasGroth16Base + countPublicInputs input * gasPerPublicInput
      else if op = opVerifyPLONK then gasPLONKBase + countPublicInputs input * gasPerPublicInput
      else if op = opVerifyFflonk then gasFflonkBase + countPublicInputs input * gasPerPublicInput
      else if op = opVerifyHalo2 then gasHalo2Base + countPublicInputs input * gasPerPublicInput
      else if op = opVerifyKZG then gasKZGBase
      else if op = opVerifyIPA then gasIPABase
      else if op = opVerifyRangeProof then gasRangeProofBase
      else if op = opVerifyNullifier then gasNullifierBase
      else if op = opVerifyCommitment then gasCommitmentBase
      else if op = opVerifyBatch then countBatchProofs input * gasPerBatchProof
      else 0

def requiredGas (input : List UInt8) : ℕ := max (price input) minCallGas

/-! ## Verification -/

/-- A statement: the key, the public inputs and the proof behind them. -/
structure Statement where
  vkID : Word
  publicInputs : List ℕ
  rest : List UInt8

def statement (data : List UInt8) : Except ContractError Statement :=
  match cursorBytes 32 data with
  | none => .error .invalidInput
  | some (id, rest) =>
      match cursorUint32 rest with
      | none => .error .invalidInput
      | some (n, rest) =>
          match fields rest n fieldLen with
          | none => .error .invalidProofLength
          | some (raw, rest) => .ok ⟨bytesToHash id, raw.map bytesToNat, rest⟩

/-- What the verifiers decide about what was parsed. -/
structure Verifiers where
  groth16 : Word → List UInt8 → List UInt8 → List UInt8 → List ℕ → Except ContractError Bool
  plonk : Word → List UInt8 → List ℕ → Except ContractError Bool
  halo2 : List UInt8 → Except ContractError Bool
  kzg : List UInt8 → List UInt8 → List UInt8 → List UInt8 → Bool
  rangeProof : List UInt8 → List UInt8 → ℕ → Except ContractError Bool
  nullifier : List UInt8 → Except ContractError Bool
  commitment : List UInt8 → Except ContractError Bool

/-- The work of a run. -/
structure Tally where
  inputs : ℕ
  entries : ℕ
deriving DecidableEq, Repr

def plonkProofSize : ℕ := plonkPoints * plonkPointSize + plonkEvals * fieldLen

def g1Size : ℕ := 48

def halo2MaxRounds : ℕ := 32

def ipaPointSize : ℕ := 64

def rangeProofMinSize : ℕ := 64

section Run

variable (v : Verifiers)

/-- `verifyGroth16` after its statement. -/
def groth16Proof (s : Statement) : Except ContractError Bool :=
  match cursorBytes 64 s.rest with
  | none => .error .invalidProofLength
  | some (proofA, rest) =>
      match cursorBytes 128 rest with
      | none => .error .invalidProofLength
      | some (proofB, rest) =>
          match cursorBytes 64 rest with
          | none => .error .invalidProofLength
          | some (proofC, _) => v.groth16 s.vkID proofA proofB proofC s.publicInputs

/-- `verifyPLONK` after its statement. -/
def plonkProof (s : Statement) : Except ContractError Bool :=
  if s.rest.length < plonkProofSize then .error .invalidProofLength
  else v.plonk s.vkID s.rest s.publicInputs

/-- A verifier that starts with a statement, with the number of inputs it parses. -/
def withStatement (data : List UInt8) (proof : Statement → Except ContractError Bool) :
    ℕ × Except ContractError Bool :=
  match statement data with
  | .error e => (0, .error e)
  | .ok s => (s.publicInputs.length, proof s)

def verifyGroth16 (data : List UInt8) : ℕ × Except ContractError Bool :=
  withStatement data (groth16Proof v)

def verifyPLONK (data : List UInt8) : ℕ × Except ContractError Bool :=
  withStatement data (plonkProof v)

def verifyKZG (data : List UInt8) : Except ContractError Bool :=
  if data.length < g1Size + fieldLen + fieldLen + g1Size then .error .invalidInput
  else .ok (v.kzg (slice data 0 48) (slice data 48 80) (slice data 80 112) (slice data 112 160))

/-- `verifyIPA`: the structure is checked, and the proof is never verified. -/
def verifyIPA (data : List UInt8) : Except ContractError Bool :=
  match cursorBytes (3 * fieldLen) data with
  | none => .error .invalidInput
  | some (_, rest) =>
      match cursorUint32 rest with
      | none => .error .invalidInput
      | some (numRounds, rest) =>
          if numRounds = 0 ∨ halo2MaxRounds < numRounds then .error .invalidRounds
          else if rest.length < 2 * numRounds * ipaPointSize + fieldLen then
            .error .invalidProofLength
          else .error .ipaUnavailable

def verifyRangeProof (data : List UInt8) : Except ContractError Bool :=
  match cursorBytes fieldLen data with
  | none => .error .invalidInput
  | some (commitment, rest) =>
      match cursorUint32 rest with
      | none => .error .invalidInput
      | some (bitLength, rest) =>
          if rest.length < rangeProofMinSize then .error .invalidInput
          else if bitLength = 0 ∨ 256 < bitLength then .error .invalidBitLength
          else v.rangeProof commitment rest bitLength

/-- The dispatch of `verifyBatch` on the type of an entry. -/
def verifyEntry (proofType : UInt8) (proofData : List UInt8) : ℕ × Except ContractError Bool :=
  if proofType = opVerifyGroth16 then verifyGroth16 v proofData
  else if proofType = opVerifyPLONK then verifyPLONK v proofData
  else if proofType = opVerifyKZG then (0, verifyKZG v proofData)
  else if proofType = opVerifyRangeProof then (0, verifyRangeProof v proofData)
  else (0, .error .unknownProofSystem)

/-- The loop of `verifyBatch`. -/
def batchLoop : ℕ → List UInt8 → Tally × Except ContractError Bool
  | 0, _ => (⟨0, 0⟩, .ok true)
  | n + 1, rest =>
      match cursorByte rest with
      | none => (⟨0, 0⟩, .error .invalidInput)
      | some (proofType, rest) =>
          match cursorUint32 rest with
          | none => (⟨0, 0⟩, .error .invalidInput)
          | some (proofDataLen, rest) =>
              match cursorBytes proofDataLen rest with
              | none => (⟨0, 1⟩, .error .invalidInput)
              | some (proofData, rest) =>
                  let entry := verifyEntry v proofType proofData
                  match entry.2 with
                  | .error e => (⟨entry.1, 1⟩, .error e)
                  | .ok false => (⟨entry.1, 1⟩, .ok false)
                  | .ok true =>
                      let tail := batchLoop n rest
                      (⟨entry.1 + tail.1.inputs, 1 + tail.1.entries⟩, tail.2)

def verifyBatch (data : List UInt8) : Tally × Except ContractError Bool :=
  match cursorUint32 data with
  | none => (⟨0, 0⟩, .error .invalidInput)
  | some (numProofs, rest) =>
      if numProofs = 0 then (⟨0, 0⟩, .error .invalidInput) else batchLoop v numProofs rest

/-- The dispatch of `Run`. -/
def dispatch (op : UInt8) (data : List UInt8) : Tally × Except ContractError Bool :=
  if op = opVerifyGroth16 then (⟨(verifyGroth16 v data).1, 0⟩, (verifyGroth16 v data).2)
  else if op = opVerifyPLONK then (⟨(verifyPLONK v data).1, 0⟩, (verifyPLONK v data).2)
  else if op = opVerifyFflonk then (⟨0, 0⟩, .error .fflonkDisabled)
  else if op = opVerifyHalo2 then (⟨0, 0⟩, v.halo2 data)
  else if op = opVerifyKZG then (⟨0, 0⟩, verifyKZG v data)
  else if op = opVerifyIPA then (⟨0, 0⟩, verifyIPA data)
  else if op = opVerifyRangeProof then (⟨0, 0⟩, verifyRangeProof v data)
  else if op = opVerifyNullifier then (⟨0, 0⟩, v.nullifier data)
  else if op = opVerifyCommitment then (⟨0, 0⟩, v.commitment data)
  else if op = opVerifyBatch then verifyBatch v data
  else (⟨0, 0⟩, .error .invalidOperation)

def run (input : List UInt8) (suppliedGas : ℕ) : Tally × Except ContractError Bool :=
  if suppliedGas < requiredGas input then (⟨0, 0⟩, .error .outOfGas)
  else
    match cursorByte input with
    | none => (⟨0, 0⟩, .error .invalidInput)
    | some (op, data) => dispatch v op data

end Run

/-! ## What a statement parses -/

/-- The public inputs declared behind a key, if the data holds them. -/
def declaredInputs (data : List UInt8) : ℕ :=
  let n := (bytesToUint32 (slice data 32 36)).toNat
  if 36 + n * fieldLen ≤ data.length then n else 0

theorem cursorBytes_of_le {n : ℕ} {rest : List UInt8} (h : n ≤ rest.length) :
    cursorBytes n rest = some (rest.take n, rest.drop n) := by
  rw [cursorBytes, Cursor.bytes, if_neg (Nat.not_lt.mpr h)]
  rfl

theorem cursorBytes_of_lt {n : ℕ} {rest : List UInt8} (h : rest.length < n) :
    cursorBytes n rest = none := by
  rw [cursorBytes, Cursor.bytes, if_pos h]
  rfl

@[simp]
theorem cursorByte_cons (b : UInt8) (rest : List UInt8) : cursorByte (b :: rest) = some (b, rest) :=
  rfl

theorem cursorUint32_of_le {rest : List UInt8} (h : 4 ≤ rest.length) :
    cursorUint32 rest = some ((bytesToUint32 (rest.take 4)).toNat, rest.drop 4) := by
  rw [cursorUint32, Cursor.uint32, Cursor.bytes, if_neg (Nat.not_lt.mpr h)]
  rfl

theorem cursorUint32_of_lt {rest : List UInt8} (h : rest.length < 4) :
    cursorUint32 rest = none := by
  rw [cursorUint32, Cursor.uint32, Cursor.bytes, if_pos h]
  rfl

/-- A statement parses the inputs it declares, or none. -/
theorem withStatement_inputs (data : List UInt8)
    (proof : Statement → Except ContractError Bool) :
    (withStatement data proof).1 = declaredInputs data := by
  rcases Nat.lt_or_ge data.length 32 with hid | hid
  · rw [withStatement, statement, cursorBytes_of_lt hid, declaredInputs]
    rw [if_neg (by omega)]
  rcases Nat.lt_or_ge (data.drop 32).length 4 with hcount | hcount
  · rw [List.length_drop] at hcount
    rw [withStatement, statement, cursorBytes_of_le hid]
    simp only [cursorUint32_of_lt (show (data.drop 32).length < 4 by rw [List.length_drop]; omega)]
    rw [declaredInputs, if_neg (by omega)]
  · have hn : (data.drop 32).take 4 = slice data 32 36 := rfl
    rw [withStatement, statement, cursorBytes_of_le hid]
    simp only [cursorUint32_of_le hcount, hn, declaredInputs]
    generalize (bytesToUint32 (slice data 32 36)).toNat = n
    rw [List.length_drop] at hcount
    have hfits : (data.drop 32).drop 4 = data.drop 36 := List.drop_drop
    have hfield : fieldLen = 32 := rfl
    rw [hfits, fields, if_neg (by decide), List.length_drop, hfield]
    by_cases hlong : 36 + n * 32 ≤ data.length
    · rw [if_pos hlong, if_neg (by omega)]
      simp
    · rw [if_neg hlong, if_pos (by omega)]

/-- The price counts at least the inputs that are parsed. -/
theorem declaredInputs_le (op : UInt8) (data : List UInt8) :
    declaredInputs data ≤ countPublicInputs (op :: data) := by
  have hfield : fieldLen = 32 := rfl
  rw [declaredInputs]
  split_ifs with hfits
  · have hcount : 4 ≤ (data.drop 32).length := by
      rw [List.length_drop]
      omega
    have hhead : numInputsOff ≤ (op :: data).length := by
      rw [List.length_cons, numInputsOff]
      omega
    have hdrop : (op :: data).drop numInputsOff = data.drop 32 := rfl
    have hn : (data.drop 32).take 4 = slice data 32 36 := rfl
    rw [countPublicInputs, cursorBytes_of_le hhead]
    simp only [hdrop, cursorUint32_of_le hcount, hn, List.length_drop]
    apply le_min le_rfl
    rw [Nat.le_div_iff_mul_le (by decide)]
    omega
  · exact Nat.zero_le _

/-! ## What a batch parses -/

/-- The public inputs an entry of a batch declares: only two types start with a statement. -/
def entryInputs (e : UInt8 × List UInt8) : ℕ :=
  if e.1 = opVerifyGroth16 ∨ e.1 = opVerifyPLONK then declaredInputs e.2 else 0

/-- The complete entries among the first `n` of a batch. -/
def completeEntries : ℕ → List UInt8 → List (UInt8 × List UInt8)
  | 0, _ => []
  | n + 1, rest =>
      match cursorByte rest with
      | none => []
      | some (proofType, rest) =>
          match cursorUint32 rest with
          | none => []
          | some (proofDataLen, rest) =>
              match cursorBytes proofDataLen rest with
              | none => []
              | some (proofData, rest) => (proofType, proofData) :: completeEntries n rest

/-- The complete entries of the batch behind the selector. -/
def batchEntries (input : List UInt8) : List (UInt8 × List UInt8) :=
  match cursorUint32 (input.drop 1) with
  | none => []
  | some (numProofs, rest) => completeEntries numProofs rest

/-- The entries up to the first that is not a valid proof. -/
def reached (v : Verifiers) : List (UInt8 × List UInt8) → List (UInt8 × List UInt8)
  | [] => []
  | e :: entries =>
      e :: match (verifyEntry v e.1 e.2).2 with
        | .ok true => reached v entries
        | _ => []

/-- The public inputs declared by the entries that are reached. -/
def reachedInputs (v : Verifiers) (entries : List (UInt8 × List UInt8)) : ℕ :=
  ((reached v entries).map entryInputs).sum

section Batch

variable (v : Verifiers)

theorem verifyEntry_inputs (proofType : UInt8) (proofData : List UInt8) :
    (verifyEntry v proofType proofData).1 = entryInputs (proofType, proofData) := by
  rw [verifyEntry, entryInputs]
  by_cases hgroth16 : proofType = opVerifyGroth16
  · rw [if_pos hgroth16, if_pos (.inl hgroth16), verifyGroth16, withStatement_inputs]
  by_cases hplonk : proofType = opVerifyPLONK
  · rw [if_neg hgroth16, if_pos hplonk, if_pos (.inr hplonk), verifyPLONK, withStatement_inputs]
  · rw [if_neg hgroth16, if_neg hplonk,
      if_neg (show ¬ ((proofType, proofData).1 = opVerifyGroth16 ∨
        (proofType, proofData).1 = opVerifyPLONK) from not_or.mpr ⟨hgroth16, hplonk⟩)]
    split_ifs
    · rfl
    · rfl
    · rfl

/-- The loop parses what the entries it reaches declare. -/
theorem batchLoop_inputs (n : ℕ) (rest : List UInt8) :
    (batchLoop v n rest).1.inputs = reachedInputs v (completeEntries n rest) := by
  induction n generalizing rest with
  | zero => rfl
  | succ n ih =>
      rw [batchLoop, completeEntries]
      cases cursorByte rest with
      | none => rfl
      | some r =>
          obtain ⟨proofType, rest⟩ := r
          dsimp only
          cases cursorUint32 rest with
          | none => rfl
          | some r =>
              obtain ⟨proofDataLen, rest⟩ := r
              dsimp only
              cases cursorBytes proofDataLen rest with
              | none => rfl
              | some r =>
                  obtain ⟨proofData, rest⟩ := r
                  dsimp only
                  rw [reachedInputs, reached, List.map_cons, List.sum_cons,
                    ← verifyEntry_inputs v]
                  dsimp only
                  cases (verifyEntry v proofType proofData).2 with
                  | error e => simp
                  | ok valid =>
                      cases valid with
                      | false => simp
                      | true => rw [ih, reachedInputs]

/-- The loop reads no more headers than the input holds, and parses nothing without one. -/
theorem batchLoop_entries (n : ℕ) (rest : List UInt8) :
    (batchLoop v n rest).1.entries ≤ min n (rest.length / 5) ∧
      ((batchLoop v n rest).1.entries = 0 → (batchLoop v n rest).1.inputs = 0) := by
  induction n generalizing rest with
  | zero => exact ⟨Nat.zero_le _, fun _ => rfl⟩
  | succ n ih =>
      rw [batchLoop]
      cases rest with
      | nil => exact ⟨Nat.zero_le _, fun _ => rfl⟩
      | cons proofType rest =>
          simp only [cursorByte_cons]
          rcases Nat.lt_or_ge rest.length 4 with hshort | hlen
          · rw [cursorUint32_of_lt hshort]
            exact ⟨Nat.zero_le _, fun _ => rfl⟩
          · rw [cursorUint32_of_le hlen]
            dsimp only
            have hone : 1 ≤ min (n + 1) ((proofType :: rest).length / 5) := by
              rw [List.length_cons]
              omega
            generalize (bytesToUint32 (rest.take 4)).toNat = proofDataLen
            rcases Nat.lt_or_ge (rest.drop 4).length proofDataLen with hdata | hdata
            · rw [cursorBytes_of_lt hdata]
              exact ⟨hone, fun h => absurd h Nat.one_ne_zero⟩
            · rw [cursorBytes_of_le hdata]
              dsimp only
              cases (verifyEntry v proofType ((rest.drop 4).take proofDataLen)).2 with
              | error e => exact ⟨hone, fun h => absurd h Nat.one_ne_zero⟩
              | ok valid =>
                  cases valid with
                  | false => exact ⟨hone, fun h => absurd h Nat.one_ne_zero⟩
                  | true =>
                      have htail := (ih ((rest.drop 4).drop proofDataLen)).1
                      rw [List.length_drop, List.length_drop] at htail
                      refine ⟨?_, fun h => ?_⟩
                      · dsimp only
                        rw [List.length_cons]
                        omega
                      · dsimp only at h
                        omega

end Batch

/-! ## Price and work -/

section Work

variable (v : Verifiers)

theorem dispatch_idle {op : UInt8} (hgroth16 : op ≠ opVerifyGroth16) (hplonk : op ≠ opVerifyPLONK)
    (hbatch : op ≠ opVerifyBatch) (data : List UInt8) : (dispatch v op data).1 = ⟨0, 0⟩ := by
  rw [dispatch, if_neg hgroth16, if_neg hplonk, if_neg hbatch]
  split_ifs <;> rfl

/-- The work behind a selector other than the batch is paid for. -/
theorem dispatch_covered {op : UInt8} (hbatch : op ≠ opVerifyBatch) (data : List UInt8) :
    (dispatch v op data).1.inputs * gasPerPublicInput ≤ price (op :: data) ∧
      (dispatch v op data).1.entries = 0 := by
  have hpaid : declaredInputs data * gasPerPublicInput ≤
      countPublicInputs (op :: data) * gasPerPublicInput :=
    Nat.mul_le_mul_right _ (declaredInputs_le op data)
  by_cases hgroth16 : op = opVerifyGroth16
  · rw [dispatch, if_pos hgroth16, verifyGroth16, withStatement_inputs, price, if_pos hgroth16]
    exact ⟨hpaid.trans (Nat.le_add_left _ _), rfl⟩
  by_cases hplonk : op = opVerifyPLONK
  · rw [dispatch, if_neg hgroth16, if_pos hplonk, verifyPLONK, withStatement_inputs, price,
      if_neg hgroth16, if_pos hplonk]
    exact ⟨hpaid.trans (Nat.le_add_left _ _), rfl⟩
  · rw [dispatch_idle v hgroth16 hplonk hbatch, Nat.zero_mul]
    exact ⟨Nat.zero_le _, rfl⟩

/-- The work of a batch. -/
theorem verifyBatch_tally (op : UInt8) (data : List UInt8) :
    (verifyBatch v data).1.inputs = reachedInputs v (batchEntries (op :: data)) ∧
      (verifyBatch v data).1.entries ≤ countBatchProofs (op :: data) ∧
      ((verifyBatch v data).1.entries = 0 → (verifyBatch v data).1.inputs = 0) := by
  have htail : (op :: data).drop 1 = data := rfl
  rw [verifyBatch, batchEntries, htail, countBatchProofs]
  simp only [cursorByte_cons]
  cases cursorUint32 data with
  | none => exact ⟨rfl, Nat.zero_le _, fun _ => rfl⟩
  | some r =>
      obtain ⟨numProofs, rest⟩ := r
      dsimp only
      by_cases hzero : numProofs = 0
      · rw [if_pos hzero, hzero]
        exact ⟨rfl, Nat.zero_le _, fun _ => rfl⟩
      · rw [if_neg hzero]
        exact ⟨batchLoop_inputs v numProofs rest, batchLoop_entries v numProofs rest⟩

theorem price_batch (data : List UInt8) :
    price (opVerifyBatch :: data) = countBatchProofs (opVerifyBatch :: data) * gasPerBatchProof :=
  rfl

/-- A call pays for what it parses exactly when it is out of gas, is no batch, or the entries it
reaches declare at most fifty public inputs for each one charged; it never reads more entries than
are charged. -/
theorem gas_covers_iff (input : List UInt8) (suppliedGas : ℕ) :
    ((run v input suppliedGas).1.inputs * gasPerPublicInput ≤ requiredGas input ↔
      suppliedGas < requiredGas input ∨ input.head? ≠ some opVerifyBatch ∨
        reachedInputs v (batchEntries input) ≤ 50 * countBatchProofs input) ∧
    (run v input suppliedGas).1.entries ≤ countBatchProofs input := by
  rw [run]
  by_cases hgas : suppliedGas < requiredGas input
  · rw [if_pos hgas, Nat.zero_mul]
    exact ⟨iff_of_true (Nat.zero_le _) (.inl hgas), Nat.zero_le _⟩
  rw [if_neg hgas]
  cases input with
  | nil => exact ⟨iff_of_true ((Nat.zero_mul _).trans_le (Nat.zero_le _)) (.inr (.inl (by simp))),
      Nat.zero_le _⟩
  | cons op data =>
      simp only [cursorByte_cons, List.head?_cons, ne_eq, Option.some.injEq, hgas, false_or]
      by_cases hbatch : op = opVerifyBatch
      · subst hbatch
        have hdispatch : dispatch v opVerifyBatch data = verifyBatch v data := rfl
        obtain ⟨hinputs, hentries, hnone⟩ := verifyBatch_tally v opVerifyBatch data
        rw [hdispatch, ← hinputs, requiredGas, price_batch]
        simp only [gasPerPublicInput, gasPerBatchProof, minCallGas, not_true_eq_false, false_or]
        refine ⟨?_, hentries⟩
        rcases Nat.eq_zero_or_pos (countBatchProofs (opVerifyBatch :: data)) with hzero | hpos
        · rw [hnone (by omega)]
          simp
        · omega
      · obtain ⟨hinputs, hentries⟩ := dispatch_covered v hbatch data
        rw [hentries]
        refine ⟨iff_of_true (hinputs.trans (le_max_left _ _)) (.inl hbatch), Nat.zero_le _⟩

end Work

/-- Verifiers that accept nothing. -/
def sampleVerifiers : Verifiers where
  groth16 _ _ _ _ _ := .error .verification
  plonk _ _ _ := .error .verification
  halo2 _ := .error .verification
  kzg _ _ _ _ := false
  rangeProof _ _ _ := .error .verification
  nullifier _ := .error .verification
  commitment _ := .error .verification

/-- A batch of one Groth16 entry that declares 51 public inputs and ends after them. -/
def sampleBatch : List UInt8 :=
  opVerifyBatch :: (uint32Bytes 1 ++ (opVerifyGroth16 :: (uint32Bytes 1668 ++
    (List.replicate 32 0 ++ (uint32Bytes 51 ++ List.replicate 1632 0)))))

/-- Fifty-one parsed inputs for the gas of fifty. -/
theorem batch_underpriced :
    requiredGas sampleBatch = 50000 ∧
      (run sampleVerifiers sampleBatch 50000).1.inputs * gasPerPublicInput = 51000 := by
  decide +kernel

end LuxPrecompile.Zk.Contract
