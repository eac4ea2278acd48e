import LuxPrecompile.Blake3.Merkle
import LuxPrecompile.Evm.Calldata

/-!
# The BLAKE3 precompile

`blake3/contract.go`.  Every operation is charged before it runs, but only the two fixed-length
hashes return what the charge leaves; and data beyond `MaxInputLength` is cut off before it is
hashed.  The hash functions are a parameter.
-/

namespace LuxPrecompile.Blake3

open Evm Support

/-- The errors of the contract: its own, and those of the length of the data. -/
inductive RunError where
  | outOfGas
  | invalidInput
  | invalidOperation
  | outputTooLarge
  | data (e : Blake3Error)
deriving DecidableEq, Repr

def maxOutputLength : ℕ := 1024

def maxInputLength : ℕ := 1024 * 1024

def digestLength64 : ℕ := 64

def opHash256 : UInt8 := 0x01
def opHash512 : UInt8 := 0x02
def opHashXOF : UInt8 := 0x03
def opHashWithDomain : UInt8 := 0x04
def opMerkleRoot : UInt8 := 0x10
def opDeriveKey : UInt8 := 0x20

def gasBase256 : UInt64 := 100
def gasBase512 : UInt64 := 150
def gasBaseXOF : UInt64 := 200
def gasPerInputWord : UInt64 := 3
def gasPerOutputWord : UInt64 := 5
def gasDomainSetup : UInt64 := 50
def gasMerkleBase : UInt64 := 500
def gasMerklePerLeaf : UInt64 := 100
def gasDeriveKey : UInt64 := 300

/-- The functions of the hash package. -/
structure Hasher where
  /-- The first bytes read from the output of `New` after `Write`. -/
  read : List UInt8 → ℕ → List UInt8
  /-- `HashBytes`. -/
  hashBytes : List UInt8 → List UInt8
  /-- `HashWithDomain` of a domain and data. -/
  hashWithDomain : List UInt8 → List UInt8 → List UInt8
  /-- The first bytes read from the output of `NewWithDomain` after `Write`. -/
  readWithDomain : List UInt8 → List UInt8 → ℕ → List UInt8

/-- A read of `n` bytes returns the first `n` of one stream, and `HashBytes` the first 64. -/
structure Hasher.Lawful (h : Hasher) : Prop where
  read_length : ∀ bs n, (h.read bs n).length = n
  read_take : ∀ bs {m n : ℕ}, m ≤ n → (h.read bs n).take m = h.read bs m
  hashBytes_eq : ∀ bs, h.hashBytes bs = h.read bs digestLength64

/-! ## The contract -/

def requiredGas : List UInt8 → UInt64
  | [] => 0
  | op :: data =>
      let dataLen := UInt64.ofNat data.length
      let inputWords := (dataLen + 31) / 32
      if op = opHash256 then gasBase256 + inputWords * gasPerInputWord
      else if op = opHash512 then gasBase512 + inputWords * gasPerInputWord
      else if op = opHashXOF then
        if data.length < 4 then 0
        else
          let outputLen := bytesToUint32 (data.take 4)
          let outputWords := (outputLen.toUInt64 + 31) / 32
          gasBaseXOF + inputWords * gasPerInputWord + outputWords * gasPerOutputWord
      else if op = opHashWithDomain then
        gasDomainSetup + gasBase256 + inputWords * gasPerInputWord
      else if op = opMerkleRoot then
        if data.length < 4 then 0
        else
          let numLeaves := bytesToUint32 (data.take 4)
          gasMerkleBase + numLeaves.toUInt64 * gasMerklePerLeaf
      else if op = opDeriveKey then gasDeriveKey + inputWords * gasPerInputWord
      else 0

/-- The cut to `MaxInputLength` that each hash makes. -/
def clamp (data : List UInt8) : List UInt8 :=
  if maxInputLength < data.length then data.take maxInputLength else data

section Operations

variable (h : Hasher)

def hash256 (data : List UInt8) : List UInt8 := h.read (clamp data) digestLength32

def hash512 (data : List UInt8) : List UInt8 := h.hashBytes (clamp data)

/-- `hashXOF`, with the gas it returns. -/
def hashXOF (data : List UInt8) : Except (RunError × UInt64) (List UInt8 × UInt64) :=
  if data.length < 4 then .error (.data .invalidDataLength, 0)
  else
    let outputLen := (bytesToUint32 (data.take 4)).toNat
    if maxOutputLength < outputLen then .error (.outputTooLarge, 0)
    else .ok (h.read (clamp (data.drop 4)) outputLen, 0)

def hashWithDomain : List UInt8 → Except (RunError × UInt64) (List UInt8 × UInt64)
  | [] => .error (.data .invalidDataLength, 0)
  | domainLen :: rest =>
      if rest.length < domainLen.toNat then .error (.data .invalidDataLength, 0)
      else
        let domain := rest.take domainLen.toNat
        let inputData := clamp (rest.drop domainLen.toNat)
        .ok ((h.hashWithDomain domain inputData).take digestLength32, 0)

/-- The operation `merkleRoot`, with the gas it returns. -/
def merkleRootOp (data : List UInt8) : Except (RunError × UInt64) (List UInt8 × UInt64) :=
  match merkleRoot (fun bs => bytesToHash (h.read bs digestLength32)) data with
  | .error e => .error (.data e, 0)
  | .ok root => .ok (root, 0)

def deriveKey : List UInt8 → Except (RunError × UInt64) (List UInt8 × UInt64)
  | [] => .error (.data .invalidDataLength, 0)
  | contextLen :: rest =>
      if rest.length < contextLen.toNat + 32 then .error (.data .invalidDataLength, 0)
      else
        let context := rest.take contextLen.toNat
        let keyMaterial := slice rest contextLen.toNat (contextLen.toNat + 32)
        .ok (h.readWithDomain (ascii "BLAKE3 KDF: ".toList ++ context) keyMaterial
          digestLength32, 0)

/-- The switch of `Run` over the selector. -/
def operate (op : UInt8) (data : List UInt8) (remainingGas : UInt64) :
    Except (RunError × UInt64) (List UInt8 × UInt64) :=
  if op = opHash256 then .ok (hash256 h data, remainingGas)
  else if op = opHash512 then .ok (hash512 h data, remainingGas)
  else if op = opHashXOF then hashXOF h data
  else if op = opHashWithDomain then hashWithDomain h data
  else if op = opMerkleRoot then merkleRootOp h data
  else if op = opDeriveKey then deriveKey h data
  else .error (.invalidOperation, remainingGas)

/-- `Run`: the output and the remaining gas, or the error and the remaining gas. -/
def run (input : List UInt8) (suppliedGas : UInt64) :
    Except (RunError × UInt64) (List UInt8 × UInt64) :=
  match deductGas suppliedGas (requiredGas input) with
  | none => .error (.outOfGas, 0)
  | some remainingGas =>
      match input with
      | [] => .error (.invalidInput, remainingGas)
      | op :: data => operate h op data remainingGas

end Operations

/-! ## The gas returned -/

section Gas

variable {h : Hasher} {out : List UInt8} {remaining : UInt64}

theorem hashXOF_gas {data : List UInt8} (hrun : hashXOF h data = .ok (out, remaining)) :
    remaining = 0 := by
  simp only [hashXOF] at hrun
  rw [refuse_eq_ok, refuse_eq_ok] at hrun
  obtain ⟨-, -, hrun⟩ := hrun
  exact (Prod.mk.inj (Except.ok.inj hrun)).2.symm

theorem hashWithDomain_gas {data : List UInt8}
    (hrun : hashWithDomain h data = .ok (out, remaining)) : remaining = 0 := by
  rcases data with _ | ⟨domainLen, rest⟩
  · simp [hashWithDomain] at hrun
  · simp only [hashWithDomain] at hrun
    rw [refuse_eq_ok] at hrun
    exact (Prod.mk.inj (Except.ok.inj hrun.2)).2.symm

theorem merkleRootOp_gas {data : List UInt8}
    (hrun : merkleRootOp h data = .ok (out, remaining)) : remaining = 0 := by
  unfold merkleRootOp at hrun
  split at hrun
  · simp at hrun
  · exact (Prod.mk.inj (Except.ok.inj hrun)).2.symm

theorem deriveKey_gas {data : List UInt8} (hrun : deriveKey h data = .ok (out, remaining)) :
    remaining = 0 := by
  rcases data with _ | ⟨contextLen, rest⟩
  · simp [deriveKey] at hrun
  · simp only [deriveKey] at hrun
    rw [refuse_eq_ok] at hrun
    exact (Prod.mk.inj (Except.ok.inj hrun.2)).2.symm

/-- The selectors whose case of `Run` returns what the charge leaves. -/
def ReturnsGas (op : UInt8) : Prop := op = opHash256 ∨ op = opHash512

theorem operate_gas {op : UInt8} {data : List UInt8} {remainingGas : UInt64}
    (hrun : operate h op data remainingGas = .ok (out, remaining)) :
    ReturnsGas op ∧ remaining = remainingGas ∨ ¬ ReturnsGas op ∧ remaining = 0 := by
  unfold operate at hrun
  by_cases h256 : op = opHash256
  · rw [if_pos h256] at hrun
    exact .inl ⟨.inl h256, (Prod.mk.inj (Except.ok.inj hrun)).2.symm⟩
  rw [if_neg h256] at hrun
  by_cases h512 : op = opHash512
  · rw [if_pos h512] at hrun
    exact .inl ⟨.inr h512, (Prod.mk.inj (Except.ok.inj hrun)).2.symm⟩
  rw [if_neg h512] at hrun
  refine .inr ⟨not_or.mpr ⟨h256, h512⟩, ?_⟩
  split_ifs at hrun
  · exact hashXOF_gas hrun
  · exact hashWithDomain_gas hrun
  · exact merkleRootOp_gas hrun
  · exact deriveKey_gas hrun

theorem run_eq_ok {input : List UInt8} {suppliedGas : UInt64}
    (hrun : run h input suppliedGas = .ok (out, remaining)) :
    ∃ op data, input = op :: data ∧ requiredGas input ≤ suppliedGas ∧
      operate h op data (suppliedGas - requiredGas input) = .ok (out, remaining) := by
  unfold run deductGas at hrun
  by_cases hlow : suppliedGas < requiredGas input
  · rw [if_pos hlow] at hrun
    simp at hrun
  · rw [if_neg hlow] at hrun
    rcases input with _ | ⟨op, data⟩
    · simp at hrun
    · exact ⟨op, data, rfl, UInt64.not_lt.mp hlow, hrun⟩

/-- The gas returned is what the charge leaves exactly for the fixed-length hashes and when
the charge leaves nothing. -/
theorem run_gas_iff {input : List UInt8} {suppliedGas : UInt64}
    (hrun : run h input suppliedGas = .ok (out, remaining)) :
    requiredGas input ≤ suppliedGas ∧ (remaining = suppliedGas - requiredGas input ↔
      (∃ op data, input = op :: data ∧ ReturnsGas op) ∨ suppliedGas = requiredGas input) := by
  obtain ⟨op, data, rfl, hle, hoperate⟩ := run_eq_ok hrun
  refine ⟨hle, ?_⟩
  rcases operate_gas hoperate with ⟨hreturns, hgas⟩ | ⟨hdrops, hgas⟩
  · exact iff_of_true hgas (.inl ⟨op, data, rfl, hreturns⟩)
  · have hleft : remaining = suppliedGas - requiredGas (op :: data) ↔
        suppliedGas = requiredGas (op :: data) := by
      rw [hgas]
      grind
    rw [hleft]
    constructor
    · exact .inr
    · rintro (⟨op', data', heq, hreturns⟩ | heq)
      · obtain ⟨rfl, -⟩ := List.cons.inj heq
        exact absurd hreturns hdrops
      · exact heq

end Gas

/-! ## The data a digest is bound to -/

/-- The data that an input asks to be hashed. -/
def payload : List UInt8 → List UInt8
  | [] => []
  | op :: data => if op = opHashXOF then data.drop 4 else data

/-- The length of the digest that an input asks for. -/
def digestLength : List UInt8 → ℕ
  | [] => 0
  | op :: data =>
      if op = opHash256 then digestLength32
      else if op = opHash512 then digestLength64
      else (bytesToUint32 (data.take 4)).toNat

/-- The hashes of data alone: the two of fixed length, and an output of at least 32 bytes. -/
def Hashes (input : List UInt8) : Prop :=
  ∃ op data, input = op :: data ∧
    (op = opHash256 ∨ op = opHash512 ∨ op = opHashXOF ∧ digestLength32 ≤ digestLength input)

theorem clamp_eq_take (data : List UInt8) : clamp data = data.take maxInputLength := by
  unfold clamp
  split_ifs with hlong
  · rfl
  · rw [List.take_of_length_le (not_lt.mp hlong)]

section Binding

variable {h : Hasher}

theorem Hashes.digestLength_ge {input : List UInt8} (hinput : Hashes input) :
    digestLength32 ≤ digestLength input := by
  obtain ⟨op, data, rfl, rfl | rfl | ⟨-, hlong⟩⟩ := hinput
  · exact le_refl digestLength32
  · exact (by decide : digestLength32 ≤ digestLength64)
  · exact hlong

/-- The digest is the output for the clamped data, of the length asked for. -/
theorem run_digest (hlaw : h.Lawful) {input out : List UInt8} {suppliedGas remaining : UInt64}
    (hinput : Hashes input) (hrun : run h input suppliedGas = .ok (out, remaining)) :
    out = h.read (clamp (payload input)) (digestLength input) := by
  obtain ⟨op, data, rfl, -, hoperate⟩ := run_eq_ok hrun
  obtain ⟨op', data', heq, hop⟩ := hinput
  obtain ⟨rfl, rfl⟩ := List.cons.inj heq
  rcases hop with rfl | rfl | ⟨rfl, -⟩
  · exact (Prod.mk.inj (Except.ok.inj hoperate)).1.symm
  · rw [← (Prod.mk.inj (Except.ok.inj hoperate)).1]
    exact hlaw.hashBytes_eq _
  · have hxof : hashXOF h data = .ok (out, remaining) := hoperate
    simp only [hashXOF] at hxof
    rw [refuse_eq_ok, refuse_eq_ok] at hxof
    exact (Prod.mk.inj (Except.ok.inj hxof.2.2)).1.symm

/-- The hash has no collision between the strings hashed for two inputs. -/
def CollisionFreeOn (h : Hasher) (input input' : List UInt8) : Prop :=
  Set.InjOn (fun bs => h.read bs digestLength32) {clamp (payload input), clamp (payload input')}

theorem CollisionFreeOn.of_eq {input input' : List UInt8}
    (heq : clamp (payload input) = clamp (payload input')) : CollisionFreeOn h input input' := by
  rw [CollisionFreeOn, heq, Set.pair_eq_singleton]
  exact Set.injOn_singleton _ _

/-- Two digests agree exactly when they have one length and the clamped data agree. -/
theorem digest_eq_iff (hlaw : h.Lawful) {input input' out out' : List UInt8}
    {suppliedGas suppliedGas' remaining remaining' : UInt64}
    (hinput : Hashes input) (hinput' : Hashes input')
    (hrun : run h input suppliedGas = .ok (out, remaining))
    (hrun' : run h input' suppliedGas' = .ok (out', remaining'))
    (hfree : CollisionFreeOn h input input') :
    out = out' ↔ digestLength input = digestLength input' ∧
      clamp (payload input) = clamp (payload input') := by
  rw [run_digest hlaw hinput hrun, run_digest hlaw hinput' hrun']
  constructor
  · intro heq
    have hlength : digestLength input = digestLength input' := by
      rw [← hlaw.read_length (clamp (payload input)) (digestLength input), heq,
        hlaw.read_length]
    refine ⟨hlength, hfree (Set.mem_insert _ _) (Set.mem_insert_of_mem _ rfl) ?_⟩
    have hprefix := congrArg (List.take digestLength32) heq
    rwa [hlaw.read_take _ hinput.digestLength_ge, hlaw.read_take _ hinput'.digestLength_ge]
      at hprefix
  · rintro ⟨hlength, hclamp⟩
    rw [hlength, hclamp]

end Binding

/-! ## Gas and binding -/

/-- The gas returned is the gas supplied less the gas required exactly for the two fixed-length
hashes and for an exact supply; and two digests bind the data in full exactly when the data
agree, differ within the first `maxInputLength` bytes, or have digests of different lengths. -/
theorem gas_and_binding_iff (h : Hasher) (hlaw : h.Lawful) :
    (∀ input out suppliedGas remaining, run h input suppliedGas = .ok (out, remaining) →
      requiredGas input ≤ suppliedGas ∧ (remaining = suppliedGas - requiredGas input ↔
        (∃ op data, input = op :: data ∧ ReturnsGas op) ∨
          suppliedGas = requiredGas input)) ∧
    ∀ input input' out out' suppliedGas suppliedGas' remaining remaining',
      Hashes input → Hashes input' → run h input suppliedGas = .ok (out, remaining) →
      run h input' suppliedGas' = .ok (out', remaining') → CollisionFreeOn h input input' →
      ((out = out' → payload input = payload input') ↔
        payload input = payload input' ∨
          (payload input).take maxInputLength ≠ (payload input').take maxInputLength ∨
          digestLength input ≠ digestLength input') := by
  refine ⟨fun input out suppliedGas remaining => run_gas_iff, ?_⟩
  intro input input' out out' suppliedGas suppliedGas' remaining remaining' hinput hinput' hrun
    hrun' hfree
  rw [digest_eq_iff hlaw hinput hinput' hrun hrun' hfree, clamp_eq_take, clamp_eq_take]
  tauto

/-! ## The string `abc` -/

/-- The output of BLAKE3 for `abc`, as far as it is read here. -/
def abcStream : List UInt8 :=
  natToBytes 32 0x6437b3ac38465133ffb63b75273a8db548c558465d79db03fd359c6cd5bd9d85 ++
    natToBytes 32 0x1fb250ae7393f5d02813b65d521a0d492d9ba09cf7ce7f4cffd900f23374bf0b

/-- BLAKE3 on `abc`. -/
def sampleHasher : Hasher where
  read bs n := (List.range n).map fun i => if bs = ascii "abc".toList then abcStream.getD i 0 else 0
  hashBytes bs :=
    (List.range digestLength64).map fun i =>
      if bs = ascii "abc".toList then abcStream.getD i 0 else 0
  hashWithDomain _ _ := []
  readWithDomain _ _ _ := []

theorem sampleHasher_lawful : sampleHasher.Lawful where
  read_length bs n := by simp [sampleHasher]
  read_take bs m n hle := by
    simp only [sampleHasher]
    rw [← List.map_take, List.take_range, Nat.min_eq_left hle]
  hashBytes_eq _ := rfl

/-- The inputs of the 64-byte hash and of an output of 64 bytes. -/
def abcInput : List UInt8 := opHash512 :: ascii "abc".toList
def abcXofInput : List UInt8 := opHashXOF :: (uint32Bytes 64 ++ ascii "abc".toList)

theorem run_abcInput : run sampleHasher abcInput 200 = .ok (abcStream, 47) := by
  decide

theorem run_abcXofInput : run sampleHasher abcXofInput 300 = .ok (abcStream, 0) := by
  decide

theorem gas_and_binding_abc :
    47 = 200 - requiredGas abcInput ∧ payload abcInput = payload abcXofInput :=
  have h := gas_and_binding_iff sampleHasher sampleHasher_lawful
  ⟨(h.1 _ _ _ _ run_abcInput).2.mpr (.inl ⟨_, _, rfl, .inr rfl⟩),
    (h.2 _ _ _ _ _ _ _ _ ⟨_, _, rfl, .inr (.inl rfl)⟩
      ⟨_, _, rfl, .inr (.inr ⟨rfl, by decide⟩)⟩ run_abcInput run_abcXofInput
      (.of_eq rfl)).mpr (.inl rfl) rfl⟩

/-- The input of a 32-byte hash of zero bytes. -/
def zerosInput (n : ℕ) : List UInt8 := opHash256 :: List.replicate n 0

theorem run_zerosInput (h : Hasher) (n : ℕ) :
    run h (zerosInput n) (requiredGas (zerosInput n)) =
      .ok (hash256 h (List.replicate n 0), 0) := by
  unfold run deductGas
  rw [if_neg (UInt64.lt_irrefl _), UInt64.sub_self]
  rfl

theorem payload_zerosInput_length (n : ℕ) : (payload (zerosInput n)).length = n :=
  List.length_replicate

theorem clamp_zeros {n : ℕ} (hn : maxInputLength ≤ n) :
    clamp (payload (zerosInput n)) = List.replicate maxInputLength 0 := by
  rw [clamp_eq_take]
  exact (List.take_replicate ..).trans (by rw [Nat.min_eq_left hn])

/-- An output of 64 bytes leaves no gas of the 300 supplied, and zero bytes beyond
`maxInputLength` do not change a digest. -/
theorem gas_and_binding_fail :
    (¬ ∀ input out suppliedGas remaining,
      run sampleHasher input suppliedGas = .ok (out, remaining) →
      remaining = suppliedGas - requiredGas input) ∧
    ¬ ∀ (h : Hasher) (input input' out out' : List UInt8)
      (suppliedGas suppliedGas' remaining remaining' : UInt64), h.Lawful → Hashes input →
      Hashes input' → run h input suppliedGas = .ok (out, remaining) →
      run h input' suppliedGas' = .ok (out', remaining') → CollisionFreeOn h input input' →
      out = out' → payload input = payload input' := by
  constructor
  · intro hgas
    exact absurd (hgas _ _ _ _ run_abcXofInput) (by decide)
  · intro hbinds
    have hclamp : clamp (payload (zerosInput maxInputLength)) =
        clamp (payload (zerosInput (maxInputLength + 1))) := by
      rw [clamp_zeros le_rfl, clamp_zeros (Nat.le_succ _)]
    have hout : hash256 sampleHasher (List.replicate maxInputLength 0) =
        hash256 sampleHasher (List.replicate (maxInputLength + 1) 0) :=
      congrArg (sampleHasher.read · digestLength32) hclamp
    have hsame := hbinds sampleHasher _ _ _ _ _ _ _ _ sampleHasher_lawful
      ⟨_, _, rfl, .inl rfl⟩ ⟨_, _, rfl, .inl rfl⟩ (run_zerosInput sampleHasher maxInputLength)
      (run_zerosInput sampleHasher (maxInputLength + 1)) (.of_eq hclamp) hout
    have hlength := congrArg List.length hsame
    rw [← zerosInput, ← zerosInput, payload_zerosInput_length, payload_zerosInput_length]
      at hlength
    exact Nat.succ_ne_self _ hlength.symm

end LuxPrecompile.Blake3
