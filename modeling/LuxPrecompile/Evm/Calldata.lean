import LuxPrecompile.Evm.Bytes
import LuxPrecompile.Support.Runs

/-!
# Calls and their calldata

What a precompile is called with and what it returns; `contract/cursor.go`,
`contract/verdict.go` and `contract/utils.go`.  A read takes a field off the front of the
input and returns it with the rest; it refuses only when the input is too short, with the
error that the precompile gives.  A read succeeds on exactly the strings that start with an
encoding of what it returns.
-/

namespace LuxPrecompile.Evm

open Support

/-! ## Calls -/

/-- One call of a precompile. -/
structure Call where
  caller : Address
  input : List UInt8
  gas : ℕ
  readOnly : Bool
deriving DecidableEq

/-- A precompile's return value with the gas left. -/
structure Reply where
  ret : List UInt8
  gas : ℕ
deriving DecidableEq

/-- An error with the gas left. -/
structure Failure (ε : Type) where
  error : ε
  gas : ℕ
deriving DecidableEq

/-- The storage a call leaves, written or not, and what it returns. -/
structure Outcome (ε σ : Type) where
  storage : σ
  result : Except (Failure ε) Reply

/-- A call that fails before it writes. -/
def fail {ε σ : Type} (st : σ) (error : ε) (gas : ℕ) : Outcome ε σ := ⟨st, .error ⟨error, gas⟩⟩

@[simp]
theorem fail_storage {ε σ : Type} (st : σ) (error : ε) (gas : ℕ) :
    (fail st error gas).storage = st := rfl

/-! ## Reading calldata -/

namespace Cursor

variable {ε : Type} (short : ε)

def bytes (n : ℕ) (rest : List UInt8) : Except ε (List UInt8 × List UInt8) :=
  if rest.length < n then .error short else .ok (rest.take n, rest.drop n)

def byte : List UInt8 → Except ε (UInt8 × List UInt8)
  | [] => .error short
  | b :: rest => .ok (b, rest)

def uint32 (rest : List UInt8) : Except ε (UInt32 × List UInt8) := do
  let (b, rest) ← bytes short 4 rest
  .ok (bytesToUint32 b, rest)

/-- `n` reads of `w` bytes each, one after the other. -/
def fields (w : ℕ) : ℕ → List UInt8 → Except ε (List (List UInt8) × List UInt8)
  | 0, rest => .ok ([], rest)
  | n + 1, rest => do
      let (field, rest) ← bytes short w rest
      let (others, rest) ← fields w n rest
      .ok (field :: others, rest)

variable {short}

theorem bytes_eq_ok_iff {n : ℕ} {rest b rest' : List UInt8} :
    bytes short n rest = .ok (b, rest') ↔ rest = b ++ rest' ∧ b.length = n := by
  unfold bytes
  rw [refuse_eq_ok, Except.ok.injEq, Prod.mk.injEq]
  constructor
  · rintro ⟨hlength, rfl, rfl⟩
    exact ⟨(List.take_append_drop n rest).symm, List.length_take_of_le (not_lt.mp hlength)⟩
  · rintro ⟨rfl, rfl⟩
    exact ⟨by simp, List.take_left, List.drop_left⟩

theorem byte_eq_ok_iff {rest rest' : List UInt8} {b : UInt8} :
    byte short rest = .ok (b, rest') ↔ rest = b :: rest' := by
  rcases rest with _ | ⟨a, rest⟩
  · simp [byte]
  · simp [byte]

theorem uint32_eq_ok_iff {rest rest' : List UInt8} {x : UInt32} :
    uint32 short rest = .ok (x, rest') ↔ rest = uint32Bytes x ++ rest' := by
  unfold uint32
  rw [bind_eq_ok]
  constructor
  · rintro ⟨⟨b, after⟩, hread, hvalue⟩
    obtain ⟨rfl, hlength⟩ := bytes_eq_ok_iff.mp hread
    obtain ⟨rfl, rfl⟩ := Prod.mk.inj (Except.ok.inj hvalue)
    rw [uint32Bytes_bytesToUint32 hlength]
  · rintro rfl
    refine ⟨(uint32Bytes x, rest'), bytes_eq_ok_iff.mpr ⟨rfl, uint32Bytes_length x⟩, ?_⟩
    dsimp only
    rw [bytesToUint32_uint32Bytes]

theorem fields_eq_ok_iff {w : ℕ} :
    ∀ {n : ℕ} {rest rest' : List UInt8} {l : List (List UInt8)},
      fields short w n rest = .ok (l, rest') ↔
        rest = l.flatten ++ rest' ∧ l.length = n ∧ ∀ field ∈ l, field.length = w
  | 0, rest, rest', l => by
      constructor
      · intro h
        obtain ⟨rfl, rfl⟩ := Prod.mk.inj (Except.ok.inj h)
        simp
      · rintro ⟨rfl, hlength, -⟩
        obtain rfl := List.length_eq_zero_iff.mp hlength
        rfl
  | n + 1, rest, rest', l => by
      unfold fields
      rw [bind_eq_ok]
      constructor
      · rintro ⟨⟨field, after⟩, hread, h⟩
        dsimp only at h
        obtain ⟨⟨others, after'⟩, hothers, hlist⟩ := bind_eq_ok.mp h
        obtain ⟨rfl, hwidth⟩ := bytes_eq_ok_iff.mp hread
        obtain ⟨rfl, hlength, hall⟩ := fields_eq_ok_iff.mp hothers
        obtain ⟨rfl, rfl⟩ := Prod.mk.inj (Except.ok.inj hlist)
        refine ⟨by simp, by simp [hlength], ?_⟩
        exact List.forall_mem_cons.mpr ⟨hwidth, hall⟩
      · rintro ⟨rfl, hlength, hall⟩
        rcases l with _ | ⟨field, others⟩
        · simp at hlength
        · obtain ⟨hwidth, hothers⟩ := List.forall_mem_cons.mp hall
          refine ⟨(field, others.flatten ++ rest'), bytes_eq_ok_iff.mpr ⟨by simp, hwidth⟩, ?_⟩
          exact bind_eq_ok.mpr ⟨(others, rest'),
            fields_eq_ok_iff.mpr ⟨rfl, by simpa using hlength, hothers⟩, rfl⟩

end Cursor

/-! ## Verdicts -/

/-- `Verdict`: a check that ran, or why none did. -/
inductive Verdict (ε : Type)
  | checked (passed : Bool)
  | refused (why : ε)
deriving DecidableEq

namespace Verdict

variable {ε : Type}

def ok : Verdict ε → Bool
  | .checked passed => passed
  | .refused _ => false

/-- `Verdict.Word`: the boolean as a word. -/
def word (v : Verdict ε) : List UInt8 :=
  List.replicate 31 0 ++ [if v.ok then 1 else 0]

/-- The verdict of a check that may be refused. -/
def ofCheck : Except ε Bool → Verdict ε
  | .ok passed => .checked passed
  | .error why => .refused why

theorem ok_ofCheck {x : Except ε Bool} : (ofCheck x).ok = true ↔ x = .ok true := by
  rcases x with why | passed
  · simp [ofCheck, ok]
  · simp [ofCheck, ok]

end Verdict

/-- The word of `true`. -/
def trueWord : List UInt8 := List.replicate 31 0 ++ [1]

theorem Verdict.word_eq_trueWord {ε : Type} {v : Verdict ε} :
    v.word = trueWord ↔ v.ok = true := by
  unfold Verdict.word trueWord
  rcases v.ok
  · simp
  · simp

/-- `contract.DeductGas`; `none` is `ErrOutOfGas`. -/
def deductGas (suppliedGas requiredGas : UInt64) : Option UInt64 :=
  if suppliedGas < requiredGas then none else some (suppliedGas - requiredGas)

/-- `contract.DeductGas`, with the error that a precompile gives. -/
def chargeGas {ε : Type} (outOfGas : ε) (suppliedGas requiredGas : ℕ) : Except ε ℕ :=
  if suppliedGas < requiredGas then .error outOfGas else .ok (suppliedGas - requiredGas)

/-- The fixed length of an operation's arguments, with the error that a precompile gives. -/
def checkLength {ε : Type} (badArgs : ℕ → ℕ → ε) (data : List UInt8) (expected : ℕ) :
    Except ε Unit :=
  if data.length ≠ expected then .error (badArgs expected data.length) else .ok ()

end LuxPrecompile.Evm
