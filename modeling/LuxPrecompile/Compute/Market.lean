import LuxPrecompile.Evm.Calldata
import LuxPrecompile.Evm.Store

/-!
# The compute market

`compute/contract.go`.  Providers register, jobs are submitted, claimed by a provider
with an output and verified against the hash of that output.  Storage slots are hashes
of distinct byte strings, so they are kept apart by what is hashed.
-/

namespace LuxPrecompile.Compute

open Evm

/-- The errors of the package. -/
inductive Error
  | invalidInput
  | unknownOp
  | notProvider
  | jobNotFound
  | jobAlreadyClaimed
  | readOnlyState
  | priceOverflow
  | outOfGas
deriving DecidableEq, Repr

/-! ## Constants -/

def opRegisterProvider : UInt8 := 0x01
def opSubmitJob : UInt8 := 0x02
def opClaimReward : UInt8 := 0x03
def opVerifyCompute : UInt8 := 0x04
def opGetPrice : UInt8 := 0x05

def gasRegister : ℕ := 25000
def gasSubmit : ℕ := 10000
def gasClaim : ℕ := 5000
def gasVerify : ℕ := 50000
def gasGetPrice : ℕ := 5000

/-- The status words of a job. -/
def statusOpen : Word := 0
def statusClaimed : Word := 1
def statusVerified : Word := 2

def pricePerByte : ℕ := 1000

/-! ## Storage -/

/-- The words kept for an account. -/
inductive AccountField
  | nonce
  | jobNonce
deriving DecidableEq

/-- The words kept for a provider or a job. -/
inductive RecordField
  | provider
  | providerOwner
  | providerTee
  | job
  | jobSubmitter
  | jobPrice
  | jobInput
  | jobStatus
  | jobOutput
  | jobProvider
deriving DecidableEq

/-- The slots of the precompile: `storageSlot` of a text and a key. -/
inductive Slot
  | account (field : AccountField) (a : Address)
  | record (field : RecordField) (id : Word)
deriving DecidableEq

/-- The text a field's slots start with. -/
def AccountField.label : AccountField → List UInt8
  | .nonce => ascii ['n', 'o', 'n', 'c', 'e']
  | .jobNonce => ascii ['j', 'o', 'b', '.', 'n', 'o', 'n', 'c', 'e']

def RecordField.label : RecordField → List UInt8
  | .provider => ascii ['p', 'r', 'o', 'v', 'i', 'd', 'e', 'r']
  | .providerOwner => ascii ['p', 'r', 'o', 'v', 'i', 'd', 'e', 'r', '.', 'o', 'w', 'n', 'e', 'r']
  | .providerTee => ascii ['p', 'r', 'o', 'v', 'i', 'd', 'e', 'r', '.', 't', 'e', 'e']
  | .job => ascii ['j', 'o', 'b']
  | .jobSubmitter => ascii ['j', 'o', 'b', '.', 's', 'u', 'b', 'm', 'i', 't', 't', 'e', 'r']
  | .jobPrice => ascii ['j', 'o', 'b', '.', 'p', 'r', 'i', 'c', 'e']
  | .jobInput => ascii ['j', 'o', 'b', '.', 'i', 'n', 'p', 'u', 't']
  | .jobStatus => ascii ['j', 'o', 'b', '.', 's', 't', 'a', 't', 'u', 's']
  | .jobOutput => ascii ['j', 'o', 'b', '.', 'o', 'u', 't', 'p', 'u', 't']
  | .jobProvider => ascii ['j', 'o', 'b', '.', 'p', 'r', 'o', 'v', 'i', 'd', 'e', 'r']

/-- The bytes a slot is the hash of. -/
def Slot.preimage : Slot → List UInt8
  | .account field a => field.label ++ addressBytes a
  | .record field id => field.label ++ hashBytes id

theorem AccountField.label_inj {f g : AccountField} (h : f.label = g.label) : f = g := by
  cases f <;> cases g <;> first | rfl | exact absurd h (by decide)

theorem RecordField.label_inj {f g : RecordField} (h : f.label = g.label) : f = g := by
  cases f <;> cases g <;> first | rfl | exact absurd h (by decide)

theorem AccountField.label_length_lt (f : AccountField) (g : RecordField) :
    f.label.length + 20 < g.label.length + 32 := by
  cases f <;> cases g <;> decide

/-- Different slots are hashes of different byte strings. -/
theorem Slot.preimage_inj {s t : Slot} (h : s.preimage = t.preimage) : s = t := by
  have hlength := congrArg List.length h
  cases s with
  | account f a =>
      cases t with
      | account g b =>
          obtain ⟨hlabel, hkey⟩ := List.append_inj' h (by simp)
          rw [AccountField.label_inj hlabel, ← bytesToAddress_addressBytes a, hkey,
            bytesToAddress_addressBytes]
      | record g id =>
          have hlt := f.label_length_lt g
          simp only [preimage, List.length_append, addressBytes_length, hashBytes_length]
            at hlength
          omega
  | record f id =>
      cases t with
      | account g a =>
          have hlt := g.label_length_lt f
          simp only [preimage, List.length_append, addressBytes_length, hashBytes_length]
            at hlength
          omega
      | record g id' =>
          obtain ⟨hlabel, hkey⟩ := List.append_inj' h (by simp)
          rw [RecordField.label_inj hlabel, hashBytes_inj hkey]

abbrev Storage := Store Slot

/-! ## Operations -/

abbrev Outcome := Evm.Outcome Error Storage

/-- A call that returns a word. -/
def done (st : Storage) (ret : Word) (gas : ℕ) : Outcome := ⟨st, .ok ⟨hashBytes ret, gas⟩⟩

section Operations

variable (keccak256 : List UInt8 → Word)

/-- The id of a provider or a job: the hash of the caller and its nonce. -/
def recordID (caller : Address) (nonce : Word) : Word :=
  keccak256 (addressBytes caller ++ hashBytes nonce)

def registerProvider (st : Storage) (caller : Address) (data : List UInt8) (gas : ℕ) : Outcome :=
  if data.length < 64 then fail st .invalidInput gas
  else
    let nonce := st (.account .nonce caller)
    let providerID := recordID keccak256 caller nonce
    let st := st.set (.record .provider providerID) (argWord data 0)
    let st := st.set (.record .providerOwner providerID) (addressWord caller)
    let st := st.set (.record .providerTee providerID) (argWord data 32)
    done (st.set (.account .nonce caller) (nonce + 1)) providerID gas

def submitJob (st : Storage) (caller : Address) (data : List UInt8) (gas : ℕ) : Outcome :=
  if data.length < 96 then fail st .invalidInput gas
  else
    let nonce := st (.account .jobNonce caller)
    let jobID := recordID keccak256 caller nonce
    let st := st.set (.record .job jobID) (argWord data 0)
    let st := st.set (.record .jobSubmitter jobID) (addressWord caller)
    let st := st.set (.record .jobPrice jobID) (argWord data 64)
    let st := st.set (.record .jobInput jobID) (argWord data 32)
    done (st.set (.account .jobNonce caller) (nonce + 1)) jobID gas

def claimReward (st : Storage) (caller : Address) (data : List UInt8) (gas : ℕ) : Outcome :=
  if data.length < 64 then fail st .invalidInput gas
  else
    let jobID := argWord data 0
    if st (.record .job jobID) = 0 then fail st .jobNotFound gas
    else if st (.record .jobStatus jobID) ≠ statusOpen then fail st .jobAlreadyClaimed gas
    else if st (.account .nonce caller) = 0 then fail st .notProvider gas
    else
      let st := st.set (.record .jobStatus jobID) statusClaimed
      let st := st.set (.record .jobOutput jobID) (argWord data 32)
      done (st.set (.record .jobProvider jobID) (addressWord caller)) 1 gas

def verifyCompute (st : Storage) (data : List UInt8) (gas : ℕ) : Outcome :=
  if data.length < 64 then fail st .invalidInput gas
  else
    let jobID := argWord data 0
    if st (.record .jobStatus jobID) ≠ statusClaimed then done st 0 gas
    else if argWord data 32 ≠
        keccak256 (hashBytes jobID ++ hashBytes (st (.record .jobOutput jobID))) then
      done st 0 gas
    else done (st.set (.record .jobStatus jobID) statusVerified) 1 gas

def getPrice (st : Storage) (data : List UInt8) (gas : ℕ) : Outcome :=
  if data.length < 64 then fail st .invalidInput gas
  else
    let price := (argWord data 32).toNat * pricePerByte
    if 2 ^ 256 ≤ price then fail st .priceOverflow gas
    else done st (BitVec.ofNat 256 price) gas

/-- The checks every writer makes before its work. -/
def runWriter (st : Storage) (readOnly : Bool) (suppliedGas cost : ℕ) (work : ℕ → Outcome) :
    Outcome :=
  if readOnly then fail st .readOnlyState suppliedGas
  else if suppliedGas < cost then fail st .outOfGas 0
  else work (suppliedGas - cost)

def run (st : Storage) (c : Call) : Outcome :=
  match c.input with
  | [] => fail st .invalidInput c.gas
  | op :: data =>
      if op = opRegisterProvider then
        runWriter st c.readOnly c.gas gasRegister (registerProvider keccak256 st c.caller data)
      else if op = opSubmitJob then
        runWriter st c.readOnly c.gas gasSubmit (submitJob keccak256 st c.caller data)
      else if op = opClaimReward then
        runWriter st c.readOnly c.gas gasClaim (claimReward st c.caller data)
      else if op = opVerifyCompute then
        runWriter st c.readOnly c.gas gasVerify (verifyCompute keccak256 st data)
      else if op = opGetPrice then
        if c.gas < gasGetPrice then fail st .outOfGas 0
        else getPrice st data (c.gas - gasGetPrice)
      else fail st .unknownOp c.gas

end Operations

end LuxPrecompile.Compute
