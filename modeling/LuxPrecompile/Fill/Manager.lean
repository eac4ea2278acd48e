import LuxPrecompile.Evm.Bytes
import LuxPrecompile.Evm.Store

/-!
# Fill attestations

`dex/fill_attestation.go`.  A manager keeps the attestations it has seen in memory
and all of them in the state database.  A value that does not fit a word makes the
copy into the word panic.
-/

namespace LuxPrecompile.Fill

open Evm

/-- The errors of the file. -/
inductive Error
  | unauthorizedAttester
  | duplicateAttestation
  | attestationNotFound
  | attestationFinalized
  | attestationReversed
  | fraudWindowActive
  | prefundCeilingExceeded
  | invalidReversalProof
  | invalidAttestationParam
deriving DecidableEq, Repr

/-- What ends a call early: an error it returns, or a panic. -/
inductive Fault
  | error (e : Error)
  | panic
deriving DecidableEq, Repr

/-- `FillStatus`. -/
inductive FillStatus
  | pending
  | finalized
  | reversed
  /-- A byte no path writes. -/
  | unknown (b : UInt8)
deriving DecidableEq, Repr

def FillStatus.ofByte (b : UInt8) : FillStatus :=
  if b = 0 then .pending else if b = 1 then .finalized else if b = 2 then .reversed
  else .unknown b

def FillStatus.toByte : FillStatus → UInt8
  | .pending => 0
  | .finalized => 1
  | .reversed => 2
  | .unknown b => b

def defaultFraudWindowBlocks : UInt64 := 259200

/-- `Settlement`: a broker fill.  Amount and price are checked to be positive. -/
structure Settlement where
  orderID : Word
  symbol : Word
  amount : ℕ
  price : ℕ
  user : Address
  attester : Address
  timestamp : UInt64
  block : UInt64
  status : FillStatus
deriving DecidableEq

/-- The value of a fill. -/
def Settlement.value (att : Settlement) : ℕ := att.amount * att.price

/-! ## Storage -/

/-- The slots under `settlementAddr`. -/
inductive Slot
  /-- Status, timestamp and block of an order. -/
  | attest (orderID : Word)
  /-- The words of an order that follow. -/
  | field (orderID : Word) (i : UInt8)
  | attester
  | ceiling
  | outstanding
  | fraudWindow
  | fraudWindowSet
  | block
deriving DecidableEq

abbrev Storage := Store Slot

/-- A big integer's magnitude copied to the end of a word; a longer one panics. -/
def bigWord (v : ℕ) : Option Word :=
  if v < 2 ^ 256 then some (BitVec.ofNat 256 v) else none

def getAttester (st : Storage) : Address :=
  if st .attester = 0 then 0 else wordAddress (st .attester)

def getCeiling (st : Storage) : ℕ := (st .ceiling).toNat

def getOutstanding (st : Storage) : ℕ := (st .outstanding).toNat

/-- `setOutstanding`; `none` is a panic. -/
def setOutstanding (st : Storage) (value : ℕ) : Option Storage :=
  (bigWord value).map fun data => st.set .outstanding data

def getFraudWindow (st : Storage) : UInt64 :=
  if st .fraudWindowSet = 0 then defaultFraudWindowBlocks
  else UInt64.ofNat (st .fraudWindow).toNat

def getCurrentBlock (st : Storage) : UInt64 :=
  if st .block = 0 then 1 else UInt64.ofNat (st .block).toNat

/-- The first word of an attestation. -/
def Settlement.packed (att : Settlement) : Word :=
  packWord ([att.status.toByte] ++ (uint64Bytes att.timestamp ++ uint64Bytes att.block))

/-- The attestation an order's words describe. -/
def load (st : Storage) (orderID : Word) : Settlement :=
  let data := st (.attest orderID)
  { orderID := orderID
    symbol := st (.field orderID 5)
    amount := (st (.field orderID 1)).toNat
    price := (st (.field orderID 2)).toNat
    user := wordAddress (st (.field orderID 3))
    attester := wordAddress (st (.field orderID 4))
    timestamp := bytesToUint64 (wordSlice data 1 9)
    block := bytesToUint64 (wordSlice data 9 17)
    status := .ofByte ((hashBytes data).headD 0) }

/-- What the state database holds for an order; an empty first word is nothing. -/
def stored (st : Storage) (orderID : Word) : Option Settlement :=
  if st (.attest orderID) = 0 then none else some (load st orderID)

/-! ## The manager -/

/-- The manager's map and the state database. -/
structure World where
  attestations : Word → Option Settlement
  storage : Storage

/-- A call's effect and its result. -/
abbrev Outcome (α : Type) := World × Except Fault α

def World.remember (w : World) (att : Settlement) : World :=
  { w with attestations := Function.update w.attestations att.orderID (some att) }

/-- `getAttestation`: the map first, then the state database. -/
def getAttestation (w : World) (orderID : Word) : World × Option Settlement :=
  match w.attestations orderID with
  | some att => (w, some att)
  | none =>
      match stored w.storage orderID with
      | some att => (w.remember att, some att)
      | none => (w, none)

/-- The six words `saveAttestation` writes. -/
def writeAttestation (st : Storage) (att : Settlement) (amount price : Word) : Storage :=
  ((((((st.set (.attest att.orderID) att.packed).set (.field att.orderID 1) amount).set
    (.field att.orderID 2) price).set (.field att.orderID 3) (addressWord att.user)).set
    (.field att.orderID 4) (addressWord att.attester)).set (.field att.orderID 5) att.symbol)

/-- `saveAttestation`; `none` is a panic. -/
def saveAttestation (w : World) (att : Settlement) : Option World :=
  match bigWord att.amount, bigWord att.price with
  | some amount, some price =>
      some { w.remember att with storage := writeAttestation w.storage att amount price }
  | _, _ => none

/-- A call that returns an error. -/
def fail {α : Type} (w : World) (e : Error) : Outcome α := (w, .error (.error e))

/-- The checks on a `*big.Int` that must be positive. -/
def positive (v : Option ℤ) : Option ℕ :=
  match v with
  | none => none
  | some v => if v ≤ 0 then none else some v.toNat

/-- The writes of `Attest`, the outstanding value first. -/
def openAttestation (w : World) (att : Settlement) : Outcome Unit :=
  match setOutstanding w.storage (getOutstanding w.storage + att.value) with
  | none => (w, .error .panic)
  | some st =>
      match saveAttestation { w with storage := st } att with
      | none => (w, .error .panic)
      | some w => (w, .ok ())

/-- The writes of `Challenge` and `Finalize`: the new status, then the outstanding
value, which stops at zero. -/
def closeAttestation (w : World) (att : Settlement) (status : FillStatus) : Outcome Unit :=
  match saveAttestation w { att with status := status } with
  | none => (w, .error .panic)
  | some w =>
      match setOutstanding w.storage (getOutstanding w.storage - att.value) with
      | none => (w, .error .panic)
      | some st => ({ w with storage := st }, .ok ())

def attest (w : World) (caller : Address) (orderID symbol : Word) (amount price : Option ℤ)
    (user : Address) (timestamp : UInt64) : Outcome Unit :=
  if getAttester w.storage = 0 then fail w .unauthorizedAttester
  else if caller ≠ getAttester w.storage then fail w .unauthorizedAttester
  else
    match positive amount, positive price with
    | some amount, some price =>
        if user = 0 then fail w .invalidAttestationParam
        else
          match getAttestation w orderID with
          | (w, some _) => fail w .duplicateAttestation
          | (w, none) =>
              if 0 < getCeiling w.storage ∧
                  getCeiling w.storage < getOutstanding w.storage + amount * price then
                fail w .prefundCeilingExceeded
              else
                openAttestation w
                  { orderID := orderID
                    symbol := symbol
                    amount := amount
                    price := price
                    user := user
                    attester := caller
                    timestamp := timestamp
                    block := getCurrentBlock w.storage
                    status := .pending }
    | _, _ => fail w .invalidAttestationParam

def challenge (w : World) (caller : Address) (orderID : Word) (reversalProof : List UInt8) :
    Outcome Unit :=
  match getAttestation w orderID with
  | (w, none) => fail w .attestationNotFound
  | (w, some att) =>
      if att.status = .finalized then fail w .attestationFinalized
      else if att.status = .reversed then fail w .attestationReversed
      else if caller ≠ getAttester w.storage then fail w .unauthorizedAttester
      else if reversalProof.length = 0 then fail w .invalidReversalProof
      else closeAttestation w att .reversed

def finalize (w : World) (orderID : Word) : Outcome Unit :=
  match getAttestation w orderID with
  | (w, none) => fail w .attestationNotFound
  | (w, some att) =>
      if att.status = .finalized then fail w .attestationFinalized
      else if att.status = .reversed then fail w .attestationReversed
      else if getCurrentBlock w.storage < att.block + getFraudWindow w.storage then
        fail w .fraudWindowActive
      else closeAttestation w att .finalized

/-! ## Administration -/

/-- `SetAttester`: the first one may be set by anyone. -/
def setAttester (w : World) (caller newAttester : Address) : Outcome Unit :=
  if getAttester w.storage ≠ 0 ∧ caller ≠ getAttester w.storage then
    fail w .unauthorizedAttester
  else ({ w with storage := w.storage.set .attester (addressWord newAttester) }, .ok ())

def setCeiling (w : World) (caller : Address) (ceiling : Option ℤ) : Outcome Unit :=
  if caller ≠ getAttester w.storage then fail w .unauthorizedAttester
  else
    match ceiling.bind fun c => bigWord c.natAbs with
    | none => (w, .error .panic)
    | some data => ({ w with storage := w.storage.set .ceiling data }, .ok ())

def setFraudWindow (w : World) (caller : Address) (blocks : UInt64) : Outcome Unit :=
  if caller ≠ getAttester w.storage then fail w .unauthorizedAttester
  else
    ({ w with
        storage := (w.storage.set .fraudWindow (BitVec.ofNat 256 blocks.toNat)).set
          .fraudWindowSet 1 }, .ok ())

/-- The calls of the manager. -/
inductive Call
  | attest (caller : Address) (orderID symbol : Word) (amount price : Option ℤ)
      (user : Address) (timestamp : UInt64)
  | challenge (caller : Address) (orderID : Word) (reversalProof : List UInt8)
  | finalize (orderID : Word)
  | setAttester (caller newAttester : Address)
  | setCeiling (caller : Address) (ceiling : Option ℤ)
  | setFraudWindow (caller : Address) (blocks : UInt64)
  | getAttestation (orderID : Word)
  | getOutstanding
  | getCeiling
deriving DecidableEq

/-- What a call returns. -/
inductive Reply
  | done
  | attestation (att : Option Settlement)
  | value (v : ℕ)
deriving DecidableEq

/-- A call without a result value. -/
def Outcome.done (out : Outcome Unit) : Outcome Reply := (out.1, out.2.map fun _ => .done)

/-- A call of the manager. -/
def perform (w : World) : Call → Outcome Reply
  | .attest caller orderID symbol amount price user timestamp =>
      (attest w caller orderID symbol amount price user timestamp).done
  | .challenge caller orderID reversalProof => (challenge w caller orderID reversalProof).done
  | .finalize orderID => (finalize w orderID).done
  | .setAttester caller newAttester => (setAttester w caller newAttester).done
  | .setCeiling caller ceiling => (setCeiling w caller ceiling).done
  | .setFraudWindow caller blocks => (setFraudWindow w caller blocks).done
  | .getAttestation orderID =>
      ((getAttestation w orderID).1, .ok (.attestation (getAttestation w orderID).2))
  | .getOutstanding => (w, .ok (.value (getOutstanding w.storage)))
  | .getCeiling => (w, .ok (.value (getCeiling w.storage)))

end LuxPrecompile.Fill
