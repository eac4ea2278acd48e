import LuxPrecompile.Evm.Bank
import LuxPrecompile.Evm.Bytes
import LuxPrecompile.Evm.Store

/-!
# State of the hash time-locked swap precompile

The storage layout of `swap/state.go`: the fields of each swap under its id, the
revealed preimage under each hashlock, the reserve of each asset, the lock
counter and the entry guard.  Slots are hashes of fixed-length keys and are taken
as collision-free, so each family of slots is a function of its key.
-/

namespace LuxPrecompile.Htlc

open Evm

/-- The status byte of a swap; `none` means that no swap has this id. -/
inductive Status
  | none
  | locked
  | claimed
  | refunded
deriving DecidableEq, Repr

/-- `StatusNone` to `StatusRefunded`. -/
def Status.toByte : Status → ℕ
  | .none => 0
  | .locked => 1
  | .claimed => 2
  | .refunded => 3

/-- The terms a lock fixes. -/
structure Terms where
  hashlock : Word
  recipient : Address
  refund : Address
  asset : Address
  /-- The amount, a number of 32 bytes. -/
  amount : Word
  timeout : UInt64
deriving DecidableEq

/-- The fields stored under a swap id. -/
structure Swap where
  status : Status
  terms : Terms
  preimage : Word
deriving DecidableEq

/-- Everything the precompile keeps under its own address. -/
structure Storage where
  swap : Word → Swap
  /-- `preimageIdx[hashlock]`. -/
  preimageIdx : Word → Word
  reserve : Reserves
  nonce : UInt64
  guard : Bool

/-- Storage before the first call: every word is zero. -/
def Storage.empty : Storage where
  swap _ := ⟨.none, ⟨0, 0, 0, 0, 0, 0⟩, 0⟩
  preimageIdx _ := 0
  reserve _ := 0
  nonce := 0
  guard := false

/-! ## Swap fields -/

def Storage.setSwap (db : Storage) (id : Word) (s : Swap) : Storage :=
  { db with swap := Function.update db.swap id s }

def loadStatus (db : Storage) (id : Word) : Status := (db.swap id).status

def storeStatus (db : Storage) (id : Word) (status : Status) : Storage :=
  db.setSwap id { db.swap id with status := status }

/-- `storeHash`, `storeAddress`, `storeAmount` and `storeTimeout` of a lock. -/
def storeTerms (db : Storage) (id : Word) (terms : Terms) : Storage :=
  db.setSwap id { db.swap id with terms := terms }

/-- `storeHash` on the preimage field. -/
def storePreimage (db : Storage) (id preimage : Word) : Storage :=
  db.setSwap id { db.swap id with preimage := preimage }

def loadAmount (db : Storage) (id : Word) : ℕ := wordToUint (db.swap id).terms.amount

def storePreimageIdx (db : Storage) (hashlock preimage : Word) : Storage :=
  { db with preimageIdx := Function.update db.preimageIdx hashlock preimage }

/-! ## Reserve, nonce and guard -/

def loadReserve (db : Storage) (asset : Address) : ℕ := db.reserve.load asset

def storeReserve (db : Storage) (asset : Address) (v : ℕ) : Storage :=
  { db with reserve := db.reserve.store asset v }

def addReserve (db : Storage) (asset : Address) (delta : ℕ) : Storage :=
  { db with reserve := db.reserve.add asset delta }

/-- `subReserve`; `none` is its refusal. -/
def subReserve (db : Storage) (asset : Address) (amount : ℕ) : Option Storage :=
  (db.reserve.sub asset amount).map fun reserve => { db with reserve := reserve }

def storeNonce (db : Storage) (nonce : UInt64) : Storage := { db with nonce := nonce }

/-- `enterGuard`; `none` is a call that is already running. -/
def enterGuard (db : Storage) : Option Storage :=
  if db.guard then none else some { db with guard := true }

def exitGuard (db : Storage) : Storage := { db with guard := false }

/-! ## Hashes -/

/-- The bytes `computeSwapID` hashes: every term, the caller and the lock
counter. -/
def swapIdBytes (terms : Terms) (caller : Address) (nonce : UInt64) : List UInt8 :=
  hashBytes terms.hashlock ++ addressBytes terms.recipient ++ addressBytes terms.refund ++
    addressBytes terms.asset ++ hashBytes terms.amount ++
    natToBytes 8 terms.timeout.toNat ++ addressBytes caller ++ natToBytes 32 nonce.toNat

def computeSwapId (hashes : Hashes) (terms : Terms) (caller : Address) (nonce : UInt64) :
    Word :=
  hashes.keccak256 (swapIdBytes terms caller nonce)

def preimageMatches (hashes : Hashes) (preimage hashlock : Word) : Bool :=
  decide (hashes.sha256 (hashBytes preimage) = hashlock)

end LuxPrecompile.Htlc
