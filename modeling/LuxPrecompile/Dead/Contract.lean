import LuxPrecompile.Evm.Bank
import LuxPrecompile.Evm.Calldata
import LuxPrecompile.Evm.Store

/-!
# The dead precompile

`dead/contract.go`.  Coins sent to one of three dead addresses are split between what
stays there for good and the treasury.  How much of a dead address's balance has been
through the split is kept under that address; the configuration is kept under the
zero address.
-/

namespace LuxPrecompile.Dead

open Evm

/-- `AllDeadAddresses`, where the precompile is registered. -/
inductive DeadAddress
  | zero
  | dead
  | deadFull
deriving DecidableEq

def DeadAddress.address : DeadAddress → Address
  | .zero => 0
  | .dead => 0xdEaD
  | .deadFull => 0xdEaD000000000000000000000000000000000000

def isDeadAddress (a : Address) : Bool :=
  [DeadAddress.zero, .dead, .deadFull].any fun d => d.address = a

def defaultDAOTreasury : Address := 0x9011E888251AB053B7bD1cdB598Db4f9DEd94714
def defaultBurnBPS : ℕ := 5000
def gasBase : ℕ := 10000
def gasAdminRead : ℕ := 200
def gasAdminWrite : ℕ := 5000
def basisPoints : ℕ := 10000

/-- The errors of the package. -/
inductive Error
  | unauthorized
  | invalidRatio
  | invalidAddress
  | disabled
  | insufficientGas
  | invalidInput
deriving DecidableEq, Repr

/-! ## Selectors -/

def selectorSetAdmin : List UInt8 := [0x70, 0x4b, 0x6c, 0x02]
def selectorSetTreasury : List UInt8 := [0xf0, 0xb3, 0x7c, 0x04]
def selectorSetBurnRatio : List UInt8 := [0x8d, 0x14, 0xe1, 0x27]
def selectorSetEnabled : List UInt8 := [0x32, 0x8d, 0x8b, 0x42]
def selectorGetAdmin : List UInt8 := [0x6e, 0x9d, 0xf3, 0xd2]
def selectorGetTreasury : List UInt8 := [0x3b, 0x19, 0xe8, 0x4a]
def selectorGetBurnRatio : List UInt8 := [0xb5, 0xc5, 0xf6, 0x72]
def selectorGetSplit : List UInt8 := [0x1a, 0x86, 0x1d, 0x26]
def selectorIsEnabled : List UInt8 := [0x2f, 0x6f, 0x98, 0x0a]

/-! ## Storage -/

/-- The slots of the precompile. -/
inductive Slot
  | admin
  | treasury
  | burnBPS
  | enabled
  | burned (a : DeadAddress)
deriving DecidableEq

abbrev Storage := Store Slot

/-- `setStateUint64`: a set value carries a marker in its first byte. -/
def markedWord (v : UInt64) : Word := packWord ([1] ++ (List.replicate 23 0 ++ uint64Bytes v))

/-- A word without the marker was never set. -/
def isMarked (w : Word) : Bool := wordSlice w 0 1 != [0]

/-- `getAdminInternal`. -/
def getAdmin (st : Storage) : Address := wordAddress (st .admin)

/-- `isAdmin`: without an admin nobody is. -/
def isAdmin (st : Storage) (caller : Address) : Bool :=
  getAdmin st ≠ 0 && caller = getAdmin st

/-- `getTreasuryInternal`. -/
def getTreasury (st : Storage) : Address :=
  if wordAddress (st .treasury) = 0 then defaultDAOTreasury else wordAddress (st .treasury)

/-- `getBurnRatioInternal`. -/
def getBurnRatio (st : Storage) : ℕ :=
  if !isMarked (st .burnBPS) then defaultBurnBPS
  else (bytesToUint64 (wordSlice (st .burnBPS) 24 32)).toNat

/-- `isEnabledInternal`. -/
def isEnabled (st : Storage) : Bool :=
  if !isMarked (st .enabled) then true else wordSlice (st .enabled) 31 32 != [0]

/-- `getBurnedInternal`. -/
def getBurned (st : Storage) (a : DeadAddress) : ℕ := (st (.burned a)).toNat

def setBurned (st : Storage) (a : DeadAddress) (v : ℕ) : Storage :=
  st.set (.burned a) (BitVec.ofNat 256 v)

/-- `CalculateSplitUint256`, in 256 bits: the burned and the treasury share. -/
def calculateSplit (value burnBPS : ℕ) : ℕ × ℕ :=
  if value = 0 then (0, 0)
  else
    let burn := value * burnBPS % 2 ^ 256 / basisPoints
    (burn, (value + 2 ^ 256 - burn) % 2 ^ 256)

/-! ## Calls -/

/-- The balances and the storage a call works on. -/
structure World where
  bank : Bank
  storage : Storage

/-- The native balance of an account. -/
def World.balance (w : World) (a : Address) : ℕ := w.bank native a

abbrev Failure := Evm.Failure Error

abbrev Outcome := World × Except Failure Reply

def fail (w : World) (e : Error) (gas : ℕ) : Outcome := (w, .error ⟨e, gas⟩)

/-- A call without a return value. -/
def done (w : World) (gas : ℕ) : Outcome := (w, .ok ⟨[], gas⟩)

/-- The effect of the split of the value that is new at an address. -/
def split (w : World) (a : DeadAddress) : World :=
  let burned := getBurned w.storage a
  let shares := calculateSplit (w.balance a.address - burned) (getBurnRatio w.storage)
  { bank :=
      if shares.2 = 0 then w.bank
      else w.bank.move native a.address (getTreasury w.storage) shares.2
    storage := setBurned w.storage a ((burned + shares.1) % 2 ^ 256) }

def handleReceive (w : World) (a : DeadAddress) (suppliedGas : ℕ) (readOnly : Bool) : Outcome :=
  if suppliedGas < gasBase then fail w .insufficientGas 0
  else if !isEnabled w.storage then fail w .disabled (suppliedGas - gasBase)
  else if w.balance a.address ≤ getBurned w.storage a then done w (suppliedGas - gasBase)
  else if readOnly then done w (suppliedGas - gasBase)
  else done (split w a) (suppliedGas - gasBase)

/-- The common part of the setters: who may call and how long the argument is. -/
def adminWrite (w : World) (caller : Address) (args : List UInt8) (suppliedGas : ℕ)
    (readOnly : Bool) (write : Except Error Storage) : Outcome :=
  if readOnly then fail w .unauthorized suppliedGas
  else if suppliedGas < gasAdminWrite then fail w .insufficientGas 0
  else if !isAdmin w.storage caller then fail w .unauthorized (suppliedGas - gasAdminWrite)
  else if args.length < 32 then fail w .invalidInput (suppliedGas - gasAdminWrite)
  else
    match write with
    | .error e => fail w e (suppliedGas - gasAdminWrite)
    | .ok st => done { w with storage := st } (suppliedGas - gasAdminWrite)

/-- The address in the argument word. -/
def argAddress (args : List UInt8) : Address := bytesToAddress (slice args 12 32)

/-- A setter of an address. -/
def writeAddress (st : Storage) (slot : Slot) (args : List UInt8) : Except Error Storage :=
  if argAddress args = 0 then .error .invalidAddress
  else .ok (st.set slot (addressWord (argAddress args)))

def setAdmin (w : World) (caller : Address) (args : List UInt8) (suppliedGas : ℕ)
    (readOnly : Bool) : Outcome :=
  adminWrite w caller args suppliedGas readOnly (writeAddress w.storage .admin args)

def setTreasury (w : World) (caller : Address) (args : List UInt8) (suppliedGas : ℕ)
    (readOnly : Bool) : Outcome :=
  adminWrite w caller args suppliedGas readOnly (writeAddress w.storage .treasury args)

/-- The ratio in the last eight bytes of the argument word. -/
def writeBurnRatio (st : Storage) (args : List UInt8) : Except Error Storage :=
  let newBurnBPS := bytesToUint64 (slice args 24 32)
  if basisPoints < newBurnBPS.toNat then .error .invalidRatio
  else .ok (st.set .burnBPS (markedWord newBurnBPS))

def setBurnRatio (w : World) (caller : Address) (args : List UInt8) (suppliedGas : ℕ)
    (readOnly : Bool) : Outcome :=
  adminWrite w caller args suppliedGas readOnly (writeBurnRatio w.storage args)

def setEnabled (w : World) (caller : Address) (args : List UInt8) (suppliedGas : ℕ)
    (readOnly : Bool) : Outcome :=
  adminWrite w caller args suppliedGas readOnly
    (.ok (w.storage.set .enabled (markedWord (if slice args 31 32 = [0] then 0 else 1))))

/-- The common part of the views. -/
def adminRead (w : World) (suppliedGas : ℕ) (ret : List UInt8) : Outcome :=
  if suppliedGas < gasAdminRead then fail w .insufficientGas 0
  else (w, .ok ⟨ret, suppliedGas - gasAdminRead⟩)

def getSplit (w : World) (args : List UInt8) (suppliedGas : ℕ) : Outcome :=
  if suppliedGas < gasAdminRead then fail w .insufficientGas 0
  else if args.length < 32 then fail w .invalidInput (suppliedGas - gasAdminRead)
  else
    let shares := calculateSplit (bytesToNat (slice args 0 32)) (getBurnRatio w.storage)
    (w, .ok ⟨natToBytes 32 shares.1 ++ natToBytes 32 shares.2, suppliedGas - gasAdminRead⟩)

/-- `Run`: an unknown selector is a receipt. -/
def run (w : World) (caller : Address) (a : DeadAddress) (input : List UInt8)
    (suppliedGas : ℕ) (readOnly : Bool) : Outcome :=
  if input.length = 0 then handleReceive w a suppliedGas readOnly
  else if input.length < 4 then
    if suppliedGas < gasBase then fail w .insufficientGas 0
    else fail w .invalidInput (suppliedGas - gasBase)
  else
    let selector := input.take 4
    let args := input.drop 4
    if selector = selectorSetAdmin then setAdmin w caller args suppliedGas readOnly
    else if selector = selectorSetTreasury then setTreasury w caller args suppliedGas readOnly
    else if selector = selectorSetBurnRatio then setBurnRatio w caller args suppliedGas readOnly
    else if selector = selectorSetEnabled then setEnabled w caller args suppliedGas readOnly
    else if selector = selectorGetAdmin then
      adminRead w suppliedGas (hashBytes (addressWord (getAdmin w.storage)))
    else if selector = selectorGetTreasury then
      adminRead w suppliedGas (hashBytes (addressWord (getTreasury w.storage)))
    else if selector = selectorGetBurnRatio then
      adminRead w suppliedGas (natToBytes 32 (getBurnRatio w.storage))
    else if selector = selectorGetSplit then getSplit w args suppliedGas
    else if selector = selectorIsEnabled then
      adminRead w suppliedGas (natToBytes 32 (if isEnabled w.storage then 1 else 0))
    else handleReceive w a suppliedGas readOnly

end LuxPrecompile.Dead
