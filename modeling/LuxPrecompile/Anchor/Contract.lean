import LuxPrecompile.Evm.Calldata
import LuxPrecompile.Evm.Store

/-!
# The anchor precompile

`anchor/contract.go`.  An application submits the Merkle root of its state at a
height, and anyone reads the roots back by height.  Storage slots are hashes of
distinct byte strings, so they are kept apart by what is hashed.
-/

namespace LuxPrecompile.Anchor

open Evm

/-- The errors of the package. -/
inductive Error
  | invalidInput
  | invalidSelector
  | heightNotMonotonic
  | anchorNotFound
  | readOnlySubmit
  | inputTooShort
  | rangeTooLarge
  | outOfGas
deriving DecidableEq, Repr

/-! ## Constants -/

def gasSubmit : ℕ := 25400
def gasGet : ℕ := 2600
def gasGetLatest : ℕ := 2600
def gasListBase : ℕ := 2600
def gasListPerItem : ℕ := 200
def maxListRange : ℕ := 256

/-- `submit(bytes32,uint64,bytes32)`. -/
def selectorSubmit : List UInt8 := [0xad, 0x41, 0x8b, 0x3a]

/-- `get(bytes32,uint64)`. -/
def selectorGet : List UInt8 := [0x2f, 0x56, 0x25, 0xe0]

/-- `getLatest(bytes32)`. -/
def selectorGetLatest : List UInt8 := [0x28, 0xa6, 0x67, 0x02]

/-- `list(bytes32,uint64,uint64)`. -/
def selectorList : List UInt8 := [0x2a, 0x83, 0x51, 0x33]

/-! ## Storage -/

/-- The slots of the precompile: `rootKey` and `latestKey`. -/
inductive Slot
  | root (appID : Word) (height : UInt64)
  | latest (appID : Word)
deriving DecidableEq

/-- `latestSentinel`: 32 bytes of `0xff`. -/
def latestSentinel : Word := BitVec.allOnes 256

/-- The bytes a slot is the hash of. -/
def Slot.preimage : Slot → List UInt8
  | .root appID height => hashBytes appID ++ uint64Bytes height
  | .latest appID => hashBytes appID ++ hashBytes latestSentinel

/-- Different slots are hashes of different byte strings. -/
theorem Slot.preimage_inj {s t : Slot} (h : s.preimage = t.preimage) : s = t := by
  have hlength := congrArg List.length h
  cases s with
  | root appID height =>
      cases t with
      | root appID' height' =>
          obtain ⟨happ, hheight⟩ := List.append_inj h (by simp)
          rw [hashBytes_inj happ, uint64Bytes_inj hheight]
      | latest appID' => simp [Slot.preimage] at hlength
  | latest appID =>
      cases t with
      | root appID' height' => simp [Slot.preimage] at hlength
      | latest appID' =>
          rw [hashBytes_inj (List.append_inj h (by simp)).1]

abbrev Storage := Store Slot

def encodeHeight (h : UInt64) : Word := BitVec.ofNat 256 h.toNat

/-- `decodeHeight`: the low eight bytes. -/
def decodeHeight (w : Word) : UInt64 := UInt64.ofNat w.toNat

theorem encodeHeight_toNat (h : UInt64) : (encodeHeight h).toNat = h.toNat := by
  have hlt := h.toNat_lt
  rw [encodeHeight, BitVec.toNat_ofNat, Nat.mod_eq_of_lt (by omega)]

@[simp]
theorem decodeHeight_encodeHeight (h : UInt64) : decodeHeight (encodeHeight h) = h := by
  rw [decodeHeight, encodeHeight_toNat, UInt64.ofNat_toNat]

theorem slice_encodeHeight (h : UInt64) :
    slice (hashBytes (encodeHeight h)) 24 32 = uint64Bytes h := by
  rw [hashBytes, encodeHeight_toNat]
  exact slice_natToBytes 24 8 _

@[simp]
theorem encodeHeight_eq_zero {h : UInt64} : encodeHeight h = 0 ↔ h = 0 := by
  constructor
  · intro hzero
    have hdecode := decodeHeight_encodeHeight h
    rw [hzero] at hdecode
    exact hdecode.symm
  · rintro rfl
    rfl

/-! ## Call data -/

/-- An anchor: the root of an application's state at a height. -/
structure Entry where
  appID : Word
  height : UInt64
  root : Word
deriving DecidableEq

/-- The application of an argument list. -/
def argApp (data : List UInt8) : Word := bytesToHash (slice data 0 32)

/-- The `uint64` in the last eight bytes of the argument word that ends at `i`. -/
def argHeight (data : List UInt8) (i : ℕ) : UInt64 :=
  bytesToUint64 (slice data (i - 8) i)

/-- The arguments of `submit`. -/
def argEntry (data : List UInt8) : Entry :=
  ⟨argApp data, argHeight data 64, bytesToHash (slice data 64 96)⟩

/-! ## Operations -/

abbrev Outcome := Evm.Outcome Error Storage

/-- The monotonicity check of `submit`. -/
def exceedsLatest (st : Storage) (e : Entry) : Bool :=
  !(decide (e.height ≤ decodeHeight (st (.latest e.appID))) && st (.latest e.appID) != 0)

/-- The two words `submit` writes. -/
def store (st : Storage) (e : Entry) : Storage :=
  (st.set (.root e.appID e.height) e.root).set (.latest e.appID) (encodeHeight e.height)

def submit (st : Storage) (data : List UInt8) (suppliedGas : ℕ) (readOnly : Bool) : Outcome :=
  if readOnly then fail st .readOnlySubmit suppliedGas
  else if suppliedGas < gasSubmit then fail st .outOfGas 0
  else if data.length < 96 then fail st .inputTooShort (suppliedGas - gasSubmit)
  else if !exceedsLatest st (argEntry data) then
    fail st .heightNotMonotonic (suppliedGas - gasSubmit)
  else
    { storage := store st (argEntry data)
      result := .ok ⟨hashBytes (encodeHeight (argEntry data).height), suppliedGas - gasSubmit⟩ }

def get (st : Storage) (data : List UInt8) (suppliedGas : ℕ) : Outcome :=
  if suppliedGas < gasGet then fail st .outOfGas 0
  else if data.length < 64 then fail st .inputTooShort (suppliedGas - gasGet)
  else if st (.root (argApp data) (argHeight data 64)) = 0 then
    fail st .anchorNotFound (suppliedGas - gasGet)
  else
    { storage := st
      result := .ok ⟨hashBytes (st (.root (argApp data) (argHeight data 64))),
        suppliedGas - gasGet⟩ }

def getLatest (st : Storage) (data : List UInt8) (suppliedGas : ℕ) : Outcome :=
  if suppliedGas < gasGetLatest then fail st .outOfGas 0
  else if data.length < 32 then fail st .inputTooShort (suppliedGas - gasGetLatest)
  else
    { storage := st
      result := .ok ⟨hashBytes (st (.latest (argApp data))), suppliedGas - gasGetLatest⟩ }

/-- The array `list` returns: its offset, its length and its roots. -/
def encodeRoots (st : Storage) (appID : Word) (lo : UInt64) (count : ℕ) : List UInt8 :=
  hashBytes (BitVec.ofNat 256 64) ++ (hashBytes (BitVec.ofNat 256 count) ++
    (List.range count).flatMap fun i => hashBytes (st (.root appID (lo + UInt64.ofNat i))))

/-- `list`, of the heights from `from` up to and without `to`. -/
def list (st : Storage) (data : List UInt8) (suppliedGas : ℕ) : Outcome :=
  if suppliedGas < gasListBase then fail st .outOfGas 0
  else if data.length < 96 then fail st .inputTooShort (suppliedGas - gasListBase)
  else
    let lo := argHeight data 64
    let hi := argHeight data 96
    let count := (hi - lo).toNat
    let totalGas := gasListBase + count * gasListPerItem
    if hi ≤ lo then fail st .inputTooShort (suppliedGas - gasListBase)
    else if maxListRange < count then fail st .rangeTooLarge (suppliedGas - gasListBase)
    else if suppliedGas < totalGas then fail st .outOfGas 0
    else
      { storage := st
        result := .ok ⟨encodeRoots st (argApp data) lo count, suppliedGas - totalGas⟩ }

def run (st : Storage) (c : Call) : Outcome :=
  if c.input.length < 4 then fail st .invalidInput c.gas
  else
    let sel := c.input.take 4
    let data := c.input.drop 4
    if sel = selectorSubmit then submit st data c.gas c.readOnly
    else if sel = selectorGet then get st data c.gas
    else if sel = selectorGetLatest then getLatest st data c.gas
    else if sel = selectorList then list st data c.gas
    else fail st .invalidSelector c.gas

end LuxPrecompile.Anchor
