import LuxPrecompile.Evm.Bytes
import LuxPrecompile.Evm.Store
import LuxPrecompile.Support.KeyedList
import Mathlib.Data.List.DropRight

/-!
# The chain registry

`bridge/registry_state.go`.  The registered chains are rows of three words at
consecutive slots of the bridge gateway, from row zero on, with their number in a
slot of its own.  The registrar keeps its operators and its nonce at its own
address.
-/

namespace LuxPrecompile.Bridge

open Evm Support

/-- The errors of the registrar. -/
inductive Error
  | inputTooShort
  | unknownSelector
  | readOnly
  | alreadyRegistered
  | notRegistered
  | indexOutOfRange
  | unauthorized
  | invalidSignatureBytes
  | duplicateSigner
  | chainNameTooLong
  | tooManyOperators
  | invalidThreshold
  | outOfGas
deriving DecidableEq, Repr

abbrev ChainID := UInt32

/-- A chain of the registry. -/
structure Chain where
  id : ChainID
  name : List UInt8
  evm : Bool
  gatewayAt : Address
deriving DecidableEq

/-! ## Slots -/

/-- The slots: `registrySlot` at the gateway, `govSlot` and `nonceSlot` at the registrar. -/
inductive Slot
  | registry (offset : UInt64)
  | gov (offset : UInt64)
  | nonce
deriving DecidableEq

def registryBase : List UInt8 :=
  List.replicate 5 0 ++
    ascii ['l', 'u', 'x', '.', 'b', 'r', 'i', 'd', 'g', 'e', '.',
      'r', 'e', 'g', 'i', 's', 't', 'r', 'y']

def govBase : List UInt8 :=
  List.replicate 10 0 ++
    ascii ['l', 'u', 'x', '.', 'b', 'r', 'i', 'd', 'g', 'e', '.', 'g', 'o', 'v']

def nonceBase : List UInt8 :=
  List.replicate 8 0 ++
    ascii ['l', 'u', 'x', '.', 'b', 'r', 'i', 'd', 'g', 'e', '.', 'n', 'o', 'n', 'c', 'e']

/-- The bytes of a slot's storage key. -/
def Slot.key : Slot → List UInt8
  | .registry offset => registryBase ++ uint64Bytes offset
  | .gov offset => govBase ++ uint64Bytes offset
  | .nonce => nonceBase ++ uint64Bytes 0

theorem Slot.key_inj {s t : Slot} (h : s.key = t.key) : s = t := by
  have hbase := congrArg (List.take 24) h
  have hoffset := congrArg (List.drop 24) h
  cases s <;> cases t <;>
    first
    | rfl
    | exact absurd hbase (by
        rw [key, key, List.take_left' (by decide), List.take_left' (by decide)]
        decide)
    | (rw [key, key, List.drop_left' (by decide), List.drop_left' (by decide)] at hoffset
       rw [uint64Bytes_inj hoffset])

abbrev Storage := Store Slot

def slotCount : Slot := .registry 0

/-- `slotRow`: the storage key of word `k` of row `i`. -/
def slotRow (i k : UInt64) : Slot := .registry (1 + i * 3 + k)

/-! ## Rows -/

/-- The bytes of a header before its padding. -/
def headerBytes (c : Chain) : List UInt8 :=
  uint32Bytes c.id ++ ([if c.evm then 1 else 0] ++ addressBytes c.gatewayAt)

/-- The header word of `packRow`. -/
def packHeader (c : Chain) : Word := packWord (headerBytes c)

/-- The name word of `packRow`. -/
def packName (c : Chain) : Word := packWord (c.name.take 32)

def trimRightZero (b : List UInt8) : List UInt8 := b.rdropWhile (· == 0)

def unpackRow (header name : Word) : Chain where
  id := bytesToUint32 (wordSlice header 0 4)
  evm := wordSlice header 4 5 == [1]
  gatewayAt := bytesToAddress (wordSlice header 5 25)
  name := trimRightZero (hashBytes name)

/-- `hdr[5:25]` overwritten by a gateway address. -/
def patchGateway (header : Word) (gw : Address) : Word :=
  bytesToHash (wordSlice header 0 5 ++ (addressBytes gw ++ wordSlice header 25 32))

def count (st : Storage) : UInt64 := bytesToUint64 (wordSlice (st slotCount) 24 32)

def row (st : Storage) (i : UInt64) : Chain :=
  unpackRow (st (slotRow i 0)) (st (slotRow i 1))

def all (st : Storage) : List Chain :=
  (List.range (count st).toNat).map fun i => row st (UInt64.ofNat i)

/-- `stateRegistry.Get`: the first row with the id. -/
def get (st : Storage) (id : ChainID) : Option Chain := lookup Chain.id (all st) id

/-- `indexOf`: the index of the first row with the id. -/
def indexOf (st : Storage) (id : ChainID) : Option UInt64 :=
  ((all st).findIdx? fun c => c.id = id).map UInt64.ofNat

/-- A `uint64` in the last eight bytes of a word. -/
def encodeU64 (v : UInt64) : Word := BitVec.ofNat 256 v.toNat

/-! ## Writes -/

def setCount (st : Storage) (n : UInt64) : Storage := st.set slotCount (encodeU64 n)

/-- The two words of a row written. -/
def setRow (st : Storage) (i : UInt64) (header name : Word) : Storage :=
  (st.set (slotRow i 0) header).set (slotRow i 1) name

/-- The three words of a row cleared. -/
def clearRow (st : Storage) (i : UInt64) : Storage :=
  ((st.set (slotRow i 0) 0).set (slotRow i 1) 0).set (slotRow i 2) 0

/-- The row `runRegisterChain` adds. -/
def addRow (st : Storage) (c : Chain) : Storage :=
  setCount (setRow st (count st) (packHeader c) (packName c)) (count st + 1)

/-- The row `runUnregisterChain` removes, the last row in its place. -/
def removeRow (st : Storage) (idx last : UInt64) : Storage :=
  let moved :=
    if idx ≠ last then setRow st idx (st (slotRow last 0)) (st (slotRow last 1)) else st
  setCount (clearRow moved last) last

/-- The header `runSetGateway` patches. -/
def patchRow (st : Storage) (idx : UInt64) (gw : Address) : Storage :=
  st.set (slotRow idx 0) (patchGateway (st (slotRow idx 0)) gw)

/-- The rows of `SeedRegistry`. -/
def seedRows (st : Storage) (chains : List Chain) : Storage :=
  chains.zipIdx.foldl (fun st (c, i) => setRow st (UInt64.ofNat i) (packHeader c) (packName c)) st

def seedRegistry (st : Storage) (chains : List Chain) : Storage × Except Error ℕ :=
  if 0 < count st then (st, .ok 0)
  else if chains.any fun c => 32 < c.name.length then (st, .error .chainNameTooLong)
  else (setCount (seedRows st chains) (UInt64.ofNat chains.length), .ok chains.length)

/-! ## A row is read back -/

@[simp]
theorem headerBytes_length (c : Chain) : (headerBytes c).length = 25 := by
  simp [headerBytes]

theorem wordSlice_packHeader (c : Chain) {i j : ℕ} (hj : j ≤ 25) :
    wordSlice (packHeader c) i j = slice (headerBytes c) i j := by
  rw [packHeader, wordSlice_packWord (by simp) (by simpa using hj)]

theorem slice_headerBytes_id (c : Chain) : slice (headerBytes c) 0 4 = uint32Bytes c.id := by
  rw [headerBytes, slice_append_left (by simp), slice_all (by simp)]

theorem slice_headerBytes_evm (c : Chain) :
    slice (headerBytes c) 4 5 = [if c.evm then 1 else 0] := by
  rw [headerBytes, slice_append_right (by simp), slice_append_left (by simp)]
  simp [slice_all]

theorem slice_headerBytes_gateway (c : Chain) :
    slice (headerBytes c) 5 25 = addressBytes c.gatewayAt := by
  rw [headerBytes, slice_append_right (by simp), slice_append_right (by simp)]
  simp [slice_all]

/-- What a row of a chain is read back as: its name without trailing zero bytes. -/
def Chain.stored (c : Chain) : Chain := { c with name := trimRightZero c.name }

theorem trimRightZero_append_zeros (b : List UInt8) (n : ℕ) :
    trimRightZero (b ++ List.replicate n 0) = trimRightZero b := by
  induction n with
  | zero => rw [List.replicate_zero, List.append_nil]
  | succ n ih =>
      rw [List.replicate_succ', ← List.append_assoc, trimRightZero,
        List.rdropWhile_concat_pos _ _ _ (by simp)]
      exact ih

theorem unpackRow_pack {c : Chain} (hname : c.name.length ≤ 32) :
    unpackRow (packHeader c) (packName c) = c.stored := by
  have hid : bytesToUint32 (wordSlice (packHeader c) 0 4) = c.id := by
    rw [wordSlice_packHeader c (by omega), slice_headerBytes_id, bytesToUint32_uint32Bytes]
  have hevm : (wordSlice (packHeader c) 4 5 == [1]) = c.evm := by
    rw [wordSlice_packHeader c (by omega), slice_headerBytes_evm]
    cases c.evm <;> decide
  have hgateway : bytesToAddress (wordSlice (packHeader c) 5 25) = c.gatewayAt := by
    rw [wordSlice_packHeader c (by omega), slice_headerBytes_gateway,
      bytesToAddress_addressBytes]
  have htrim : trimRightZero (hashBytes (packName c)) = trimRightZero c.name := by
    rw [packName, List.take_of_length_le hname, hashBytes_packWord hname,
      trimRightZero_append_zeros]
  rw [unpackRow, hid, hevm, hgateway, htrim, Chain.stored]

theorem patchGateway_packHeader (c : Chain) (gw : Address) :
    patchGateway (packHeader c) gw = packHeader { c with gatewayAt := gw } := by
  have hfront : wordSlice (packHeader c) 0 5 =
      uint32Bytes c.id ++ [if c.evm then 1 else 0] := by
    rw [wordSlice_packHeader c (by omega), headerBytes, ← List.append_assoc,
      slice_append_left (by simp), slice_all (by simp)]
  have hback : wordSlice (packHeader c) 25 32 = List.replicate 7 0 := by
    rw [wordSlice, packHeader, hashBytes_packWord (by simp), slice_append_right (by simp)]
    simp [slice_all]
  rw [patchGateway, hfront, hback, packHeader, packWord, headerBytes_length]
  simp [headerBytes]

/-- A name without a trailing zero byte. -/
def Tidy (name : List UInt8) : Prop := name.getLast? ≠ some 0

instance (name : List UInt8) : Decidable (Tidy name) :=
  inferInstanceAs (Decidable (name.getLast? ≠ some 0))

theorem trimRightZero_eq_self {name : List UInt8} : trimRightZero name = name ↔ Tidy name := by
  rw [trimRightZero, List.rdropWhile_eq_self_iff, Tidy]
  constructor
  · intro h hlast
    obtain ⟨front, rfl⟩ := List.getLast?_eq_some_iff.mp hlast
    simpa using h (by simp)
  · intro h hne hzero
    rw [List.getLast?_eq_some_getLast hne] at h
    exact h (congrArg some (by simpa using hzero))

theorem Chain.stored_eq_self {c : Chain} : c.stored = c ↔ Tidy c.name := by
  rw [← trimRightZero_eq_self]
  constructor
  · exact fun h => congrArg Chain.name h
  · intro h
    rw [stored, h]

end LuxPrecompile.Bridge
