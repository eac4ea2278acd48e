import LuxPrecompile.Evm.Store
import LuxPrecompile.Settle.Codec
import LuxPrecompile.Settle.Records
import LuxPrecompile.Support.Maps

/-!
# The store of resting orders

`dex/settle_maker.go` down to the bytes its storage keys hash.  A record takes six words and
the index of an owner a count, a word for each id and a flag for each order; all of them
are at hashes of strings under two prefixes.  The store implements a book: the last record of
each id, and for each owner the ids that were first appended for that owner.
-/

namespace LuxPrecompile.Settle

open Evm Support

/-! ## Storage keys -/

def settleStateNamespace : List UInt8 := ascii "dex.precompile.v1.9999.".toList

def restingOrderPrefix : List UInt8 := settleStateNamespace ++ ascii ['o', 'r', 'd']
def ownerOrdersPrefix : List UInt8 := settleStateNamespace ++ ascii ['o', 'w', 'n']

/-- The suffix of a word of an order. -/
def orderSuffix : OrderField → List UInt8
  | .packed => ascii ['m']
  | .owner => ascii ['o']
  | .pool => ascii ['p']
  | .asset => ascii ['a']
  | .amount => ascii ['v']
  | .salt => ascii ['s']
  | .commitObject => ascii ['c']
  | .indexed => ascii ['i']

/-- What a storage key of the store is for. -/
inductive MakerKey
  | order (orderID : Word) (field : OrderField)
  | ownerOrdersCount (owner : Address)
  | ownerOrdersAt (owner : Address) (i : UInt64)
deriving DecidableEq

/-- The string that `makeStorageKey` hashes: a prefix and an id. -/
def MakerKey.bytes : MakerKey → List UInt8
  | .order orderID field => restingOrderPrefix ++ (hashBytes orderID ++ orderSuffix field)
  | .ownerOrdersCount owner => ownerOrdersPrefix ++ (addressBytes owner ++ ascii ['n'])
  | .ownerOrdersAt owner i => ownerOrdersPrefix ++ (addressBytes owner ++ uint64Bytes i)

/-- The slot of a key in the account. -/
def MakerKey.slot : MakerKey → Slot
  | .order orderID field => .order orderID field
  | .ownerOrdersCount owner => .ownerOrdersCount owner
  | .ownerOrdersAt owner i => .ownerOrdersAt owner i

theorem MakerKey.slot_injective : Function.Injective MakerKey.slot := by
  rintro (⟨id, field⟩ | owner | ⟨owner, i⟩) (⟨id', field'⟩ | owner' | ⟨owner', i'⟩) h
  all_goals cases h
  all_goals rfl

theorem orderSuffix_inj {field field' : OrderField} (h : orderSuffix field = orderSuffix field') :
    field = field' := by
  revert h
  cases field <;> cases field' <;> decide

/-- Two keys of one string are one key: the three shapes have different lengths. -/
theorem MakerKey.bytes_injective : Function.Injective MakerKey.bytes := by
  intro k k' h
  have hsuffix : ∀ field, (orderSuffix field).length = 1 := by
    intro field
    cases field <;> rfl
  have hord : restingOrderPrefix.length = 26 := by decide
  have hown : ownerOrdersPrefix.length = 26 := by decide
  have hlength := congrArg List.length h
  rcases k with ⟨id, field⟩ | owner | ⟨owner, i⟩ <;>
    rcases k' with ⟨id', field'⟩ | owner' | ⟨owner', i'⟩
  all_goals simp [MakerKey.bytes, hsuffix, hord, hown, hashBytes_length, ascii] at hlength
  · have hparts := List.append_inj (List.append_cancel_left h) (by simp [hashBytes_length])
    rw [hashBytes_inj hparts.1, orderSuffix_inj hparts.2]
  · have hparts := List.append_inj (List.append_cancel_left h) (by simp)
    rw [← bytesToAddress_addressBytes owner, hparts.1, bytesToAddress_addressBytes]
  · have hparts := List.append_inj (List.append_cancel_left h) (by simp)
    rw [← bytesToAddress_addressBytes owner, hparts.1, bytesToAddress_addressBytes,
      uint64Bytes_inj hparts.2]

/-! ## The functions on the account -/

namespace MakerStore

section Functions

variable (hash : List UInt8 → Word)

/-- `makeStorageKey` of a key's prefix and id. -/
def keyOf (k : MakerKey) : Word := hash k.bytes

def orderSlot (orderID : Word) (field : OrderField) : Word := keyOf hash (.order orderID field)

def ownerOrdersCountKey (owner : Address) : Word := keyOf hash (.ownerOrdersCount owner)

def ownerOrdersAtKey (owner : Address) (i : UInt64) : Word := keyOf hash (.ownerOrdersAt owner i)

def orderIndexedKey (orderID : Word) : Word := orderSlot hash orderID .indexed

def loadOwnerOrderCount (st : Store Word) (owner : Address) : UInt64 :=
  UInt64.ofNat (wordToUint (st (ownerOrdersCountKey hash owner)))

def appendOwnerOrder (st : Store Word) (owner : Address) (orderID : Word) : Store Word :=
  if st (orderIndexedKey hash orderID) ≠ 0 then st
  else
    let n := loadOwnerOrderCount hash st owner
    let st := st.set (ownerOrdersAtKey hash owner n) orderID
    let st := st.set (ownerOrdersCountKey hash owner) (BitVec.ofNat 256 (n + 1).toNat)
    st.set (orderIndexedKey hash orderID) flagSet

def ownerOrderIDs (st : Store Word) (owner : Address) : List Word :=
  (List.range (loadOwnerOrderCount hash st owner).toNat).map fun i =>
    st (ownerOrdersAtKey hash owner (UInt64.ofNat i))

def loadRestingOrder (st : Store Word) (orderID : Word) : RestingOrder :=
  let packed := st (orderSlot hash orderID .packed)
  let status := OrderStatus.ofByte (bytesToNat (wordSlice packed 0 1))
  if status = .none then RestingOrder.zero
  else
    { owner := wordAddress (st (orderSlot hash orderID .owner))
      poolID := st (orderSlot hash orderID .pool)
      side := MakerSide.ofByte (bytesToNat (wordSlice packed 1 2))
      lockedAsset := st (orderSlot hash orderID .asset)
      lockedAmt := wordToUint (st (orderSlot hash orderID .amount))
      tickLower := decodeInt24 (wordSlice packed 2 5)
      tickUpper := decodeInt24 (wordSlice packed 5 8)
      salt := st (orderSlot hash orderID .salt)
      status := status }

/-- `storeRestingOrder`; an amount of more than a word panics in `FillBytes`. -/
def storeRestingOrder (st : Store Word) (orderID : Word) (o : RestingOrder) :
    Except Error (Store Word) := do
  let st := st.set (orderSlot hash orderID .packed) o.packed
  let st := st.set (orderSlot hash orderID .owner) (addressWord o.owner)
  let st := st.set (orderSlot hash orderID .pool) o.poolID
  let st := st.set (orderSlot hash orderID .asset) o.lockedAsset
  let amt ← fillBytes o.lockedAmt
  let st := st.set (orderSlot hash orderID .amount) amt
  .ok (st.set (orderSlot hash orderID .salt) o.salt)

end Functions

/-! ## The account by slot

On keys whose strings do not collide, the functions do to the hashed account what they do to
the account by slot. -/

/-- The hashed account holds the words of the account by slot at these keys. -/
abbrev Mirror (hash : List UInt8 → Word) (keys : Set MakerKey) (st : Store Word)
    (slots : Storage) : Prop :=
  Mirrors (keyOf hash) MakerKey.slot keys st slots

section Mirrored

variable {hash : List UInt8 → Word} {keys : Set MakerKey} {st : Store Word} {slots : Storage}

theorem Mirror.set (h : Mirror hash keys st slots) (hinj : Set.InjOn (keyOf hash) keys)
    {k : MakerKey} (hk : k ∈ keys) (v : Word) :
    Mirror hash keys (st.set (keyOf hash k) v) (slots.set k.slot v) :=
  Mirrors.write h hinj MakerKey.slot_injective.injOn hk v

theorem loadOwnerOrderCount_eq (h : Mirror hash keys st slots) {owner : Address}
    (hcount : .ownerOrdersCount owner ∈ keys) :
    loadOwnerOrderCount hash st owner = Settle.loadOwnerOrderCount slots owner := by
  have hword : st (ownerOrdersCountKey hash owner) = slots (.ownerOrdersCount owner) :=
    h.read hcount
  rw [loadOwnerOrderCount, hword]
  rfl

theorem Mirror.appendOwnerOrder (h : Mirror hash keys st slots)
    (hinj : Set.InjOn (keyOf hash) keys) {owner : Address} {orderID : Word}
    (hflag : .order orderID .indexed ∈ keys) (hcount : .ownerOrdersCount owner ∈ keys)
    (hat : .ownerOrdersAt owner (Settle.loadOwnerOrderCount slots owner) ∈ keys) :
    Mirror hash keys (appendOwnerOrder hash st owner orderID)
      (Settle.appendOwnerOrder slots owner orderID) := by
  have hword : st (orderIndexedKey hash orderID) = slots (.order orderID .indexed) :=
    h.read hflag
  unfold MakerStore.appendOwnerOrder Settle.appendOwnerOrder
  rw [hword, loadOwnerOrderCount_eq h hcount]
  split_ifs with hindexed
  · exact h
  · exact ((h.set hinj hat _).set hinj hcount _).set hinj hflag _

theorem Mirror.storeRestingOrder (h : Mirror hash keys st slots)
    (hinj : Set.InjOn (keyOf hash) keys) {orderID : Word} {o : RestingOrder}
    (hamount : o.lockedAmt < 2 ^ 256)
    (hfields : ∀ field ∈ [OrderField.packed, .owner, .pool, .asset, .amount, .salt],
      .order orderID field ∈ keys) :
    ∃ st' slots', storeRestingOrder hash st orderID o = .ok st' ∧
      Settle.storeRestingOrder slots orderID o = .ok slots' ∧ Mirror hash keys st' slots' := by
  have hfill : fillBytes o.lockedAmt = .ok (BitVec.ofNat 256 o.lockedAmt) := if_pos hamount
  unfold MakerStore.storeRestingOrder Settle.storeRestingOrder storeAmount
  rw [hfill]
  refine ⟨_, _, rfl, rfl, ?_⟩
  have hpacked := h.set hinj (hfields .packed (by decide)) o.packed
  have howner := hpacked.set hinj (hfields .owner (by decide)) (addressWord o.owner)
  have hpool := howner.set hinj (hfields .pool (by decide)) o.poolID
  have hasset := hpool.set hinj (hfields .asset (by decide)) o.lockedAsset
  have hamt := hasset.set hinj (hfields .amount (by decide)) (BitVec.ofNat 256 o.lockedAmt)
  exact hamt.set hinj (hfields .salt (by decide)) o.salt

theorem loadRestingOrder_eq (h : Mirror hash keys st slots) {orderID : Word}
    (hfields : ∀ field ∈ [OrderField.packed, .owner, .pool, .asset, .amount, .salt],
      .order orderID field ∈ keys) :
    loadRestingOrder hash st orderID = Settle.loadRestingOrder slots orderID := by
  have hword : ∀ field ∈ [OrderField.packed, .owner, .pool, .asset, .amount, .salt],
      st (orderSlot hash orderID field) = slots (.order orderID field) :=
    fun field hfield => h.read (hfields field hfield)
  unfold MakerStore.loadRestingOrder Settle.loadRestingOrder loadAmount
  rw [hword .packed (by decide), hword .owner (by decide), hword .pool (by decide),
    hword .asset (by decide), hword .amount (by decide), hword .salt (by decide)]

end Mirrored

end MakerStore

end LuxPrecompile.Settle
