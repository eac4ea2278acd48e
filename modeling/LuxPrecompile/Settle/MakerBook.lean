import LuxPrecompile.Settle.MakerStore
import LuxPrecompile.Support.Runs

/-!
# What the store of resting orders keeps

A book has the last record of each id and, for each owner, the ids that were first appended
for that owner.  The account implements it call by call: by slot first, and from there on
hashed keys as far as no two of the strings in use collide.  The flag that keeps an id from
being indexed twice is the order's and not the owner's, so an id is in one owner's list.
-/

namespace LuxPrecompile.Settle

open Evm Support

/-! ## The book -/

/-- The calls that write the store. -/
inductive MakerCall
  | store (orderID : Word) (o : RestingOrder)
  | append (owner : Address) (orderID : Word)
deriving DecidableEq

/-- A call stores a record that fits its fields. -/
def MakerCall.WellTyped : MakerCall → Prop
  | .store _ o => o.WellTyped
  | .append _ _ => True

/-- What the store is for. -/
structure MakerBook where
  records : Word → RestingOrder
  indexed : List Word
  orders : Address → List Word

namespace MakerBook

def empty : MakerBook := ⟨fun _ => .zero, [], fun _ => []⟩

/-- A stored record replaces the last one; an id is indexed once, for the owner it is first
appended for. -/
def record (b : MakerBook) : MakerCall → MakerBook
  | .store orderID o => { b with records := Function.update b.records orderID o }
  | .append owner orderID =>
      if orderID ∈ b.indexed then b
      else
        { b with
          indexed := b.indexed ++ [orderID]
          orders := Function.update b.orders owner (b.orders owner ++ [orderID]) }

/-- The book of a sequence of calls. -/
def of (calls : List MakerCall) : MakerBook := calls.foldl record empty

end MakerBook

/-- The record a call stores for an id. -/
def MakerCall.storedFor (orderID : Word) : MakerCall → Option RestingOrder
  | .store id o => if id = orderID then some o else none
  | .append _ _ => none

/-- The id a call appends for an owner. -/
def MakerCall.appendedFor (owner : Address) : MakerCall → Option Word
  | .store _ _ => none
  | .append a orderID => if a = owner then some orderID else none

/-- The last record stored for an id. -/
def lastStored (calls : List MakerCall) (orderID : Word) : RestingOrder :=
  (calls.filterMap (MakerCall.storedFor orderID)).getLast?.getD .zero

theorem lastStored_concat (calls : List MakerCall) (call : MakerCall) (orderID : Word) :
    lastStored (calls ++ [call]) orderID =
      (call.storedFor orderID).getD (lastStored calls orderID) := by
  unfold lastStored
  rw [List.filterMap_append]
  rcases hcall : call.storedFor orderID with _ | o
  · rw [List.filterMap_cons_none hcall, List.filterMap_nil, List.append_nil, Option.getD_none]
  · rw [List.filterMap_cons_some hcall, List.filterMap_nil, List.getLast?_concat,
      Option.getD_some, Option.getD_some]

theorem eraseDups_concat_of_mem {α : Type} [DecidableEq α] {l : List α} {a : α} (h : a ∈ l) :
    (l ++ [a]).eraseDups = l.eraseDups := by
  rw [List.eraseDups_append]
  have hnone : [a].removeAll l = [] := by simp [List.removeAll, h]
  rw [hnone, List.eraseDups_nil, List.append_nil]

theorem eraseDups_concat_of_notMem {α : Type} [DecidableEq α] {l : List α} {a : α}
    (h : a ∉ l) : (l ++ [a]).eraseDups = l.eraseDups ++ [a] := by
  rw [List.eraseDups_append]
  have hone : [a].removeAll l = [a] := by simp [List.removeAll, h]
  rw [hone]
  rfl

namespace MakerBook

theorem of_concat (calls : List MakerCall) (call : MakerCall) :
    of (calls ++ [call]) = (of calls).record call := by
  rw [of, List.foldl_append]
  rfl

theorem record_append_of_mem {b : MakerBook} {orderID : Word} (h : orderID ∈ b.indexed)
    (owner : Address) : b.record (.append owner orderID) = b := if_pos h

theorem record_append_of_notMem {b : MakerBook} {orderID : Word} (h : orderID ∉ b.indexed)
    (owner : Address) :
    b.record (.append owner orderID) =
      { b with
        indexed := b.indexed ++ [orderID]
        orders := Function.update b.orders owner (b.orders owner ++ [orderID]) } := if_neg h

/-- The book has the last record stored for each id. -/
theorem records_of (calls : List MakerCall) (orderID : Word) :
    (of calls).records orderID = lastStored calls orderID := by
  induction calls using List.reverseRecOn with
  | nil => rfl
  | append_singleton calls call ih =>
      rw [of_concat, lastStored_concat, ← ih]
      rcases call with ⟨id, o⟩ | ⟨owner, id⟩
      · by_cases hid : id = orderID
        · simp [record, MakerCall.storedFor, hid]
        · simp [record, MakerCall.storedFor, hid, Ne.symm hid]
      · by_cases hindexed : id ∈ (of calls).indexed
        · rw [record_append_of_mem hindexed]
          rfl
        · rw [record_append_of_notMem hindexed]
          rfl

/-- The indexed ids are those that were appended. -/
theorem mem_indexed_of (calls : List MakerCall) (orderID : Word) :
    orderID ∈ (of calls).indexed ↔ ∃ owner, .append owner orderID ∈ calls := by
  induction calls using List.reverseRecOn with
  | nil => simp [of, empty]
  | append_singleton calls call ih =>
      rw [of_concat]
      rcases call with ⟨id, o⟩ | ⟨owner, id⟩
      · simpa [record] using ih
      · have happended : (∃ a, MakerCall.append a orderID ∈ calls ++ [.append owner id]) ↔
            (∃ a, MakerCall.append a orderID ∈ calls) ∨ orderID = id := by
          simp [exists_or]
        rw [happended, ← ih]
        by_cases hindexed : id ∈ (of calls).indexed
        · rw [record_append_of_mem hindexed]
          constructor
          · exact Or.inl
          · rintro (h | rfl)
            · exact h
            · exact hindexed
        · rw [record_append_of_notMem hindexed]
          simp

theorem mem_appendedFor {calls : List MakerCall} {owner : Address} {orderID : Word} :
    orderID ∈ calls.filterMap (MakerCall.appendedFor owner) ↔ .append owner orderID ∈ calls := by
  rw [List.mem_filterMap]
  constructor
  · rintro ⟨⟨id, o⟩ | ⟨a, id⟩, hmem, hid⟩
    · simp [MakerCall.appendedFor] at hid
    · simp only [MakerCall.appendedFor, Option.ite_none_right_eq_some, Option.some.injEq] at hid
      rw [← hid.1, ← hid.2]
      exact hmem
  · exact fun h => ⟨_, h, by simp [MakerCall.appendedFor]⟩

/-- Ids that are appended for one owner only are in that owner's list, each once, in the
order they were first appended. -/
theorem orders_of (calls : List MakerCall) (owner : Address)
    (hown : ∀ a orderID, .append a orderID ∈ calls → .append owner orderID ∈ calls → a = owner) :
    (of calls).orders owner = (calls.filterMap (MakerCall.appendedFor owner)).eraseDups := by
  induction calls using List.reverseRecOn with
  | nil => rfl
  | append_singleton calls call ih =>
      have hbefore := ih fun a orderID ha ho =>
        hown a orderID (List.mem_append_left _ ha) (List.mem_append_left _ ho)
      rw [of_concat, List.filterMap_append]
      rcases call with ⟨id, o⟩ | ⟨a, id⟩
      · have hlast : [MakerCall.store id o].filterMap (MakerCall.appendedFor owner) = [] := rfl
        rw [hlast, List.append_nil]
        exact hbefore
      by_cases ha : a = owner
      · subst ha
        have hlast : [MakerCall.append a id].filterMap (MakerCall.appendedFor a) = [id] := by
          simp [MakerCall.appendedFor]
        rw [hlast]
        by_cases hindexed : id ∈ (of calls).indexed
        · obtain ⟨a', ha'⟩ := (mem_indexed_of calls id).mp hindexed
          have hsame := hown a' id (List.mem_append_left _ ha') (by simp)
          subst hsame
          rw [record_append_of_mem hindexed, eraseDups_concat_of_mem (mem_appendedFor.mpr ha')]
          exact hbefore
        · have hnew : .append a id ∉ calls := fun hc =>
            hindexed ((mem_indexed_of calls id).mpr ⟨a, hc⟩)
          rw [record_append_of_notMem hindexed,
            eraseDups_concat_of_notMem (mt mem_appendedFor.mp hnew), ← hbefore]
          exact Function.update_self ..
      · have hlast : [MakerCall.append a id].filterMap (MakerCall.appendedFor owner) = [] := by
          simp [MakerCall.appendedFor, ha]
        rw [hlast, List.append_nil, ← hbefore]
        by_cases hindexed : id ∈ (of calls).indexed
        · rw [record_append_of_mem hindexed]
        · rw [record_append_of_notMem hindexed]
          exact Function.update_of_ne (Ne.symm ha) ..

theorem orders_length_record (b : MakerBook) (call : MakerCall) (owner : Address) :
    ((b.record call).orders owner).length ≤ (b.orders owner).length + 1 := by
  rcases call with ⟨orderID, o⟩ | ⟨a, orderID⟩
  · exact Nat.le_succ _
  · by_cases hindexed : orderID ∈ b.indexed
    · rw [record_append_of_mem hindexed]
      exact Nat.le_succ _
    · rw [record_append_of_notMem hindexed]
      by_cases ha : owner = a
      · simp [ha]
      · simp [Function.update_of_ne ha]

theorem orders_length_of (calls : List MakerCall) (owner : Address) :
    ((of calls).orders owner).length ≤ calls.length := by
  induction calls using List.reverseRecOn with
  | nil => simp [of, empty]
  | append_singleton calls call ih =>
      have hone := orders_length_record (of calls) call owner
      rw [of_concat, List.length_append, List.length_singleton]
      omega

end MakerBook

/-! ## The account by slot implements the book -/

/-- `OwnerOrderIDs` of the account by slot. -/
def ownerOrderIDs (st : Storage) (owner : Address) : List Word :=
  (List.range (loadOwnerOrderCount st owner).toNat).map fun i =>
    st (.ownerOrdersAt owner (UInt64.ofNat i))

/-- The ids a list still shows: the count of 64 bits starts over at each `2 ^ 64` of them. -/
def kept (ids : List Word) : List Word := ids.drop (ids.length / 2 ^ 64 * 2 ^ 64)

theorem kept_length (ids : List Word) : (kept ids).length = ids.length % 2 ^ 64 := by
  rw [kept, List.length_drop]
  omega

theorem kept_concat (ids : List Word) (orderID : Word) :
    kept (ids ++ [orderID]) =
      if (kept ids).length + 1 = 2 ^ 64 then [] else kept ids ++ [orderID] := by
  rw [kept_length]
  unfold kept
  rw [List.length_append, List.length_singleton]
  split_ifs with hfull
  · have hblocks : (ids.length + 1) / 2 ^ 64 * 2 ^ 64 = ids.length + 1 := by omega
    rw [hblocks]
    exact List.drop_eq_nil_of_le (by simp)
  · have hblocks : (ids.length + 1) / 2 ^ 64 = ids.length / 2 ^ 64 := by omega
    have hle : ids.length / 2 ^ 64 * 2 ^ 64 ≤ ids.length := Nat.div_mul_le_self _ _
    rw [hblocks, List.drop_append_of_le_length hle]

/-- The account by slot holds what the book says. -/
structure Implements (st : Storage) (b : MakerBook) : Prop where
  records : ∀ orderID, loadRestingOrder st orderID = (b.records orderID).shown
  indexed : ∀ orderID, st (.order orderID .indexed) ≠ 0 ↔ orderID ∈ b.indexed
  count : ∀ owner, loadOwnerOrderCount st owner = UInt64.ofNat (b.orders owner).length
  ids : ∀ owner, ∀ i (h : i < (kept (b.orders owner)).length),
    st (.ownerOrdersAt owner (UInt64.ofNat i)) = (kept (b.orders owner))[i]

theorem implements_empty : Implements Storage.empty MakerBook.empty where
  records orderID := by
    rw [loadRestingOrder_empty]
    rfl
  indexed orderID := by simp [Storage.empty, MakerBook.empty]
  count owner := by
    have hword : loadAmount Storage.empty (.ownerOrdersCount owner) = 0 := wordToUint_zero
    rw [loadOwnerOrderCount, hword]
    rfl
  ids owner i h := by simp [MakerBook.empty, kept] at h

namespace Implements

variable {st st' : Storage} {b : MakerBook}

theorem count_toNat (h : Implements st b) (owner : Address) :
    (loadOwnerOrderCount st owner).toNat = (kept (b.orders owner)).length := by
  rw [h.count, UInt64.toNat_ofNat', kept_length]

theorem ownerOrderIDs_eq (h : Implements st b) (owner : Address) :
    ownerOrderIDs st owner = kept (b.orders owner) := by
  unfold ownerOrderIDs
  apply List.ext_getElem
  · rw [List.length_map, List.length_range, h.count_toNat]
  · intro i hi hkept
    rw [List.getElem_map, List.getElem_range]
    exact h.ids owner i hkept

theorem store (h : Implements st b) {orderID : Word} {o : RestingOrder} (ho : o.WellTyped)
    (hstore : storeRestingOrder st orderID o = .ok st') :
    Implements st' (b.record (.store orderID o)) := by
  have hother : ∀ {slot : Slot}, (∀ field, slot ≠ .order orderID field) → st' slot = st slot :=
    storeRestingOrder_of_ne hstore
  refine ⟨fun id => ?_, fun id => ?_, fun owner => ?_, fun owner i hi => ?_⟩
  · dsimp only [MakerBook.record]
    by_cases hid : id = orderID
    · subst hid
      rw [loadRestingOrder_of_stored ho hstore, Function.update_self]
    · have hsame : loadRestingOrder st' id = loadRestingOrder st id :=
        loadRestingOrder_congr fun field => hother fun field' => by simp [hid]
      rw [hsame, h.records, Function.update_of_ne hid]
  · have hflag : st' (.order id .indexed) = st (.order id .indexed) := by
      obtain ⟨-, rfl⟩ := storeRestingOrder_ok hstore
      simp
    rw [hflag]
    exact h.indexed id
  · have hcount : st' (.ownerOrdersCount owner) = st (.ownerOrdersCount owner) :=
      hother fun field => by simp
    rw [loadOwnerOrderCount, loadAmount, hcount]
    exact h.count owner
  · rw [hother fun field => by simp]
    exact h.ids owner i hi

theorem append (h : Implements st b) (owner : Address) (orderID : Word) :
    Implements (appendOwnerOrder st owner orderID) (b.record (.append owner orderID)) := by
  unfold appendOwnerOrder
  by_cases hindexed : orderID ∈ b.indexed
  · rw [if_pos ((h.indexed orderID).mpr hindexed), MakerBook.record_append_of_mem hindexed]
    exact h
  rw [if_neg (mt (h.indexed orderID).mp hindexed), MakerBook.record_append_of_notMem hindexed]
  dsimp only
  have hcount := h.count_toNat owner
  set n := loadOwnerOrderCount st owner
  refine ⟨fun id => ?_, fun id => ?_, fun a => ?_, fun a i hi => ?_⟩
  · have hsame : loadRestingOrder (((st.set (.ownerOrdersAt owner n) orderID).set
        (.ownerOrdersCount owner) (BitVec.ofNat 256 (n + 1).toNat)).set
        (.order orderID .indexed) flagSet) id = loadRestingOrder st id := by
      simp [loadRestingOrder, loadAmount]
    rw [hsame]
    exact h.records id
  · by_cases hid : id = orderID
    · simp [hid, flagSet]
    · simpa [hid] using h.indexed id
  · by_cases ha : a = owner
    · subst ha
      have hlt : (n + 1).toNat < 2 ^ 256 := (n + 1).toNat_lt.trans (by norm_num)
      have hnext : n + 1 = UInt64.ofNat ((b.orders a).length + 1) := by
        rw [UInt64.ofNat_add, ← h.count]
        rfl
      dsimp only
      rw [Function.update_self, List.length_append, List.length_singleton, ← hnext,
        loadOwnerOrderCount, loadAmount_set_of_ne (by simp), loadAmount_set_self _ _ hlt,
        UInt64.ofNat_toNat]
    · simpa [loadOwnerOrderCount, ha, Function.update_of_ne ha] using h.count a
  · by_cases ha : a = owner
    · subst ha
      simp only [Function.update_self, kept_concat] at hi ⊢
      split_ifs at hi ⊢ with hfull
      · simp at hi
      rw [List.length_append, List.length_singleton] at hi
      have hbound : (kept (b.orders a)).length < 2 ^ 64 := hcount ▸ n.toNat_lt
      by_cases hlast : i = (kept (b.orders a)).length
      · have hslot : UInt64.ofNat i = n := by rw [hlast, ← hcount, UInt64.ofNat_toNat]
        rw [hslot, Storage.set_of_ne (by simp), Storage.set_of_ne (by simp), Storage.set_self,
          List.getElem_concat_length hlast]
      · have hbefore : i < (kept (b.orders a)).length := by omega
        have hslot : UInt64.ofNat i ≠ n := by
          intro hc
          apply hlast
          rw [← hcount, ← hc, uint64_toNat_ofNat (hbefore.trans hbound)]
        rw [List.getElem_append_left hbefore, ← h.ids a i hbefore]
        simp [hslot]
    · simp only [Function.update_of_ne ha] at hi ⊢
      rw [← h.ids a i hi]
      simp [ha]

end Implements

/-! ## The hashed account implements the book -/

/-- The keys of the six words of a record. -/
def orderKeys (orderID : Word) : List MakerKey :=
  [OrderField.packed, .owner, .pool, .asset, .amount, .salt].map (.order orderID)

/-- The keys of the first `n` entries of an owner's list and of its count. -/
def ownerKeys (owner : Address) (n : ℕ) : List MakerKey :=
  .ownerOrdersCount owner :: (List.range n).map fun i => .ownerOrdersAt owner (UInt64.ofNat i)

/-- The keys that a call uses where no list has more than `n` entries. -/
def MakerCall.keys (n : ℕ) : MakerCall → List MakerKey
  | .store orderID _ => orderKeys orderID
  | .append owner orderID => .order orderID .indexed :: ownerKeys owner n

/-- The keys of a sequence of calls and of the queries for an id and an owner. -/
def keysOf (calls : List MakerCall) (orderID : Word) (owner : Address) : List MakerKey :=
  calls.flatMap (MakerCall.keys calls.length) ++ (orderKeys orderID ++
    ownerKeys owner calls.length)

/-- The strings that those keys hash. -/
def hashedStrings (calls : List MakerCall) (orderID : Word) (owner : Address) :
    List (List UInt8) :=
  (keysOf calls orderID owner).map MakerKey.bytes

theorem injOn_of_noCollisions {hash : List UInt8 → Word} {keys : List MakerKey}
    (h : NoCollisions hash (keys.map MakerKey.bytes)) :
    Set.InjOn (MakerStore.keyOf hash) {k | k ∈ keys} := fun _ hk _ hk' heq =>
  MakerKey.bytes_injective
    (h _ (List.mem_map_of_mem hk) _ (List.mem_map_of_mem hk') heq)

theorem orderKeys_mem {keys : Set MakerKey} {orderID : Word}
    (h : ∀ k ∈ orderKeys orderID, k ∈ keys) :
    ∀ field ∈ [OrderField.packed, .owner, .pool, .asset, .amount, .salt],
      MakerKey.order orderID field ∈ keys :=
  fun _ hfield => h _ (List.mem_map_of_mem hfield)

theorem ownerKeys_at {owner : Address} {n i : ℕ} (h : i < n) :
    MakerKey.ownerOrdersAt owner (UInt64.ofNat i) ∈ ownerKeys owner n :=
  List.mem_cons_of_mem _ (List.mem_map.mpr ⟨i, List.mem_range.mpr h, rfl⟩)

namespace MakerStore

/-- A call on the account. -/
def perform (hash : List UInt8 → Word) (st : Store Word) : MakerCall → Except Error (Store Word)
  | .store orderID o => storeRestingOrder hash st orderID o
  | .append owner orderID => .ok (appendOwnerOrder hash st owner orderID)

variable {hash : List UInt8 → Word} {keys : Set MakerKey} {n : ℕ}

/-- One call takes an account that implements a book to one that implements the next. -/
theorem perform_implements (hinj : Set.InjOn (keyOf hash) keys) {st : Store Word}
    {slots : Storage} {b : MakerBook} (hmirror : Mirror hash keys st slots)
    (hbook : Implements slots b) {call : MakerCall} (htyped : call.WellTyped)
    (hkeys : ∀ k ∈ call.keys n, k ∈ keys) (hroom : ∀ owner, (b.orders owner).length < n) :
    ∃ st' slots', perform hash st call = .ok st' ∧ Mirror hash keys st' slots' ∧
      Implements slots' (b.record call) := by
  rcases call with ⟨orderID, o⟩ | ⟨owner, orderID⟩
  · obtain ⟨st', slots', hstore, hslots, hmirror'⟩ :=
      hmirror.storeRestingOrder hinj htyped.amount (orderKeys_mem hkeys)
    exact ⟨st', slots', hstore, hmirror', hbook.store htyped hslots⟩
  · refine ⟨_, _, rfl, hmirror.appendOwnerOrder hinj ?_ ?_ ?_, hbook.append owner orderID⟩
    · exact hkeys _ List.mem_cons_self
    · exact hkeys _ (List.mem_cons_of_mem _ List.mem_cons_self)
    · rw [hbook.count]
      exact hkeys _ (List.mem_cons_of_mem _ (ownerKeys_at (hroom owner)))

/-- A sequence of calls takes an account that implements a book to one that implements the
book of the sequence. -/
theorem run_implements (hinj : Set.InjOn (keyOf hash) keys) :
    ∀ (calls : List MakerCall) {st : Store Word} {slots : Storage} {b : MakerBook},
      Mirror hash keys st slots → Implements slots b →
      (∀ call ∈ calls, call.WellTyped ∧ ∀ k ∈ call.keys n, k ∈ keys) →
      (∀ owner, (b.orders owner).length + calls.length ≤ n) →
      ∃ st' slots', calls.foldlM (perform hash) st = .ok st' ∧ Mirror hash keys st' slots' ∧
        Implements slots' (calls.foldl MakerBook.record b)
  | [], st, slots, _, hmirror, hbook, _, _ => ⟨st, slots, rfl, hmirror, hbook⟩
  | call :: calls, st, slots, b, hmirror, hbook, hcalls, hroom => by
      obtain ⟨htyped, hkeys⟩ := hcalls call List.mem_cons_self
      obtain ⟨st', slots', hstep, hmirror', hbook'⟩ :=
        perform_implements hinj hmirror hbook htyped hkeys fun owner => by
          have hlength := hroom owner
          rw [List.length_cons] at hlength
          omega
      rw [List.foldlM_cons, hstep]
      refine run_implements hinj calls hmirror' hbook'
        (fun c hc => hcalls c (List.mem_cons_of_mem _ hc)) fun owner => ?_
      have hlength := hroom owner
      have hone := MakerBook.orders_length_record b call owner
      rw [List.length_cons] at hlength
      omega

/-- The list of an owner in the hashed account. -/
theorem ownerOrderIDs_eq {st : Store Word} {slots : Storage} {b : MakerBook}
    (hmirror : Mirror hash keys st slots) (hbook : Implements slots b) {owner : Address}
    (hkeys : ∀ k ∈ ownerKeys owner n, k ∈ keys) (hroom : (b.orders owner).length ≤ n) :
    ownerOrderIDs hash st owner = kept (b.orders owner) := by
  rw [← hbook.ownerOrderIDs_eq owner]
  unfold MakerStore.ownerOrderIDs Settle.ownerOrderIDs
  rw [loadOwnerOrderCount_eq hmirror (hkeys _ List.mem_cons_self)]
  apply List.map_congr_left
  intro i hi
  have hcount := hbook.count_toNat owner
  have hlt : i < n := by
    have hle : (kept (b.orders owner)).length ≤ (b.orders owner).length := by
      rw [kept_length]
      exact Nat.mod_le _ _
    have hrange := List.mem_range.mp hi
    omega
  exact hmirror.read (hkeys _ (ownerKeys_at hlt))

end MakerStore

/-- After every sequence of calls the store shows the last record of an id, and of an owner the
ids that were first appended for that owner, each once and in that order (of more than
`2 ^ 64` of them those since the count last started over). -/
theorem resting_order_store (hash : List UInt8 → Word) (calls : List MakerCall)
    (hcalls : ∀ call ∈ calls, call.WellTyped) (orderID : Word) (owner : Address)
    (hhash : NoCollisions hash (hashedStrings calls orderID owner)) :
    ∃ st, calls.foldlM (MakerStore.perform hash) (fun _ => 0) = .ok st ∧
      MakerStore.loadRestingOrder hash st orderID = (lastStored calls orderID).shown ∧
      MakerStore.ownerOrderIDs hash st owner = kept ((MakerBook.of calls).orders owner) ∧
      ((∀ a id, .append a id ∈ calls → .append owner id ∈ calls → a = owner) →
        (MakerBook.of calls).orders owner =
          (calls.filterMap (MakerCall.appendedFor owner)).eraseDups) := by
  have hinj := injOn_of_noCollisions hhash
  have horder : ∀ k ∈ orderKeys orderID, k ∈ keysOf calls orderID owner := fun k hk =>
    List.mem_append_right _ (List.mem_append_left _ hk)
  have howner : ∀ k ∈ ownerKeys owner calls.length, k ∈ keysOf calls orderID owner := fun k hk =>
    List.mem_append_right _ (List.mem_append_right _ hk)
  have hempty : MakerStore.Mirror hash {k | k ∈ keysOf calls orderID owner} (fun _ => 0)
      Storage.empty := fun _ _ => rfl
  obtain ⟨st, slots, hrun, hmirror, hbook⟩ := MakerStore.run_implements (n := calls.length) hinj
    calls hempty implements_empty
    (fun call hcall => ⟨hcalls call hcall, fun k hk =>
      List.mem_append_left _ (List.mem_flatMap.mpr ⟨call, hcall, hk⟩)⟩)
    (fun a => by simp [MakerBook.empty])
  refine ⟨st, hrun, ?_, ?_, MakerBook.orders_of calls owner⟩
  · rw [MakerStore.loadRestingOrder_eq hmirror (orderKeys_mem horder), hbook.records,
      ← MakerBook.records_of]
    rfl
  · exact MakerStore.ownerOrderIDs_eq hmirror hbook howner
      (MakerBook.orders_length_of calls owner)

/-! ## Ids that name their owner -/

theorem makerOrderBytes_owner {owner owner' : Address} {poolID poolID' salt salt' : Word}
    {lower lower' upper upper' : ℤ}
    (h : makerOrderBytes owner poolID salt lower upper =
      makerOrderBytes owner' poolID' salt' lower' upper') : owner = owner' := by
  have hfirst : ∀ (a : Address) (p s : Word) (l u : ℤ),
      (makerOrderBytes a p s l u).take 20 = addressBytes a := by
    intro a p s l u
    simp [makerOrderBytes, addressBytes]
  have hsame := congrArg (List.take 20) h
  rw [hfirst, hfirst] at hsame
  rw [← bytesToAddress_addressBytes owner, hsame, bytesToAddress_addressBytes]

theorem makerOrderID_owner (hashes : Hashes) {owner owner' : Address}
    {poolID poolID' salt salt' : Word} {lower lower' upper upper' : ℤ}
    (hkeccak : NoCollisions hashes.keccak256
      [makerOrderBytes owner poolID salt lower upper,
        makerOrderBytes owner' poolID' salt' lower' upper'])
    (h : makerOrderID hashes owner poolID salt lower upper =
      makerOrderID hashes owner' poolID' salt' lower' upper') : owner = owner' :=
  makerOrderBytes_owner (hkeccak _ (by simp) _ (by simp) h)

/-! ## Samples -/

/-- A hash for the samples: the last 32 bytes of a string. -/
def lastBytes (b : List UInt8) : Word := bytesToHash (b.drop (b.length - 32))

/-- A record with negative ticks, replaced by one that is closed. -/
def belowZeroOrder : RestingOrder := ⟨1, 5, .ask, 6, 1000, -8388608, -1, 9, .open⟩

def twoOwners : List MakerCall :=
  [.append 1 7, .store 7 belowZeroOrder, .append 2 8, .append 1 7,
    .store 7 { belowZeroOrder with lockedAmt := 0, status := .closed }]

theorem resting_order_store_sample :
    ∃ st, twoOwners.foldlM (MakerStore.perform lastBytes) (fun _ => 0) = .ok st ∧
      MakerStore.loadRestingOrder lastBytes st 7 =
        { belowZeroOrder with lockedAmt := 0, status := .closed } ∧
      MakerStore.ownerOrderIDs lastBytes st 1 = [7] := by
  have hopen : belowZeroOrder.WellTyped :=
    ⟨⟨1, by decide, rfl⟩, ⟨1, by decide, rfl⟩, by decide, by decide, by decide⟩
  have hclosed : ({ belowZeroOrder with lockedAmt := 0, status := .closed } :
      RestingOrder).WellTyped :=
    ⟨⟨2, by decide, rfl⟩, hopen.side, by decide, hopen.lower, hopen.upper⟩
  have htyped : ∀ call ∈ twoOwners, call.WellTyped := by
    simp [twoOwners, MakerCall.WellTyped, hopen, hclosed]
  obtain ⟨st, hrun, hload, hids, -⟩ :=
    resting_order_store lastBytes twoOwners htyped 7 1 (by decide)
  exact ⟨st, hrun, hload, hids⟩

/-- An id that was appended for one owner is not listed for another. -/
theorem second_owner_not_listed :
    ¬ ∀ (hash : List UInt8 → Word) (calls : List MakerCall) (orderID : Word) (owner : Address),
      (∀ call ∈ calls, call.WellTyped) →
        NoCollisions hash (hashedStrings calls orderID owner) →
          ∀ st, calls.foldlM (MakerStore.perform hash) (fun _ => 0) = .ok st →
            MakerStore.ownerOrderIDs hash st owner =
              (calls.filterMap (MakerCall.appendedFor owner)).eraseDups := by
  intro h
  have hlisted := h lastBytes [.append 1 7, .append 2 7] 7 2
    (by simp [MakerCall.WellTyped]) (by decide) _ rfl
  revert hlisted
  decide

end LuxPrecompile.Settle
