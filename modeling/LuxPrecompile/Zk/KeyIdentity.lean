import LuxPrecompile.Evm.Bytes
import LuxPrecompile.Support.Framing

/-!
# The identity of verifying keys

`verifyingKeyID` and `RegisterVerifyingKey` of `zk/verifier.go`.  A key is stored under the
hash of its fields, each behind its length, so a key that is registered stays what its id
names.
-/

namespace LuxPrecompile.Zk

open Evm Support.Framing

/-- What defines a verifying key: `ProofSystem` and `CircuitType` are bytes, and the curve
elements are strings of any length. -/
structure KeyFields where
  proofSystem : UInt8
  circuitType : UInt8
  alpha : List UInt8
  beta : List UInt8
  gamma : List UInt8
  delta : List UInt8
  ic : List (List UInt8)
deriving DecidableEq

/-- `uint32(len(b))` in big-endian order. -/
def lengthPrefix (n : ℕ) : List UInt8 := uint32Bytes (UInt32.ofNat n)

/-- `field`: a string behind its length. -/
def keyField (b : List UInt8) : List UInt8 := lengthPrefix b.length ++ b

/-- The domain of the hash. -/
def keyDomain : List UInt8 :=
  ascii ['l', 'u', 'x', '/', 'z', 'k', '/', 'v', 'e', 'r', 'i', 'f', 'y', 'i', 'n', 'g', '-', 'k',
    'e', 'y', '/', 'v', '1']

/-- What `verifyingKeyID` hashes. -/
def KeyFields.preimage (key : KeyFields) : List UInt8 :=
  keyDomain ++ ([key.proofSystem, key.circuitType] ++ (keyField key.alpha ++ (keyField key.beta ++
    (keyField key.gamma ++ (keyField key.delta ++ (lengthPrefix key.ic.length ++
      key.ic.flatMap keyField))))))

def verifyingKeyID (sha256 : List UInt8 → Word) (key : KeyFields) : Word := sha256 key.preimage

/-! ## One key for each string -/

/-- The byte fields are shorter than `2 ^ 32` bytes; there may be any number of elements. -/
structure KeyFields.Bounded (key : KeyFields) : Prop where
  alpha : key.alpha.length < 2 ^ 32
  beta : key.beta.length < 2 ^ 32
  gamma : key.gamma.length < 2 ^ 32
  delta : key.delta.length < 2 ^ 32
  ic : ∀ e ∈ key.ic, e.length < 2 ^ 32

theorem lengthPrefix_length (n : ℕ) : (lengthPrefix n).length = 4 := uint32Bytes_length _

theorem lengthPrefix_injOn : Set.InjOn lengthPrefix {n | n < 2 ^ 32} := by
  intro n hn m hm h
  have hvalue := congrArg bytesToUint32 h
  rw [lengthPrefix, lengthPrefix, bytesToUint32_uint32Bytes, bytesToUint32_uint32Bytes] at hvalue
  have hnat := congrArg UInt32.toNat hvalue
  rw [UInt32.toNat_ofNat', UInt32.toNat_ofNat', Nat.mod_eq_of_lt hn, Nat.mod_eq_of_lt hm] at hnat
  exact hnat

theorem keyField_selfDelimiting : SelfDelimiting keyField {b | b.length < 2 ^ 32} :=
  selfDelimiting_framed lengthPrefix_injOn lengthPrefix_length

theorem keyField_ne_nil (b : List UInt8) : keyField b ≠ [] := by
  intro h
  have hlength := congrArg List.length h
  rw [keyField, List.length_append, lengthPrefix_length, List.length_nil] at hlength
  omega

/-- The string that is hashed determines every field of the key. -/
theorem KeyFields.Bounded.preimage_inj {key key' : KeyFields} (hkey : key.Bounded)
    (hkey' : key'.Bounded) (h : key.preimage = key'.preimage) : key = key' := by
  obtain ⟨proofSystem, circuitType, alpha, beta, gamma, delta, ic⟩ := key
  obtain ⟨proofSystem', circuitType', alpha', beta', gamma', delta', ic'⟩ := key'
  have htypes := List.append_cancel_left h
  obtain ⟨hbytes, halpha⟩ := List.append_inj htypes rfl
  obtain ⟨rfl, hbeta⟩ := keyField_selfDelimiting _ hkey.alpha _ hkey'.alpha _ _ halpha
  obtain ⟨rfl, hgamma⟩ := keyField_selfDelimiting _ hkey.beta _ hkey'.beta _ _ hbeta
  obtain ⟨rfl, hdelta⟩ := keyField_selfDelimiting _ hkey.gamma _ hkey'.gamma _ _ hgamma
  obtain ⟨rfl, hcount⟩ := keyField_selfDelimiting _ hkey.delta _ hkey'.delta _ _ hdelta
  -- the count may have wrapped, but nothing follows the elements
  obtain ⟨-, helements⟩ := List.append_inj hcount
    ((lengthPrefix_length _).trans (lengthPrefix_length _).symm)
  obtain rfl := keyField_selfDelimiting.flatMap_inj keyField_ne_nil hkey.ic hkey'.ic helements
  obtain ⟨rfl, hcircuit⟩ := List.cons.inj hbytes
  obtain ⟨rfl, -⟩ := List.cons.inj hcircuit
  rfl

/-! ## The registry -/

/-- `VerifyingKey`, as it is stored. -/
structure StoredKey where
  keyID : Word
  fields : KeyFields
  hash : Word
  owner : Address
  createdAt : UInt64

/-- A call of `RegisterVerifyingKey`, with the time at which it is made. -/
structure Registration where
  owner : Address
  fields : KeyFields
  now : UInt64

section Registry

variable (sha256 : List UInt8 → Word)

def registerVerifyingKey (keys : Word → Option StoredKey) (call : Registration) :
    Word × (Word → Option StoredKey) :=
  let keyID := verifyingKeyID sha256 call.fields
  (keyID, Function.update keys keyID
    (some ⟨keyID, call.fields, keyID, call.owner, call.now⟩))

/-- The keys after a run of registrations on a new verifier. -/
def registered (calls : List Registration) : Word → Option StoredKey :=
  calls.foldl (fun keys call => (registerVerifyingKey sha256 keys call).2) fun _ => none

/-- The strings that a run of registrations hashes. -/
def preimages (calls : List Registration) : Set (List UInt8) :=
  {s | ∃ call ∈ calls, s = call.fields.preimage}

variable {sha256}

theorem registered_append (calls : List Registration) (call : Registration) :
    registered sha256 (calls ++ [call]) =
      (registerVerifyingKey sha256 (registered sha256 calls) call).2 := by
  rw [registered, registered, List.foldl_append]
  rfl

/-- Every key of a run is found under its id, whatever was registered after it. -/
theorem registered_eq_some {calls : List Registration}
    (hbounded : ∀ call ∈ calls, call.fields.Bounded)
    (hfree : Set.InjOn sha256 (preimages calls)) :
    ∀ call ∈ calls, ∃ stored, registered sha256 calls (verifyingKeyID sha256 call.fields) =
      some stored ∧ stored.fields = call.fields := by
  induction calls using List.reverseRecOn with
  | nil => exact fun call hcall => absurd hcall List.not_mem_nil
  | append_singleton calls last ih =>
      intro call hcall
      rw [registered_append, registerVerifyingKey]
      dsimp only
      by_cases hid : verifyingKeyID sha256 call.fields = verifyingKeyID sha256 last.fields
      · have hlast : last ∈ calls ++ [last] := List.mem_append_right _ List.mem_cons_self
        have hpreimage := hfree ⟨call, hcall, rfl⟩ ⟨last, hlast, rfl⟩ hid
        have hsame := (hbounded call hcall).preimage_inj (hbounded last hlast) hpreimage
        rw [hid, Function.update_self, hsame]
        exact ⟨_, rfl, rfl⟩
      · have hearlier : call ∈ calls := by
          rcases List.mem_append.mp hcall with hmem | hmem
          · exact hmem
          · rw [List.mem_singleton.mp hmem] at hid
            exact absurd rfl hid
        rw [Function.update_of_ne hid]
        refine ih (fun c hc => hbounded c (List.mem_append_left _ hc)) ?_ call hearlier
        refine hfree.mono ?_
        rintro s ⟨c, hc, rfl⟩
        exact ⟨c, List.mem_append_left _ hc, rfl⟩

end Registry

/-- Equal strings are hashed for equal keys only, so where no two strings of a run have one hash
every id names the key that was registered under it. -/
theorem verifyingKeyID_names_one_key (sha256 : List UInt8 → Word) :
    (∀ key key' : KeyFields, key.Bounded → key'.Bounded → key.preimage = key'.preimage →
      key = key') ∧
      ∀ calls : List Registration, (∀ call ∈ calls, call.fields.Bounded) →
        Set.InjOn sha256 (preimages calls) →
          (∀ call ∈ calls, ∀ call' ∈ calls,
            verifyingKeyID sha256 call.fields = verifyingKeyID sha256 call'.fields →
              call.fields = call'.fields) ∧
          ∀ call ∈ calls, ∃ stored,
            registered sha256 calls (verifyingKeyID sha256 call.fields) = some stored ∧
              stored.fields = call.fields := by
  refine ⟨fun key key' hkey hkey' h => hkey.preimage_inj hkey' h, ?_⟩
  intro calls hbounded hfree
  refine ⟨fun call hcall call' hcall' hid => ?_, registered_eq_some hbounded hfree⟩
  have hpreimage := hfree ⟨call, hcall, rfl⟩ ⟨call', hcall', rfl⟩ hid
  exact (hbounded call hcall).preimage_inj (hbounded call' hcall') hpreimage

/-- A key for two strings that are one string together. -/
def splitKey (alpha beta : List UInt8) : KeyFields := ⟨0, 0, alpha, beta, [], [], []⟩

/-- The keys of `ab` and `c` and of `a` and `bc`. -/
def splitCalls : List Registration :=
  [⟨0, splitKey [0x61, 0x62] [0x63], 1⟩, ⟨0, splitKey [0x61] [0x62, 0x63], 2⟩]

theorem splitCalls_bounded : ∀ call ∈ splitCalls, call.fields.Bounded := by
  intro call hcall
  simp only [splitCalls, List.mem_cons, List.not_mem_nil, or_false] at hcall
  rcases hcall with rfl | rfl
  · exact ⟨by decide, by decide, by decide, by decide, by decide⟩
  · exact ⟨by decide, by decide, by decide, by decide, by decide⟩

theorem splitCalls_collisionFree : Set.InjOn bytesToHash (preimages splitCalls) := by
  have hne : bytesToHash (splitKey [0x61, 0x62] [0x63]).preimage ≠
      bytesToHash (splitKey [0x61] [0x62, 0x63]).preimage := by decide
  rintro _ ⟨call, hcall, rfl⟩ _ ⟨call', hcall', rfl⟩ h
  simp only [splitCalls, List.mem_cons, List.not_mem_nil, or_false] at hcall hcall'
  rcases hcall with rfl | rfl
  · rcases hcall' with rfl | rfl
    · rfl
    · exact absurd h hne
  · rcases hcall' with rfl | rfl
    · exact absurd h.symm hne
    · rfl

/-- They are two keys under two ids, and the first one is still there after the second. -/
theorem verifyingKeyID_names_one_key_split :
    (splitKey [0x61, 0x62] [0x63]).preimage ≠ (splitKey [0x61] [0x62, 0x63]).preimage ∧
      ∃ stored, registered bytesToHash splitCalls
          (verifyingKeyID bytesToHash (splitKey [0x61, 0x62] [0x63])) = some stored ∧
        stored.fields = splitKey [0x61, 0x62] [0x63] := by
  obtain ⟨hinj, hruns⟩ := verifyingKeyID_names_one_key bytesToHash
  have hfirst : (⟨0, splitKey [0x61, 0x62] [0x63], 1⟩ : Registration) ∈ splitCalls :=
    List.mem_cons_self
  have hsecond : (⟨0, splitKey [0x61] [0x62, 0x63], 2⟩ : Registration) ∈ splitCalls :=
    List.mem_cons_of_mem _ List.mem_cons_self
  constructor
  · intro h
    have hkeys := hinj _ _ (splitCalls_bounded _ hfirst) (splitCalls_bounded _ hsecond) h
    exact absurd hkeys (by decide)
  · obtain ⟨-, hstored⟩ := hruns splitCalls splitCalls_bounded splitCalls_collisionFree
    have hkept := hstored _ hfirst
    exact hkept

end LuxPrecompile.Zk
