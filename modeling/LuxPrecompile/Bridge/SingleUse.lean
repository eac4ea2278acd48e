import LuxPrecompile.Bridge.Governance
import LuxPrecompile.Bridge.Rows

/-!
# Single-use authorisations

Every write of a run is authorised by a threshold of distinct operators over its
selector, its arguments and the nonce before it, and no authorisation serves twice
before the 64-bit nonce wraps around.
-/

namespace LuxPrecompile.Bridge

open Evm Support

/-! ## Authorisations -/

/-- What an operator signs. -/
structure Authorisation where
  sel : UInt8
  nonce : UInt64
  payload : List UInt8
deriving DecidableEq

def Authorisation.message (auth : Authorisation) : List UInt8 :=
  registrarMessage auth.sel auth.nonce auth.payload

theorem Authorisation.message_inj {auth auth' : Authorisation}
    (h : auth.message = auth'.message) : auth = auth' := by
  obtain ⟨hsel, hrest⟩ := List.cons.inj (List.append_cancel_left h)
  obtain ⟨hnonce, hpayload⟩ := List.append_inj hrest (by simp)
  cases auth
  cases auth'
  rw [Authorisation.mk.injEq]
  exact ⟨hsel, uint64Bytes_inj hnonce, hpayload⟩

/-- The authorisation a write needs in a state. -/
def authorisation (st : Storage) (signed : Signed Request) : Authorisation :=
  ⟨signed.args.selector, governanceNonce st, signed.payload⟩

def Authorisation.digest (crypto : Crypto) (auth : Authorisation) : Word :=
  crypto.keccak256 auth.message

/-! ## Journals -/

/-- An executed write: what it needed and the signatures it came with. -/
structure Entry where
  auth : Authorisation
  sigs : List (List UInt8)
deriving DecidableEq

/-- The storage with the writes executed so far. -/
structure Journal where
  storage : Storage
  executed : List Entry

def Journal.entry (s : Journal) (signed : Signed Request) : Entry :=
  ⟨authorisation s.storage signed, signed.sigs⟩

section Runs

variable (crypto : Crypto)

/-- A call of the registrar; a write that succeeds is entered in the journal. -/
def log (s : Journal) (c : Call) : Journal where
  storage := (run crypto s.storage c).storage
  executed :=
    match signedRequest c.input with
    | some signed =>
        if (run crypto s.storage c).result.isOk then s.executed ++ [s.entry signed]
        else s.executed
    | none => s.executed

variable (issued : Address → Authorisation → Prop)

/-- No signature that came with a write is forged: one that recovers to an operator was
made by it for a message of the same digest. -/
def Unforged (operators : List Address) (executed : List Entry) : Prop :=
  ∀ e ∈ executed, ∀ sig ∈ e.sigs, ∀ op ∈ operators,
    Recovers crypto (e.auth.digest crypto) sig op →
      ∃ auth, issued op auth ∧ auth.digest crypto = e.auth.digest crypto

/-- The hash does not collide on a message an operator signed and one that was executed. -/
def CollisionFree (operators : List Address) (executed : List Entry) : Prop :=
  ∀ op ∈ operators, ∀ auth, issued op auth → ∀ e ∈ executed,
    auth.digest crypto = e.auth.digest crypto → auth.message = e.auth.message

variable (operators : List Address) (threshold : UInt32)

/-- A write that a quorum issued for its selector, its arguments and the nonce before it,
used for the first time, whose effect is that of the signed arguments. -/
structure Authorised (s : Journal) (signed : Signed Request) (after : Storage) : Prop where
  quorum : ∃ signers,
    Quorum crypto operators threshold ((authorisation s.storage signed).digest crypto)
      signed.sigs signers ∧
    ∀ op ∈ signers, issued op (authorisation s.storage signed)
  fresh : ∀ e ∈ s.executed, e.auth ≠ authorisation s.storage signed
  effect : ∃ st' idx,
    (payloadRequest signed.args.selector signed.payload).apply s.storage = .ok (st', idx) ∧
      after = bumpNonce st'
  nonce : (governanceNonce after).toNat = (governanceNonce s.storage).toNat + 1

/-- A call whose write, if it executes one, is authorised, and that leaves the storage
alone otherwise. -/
structure SingleUse (s : Journal) (c : Call) : Prop where
  write : ∀ signed, signedRequest c.input = some signed →
    (run crypto s.storage c).result.isOk = true →
      Authorised crypto issued operators threshold s signed (run crypto s.storage c).storage
  other : signedRequest c.input = none ∨ (run crypto s.storage c).result.isOk = false →
    (run crypto s.storage c).storage = s.storage

variable {crypto issued operators threshold}

/-- A call logs what it executes, and nothing else. -/
theorem log_cases (crypto : Crypto) (s : Journal) (c : Call) :
    (∃ signed st', Executes crypto s.storage c signed st' ∧
      log crypto s c = ⟨bumpNonce st', s.executed ++ [s.entry signed]⟩) ∨
    (Idle crypto s.storage c ∧ log crypto s c = s) := by
  rcases run_cases crypto s.storage c with ⟨signed, st', hexec⟩ | hidle
  · refine .inl ⟨signed, st', hexec, ?_⟩
    rw [log, hexec.accepted.decoded, hexec.storage_eq]
    simp [hexec.succeeds]
  · refine .inr ⟨hidle, ?_⟩
    rw [log, hidle.storage_eq]
    cases hsigned : signedRequest c.input with
    | none => rfl
    | some signed =>
        have herror : ¬ (run crypto s.storage c).result.isOk = true := by
          intro hok
          rw [hidle.refused hok] at hsigned
          cases hsigned
        dsimp only
        rw [if_neg herror]

theorem executed_prefix (crypto : Crypto) (calls : List Call) (s : Journal) :
    s.executed <+: (calls.foldl (log crypto) s).executed := by
  induction calls generalizing s with
  | nil => exact List.prefix_refl _
  | cons c calls ih =>
      refine List.IsPrefix.trans ?_ (ih (log crypto s c))
      rcases log_cases crypto s c with ⟨signed, st', -, hlog⟩ | ⟨-, hlog⟩
      · rw [hlog]
        exact List.prefix_append _ _
      · rw [hlog]

/-! ## The invariant -/

variable (operators threshold) in
/-- The governance that was seeded, and a nonce past those of all writes. -/
structure Advancing (s : Journal) : Prop where
  governance : loadGovernance s.storage = .ok (operators, threshold)
  past : ∀ e ∈ s.executed, e.auth.nonce < governanceNonce s.storage
  distinct : (s.executed.map Entry.auth).Nodup

theorem Executes.nonce {st : Storage} {c : Call} {signed : Signed Request} {st' : Storage}
    (h : Executes crypto st c signed st') (hroom : (governanceNonce st).toNat + 1 < 2 ^ 64) :
    (governanceNonce (bumpNonce st')).toNat = (governanceNonce st).toNat + 1 := by
  obtain ⟨idx, happly⟩ := h.applied
  have hsame : governanceNonce st' = governanceNonce st := by
    rw [governanceNonce, governanceNonce, Request.apply_of_not_registry happly (by simp)]
  rw [governanceNonce_bumpNonce, hsame, UInt64.toNat_add]
  exact Nat.mod_eq_of_lt hroom

/-- A write keeps the invariant while the nonce has room. -/
theorem Advancing.executes {s : Journal} (h : Advancing operators threshold s) {c : Call}
    {signed : Signed Request} {st' : Storage} (hexec : Executes crypto s.storage c signed st')
    (hroom : (governanceNonce s.storage).toNat + 1 < 2 ^ 64) :
    Advancing operators threshold ⟨bumpNonce st', s.executed ++ [s.entry signed]⟩ := by
  obtain ⟨idx, happly⟩ := hexec.applied
  have hnonce := hexec.nonce hroom
  refine ⟨?_, ?_, ?_⟩
  · rw [← h.governance]
    refine loadGovernance_congr fun offset => ?_
    change bumpNonce st' (.gov offset) = _
    rw [bumpNonce, Store.set_of_ne _ _ (by simp), Request.apply_of_not_registry happly (by simp)]
  · intro e he
    rw [UInt64.lt_iff_toNat_lt]
    change e.auth.nonce.toNat < (governanceNonce (bumpNonce st')).toNat
    rw [hnonce]
    rcases List.mem_append.mp he with he | he
    · have hpast := UInt64.lt_iff_toNat_lt.mp (h.past e he)
      omega
    · rw [List.mem_singleton.mp he]
      exact Nat.lt_succ_self _
  · rw [List.map_append, List.map_singleton]
    refine List.nodup_append.mpr ⟨h.distinct, List.nodup_singleton _, ?_⟩
    rintro auth hauth auth' hauth' rfl
    obtain ⟨e, he, rfl⟩ := List.mem_map.mp hauth
    have hpast := h.past e he
    rw [List.mem_singleton.mp hauth'] at hpast
    exact UInt64.lt_irrefl _ hpast

/-- A write is authorised where its signatures are genuine and the nonce has room. -/
theorem Advancing.authorised {s : Journal} (h : Advancing operators threshold s) {c : Call}
    {signed : Signed Request} {st' : Storage} (hexec : Executes crypto s.storage c signed st')
    (hroom : (governanceNonce s.storage).toNat + 1 < 2 ^ 64) {executed : List Entry}
    (hentry : s.entry signed ∈ executed)
    (hunforged : Unforged crypto issued operators executed)
    (hkeccak : CollisionFree crypto issued operators executed) :
    Authorised crypto issued operators threshold s signed (bumpNonce st') := by
  obtain ⟨args, size, hdecoded⟩ := decoded_of_signedRequest hexec.accepted.decoded
  obtain ⟨idx, happly⟩ := hexec.applied
  obtain ⟨signers, hquorum⟩ := quorum_of_verifyMultisig h.governance hexec.accepted.verified
  refine ⟨⟨signers, hquorum, fun op hop => ?_⟩, fun e he heq => ?_, ⟨st', idx, ?_, rfl⟩,
    hexec.nonce hroom⟩
  · obtain ⟨sig, hsig, hrecovers⟩ := hquorum.signed op hop
    obtain ⟨auth, hissued, hdigest⟩ :=
      hunforged _ hentry sig hsig op (hquorum.operators hop) hrecovers
    have hmessage := hkeccak op (hquorum.operators hop) auth hissued _ hentry hdigest
    rw [Authorisation.message_inj hmessage] at hissued
    exact hissued
  · have hpast := h.past e he
    rw [heq] at hpast
    exact UInt64.lt_irrefl _ hpast
  · rw [← hdecoded.args_eq]
    exact happly

/-! ## Runs -/

theorem run_single_use {s : Journal} (h : Advancing operators threshold s) (calls : List Call)
    (hroom : (governanceNonce s.storage).toNat + (calls.foldl (log crypto) s).executed.length <
      2 ^ 64 + s.executed.length)
    (hunforged : Unforged crypto issued operators (calls.foldl (log crypto) s).executed)
    (hkeccak : CollisionFree crypto issued operators (calls.foldl (log crypto) s).executed) :
    Along (log crypto) (SingleUse crypto issued operators threshold) s calls ∧
      ((calls.foldl (log crypto) s).executed.map Entry.auth).Nodup := by
  induction calls generalizing s with
  | nil => exact ⟨trivial, h.distinct⟩
  | cons c calls ih =>
      rw [List.foldl_cons] at hroom hunforged hkeccak ⊢
      have hgrows := executed_prefix crypto calls (log crypto s c)
      rcases log_cases crypto s c with ⟨signed, st', hexec, hlog⟩ | ⟨hidle, hlog⟩
      · have hlength := hgrows.length_le
        have hmem : s.entry signed ∈ (calls.foldl (log crypto) (log crypto s c)).executed := by
          refine hgrows.subset ?_
          rw [hlog]
          simp
        rw [hlog] at hlength
        simp only [List.length_append, List.length_singleton] at hlength
        rw [← hlog] at hlength
        have hroom' : (governanceNonce s.storage).toNat + 1 < 2 ^ 64 := by omega
        have hnext := h.executes hexec hroom'
        rw [← hlog] at hnext
        have hrest := ih hnext (by
          rw [hlog] at hroom ⊢
          change (governanceNonce (bumpNonce st')).toNat + _ < _
          rw [hexec.nonce hroom']
          simp only [List.length_append, List.length_singleton]
          omega) hunforged hkeccak
        refine ⟨⟨⟨fun signed' hsigned _ => ?_, ?_⟩, hrest.1⟩, hrest.2⟩
        · obtain rfl : signed' = signed :=
            Option.some.inj (hsigned.symm.trans hexec.accepted.decoded)
          rw [hexec.storage_eq]
          exact h.authorised hexec hroom' hmem hunforged hkeccak
        · rintro (hnone | herror)
          · rw [hexec.accepted.decoded] at hnone
            cases hnone
          · rw [hexec.succeeds] at herror
            cases herror
      · rw [hlog] at hroom hunforged hkeccak ⊢
        have hrest := ih h hroom hunforged hkeccak
        refine ⟨?_, hrest.2⟩
        refine And.intro ⟨fun signed hsigned hok => ?_, fun _ => hidle.storage_eq⟩ ?_
        · rw [hidle.refused hok] at hsigned
          cases hsigned
        · rw [hlog]
          exact hrest.1

end Runs

/-- From any seeded governance on, every write of a run is authorised by a quorum of the
seeded operators for exactly its selector, arguments and nonce, and no authorisation is
used twice, as long as the nonce does not wrap around. -/
theorem writes_single_use (crypto : Crypto) (issued : Address → Authorisation → Prop)
    {st seeded : Storage} {operators : List Address} {threshold : UInt32}
    (hseed : seedGovernance st operators threshold = .ok seeded) (calls : List Call)
    (hroom : (governanceNonce seeded).toNat +
      (calls.foldl (log crypto) ⟨seeded, []⟩).executed.length < 2 ^ 64)
    (hunforged : Unforged crypto issued operators
      (calls.foldl (log crypto) ⟨seeded, []⟩).executed)
    (hkeccak : CollisionFree crypto issued operators
      (calls.foldl (log crypto) ⟨seeded, []⟩).executed) :
    Along (log crypto) (SingleUse crypto issued operators threshold) ⟨seeded, []⟩ calls ∧
      ((calls.foldl (log crypto) ⟨seeded, []⟩).executed.map Entry.auth).Nodup := by
  have hgovernance := (seedGovernance_eq_ok hseed).1
  have hstart : Advancing operators threshold ⟨seeded, []⟩ :=
    ⟨hgovernance, fun e he => absurd he List.not_mem_nil, List.nodup_nil⟩
  exact run_single_use hstart calls (by simpa using hroom) hunforged hkeccak

/-! ## The nonce wraps around -/

/-- The operator's public key. -/
def demoPub : List UInt8 := 4 :: List.replicate 64 0

/-- A hash that tells gateway updates apart, and signatures that name their digest. -/
def demoCrypto : Crypto where
  keccak256 m := bytesToHash (m.drop 24)
  ecrecover digest sig :=
    if sig.take 32 = hashBytes digest then some demoPub else none

/-- The chain of the registry. -/
def demoChain : Chain := ⟨5, ascii ['L', 'u', 'x'], true, 7⟩

/-- A registry of one chain under one operator. -/
def demoStorage : Storage :=
  seedOperators ((seedRegistry (fun _ => 0) [demoChain]).1.set (.gov 0) (govHeader 1 1)) [0]

def demoState (nonce : UInt64) : Storage := demoStorage.set .nonce (encodeU64 nonce)

/-- The gateway of chain 5 set to what it is. -/
def demoPayload : List UInt8 := uint32Bytes 5 ++ addressBytes 7

def demoAuth (nonce : UInt64) : Authorisation := ⟨selectorSetGateway, nonce, demoPayload⟩

def demoSig (nonce : UInt64) : List UInt8 :=
  hashBytes ((demoAuth nonce).digest demoCrypto) ++ List.replicate 33 0

def demoCall (nonce : UInt64) : Call where
  caller := 9
  input := selectorSetGateway :: (demoPayload ++ (1 :: demoSig nonce))
  gas := 25000
  readOnly := false

def demoIssued (_ : Address) (auth : Authorisation) : Prop :=
  auth.sel = selectorSetGateway ∧ auth.payload = demoPayload

def demoEntries (n : ℕ) : List Entry :=
  (List.range n).map fun i => ⟨demoAuth (UInt64.ofNat i), [demoSig (UInt64.ofNat i)]⟩

theorem demo_seeded : seedGovernance (seedRegistry (fun _ => 0) [demoChain]).1 [0] 1 =
    .ok demoStorage := rfl

theorem demoPayload_length : demoPayload.length = 24 := by simp [demoPayload]

theorem demoSig_length (nonce : UInt64) : (demoSig nonce).length = 65 := by simp [demoSig]

theorem demo_digest {auth : Authorisation} (h : demoIssued 0 auth) :
    hashBytes (auth.digest demoCrypto) = uint64Bytes auth.nonce ++ demoPayload := by
  have hdrop : auth.message.drop 24 = uint64Bytes auth.nonce ++ demoPayload := by
    rw [Authorisation.message, registrarMessage, h.2]
    rfl
  change hashBytes (bytesToHash (auth.message.drop 24)) = _
  rw [hdrop, hashBytes_bytesToHash (by simp [demoPayload_length])]

theorem demo_decoded (nonce : UInt64) :
    signedRequest (demoCall nonce).input =
      some ⟨.setGateway 5 7, demoPayload, [demoSig nonce]⟩ := by
  have hlength := demoSig_length nonce
  have hpayload := demoPayload_length
  have hdrop : (demoPayload ++ (1 :: demoSig nonce)).drop (argChainIDSize + argAddressSize) =
      1 :: demoSig nonce := List.drop_left' hpayload
  have htake : (demoPayload ++ (1 :: demoSig nonce)).take (argChainIDSize + argAddressSize) =
      demoPayload := List.take_left' hpayload
  have hsigs : decodeSigs (1 :: demoSig nonce) = .ok [demoSig nonce] := by
    simp [decodeSigs, argSigLen, hlength, slice_all]
  have hid : argChainID (demoPayload ++ (1 :: demoSig nonce)) = 5 := by
    rw [argChainID, slice_append_left (by rw [hpayload, argChainIDSize]; omega)]
    decide
  have hgw : argGateway (demoPayload ++ (1 :: demoSig nonce)) = 7 := by
    rw [argGateway, slice_append_left (by rw [hpayload, argChainIDSize, argAddressSize])]
    decide
  have hdecode : decodeSetGatewayArgs (demoPayload ++ (1 :: demoSig nonce)) =
      .ok ⟨(5, 7), demoPayload, [demoSig nonce]⟩ := by
    rw [decodeSetGatewayArgs, if_neg, decodeSigned, hdrop, htake, hsigs, hid, hgw]
    · rfl
    · rw [List.length_append, hpayload, argChainIDSize, argAddressSize]
      omega
  rw [demoCall, signedRequest, if_neg (by decide), if_neg (by decide), if_pos rfl, hdecode]
  rfl

theorem demo_nonce (nonce : UInt64) : governanceNonce (demoState nonce) = nonce := by
  have hlt := nonce.toNat_lt
  rw [governanceNonce, demoState, Store.set_self, wordSlice, hashBytes, encodeU64,
    BitVec.toNat_ofNat, Nat.mod_eq_of_lt (by omega)]
  exact (congrArg bytesToUint64 (slice_natToBytes 24 8 _)).trans (bytesToUint64_uint64Bytes _)

theorem demo_governance (nonce : UInt64) : loadGovernance (demoState nonce) = .ok ([0], 1) := by
  rw [← (seedGovernance_eq_ok demo_seeded).1]
  exact loadGovernance_congr fun offset => Store.set_of_ne _ _ (by simp)

theorem demo_rows (nonce : UInt64) : Rows (demoState nonce) [demoChain] := by
  have hseed : Rows (seedRegistry (fun _ => 0) [demoChain]).1 [demoChain] :=
    Rows.seed (by decide) (by simp) (by simp [demoChain, ascii])
  refine hseed.congr fun offset => ?_
  rw [demoState, Store.set_of_ne _ _ (by simp)]
  exact (seedGovernance_eq_ok demo_seeded).2 _ (by simp)

/-- Setting the gateway to what it is changes nothing but the nonce. -/
theorem demo_apply (nonce : UInt64) :
    setGateway (demoState nonce) 5 7 = .ok (demoState nonce, 0) := by
  have hrows := demo_rows nonce
  have hindex : indexOf (demoState nonce) 5 = some 0 := by
    rw [hrows.indexOf_eq]
    decide
  have hheader := hrows.words 0 (by simp) 0 (by decide)
  have hsame : patchRow (demoState nonce) 0 7 = demoState nonce := by
    have hpatch : patchGateway (demoState nonce (slotRow 0 0)) 7 =
        demoState nonce (slotRow 0 0) := by
      rw [show demoState nonce (slotRow 0 0) = packHeader demoChain from hheader,
        patchGateway_packHeader]
      rfl
    rw [patchRow, hpatch, Store.set_same]
  rw [setGateway, hindex]
  exact congrArg (fun st => Except.ok (st, (0 : UInt64))) hsame

theorem demo_ecrecover {digest : Word} {sig : List UInt8} (h : sig.take 32 = hashBytes digest) :
    demoCrypto.ecrecover digest sig = some demoPub := if_pos h

theorem demo_signer : signerAddress demoCrypto demoPub = 0 := by
  decide

theorem demo_executes (nonce : UInt64) :
    Executes demoCrypto (demoState nonce) (demoCall nonce)
      ⟨.setGateway 5 7, demoPayload, [demoSig nonce]⟩ (demoState nonce) := by
  have hdigest : registrarDigest demoCrypto selectorSetGateway nonce demoPayload =
      (demoAuth nonce).digest demoCrypto := rfl
  have hverified : verifyMultisig demoCrypto (demoState nonce) selectorSetGateway demoPayload
      [demoSig nonce] = .ok () := by
    rw [verifyMultisig_eq (demo_governance nonce), demo_nonce, hdigest]
    have htake : (demoSig nonce).take 32 = hashBytes ((demoAuth nonce).digest demoCrypto) :=
      List.take_left' (by simp)
    have hlength : ¬ (demoSig nonce).length ≠ argSigLen := not_not.mpr (demoSig_length nonce)
    rw [countSigners, if_neg hlength, demo_ecrecover htake]
    have hpub : ¬ demoPub.length ≠ 65 := by decide
    dsimp only
    rw [if_neg hpub, demo_signer, if_neg (by simp), if_neg (by simp), if_pos (by decide)]
  have hgas : 22000 + 1 * 3000 ≤ 25000 := by decide
  exact Accepted.executes ⟨demo_decoded nonce, rfl, hgas, hverified⟩ (demo_apply nonce)

theorem demo_log (nonce : UInt64) (executed : List Entry) :
    log demoCrypto ⟨demoState nonce, executed⟩ (demoCall nonce) =
      ⟨demoState (nonce + 1), executed ++ [⟨demoAuth nonce, [demoSig nonce]⟩]⟩ := by
  have hexec := demo_executes nonce
  have hbump : bumpNonce (demoState nonce) = demoState (nonce + 1) := by
    rw [bumpNonce, demo_nonce, demoState, Store.set_set, demoState]
  rw [log, hexec.storage_eq, demo_decoded, hbump]
  simp only [hexec.succeeds, if_true]
  rw [Journal.entry, authorisation, demo_nonce]
  rfl

theorem demo_run (n : ℕ) :
    (((List.range n).map fun i => demoCall (UInt64.ofNat i)).foldl (log demoCrypto)
      ⟨demoState 0, []⟩) = ⟨demoState (UInt64.ofNat n), demoEntries n⟩ := by
  induction n with
  | zero => rfl
  | succ n ih =>
      rw [List.range_succ, List.map_append, List.foldl_append, ih, List.map_singleton,
        List.foldl_cons, demo_log, List.foldl_nil, UInt64.ofNat_add, demoEntries, demoEntries,
        List.range_succ, List.map_append]
      rfl

theorem demo_entry {n : ℕ} {e : Entry} (he : e ∈ demoEntries n) :
    demoIssued 0 e.auth := by
  obtain ⟨i, -, rfl⟩ := List.mem_map.mp he
  exact ⟨rfl, rfl⟩

theorem demo_unforged (n : ℕ) : Unforged demoCrypto demoIssued [0] (demoEntries n) :=
  fun e he _ _ _ _ _ => ⟨e.auth, demo_entry he, rfl⟩

theorem demo_collisionFree (n : ℕ) : CollisionFree demoCrypto demoIssued [0] (demoEntries n) := by
  intro op _ auth hissued e he hdigest
  have hbytes := congrArg hashBytes hdigest
  rw [demo_digest hissued, demo_digest (demo_entry he)] at hbytes
  have hnonce := uint64Bytes_inj (List.append_cancel_right hbytes)
  rw [Authorisation.message, Authorisation.message, hnonce, hissued.1, hissued.2,
    (demo_entry he).1, (demo_entry he).2]

theorem demo_start : demoState 0 = demoStorage := Store.set_same demoStorage .nonce

/-- Two updates in a row need two authorisations. -/
theorem two_updates_single_use :
    Along (log demoCrypto) (SingleUse demoCrypto demoIssued [0] 1) ⟨demoStorage, []⟩
        ((List.range 2).map fun i => demoCall (UInt64.ofNat i)) ∧
      ((((List.range 2).map fun i => demoCall (UInt64.ofNat i)).foldl (log demoCrypto)
        ⟨demoStorage, []⟩).executed.map Entry.auth).Nodup := by
  have hrun := demo_run 2
  rw [demo_start] at hrun
  have hnonce := demo_nonce 0
  rw [demo_start] at hnonce
  refine writes_single_use demoCrypto demoIssued demo_seeded _ ?_ ?_ ?_
  · rw [hrun, hnonce]
    decide
  · rw [hrun]
    exact demo_unforged 2
  · rw [hrun]
    exact demo_collisionFree 2

/-- After `2 ^ 64` updates the first authorisation serves a second time. -/
theorem wrapped_nonce_reused :
    ¬ ∀ (crypto : Crypto) (issued : Address → Authorisation → Prop) (st seeded : Storage)
      (operators : List Address) (threshold : UInt32),
      seedGovernance st operators threshold = .ok seeded → ∀ calls,
      Unforged crypto issued operators (calls.foldl (log crypto) ⟨seeded, []⟩).executed →
      CollisionFree crypto issued operators (calls.foldl (log crypto) ⟨seeded, []⟩).executed →
      Along (log crypto) (SingleUse crypto issued operators threshold) ⟨seeded, []⟩ calls ∧
        ((calls.foldl (log crypto) ⟨seeded, []⟩).executed.map Entry.auth).Nodup := by
  intro h
  have hrepeat : ∀ n, 2 ^ 64 < n → False := by
    intro n hn
    have hrun := demo_run n
    rw [demo_start] at hrun
    have hnodup := (h demoCrypto demoIssued _ _ _ _ demo_seeded
      ((List.range n).map fun i => demoCall (UInt64.ofNat i)) (by rw [hrun]; exact demo_unforged n)
      (by rw [hrun]; exact demo_collisionFree n)).2
    rw [hrun, demoEntries, List.map_map] at hnodup
    have heq := List.inj_on_of_nodup_map hnodup (List.mem_range.mpr (by omega : 0 < n))
      (List.mem_range.mpr hn) rfl
    omega
  exact hrepeat (2 ^ 64 + 1) (Nat.lt_succ_self _)

end LuxPrecompile.Bridge
