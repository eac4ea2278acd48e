import LuxPrecompile.Bridge.Effects

/-!
# Governance

Verified signatures are those of distinct operators, and the operators and the
nonce are changed by their own writes only.
-/

namespace LuxPrecompile.Bridge

open Evm Support

/-! ## Signers -/

section Signatures

variable (crypto : Crypto)

/-- A signature over a digest that recovers to an address. -/
def Recovers (digest : Word) (sig : List UInt8) (op : Address) : Prop :=
  ∃ pub, crypto.ecrecover digest sig = some pub ∧ signerAddress crypto pub = op

/-- Distinct operators, at least the threshold, whose signatures over a digest are among
the ones given. -/
structure Quorum (operators : List Address) (threshold : UInt32) (digest : Word)
    (sigs : List (List UInt8)) (signers : List Address) : Prop where
  distinct : signers.Nodup
  operators : signers ⊆ operators
  enough : threshold.toNat ≤ signers.length
  signed : ∀ op ∈ signers, ∃ sig ∈ sigs, Recovers crypto digest sig op

variable {crypto}

/-- The verification loop succeeds with enough distinct signers. -/
theorem quorum_of_countSigners {operators : List Address} {threshold : UInt32} {digest : Word}
    {all : List (List UInt8)} {sigs : List (List UInt8)} {seen : List Address}
    (hsub : sigs ⊆ all) (hdistinct : seen.Nodup) (hoperators : seen ⊆ operators)
    (hseen : ∀ op ∈ seen, ∃ sig ∈ all, Recovers crypto digest sig op)
    (h : countSigners crypto operators threshold digest seen sigs = .ok ()) :
    ∃ signers, Quorum crypto operators threshold digest all signers := by
  induction sigs generalizing seen with
  | nil => cases h
  | cons sig sigs ih =>
      have hmem : sig ∈ all := hsub List.mem_cons_self
      have hrest : sigs ⊆ all := fun x hx => hsub (List.mem_cons_of_mem _ hx)
      rw [countSigners] at h
      obtain ⟨-, h⟩ := refuse_eq_ok.mp h
      cases hpub : crypto.ecrecover digest sig with
      | none =>
          rw [hpub] at h
          cases h
      | some pub =>
          rw [hpub] at h
          obtain ⟨-, h⟩ := refuse_eq_ok.mp h
          dsimp only at h
          by_cases hop : signerAddress crypto pub ∉ operators
          · rw [if_pos hop] at h
            exact ih hrest hdistinct hoperators hseen h
          · rw [if_neg hop] at h
            obtain ⟨hnew, h⟩ := refuse_eq_ok.mp h
            have hdistinct' : (signerAddress crypto pub :: seen).Nodup :=
              List.nodup_cons.mpr ⟨hnew, hdistinct⟩
            have hoperators' : signerAddress crypto pub :: seen ⊆ operators :=
              List.cons_subset.mpr ⟨not_not.mp hop, hoperators⟩
            have hseen' : ∀ op ∈ signerAddress crypto pub :: seen,
                ∃ sig ∈ all, Recovers crypto digest sig op := by
              intro op hmemop
              rcases List.mem_cons.mp hmemop with rfl | hmemop
              · exact ⟨sig, hmem, pub, hpub, rfl⟩
              · exact hseen op hmemop
            by_cases henough : threshold.toNat ≤ seen.length + 1
            · exact ⟨_, hdistinct', hoperators', henough, hseen'⟩
            · rw [if_neg henough] at h
              exact ih hrest hdistinct' hoperators' hseen' h

theorem verifyMultisig_eq {st : Storage} {operators : List Address} {threshold : UInt32}
    (hgov : loadGovernance st = .ok (operators, threshold)) (sel : UInt8)
    (payload : List UInt8) (sigs : List (List UInt8)) :
    verifyMultisig crypto st sel payload sigs =
      countSigners crypto operators threshold
        (registrarDigest crypto sel (governanceNonce st) payload) [] sigs := by
  rw [verifyMultisig, hgov]
  rfl

theorem quorum_of_verifyMultisig {st : Storage} {sel : UInt8} {payload : List UInt8}
    {sigs : List (List UInt8)} {operators : List Address} {threshold : UInt32}
    (hgov : loadGovernance st = .ok (operators, threshold))
    (h : verifyMultisig crypto st sel payload sigs = .ok ()) :
    ∃ signers, Quorum crypto operators threshold
      (registrarDigest crypto sel (governanceNonce st) payload) sigs signers := by
  rw [verifyMultisig_eq hgov] at h
  exact quorum_of_countSigners (fun _ hx => hx) List.nodup_nil (List.nil_subset _)
    (fun op hop => absurd hop (List.not_mem_nil)) h

end Signatures

/-! ## Governance -/

theorem loadGovernance_congr {st st' : Storage}
    (h : ∀ offset, st' (.gov offset) = st (.gov offset)) :
    loadGovernance st' = loadGovernance st := by
  simp only [loadGovernance, h]

theorem wordSlice_govHeader (operators : ℕ) (threshold : UInt32) :
    wordSlice (govHeader operators threshold) 24 28 = uint32Bytes (UInt32.ofNat operators) ∧
      wordSlice (govHeader operators threshold) 28 32 = uint32Bytes threshold := by
  rw [wordSlice, wordSlice, govHeader, hashBytes_bytesToHash (by simp)]
  constructor
  · rw [slice_append_right (by simp), slice_append_left (by simp)]
    simp [slice_all]
  · rw [slice_append_right (by simp), slice_append_right (by simp)]
    simp [slice_all]

/-- The operators a seed writes, and nothing else. -/
theorem seedOperators_apply (st : Storage) (operators : List Address)
    (hfew : operators.length ≤ maxOperators) :
    (∀ i (hi : i < operators.length),
      seedOperators st operators (.gov (UInt64.ofNat (i + 1))) = addressWord operators[i]) ∧
    (∀ slot, (∀ i < operators.length, slot ≠ .gov (UInt64.ofNat (i + 1))) →
      seedOperators st operators slot = st slot) := by
  rw [maxOperators] at hfew
  induction operators using List.reverseRecOn with
  | nil => exact ⟨fun i hi => absurd hi (by simp), fun _ _ => rfl⟩
  | append_singleton operators op ih =>
      rw [List.length_append, List.length_singleton] at hfew
      obtain ⟨hops, hother⟩ := ih (by omega)
      have hseed : seedOperators st (operators ++ [op]) =
          (seedOperators st operators).set (.gov (UInt64.ofNat (operators.length + 1)))
            (addressWord op) := by
        simp [seedOperators, List.zipIdx_append]
      have hlength : (operators ++ [op]).length = operators.length + 1 := by simp
      rw [hseed]
      constructor
      · intro i hi
        rw [hlength] at hi
        by_cases hlast : i = operators.length
        · subst hlast
          rw [Store.set_self, List.getElem_concat_length rfl]
        · have hne : Slot.gov (UInt64.ofNat (i + 1)) ≠
              .gov (UInt64.ofNat (operators.length + 1)) := by
            intro heq
            have := uint64_ofNat_inj (by omega) (by omega) (Slot.gov.inj heq)
            omega
          rw [Store.set_of_ne _ _ hne, hops i (by omega), List.getElem_append_left (by omega)]
      · intro slot hslot
        rw [Store.set_of_ne _ _ (hslot operators.length (by omega)),
          hother slot fun i hi => hslot i (by omega)]

/-- A seeded governance is loaded as it was seeded, and only governance is written. -/
theorem seedGovernance_eq_ok {st st' : Storage} {operators : List Address} {threshold : UInt32}
    (h : seedGovernance st operators threshold = .ok st') :
    loadGovernance st' = .ok (operators, threshold) ∧
      ∀ slot, (∀ offset, slot ≠ .gov offset) → st' slot = st slot := by
  obtain ⟨hthreshold, h⟩ := refuse_eq_ok.mp h
  obtain ⟨hfew, h⟩ := refuse_eq_ok.mp h
  obtain rfl := Except.ok.inj h
  obtain ⟨hpos, hreach⟩ := not_or.mp hthreshold
  have hfew' := Nat.not_lt.mp hfew
  obtain ⟨hops, hother⟩ := seedOperators_apply
    (st.set (.gov 0) (govHeader operators.length threshold)) operators hfew'
  rw [maxOperators] at hfew'
  have hpos' : 0 < threshold.toNat := by
    rw [Nat.pos_iff_ne_zero]
    exact fun hzero => hpos (UInt32.toNat_inj.mp hzero)
  refine ⟨?_, fun slot hslot => ?_⟩
  · have hheader : seedOperators (st.set (.gov 0) (govHeader operators.length threshold))
        operators (.gov 0) = govHeader operators.length threshold := by
      rw [hother _ fun i hi heq => ?_, Store.set_self]
      have := uint64_ofNat_inj (n := 0) (by omega) (by omega) (Slot.gov.inj heq)
      omega
    have hcount : (UInt32.ofNat operators.length).toNat = operators.length := by
      rw [UInt32.toNat_ofNat', Nat.mod_eq_of_lt (by omega)]
    have hnonzero : ¬ (UInt32.ofNat operators.length = 0 ∨ threshold = 0) := by
      rintro (hzero | hzero)
      · rw [hzero, UInt32.toNat_zero] at hcount
        omega
      · exact hpos hzero
    have hle : ¬ UInt32.ofNat operators.length < threshold := by
      rw [UInt32.lt_iff_toNat_lt, hcount]
      omega
    obtain ⟨hslice, hslice'⟩ := wordSlice_govHeader operators.length threshold
    have hloaded : ((List.range operators.length).map fun i => wordAddress
        (seedOperators (st.set (.gov 0) (govHeader operators.length threshold)) operators
          (.gov (UInt64.ofNat (i + 1))))) = operators := by
      apply List.ext_getElem
      · rw [List.length_map, List.length_range]
      · intro i hi hi'
        rw [List.getElem_map, List.getElem_range, hops i hi', wordAddress_addressWord]
    rw [loadGovernance, hheader, hslice, hslice', bytesToUint32_uint32Bytes,
      bytesToUint32_uint32Bytes, if_neg hnonzero, hcount, if_neg hfew, if_neg hle, hloaded]
  · rw [hother slot fun i _ => hslot _, Store.set_of_ne _ _ (hslot 0)]

/-! ## Writes leave governance and the nonce alone -/

/-- A write touches registry slots only. -/
theorem Request.apply_of_not_registry {st st' : Storage} {req : Request} {idx : UInt64}
    (h : req.apply st = .ok (st', idx)) {slot : Slot}
    (hslot : ∀ offset, slot ≠ .registry offset) : st' slot = st slot := by
  have hcount : slot ≠ slotCount := hslot 0
  have hrow : ∀ i k, slot ≠ slotRow i k := fun i k => hslot (1 + i * 3 + k)
  have hsetRow : ∀ (st : Storage) i header name, setRow st i header name slot = st slot := by
    intro st i header name
    rw [setRow, Store.set_of_ne _ _ (hrow i 1), Store.set_of_ne _ _ (hrow i 0)]
  cases req with
  | register chain =>
      rw [apply, registerChain] at h
      obtain ⟨-, hwritten⟩ := refuse_eq_ok.mp h
      obtain ⟨rfl, -⟩ := Prod.mk.inj (Except.ok.inj hwritten)
      rw [addRow, setCount, Store.set_of_ne _ _ hcount, hsetRow]
  | unregister id =>
      rw [apply, unregisterChain] at h
      cases hidx : indexOf st id with
      | none =>
          rw [hidx] at h
          cases h
      | some found =>
          rw [hidx] at h
          obtain ⟨rfl, -⟩ := Prod.mk.inj (Except.ok.inj h)
          rw [removeRow, setCount, Store.set_of_ne _ _ hcount, clearRow,
            Store.set_of_ne _ _ (hrow _ 2), Store.set_of_ne _ _ (hrow _ 1),
            Store.set_of_ne _ _ (hrow _ 0)]
          split_ifs
          · exact hsetRow _ _ _ _
          · rfl
  | setGateway id gw =>
      rw [apply, Bridge.setGateway] at h
      cases hidx : indexOf st id with
      | none =>
          rw [hidx] at h
          cases h
      | some found =>
          rw [hidx] at h
          obtain ⟨rfl, -⟩ := Prod.mk.inj (Except.ok.inj h)
          rw [patchRow, Store.set_of_ne _ _ (hrow found 0)]

theorem governanceNonce_bumpNonce (st : Storage) :
    governanceNonce (bumpNonce st) = governanceNonce st + 1 := by
  have hlt := (governanceNonce st + 1).toNat_lt
  rw [bumpNonce, governanceNonce, Store.set_self, wordSlice, hashBytes, encodeU64,
    BitVec.toNat_ofNat, Nat.mod_eq_of_lt (by omega)]
  exact (congrArg bytesToUint64 (slice_natToBytes 24 8 _)).trans (bytesToUint64_uint64Bytes _)

end LuxPrecompile.Bridge
