import LuxPrecompile.AivmBridge.Receipt
import LuxPrecompile.Evm.WordTrees
import LuxPrecompile.Support.Chunks

/-!
# Inclusion proofs of receipts

`aivmbridge/proof.go`: a receipt is included under a root by its position and the siblings on the
way up.  A leaf is the hash of 32 bytes and a parent the hash of 64, so no parent is a leaf, and
the position has no bits past the length of the path.
-/

namespace LuxPrecompile.AivmBridge

open Evm Support HashTrees Layout

def maxProofDepth : ℕ := 64

/-- `AInferenceProof`. -/
structure AInferenceProof where
  receiptRoot : Word
  path : List Word
  index : UInt64
deriving DecidableEq

section Verify

variable (keccak256 : List UInt8 → Word)

def hashPair (left right : Word) : Word := keccak256 (hashBytes left ++ hashBytes right)

def leafHash (receiptHash : Word) : Word := keccak256 (hashBytes receiptHash)

/-- The loop of `VerifyMerkle`. -/
def verifyLoop : Word → UInt64 → List Word → Word
  | node, _, [] => node
  | node, idx, sib :: path =>
      verifyLoop
        (if idx &&& 1 = 0 then hashPair keccak256 node sib else hashPair keccak256 sib node)
        (idx >>> 1) path

def verifyMerkle (leaf : Word) (p : AInferenceProof) : Bool :=
  let depth := p.path.length
  if maxProofDepth < depth then false
  else if depth < 64 ∧ (1 : UInt64) <<< UInt64.ofNat depth ≤ p.index then false
  else decide (verifyLoop keccak256 leaf p.index p.path = p.receiptRoot)

end Verify

def decodeProof (b : List UInt8) : Except BridgeError AInferenceProof :=
  let headLen := 32 + 8 + 2
  if b.length < headLen then .error .proofDecode
  else
    let pathLen := (bytesToUint16 (slice b 40 42)).toNat
    if maxProofDepth < pathLen then .error .proofDecode
    else if b.length ≠ headLen + pathLen * 32 then .error .proofDecode
    else
      .ok { receiptRoot := bytesToHash (slice b 0 32)
            index := bytesToUint64 (slice b 32 40)
            path := (List.range pathLen).map fun i =>
              bytesToHash (slice b (headLen + i * 32) (headLen + i * 32 + 32)) }

/-! ## The frame of a proof -/

/-- The bytes of a proof on the wire. -/
def proofFrame (p : AInferenceProof) : List UInt8 :=
  hashBytes p.receiptRoot ++ (uint64Bytes p.index ++
    (uint16Bytes (UInt16.ofNat p.path.length) ++ p.path.flatMap hashBytes))

/-- A decoded proof is never too deep, and its bytes are its frame. -/
theorem decodeProof_ok {b : List UInt8} {p : AInferenceProof} (h : decodeProof b = .ok p) :
    p.path.length ≤ maxProofDepth ∧ proofFrame p = b := by
  simp only [decodeProof] at h
  split_ifs at h with hhead hdepth hlen
  rw [ne_eq, not_not] at hlen
  obtain rfl := Except.ok.inj h
  have hroot : (slice b 0 32).length = 32 := by
    rw [slice, List.length_take, List.length_drop]
    omega
  have hindex : (slice b 32 40).length = 8 := by
    rw [slice, List.length_take, List.length_drop]
    omega
  have hcount : (slice b 40 42).length = 2 := by
    rw [slice, List.length_take, List.length_drop]
    omega
  generalize hn : (bytesToUint16 (slice b 40 42)).toNat = n at hdepth hlen
  have hpath : ((List.range n).map fun i =>
      bytesToHash (slice b (32 + 8 + 2 + i * 32) (32 + 8 + 2 + i * 32 + 32))).flatMap hashBytes =
      b.drop 42 := by
    rw [List.flatMap_map]
    have hchunks := flatMap_range_chunk (b.drop 42) 32 n
    rw [List.take_of_length_le (by rw [List.length_drop]; omega)] at hchunks
    refine Eq.trans (List.flatMap_congr ?_) hchunks
    intro i hi
    have hlt := List.mem_range.mp hi
    have hslice : slice b (32 + 8 + 2 + i * 32) (32 + 8 + 2 + i * 32 + 32) =
        ((b.drop 42).drop (32 * i)).take 32 := by
      rw [slice, List.drop_drop, Nat.add_sub_cancel_left]
      congr 2
      omega
    rw [hslice, hashBytes_bytesToHash]
    rw [List.length_take, List.length_drop, List.length_drop]
    omega
  refine ⟨by simpa using hdepth, ?_⟩
  rw [proofFrame, hpath, hashBytes_bytesToHash hroot, uint64Bytes_bytesToUint64 hindex,
    List.length_map, List.length_range, ← hn, UInt16.ofNat_toNat,
    uint16Bytes_bytesToUint16 hcount]
  have hpieces := flatten_cut (show b.length = [32, 8, 2, b.length - 42].sum by simp; omega)
  simp only [cut, List.drop_drop, Nat.reduceAdd, List.flatten_cons, List.flatten_nil,
    List.append_nil] at hpieces
  have hrest : (b.drop 42).take (b.length - 42) = b.drop 42 :=
    List.take_of_length_le List.length_drop.le
  rw [hrest] at hpieces
  exact hpieces

/-- Words are read back from their bytes in a row. -/
theorem flatMap_hashBytes_inj {path path' : List Word}
    (h : path.flatMap hashBytes = path'.flatMap hashBytes) : path = path' := by
  induction path generalizing path' with
  | nil =>
      have hlength := congrArg List.length h
      rw [length_flatMap_of_length hashBytes_length, length_flatMap_of_length hashBytes_length,
        List.length_nil] at hlength
      exact (List.length_eq_zero_iff.mp (by omega)).symm
  | cons w path ih =>
      rcases path' with _ | ⟨w', path'⟩
      · have hlength := congrArg List.length h
        rw [length_flatMap_of_length hashBytes_length, length_flatMap_of_length hashBytes_length,
          List.length_cons, List.length_nil] at hlength
        omega
      · rw [List.flatMap_cons, List.flatMap_cons] at h
        obtain ⟨hword, hrest⟩ :=
          List.append_inj h (by rw [hashBytes_length, hashBytes_length])
        rw [hashBytes_inj hword, ih hrest]

theorem proofFrame_inj {p p' : AInferenceProof} (h : proofFrame p = proofFrame p') : p = p' := by
  obtain ⟨hroot, hrest⟩ := List.append_inj h (by rw [hashBytes_length, hashBytes_length])
  obtain ⟨hindex, hrest⟩ := List.append_inj hrest (by rw [uint64Bytes_length, uint64Bytes_length])
  obtain ⟨-, hpath⟩ := List.append_inj hrest (by rw [uint16Bytes_length, uint16Bytes_length])
  obtain ⟨root, path, index⟩ := p
  obtain ⟨root', path', index'⟩ := p'
  rw [AInferenceProof.mk.injEq]
  exact ⟨hashBytes_inj hroot, flatMap_hashBytes_inj hpath, uint64Bytes_inj hindex⟩

theorem proofFrame_length (p : AInferenceProof) :
    (proofFrame p).length = 42 + 32 * p.path.length := by
  rw [proofFrame, List.length_append, List.length_append, List.length_append, hashBytes_length,
    uint64Bytes_length, uint16Bytes_length, length_flatMap_of_length hashBytes_length]
  omega

/-- A proof that is not too deep is decoded from its frame. -/
theorem decodeProof_proofFrame {p : AInferenceProof} (h : p.path.length ≤ maxProofDepth) :
    decodeProof (proofFrame p) = .ok p := by
  have hmax : maxProofDepth = 64 := rfl
  have hlength := proofFrame_length p
  have hcount : slice (proofFrame p) 40 42 = uint16Bytes (UInt16.ofNat p.path.length) := by
    have hdrop : (proofFrame p).drop 40 =
        uint16Bytes (UInt16.ofNat p.path.length) ++ p.path.flatMap hashBytes := by
      rw [proofFrame, ← List.append_assoc]
      exact List.drop_left' (by simp)
    rw [slice, hdrop]
    exact List.take_left' (uint16Bytes_length _)
  have hpath : (bytesToUint16 (slice (proofFrame p) 40 42)).toNat = p.path.length := by
    rw [hcount, bytesToUint16_uint16Bytes, UInt16.toNat_ofNat', Nat.mod_eq_of_lt (by omega)]
  obtain ⟨p', hdecode⟩ : ∃ p', decodeProof (proofFrame p) = .ok p' := by
    simp only [decodeProof]
    rw [hpath, if_neg (by omega), if_neg (by omega), if_neg (by omega)]
    exact ⟨_, rfl⟩
  rw [hdecode, proofFrame_inj (decodeProof_ok hdecode).2]

/-! ## Verification as a climb -/

/-- The leaves of the tree over a list of receipts. -/
def receiptLeaves (keccak256 : List UInt8 → Word) (receipts : List AInferenceReceipt) :
    List Word :=
  receipts.map fun r => leafHash keccak256 (receiptHash keccak256 r)

theorem uint64_and_one_eq_zero_iff (x : UInt64) : x &&& 1 = 0 ↔ x.toNat % 2 = 0 := by
  rw [← UInt64.toNat_inj, UInt64.toNat_and]
  simp [Nat.and_one_is_mod]

section Climb

variable {keccak256 : List UInt8 → Word}

theorem verifyLoop_eq (node : Word) (idx : UInt64) (path : List Word) :
    verifyLoop keccak256 node idx path =
      climb (wordNode keccak256) path idx.toNat node := by
  induction path generalizing node idx with
  | nil => rfl
  | cons sib path ih =>
      have hhalf : (idx >>> 1).toNat = idx.toNat / 2 := by
        simp [UInt64.toNat_shiftRight, Nat.shiftRight_eq_div_pow]
      rw [verifyLoop, ih, climb, hhalf, climbStep]
      simp only [uint64_and_one_eq_zero_iff]
      rfl

theorem verifyMerkle_iff (leaf : Word) (p : AInferenceProof) :
    verifyMerkle keccak256 leaf p = true ↔
      p.path.length ≤ maxProofDepth ∧ p.index.toNat < 2 ^ p.path.length ∧
        climb (wordNode keccak256) p.path p.index.toNat leaf = p.receiptRoot := by
  have hmax : maxProofDepth = 64 := rfl
  simp only [verifyMerkle, verifyLoop_eq]
  by_cases hdeep : maxProofDepth < p.path.length
  · rw [if_pos hdeep]
    constructor
    · intro h
      cases h
    · intro h
      omega
  · rw [if_neg hdeep]
    have hshift : p.path.length < 64 →
        ((1 : UInt64) <<< UInt64.ofNat p.path.length).toNat = 2 ^ p.path.length := by
      intro hlt
      have hpow : 2 ^ p.path.length < 2 ^ 64 := Nat.pow_lt_pow_right (by decide) hlt
      rw [UInt64.toNat_shiftLeft, uint64_toNat_ofNat (by omega), Nat.mod_eq_of_lt hlt,
        Nat.shiftLeft_eq, UInt64.toNat_one, Nat.one_mul, Nat.mod_eq_of_lt hpow]
    have hwide : (p.path.length < 64 ∧ (1 : UInt64) <<< UInt64.ofNat p.path.length ≤ p.index) ↔
        ¬ p.index.toNat < 2 ^ p.path.length := by
      constructor
      · rintro ⟨hlt, hle⟩
        rw [UInt64.le_iff_toNat_le, hshift hlt] at hle
        omega
      · intro hge
        have hindex := p.index.toNat_lt
        have hlt : p.path.length < 64 := by
          by_contra hfull
          rw [show p.path.length = 64 by omega] at hge
          omega
        refine ⟨hlt, ?_⟩
        rw [UInt64.le_iff_toNat_le, hshift hlt]
        omega
    by_cases hbits : p.index.toNat < 2 ^ p.path.length
    · rw [if_neg (by rw [hwide, not_not]; exact hbits), decide_eq_true_iff]
      constructor
      · intro h
        exact ⟨by omega, hbits, h⟩
      · intro h
        exact h.2.2
    · rw [if_pos (hwide.mpr hbits)]
      constructor
      · intro h
        cases h
      · intro h
        exact absurd h.2.1 hbits

/-! ## Exactness -/

/-- The strings hashed in a tree over receipts and along a proof for a receipt. -/
def merklePreimages (keccak256 : List UInt8 → Word) (depth : ℕ)
    (receipts : List AInferenceReceipt) (r : AInferenceReceipt) (p : AInferenceProof) :
    List (List UInt8) :=
  (r :: receipts).map (fun s => hashBytes (receiptHash keccak256 s)) ++
    pairPreimages (treePairs (wordNode keccak256) depth (receiptLeaves keccak256 receipts) ++
      climbPairs (wordNode keccak256) p.path p.index.toNat
        (leafHash keccak256 (receiptHash keccak256 r)))

variable {depth : ℕ} {receipts : List AInferenceReceipt} {r : AInferenceReceipt}
  {p : AInferenceProof}

/-- The leaf of a receipt is no parent. -/
theorem node_ne_leaf
    (hfree : Set.InjOn keccak256 {bs | bs ∈ merklePreimages keccak256 depth receipts r p})
    {q : Word × Word}
    (hq : q ∈ treePairs (wordNode keccak256) depth (receiptLeaves keccak256 receipts) ++
      climbPairs (wordNode keccak256) p.path p.index.toNat
        (leafHash keccak256 (receiptHash keccak256 r)))
    {s : AInferenceReceipt} (hs : s ∈ r :: receipts) :
    wordNode keccak256 q.1 q.2 ≠ leafHash keccak256 (receiptHash keccak256 s) := by
  intro heq
  have hbytes := hfree (List.mem_append_right _ (List.mem_map_of_mem hq))
    (List.mem_append_left _ (List.mem_map_of_mem hs)) heq
  have hlen := congrArg List.length hbytes
  rw [pairBytes_length, hashBytes_length] at hlen
  omega

/-- A proof of a receipt is accepted against the root of a tree of receipts exactly when the tree
has the receipt's hash at the position and the path is the one of that position. -/
theorem verifyMerkle_root_iff (hlen : receipts.length = 2 ^ depth)
    (hroot : levelsUp (wordNode keccak256) depth (receiptLeaves keccak256 receipts) =
      [p.receiptRoot])
    (hfree : Set.InjOn keccak256 {bs | bs ∈ merklePreimages keccak256 depth receipts r p}) :
    verifyMerkle keccak256 (leafHash keccak256 (receiptHash keccak256 r)) p = true ↔
      depth ≤ maxProofDepth ∧
        (receipts.map (receiptHash keccak256))[p.index.toNat]? =
          some (receiptHash keccak256 r) ∧
        p.path = siblings (wordNode keccak256) depth (receiptLeaves keccak256 receipts)
          p.index.toNat := by
  have hleaves : (receiptLeaves keccak256 receipts).length = 2 ^ depth := by
    rw [receiptLeaves, List.length_map, hlen]
  have hnodes : CollisionFree (wordNode keccak256)
      (treePairs (wordNode keccak256) depth (receiptLeaves keccak256 receipts) ++
        climbPairs (wordNode keccak256) p.path p.index.toNat
          (leafHash keccak256 (receiptHash keccak256 r))) :=
    collisionFree_wordNode hfree fun bs hbs => List.mem_append_right _ hbs
  rw [verifyMerkle_iff]
  constructor
  · rintro ⟨hdepth, hindex, hclimb⟩
    rw [← hclimb] at hroot
    have hpath : p.path.length = depth := by
      apply climb_length_eq hleaves hindex hnodes _ hroot
      intro q hq
      refine ⟨node_ne_leaf hfree hq List.mem_cons_self, fun hmem => ?_⟩
      obtain ⟨s, hs, heq⟩ := List.mem_map.mp hmem
      exact node_ne_leaf hfree hq (List.mem_cons_of_mem _ hs) heq.symm
    rw [hpath] at hdepth hindex
    obtain ⟨hat, hsiblings⟩ := climb_eq_root hleaves hpath hindex hnodes hroot
    refine ⟨hdepth, ?_, hsiblings⟩
    rw [receiptLeaves, List.getElem?_map, Option.map_eq_some_iff] at hat
    obtain ⟨s, hs, heq⟩ := hat
    have hbytes := hfree
      (List.mem_append_left _ (List.mem_map_of_mem
        (List.mem_cons_of_mem _ (List.mem_of_getElem? hs))))
      (List.mem_append_left _ (List.mem_map_of_mem List.mem_cons_self)) heq
    rw [List.getElem?_map, hs, Option.map_some, hashBytes_inj hbytes]
  · rintro ⟨hdepth, hat, hsiblings⟩
    rw [List.getElem?_map, Option.map_eq_some_iff] at hat
    obtain ⟨s, hs, heq⟩ := hat
    have hindex : p.index.toNat < 2 ^ depth := by
      rw [← hlen]
      exact (List.getElem?_eq_some_iff.mp hs).1
    have hleaf : (receiptLeaves keccak256 receipts)[p.index.toNat]? =
        some (leafHash keccak256 (receiptHash keccak256 r)) := by
      rw [receiptLeaves, List.getElem?_map, hs, Option.map_some, heq]
    have hpath : p.path.length = depth := by
      rw [hsiblings]
      exact siblings_length _ hleaves hindex
    have hclimb := climb_siblings (wordNode keccak256) hleaves hleaf
    rw [hroot, ← hsiblings] at hclimb
    rw [hpath]
    exact ⟨hdepth, hindex, (List.singleton_inj.mp hclimb).symm⟩

end Climb

/-- Exactness of inclusion proofs and one spelling of receipts. -/
theorem receipt_proofs_exact {keccak256 : List UInt8 → Word} {depth : ℕ}
    {receipts : List AInferenceReceipt} {r : AInferenceReceipt} {p : AInferenceProof}
    (hlen : receipts.length = 2 ^ depth)
    (hroot : levelsUp (wordNode keccak256) depth (receiptLeaves keccak256 receipts) =
      [p.receiptRoot])
    (hfree : Set.InjOn keccak256 {bs | bs ∈ merklePreimages keccak256 depth receipts r p}) :
    (verifyMerkle keccak256 (leafHash keccak256 (receiptHash keccak256 r)) p = true ↔
      depth ≤ maxProofDepth ∧
        (receipts.map (receiptHash keccak256))[p.index.toNat]? =
          some (receiptHash keccak256 r) ∧
        p.path = siblings (wordNode keccak256) depth (receiptLeaves keccak256 receipts)
          p.index.toNat) ∧
    (p.path.length ≠ depth →
      verifyMerkle keccak256 (leafHash keccak256 (receiptHash keccak256 r)) p = false) ∧
    (∀ leaf q, 2 ^ q.path.length ≤ q.index.toNat → verifyMerkle keccak256 leaf q = false) ∧
    (∀ s : AInferenceReceipt, s.version = receiptVersion →
      decodeReceipt (encodeReceipt s) = .ok s) ∧
    (∀ s : AInferenceReceipt, s.version ≠ receiptVersion →
      decodeReceipt (encodeReceipt s) = .error .receiptDecode) ∧
    (∀ b s, decodeReceipt b = .ok s → encodeReceipt s = b) := by
  have hexact := verifyMerkle_root_iff hlen hroot hfree
  refine ⟨hexact, fun hpath => ?_, fun leaf q hwide => ?_, fun s hversion => ?_,
    fun s hversion => ?_, fun b s hb => encodeReceipt_decodeReceipt hb⟩
  · rw [← Bool.not_eq_true, hexact]
    rintro ⟨-, hat, hsiblings⟩
    have hindex := (List.getElem?_eq_some_iff.mp hat).1
    rw [List.length_map, hlen] at hindex
    apply hpath
    rw [hsiblings]
    apply siblings_length _ _ hindex
    rw [receiptLeaves, List.length_map, hlen]
  · rw [← Bool.not_eq_true, verifyMerkle_iff]
    rintro ⟨-, hindex, -⟩
    omega
  · rw [decodeReceipt_encodeReceipt, if_pos hversion]
  · rw [decodeReceipt_encodeReceipt, if_neg hversion]

/-! ## A tree of two receipts -/

/-- A completed receipt of an intent. -/
def sampleReceipt (version : UInt16) (intentID : Word) : AInferenceReceipt where
  version := version
  intentID := intentID
  taskID := 2
  cChainID := 3
  aChainID := 4
  requester := 5
  modelSpecHash := 6
  promptHash := 7
  canonicalOutputHash := 8
  status := 2
  n := 3
  threshold := 2
  winnersRoot := 9
  operatorsRoot := 10
  feePaid := 11
  settledAtHeight := 12

/-- The root over the receipts of the intents 0 and 1. -/
def sampleRoot : Word := 0xe0911e2fb5536048437b6cb839aa4567d37419f548916cd97810c89393445a12

/-- Keccak on the strings hashed for them. -/
def sampleKeccak (bs : List UInt8) : Word :=
  let hash0 : Word := 0x379d50d4dda85c06bbf49bbfb25c7488efbac44d0654bb6cc7c3dfb2677a99aa
  let hash1 : Word := 0xc92054bacb24f5301ff99508eaa949f6e5135bffb941f7bfa80534a1853c40b1
  let leaf0 : Word := 0x99535f7578881b1aa9f0370948f6d65a587ee1696af7cc82d0ab313b2f3b5d30
  let leaf1 : Word := 0x0f7de31d565bec33f70b6ac9c7d8826360f6d19c0f80f135248e5153a53bb802
  if bs = domainReceipt ++ encodeReceipt (sampleReceipt 1 0) then hash0
  else if bs = domainReceipt ++ encodeReceipt (sampleReceipt 1 1) then hash1
  else if bs = hashBytes hash0 then leaf0
  else if bs = hashBytes hash1 then leaf1
  else if bs = pairBytes (leaf0, leaf1) then sampleRoot
  else 0

/-- The proof of the second receipt. -/
def sampleProof : AInferenceProof :=
  ⟨sampleRoot, [0x99535f7578881b1aa9f0370948f6d65a587ee1696af7cc82d0ab313b2f3b5d30], 1⟩

theorem receipt_proofs_exact_sample :
    verifyMerkle sampleKeccak
      (leafHash sampleKeccak (receiptHash sampleKeccak (sampleReceipt 1 1))) sampleProof =
        true := by
  have hall : ∀ a ∈ merklePreimages sampleKeccak 1 [sampleReceipt 1 0, sampleReceipt 1 1]
        (sampleReceipt 1 1) sampleProof,
      ∀ b ∈ merklePreimages sampleKeccak 1 [sampleReceipt 1 0, sampleReceipt 1 1]
        (sampleReceipt 1 1) sampleProof,
      sampleKeccak a = sampleKeccak b → a = b := by
    decide +kernel
  have hroot : levelsUp (wordNode sampleKeccak) 1
      (receiptLeaves sampleKeccak [sampleReceipt 1 0, sampleReceipt 1 1]) =
        [sampleProof.receiptRoot] := by
    decide +kernel
  exact (receipt_proofs_exact rfl hroot fun a ha b hb => hall a ha b hb).1.mpr
    ⟨by decide, by decide +kernel, by decide +kernel⟩

/-- A receipt of another version is not decoded, and the honest proof in a tree of depth 65 is
not accepted. -/
theorem receipt_proofs_not_exact :
    decodeReceipt (encodeReceipt (sampleReceipt 0 0)) = .error .receiptDecode ∧
      ∃ (receipts : List AInferenceReceipt) (p : AInferenceProof),
        receipts.length = 2 ^ 65 ∧
        levelsUp (wordNode sampleKeccak) 65 (receiptLeaves sampleKeccak receipts) =
          [p.receiptRoot] ∧
        receipts[p.index.toNat]? = some (sampleReceipt 1 0) ∧
        p.path = siblings (wordNode sampleKeccak) 65 (receiptLeaves sampleKeccak receipts)
          p.index.toNat ∧
        verifyMerkle sampleKeccak
          (leafHash sampleKeccak (receiptHash sampleKeccak (sampleReceipt 1 0))) p = false := by
  refine ⟨?_, ?_⟩
  · rw [decodeReceipt_encodeReceipt, if_neg (by decide)]
  · generalize hreceipts : List.replicate (2 ^ 65) (sampleReceipt 1 0) = receipts
    have hlen : receipts.length = 2 ^ 65 := by rw [← hreceipts, List.length_replicate]
    have hleaves : (receiptLeaves sampleKeccak receipts).length = 2 ^ 65 := by
      rw [receiptLeaves, List.length_map, hlen]
    obtain ⟨root, hroot⟩ := exists_root (wordNode sampleKeccak) hleaves
    refine ⟨receipts,
      ⟨root, siblings (wordNode sampleKeccak) 65 (receiptLeaves sampleKeccak receipts) 0, 0⟩,
      hlen, hroot, ?_, rfl, ?_⟩
    · rw [← hreceipts]
      exact List.getElem?_replicate_of_lt (by positivity)
    · rw [← Bool.not_eq_true, verifyMerkle_iff]
      rintro ⟨hdepth, -, -⟩
      have hpath := siblings_length (wordNode sampleKeccak) hleaves (show 0 < 2 ^ 65 by positivity)
      simp only [hpath, maxProofDepth] at hdepth
      omega

end LuxPrecompile.AivmBridge
