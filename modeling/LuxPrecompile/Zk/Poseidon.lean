import Mathlib.Data.Nat.Log
import LuxPrecompile.Evm.Bytes
import LuxPrecompile.Support.HashTrees
import LuxPrecompile.Support.Runs

/-!
# Poseidon2 hashes and Merkle proofs

`zk/poseidon.go` on its pure Go path.  Every 32-byte word is reduced into the scalar field before
it is compressed, so what a hash binds are residues: two words of one residue hash alike.  The
compression of two field elements is a parameter, which the hasher of `gnark-crypto` chains from
zero.  A result is kept in a cache under the whole input, which changes no result.
-/

namespace LuxPrecompile.Zk.Poseidon

open Evm Support HashTrees

/-- The errors of `zk/poseidon.go`, and a Go panic. -/
inductive PoseidonError where
  | invalidInputLength
  | tooManyInputs
  | emptyLeaves
  | invalidIndex
  | lengthMismatch
  | panic
deriving DecidableEq, Repr

/-- The order of the scalar field. -/
def fieldModulus : ℕ :=
  21888242871839275222246405745257275088548364400416034343698204186575808495617

instance : NeZero fieldModulus := ⟨by decide⟩

/-- `fr.Element`. -/
abbrev Element := Fin fieldModulus

def setBytes (w : Word) : Element := Fin.ofNat fieldModulus w.toNat

/-- `fr.Element.Bytes`. -/
def elementBytes (x : Element) : Word := BitVec.ofNat 256 x

@[simp]
theorem setBytes_elementBytes (x : Element) : setBytes (elementBytes x) = x := by
  have hmod : fieldModulus < 2 ^ 256 := by decide
  apply Fin.ext
  rw [setBytes, elementBytes, Fin.ofNat_eq_cast, Fin.val_natCast, BitVec.toNat_ofNat,
    Nat.mod_eq_of_lt (x.isLt.trans hmod), Nat.mod_eq_of_lt x.isLt]

theorem elementBytes_inj {x y : Element} (h : elementBytes x = elementBytes y) : x = y := by
  rw [← setBytes_elementBytes x, h, setBytes_elementBytes]

/-- The field elements of an input. -/
def elements (input : List UInt8) : List Element :=
  (List.range (input.length / 32)).map fun i =>
    setBytes (bytesToHash (slice input (i * 32) ((i + 1) * 32)))

/-- The power of two that the loops of the Merkle functions end with. -/
def doubleTo (len : ℕ) : ℕ → ℕ → ℕ
  | 0, n => n
  | rounds + 1, n => if n < len then doubleTo len rounds (n * 2) else n

/-- The leaves padded with zeros. -/
def padZero (leaves : List Word) : List Word :=
  leaves ++ List.replicate (doubleTo leaves.length leaves.length 1 - leaves.length) 0

/-- The input of `NoteCommitment`: `big.Int.Bytes` has the magnitude of the amount. -/
def noteInput (amount : ℤ) (assetId : Word) (owner : Address) (blindingFactor : Word) :
    List UInt8 :=
  leftPadBytes (bigBytes amount.natAbs) 32 ++ (hashBytes assetId ++
    ((List.replicate 12 0 ++ addressBytes owner) ++ hashBytes blindingFactor))

section Hasher

variable (compress : Element → Element → Element)

/-- The digest of an input: the state of the hasher after its elements. -/
def digest (input : List UInt8) : Word := elementBytes ((elements input).foldl compress 0)

/-- `Poseidon2Hasher`: its cache holds digests under whole inputs. -/
structure Poseidon2Hasher where
  cache : List (List UInt8 × Word)
  cacheMax : ℕ
  sound : ∀ entry ∈ cache, entry.2 = digest compress entry.1

def newPoseidon2Hasher : Poseidon2Hasher compress where
  cache := []
  cacheMax := 10000
  sound _ h := absurd h List.not_mem_nil

section Cache

variable {compress}

/-- A hasher that keeps one more digest. -/
def Poseidon2Hasher.insert (p : Poseidon2Hasher compress) (input : List UInt8) :
    Poseidon2Hasher compress where
  cache := (input, digest compress input) :: p.cache
  cacheMax := p.cacheMax
  sound := by
    rintro entry (_ | ⟨_, hmem⟩)
    · rfl
    · exact p.sound entry hmem

/-- `Hash` with its cache. -/
def Poseidon2Hasher.hash (p : Poseidon2Hasher compress) (input : List UInt8) :
    Except PoseidonError Word × Poseidon2Hasher compress :=
  if input.length = 0 ∨ input.length % 32 ≠ 0 then (.error .invalidInputLength, p)
  else if 16 < input.length / 32 then (.error .tooManyInputs, p)
  else
    match p.cache.find? fun entry => entry.1 = input with
    | some entry => (.ok entry.2, p)
    | none =>
        (.ok (digest compress input), if p.cache.length < p.cacheMax then p.insert input else p)

end Cache

/-- `Hash` on a new hasher. -/
def hash (input : List UInt8) : Except PoseidonError Word :=
  ((newPoseidon2Hasher compress).hash input).1

theorem hash_eq (input : List UInt8) :
    hash compress input =
      if input.length = 0 ∨ input.length % 32 ≠ 0 then .error .invalidInputLength
      else if 16 < input.length / 32 then .error .tooManyInputs
      else .ok (digest compress input) := by
  simp only [hash, Poseidon2Hasher.hash, newPoseidon2Hasher, List.find?_nil]
  by_cases hlen : input.length = 0 ∨ input.length % 32 ≠ 0
  · rw [if_pos hlen, if_pos hlen]
  · rw [if_neg hlen, if_neg hlen, apply_ite Prod.fst]

def hashPair (left right : Word) : Except PoseidonError Word :=
  hash compress (hashBytes left ++ hashBytes right)

/-- `NoteCommitment`: an amount of more than 32 bytes is a panic. -/
def noteCommitment (amount : ℤ) (assetId : Word) (owner : Address) (blindingFactor : Word) :
    Except PoseidonError Word :=
  if 32 < (bigBytes amount.natAbs).length then .error .panic
  else hash compress (noteInput amount assetId owner blindingFactor)

/-! ## Merkle trees -/

/-- The next level of the tree. -/
def hashLevel : List (Word × Word) → Except PoseidonError (List Word)
  | [] => .ok []
  | (left, right) :: rest => do
      let parent ← hashPair compress left right
      let parents ← hashLevel rest
      .ok (parent :: parents)

/-- The loop of `MerkleRoot`. -/
def rootLoop : ℕ → List Word → Except PoseidonError (List Word)
  | 0, current => .ok current
  | rounds + 1, current =>
      if 1 < current.length then do
        let next ← hashLevel compress (neighbours current)
        rootLoop rounds next
      else .ok current

def merkleRoot (leaves : List Word) : Except PoseidonError Word :=
  if leaves.length = 0 then .error .emptyLeaves
  else do
    let top ← rootLoop compress leaves.length (padZero leaves)
    .ok (top.headD 0)

/-- The loop of `MerkleProof`. -/
def proofLoop : ℕ → List Word → ℕ → Except PoseidonError (List Word × List Bool)
  | 0, _, _ => .ok ([], [])
  | rounds + 1, current, idx =>
      if 1 < current.length then
        match current[idx ^^^ 1]? with
        | none => .error .panic
        | some sibling => do
            let next ← hashLevel compress (neighbours current)
            let rest ← proofLoop rounds next (idx / 2)
            .ok (sibling :: rest.1, decide (idx % 2 = 0) :: rest.2)
      else .ok ([], [])

def merkleProof (leaves : List Word) (index : ℕ) :
    Except PoseidonError (List Word × List Bool) :=
  if leaves.length = 0 ∨ leaves.length ≤ index then .error .invalidIndex
  else proofLoop compress leaves.length (padZero leaves) index

/-- The loop of `VerifyMerkleProof`. -/
def verifyProofLoop : Word → List (Word × Bool) → Except PoseidonError Word
  | current, [] => .ok current
  | current, step :: rest => do
      let parent ←
        if step.2 then hashPair compress current step.1 else hashPair compress step.1 current
      verifyProofLoop parent rest

def verifyMerkleProof (leaf : Word) (proof : List Word) (isLeft : List Bool) (root : Word) :
    Except PoseidonError Bool :=
  if proof.length ≠ isLeft.length then .error .lengthMismatch
  else do
    let current ← verifyProofLoop compress leaf (proof.zip isLeft)
    .ok (decide (current = root))

end Hasher

/-! ## What a hash binds -/

section Chain

variable {compress : Element → Element → Element}

/-- The pairs compressed from a state on. -/
def chainPairs (compress : Element → Element → Element) :
    Element → List Element → List (Element × Element)
  | _, [] => []
  | state, x :: xs => (state, x) :: chainPairs compress (compress state x) xs

/-- Chains of one length with one end have one start and the same elements. -/
theorem chain_inj {s s' : Element} {xs ys : List Element} (hlen : xs.length = ys.length)
    (hfree : CollisionFree compress (chainPairs compress s xs ++ chainPairs compress s' ys))
    (heq : xs.foldl compress s = ys.foldl compress s') : s = s' ∧ xs = ys := by
  induction xs generalizing s s' ys with
  | nil =>
      obtain rfl := List.length_eq_zero_iff.mp hlen.symm
      exact ⟨heq, rfl⟩
  | cons x xs ih =>
      obtain ⟨y, ys, rfl⟩ := List.exists_cons_of_length_eq_add_one hlen.symm
      rw [List.length_cons, List.length_cons, Nat.succ_inj] at hlen
      obtain ⟨hstate, rfl⟩ := ih hlen (hfree.mono (by
        intro p hp
        simp only [chainPairs, List.mem_append, List.mem_cons] at hp ⊢
        tauto)) heq
      obtain ⟨rfl, rfl⟩ := hfree.eq (List.mem_append_left _ List.mem_cons_self)
        (List.mem_append_right _ List.mem_cons_self) hstate
      exact ⟨rfl, rfl⟩

theorem elements_length (input : List UInt8) : (elements input).length = input.length / 32 := by
  rw [elements, List.length_map, List.length_range]

/-- The first element is that of the first 32 bytes. -/
theorem elements_append {a b : List UInt8} (h : a.length = 32) :
    elements (a ++ b) = setBytes (bytesToHash a) :: elements b := by
  have hcount : (a ++ b).length / 32 = b.length / 32 + 1 := by
    rw [List.length_append, h]
    omega
  rw [elements, hcount, List.range_succ_eq_map, List.map_cons, List.map_map]
  congr 1
  · rw [Nat.zero_mul, slice_append_left (by omega), Nat.zero_add, Nat.one_mul, slice_all h.le]
  · apply List.map_congr_left
    intro i _
    rw [Function.comp_apply, slice_append_right (by omega), h]
    congr 3
    · omega
    · omega

theorem hash_ok {input : List UInt8} {out : Word} (h : hash compress input = .ok out) :
    out = digest compress input := by
  rw [hash_eq] at h
  split_ifs at h
  exact (Except.ok.inj h).symm

/-- The pairs compressed for two inputs. -/
def inputPairs (compress : Element → Element → Element) (input input' : List UInt8) :
    List (Element × Element) :=
  chainPairs compress 0 (elements input) ++ chainPairs compress 0 (elements input')

theorem digest_eq_iff {input input' : List UInt8} (hlen : input.length = input'.length)
    (hfree : CollisionFree compress (inputPairs compress input input')) :
    digest compress input = digest compress input' ↔ elements input = elements input' := by
  constructor
  · intro heq
    refine (chain_inj ?_ hfree (elementBytes_inj heq)).2
    rw [elements_length, elements_length, hlen]
  · intro heq
    rw [digest, digest, heq]

end Chain

/-! ## The tree -/

section Tree

variable (compress : Element → Element → Element)

/-- A parent in the field. -/
def pairNode (a b : Element) : Element := compress (compress 0 a) b

/-- A parent as a word: it depends on the residues of the two words below it. -/
def pairHash (left right : Word) : Word :=
  elementBytes (pairNode compress (setBytes left) (setBytes right))

@[simp]
theorem setBytes_pairHash (left right : Word) :
    setBytes (pairHash compress left right) =
      pairNode compress (setBytes left) (setBytes right) :=
  setBytes_elementBytes _

theorem hashPair_eq (left right : Word) :
    hashPair compress left right = .ok (pairHash compress left right) := by
  have helements :
      elements (hashBytes left ++ hashBytes right) = [setBytes left, setBytes right] := by
    rw [← List.append_nil (hashBytes right), elements_append (hashBytes_length left),
      elements_append (hashBytes_length right), bytesToHash_hashBytes, bytesToHash_hashBytes]
    rfl
  have hlen : (hashBytes left ++ hashBytes right).length = 64 := by
    rw [List.length_append, hashBytes_length, hashBytes_length]
  rw [hashPair, hash_eq, hlen, if_neg (by decide), if_neg (by decide), digest, helements]
  rfl

theorem hashLevel_eq (pairs : List (Word × Word)) :
    hashLevel compress pairs = .ok (pairs.map fun p => pairHash compress p.1 p.2) := by
  induction pairs with
  | nil => rfl
  | cons p pairs ih =>
      rw [hashLevel, hashPair_eq, ih]
      rfl

theorem doubleTo_eq {len rounds j : ℕ} (hj : j ≤ Nat.clog 2 len)
    (hrounds : Nat.clog 2 len ≤ j + rounds) :
    doubleTo len rounds (2 ^ j) = 2 ^ Nat.clog 2 len := by
  induction rounds generalizing j with
  | zero => rw [doubleTo, le_antisymm hj hrounds]
  | succ rounds ih =>
      rw [doubleTo]
      split_ifs with hlt
      · rw [← pow_succ]
        apply ih
        · exact (Nat.lt_clog_iff_pow_lt (by decide)).mpr hlt
        · omega
      · rw [le_antisymm hj (Nat.clog_le_of_le_pow (Nat.le_of_not_lt hlt))]

theorem height_le_length (leaves : List Word) : height leaves ≤ leaves.length :=
  Nat.clog_le_of_le_pow Nat.lt_two_pow_self.le

theorem padZero_length (leaves : List Word) : (padZero leaves).length = 2 ^ height leaves := by
  have hfull : doubleTo leaves.length leaves.length 1 = 2 ^ height leaves :=
    doubleTo_eq (j := 0) (Nat.zero_le _) (by
      rw [Nat.zero_add]
      exact height_le_length leaves)
  have hle : leaves.length ≤ 2 ^ height leaves := Nat.le_pow_clog (by decide) _
  rw [padZero, hfull, List.length_append, List.length_replicate]
  omega

theorem padZero_getElem? {leaves : List Word} {i : ℕ} {own : Word} (h : leaves[i]? = some own) :
    (padZero leaves)[i]? = some own := by
  rw [padZero, List.getElem?_append_left (List.getElem?_eq_some_iff.mp h).1, h]

/-- The loop over the levels ends with the root. -/
theorem rootLoop_eq {k rounds : ℕ} {current : List Word} (h : current.length = 2 ^ k)
    (hrounds : k ≤ rounds) :
    rootLoop compress rounds current = .ok (levelsUp (pairHash compress) k current) := by
  induction rounds generalizing k current with
  | zero =>
      obtain rfl := Nat.le_zero.mp hrounds
      rfl
  | succ rounds ih =>
      rw [rootLoop, h]
      cases k with
      | zero => rfl
      | succ k =>
          rw [if_pos (Nat.one_lt_two_pow (Nat.succ_ne_zero k)), hashLevel_eq]
          exact ih (levelUp_length_pow _ h) (Nat.le_of_succ_le_succ hrounds)

/-- The sides a position is met from on the way up. -/
def sides : ℕ → ℕ → List Bool
  | 0, _ => []
  | k + 1, i => decide (i % 2 = 0) :: sides k (i / 2)

@[simp]
theorem sides_length (k i : ℕ) : (sides k i).length = k := by
  induction k generalizing i with
  | zero => rfl
  | succ k ih => rw [sides, List.length_cons, ih]

/-- A proof is the path of siblings with the sides of the position. -/
theorem proofLoop_eq {k rounds i : ℕ} {current : List Word} (h : current.length = 2 ^ k)
    (hrounds : k ≤ rounds) (hi : i < 2 ^ k) :
    proofLoop compress rounds current i =
      .ok (siblings (pairHash compress) k current i, sides k i) := by
  induction rounds generalizing k current i with
  | zero =>
      obtain rfl := Nat.le_zero.mp hrounds
      rfl
  | succ rounds ih =>
      rw [proofLoop, h]
      cases k with
      | zero => rfl
      | succ k =>
          rw [pow_succ'] at hi
          obtain ⟨s, hs⟩ := exists_sibling (h.trans (pow_succ' 2 k)) hi
          have hrest := ih (levelUp_length_pow (pairHash compress) h)
            (Nat.le_of_succ_le_succ hrounds) (show i / 2 < 2 ^ k by omega)
          rw [levelUp] at hrest
          rw [if_pos (Nat.one_lt_two_pow (Nat.succ_ne_zero k)), hs, hashLevel_eq]
          simp only [bind, Except.bind, hrest, siblings, hs, Option.toList_some, sides, levelUp,
            List.singleton_append]

theorem verifyProofLoop_eq {k i : ℕ} {leaf : Word} {path : List Word} (h : path.length = k) :
    verifyProofLoop compress leaf (path.zip (sides k i)) =
      .ok (climb (pairHash compress) path i leaf) := by
  induction path generalizing k i leaf with
  | nil =>
      obtain rfl := h.symm
      rfl
  | cons s path ih =>
      obtain rfl := h.symm
      rw [List.length_cons, sides, List.zip_cons_cons, verifyProofLoop, climb, climbStep]
      simp only [decide_eq_true_eq, hashPair_eq]
      split_ifs
      · exact ih rfl
      · exact ih rfl

/-- The pairs compressed by the two verifications of a leaf and of the leaf in its place. -/
def verifyPairs (leaves : List Word) (i : ℕ) (leaf own : Word) : List (Element × Element) :=
  let path := (siblings (pairHash compress) (height leaves) (padZero leaves) i).map setBytes
  (climbPairs (pairNode compress) path i (setBytes leaf) ++
    climbPairs (pairNode compress) path i (setBytes own)).flatMap fun q =>
      chainPairs compress 0 [q.1, q.2]

variable {compress}

theorem collisionFree_pairNode {pairs : List (Element × Element)}
    (h : CollisionFree compress (pairs.flatMap fun q => chainPairs compress 0 [q.1, q.2])) :
    CollisionFree (pairNode compress) pairs := by
  rintro ⟨a, b⟩ hab ⟨c, d⟩ hcd heq
  have hsub : chainPairs compress 0 [a, b] ++ chainPairs compress 0 [c, d] ⊆
      pairs.flatMap fun q => chainPairs compress 0 [q.1, q.2] := by
    apply List.append_subset.mpr
    exact ⟨fun p hp => List.mem_flatMap.mpr ⟨_, hab, hp⟩,
      fun p hp => List.mem_flatMap.mpr ⟨_, hcd, hp⟩⟩
  have hfold : [a, b].foldl compress 0 = [c, d].foldl compress 0 := heq
  have hlen : [a, b].length = [c, d].length := rfl
  have hlist : [a, b] = [c, d] := (chain_inj hlen (h.mono hsub) hfold).2
  simpa using hlist

theorem climb_congr {path : List Word} (hpath : path ≠ []) {i : ℕ} {a b : Word}
    (h : setBytes a = setBytes b) :
    climb (pairHash compress) path i a = climb (pairHash compress) path i b := by
  cases path with
  | nil => exact absurd rfl hpath
  | cons s path =>
      rw [climb, climb, climbStep, climbStep, pairHash, pairHash, pairHash, pairHash, h]

/-- What the three functions compute for a leaf in the place of another. -/
theorem merkle_results {leaves : List Word} {i : ℕ} {own : Word} (hown : leaves[i]? = some own)
    (leaf : Word) :
    let path := siblings (pairHash compress) (height leaves) (padZero leaves) i
    let root := climb (pairHash compress) path i own
    merkleRoot compress leaves = .ok root ∧
      merkleProof compress leaves i = .ok (path, sides (height leaves) i) ∧
      verifyMerkleProof compress leaf path (sides (height leaves) i) root =
        .ok (decide (climb (pairHash compress) path i leaf = root)) := by
  intro path root
  have hi : i < leaves.length := (List.getElem?_eq_some_iff.mp hown).1
  have hpad := padZero_length leaves
  have hlt : i < 2 ^ height leaves := hi.trans_le (Nat.le_pow_clog (by decide) _)
  have hpath : path.length = height leaves := siblings_length _ hpad hlt
  refine ⟨?_, ?_, ?_⟩
  · rw [merkleRoot, if_neg (by omega), rootLoop_eq compress hpad (height_le_length leaves),
      climb_siblings _ hpad (padZero_getElem? hown)]
    rfl
  · rw [merkleProof, if_neg (by omega)]
    exact proofLoop_eq compress hpad (height_le_length leaves) hlt
  · rw [verifyMerkleProof, if_neg (by rw [hpath, sides_length]; exact not_not_intro rfl),
      verifyProofLoop_eq compress hpath]
    rfl

/-- A leaf is accepted in the place of another exactly when it has the other's residue; with one
leaf, when it is the other. -/
theorem climb_eq_iff {leaves : List Word} {i : ℕ} {leaf own : Word} (hown : leaves[i]? = some own)
    (hfree : CollisionFree compress (verifyPairs compress leaves i leaf own)) :
    let path := siblings (pairHash compress) (height leaves) (padZero leaves) i
    climb (pairHash compress) path i leaf = climb (pairHash compress) path i own ↔
      leaf = own ∨ leaves.length ≠ 1 ∧ setBytes leaf = setBytes own := by
  intro path
  have hi : i < leaves.length := (List.getElem?_eq_some_iff.mp hown).1
  have hlt : i < 2 ^ height leaves := hi.trans_le (Nat.le_pow_clog (by decide) _)
  have hpath : path.length = height leaves := siblings_length _ (padZero_length leaves) hlt
  have hresidue : climb (pairHash compress) path i leaf = climb (pairHash compress) path i own →
      setBytes leaf = setBytes own := by
    intro heq
    have hmap := congrArg setBytes heq
    rw [map_climb (setBytes_pairHash compress), map_climb (setBytes_pairHash compress)] at hmap
    exact climb_inj (collisionFree_pairNode hfree) hmap
  by_cases hone : leaves.length = 1
  · have hnil : path = [] := by
      rw [← List.length_eq_zero_iff, hpath, height, hone]
      rfl
    rw [hnil, climb, climb]
    simp [hone]
  · have hne : path ≠ [] := by
      intro hnil
      rw [hnil, List.length_nil, height] at hpath
      have hpos : 0 < Nat.clog 2 leaves.length := Nat.clog_pos (by decide) (by omega)
      omega
    constructor
    · exact fun heq => .inr ⟨hone, hresidue heq⟩
    · rintro (rfl | ⟨-, hsame⟩)
      · rfl
      · exact climb_congr hne hsame

end Tree

/-! ## Notes -/

section Notes

variable {amount amount' : ℤ} {assetId : Word} {owner : Address} {blindingFactor : Word}

theorem noteInput_length (h : (bigBytes amount.natAbs).length ≤ 32) :
    (noteInput amount assetId owner blindingFactor).length = 128 := by
  simp [noteInput, leftPadBytes_length h]

theorem setBytes_amount (h : (bigBytes amount.natAbs).length ≤ 32) :
    setBytes (bytesToHash (leftPadBytes (bigBytes amount.natAbs) 32)) =
      Fin.ofNat fieldModulus amount.natAbs := by
  have hlt : amount.natAbs < 2 ^ 256 :=
    lt_of_lt_of_eq (bigBytes_length_le_iff.mp h) (by norm_num)
  rw [setBytes, bytesToHash, bytesToNat_leftPadBytes, bytesToNat_bigBytes, BitVec.toNat_ofNat,
    Nat.mod_eq_of_lt hlt]

/-- The inputs of two notes that differ in the amount have the same elements exactly when the
magnitudes have one residue. -/
theorem elements_noteInput_eq_iff (h : (bigBytes amount.natAbs).length ≤ 32)
    (h' : (bigBytes amount'.natAbs).length ≤ 32) :
    elements (noteInput amount assetId owner blindingFactor) =
        elements (noteInput amount' assetId owner blindingFactor) ↔
      amount.natAbs ≡ amount'.natAbs [MOD fieldModulus] := by
  rw [noteInput, noteInput, elements_append (leftPadBytes_length h),
    elements_append (leftPadBytes_length h'), setBytes_amount h, setBytes_amount h',
    List.cons.injEq, and_iff_left rfl, Fin.ext_iff]
  rfl

theorem noteCommitment_ok {compress : Element → Element → Element} {out : Word}
    (h : noteCommitment compress amount assetId owner blindingFactor = .ok out) :
    (bigBytes amount.natAbs).length ≤ 32 ∧
      out = digest compress (noteInput amount assetId owner blindingFactor) := by
  rw [noteCommitment] at h
  split_ifs at h with hlong
  exact ⟨Nat.le_of_not_lt hlong, hash_ok h⟩

end Notes

/-- Proofs, hashes and commitments bind bytes exactly as far as residues tell them apart. -/
theorem poseidon_binds_iff (compress : Element → Element → Element) :
    (∀ (leaves : List Word) (i : ℕ) (leaf own : Word), leaves[i]? = some own →
      CollisionFree compress (verifyPairs compress leaves i leaf own) →
      ∃ root proof isLeft accepted, merkleRoot compress leaves = .ok root ∧
        merkleProof compress leaves i = .ok (proof, isLeft) ∧
        verifyMerkleProof compress leaf proof isLeft root = .ok accepted ∧
        ((accepted = true ↔ leaf = own) ↔
          leaves.length = 1 ∨ leaf = own ∨ setBytes leaf ≠ setBytes own)) ∧
    (∀ (input input' : List UInt8) (out out' : Word), input.length = input'.length →
      hash compress input = .ok out → hash compress input' = .ok out' →
      CollisionFree compress (inputPairs compress input input') →
      ((out = out' → input = input') ↔ input = input' ∨ elements input ≠ elements input')) ∧
    (∀ (amount amount' : ℤ) (assetId : Word) (owner : Address) (blindingFactor out out' : Word),
      noteCommitment compress amount assetId owner blindingFactor = .ok out →
      noteCommitment compress amount' assetId owner blindingFactor = .ok out' →
      CollisionFree compress (inputPairs compress (noteInput amount assetId owner blindingFactor)
        (noteInput amount' assetId owner blindingFactor)) →
      amount ≠ amount' →
      (out ≠ out' ↔ ¬ amount.natAbs ≡ amount'.natAbs [MOD fieldModulus])) := by
  refine ⟨fun leaves i leaf own hown hfree => ?_, fun input input' out out' hlen h h' hfree => ?_,
    fun amount amount' assetId owner blindingFactor out out' h h' hfree _ => ?_⟩
  · obtain ⟨hroot, hproof, hverify⟩ := @merkle_results compress leaves i own hown leaf
    refine ⟨_, _, _, _, hroot, hproof, hverify, ?_⟩
    have haccepted := climb_eq_iff hown hfree
    dsimp only at haccepted
    rw [decide_eq_true_iff, haccepted]
    by_cases hsame : leaf = own
    · simp [hsame]
    · simp only [hsame, false_or, iff_false, not_and]
      tauto
  · rw [hash_ok h, hash_ok h', digest_eq_iff hlen hfree]
    tauto
  · obtain ⟨hamount, rfl⟩ := noteCommitment_ok h
    obtain ⟨hamount', rfl⟩ := noteCommitment_ok h'
    have hlen : (noteInput amount assetId owner blindingFactor).length =
        (noteInput amount' assetId owner blindingFactor).length := by
      rw [noteInput_length hamount, noteInput_length hamount']
    rw [ne_eq, digest_eq_iff hlen hfree, elements_noteInput_eq_iff hamount hamount']

/-- Five more than the order of the field. -/
def shiftedFive : Word := BitVec.ofNat 256 (fieldModulus + 5)

/-- A compression to compute with. -/
def sampleCompress (a b : Element) : Element := a + b + 1

theorem collisionFree_sample {pairs : List (Element × Element)}
    (hsub : pairs ⊆ [(0, 5), (6, 0), (7, 0), (8, 0)]) : CollisionFree sampleCompress pairs := by
  have hfree : CollisionFree sampleCompress [(0, 5), (6, 0), (7, 0), (8, 0)] :=
    .of_nodup (by decide)
  exact hfree.mono hsub

/-- Five and five more than the order are one element: they hash alike, one is accepted in the
place of the other, and notes of the two amounts are the same. -/
theorem residues_hash_alike :
    (¬ ∀ (compress : Element → Element → Element) (input input' : List UInt8),
      input.length = input'.length →
      CollisionFree compress (inputPairs compress input input') →
      hash compress input = hash compress input' → input = input') ∧
    (¬ ∀ (compress : Element → Element → Element) (leaf own root : Word) (proof : List Word)
      (isLeft : List Bool), CollisionFree compress (verifyPairs compress [own, 0] 0 leaf own) →
      merkleRoot compress [own, 0] = .ok root →
      merkleProof compress [own, 0] 0 = .ok (proof, isLeft) →
      verifyMerkleProof compress leaf proof isLeft root = .ok true → leaf = own) ∧
    (¬ ∀ (compress : Element → Element → Element) (amount amount' : ℤ),
      CollisionFree compress (inputPairs compress (noteInput amount 0 0 0)
        (noteInput amount' 0 0 0)) →
      noteCommitment compress amount 0 0 0 = noteCommitment compress amount' 0 0 0 →
      amount = amount') := by
  have hwords : hashBytes 5 ≠ hashBytes shiftedFive ∧ shiftedFive ≠ 5 := by decide
  have hamounts : (5 : ℤ) ≠ fieldModulus + 5 := by decide
  refine ⟨fun hclaim => hwords.1 ?_, fun hclaim => hwords.2 ?_, fun hclaim => hamounts ?_⟩
  · have hpairs : inputPairs sampleCompress (hashBytes 5) (hashBytes shiftedFive) =
        [(0, 5), (0, 5)] := by
      decide
    have hfree : CollisionFree sampleCompress
        (inputPairs sampleCompress (hashBytes 5) (hashBytes shiftedFive)) := by
      rw [hpairs]
      exact collisionFree_sample (by simp)
    exact hclaim sampleCompress _ _ (by decide) hfree (by decide)
  · have hpairs : verifyPairs sampleCompress [5, 0] 0 shiftedFive 5 =
        [(0, 5), (6, 0), (0, 5), (6, 0)] := by
      decide
    have hfree : CollisionFree sampleCompress
        (verifyPairs sampleCompress [5, 0] 0 shiftedFive 5) := by
      rw [hpairs]
      exact collisionFree_sample (by simp)
    exact hclaim sampleCompress shiftedFive 5 7 [0] [true] hfree (by decide)
      (by decide) (by decide)
  · have hpairs : inputPairs sampleCompress (noteInput 5 0 0 0)
        (noteInput (fieldModulus + 5) 0 0 0) =
          [(0, 5), (6, 0), (7, 0), (8, 0), (0, 5), (6, 0), (7, 0), (8, 0)] := by
      decide +kernel
    have hfree : CollisionFree sampleCompress (inputPairs sampleCompress (noteInput 5 0 0 0)
        (noteInput (fieldModulus + 5) 0 0 0)) := by
      rw [hpairs]
      exact collisionFree_sample (by simp)
    exact hclaim sampleCompress 5 (fieldModulus + 5) hfree (by decide +kernel)

end LuxPrecompile.Zk.Poseidon
