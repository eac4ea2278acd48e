import Mathlib.Data.Nat.Log
import LuxPrecompile.Evm.WordTrees

/-!
# The Merkle operation of the BLAKE3 precompile

`blake3/contract.go`, `merkleRoot`.  A list of leaves is padded with its last leaf up to a power
of two and hashed level by level; one leaf is its own root, and no leaf gives the zero root.
BLAKE3 is a parameter.
-/

namespace LuxPrecompile.Blake3

open Evm HashTrees

/-- The error of the operation. -/
inductive Blake3Error where
  | invalidDataLength
deriving DecidableEq, Repr

def digestLength32 : ℕ := 32

def maxMerkleLeaves : ℕ := 1024

/-- The loop of `computeMerkleRoot` that repeats the last leaf up to a power of two. -/
def padLeaves : ℕ → List Word → List Word
  | 0, leaves => leaves
  | rounds + 1, leaves =>
      if leaves.length &&& (leaves.length - 1) = 0 then leaves
      else padLeaves rounds (leaves ++ [leaves.getLastD 0])

section Contract

variable (blake3 : List UInt8 → Word)

/-- The loop of `computeMerkleRoot` over the levels. -/
def hashLevels : ℕ → List Word → List Word
  | 0, leaves => leaves
  | rounds + 1, leaves =>
      if 1 < leaves.length then hashLevels rounds (levelUp (wordNode blake3) leaves) else leaves

/-- `computeMerkleRoot`: neither loop runs more rounds than there are leaves. -/
def computeMerkleRoot (leaves : List Word) : Word :=
  if leaves.length = 0 then 0
  else if leaves.length = 1 then leaves.headD 0
  else
    let padded := padLeaves leaves.length leaves
    (hashLevels blake3 leaves.length padded).headD 0

/-- The number of leaves an input declares. -/
def declared (data : List UInt8) : ℕ := (bytesToUint32 (data.take 4)).toNat

/-- The leaf at a position of an input. -/
def leafAt (data : List UInt8) (i : ℕ) : Word :=
  let start := 4 + i * digestLength32
  bytesToHash (slice data start (start + digestLength32))

def merkleRoot (data : List UInt8) : Except Blake3Error (List UInt8) :=
  if data.length < 4 then .error .invalidDataLength
  else
    let numLeaves := min (declared data) maxMerkleLeaves
    if numLeaves = 0 then .ok (List.replicate digestLength32 0)
    else if data.length < 4 + numLeaves * digestLength32 then .error .invalidDataLength
    else .ok (hashBytes (computeMerkleRoot blake3 ((List.range numLeaves).map (leafAt data))))

end Contract

/-! ## Padding -/

/-- The leaves the tree is built over. -/
def paddedLeaves (leaves : List Word) : List Word :=
  leaves ++ List.replicate (2 ^ height leaves - leaves.length) (leaves.getLastD 0)

theorem paddedLeaves_length (leaves : List Word) :
    (paddedLeaves leaves).length = 2 ^ height leaves := by
  have hle := length_le_pow_height leaves
  rw [paddedLeaves, List.length_append, List.length_replicate]
  omega

theorem take_paddedLeaves (leaves : List Word) :
    (paddedLeaves leaves).take leaves.length = leaves := by
  rw [paddedLeaves, List.take_left']
  rfl

/-- The loop ends with the padded leaves when it is given enough rounds. -/
theorem padLeaves_eq {rounds : ℕ} {leaves : List Word} (hne : leaves ≠ [])
    (hrounds : 2 ^ height leaves - leaves.length ≤ rounds) :
    padLeaves rounds leaves = paddedLeaves leaves := by
  have hle := length_le_pow_height leaves
  induction rounds generalizing leaves with
  | zero =>
      rw [padLeaves, paddedLeaves, Nat.le_zero.mp hrounds, List.replicate_zero, List.append_nil]
  | succ rounds ih =>
      have hlen : leaves.length ≠ 0 := by simpa using hne
      have hpow := Nat.and_sub_one_eq_zero_iff_isPowerOfTwo hlen
      rw [padLeaves]
      split_ifs with hfull
      · obtain ⟨k, hk⟩ := hpow.mp hfull
        rw [paddedLeaves, height, hk, Nat.clog_pow 2 k (by decide), Nat.sub_self,
          List.replicate_zero, List.append_nil]
      · have hlt : leaves.length < 2 ^ height leaves :=
          lt_of_le_of_ne hle fun heq => hfull (hpow.mpr ⟨_, heq⟩)
        have hlen' : (leaves ++ [leaves.getLastD 0]).length = leaves.length + 1 := by simp
        have hheight : height (leaves ++ [leaves.getLastD 0]) = height leaves := by
          apply le_antisymm
          · rw [height, hlen']
            exact Nat.clog_le_of_le_pow hlt
          · rw [height, height, hlen']
            exact Nat.clog_mono_right 2 (Nat.le_succ _)
        rw [ih (by simp) (by rw [hheight, hlen']; omega) (by rw [hheight, hlen']; exact hlt)]
        rw [paddedLeaves, paddedLeaves, hheight, hlen', List.append_assoc,
          List.getLastD_concat, List.singleton_append, ← List.replicate_succ]
        congr 2
        omega

theorem pow_height_le {leaves : List Word} (hne : leaves ≠ []) :
    2 ^ height leaves - leaves.length ≤ leaves.length := by
  have hlen : 0 < leaves.length := List.length_pos_iff.mpr hne
  rcases Nat.lt_or_ge 1 leaves.length with hmany | hone
  · have hpred := Nat.pow_pred_clog_lt_self (by decide : 1 < 2) hmany
    have hpos : 0 < Nat.clog 2 leaves.length := Nat.clog_pos (by decide) hmany
    have hpow : 2 ^ height leaves = 2 * 2 ^ (Nat.clog 2 leaves.length).pred := by
      rw [height, ← pow_succ', ← Nat.succ_eq_add_one, Nat.succ_pred_eq_of_pos hpos]
    omega
  · have hlen' : leaves.length = 1 := by omega
    rw [height, hlen']
    decide

/-! ## The root -/

section Root

variable {blake3 : List UInt8 → Word}

/-- The loop over the levels ends with the root. -/
theorem hashLevels_eq {k rounds : ℕ} {level : List Word} (h : level.length = 2 ^ k)
    (hrounds : k ≤ rounds) :
    hashLevels blake3 rounds level = levelsUp (wordNode blake3) k level := by
  induction rounds generalizing k level with
  | zero =>
      obtain rfl := Nat.le_zero.mp hrounds
      rfl
  | succ rounds ih =>
      rw [hashLevels, h]
      cases k with
      | zero => rfl
      | succ k =>
          rw [if_pos (Nat.one_lt_two_pow (Nat.succ_ne_zero k)), levelsUp]
          exact ih (levelUp_length_pow _ h) (Nat.le_of_succ_le_succ hrounds)

variable (blake3) in
/-- The root is the top of the tree over the padded leaves. -/
theorem levelsUp_paddedLeaves {leaves : List Word} (hne : leaves ≠ []) :
    levelsUp (wordNode blake3) (height leaves) (paddedLeaves leaves) =
      [computeMerkleRoot blake3 leaves] := by
  have hlen := paddedLeaves_length leaves
  obtain ⟨root, hroot⟩ := exists_root (wordNode blake3) hlen
  have hpos : leaves.length ≠ 0 := by simpa using hne
  rw [computeMerkleRoot, if_neg hpos]
  split_ifs with hone
  · obtain ⟨leaf, rfl⟩ := List.length_eq_one_iff.mp hone
    rfl
  · have hheight : height leaves ≤ leaves.length := Nat.clog_le_of_le_pow Nat.lt_two_pow_self.le
    simp only [padLeaves_eq hne (pow_height_le hne), hashLevels_eq hlen hheight, hroot,
      List.headD_cons]

/-- One tree is the top of the other: its padded leaves are a level of the other's. -/
def IsTop (blake3 : List UInt8 → Word) (leaves leaves' : List Word) : Prop :=
  ∃ m, height leaves' = m + height leaves ∧
    levelsUp (wordNode blake3) m (paddedLeaves leaves') = paddedLeaves leaves

/-- The strings hashed for the root of a list of leaves. -/
def preimages (blake3 : List UInt8 → Word) (leaves : List Word) : List (List UInt8) :=
  pairPreimages (treePairs (wordNode blake3) (height leaves) (paddedLeaves leaves))

theorem IsTop.root_eq {leaves leaves' : List Word} (hne : leaves ≠ []) (hne' : leaves' ≠ [])
    (h : IsTop blake3 leaves leaves') :
    computeMerkleRoot blake3 leaves = computeMerkleRoot blake3 leaves' := by
  obtain ⟨m, hheight, hlevel⟩ := h
  have hroot := levelsUp_paddedLeaves blake3 hne
  have hroot' := levelsUp_paddedLeaves blake3 hne'
  rw [hheight, levelsUp_add, hlevel, hroot] at hroot'
  exact List.singleton_inj.mp hroot'

/-- Of two trees with one root, the lower is the top of the higher. -/
theorem isTop_of_root_eq {leaves leaves' : List Word} (hne : leaves ≠ []) (hne' : leaves' ≠ [])
    (hfree : Set.InjOn blake3 {bs | bs ∈ preimages blake3 leaves ++ preimages blake3 leaves'})
    (hle : height leaves ≤ height leaves')
    (heq : computeMerkleRoot blake3 leaves = computeMerkleRoot blake3 leaves') :
    IsTop blake3 leaves leaves' := by
  obtain ⟨m, hm⟩ := Nat.exists_eq_add_of_le' hle
  refine ⟨m, hm, ?_⟩
  have hroot := levelsUp_paddedLeaves blake3 hne
  have hroot' := levelsUp_paddedLeaves blake3 hne'
  have hlen' := paddedLeaves_length leaves'
  rw [← heq, ← hroot, hm, levelsUp_add] at hroot'
  rw [hm] at hlen'
  refine levelsUp_inj (levelsUp_length _ m hlen') (paddedLeaves_length leaves) ?_ hroot'
  apply collisionFree_wordNode hfree
  intro bs hbs
  rw [pairPreimages, List.map_append, List.mem_append] at hbs
  rw [Set.mem_ofPred_eq, List.mem_append, preimages, preimages, hm]
  rcases hbs with hbs | hbs
  · exact .inr (List.map_subset _ (treePairs_levelsUp_subset _ _ _ _) hbs)
  · exact .inl hbs

theorem IsTop.eq_of_length_eq {leaves leaves' : List Word} (h : IsTop blake3 leaves leaves')
    (hlen : leaves.length = leaves'.length) : leaves = leaves' := by
  obtain ⟨m, hheight, hlevel⟩ := h
  have hm : m = 0 := by
    rw [height, height, hlen] at hheight
    omega
  subst hm
  rw [levelsUp] at hlevel
  rw [← take_paddedLeaves leaves, ← take_paddedLeaves leaves', hlevel, hlen]

end Root

/-! ## What an input is bound to -/

/-- The leaves an input declares. -/
def declaredLeaves (data : List UInt8) : List Word := (List.range (declared data)).map (leafAt data)

@[simp]
theorem declaredLeaves_length (data : List UInt8) :
    (declaredLeaves data).length = declared data := by
  rw [declaredLeaves, List.length_map, List.length_range]

theorem merkleRoot_ok {blake3 : List UInt8 → Word} {data root : List UInt8}
    (hsome : declared data ≠ 0) (hmax : declared data ≤ maxMerkleLeaves)
    (h : merkleRoot blake3 data = .ok root) :
    root = hashBytes (computeMerkleRoot blake3 (declaredLeaves data)) := by
  simp only [merkleRoot, Nat.min_eq_left hmax, if_neg hsome] at h
  split_ifs at h
  exact (Except.ok.inj h).symm

/-- The root is computed over every declared leaf, two roots agree exactly when the padded leaves
of one input are a level of the other's tree, and inputs of one count agree in every leaf. -/
theorem merkleRoot_binds_leaves {blake3 : List UInt8 → Word}
    {data data' root root' : List UInt8} (hroot : merkleRoot blake3 data = .ok root)
    (hroot' : merkleRoot blake3 data' = .ok root') (hsome : declared data ≠ 0)
    (hmax : declared data ≤ maxMerkleLeaves) (hsome' : declared data' ≠ 0)
    (hmax' : declared data' ≤ maxMerkleLeaves)
    (hfree : Set.InjOn blake3 {bs | bs ∈ preimages blake3 (declaredLeaves data) ++
      preimages blake3 (declaredLeaves data')}) :
    root = hashBytes (computeMerkleRoot blake3 (declaredLeaves data)) ∧
    (root = root' ↔ IsTop blake3 (declaredLeaves data) (declaredLeaves data') ∨
      IsTop blake3 (declaredLeaves data') (declaredLeaves data)) ∧
    (root = root' → declared data = declared data' →
      declaredLeaves data = declaredLeaves data') := by
  have hbytes := merkleRoot_ok hsome hmax hroot
  have hbytes' := merkleRoot_ok hsome' hmax' hroot'
  have hne : declaredLeaves data ≠ [] := by
    rw [← List.length_pos_iff, declaredLeaves_length]
    exact Nat.pos_of_ne_zero hsome
  have hne' : declaredLeaves data' ≠ [] := by
    rw [← List.length_pos_iff, declaredLeaves_length]
    exact Nat.pos_of_ne_zero hsome'
  have htop : root = root' → IsTop blake3 (declaredLeaves data) (declaredLeaves data') ∨
      IsTop blake3 (declaredLeaves data') (declaredLeaves data) := by
    intro heq
    rw [hbytes, hbytes'] at heq
    have hword := hashBytes_inj heq
    rcases Nat.le_total (height (declaredLeaves data)) (height (declaredLeaves data'))
      with hle | hle
    · exact .inl (isTop_of_root_eq hne hne' hfree hle hword)
    · refine .inr (isTop_of_root_eq hne' hne (hfree.mono ?_) hle hword.symm)
      intro bs hbs
      rw [Set.mem_ofPred_eq, List.mem_append] at hbs ⊢
      exact hbs.symm
  refine ⟨hbytes, ⟨htop, ?_⟩, ?_⟩
  · rintro (h | h)
    · rw [hbytes, hbytes', h.root_eq hne hne']
    · rw [hbytes, hbytes', h.root_eq hne' hne]
  · intro heq hcount
    rcases htop heq with h | h
    · exact h.eq_of_length_eq (by simpa using hcount)
    · exact (h.eq_of_length_eq (by simpa using hcount.symm)).symm

/-! ## Inputs of three and four leaves -/

/-- The input of a list of leaves. -/
def leafInput (leaves : List Word) : List UInt8 :=
  uint32Bytes (UInt32.ofNat leaves.length) ++ leaves.flatMap hashBytes

/-- BLAKE3 on the strings hashed for the leaves 1, 2, 3. -/
def sampleBlake3 (bs : List UInt8) : Word :=
  let left : Word := 0xa1852311a98ff4c66e0642c644a61d02a5ea1a4ab530a19cb83a82e42ff8011f
  let right : Word := 0xe8bbaac96c9694de52595f979c8ab2469adce41412ac7ec86f97f32d73b7b287
  if bs = pairBytes (1, 2) then left
  else if bs = pairBytes (3, 3) then right
  else if bs = pairBytes (left, right) then
    0x3862801a2be000ce7cd7c89d7d7706e414ad0a72020ba37f42e61e8c437ed947
  else 0

theorem sampleBlake3_injOn :
    Set.InjOn sampleBlake3
      {bs | bs ∈ preimages sampleBlake3 (declaredLeaves (leafInput [1, 2, 3])) ++
        preimages sampleBlake3 (declaredLeaves (leafInput [1, 2, 3, 3]))} := by
  have hall : ∀ a ∈ preimages sampleBlake3 (declaredLeaves (leafInput [1, 2, 3])) ++
        preimages sampleBlake3 (declaredLeaves (leafInput [1, 2, 3, 3])),
      ∀ b ∈ preimages sampleBlake3 (declaredLeaves (leafInput [1, 2, 3])) ++
        preimages sampleBlake3 (declaredLeaves (leafInput [1, 2, 3, 3])),
      sampleBlake3 a = sampleBlake3 b → a = b := by
    decide +kernel
  exact fun a ha b hb => hall a ha b hb

theorem merkleRoot_leafInput_three :
    merkleRoot sampleBlake3 (leafInput [1, 2, 3]) =
      .ok (hashBytes 0x3862801a2be000ce7cd7c89d7d7706e414ad0a72020ba37f42e61e8c437ed947) := by
  decide +kernel

theorem merkleRoot_leafInput_four :
    merkleRoot sampleBlake3 (leafInput [1, 2, 3, 3]) =
      .ok (hashBytes 0x3862801a2be000ce7cd7c89d7d7706e414ad0a72020ba37f42e61e8c437ed947) := by
  decide +kernel

theorem merkleRoot_binds_leaves_sample :
    IsTop sampleBlake3 (declaredLeaves (leafInput [1, 2, 3]))
        (declaredLeaves (leafInput [1, 2, 3, 3])) ∨
      IsTop sampleBlake3 (declaredLeaves (leafInput [1, 2, 3, 3]))
        (declaredLeaves (leafInput [1, 2, 3])) :=
  (merkleRoot_binds_leaves merkleRoot_leafInput_three merkleRoot_leafInput_four
    (by decide) (by decide) (by decide) (by decide)
    sampleBlake3_injOn).2.1.mp rfl

/-- Repeating the last of three leaves changes the leaves and not the root, and so does adding a
zero leaf to none. -/
theorem roots_do_not_bind_leaves :
    (¬ ∀ (blake3 : List UInt8 → Word) (data data' root : List UInt8),
      merkleRoot blake3 data = .ok root → merkleRoot blake3 data' = .ok root →
      Set.InjOn blake3 {bs | bs ∈ preimages blake3 (declaredLeaves data) ++
        preimages blake3 (declaredLeaves data')} →
      declaredLeaves data = declaredLeaves data') ∧
    merkleRoot sampleBlake3 (leafInput []) = merkleRoot sampleBlake3 (leafInput [0]) := by
  refine ⟨fun hbinds => ?_, by decide⟩
  have hsame := hbinds sampleBlake3 _ _ _ merkleRoot_leafInput_three merkleRoot_leafInput_four
    sampleBlake3_injOn
  exact absurd hsame (by decide)

end LuxPrecompile.Blake3
