import LuxPrecompile.Zk.Poseidon
import LuxPrecompile.Zk.Verifier
import LuxPrecompile.Support.Runs

/-!
# What a proof binds

State roots are 32-byte words, and the group order of the curve is less than half of
`2 ^ 256`, so every root shares its residue with another root.  The Groth16 check reads
a root through its residue only, and the PLONK check does not read the roots at all:
an accepted batch is accepted with other roots too.
-/

namespace LuxPrecompile.Zk

open Evm Support

/-- The order of the groups of `bn256`. -/
def groupOrder : ℕ := Poseidon.fieldModulus

section Binding

variable (curve : Bn256) (sha256 : List UInt8 → Word)

/-- Multiples of a point depend on the scalar through its residue. -/
def ScalarsReduced : Prop :=
  ∀ (p : curve.G1) (k k' : ℤ), k ≡ k' [ZMOD groupOrder] →
    curve.scalarMult p k = curve.scalarMult p k'

/-- A batch that `VerifyRollupBatch` accepts. -/
def Accepts (zv : ZKVerifier) (id : Word) (batch : RollupBatch) : Prop :=
  ∃ zv', verifyRollupBatch curve sha256 zv id batch = .ok zv'

/-- No batch that differs in its new root only is accepted. -/
def NewRootBound (zv : ZKVerifier) (id : Word) (batch : RollupBatch) : Prop :=
  ∀ root, Accepts curve sha256 zv id { batch with newStateRoot := root } →
    root = batch.newStateRoot

/-- No batch that differs in its previous root only is accepted, in whatever state the
rollups are. -/
def PrevRootBound (zv : ZKVerifier) (id : Word) (batch : RollupBatch) : Prop :=
  ∀ zv', zv'.rollups = zv.rollups → ∀ root,
    Accepts curve sha256 zv' id { batch with prevStateRoot := root } →
      root = batch.prevStateRoot

/-! ## Roots of one residue -/

/-- Another word of the same residue. -/
def sibling (root : Word) : Word :=
  BitVec.ofNat 256
    (if groupOrder ≤ root.toNat then root.toNat - groupOrder else root.toNat + groupOrder)

theorem sibling_toNat (root : Word) :
    (sibling root).toNat =
      if groupOrder ≤ root.toNat then root.toNat - groupOrder else root.toNat + groupOrder := by
  have hlt : root.toNat < 2 ^ 256 := root.isLt
  have horder : 2 * groupOrder < 2 ^ 256 := by decide
  rw [sibling, BitVec.toNat_ofNat, Nat.mod_eq_of_lt]
  split_ifs <;> omega

theorem sibling_ne (root : Word) : sibling root ≠ root := by
  intro h
  have hnat := congrArg BitVec.toNat h
  have horder : 0 < groupOrder := by decide
  rw [sibling_toNat] at hnat
  split_ifs at hnat <;> omega

theorem sibling_modEq (root : Word) :
    (((sibling root).toNat : ℕ) : ℤ) ≡ (root.toNat : ℤ) [ZMOD groupOrder] := by
  rw [Int.natCast_modEq_iff, sibling_toNat]
  split_ifs with hle
  · rw [Nat.ModEq, Nat.mod_eq_sub_mod hle]
  · exact Nat.add_modEq_right

/-! ## The checks -/

variable {curve sha256}

theorem addInputs_congr (hscalar : ScalarsReduced curve) :
    ∀ (vkX : curve.G1) (ic : List curve.G1) {inputs inputs' : List ℤ},
      List.Forall₂ (fun k k' => k ≡ k' [ZMOD groupOrder]) inputs inputs' →
        addInputs curve vkX ic inputs = addInputs curve vkX ic inputs'
  | _, _, _, _, .nil => rfl
  | _, [], _, _, .cons _ _ => rfl
  | vkX, p :: ic, _, _, .cons hk hrest => by
      rw [addInputs, addInputs, hscalar p _ _ hk]
      exact addInputs_congr hscalar _ ic hrest

theorem groth16PairingCheck_congr (hscalar : ScalarsReduced curve) (vk : VerifyingKey)
    (proof : Proof) {inputs inputs' : List ℤ}
    (h : List.Forall₂ (fun k k' => k ≡ k' [ZMOD groupOrder]) inputs inputs') :
    groth16PairingCheck curve vk proof inputs = groth16PairingCheck curve vk proof inputs' := by
  have hcombination : ∀ ic,
      inputCombination curve ic inputs = inputCombination curve ic inputs' := by
    intro ic
    cases ic with
    | nil => rfl
    | cons ic0 ic => exact addInputs_congr hscalar _ ic h
  simp only [groth16PairingCheck, hcombination]

theorem plonkVerify_congr (vk : VerifyingKey) (proof : List UInt8) (inputs inputs' : List ℤ) :
    plonkVerify curve sha256 vk proof inputs = plonkVerify curve sha256 vk proof inputs' := rfl

/-- Neither proof system tells batches apart whose roots have the same residues. -/
theorem verifyBatchProof_congr (hscalar : ScalarsReduced curve) (config : RollupConfig)
    {batch batch' : RollupBatch} (hproof : batch'.proof = batch.proof)
    (htransactions : batch'.transactions = batch.transactions)
    (hl1 : batch'.l1BatchNum = batch.l1BatchNum)
    (hprev : (batch'.prevStateRoot.toNat : ℤ) ≡ batch.prevStateRoot.toNat [ZMOD groupOrder])
    (hnew : (batch'.newStateRoot.toNat : ℤ) ≡ batch.newStateRoot.toNat [ZMOD groupOrder]) :
    verifyBatchProof curve sha256 config batch' = verifyBatchProof curve sha256 config batch := by
  have hinputs : List.Forall₂ (fun k k' => k ≡ k' [ZMOD groupOrder]) (groth16Inputs batch')
      (groth16Inputs batch) := by
    rw [groth16Inputs, groth16Inputs, htransactions, hl1]
    exact .cons hprev (.cons hnew (.cons (Int.ModEq.refl _) (.cons (Int.ModEq.refl _) .nil)))
  cases hsystem : config.proofSystem with
  | groth16 =>
      simp only [verifyBatchProof, hsystem, verifyGroth16Batch, hproof,
        groth16PairingCheck_congr hscalar _ _ hinputs]
  | plonk =>
      simp only [verifyBatchProof, hsystem, verifyPlonkBatch, hproof,
        plonkVerify_congr _ _ (plonkInputs batch') (plonkInputs batch)]
  | fflonk => simp only [verifyBatchProof, hsystem]
  | halo2 => simp only [verifyBatchProof, hsystem]
  | stark => simp only [verifyBatchProof, hsystem]

/-- What an accepted batch has passed. -/
theorem accepts_iff {zv : ZKVerifier} {id : Word} {batch : RollupBatch} :
    Accepts curve sha256 zv id batch ↔
      ∃ config state, zv.rollups id = some config ∧ zv.rollupStates id = some state ∧
        checkRollupBatch curve sha256 config state batch = .ok () := by
  rw [Accepts, verifyRollupBatch]
  cases hconfig : zv.rollups id with
  | none => simp
  | some config =>
      cases hstate : zv.rollupStates id with
      | none => simp
      | some state =>
          cases hcheck : checkRollupBatch curve sha256 config state batch with
          | error e => simp [bind, Except.bind, hcheck]
          | ok u => simp [bind, Except.bind, pure, Except.pure, hcheck]

theorem checkRollupBatch_newRoot (hscalar : ScalarsReduced curve) (config : RollupConfig)
    (state : RollupState) (batch : RollupBatch) :
    checkRollupBatch curve sha256 config state
        { batch with newStateRoot := sibling batch.newStateRoot } =
      checkRollupBatch curve sha256 config state batch := by
  have hproof : verifyBatchProof curve sha256 config
        { batch with newStateRoot := sibling batch.newStateRoot } =
      verifyBatchProof curve sha256 config batch :=
    verifyBatchProof_congr hscalar config rfl rfl rfl (Int.ModEq.refl _) (sibling_modEq _)
  simp only [checkRollupBatch, hproof]

/-- They compare the previous root with the root the rollup is at. -/
theorem checkRollupBatch_prevRoot (hscalar : ScalarsReduced curve) {config : RollupConfig}
    {state : RollupState} {batch : RollupBatch}
    (h : checkRollupBatch curve sha256 config state batch = .ok ()) :
    checkRollupBatch curve sha256 config
        { state with lastStateRoot := sibling batch.prevStateRoot }
        { batch with prevStateRoot := sibling batch.prevStateRoot } = .ok () := by
  have hproof : verifyBatchProof curve sha256 config
        { batch with prevStateRoot := sibling batch.prevStateRoot } =
      verifyBatchProof curve sha256 config batch :=
    verifyBatchProof_congr hscalar config rfl rfl rfl (sibling_modEq _) (Int.ModEq.refl _)
  rw [checkRollupBatch] at h ⊢
  simp only [hproof]
  split_ifs at h ⊢ with henabled hproposer hsize hroot
  · exact absurd rfl ‹_›
  · exact h

theorem accepts_sibling_newRoot (hscalar : ScalarsReduced curve) {zv : ZKVerifier} {id : Word}
    {batch : RollupBatch} (h : Accepts curve sha256 zv id batch) :
    Accepts curve sha256 zv id { batch with newStateRoot := sibling batch.newStateRoot } := by
  obtain ⟨config, state, hconfig, hstate, hcheck⟩ := accepts_iff.mp h
  refine accepts_iff.mpr ⟨config, state, hconfig, hstate, ?_⟩
  rw [checkRollupBatch_newRoot hscalar, hcheck]

theorem accepts_sibling_prevRoot (hscalar : ScalarsReduced curve) {zv : ZKVerifier} {id : Word}
    {batch : RollupBatch} (h : Accepts curve sha256 zv id batch) :
    ∃ zv' : ZKVerifier, zv'.rollups = zv.rollups ∧
      Accepts curve sha256 zv' id
        { batch with prevStateRoot := sibling batch.prevStateRoot } := by
  obtain ⟨config, state, hconfig, _, hcheck⟩ := accepts_iff.mp h
  let zv' : ZKVerifier :=
    { zv with
      rollupStates := Function.update zv.rollupStates id
        (some { state with lastStateRoot := sibling batch.prevStateRoot }) }
  refine ⟨zv', rfl, accepts_iff.mpr ⟨config, _, hconfig, Function.update_self _ _ _, ?_⟩⟩
  exact checkRollupBatch_prevRoot hscalar hcheck

/-- For both proof systems, no accepted batch is bound to its roots. -/
theorem accepted_batch_unbound (hscalar : ScalarsReduced curve) {zv : ZKVerifier} {id : Word}
    {batch : RollupBatch} (h : Accepts curve sha256 zv id batch) :
    ¬ NewRootBound curve sha256 zv id batch ∧ ¬ PrevRootBound curve sha256 zv id batch := by
  constructor
  · intro hbound
    exact sibling_ne _ (hbound _ (accepts_sibling_newRoot hscalar h))
  · intro hbound
    obtain ⟨zv', hrollups, haccepts⟩ := accepts_sibling_prevRoot hscalar h
    exact sibling_ne _ (hbound zv' hrollups _ haccepts)

/-- The proof relation of a key determines the residue of each public input. -/
def InputsDetermined (curve : Bn256) (vk : VerifyingKey) : Prop :=
  ∀ (proof : Proof) (before after : List ℤ) (k k' : ℤ),
    groth16PairingCheck curve vk proof (before ++ k :: after) = true →
      groth16PairingCheck curve vk proof (before ++ k' :: after) = true →
        k ≡ k' [ZMOD groupOrder]

end Binding

/-! ## A batch accepted at two roots -/

section Residues

/-- A residue read from `w` bytes. -/
def readResidue (w : ℕ) (bs : List UInt8) : Option (ZMod groupOrder) :=
  if bs.length < w then none else some (bytesToNat (bs.take w))

/-- The group of residues in place of both groups, with multiplication as the pairing. -/
abbrev residueCurve : Bn256 where
  G1 := ZMod groupOrder
  G2 := ZMod groupOrder
  unmarshalG1 := readResidue 64
  unmarshalG2 := readResidue 128
  zero := 0
  add := (· + ·)
  scalarMult p k := p * k
  pairingCheck ps qs := decide ((ps.zipWith (· * ·) qs).sum = 0)

/-- The element `n` of the residue curve, in `w` bytes. -/
def element (w : ℕ) (n : UInt8) : List UInt8 := List.replicate (w - 1) 0 ++ [n]

/-- A key all of whose elements are the generator. -/
def residueKey : VerifyingKey :=
  ⟨element 64 1, element 128 1, element 128 1, element 128 1, List.replicate 5 (element 64 1)⟩

theorem residueCurve_scalarsReduced : ScalarsReduced residueCurve := by
  intro (p : ZMod groupOrder) k k' hk
  have hcast : (k : ZMod groupOrder) = k' := (ZMod.intCast_eq_intCast_iff _ _ _).mpr hk
  change p * (k : ZMod groupOrder) = p * k'
  rw [hcast]

/-- With every constraint at the generator, the combination is the sum of the inputs. -/
theorem addInputs_generator {vkX v : ZMod groupOrder} {inputs : List ℤ} :
    ∀ {n : ℕ},
      addInputs residueCurve vkX (List.replicate n (1 : ZMod groupOrder)) inputs = some v →
        v = vkX + (inputs.sum : ℤ) := by
  induction inputs generalizing vkX with
  | nil =>
      intro n h
      simp only [addInputs, Option.some.injEq] at h
      simp [h]
  | cons k inputs ih =>
      intro n h
      cases n with
      | zero => simp [addInputs] at h
      | succ n =>
          rw [List.replicate_succ, addInputs] at h
          rw [ih h, List.sum_cons]
          change (vkX : ZMod groupOrder) + 1 * (k : ZMod groupOrder) + _ = _
          push_cast
          ring

theorem readResidue_element {w : ℕ} {n : UInt8}
    (hvalue : bytesToNat ((element w n).take w) = n.toNat) (hlength : (element w n).length = w) :
    readResidue w (element w n) = some (n.toNat : ZMod groupOrder) := by
  rw [readResidue, if_neg (by omega), hvalue]

theorem readResidue_generator64 : readResidue 64 (element 64 1) = some 1 := by
  simpa using readResidue_element (w := 64) (n := 1) (by decide) (by decide)

theorem readResidue_generator128 : readResidue 128 (element 128 1) = some 1 := by
  simpa using readResidue_element (w := 128) (n := 1) (by decide +kernel) (by decide +kernel)

theorem readResidue_constraints :
    (List.replicate 5 (element 64 1)).mapM (readResidue 64) = some (List.replicate 5 1) := by
  simp only [List.replicate, List.mapM_cons, List.mapM_nil, readResidue_generator64]
  rfl

/-- The check on this key, with its points read. -/
theorem residueCheck_eq (proof : Proof) (inputs : List ℤ) :
    groth16PairingCheck residueCurve residueKey proof inputs =
      (do
        let a ← readResidue 64 proof.a
        let b ← readResidue 128 proof.b
        let c ← readResidue 64 proof.c
        let vkX ← addInputs residueCurve (1 : ZMod groupOrder)
          (List.replicate 4 (1 : ZMod groupOrder)) inputs
        return decide (a * b + (-1 + (-vkX + -c)) = 0)).getD false := by
  have hregular : (degenerate [residueKey.alpha, residueKey.beta, residueKey.gamma,
      residueKey.delta] || degenerate residueKey.ic) = false := by decide
  rw [groth16PairingCheck, hregular]
  simp only [residueKey, readResidue_generator64, readResidue_generator128,
    readResidue_constraints]
  simp [inputCombination, List.replicate, neg]

/-- An accepted proof fixes the sum of the inputs. -/
theorem residueCheck_sum {proof : Proof} {inputs inputs' : List ℤ}
    (h : groth16PairingCheck residueCurve residueKey proof inputs = true)
    (h' : groth16PairingCheck residueCurve residueKey proof inputs' = true) :
    ((inputs.sum : ℤ) : ZMod groupOrder) = (inputs'.sum : ℤ) := by
  rw [residueCheck_eq] at h h'
  cases ha : readResidue 64 proof.a with
  | none => simp [ha] at h
  | some a =>
  cases hb : readResidue 128 proof.b with
  | none => simp [ha, hb] at h
  | some b =>
  cases hc : readResidue 64 proof.c with
  | none => simp [ha, hb, hc] at h
  | some c =>
  cases hv : addInputs residueCurve (1 : ZMod groupOrder)
      (List.replicate 4 (1 : ZMod groupOrder)) inputs with
  | none => simp [ha, hb, hc, hv, -List.reduceReplicate] at h
  | some v =>
  cases hv' : addInputs residueCurve (1 : ZMod groupOrder)
      (List.replicate 4 (1 : ZMod groupOrder)) inputs' with
  | none => simp [ha, hb, hc, hv', -List.reduceReplicate] at h'
  | some v' =>
  have heq : a * b + (-1 + (-v + -c)) = 0 := by
    simpa [ha, hb, hc, hv, -List.reduceReplicate] using h
  have heq' : a * b + (-1 + (-v' + -c)) = 0 := by
    simpa [ha, hb, hc, hv', -List.reduceReplicate] using h'
  rw [addInputs_generator hv] at heq
  rw [addInputs_generator hv'] at heq'
  linear_combination heq' - heq

theorem residueKey_inputsDetermined : InputsDetermined residueCurve residueKey := by
  intro proof before after k k' h h'
  have hsum := residueCheck_sum h h'
  rw [← ZMod.intCast_eq_intCast_iff]
  simp only [List.sum_append, List.sum_cons] at hsum
  push_cast at hsum
  linear_combination hsum

/-- A batch from the zero root to the root `1`, with a proof of it. -/
def residueBatch : RollupBatch where
  batchID := 0
  prevStateRoot := 0
  newStateRoot := 1
  transactions := 0
  proof := some ⟨element 64 4, element 128 1, element 64 1⟩
  l1BatchNum := 0
  proposer := 7

/-- A Groth16 rollup under the key. -/
def residueRollup : RollupConfig := ⟨7, residueKey, .groth16, 100, 7, true⟩

/-- A verifier with this rollup. -/
def residueVerifier : ZKVerifier :=
  { newZKVerifier (fun _ => some residueKey) with
    rollups := Function.update (fun _ => none) 0 (some residueRollup)
    rollupStates := Function.update (fun _ => none) 0 (some genesisState) }

theorem residueVerifier_rollups : residueVerifier.rollups 0 = some residueRollup := by
  simp only [residueVerifier, Function.update_self]

theorem residueVerifier_rollupStates : residueVerifier.rollupStates 0 = some genesisState := by
  simp only [residueVerifier, Function.update_self]

theorem residueBatch_valid :
    groth16PairingCheck residueCurve residueKey
      ⟨element 64 4, element 128 1, element 64 1⟩ (groth16Inputs residueBatch) = true := by
  have ha : readResidue 64 (element 64 4) = some 4 := by
    simpa using readResidue_element (w := 64) (n := 4) (by decide) (by decide)
  have hinputs : groth16Inputs residueBatch = [0, 1, 0, 0] := by decide
  rw [residueCheck_eq, ha, readResidue_generator128, readResidue_generator64, hinputs]
  simp [addInputs, List.replicate]
  norm_num

theorem residueBatch_accepted :
    Accepts residueCurve (fun _ => 0) residueVerifier 0 residueBatch := by
  refine accepts_iff.mpr ⟨_, _, residueVerifier_rollups, residueVerifier_rollupStates, ?_⟩
  have hproof : verifyBatchProof residueCurve (fun _ => 0) residueRollup residueBatch =
      .ok true := congrArg Except.ok residueBatch_valid
  have hsize : ¬ residueRollup.maxTxPerBatch < residueBatch.transactions := by decide
  have hroot : residueBatch.prevStateRoot = genesisState.lastStateRoot := rfl
  have hproposer : residueBatch.proposer = residueRollup.sequencer := rfl
  have henabled : ¬ (!residueRollup.enabled) = true := by decide
  rw [checkRollupBatch, hproof, if_neg henabled, if_neg (fun h => h.1 hproposer), if_neg hsize,
    if_neg (fun h => h hroot)]
  rfl

theorem residueBatch_unbound :
    ¬ NewRootBound residueCurve (fun _ => 0) residueVerifier 0 residueBatch ∧
      ¬ PrevRootBound residueCurve (fun _ => 0) residueVerifier 0 residueBatch :=
  accepted_batch_unbound residueCurve_scalarsReduced residueBatch_accepted

/-- Even where the proof relation determines the residues of the inputs, one proof is
accepted for two batches that differ in the new root only. -/
theorem newRoot_not_bound :
    ¬ ∀ (curve : Bn256) (sha256 : List UInt8 → Word), ScalarsReduced curve →
      ∀ (zv : ZKVerifier) (id : Word) (config : RollupConfig) (batch : RollupBatch),
        zv.rollups id = some config → InputsDetermined curve config.verifyingKey →
          Accepts curve sha256 zv id batch →
            NewRootBound curve sha256 zv id batch ∧ PrevRootBound curve sha256 zv id batch := by
  intro hbound
  have hroots := hbound residueCurve (fun _ => 0) residueCurve_scalarsReduced residueVerifier 0
    residueRollup residueBatch residueVerifier_rollups
    residueKey_inputsDetermined residueBatch_accepted
  exact sibling_ne _ (hroots.1 _ (accepts_sibling_newRoot residueCurve_scalarsReduced
    residueBatch_accepted))

end Residues

end LuxPrecompile.Zk
