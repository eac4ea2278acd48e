import LuxPrecompile.Zk.Stark

/-!
# What an accepted STARK proof has been checked for

`Verify` walks the queries the proof brings, not the ones it derived indices for.  A proof
with fewer queries is accepted on those it has, in the extreme on none; one with more runs
past the indices.  The outcome of a run is read off its first query that does not pass.
-/

namespace LuxPrecompile.Zk

open Evm Support

variable {sha256 : List UInt8 → Word}

/-! ## One query -/

/-- The index of a query at a layer, from its index at the first. -/
def layerIndex (v : FRIVerifier) (index : UInt64) : ℕ → UInt64
  | 0 => index
  | n + 1 => layerIndex v (index / v.foldingFactor) n

/-- The query has a value and a path for a layer, and what the Merkle check says of them. -/
def PathCheck (sha256 : List UInt8 → Word) (query : FRIQueryResponse) (layer : ℕ) (root : Word)
    (index : UInt64) (result : Bool) : Prop :=
  ∃ value path, query.values[layer]? = some value ∧ query.authPaths[layer]? = some path ∧
    verifyMerkleProof sha256 root (uint64Bytes value) index path = result

/-- A query that passes: at the derived index, with a value more than there are layers, and
opened at every layer. -/
structure GoodQuery (sha256 : List UInt8 → Word) (v : FRIVerifier) (roots : List Word)
    (index : UInt64) (query : FRIQueryResponse) : Prop where
  index_eq : query.index = index
  values_length : query.values.length = roots.length + 1
  folding : roots = [] ∨ v.foldingFactor ≠ 0
  opens : ∀ k root, roots[k]? = some root →
    PathCheck sha256 query k root (layerIndex v query.index k) true

/-- A query that is refused with an error: it is at another index, it has another number of
values, or the first layer it does not open has a path that fails. -/
def RefusedQuery (sha256 : List UInt8 → Word) (v : FRIVerifier) (roots : List Word)
    (index : UInt64) (query : FRIQueryResponse) : Prop :=
  query.index ≠ index ∨ query.values.length ≠ roots.length + 1 ∨
    ∃ k root, roots[k]? = some root ∧
      PathCheck sha256 query k root (layerIndex v query.index k) false ∧
      (k = 0 ∨ v.foldingFactor ≠ 0) ∧
      ∀ j < k, ∀ root', roots[j]? = some root' →
        PathCheck sha256 query j root' (layerIndex v query.index j) true

section Layers

variable {v : FRIVerifier} {query : FRIQueryResponse} {root : Word} {roots : List Word}
  {layer : ℕ} {idx : UInt64}

theorem verifyLayers_missing (h : ∀ result, ¬PathCheck sha256 query layer root idx result) :
    verifyLayers sha256 v query (root :: roots) layer idx = .error .panic := by
  rw [verifyLayers, starkAt, starkAt]
  cases hvalue : query.values[layer]? with
  | none => rfl
  | some value =>
      cases hpath : query.authPaths[layer]? with
      | none => rfl
      | some path => exact absurd ⟨value, path, hvalue, hpath, rfl⟩ (h _)

theorem verifyLayers_false (h : PathCheck sha256 query layer root idx false) :
    verifyLayers sha256 v query (root :: roots) layer idx = .error .merkleProofFailed := by
  obtain ⟨value, path, hvalue, hpath, hcheck⟩ := h
  rw [verifyLayers, starkAt, starkAt, hvalue, hpath]
  simp only [bind, Except.bind, hcheck, Bool.not_false, if_true]

theorem verifyLayers_true (h : PathCheck sha256 query layer root idx true) :
    verifyLayers sha256 v query (root :: roots) layer idx =
      if v.foldingFactor = 0 then .error .panic
      else verifyLayers sha256 v query roots (layer + 1) (idx / v.foldingFactor) := by
  obtain ⟨value, path, hvalue, hpath, hcheck⟩ := h
  rw [verifyLayers, starkAt, starkAt, hvalue, hpath]
  simp only [bind, Except.bind, hcheck, Bool.not_true, Bool.false_eq_true, if_false]

/-- The loop over the layers passes when every layer is opened. -/
theorem verifyLayers_ok_iff :
    verifyLayers sha256 v query roots layer idx = .ok () ↔
      (roots = [] ∨ v.foldingFactor ≠ 0) ∧ ∀ k root, roots[k]? = some root →
        PathCheck sha256 query (layer + k) root (layerIndex v idx k) true := by
  induction roots generalizing layer idx with
  | nil => simp [verifyLayers]
  | cons root roots ih =>
      rw [forall_getElem?_cons]
      simp only [← Nat.succ_add_eq_add_succ, add_zero, layerIndex]
      by_cases htrue : PathCheck sha256 query layer root idx true
      · rw [verifyLayers_true htrue]
        split_ifs with hfactor
        · simp [hfactor]
        · rw [ih]
          simp [hfactor, htrue]
      · have hne : verifyLayers sha256 v query (root :: roots) layer idx ≠ .ok () := by
          by_cases hfalse : PathCheck sha256 query layer root idx false
          · rw [verifyLayers_false hfalse]
            simp
          · rw [verifyLayers_missing (by rintro (_ | _) <;> assumption)]
            simp
        exact ⟨fun h => absurd h hne, fun h => absurd h.2.1 htrue⟩

/-- The loop over the layers is refused at the first layer that is not opened, if that layer
has a value and a path. -/
theorem verifyLayers_refused_iff :
    (∃ e, e ≠ .panic ∧ verifyLayers sha256 v query roots layer idx = .error e) ↔
      ∃ k root, roots[k]? = some root ∧
        (PathCheck sha256 query (layer + k) root (layerIndex v idx k) false ∧
          (k = 0 ∨ v.foldingFactor ≠ 0)) ∧
        ∀ j < k, ∀ root', roots[j]? = some root' →
          PathCheck sha256 query (layer + j) root' (layerIndex v idx j) true := by
  induction roots generalizing layer idx with
  | nil => simp [verifyLayers]
  | cons root roots ih =>
      rw [exists_first_cons]
      simp only [← Nat.succ_add_eq_add_succ, add_zero, layerIndex]
      by_cases hfalse : PathCheck sha256 query layer root idx false
      · rw [verifyLayers_false hfalse]
        exact iff_of_true ⟨.merkleProofFailed, by decide, rfl⟩ (.inl ⟨hfalse, .inl trivial⟩)
      by_cases htrue : PathCheck sha256 query layer root idx true
      · rw [verifyLayers_true htrue]
        by_cases hfactor : v.foldingFactor = 0
        · simp [hfactor, hfalse]
        · rw [if_neg hfactor, ih]
          simp [hfactor, hfalse, htrue]
      · rw [verifyLayers_missing (by rintro (_ | _) <;> assumption)]
        simp [hfalse, htrue]

end Layers

/-! ## One round of the loop over the queries -/

section Round

variable {v : FRIVerifier} {commitment : FRICommitment} {alphas indices : List UInt64}
  {query : FRIQueryResponse} {index : UInt64}

/-- The round of a query for which an index was derived. -/
def checkQuery (sha256 : List UInt8 → Word) (v : FRIVerifier) (commitment : FRICommitment)
    (alphas : List UInt64) (index : UInt64) (query : FRIQueryResponse) : Except StarkError Unit :=
  if query.index ≠ index then .error .queryIndexMismatch
  else verifyQuery sha256 v commitment query alphas

theorem checkQuery_ok_iff (halphas : alphas.length = commitment.layerRoots.length) :
    checkQuery sha256 v commitment alphas index query = .ok () ↔
      GoodQuery sha256 v commitment.layerRoots index query := by
  unfold checkQuery verifyQuery
  rw [halphas]
  split_ifs with hindex hlength
  · exact ⟨fun h => (by cases h), fun h => absurd h.index_eq hindex⟩
  · exact ⟨fun h => (by cases h), fun h => absurd h.values_length hlength⟩
  · rw [verifyLayers_ok_iff]
    simp only [Nat.zero_add]
    constructor
    · rintro ⟨hfolding, hopens⟩
      exact ⟨not_not.mp hindex, not_not.mp hlength, hfolding, hopens⟩
    · exact fun h => ⟨h.folding, h.opens⟩

theorem checkQuery_refused_iff (halphas : alphas.length = commitment.layerRoots.length) :
    (∃ e, e ≠ .panic ∧ checkQuery sha256 v commitment alphas index query = .error e) ↔
      RefusedQuery sha256 v commitment.layerRoots index query := by
  unfold checkQuery verifyQuery RefusedQuery
  rw [halphas]
  split_ifs with hindex hlength
  · exact ⟨fun _ => .inl hindex, fun _ => ⟨.queryIndexMismatch, by decide, rfl⟩⟩
  · exact ⟨fun _ => .inr (.inl hlength), fun _ => ⟨.invalidQueryResponseLength, by decide, rfl⟩⟩
  · rw [verifyLayers_refused_iff]
    simp only [Nat.zero_add, hindex, hlength, false_or, and_assoc]

end Round

/-! ## The loop over the queries -/

section Queries

variable {v : FRIVerifier} {commitment : FRICommitment} {alphas indices : List UInt64}
  {queries : List FRIQueryResponse} {i : ℕ}

/-- The query at position `k` of the list has an index at its position, and passes. -/
def PassesAt (sha256 : List UInt8 → Word) (v : FRIVerifier) (roots : List Word)
    (indices : List UInt64) (position : ℕ) (query : FRIQueryResponse) : Prop :=
  ∃ index, indices[position]? = some index ∧ GoodQuery sha256 v roots index query

theorem verifyQueries_missing {query : FRIQueryResponse} (hindex : indices[i]? = none) :
    verifyQueries sha256 v commitment alphas indices i (query :: queries) = .error .panic := by
  rw [verifyQueries, starkAt, hindex]
  rfl

theorem verifyQueries_error {query : FRIQueryResponse} {index : UInt64} {e : StarkError}
    (hindex : indices[i]? = some index)
    (h : checkQuery sha256 v commitment alphas index query = .error e) :
    verifyQueries sha256 v commitment alphas indices i (query :: queries) = .error e := by
  rw [verifyQueries, starkAt, hindex]
  unfold checkQuery at h
  split_ifs at h with hne
  · simp only [bind, Except.bind, if_pos hne, h]
  · simp only [bind, Except.bind, if_neg hne, h]

theorem verifyQueries_next {query : FRIQueryResponse} {index : UInt64}
    (hindex : indices[i]? = some index)
    (h : checkQuery sha256 v commitment alphas index query = .ok ()) :
    verifyQueries sha256 v commitment alphas indices i (query :: queries) =
      verifyQueries sha256 v commitment alphas indices (i + 1) queries := by
  rw [verifyQueries, starkAt, hindex]
  unfold checkQuery at h
  split_ifs at h with hne
  simp only [bind, Except.bind, if_neg hne, h]

variable (halphas : alphas.length = commitment.layerRoots.length)

include halphas

theorem verifyQueries_passes {query : FRIQueryResponse}
    (h : PassesAt sha256 v commitment.layerRoots indices i query) :
    verifyQueries sha256 v commitment alphas indices i (query :: queries) =
      verifyQueries sha256 v commitment alphas indices (i + 1) queries := by
  obtain ⟨index, hindex, hgood⟩ := h
  exact verifyQueries_next hindex ((checkQuery_ok_iff halphas).mpr hgood)

/-- One that does not stops the loop, with an error other than a panic where an index was
derived and the query is refused. -/
theorem verifyQueries_stops {query : FRIQueryResponse}
    (h : ¬PassesAt sha256 v commitment.layerRoots indices i query) :
    ∃ e, verifyQueries sha256 v commitment alphas indices i (query :: queries) = .error e ∧
      (e ≠ .panic ↔ ∃ index, indices[i]? = some index ∧
        RefusedQuery sha256 v commitment.layerRoots index query) := by
  cases hindex : indices[i]? with
  | none => exact ⟨.panic, verifyQueries_missing hindex, by simp⟩
  | some index =>
      cases hcheck : checkQuery sha256 v commitment alphas index query with
      | ok _ => exact absurd ⟨index, hindex, (checkQuery_ok_iff halphas).mp hcheck⟩ h
      | error e =>
          refine ⟨e, verifyQueries_error hindex hcheck, ?_⟩
          simp only [Option.some.injEq, exists_eq_left', ← checkQuery_refused_iff halphas, hcheck,
            Except.error.injEq, exists_eq_right']

/-- The loop passes when every query does. -/
theorem verifyQueries_ok_iff :
    verifyQueries sha256 v commitment alphas indices i queries = .ok () ↔
      ∀ (k : ℕ) (query : FRIQueryResponse), queries[k]? = some query →
        PassesAt sha256 v commitment.layerRoots indices (i + k) query := by
  induction queries generalizing i with
  | nil => simp [verifyQueries]
  | cons query queries ih =>
      rw [forall_getElem?_cons]
      simp only [← Nat.succ_add_eq_add_succ, add_zero]
      by_cases hfirst : PassesAt sha256 v commitment.layerRoots indices i query
      · rw [verifyQueries_passes halphas hfirst, ih, and_iff_right hfirst]
      · obtain ⟨e, herror, -⟩ := verifyQueries_stops halphas hfirst
        rw [herror]
        exact ⟨fun h => (by cases h), fun h => absurd h.1 hfirst⟩

/-- A query is refused at the index of its position. -/
def RefusedAt (sha256 : List UInt8 → Word) (v : FRIVerifier) (roots : List Word)
    (indices : List UInt64) (position : ℕ) (query : FRIQueryResponse) : Prop :=
  ∃ index, indices[position]? = some index ∧ RefusedQuery sha256 v roots index query

theorem PassesAt.not_refusedAt {query : FRIQueryResponse}
    (h : PassesAt sha256 v commitment.layerRoots indices i query) :
    ¬RefusedAt sha256 v commitment.layerRoots indices i query := by
  rintro ⟨index, hindex, hrefused⟩
  obtain ⟨index', hindex', hgood⟩ := h
  obtain rfl : index' = index := Option.some.inj (hindex'.symm.trans hindex)
  obtain ⟨e, -, herror⟩ := (checkQuery_refused_iff halphas).mpr hrefused
  rw [(checkQuery_ok_iff halphas).mpr hgood] at herror
  cases herror

/-- The loop is refused at the first query that does not pass, if an index was derived for
it and it is refused with an error. -/
theorem verifyQueries_refused_iff :
    (∃ e, e ≠ .panic ∧
        verifyQueries sha256 v commitment alphas indices i queries = .error e) ↔
      ∃ (k : ℕ) (query : FRIQueryResponse), queries[k]? = some query ∧
        RefusedAt sha256 v commitment.layerRoots indices (i + k) query ∧
        ∀ j < k, ∀ query', queries[j]? = some query' →
          PassesAt sha256 v commitment.layerRoots indices (i + j) query' := by
  induction queries generalizing i with
  | nil => simp [verifyQueries]
  | cons query queries ih =>
      rw [exists_first_cons]
      simp only [← Nat.succ_add_eq_add_succ, add_zero]
      by_cases hfirst : PassesAt sha256 v commitment.layerRoots indices i query
      · rw [verifyQueries_passes halphas hfirst, ih, or_iff_right (hfirst.not_refusedAt halphas),
          and_iff_right hfirst]
      · obtain ⟨e, herror, hpanic⟩ := verifyQueries_stops halphas hfirst
        rw [herror, or_iff_left fun h => hfirst h.1, RefusedAt, ← hpanic]
        simp only [Except.error.injEq, exists_eq_right']

end Queries

/-! ## Verification -/

@[simp]
theorem transcriptChallenges_length (n : ℕ) (state : Word) :
    (transcriptChallenges sha256 n state).1.length = n := by
  induction n generalizing state with
  | zero => rfl
  | succ n ih =>
      rw [transcriptChallenges, List.length_cons, ih]

section Verify

variable {v : STARKVerifier} {proof : STARKProof} {publicInputs : List UInt64}

theorem deriveChallenges_length :
    (deriveChallenges sha256 v proof publicInputs).1.length =
        proof.friCommitment.layerRoots.length ∧
      (deriveChallenges sha256 v proof publicInputs).2.length = v.fri.numQueries.toNat := by
  simp [deriveChallenges]

/-- The indices `Verify` derives. -/
def queryIndices (sha256 : List UInt8 → Word) (v : STARKVerifier) (proof : STARKProof)
    (publicInputs : List UInt64) : List UInt64 :=
  (deriveChallenges sha256 v proof publicInputs).2

/-- Every wanted query is there, at its derived index, and opened at every layer. -/
structure FullyChecked (sha256 : List UInt8 → Word) (v : STARKVerifier) (proof : STARKProof)
    (publicInputs : List UInt64) : Prop where
  count : proof.friQueries.length = v.fri.numQueries.toNat
  index : ∀ (i : ℕ) (query : FRIQueryResponse), proof.friQueries[i]? = some query →
    (queryIndices sha256 v proof publicInputs)[i]? = some query.index
  opens : ∀ (i : ℕ) (query : FRIQueryResponse), proof.friQueries[i]? = some query →
    ∀ (k : ℕ) (root : Word), proof.friCommitment.layerRoots[k]? = some root →
      PathCheck sha256 query k root (layerIndex v.fri query.index k) true

/-- `Verify` does not panic, and accepts only what it has fully checked. -/
def VerifySound (sha256 : List UInt8 → Word) (v : STARKVerifier) (proof : STARKProof)
    (publicInputs : List UInt64) : Prop :=
  verifySTARK sha256 v proof publicInputs ≠ .error .panic ∧
    (verifySTARK sha256 v proof publicInputs = .ok true →
      FullyChecked sha256 v proof publicInputs)

/-- The queries are as many as wanted and all pass; or the first that does not is among the
wanted ones and is refused for its index, its number of values or a path that fails, and
not for a path that is missing. -/
def Conclusive (sha256 : List UInt8 → Word) (v : STARKVerifier) (proof : STARKProof)
    (publicInputs : List UInt64) : Prop :=
  let roots := proof.friCommitment.layerRoots
  let indices := queryIndices sha256 v proof publicInputs
  (proof.friQueries.length = v.fri.numQueries.toNat ∧
      ∀ (k : ℕ) (query : FRIQueryResponse), proof.friQueries[k]? = some query →
        PassesAt sha256 v.fri roots indices k query) ∨
    ∃ (k : ℕ) (query : FRIQueryResponse) (index : UInt64),
      proof.friQueries[k]? = some query ∧ indices[k]? = some index ∧
        RefusedQuery sha256 v.fri roots index query ∧
        ∀ j < k, ∀ query', proof.friQueries[j]? = some query' →
          PassesAt sha256 v.fri roots indices j query'

theorem verifySTARK_eq :
    verifySTARK sha256 v proof publicInputs =
      (verifyQueries sha256 v.fri proof.friCommitment
        (deriveChallenges sha256 v proof publicInputs).1
        (queryIndices sha256 v proof publicInputs) 0 proof.friQueries).map fun _ => true := by
  have hrun : ∀ x : Except StarkError Unit,
      (x >>= fun _ => (.ok true : Except StarkError Bool)) = x.map fun _ => true := by
    intro x
    cases x with
    | error e => rfl
    | ok _ => rfl
  exact hrun _

theorem verifySTARK_ok_iff :
    verifySTARK sha256 v proof publicInputs = .ok true ↔
      ∀ (k : ℕ) (query : FRIQueryResponse), proof.friQueries[k]? = some query →
        PassesAt sha256 v.fri proof.friCommitment.layerRoots
          (queryIndices sha256 v proof publicInputs) k query := by
  have hqueries : verifyQueries sha256 v.fri proof.friCommitment
        (deriveChallenges sha256 v proof publicInputs).1
        (queryIndices sha256 v proof publicInputs) 0 proof.friQueries = .ok () ↔ _ :=
    verifyQueries_ok_iff deriveChallenges_length.1
  simp only [Nat.zero_add] at hqueries
  rw [verifySTARK_eq, ← hqueries]
  cases verifyQueries sha256 v.fri proof.friCommitment
    (deriveChallenges sha256 v proof publicInputs).1
    (queryIndices sha256 v proof publicInputs) 0 proof.friQueries with
  | error e => simp [Except.map]
  | ok _ => simp [Except.map]

theorem verifySTARK_refused_iff :
    (∃ e, e ≠ .panic ∧ verifySTARK sha256 v proof publicInputs = .error e) ↔
      ∃ (k : ℕ) (query : FRIQueryResponse) (index : UInt64),
        proof.friQueries[k]? = some query ∧
        (queryIndices sha256 v proof publicInputs)[k]? = some index ∧
        RefusedQuery sha256 v.fri proof.friCommitment.layerRoots index query ∧
        ∀ j < k, ∀ query', proof.friQueries[j]? = some query' →
          PassesAt sha256 v.fri proof.friCommitment.layerRoots
            (queryIndices sha256 v proof publicInputs) j query' := by
  have hqueries : (∃ e, e ≠ .panic ∧ verifyQueries sha256 v.fri proof.friCommitment
        (deriveChallenges sha256 v proof publicInputs).1
        (queryIndices sha256 v proof publicInputs) 0 proof.friQueries = .error e) ↔ _ :=
    verifyQueries_refused_iff deriveChallenges_length.1
  simp only [Nat.zero_add, RefusedAt, ← exists_and_right, ← exists_and_left, and_assoc]
    at hqueries
  rw [verifySTARK_eq, ← hqueries]
  cases verifyQueries sha256 v.fri proof.friCommitment
    (deriveChallenges sha256 v proof publicInputs).1
    (queryIndices sha256 v proof publicInputs) 0 proof.friQueries with
  | error e => simp [Except.map]
  | ok _ => simp [Except.map]

/-- A run ends in acceptance, in a refusal or in a panic. -/
theorem verifySTARK_cases :
    verifySTARK sha256 v proof publicInputs = .ok true ∨
      verifySTARK sha256 v proof publicInputs = .error .panic ∨
      ∃ e, e ≠ .panic ∧ verifySTARK sha256 v proof publicInputs = .error e := by
  rw [verifySTARK_eq]
  cases verifyQueries sha256 v.fri proof.friCommitment
    (deriveChallenges sha256 v proof publicInputs).1
    (queryIndices sha256 v proof publicInputs) 0 proof.friQueries with
  | ok _ => exact .inl rfl
  | error e =>
      by_cases he : e = .panic
      · exact .inr (.inl (by rw [he]; rfl))
      · exact .inr (.inr ⟨e, he, rfl⟩)

theorem fullyChecked_of_passes (hcount : proof.friQueries.length = v.fri.numQueries.toNat)
    (h : ∀ (k : ℕ) (query : FRIQueryResponse), proof.friQueries[k]? = some query →
      PassesAt sha256 v.fri proof.friCommitment.layerRoots
        (queryIndices sha256 v proof publicInputs) k query) :
    FullyChecked sha256 v proof publicInputs := by
  refine ⟨hcount, fun i query hi => ?_, fun i query hi k root hk => ?_⟩
  · obtain ⟨index, hindex, hgood⟩ := h i query hi
    rw [hindex, hgood.index_eq]
  · obtain ⟨index, -, hgood⟩ := h i query hi
    exact hgood.opens k root hk

/-- For every proof and statement: `Verify` does not panic and accepts only what it has
fully checked, exactly when the queries of the proof settle the matter as `Conclusive`
says. -/
theorem verifySTARK_sound_iff (sha256 : List UInt8 → Word) (v : STARKVerifier)
    (proof : STARKProof) (publicInputs : List UInt64) :
    VerifySound sha256 v proof publicInputs ↔ Conclusive sha256 v proof publicInputs := by
  constructor
  · rintro ⟨hpanic, haccept⟩
    obtain hok | hcrash | hrefused := verifySTARK_cases
    · exact .inl ⟨(haccept hok).count, verifySTARK_ok_iff.mp hok⟩
    · exact absurd hcrash hpanic
    · exact .inr (verifySTARK_refused_iff.mp hrefused)
  · rintro (⟨hcount, hpasses⟩ | hrefused)
    · have hok := verifySTARK_ok_iff.mpr hpasses
      refine ⟨?_, fun _ => fullyChecked_of_passes hcount hpasses⟩
      rw [hok]
      simp
    · obtain ⟨e, he, herror⟩ := verifySTARK_refused_iff.mpr hrefused
      rw [VerifySound, herror]
      refine ⟨?_, fun h => (by cases h)⟩
      intro hcrash
      cases hcrash
      exact he rfl

theorem starkVerifyPrecompile_accepts {verifiers : Word → Option STARKVerifier}
    {input : List UInt8} (hlength : 36 + 8 * bytesToNat (slice input 32 36) ≤ input.length)
    (hverifier : verifiers (bytesToHash (slice input 0 32)) = some v) :
    starkVerifyPrecompile sha256 verifiers input = .ok (natToBytes 32 1) := by
  rw [starkVerifyPrecompile, if_neg (by omega), if_neg (by omega), hverifier]
  dsimp only
  rw [if_neg (by omega)]
  rfl

end Verify

/-- A proof without queries is accepted by a verifier that wants forty. -/
theorem empty_proof_accepted :
    ¬∀ (sha256 : List UInt8 → Word) (v : STARKVerifier) (proof : STARKProof)
      (publicInputs : List UInt64), VerifySound sha256 v proof publicInputs := by
  intro h
  have hsound := h (fun _ => 0) (newSTARKVerifier 1) .empty []
  have hcount := (hsound.2 rfl).count
  revert hcount
  decide

end LuxPrecompile.Zk
