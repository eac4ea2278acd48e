import LuxPrecompile.Zk.Binding
import LuxPrecompile.Support.Runs
import LuxPrecompile.Support.Sums

/-!
# Histories of rollups and pools

A run of the verifier is kept beside the batches it accepted.  These form one chain for
each rollup, and the deposits of a pool are the amounts stored in it, exactly as long
as no rollup is registered again after its start and no commitment is added twice.
-/

namespace LuxPrecompile.Zk

open Evm Support

section History

variable (curve : Bn256) (sha256 : List UInt8 → Word)

/-! ## Runs -/

/-- A call to the verifier. -/
inductive Call
  | registerRollup (owner : Address) (verifyingKeyID : Word) (proofSystem : ProofSystem)
      (maxTxPerBatch : UInt64) (sequencer : Address)
  | verifyRollupBatch (rollupID : Word) (batch : RollupBatch)
  | createConfidentialPool (owner token : Address)
  | addCommitment (poolID : Word) (commitment : Commitment)
deriving DecidableEq

def perform (zv : ZKVerifier) : Call → Except Error ZKVerifier
  | .registerRollup owner verifyingKeyID proofSystem maxTxPerBatch sequencer =>
      registerRollup sha256 zv owner verifyingKeyID proofSystem maxTxPerBatch sequencer
  | .verifyRollupBatch id batch => verifyRollupBatch curve sha256 zv id batch
  | .createConfidentialPool owner token => .ok (createConfidentialPool sha256 zv owner token)
  | .addCommitment poolID commitment => addCommitment sha256 zv poolID commitment

/-- A verifier and the batches accepted for each rollup, the earliest first. -/
structure Ledger where
  zv : ZKVerifier
  accepted : Word → List RollupBatch

/-- The accepted batches after a successful call. -/
def Ledger.acceptedAfter (l : Ledger) : Call → Word → List RollupBatch
  | .verifyRollupBatch id batch => Function.update l.accepted id (l.accepted id ++ [batch])
  | _ => l.accepted

/-- A call; a failed one changes nothing. -/
def record (l : Ledger) (call : Call) : Ledger :=
  match perform curve sha256 l.zv call with
  | .error _ => l
  | .ok zv => ⟨zv, l.acceptedAfter call⟩

/-- A new verifier with the keys registered on it. -/
def deployed (verifyingKeys : Word → Option VerifyingKey) : Ledger :=
  ⟨newZKVerifier verifyingKeys, fun _ => []⟩

/-! ## The property -/

/-- Each batch starts at the root where the one before it ended. -/
def ChainedFrom : Word → List RollupBatch → Prop
  | _, [] => True
  | root, batch :: batches => batch.prevStateRoot = root ∧ ChainedFrom batch.newStateRoot batches

/-- The root at the end of a chain. -/
def rootAfter : Word → List RollupBatch → Word
  | root, [] => root
  | _, batch :: batches => rootAfter batch.newStateRoot batches

/-- The amount stored under an id. -/
def amountOf : Option Commitment → ℤ
  | none => 0
  | some commitment => commitment.amount

/-- What holds between calls. -/
structure Sound (l : Ledger) : Prop where
  chained : ∀ id, ChainedFrom 0 (l.accepted id)
  counted : ∀ id state, l.zv.rollupStates id = some state →
    state.totalBatches.toNat = (l.accepted id).length
  deposits : ∀ id pool, l.zv.pools id = some pool →
    pool.totalDeposits = ∑ commitID : Word, amountOf (pool.commitments commitID)

/-- A registered rollup keeps its root and counters unless a batch of it is accepted. -/
def Keeps (l l' : Ledger) : Prop :=
  ∀ id state, l.zv.rollupStates id = some state →
    ∃ state', l'.zv.rollupStates id = some state' ∧
      (l'.accepted id ≠ l.accepted id ∨
        (state'.lastStateRoot = state.lastStateRoot ∧
          state'.totalBatches = state.totalBatches ∧ state'.totalTxs = state.totalTxs))

/-- What a call must respect. -/
def Lawful (l : Ledger) (call : Call) : Prop :=
  Keeps l (record curve sha256 l call) ∧ Sound (record curve sha256 l call)

/-- A registered rollup that is still at its start, room in the batch counter for a batch
that passes its checks, and a commitment that is not in an enabled pool yet. -/
def Clean (l : Ledger) : Call → Prop
  | .registerRollup owner verifyingKeyID _ _ _ =>
      l.zv.verifyingKeys verifyingKeyID ≠ none →
        ∀ state, l.zv.rollupStates (rollupID sha256 owner verifyingKeyID) = some state →
          state.lastStateRoot = 0 ∧ state.totalBatches = 0 ∧ state.totalTxs = 0
  | .verifyRollupBatch id batch =>
      ∀ config state, l.zv.rollups id = some config → l.zv.rollupStates id = some state →
        checkRollupBatch curve sha256 config state batch = .ok () →
          state.totalBatches.toNat + 1 < 2 ^ 64
  | .createConfidentialPool _ _ => True
  | .addCommitment poolID commitment =>
      ∀ pool, l.zv.pools poolID = some pool → pool.enabled = true →
        amountOf (pool.commitments (sha256 commitment.value)) = 0

/-! ## Chains -/

theorem rootAfter_append (batch : RollupBatch) :
    ∀ (root : Word) (batches : List RollupBatch),
      rootAfter root (batches ++ [batch]) = batch.newStateRoot
  | _, [] => rfl
  | _, b :: batches => rootAfter_append batch b.newStateRoot batches

theorem chainedFrom_append {batch : RollupBatch} :
    ∀ {root : Word} {batches : List RollupBatch}, ChainedFrom root batches →
      batch.prevStateRoot = rootAfter root batches → ChainedFrom root (batches ++ [batch])
  | _, [], _, hprev => ⟨hprev, trivial⟩
  | _, _ :: _, h, hprev => ⟨h.1, chainedFrom_append h.2 hprev⟩

/-! ## The reachable states -/

/-- The states a run can reach: the accepted batches end at the root of the rollup. -/
structure Valid (l : Ledger) : Prop where
  sound : Sound l
  root : ∀ id state, l.zv.rollupStates id = some state →
    state.lastStateRoot = rootAfter 0 (l.accepted id)
  registered : ∀ id, l.zv.rollupStates id = none → l.accepted id = []

theorem deployed_valid (verifyingKeys : Word → Option VerifyingKey) :
    Valid (deployed verifyingKeys) where
  sound :=
    { chained := fun _ => trivial
      counted := fun _ _ h => by cases h
      deposits := fun _ _ h => by cases h }
  root _ _ h := by cases h
  registered _ _ := rfl

/-! ## The calls -/

variable {curve sha256}

/-- The ledger after a registration. -/
def Ledger.register (l : Ledger) (id : Word) (config : RollupConfig) : Ledger :=
  ⟨{ l.zv with
    rollups := Function.update l.zv.rollups id (some config)
    rollupStates := Function.update l.zv.rollupStates id (some genesisState) }, l.accepted⟩

/-- The ledger after an accepted batch. -/
def Ledger.accept (l : Ledger) (id : Word) (state : RollupState) (batch : RollupBatch) : Ledger :=
  ⟨{ l.zv with
    rollupStates := Function.update l.zv.rollupStates id (some (state.advance batch)) },
    Function.update l.accepted id (l.accepted id ++ [batch])⟩

/-- The ledger with another pool. -/
def Ledger.setPool (l : Ledger) (id : Word) (pool : ConfidentialPool) : Ledger :=
  ⟨{ l.zv with pools := Function.update l.zv.pools id (some pool) }, l.accepted⟩

theorem Ledger.register_rollupStates (l : Ledger) (id : Word) (config : RollupConfig) :
    (l.register id config).zv.rollupStates =
      Function.update l.zv.rollupStates id (some genesisState) := rfl

theorem Ledger.accept_rollupStates (l : Ledger) (id : Word) (state : RollupState)
    (batch : RollupBatch) :
    (l.accept id state batch).zv.rollupStates =
      Function.update l.zv.rollupStates id (some (state.advance batch)) := rfl

theorem Ledger.accept_accepted (l : Ledger) (id : Word) (state : RollupState)
    (batch : RollupBatch) :
    (l.accept id state batch).accepted =
      Function.update l.accepted id (l.accepted id ++ [batch]) := rfl

theorem Ledger.setPool_pools (l : Ledger) (id : Word) (pool : ConfidentialPool) :
    (l.setPool id pool).zv.pools = Function.update l.zv.pools id (some pool) := rfl

theorem Ledger.setPool_self (l : Ledger) (id : Word) (pool : ConfidentialPool) :
    (l.setPool id pool).zv.pools id = some pool := Function.update_self _ _ _

theorem record_registerRollup {l : Ledger} {verifyingKeyID : Word} {vk : VerifyingKey}
    (hkey : l.zv.verifyingKeys verifyingKeyID = some vk) (owner : Address)
    (proofSystem : ProofSystem) (maxTxPerBatch : UInt64) (sequencer : Address) :
    record curve sha256 l
        (.registerRollup owner verifyingKeyID proofSystem maxTxPerBatch sequencer) =
      l.register (rollupID sha256 owner verifyingKeyID)
        ⟨owner, vk, proofSystem, maxTxPerBatch, sequencer, true⟩ := by
  simp only [record, perform, registerRollup, hkey]
  rfl

theorem record_verifyRollupBatch {l : Ledger} {id : Word} {batch : RollupBatch}
    {config : RollupConfig} {state : RollupState} (hconfig : l.zv.rollups id = some config)
    (hstate : l.zv.rollupStates id = some state)
    (hcheck : checkRollupBatch curve sha256 config state batch = .ok ()) :
    record curve sha256 l (.verifyRollupBatch id batch) = l.accept id state batch := by
  simp only [record, perform, verifyRollupBatch, hconfig, hstate, hcheck, bind, Except.bind]
  rfl

theorem record_addCommitment {l : Ledger} {poolID : Word} {pool : ConfidentialPool}
    (hpool : l.zv.pools poolID = some pool) (henabled : pool.enabled = true)
    (commitment : Commitment) :
    record curve sha256 l (.addCommitment poolID commitment) =
      l.setPool poolID (pool.add (sha256 commitment.value) commitment) := by
  simp only [record, perform, addCommitment, hpool, henabled]
  rfl

variable (curve sha256) in
/-- What a call does. -/
inductive Effect (l : Ledger) : Call → Ledger → Prop
  | idle (call : Call) : Effect l call l
  | registered (owner : Address) (verifyingKeyID : Word) (config : RollupConfig)
      (proofSystem : ProofSystem) (maxTxPerBatch : UInt64) (sequencer : Address)
      (hkey : l.zv.verifyingKeys verifyingKeyID ≠ none) :
      Effect l (.registerRollup owner verifyingKeyID proofSystem maxTxPerBatch sequencer)
        (l.register (rollupID sha256 owner verifyingKeyID) config)
  | accepted (id : Word) (batch : RollupBatch) (config : RollupConfig) (state : RollupState)
      (hconfig : l.zv.rollups id = some config) (hstate : l.zv.rollupStates id = some state)
      (hcheck : checkRollupBatch curve sha256 config state batch = .ok ()) :
      Effect l (.verifyRollupBatch id batch) (l.accept id state batch)
  | created (owner token : Address) :
      Effect l (.createConfidentialPool owner token)
        (l.setPool (poolID sha256 owner token) ⟨fun _ => none, 0, true⟩)
  | added (poolID : Word) (commitment : Commitment) (pool : ConfidentialPool)
      (hpool : l.zv.pools poolID = some pool) (henabled : pool.enabled = true) :
      Effect l (.addCommitment poolID commitment)
        (l.setPool poolID (pool.add (sha256 commitment.value) commitment))

theorem record_effect (l : Ledger) (call : Call) :
    Effect curve sha256 l call (record curve sha256 l call) := by
  cases call with
  | registerRollup owner verifyingKeyID proofSystem maxTxPerBatch sequencer =>
      cases hkey : l.zv.verifyingKeys verifyingKeyID with
      | none =>
          simp only [record, perform, registerRollup, hkey]
          exact .idle _
      | some vk =>
          rw [record_registerRollup hkey]
          exact .registered _ _ _ _ _ _ (by simp [hkey])
  | verifyRollupBatch id batch =>
      cases hconfig : l.zv.rollups id with
      | none =>
          simp only [record, perform, verifyRollupBatch, hconfig]
          exact .idle _
      | some config =>
          cases hstate : l.zv.rollupStates id with
          | none =>
              simp only [record, perform, verifyRollupBatch, hconfig, hstate]
              exact .idle _
          | some state =>
              cases hcheck : checkRollupBatch curve sha256 config state batch with
              | error e =>
                  simp only [record, perform, verifyRollupBatch, hconfig, hstate, hcheck, bind,
                    Except.bind]
                  exact .idle _
              | ok _ =>
                  rw [record_verifyRollupBatch hconfig hstate hcheck]
                  exact .accepted id batch config state hconfig hstate hcheck
  | createConfidentialPool owner token => exact .created owner token
  | addCommitment poolID commitment =>
      cases hpool : l.zv.pools poolID with
      | none =>
          simp only [record, perform, addCommitment, hpool]
          exact .idle _
      | some pool =>
          cases henabled : pool.enabled with
          | false =>
              simp only [record, perform, addCommitment, hpool, henabled]
              exact .idle _
          | true =>
              rw [record_addCommitment hpool henabled]
              exact .added poolID commitment pool hpool henabled

/-! ## One call -/

theorem Keeps.of_rollupStates {l l' : Ledger} (h : l'.zv.rollupStates = l.zv.rollupStates) :
    Keeps l l' := by
  intro id state hstate
  exact ⟨state, h ▸ hstate, .inr ⟨rfl, rfl, rfl⟩⟩

theorem ConfidentialPool.add_total (pool : ConfidentialPool) (id : Word)
    (commitment : Commitment) :
    ∑ commitID : Word, amountOf ((pool.add id commitment).commitments commitID) +
        amountOf (pool.commitments id) =
      ∑ commitID : Word, amountOf (pool.commitments commitID) + commitment.amount := by
  have hsum := sum_add_of_eq_off (f := fun commitID => amountOf (pool.commitments commitID))
    (g := fun commitID => amountOf ((pool.add id commitment).commitments commitID)) id
    (fun commitID hne => by simp [ConfidentialPool.add, Function.update_of_ne hne])
  simpa [ConfidentialPool.add, amountOf] using hsum

/-- Replacing a pool by one whose deposits add up. -/
theorem Valid.setPool {l : Ledger} (hl : Valid l) (id : Word) {pool : ConfidentialPool}
    (hpool : pool.totalDeposits = ∑ commitID : Word, amountOf (pool.commitments commitID)) :
    Valid (l.setPool id pool) where
  sound :=
    { chained := hl.sound.chained
      counted := hl.sound.counted
      deposits := by
        intro id' pool' h
        rw [l.setPool_pools, update_eq_some] at h
        obtain ⟨rfl, rfl⟩ | ⟨-, h⟩ := h
        · exact hpool
        · exact hl.sound.deposits id' pool' h }
  root := hl.root
  registered := hl.registered

/-- A rollup at its start may be registered again. -/
theorem Valid.register {l : Ledger} (hl : Valid l) {id : Word} (config : RollupConfig)
    (hfresh : ∀ state, l.zv.rollupStates id = some state →
      state.lastStateRoot = 0 ∧ state.totalBatches = 0 ∧ state.totalTxs = 0) :
    Valid (l.register id config) ∧ Keeps l (l.register id config) := by
  have haccepted : l.accepted id = [] := by
    cases hstate : l.zv.rollupStates id with
    | none => exact hl.registered id hstate
    | some state =>
        have hcount := hl.sound.counted id state hstate
        rw [(hfresh state hstate).2.1] at hcount
        exact List.length_eq_zero_iff.mp hcount.symm
  have hstates : ∀ id' state, (l.register id config).zv.rollupStates id' = some state →
      (id' = id ∧ state = genesisState) ∨ l.zv.rollupStates id' = some state := by
    intro id' state h
    rw [l.register_rollupStates, update_eq_some] at h
    obtain ⟨rfl, rfl⟩ | ⟨-, h⟩ := h
    · exact .inl ⟨rfl, rfl⟩
    · exact .inr h
  refine ⟨⟨⟨hl.sound.chained, ?_, hl.sound.deposits⟩, ?_, ?_⟩, ?_⟩
  · intro id' state h
    rcases hstates id' state h with ⟨rfl, rfl⟩ | h
    · change 0 = (l.accepted id').length
      rw [haccepted, List.length_nil]
    · exact hl.sound.counted id' state h
  · intro id' state h
    rcases hstates id' state h with ⟨rfl, rfl⟩ | h
    · change 0 = rootAfter 0 (l.accepted id')
      rw [haccepted, rootAfter]
    · exact hl.root id' state h
  · intro id' h
    by_cases heq : id' = id
    · exact heq ▸ haccepted
    · rw [l.register_rollupStates, Function.update_of_ne heq] at h
      exact hl.registered id' h
  · intro id' state hstate
    by_cases heq : id' = id
    · subst heq
      obtain ⟨hroot, hbatches, htxs⟩ := hfresh state hstate
      exact ⟨genesisState, Function.update_self _ _ _, .inr ⟨hroot.symm, hbatches.symm, htxs.symm⟩⟩
    · refine ⟨state, ?_, .inr ⟨rfl, rfl, rfl⟩⟩
      rw [l.register_rollupStates, Function.update_of_ne heq]
      exact hstate

theorem prevStateRoot_of_check {config : RollupConfig} {state : RollupState} {batch : RollupBatch}
    (h : checkRollupBatch curve sha256 config state batch = .ok ()) :
    batch.prevStateRoot = state.lastStateRoot := by
  rw [checkRollupBatch, refuse_eq_ok, refuse_eq_ok, refuse_eq_ok, refuse_eq_ok] at h
  exact not_not.mp h.2.2.2.1

/-- A batch that passes its checks, with room in the counter. -/
theorem Valid.accept {l : Ledger} (hl : Valid l) {id : Word} {batch : RollupBatch}
    {config : RollupConfig} {state : RollupState} (hstate : l.zv.rollupStates id = some state)
    (hcheck : checkRollupBatch curve sha256 config state batch = .ok ())
    (hroom : state.totalBatches.toNat + 1 < 2 ^ 64) :
    Valid (l.accept id state batch) := by
  have hprev : batch.prevStateRoot = rootAfter 0 (l.accepted id) := by
    rw [prevStateRoot_of_check hcheck, hl.root id state hstate]
  have hstates : ∀ id' state', (l.accept id state batch).zv.rollupStates id' = some state' →
      (id' = id ∧ state' = state.advance batch) ∨
        (id' ≠ id ∧ l.zv.rollupStates id' = some state') := by
    intro id' state' h
    rw [l.accept_rollupStates, update_eq_some] at h
    obtain ⟨rfl, rfl⟩ | h := h
    · exact .inl ⟨rfl, rfl⟩
    · exact .inr h
  have hself : (l.accept id state batch).accepted id = l.accepted id ++ [batch] :=
    Function.update_self _ _ _
  have hother : ∀ id', id' ≠ id → (l.accept id state batch).accepted id' = l.accepted id' :=
    fun id' hne => Function.update_of_ne hne _ _
  refine ⟨⟨?_, ?_, hl.sound.deposits⟩, ?_, ?_⟩
  · intro id'
    by_cases heq : id' = id
    · subst heq
      rw [hself]
      exact chainedFrom_append (hl.sound.chained id') hprev
    · rw [hother id' heq]
      exact hl.sound.chained id'
  · intro id' state' h
    rcases hstates id' state' h with ⟨rfl, rfl⟩ | ⟨hne, h⟩
    · rw [hself, List.length_append, List.length_singleton, ← hl.sound.counted id' state hstate]
      change (state.totalBatches + 1).toNat = _
      rw [UInt64.toNat_add, UInt64.toNat_one, Nat.mod_eq_of_lt hroom]
    · rw [hother id' hne]
      exact hl.sound.counted id' state' h
  · intro id' state' h
    rcases hstates id' state' h with ⟨rfl, rfl⟩ | ⟨hne, h⟩
    · rw [hself, rootAfter_append]
      rfl
    · rw [hother id' hne]
      exact hl.root id' state' h
  · intro id' h
    rw [l.accept_rollupStates, update_eq_none] at h
    rw [hother id' h.1]
    exact hl.registered id' h.2

theorem keeps_accept (l : Ledger) (id : Word) (state : RollupState) (batch : RollupBatch) :
    Keeps l (l.accept id state batch) := by
  intro id' state' hstate
  by_cases heq : id' = id
  · subst heq
    refine ⟨state.advance batch, Function.update_self _ _ _, .inl ?_⟩
    rw [l.accept_accepted, Function.update_self]
    simp
  · refine ⟨state', ?_, .inr ⟨rfl, rfl, rfl⟩⟩
    rw [l.accept_rollupStates, Function.update_of_ne heq]
    exact hstate

/-- A clean call is lawful and keeps the states valid. -/
theorem Valid.step {l : Ledger} (hl : Valid l) {call : Call} (h : Clean curve sha256 l call) :
    Valid (record curve sha256 l call) ∧ Keeps l (record curve sha256 l call) := by
  have heffect : Effect curve sha256 l call (record curve sha256 l call) := record_effect l call
  generalize record curve sha256 l call = l' at heffect
  cases heffect with
  | idle => exact ⟨hl, .of_rollupStates rfl⟩
  | registered owner verifyingKeyID config proofSystem maxTxPerBatch sequencer hkey =>
      exact hl.register config (h hkey)
  | accepted id batch config state hconfig hstate hcheck =>
      exact ⟨hl.accept hstate hcheck (h config state hconfig hstate hcheck), keeps_accept _ _ _ _⟩
  | created owner token =>
      exact ⟨hl.setPool _ (by simp [amountOf]), .of_rollupStates rfl⟩
  | added poolID commitment pool hpool henabled =>
      refine ⟨hl.setPool _ ?_, .of_rollupStates rfl⟩
      have htotal := pool.add_total (sha256 commitment.value) commitment
      rw [h pool hpool henabled, add_zero, ← hl.sound.deposits poolID pool hpool] at htotal
      exact htotal.symm

/-- A lawful call is clean. -/
theorem clean_of_lawful {l : Ledger} (hl : Valid l) {call : Call}
    (h : Lawful curve sha256 l call) : Clean curve sha256 l call := by
  obtain ⟨hkeeps, hsound⟩ := h
  cases call with
  | registerRollup owner verifyingKeyID proofSystem maxTxPerBatch sequencer =>
      intro hkey state hstate
      obtain ⟨vk, hvk⟩ := Option.ne_none_iff_exists'.mp hkey
      rw [record_registerRollup hvk] at hkeeps
      obtain ⟨state', hstate', hkept⟩ := hkeeps _ state hstate
      rw [l.register_rollupStates, Function.update_self] at hstate'
      obtain rfl := Option.some.inj hstate'
      obtain ⟨hroot, hbatches, htxs⟩ := hkept.resolve_left (fun hne => hne rfl)
      exact ⟨hroot.symm, hbatches.symm, htxs.symm⟩
  | verifyRollupBatch id batch =>
      intro config state hconfig hstate hcheck
      rw [record_verifyRollupBatch hconfig hstate hcheck] at hsound
      have hcount := hsound.counted id _ (Function.update_self _ _ _)
      rw [l.accept_accepted, Function.update_self, List.length_append, List.length_singleton,
        ← hl.sound.counted id state hstate] at hcount
      rw [← hcount]
      exact UInt64.toNat_lt _
  | createConfidentialPool owner token => trivial
  | addCommitment poolID commitment =>
      intro pool hpool henabled
      rw [record_addCommitment hpool henabled] at hsound
      have hdeposits := hsound.deposits poolID _ (Function.update_self _ _ _)
      have htotal := pool.add_total (sha256 commitment.value) commitment
      have hbefore := hl.sound.deposits poolID pool hpool
      change pool.totalDeposits + commitment.amount = _ at hdeposits
      linarith

/-- The history of rollups and pools is lawful exactly along the runs of clean calls. -/
theorem history_lawful_iff (curve : Bn256) (sha256 : List UInt8 → Word)
    (verifyingKeys : Word → Option VerifyingKey) (calls : List Call) :
    Along (record curve sha256) (Lawful curve sha256) (deployed verifyingKeys) calls ↔
      Along (record curve sha256) (Clean curve sha256) (deployed verifyingKeys) calls := by
  have hvalid := deployed_valid verifyingKeys
  constructor
  · exact Along.imp_of_invariant (I := Valid)
      (fun l call hl h => (hl.step (clean_of_lawful hl h)).1)
      (fun l call hl h => clean_of_lawful hl h) calls hvalid
  · exact Along.imp_of_invariant (I := Valid) (fun l call hl h => (hl.step h).1)
      (fun l call hl h => ⟨(hl.step h).2, (hl.step h).1.sound⟩) calls hvalid

end History

/-- A commitment added twice is stored once and counted twice. -/
theorem commitment_counted_twice :
    ¬ Along (record residueCurve fun _ => 0) (Lawful residueCurve fun _ => 0)
      (deployed fun _ => none)
      [.createConfidentialPool 1 2, .addCommitment 0 ⟨[1], 5⟩, .addCommitment 0 ⟨[1], 5⟩] := by
  rintro ⟨-, -, ⟨-, hsound⟩, -⟩
  let empty : ConfidentialPool := ⟨fun _ => none, 0, true⟩
  let once := empty.add 0 ⟨[1], 5⟩
  let twice := once.add 0 ⟨[1], 5⟩
  let created := (deployed fun _ => none).setPool 0 empty
  have hcreate : record residueCurve (fun _ => 0) (deployed fun _ => none)
      (.createConfidentialPool 1 2) = created := rfl
  have honce : record residueCurve (fun _ => 0) created (.addCommitment 0 ⟨[1], 5⟩) =
      created.setPool 0 once := record_addCommitment (Ledger.setPool_self _ _ _) rfl _
  have htwice : record residueCurve (fun _ => 0) (created.setPool 0 once)
      (.addCommitment 0 ⟨[1], 5⟩) = (created.setPool 0 once).setPool 0 twice :=
    record_addCommitment (Ledger.setPool_self _ _ _) rfl _
  rw [hcreate, honce, htwice] at hsound
  have hdeposits : (10 : ℤ) = ∑ commitID : Word, amountOf (twice.commitments commitID) :=
    hsound.deposits 0 twice (Ledger.setPool_self _ _ _)
  have hfirst : ∑ commitID : Word, amountOf (once.commitments commitID) + 0 =
      ∑ commitID : Word, amountOf (empty.commitments commitID) + 5 :=
    empty.add_total 0 ⟨[1], 5⟩
  have hsecond : ∑ commitID : Word, amountOf (twice.commitments commitID) + 5 =
      ∑ commitID : Word, amountOf (once.commitments commitID) + 5 :=
    once.add_total 0 ⟨[1], 5⟩
  have hempty : ∑ commitID : Word, amountOf (empty.commitments commitID) = 0 :=
    Finset.sum_eq_zero fun _ _ => rfl
  linarith

end LuxPrecompile.Zk
