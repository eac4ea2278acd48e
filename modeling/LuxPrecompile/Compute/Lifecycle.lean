import LuxPrecompile.Compute.Effects
import LuxPrecompile.Support.Runs

/-!
# The life of a job

A run of calls is kept beside the events it announced.  Every job is open, claimed or
verified as the events say, its terms never change, and it can be claimed by any
provider while it is open, exactly as long as no job is submitted with the zero model:
the model word of a job is also what marks the job as present.
-/

namespace LuxPrecompile.Compute

open Evm Support

/-! ## Runs -/

/-- The storage with the events so far, the oldest first. -/
structure Ledger where
  storage : Storage
  registered : List Address
  submitted : List Submission
  claims : List Claim
  verified : List Word

/-- The ids of the submitted jobs. -/
def Ledger.jobIDs (l : Ledger) : List Word := l.submitted.map Submission.id

/-- The ids of the claimed jobs. -/
def Ledger.claimedIDs (l : Ledger) : List Word := l.claims.map Claim.id

/-- The ledger with one more event. -/
def Ledger.log (l : Ledger) : Option Event → Storage → Ledger
  | none, st => { l with storage := st }
  | some (.registered a), st => { l with storage := st, registered := l.registered ++ [a] }
  | some (.submitted s), st => { l with storage := st, submitted := l.submitted ++ [s] }
  | some (.claimed c), st => { l with storage := st, claims := l.claims ++ [c] }
  | some (.verified id), st => { l with storage := st, verified := l.verified ++ [id] }

/-- The market at deployment. -/
def deployed : Ledger := ⟨fun _ => 0, [], [], [], []⟩

/-- The status word of a job by the events. -/
def Ledger.statusOf (l : Ledger) (id : Word) : Word :=
  if id ∈ l.verified then statusVerified
  else if id ∈ l.claimedIDs then statusClaimed
  else statusOpen

/-- The words of a job are the ones it was submitted with. -/
structure Holds (st : Storage) (s : Submission) : Prop where
  model : st (.record .job s.id) = s.model
  submitter : st (.record .jobSubmitter s.id) = addressWord s.submitter
  price : st (.record .jobPrice s.id) = s.price
  input : st (.record .jobInput s.id) = s.input

/-- A claim by `caller` of a job. -/
def claimCall (caller : Address) (id output : Word) (gas : ℕ) : Call :=
  ⟨caller, opClaimReward :: (hashBytes id ++ hashBytes output), gas, false⟩

/-- What the storage keeps of the events. -/
structure Records (l : Ledger) : Prop where
  distinct : l.jobIDs.Nodup
  kept : ∀ s ∈ l.submitted, Holds l.storage s
  claimedOnce : l.claimedIDs.Nodup
  claimed : ∀ c ∈ l.claims, c.id ∈ l.jobIDs ∧
    l.storage (.record .jobProvider c.id) = addressWord c.provider ∧
    l.storage (.record .jobOutput c.id) = c.output
  verifiedOnce : l.verified.Nodup
  verified : ∀ id ∈ l.verified, id ∈ l.claimedIDs
  status : ∀ id, l.storage (.record .jobStatus id) = l.statusOf id

section Lifecycle

variable (keccak256 : List UInt8 → Word)

/-- One call, with its event. -/
def record (l : Ledger) (c : Call) : Ledger :=
  l.log (event keccak256 l.storage c) (run keccak256 l.storage c).storage

/-! ## The property -/

/-- What holds between calls: besides, a provider can claim any open job. -/
structure Sound (l : Ledger) : Prop extends Records l where
  claimable : ∀ s ∈ l.submitted, s.id ∉ l.claimedIDs → ∀ caller output gas, gasClaim ≤ gas →
    (run keccak256 l.storage (claimCall caller s.id output gas)).result =
      if caller ∈ l.registered then .ok ⟨hashBytes 1, gas - gasClaim⟩
      else .error ⟨.notProvider, gas - gasClaim⟩

/-- What a call must respect. -/
structure Lawful (l : Ledger) (c : Call) : Prop where
  sound : Sound keccak256 (record keccak256 l c)
  claims : ∀ claim, event keccak256 l.storage c = some (.claimed claim) →
    claim.id ∈ l.jobIDs ∧ claim.provider ∈ l.registered
  failed : ∀ f, (run keccak256 l.storage c).result = .error f →
    (record keccak256 l c).storage = l.storage
  getPrice : ∀ data, c.input = opGetPrice :: data →
    (record keccak256 l c).storage = l.storage

/-- A call that submits no job with the zero model. -/
def Clean (c : Call) : Prop :=
  ∀ data, c.input = opSubmitJob :: data → c.readOnly = false → gasSubmit ≤ c.gas →
    96 ≤ data.length → argWord data 0 ≠ 0

/-! ## Single writes -/

variable {keccak256}

/-- The fields `submitJob` writes. -/
def RecordField.isTerm : RecordField → Bool
  | .job | .jobSubmitter | .jobPrice | .jobInput => true
  | _ => false

/-- The fields of a job. -/
def RecordField.isJob : RecordField → Bool
  | .provider | .providerOwner | .providerTee => false
  | _ => true

theorem RecordField.isJob_of_isTerm {field : RecordField} (h : field.isTerm = true) :
    field.isJob = true := by
  cases field <;> first | rfl | exact h

theorem Holds.of_eq {st st' : Storage} {s : Submission} (h : Holds st s)
    (hsame : ∀ field : RecordField, field.isTerm = true →
      st' (.record field s.id) = st (.record field s.id)) : Holds st' s where
  model := (hsame .job rfl).trans h.model
  submitter := (hsame .jobSubmitter rfl).trans h.submitter
  price := (hsame .jobPrice rfl).trans h.price
  input := (hsame .jobInput rfl).trans h.input

theorem registerStore_record (st : Storage) (caller : Address) (gpuType tee : Word)
    (field : RecordField) (h : field.isJob = true) (id : Word) :
    registerStore keccak256 st caller gpuType tee (.record field id) =
      st (.record field id) := by
  cases field <;> first | exact absurd h (by decide) | simp [registerStore]

theorem registerStore_nonce (st : Storage) (caller : Address) (gpuType tee : Word) :
    registerStore keccak256 st caller gpuType tee (.account .nonce caller) =
      st (.account .nonce caller) + 1 := by
  simp [registerStore]

theorem registerStore_nonce_of_ne (st : Storage) {caller a : Address} (gpuType tee : Word)
    (h : a ≠ caller) :
    registerStore keccak256 st caller gpuType tee (.account .nonce a) =
      st (.account .nonce a) := by
  simp [registerStore, h]

theorem registerStore_jobNonce (st : Storage) (caller a : Address) (gpuType tee : Word) :
    registerStore keccak256 st caller gpuType tee (.account .jobNonce a) =
      st (.account .jobNonce a) := by
  simp [registerStore]

theorem submitStore_holds (st : Storage) (s : Submission) : Holds (submitStore st s) s where
  model := by simp [submitStore]
  submitter := by simp [submitStore]
  price := by simp [submitStore]
  input := by simp [submitStore]

theorem submitStore_of_ne (st : Storage) {s : Submission} {id : Word} (h : id ≠ s.id)
    (field : RecordField) : submitStore st s (.record field id) = st (.record field id) := by
  simp [submitStore, h]

theorem submitStore_of_field (st : Storage) (s : Submission) {field : RecordField}
    (h : field.isTerm = false) (id : Word) :
    submitStore st s (.record field id) = st (.record field id) := by
  cases field <;> first | exact absurd h (by decide) | simp [submitStore]

theorem submitStore_nonce (st : Storage) (s : Submission) (a : Address) :
    submitStore st s (.account .nonce a) = st (.account .nonce a) := by
  simp [submitStore]

theorem submitStore_jobNonce (st : Storage) (s : Submission) :
    submitStore st s (.account .jobNonce s.submitter) = s.nonce + 1 := by
  simp [submitStore]

theorem submitStore_jobNonce_of_ne (st : Storage) {s : Submission} {a : Address}
    (h : a ≠ s.submitter) :
    submitStore st s (.account .jobNonce a) = st (.account .jobNonce a) := by
  simp [submitStore, h]

theorem claimStore_of_ne (st : Storage) {c : Claim} {id : Word} (h : id ≠ c.id)
    (field : RecordField) : claimStore st c (.record field id) = st (.record field id) := by
  simp [claimStore, h]

theorem claimStore_of_term (st : Storage) (c : Claim) (field : RecordField)
    (h : field.isTerm = true) (id : Word) :
    claimStore st c (.record field id) = st (.record field id) := by
  cases field <;> first | exact absurd h (by decide) | simp [claimStore]

theorem claimStore_account (st : Storage) (c : Claim) (field : AccountField) (a : Address) :
    claimStore st c (.account field a) = st (.account field a) := by
  simp [claimStore]

theorem claimStore_self (st : Storage) (c : Claim) :
    claimStore st c (.record .jobStatus c.id) = statusClaimed ∧
      claimStore st c (.record .jobProvider c.id) = addressWord c.provider ∧
      claimStore st c (.record .jobOutput c.id) = c.output := by
  simp [claimStore]

theorem verifyStore_of_field (st : Storage) (id' : Word) (field : RecordField)
    (hstatus : field ≠ .jobStatus) (id : Word) :
    verifyStore st id' (.record field id) = st (.record field id) := by
  simp [verifyStore, hstatus]

theorem verifyStore_of_ne (st : Storage) {id id' : Word} (h : id ≠ id') :
    verifyStore st id' (.record .jobStatus id) = st (.record .jobStatus id) := by
  simp [verifyStore, h]

theorem verifyStore_account (st : Storage) (id : Word) (field : AccountField) (a : Address) :
    verifyStore st id (.account field a) = st (.account field a) := by
  simp [verifyStore]

/-! ## The records after an event -/

theorem Records.statusOf_open {l : Ledger} (hl : Records l) {id : Word} :
    l.statusOf id = statusOpen ↔ id ∉ l.claimedIDs := by
  rw [Ledger.statusOf]
  split_ifs with hverified hclaimed
  · simp [hl.verified id hverified, statusVerified, statusOpen]
  · simp [hclaimed, statusClaimed, statusOpen]
  · simp [hclaimed]

theorem statusOf_claimed {l : Ledger} {id : Word} (h : l.statusOf id = statusClaimed) :
    id ∈ l.claimedIDs ∧ id ∉ l.verified := by
  rw [Ledger.statusOf] at h
  split_ifs at h with hverified hclaimed
  · exact absurd h (by decide)
  · exact ⟨hclaimed, hverified⟩
  · exact absurd h (by decide)

/-- A registration. -/
theorem Records.register {l : Ledger} (hl : Records l) (caller : Address) (gpuType tee : Word) :
    Records ⟨registerStore keccak256 l.storage caller gpuType tee, l.registered ++ [caller],
      l.submitted, l.claims, l.verified⟩ := by
  have hsame : ∀ field : RecordField, field.isJob = true → ∀ id,
      registerStore keccak256 l.storage caller gpuType tee (.record field id) =
        l.storage (.record field id) := registerStore_record l.storage caller gpuType tee
  refine ⟨hl.distinct, ?_, hl.claimedOnce, ?_, hl.verifiedOnce, hl.verified, ?_⟩
  · intro s hs
    exact (hl.kept s hs).of_eq fun field hfield =>
      hsame field (RecordField.isJob_of_isTerm hfield) _
  · intro c hc
    obtain ⟨hjob, hprovider, houtput⟩ := hl.claimed c hc
    exact ⟨hjob, (hsame .jobProvider rfl _).trans hprovider,
      (hsame .jobOutput rfl _).trans houtput⟩
  · intro id
    exact (hsame .jobStatus rfl id).trans (hl.status id)

/-- A submission under a new id. -/
theorem Records.submit {l : Ledger} (hl : Records l) {s : Submission}
    (hfresh : s.id ∉ l.jobIDs) :
    Records ⟨submitStore l.storage s, l.registered, l.submitted ++ [s], l.claims,
      l.verified⟩ where
  distinct := by
    rw [Ledger.jobIDs, List.map_append, List.map_singleton]
    exact hl.distinct.append (List.nodup_singleton _) (List.disjoint_singleton.mpr hfresh)
  kept s' hs' := by
    rcases List.mem_append.mp hs' with hs' | hs'
    · have hne : s'.id ≠ s.id := fun h => hfresh (h ▸ List.mem_map_of_mem hs')
      exact (hl.kept s' hs').of_eq fun field _ => submitStore_of_ne _ hne field
    · rw [List.mem_singleton.mp hs']
      exact submitStore_holds _ s
  claimedOnce := hl.claimedOnce
  claimed c hc := by
    obtain ⟨hjob, hprovider, houtput⟩ := hl.claimed c hc
    refine ⟨?_, (submitStore_of_field _ s rfl _).trans hprovider,
      (submitStore_of_field _ s rfl _).trans houtput⟩
    rw [Ledger.jobIDs, List.map_append]
    exact List.mem_append_left _ hjob
  verifiedOnce := hl.verifiedOnce
  verified := hl.verified
  status id := (submitStore_of_field _ s rfl _).trans (hl.status id)

/-- A claim of an open job. -/
theorem Records.claim {l : Ledger} (hl : Records l) {c : Claim} (hjob : c.id ∈ l.jobIDs)
    (hopen : l.storage (.record .jobStatus c.id) = statusOpen) :
    Records ⟨claimStore l.storage c, l.registered, l.submitted, l.claims ++ [c],
      l.verified⟩ := by
  have hnew : c.id ∉ l.claimedIDs := by
    rw [← hl.statusOf_open, ← hl.status, hopen]
  have hunverified : c.id ∉ l.verified := fun h => hnew (hl.verified _ h)
  obtain ⟨hstatus, hprovider, houtput⟩ := claimStore_self l.storage c
  have hids : (Ledger.mk (claimStore l.storage c) l.registered l.submitted (l.claims ++ [c])
      l.verified).claimedIDs = l.claimedIDs ++ [c.id] := by
    rw [Ledger.claimedIDs, List.map_append, List.map_singleton, Ledger.claimedIDs]
  refine ⟨hl.distinct, ?_, ?_, ?_, hl.verifiedOnce, ?_, ?_⟩
  · intro s hs
    exact (hl.kept s hs).of_eq fun field hfield => claimStore_of_term _ c field hfield _
  · rw [hids]
    exact hl.claimedOnce.append (List.nodup_singleton _) (List.disjoint_singleton.mpr hnew)
  · intro c' hc'
    rcases List.mem_append.mp hc' with hc' | hc'
    · have hne : c'.id ≠ c.id := fun h => hnew (h ▸ List.mem_map_of_mem hc')
      obtain ⟨hjob', hprovider', houtput'⟩ := hl.claimed c' hc'
      exact ⟨hjob', (claimStore_of_ne _ hne _).trans hprovider',
        (claimStore_of_ne _ hne _).trans houtput'⟩
    · rw [List.mem_singleton.mp hc']
      exact ⟨hjob, hprovider, houtput⟩
  · intro id hid
    rw [hids]
    exact List.mem_append_left _ (hl.verified id hid)
  · intro id
    rw [Ledger.statusOf, hids]
    by_cases heq : id = c.id
    · subst heq
      rw [if_neg hunverified, if_pos (by simp)]
      exact hstatus
    · simp only [List.mem_append, List.mem_singleton, heq, or_false]
      exact (claimStore_of_ne _ heq _).trans (hl.status id)

/-- A verification of a claimed job. -/
theorem Records.verify {l : Ledger} (hl : Records l) {id : Word}
    (hclaimed : l.storage (.record .jobStatus id) = statusClaimed) :
    Records ⟨verifyStore l.storage id, l.registered, l.submitted, l.claims,
      l.verified ++ [id]⟩ := by
  obtain ⟨hid, hnew⟩ := statusOf_claimed ((hl.status id).symm.trans hclaimed)
  refine ⟨hl.distinct, ?_, hl.claimedOnce, ?_, ?_, ?_, ?_⟩
  · intro s hs
    exact (hl.kept s hs).of_eq fun field hfield =>
      verifyStore_of_field _ id field (by rintro rfl; cases hfield) _
  · intro c hc
    obtain ⟨hjob, hprovider, houtput⟩ := hl.claimed c hc
    exact ⟨hjob, (verifyStore_of_field _ id .jobProvider (by decide) _).trans hprovider,
      (verifyStore_of_field _ id .jobOutput (by decide) _).trans houtput⟩
  · exact hl.verifiedOnce.append (List.nodup_singleton _) (List.disjoint_singleton.mpr hnew)
  · intro id' hid'
    rcases List.mem_append.mp hid' with hid' | hid'
    · exact hl.verified id' hid'
    · rw [List.mem_singleton.mp hid']
      exact hid
  · intro id'
    rw [Ledger.statusOf]
    by_cases heq : id' = id
    · subst heq
      rw [if_pos (by simp)]
      simp [verifyStore]
    · simp only [List.mem_append, List.mem_singleton, heq, or_false]
      exact (verifyStore_of_ne _ heq).trans (hl.status id')

/-! ## The reachable states -/

variable (keccak256) in
/-- The states a run can reach: ids are hashes of used nonces, and the words that mark a
job or a provider as present are there for these only. -/
structure Valid (l : Ledger) : Prop where
  records : Records l
  models : ∀ s ∈ l.submitted, s.model ≠ 0
  ids : ∀ s ∈ l.submitted, s.id = keccak256 s.key
  present : ∀ id, l.storage (.record .job id) ≠ 0 → id ∈ l.jobIDs
  nonces : ∀ s ∈ l.submitted,
    s.nonce.toNat < (l.storage (.account .jobNonce s.submitter)).toNat
  jobNonce_le : ∀ a, (l.storage (.account .jobNonce a)).toNat ≤ l.submitted.length
  nonce_le : ∀ a, (l.storage (.account .nonce a)).toNat ≤ l.registered.length
  registered : ∀ a, l.storage (.account .nonce a) = 0 ↔ a ∉ l.registered

variable (keccak256) in
/-- What is assumed of a call: the counts are far from `2 ^ 256`, and the id of a new job
is not a collision. -/
structure Assumed (l : Ledger) (c : Call) : Prop where
  registered : l.registered.length + 1 < 2 ^ 256
  submitted : l.submitted.length + 1 < 2 ^ 256
  collisionFree : ∀ s, event keccak256 l.storage c = some (.submitted s) →
    ∀ s' ∈ l.submitted, keccak256 s'.key = keccak256 s.key → s'.key = s.key

theorem deployed_valid : Valid keccak256 deployed where
  records :=
    { distinct := List.nodup_nil
      kept := fun _ h => by cases h
      claimedOnce := List.nodup_nil
      claimed := fun _ h => by cases h
      verifiedOnce := List.nodup_nil
      verified := fun _ h => by cases h
      status := fun _ => rfl }
  models _ h := by cases h
  ids _ h := by cases h
  present _ h := absurd rfl h
  nonces _ h := by cases h
  jobNonce_le _ := Nat.le_refl 0
  nonce_le _ := Nat.le_refl 0
  registered _ := ⟨fun _ => List.not_mem_nil, fun _ => rfl⟩

theorem Submission.key_inj {s s' : Submission} (h : s.key = s'.key) :
    s.submitter = s'.submitter ∧ s.nonce = s'.nonce := by
  obtain ⟨hsubmitter, hnonce⟩ := List.append_inj h (by simp)
  refine ⟨?_, hashBytes_inj hnonce⟩
  rw [← bytesToAddress_addressBytes s.submitter, hsubmitter, bytesToAddress_addressBytes]

theorem toNat_succ {x : Word} {n : ℕ} (hx : x.toNat ≤ n) (hn : n + 1 < 2 ^ 256) :
    (x + 1).toNat = x.toNat + 1 := by
  rw [BitVec.toNat_add, show BitVec.toNat (1 : Word) = 1 from rfl, Nat.mod_eq_of_lt (by omega)]

theorem succ_ne_zero {x : Word} {n : ℕ} (hx : x.toNat ≤ n) (hn : n + 1 < 2 ^ 256) :
    x + 1 ≠ 0 := by
  intro h
  have hsucc := toNat_succ hx hn
  rw [h] at hsucc
  exact absurd hsucc (by simp)

/-- The id of a new job is not in use. -/
theorem Valid.fresh {l : Ledger} (hl : Valid keccak256 l) {s : Submission}
    (hid : s.id = keccak256 s.key) (hnonce : s.nonce = l.storage (.account .jobNonce s.submitter))
    (hcollision : ∀ s' ∈ l.submitted, keccak256 s'.key = keccak256 s.key → s'.key = s.key) :
    s.id ∉ l.jobIDs := by
  intro hmem
  obtain ⟨s', hs', heq⟩ := List.mem_map.mp hmem
  have hkey : s'.key = s.key := by
    apply hcollision s' hs'
    rw [← hl.ids s' hs', heq, hid]
  obtain ⟨hsubmitter, hnonce'⟩ := Submission.key_inj hkey
  have hlt := hl.nonces s' hs'
  rw [hsubmitter, hnonce', hnonce] at hlt
  exact lt_irrefl _ hlt

theorem Valid.register {l : Ledger} (hl : Valid keccak256 l) (caller : Address)
    (gpuType tee : Word) (hcount : l.registered.length + 1 < 2 ^ 256) :
    Valid keccak256 ⟨registerStore keccak256 l.storage caller gpuType tee,
      l.registered ++ [caller], l.submitted, l.claims, l.verified⟩ where
  records := hl.records.register caller gpuType tee
  models := hl.models
  ids := hl.ids
  present id h := by
    dsimp only at h
    rw [registerStore_record l.storage caller gpuType tee .job rfl] at h
    exact hl.present id h
  nonces s hs := by
    dsimp only
    rw [registerStore_jobNonce]
    exact hl.nonces s hs
  jobNonce_le a := by
    dsimp only
    rw [registerStore_jobNonce]
    exact hl.jobNonce_le a
  nonce_le a := by
    dsimp only
    rw [List.length_append, List.length_singleton]
    by_cases heq : a = caller
    · subst heq
      rw [registerStore_nonce, toNat_succ (hl.nonce_le a) hcount]
      exact Nat.succ_le_succ (hl.nonce_le a)
    · rw [registerStore_nonce_of_ne l.storage gpuType tee heq]
      exact (hl.nonce_le a).trans (Nat.le_succ _)
  registered a := by
    dsimp only
    rw [List.mem_append, List.mem_singleton]
    by_cases heq : a = caller
    · subst heq
      rw [registerStore_nonce]
      exact iff_of_false (succ_ne_zero (hl.nonce_le a) hcount) (by simp)
    · rw [registerStore_nonce_of_ne l.storage gpuType tee heq, hl.registered a]
      simp [heq]

theorem Valid.submit {l : Ledger} (hl : Valid keccak256 l) {s : Submission}
    (hid : s.id = keccak256 s.key) (hnonce : s.nonce = l.storage (.account .jobNonce s.submitter))
    (hcollision : ∀ s' ∈ l.submitted, keccak256 s'.key = keccak256 s.key → s'.key = s.key)
    (hcount : l.submitted.length + 1 < 2 ^ 256) (hmodel : s.model ≠ 0) :
    Valid keccak256 ⟨submitStore l.storage s, l.registered, l.submitted ++ [s], l.claims,
      l.verified⟩ := by
  have hfresh := hl.fresh hid hnonce hcollision
  have hle : s.nonce.toNat ≤ l.submitted.length := by
    rw [hnonce]
    exact hl.jobNonce_le _
  have hsucc := toNat_succ hle hcount
  have hids : (Ledger.mk (submitStore l.storage s) l.registered (l.submitted ++ [s]) l.claims
      l.verified).jobIDs = l.jobIDs ++ [s.id] := by
    rw [Ledger.jobIDs, List.map_append, List.map_singleton, Ledger.jobIDs]
  refine ⟨hl.records.submit hfresh, ?_, ?_, ?_, ?_, ?_, ?_, ?_⟩
  · intro s' hs'
    rcases List.mem_append.mp hs' with hs' | hs'
    · exact hl.models s' hs'
    · rwa [List.mem_singleton.mp hs']
  · intro s' hs'
    rcases List.mem_append.mp hs' with hs' | hs'
    · exact hl.ids s' hs'
    · rwa [List.mem_singleton.mp hs']
  · intro id h
    dsimp only at h
    rw [hids, List.mem_append, List.mem_singleton]
    by_cases heq : id = s.id
    · exact .inr heq
    · rw [submitStore_of_ne l.storage heq] at h
      exact .inl (hl.present id h)
  · intro s' hs'
    dsimp only
    rcases List.mem_append.mp hs' with hs' | hs'
    · by_cases heq : s'.submitter = s.submitter
      · have hlt := hl.nonces s' hs'
        rw [heq, submitStore_jobNonce, hsucc]
        rw [heq, ← hnonce] at hlt
        exact hlt.trans (Nat.lt_succ_self _)
      · rw [submitStore_jobNonce_of_ne l.storage heq]
        exact hl.nonces s' hs'
    · rw [List.mem_singleton.mp hs', submitStore_jobNonce, hsucc]
      exact Nat.lt_succ_self _
  · intro a
    dsimp only
    rw [List.length_append, List.length_singleton]
    by_cases heq : a = s.submitter
    · subst heq
      rw [submitStore_jobNonce, hsucc]
      exact Nat.succ_le_succ hle
    · rw [submitStore_jobNonce_of_ne l.storage heq]
      exact (hl.jobNonce_le a).trans (Nat.le_succ _)
  · intro a
    dsimp only
    rw [submitStore_nonce]
    exact hl.nonce_le a
  · intro a
    dsimp only
    rw [submitStore_nonce]
    exact hl.registered a

/-- A claim or a verification, which touches no account and no term of a job. -/
theorem Valid.of_records {l l' : Ledger} (hl : Valid keccak256 l) (hrecords : Records l')
    (hsubmitted : l'.submitted = l.submitted) (hregistered : l'.registered = l.registered)
    (hjob : ∀ id, l'.storage (.record .job id) = l.storage (.record .job id))
    (haccount : ∀ field a, l'.storage (.account field a) = l.storage (.account field a)) :
    Valid keccak256 l' where
  records := hrecords
  models s hs := hl.models s (hsubmitted ▸ hs)
  ids s hs := hl.ids s (hsubmitted ▸ hs)
  present id h := by
    rw [hjob] at h
    rw [Ledger.jobIDs, hsubmitted]
    exact hl.present id h
  nonces s hs := by
    rw [haccount]
    exact hl.nonces s (hsubmitted ▸ hs)
  jobNonce_le a := by
    rw [haccount, hsubmitted]
    exact hl.jobNonce_le a
  nonce_le a := by
    rw [haccount, hregistered]
    exact hl.nonce_le a
  registered a := by
    rw [haccount, hregistered]
    exact hl.registered a

/-! ## Claims of open jobs -/

/-- What a claim call returns. -/
theorem run_claimCall (st : Storage) (caller : Address) (id output : Word) {gas : ℕ}
    (hgas : gasClaim ≤ gas) :
    (run keccak256 st (claimCall caller id output gas)).result =
      if st (.record .job id) = 0 then .error ⟨.jobNotFound, gas - gasClaim⟩
      else if st (.record .jobStatus id) ≠ statusOpen then
        .error ⟨.jobAlreadyClaimed, gas - gasClaim⟩
      else if st (.account .nonce caller) = 0 then .error ⟨.notProvider, gas - gasClaim⟩
      else .ok ⟨hashBytes 1, gas - gasClaim⟩ := by
  have hlength : ¬ (hashBytes id ++ hashBytes output).length < 64 := by simp
  have hid : argWord (hashBytes id ++ hashBytes output) 0 = id := by
    rw [argWord, slice_append_left (by simp), slice_all (by simp), bytesToHash_hashBytes]
  have hwriter : ¬ gas < gasClaim := not_lt.mpr hgas
  rw [run, claimCall]
  dsimp only
  rw [if_neg (by decide), if_neg (by decide), if_pos rfl, runWriter, if_neg (by decide),
    if_neg hwriter, claimReward, if_neg hlength]
  dsimp only
  rw [hid]
  split_ifs <;> rfl

/-- In the states a run can reach, every open job can be claimed by a provider. -/
theorem Valid.sound {l : Ledger} (hl : Valid keccak256 l) : Sound keccak256 l where
  toRecords := hl.records
  claimable s hs hunclaimed caller output gas hgas := by
    have hjob : l.storage (.record .job s.id) ≠ 0 := by
      rw [(hl.records.kept s hs).model]
      exact hl.models s hs
    have hopen : l.storage (.record .jobStatus s.id) = statusOpen := by
      rw [hl.records.status, hl.records.statusOf_open]
      exact hunclaimed
    rw [run_claimCall _ _ _ _ hgas, if_neg hjob, if_neg (not_not.mpr hopen)]
    by_cases hcaller : caller ∈ l.registered
    · rw [if_pos hcaller, if_neg fun h => (hl.registered caller).mp h hcaller]
    · rw [if_neg hcaller, if_pos ((hl.registered caller).mpr hcaller)]

/-! ## One call -/

/-- A call that passes the checks of `submitJob`. -/
structure Submits (c : Call) (data : List UInt8) : Prop where
  input : c.input = opSubmitJob :: data
  writable : c.readOnly = false
  gas : gasSubmit ≤ c.gas
  length : 96 ≤ data.length

theorem submits_of_event {st : Storage} {c : Call} {s : Submission}
    (h : event keccak256 st c = some (.submitted s)) :
    ∃ data, Submits c data ∧ s.model = argWord data 0 := by
  rw [event] at h
  split at h
  case h_2 => cases h
  case h_1 reply op data hresult hinput =>
    rw [replyEvent] at h
    split_ifs at h with h1 h2 h3 h4
    · cases h
    · obtain rfl := Event.submitted.inj (Option.some.inj h)
      subst h2
      refine ⟨data, ?_, rfl⟩
      rw [run, hinput] at hresult
      dsimp only at hresult
      rw [if_neg (by decide), if_pos rfl] at hresult
      rcases runWriter_cases st c.readOnly c.gas gasSubmit
        (submitJob keccak256 st c.caller data) with ⟨e, gas, hfail⟩ | ⟨hwritable, hgas, hdone⟩
      · rw [hfail] at hresult
        cases hresult
      · refine ⟨hinput, hwritable, hgas, ?_⟩
        by_contra hlength
        rw [hdone, submitJob, if_pos (not_le.mp hlength)] at hresult
        cases hresult
    · cases h
    · cases h

variable (keccak256) in
theorem event_of_submits (st : Storage) {c : Call} {data : List UInt8} (h : Submits c data) :
    ∃ s, event keccak256 st c = some (.submitted s) ∧ s.model = argWord data 0 := by
  have hrun : run keccak256 st c = submitJob keccak256 st c.caller data (c.gas - gasSubmit) := by
    rw [run, h.input]
    dsimp only
    rw [if_neg (by decide), if_pos rfl, runWriter, h.writable, if_neg (by decide),
      if_neg (not_lt.mpr h.gas)]
  rw [submitJob, if_neg (not_lt.mpr h.length)] at hrun
  have hevent := event_of_done keccak256 h.input hrun
  rw [replyEvent, if_neg (by decide), if_pos rfl] at hevent
  exact ⟨_, hevent, rfl⟩

theorem model_ne_zero_of_clean {st : Storage} {c : Call} {s : Submission} (hclean : Clean c)
    (h : event keccak256 st c = some (.submitted s)) : s.model ≠ 0 := by
  obtain ⟨data, hsubmits, hmodel⟩ := submits_of_event h
  rw [hmodel]
  exact hclean data hsubmits.input hsubmits.writable hsubmits.gas hsubmits.length

theorem Valid.step {l : Ledger} (hl : Valid keccak256 l) {c : Call}
    (hassumed : Assumed keccak256 l c) (hclean : Clean c) :
    Valid keccak256 (record keccak256 l c) := by
  have hmodel : ∀ s, event keccak256 l.storage c = some (.submitted s) → s.model ≠ 0 :=
    fun s => model_ne_zero_of_clean hclean
  have hcollision := hassumed.collisionFree
  have heffect := run_effect keccak256 l.storage c
  rw [record]
  generalize event keccak256 l.storage c = e, (run keccak256 l.storage c).storage = st
    at heffect hmodel hcollision
  cases heffect with
  | idle => exact hl
  | registered caller gpuType tee => exact hl.register caller gpuType tee hassumed.registered
  | submitted s hid hnonce =>
      exact hl.submit hid hnonce (hcollision s rfl) hassumed.submitted (hmodel s rfl)
  | claimed claim hjob hopen hprovider =>
      exact hl.of_records (hl.records.claim (hl.present _ hjob) hopen) rfl rfl
        (claimStore_of_term l.storage claim .job rfl) (claimStore_account l.storage claim)
  | verified id hclaimed =>
      exact hl.of_records (hl.records.verify hclaimed) rfl rfl
        (verifyStore_of_field l.storage id .job (by decide))
        (verifyStore_account l.storage id)

theorem record_of_no_event {l : Ledger} {c : Call} (h : event keccak256 l.storage c = none) :
    record keccak256 l c = l := by
  have heffect := run_effect keccak256 l.storage c
  rw [record]
  rw [h] at heffect ⊢
  generalize (run keccak256 l.storage c).storage = st at heffect ⊢
  cases heffect with
  | idle => rfl

theorem event_of_error {st : Storage} {c : Call} {f : Failure Error}
    (h : (run keccak256 st c).result = .error f) : event keccak256 st c = none := by
  simp only [event, h]

theorem event_getPrice {st : Storage} {c : Call} {data : List UInt8}
    (h : c.input = opGetPrice :: data) : event keccak256 st c = none := by
  rw [event]
  split
  case h_2 => rfl
  case h_1 reply op data' hresult hinput =>
    obtain ⟨rfl, rfl⟩ := List.cons.inj (h.symm.trans hinput)
    rfl

theorem Valid.lawful {l : Ledger} (hl : Valid keccak256 l) {c : Call}
    (hassumed : Assumed keccak256 l c) (hclean : Clean c) : Lawful keccak256 l c where
  sound := (hl.step hassumed hclean).sound
  claims claim h := by
    have heffect := run_effect keccak256 l.storage c
    rw [h] at heffect
    generalize (run keccak256 l.storage c).storage = st at heffect
    cases heffect with
    | claimed _ hjob hopen hprovider =>
        exact ⟨hl.present _ hjob, not_not.mp (mt (hl.registered _).mpr hprovider)⟩
  failed f h := by rw [record_of_no_event (event_of_error h)]
  getPrice data h := by rw [record_of_no_event (event_getPrice h)]

/-- A lawful call is clean. -/
theorem clean_of_lawful {l : Ledger} (hl : Valid keccak256 l) {c : Call}
    (h : Lawful keccak256 l c) : Clean c := by
  intro data hinput hwritable hgas hlength hzero
  have hsubmits : Submits c data := ⟨hinput, hwritable, hgas, hlength⟩
  obtain ⟨s, hevent, hmodel⟩ := event_of_submits keccak256 l.storage hsubmits
  have hsound := h.sound
  have hlast : s ∈ (record keccak256 l c).submitted := by
    rw [record, hevent]
    exact List.mem_append_right _ (List.mem_singleton_self s)
  have hclaims : (record keccak256 l c).claimedIDs = l.claimedIDs := by
    rw [record, hevent]
    rfl
  have hids : (record keccak256 l c).jobIDs = l.jobIDs ++ [s.id] := by
    rw [record, hevent, Ledger.jobIDs, Ledger.log, List.map_append, List.map_singleton]
    rfl
  have hfresh : s.id ∉ l.jobIDs := by
    have hdistinct := hsound.distinct
    rw [hids] at hdistinct
    exact fun hmem => (List.nodup_append.mp hdistinct).2.2 _ hmem _ (List.mem_singleton_self _) rfl
  have hunclaimed : s.id ∉ (record keccak256 l c).claimedIDs := by
    rw [hclaims]
    intro hmem
    obtain ⟨claim, hclaim, heq⟩ := List.mem_map.mp hmem
    exact hfresh (heq ▸ (hl.records.claimed claim hclaim).1)
  have hresult := hsound.claimable s hlast hunclaimed 0 0 gasClaim le_rfl
  rw [run_claimCall _ _ _ _ le_rfl, (hsound.kept s hlast).model, hmodel, if_pos hzero] at hresult
  split_ifs at hresult
  exact absurd (congrArg Failure.error (Except.error.inj hresult)) (by decide)

/-! ## Runs -/

theorem log_counts (l : Ledger) (e : Option Event) (st : Storage) :
    (l.log e st).registered.length ≤ l.registered.length + 1 ∧
      (l.log e st).submitted.length ≤ l.submitted.length + 1 ∧
        ∀ s ∈ l.submitted, s ∈ (l.log e st).submitted := by
  rcases e with _ | _ | _ | _ | _ <;> simp only [Ledger.log, List.length_append,
    List.length_singleton, List.mem_append] <;> grind

theorem submitted_subset :
    ∀ (calls : List Call) (l : Ledger),
      ∀ s ∈ l.submitted, s ∈ (calls.foldl (record keccak256) l).submitted
  | [], _, _, hs => hs
  | c :: calls, l, s, hs =>
      submitted_subset calls (record keccak256 l c) s ((log_counts l _ _).2.2 s hs)

/-- Fewer than `2 ^ 256` calls without a collision are as assumed. -/
theorem along_assumed :
    ∀ (calls : List Call) {l : Ledger}, l.registered.length + calls.length < 2 ^ 256 →
      l.submitted.length + calls.length < 2 ^ 256 →
        Set.InjOn keccak256
          {bs | ∃ s ∈ (calls.foldl (record keccak256) l).submitted, s.key = bs} →
          Along (record keccak256) (Assumed keccak256) l calls
  | [], _, _, _, _ => trivial
  | c :: calls, l, hregistered, hsubmitted, hcollision => by
      obtain ⟨hr, hs, hkeep⟩ := log_counts l (event keccak256 l.storage c)
        (run keccak256 l.storage c).storage
      rw [List.length_cons] at hregistered hsubmitted
      refine ⟨⟨by omega, by omega, ?_⟩, along_assumed calls ?_ ?_ hcollision⟩
      · intro s hevent s' hs' hkeys
        have hnew : s ∈ (record keccak256 l c).submitted := by
          rw [record, hevent]
          exact List.mem_append_right _ (List.mem_singleton_self s)
        have hold : s' ∈ (record keccak256 l c).submitted := hkeep s' hs'
        exact hcollision ⟨s', submitted_subset calls _ s' hold, rfl⟩
          ⟨s, submitted_subset calls _ s hnew, rfl⟩ hkeys
      · exact lt_of_le_of_lt (Nat.add_le_add_right hr _) (by omega)
      · exact lt_of_le_of_lt (Nat.add_le_add_right hs _) (by omega)

end Lifecycle

/-- In fewer than `2 ^ 256` calls whose job ids do not collide, every call is lawful
exactly if none of them submits a job with the zero model. -/
theorem job_lifecycle_iff (keccak256 : List UInt8 → Word) (calls : List Call)
    (hcalls : calls.length < 2 ^ 256)
    (hcollision : Set.InjOn keccak256
      {bs | ∃ s ∈ (calls.foldl (record keccak256) deployed).submitted, s.key = bs}) :
    Along (record keccak256) (Lawful keccak256) deployed calls ↔ ∀ c ∈ calls, Clean c := by
  have hassumed := along_assumed calls (l := deployed) (by simpa [deployed] using hcalls)
    (by simpa [deployed] using hcalls) hcollision
  have hclean : Along (record keccak256) (fun _ => Clean) deployed calls ↔
      ∀ c ∈ calls, Clean c := along_forall_iff
  rw [← hclean]
  constructor
  · intro h
    exact Along.imp_of_invariant (I := Valid keccak256)
      (P := fun l c => Assumed keccak256 l c ∧ Lawful keccak256 l c)
      (fun l c hl h => hl.step h.1 (clean_of_lawful hl h.2))
      (fun l c hl h => clean_of_lawful hl h.2) calls deployed_valid (hassumed.and h)
  · intro h
    exact Along.imp_of_invariant (I := Valid keccak256)
      (P := fun l c => Assumed keccak256 l c ∧ Clean c)
      (fun l c hl h => hl.step h.1 h.2) (fun l c hl h => hl.lawful h.1 h.2) calls deployed_valid
      (hassumed.and h)

/-! ## Sample runs -/

/-- A registration by account 1. -/
def sampleRegistration : Call :=
  ⟨1, opRegisterProvider :: (hashBytes 3 ++ hashBytes 4), gasRegister, false⟩

/-- A submission by account 2 of a job for a model. -/
def sampleSubmission (model : Word) : Call :=
  ⟨2, opSubmitJob :: (hashBytes model ++ (hashBytes 6 ++ hashBytes 7)), gasSubmit, false⟩

/-- The id of the first job of account 2 under a hash that keeps the last 32 bytes. -/
def sampleJob : Word := recordID bytesToHash 2 0

/-- A job from its submission to its verification. -/
def sampleRun : List Call :=
  [sampleRegistration, sampleSubmission 5, claimCall 1 sampleJob 9 gasClaim,
    ⟨3, opVerifyCompute :: (hashBytes sampleJob ++
      hashBytes (bytesToHash (hashBytes sampleJob ++ hashBytes 9))), gasVerify, false⟩]

theorem sampleRun_submitted :
    (sampleRun.foldl (record bytesToHash) deployed).submitted =
      [⟨sampleJob, 2, 0, 5, 6, 7⟩] := by
  decide +kernel

theorem injOn_key_singleton {keccak256 : List UInt8 → Word} {submitted : List Submission}
    {s : Submission} (h : submitted = [s]) :
    Set.InjOn keccak256 {bs | ∃ s ∈ submitted, s.key = bs} := by
  subst h
  rintro _ ⟨s₁, hs₁, rfl⟩ _ ⟨s₂, hs₂, rfl⟩ _
  rw [List.mem_singleton.mp hs₁, List.mem_singleton.mp hs₂]

theorem job_lifecycle_sample :
    (Along (record bytesToHash) (Lawful bytesToHash) deployed sampleRun ↔
        ∀ c ∈ sampleRun, Clean c) ∧
      (sampleRun.foldl (record bytesToHash) deployed).verified = [sampleJob] :=
  ⟨job_lifecycle_iff bytesToHash sampleRun (by decide) (injOn_key_singleton sampleRun_submitted),
    by decide +kernel⟩

/-- A job with the zero model is submitted, and no provider can claim it. -/
theorem zero_model_not_claimable :
    ¬ ∀ (keccak256 : List UInt8 → Word) (calls : List Call), calls.length < 2 ^ 256 →
      Set.InjOn keccak256
        {bs | ∃ s ∈ (calls.foldl (record keccak256) deployed).submitted, s.key = bs} →
        Along (record keccak256) (Lawful keccak256) deployed calls := by
  intro hlawful
  let registered := record bytesToHash deployed sampleRegistration
  let submitted := record bytesToHash registered (sampleSubmission 0)
  have hsubmitted : submitted.submitted = [⟨sampleJob, 2, 0, 0, 6, 7⟩] := by decide +kernel
  have hregistered : 1 ∈ submitted.registered := by decide
  have hjob : submitted.storage (.record .job sampleJob) = 0 := by decide
  obtain ⟨-, hlast, -⟩ := hlawful bytesToHash [sampleRegistration, sampleSubmission 0] (by decide)
    (injOn_key_singleton hsubmitted)
  have hclaim : (run bytesToHash submitted.storage (claimCall 1 sampleJob 9 gasClaim)).result = _ :=
    hlast.sound.claimable ⟨sampleJob, 2, 0, 0, 6, 7⟩
      (hsubmitted ▸ List.mem_singleton_self _) (by decide) 1 9 gasClaim le_rfl
  rw [run_claimCall _ _ _ _ le_rfl, if_pos hjob, if_pos hregistered] at hclaim
  cases hclaim

end LuxPrecompile.Compute
