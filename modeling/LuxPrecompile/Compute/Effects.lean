import LuxPrecompile.Compute.Market

/-!
# What a call of the market does

Every call either leaves the storage alone or is one of four events: a registration, a
submission, a claim or a verification.
-/

namespace LuxPrecompile.Compute

open Evm

/-! ## Events -/

/-- A job as it was submitted, with the nonce its id is derived from. -/
structure Submission where
  id : Word
  submitter : Address
  nonce : Word
  model : Word
  input : Word
  price : Word
deriving DecidableEq

/-- A claim of a job. -/
structure Claim where
  id : Word
  provider : Address
  output : Word
deriving DecidableEq

/-- What a successful call announces. -/
inductive Event
  | registered (provider : Address)
  | submitted (s : Submission)
  | claimed (c : Claim)
  | verified (id : Word)
deriving DecidableEq

/-- The bytes the id of a job is the hash of. -/
def Submission.key (s : Submission) : List UInt8 := addressBytes s.submitter ++ hashBytes s.nonce

section Effects

variable (keccak256 : List UInt8 → Word)

/-- The event of a call that returns. -/
def replyEvent (st : Storage) (caller : Address) (op : UInt8) (data : List UInt8)
    (ret : List UInt8) : Option Event :=
  if op = opRegisterProvider then some (.registered caller)
  else if op = opSubmitJob then
    some (.submitted ⟨bytesToHash ret, caller, st (.account .jobNonce caller),
      argWord data 0, argWord data 32, argWord data 64⟩)
  else if op = opClaimReward then some (.claimed ⟨argWord data 0, caller, argWord data 32⟩)
  else if op = opVerifyCompute ∧ ret = hashBytes 1 then some (.verified (argWord data 0))
  else none

/-- The event of a call. -/
def event (st : Storage) (c : Call) : Option Event :=
  match (run keccak256 st c).result, c.input with
  | .ok reply, op :: data => replyEvent st c.caller op data reply.ret
  | _, _ => none

/-- The storage after a registration. -/
def registerStore (st : Storage) (caller : Address) (gpuType tee : Word) : Storage :=
  let id := recordID keccak256 caller (st (.account .nonce caller))
  (((st.set (.record .provider id) gpuType).set (.record .providerOwner id)
    (addressWord caller)).set (.record .providerTee id) tee).set (.account .nonce caller)
    (st (.account .nonce caller) + 1)

/-- The storage after a submission. -/
def submitStore (st : Storage) (s : Submission) : Storage :=
  ((((st.set (.record .job s.id) s.model).set (.record .jobSubmitter s.id)
    (addressWord s.submitter)).set (.record .jobPrice s.id) s.price).set
    (.record .jobInput s.id) s.input).set (.account .jobNonce s.submitter) (s.nonce + 1)

/-- The storage after a claim. -/
def claimStore (st : Storage) (c : Claim) : Storage :=
  ((st.set (.record .jobStatus c.id) statusClaimed).set (.record .jobOutput c.id) c.output).set
    (.record .jobProvider c.id) (addressWord c.provider)

/-- The storage after a verification. -/
def verifyStore (st : Storage) (id : Word) : Storage :=
  st.set (.record .jobStatus id) statusVerified

/-- What a call has found and written, by its event. -/
inductive Effect (st : Storage) : Option Event → Storage → Prop
  | idle : Effect st none st
  | registered (caller : Address) (gpuType tee : Word) :
      Effect st (some (.registered caller)) (registerStore keccak256 st caller gpuType tee)
  | submitted (s : Submission) (hid : s.id = keccak256 s.key)
      (hnonce : s.nonce = st (.account .jobNonce s.submitter)) :
      Effect st (some (.submitted s)) (submitStore st s)
  | claimed (c : Claim) (hjob : st (.record .job c.id) ≠ 0)
      (hopen : st (.record .jobStatus c.id) = statusOpen)
      (hprovider : st (.account .nonce c.provider) ≠ 0) :
      Effect st (some (.claimed c)) (claimStore st c)
  | verified (id : Word) (hclaimed : st (.record .jobStatus id) = statusClaimed) :
      Effect st (some (.verified id)) (verifyStore st id)

/-! ## The calls -/

theorem runWriter_cases (st : Storage) (readOnly : Bool) (suppliedGas cost : ℕ)
    (work : ℕ → Outcome) :
    (∃ e gas, runWriter st readOnly suppliedGas cost work = fail st e gas) ∨
      (readOnly = false ∧ cost ≤ suppliedGas ∧
        runWriter st readOnly suppliedGas cost work = work (suppliedGas - cost)) := by
  rw [runWriter]
  split_ifs with hread hgas
  · exact .inl ⟨_, _, rfl⟩
  · exact .inl ⟨_, _, rfl⟩
  · exact .inr ⟨by simpa using hread, not_lt.mp hgas, rfl⟩

theorem effect_of_fail {st : Storage} {c : Call} {e : Error} {gas : ℕ}
    (h : run keccak256 st c = fail st e gas) :
    Effect keccak256 st (event keccak256 st c) (run keccak256 st c).storage := by
  have hevent : event keccak256 st c = none := by simp only [event, h, fail]
  rw [hevent, h]
  exact .idle

theorem event_of_done {st st' : Storage} {c : Call} {op : UInt8} {data : List UInt8} {ret : Word}
    {gas : ℕ} (hinput : c.input = op :: data) (h : run keccak256 st c = done st' ret gas) :
    event keccak256 st c = replyEvent st c.caller op data (hashBytes ret) := by
  simp only [event, h, done, hinput]

theorem effect_of_done {st : Storage} {c : Call} {op : UInt8} {data : List UInt8} {ret : Word}
    {gas : ℕ} (hinput : c.input = op :: data) (h : run keccak256 st c = done st ret gas)
    (hnone : replyEvent st c.caller op data (hashBytes ret) = none) :
    Effect keccak256 st (event keccak256 st c) (run keccak256 st c).storage := by
  rw [event_of_done keccak256 hinput h, h, hnone]
  exact .idle

theorem registerProvider_effect {st : Storage} {c : Call} {data : List UInt8} {gas : ℕ}
    (hinput : c.input = opRegisterProvider :: data)
    (h : run keccak256 st c = registerProvider keccak256 st c.caller data gas) :
    Effect keccak256 st (event keccak256 st c) (run keccak256 st c).storage := by
  by_cases hlength : data.length < 64
  · rw [registerProvider, if_pos hlength] at h
    exact effect_of_fail keccak256 h
  · rw [registerProvider, if_neg hlength] at h
    rw [event_of_done keccak256 hinput h, h]
    exact .registered c.caller (argWord data 0) (argWord data 32)

theorem submitJob_effect {st : Storage} {c : Call} {data : List UInt8} {gas : ℕ}
    (hinput : c.input = opSubmitJob :: data)
    (h : run keccak256 st c = submitJob keccak256 st c.caller data gas) :
    Effect keccak256 st (event keccak256 st c) (run keccak256 st c).storage := by
  by_cases hlength : data.length < 96
  · rw [submitJob, if_pos hlength] at h
    exact effect_of_fail keccak256 h
  · rw [submitJob, if_neg hlength] at h
    have hevent := event_of_done keccak256 hinput h
    rw [replyEvent, if_neg (by decide), if_pos rfl, bytesToHash_hashBytes] at hevent
    rw [hevent, h]
    exact .submitted ⟨_, c.caller, _, argWord data 0, argWord data 32, argWord data 64⟩ rfl rfl

theorem claimReward_effect {st : Storage} {c : Call} {data : List UInt8} {gas : ℕ}
    (hinput : c.input = opClaimReward :: data)
    (h : run keccak256 st c = claimReward st c.caller data gas) :
    Effect keccak256 st (event keccak256 st c) (run keccak256 st c).storage := by
  simp only [claimReward] at h
  split_ifs at h with hlength hjob hstatus hprovider
  · exact effect_of_fail keccak256 h
  · exact effect_of_fail keccak256 h
  · exact effect_of_fail keccak256 h
  · exact effect_of_fail keccak256 h
  · rw [event_of_done keccak256 hinput h, h]
    exact .claimed ⟨argWord data 0, c.caller, argWord data 32⟩ hjob (not_not.mp hstatus) hprovider

theorem verifyCompute_effect {st : Storage} {c : Call} {data : List UInt8} {gas : ℕ}
    (hinput : c.input = opVerifyCompute :: data)
    (h : run keccak256 st c = verifyCompute keccak256 st data gas) :
    Effect keccak256 st (event keccak256 st c) (run keccak256 st c).storage := by
  have hzero : replyEvent st c.caller opVerifyCompute data (hashBytes 0) = none := by
    rw [replyEvent, if_neg (by decide), if_neg (by decide), if_neg (by decide), if_neg]
    exact fun hret => absurd (hashBytes_inj hret.2) (by decide)
  simp only [verifyCompute] at h
  split_ifs at h with hlength hstatus hattestation
  · exact effect_of_fail keccak256 h
  · exact effect_of_done keccak256 hinput h hzero
  · exact effect_of_done keccak256 hinput h hzero
  · rw [event_of_done keccak256 hinput h, h]
    exact .verified _ (not_not.mp hstatus)

theorem getPrice_effect {st : Storage} {c : Call} {data : List UInt8} {gas : ℕ}
    (hinput : c.input = opGetPrice :: data)
    (h : run keccak256 st c = getPrice st data gas) :
    Effect keccak256 st (event keccak256 st c) (run keccak256 st c).storage := by
  simp only [getPrice] at h
  split_ifs at h with hlength hprice
  · exact effect_of_fail keccak256 h
  · exact effect_of_fail keccak256 h
  · exact effect_of_done keccak256 hinput h (by simp [replyEvent, opGetPrice, opRegisterProvider,
      opSubmitJob, opClaimReward, opVerifyCompute])

theorem effect_of_runWriter {st : Storage} {c : Call} {cost : ℕ} {work : ℕ → Outcome}
    (h : run keccak256 st c = runWriter st c.readOnly c.gas cost work)
    (hwork : ∀ gas, run keccak256 st c = work gas →
      Effect keccak256 st (event keccak256 st c) (run keccak256 st c).storage) :
    Effect keccak256 st (event keccak256 st c) (run keccak256 st c).storage := by
  rcases runWriter_cases st c.readOnly c.gas cost work with ⟨e, gas, hfail⟩ | ⟨-, -, hdone⟩
  · exact effect_of_fail keccak256 (h.trans hfail)
  · exact hwork _ (h.trans hdone)

/-- Every call does nothing or what its event says. -/
theorem run_effect (st : Storage) (c : Call) :
    Effect keccak256 st (event keccak256 st c) (run keccak256 st c).storage := by
  cases hinput : c.input with
  | nil => exact effect_of_fail keccak256 (by simp only [run, hinput]; rfl)
  | cons op data =>
      have hrun : run keccak256 st c = run keccak256 st c := rfl
      conv_rhs at hrun => rw [run, hinput]
      simp only at hrun
      split_ifs at hrun with h1 h2 h3 h4 h5 hgas
      · subst h1
        exact effect_of_runWriter keccak256 hrun fun _ => registerProvider_effect keccak256 hinput
      · subst h2
        exact effect_of_runWriter keccak256 hrun fun _ => submitJob_effect keccak256 hinput
      · subst h3
        exact effect_of_runWriter keccak256 hrun fun _ => claimReward_effect keccak256 hinput
      · subst h4
        exact effect_of_runWriter keccak256 hrun fun _ => verifyCompute_effect keccak256 hinput
      · exact effect_of_fail keccak256 hrun
      · subst h5
        exact getPrice_effect keccak256 hinput hrun
      · exact effect_of_fail keccak256 hrun

end Effects

end LuxPrecompile.Compute
