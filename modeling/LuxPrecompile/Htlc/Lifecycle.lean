import LuxPrecompile.Htlc.Reserve

/-!
# The two exits of a swap

A swap is locked once and leaves the locked status once, by a claim before its
timeout or by a refund from it on.  The log of the precompile and its payments
tell the same story: every exit is paid exactly once, to the party its kind
names.
-/

namespace LuxPrecompile.Htlc

open Evm Support

/-- The changes of status a step may make. -/
inductive Status.Next : Status → Status → Prop
  | stay (s : Status) : Next s s
  | lock : Next .none .locked
  | claim : Next .locked .claimed
  | refund : Next .locked .refunded

/-! ## What a transition does -/

/-- The swap a log entry reports as finished. -/
def Log.exitId (l : Log) : Option Word :=
  match l.event with
  | .locked _ _ => none
  | .claimed id _ _ _ _ => some id
  | .refunded id _ _ => some id

/-- The payment a log entry stands for. -/
def Log.payment (db : Storage) (l : Log) : Option Payment :=
  match l.event with
  | .locked _ _ => none
  | .claimed id _ _ recipient amount => some ⟨(db.swap id).terms.asset, recipient, amount⟩
  | .refunded id refund amount => some ⟨(db.swap id).terms.asset, refund, amount⟩

/-- A log entry is true of the swap it names: a claim came before the timeout with
a preimage of the hashlock and went to the recipient, a refund came from the
timeout on and went to the refund address. -/
def Log.Holds (hashes : Hashes) (db : Storage) (l : Log) : Prop :=
  match l.event with
  | .locked id terms => loadStatus db id ≠ .none ∧ (db.swap id).terms = terms
  | .claimed id hashlock preimage recipient amount =>
      loadStatus db id = .claimed ∧ l.time < (db.swap id).terms.timeout ∧
        hashlock = (db.swap id).terms.hashlock ∧
        hashes.sha256 (hashBytes preimage) = hashlock ∧
        recipient = (db.swap id).terms.recipient ∧ amount = loadAmount db id
  | .refunded id refund amount =>
      loadStatus db id = .refunded ∧ (db.swap id).terms.timeout ≤ l.time ∧
        refund = (db.swap id).terms.refund ∧ amount = loadAmount db id

/-- The change a transition makes to one swap, with its log entry and payment. -/
structure Effect (hashes : Hashes) (w w' : World) where
  id : Word
  after : Swap
  log : Log
  swap_eq : w'.storage.swap = Function.update w.storage.swap id after
  logs_eq : w'.logs = log :: w.logs
  payments_eq : w'.payments = (log.payment w'.storage).toList ++ w.payments
  next : Status.Next (loadStatus w.storage id) after.status
  moved : after.status ≠ loadStatus w.storage id
  terms_eq : loadStatus w.storage id ≠ .none → after.terms = (w.storage.swap id).terms
  exit_eq : log.exitId = if after.status = .locked then none else some id
  holds : log.Holds hashes w'.storage
  derived : after.status = .locked → ∃ terms nonce, log.event = .locked id terms ∧
    id = computeSwapId hashes terms log.caller nonce
  preimageIdx_eq : after.status ≠ .claimed → w'.storage.preimageIdx = w.storage.preimageIdx
  revealed : after.status = .claimed → ∃ preimage,
    hashes.sha256 (hashBytes preimage) = after.terms.hashlock ∧
      w'.storage.preimageIdx =
        Function.update w.storage.preimageIdx after.terms.hashlock preimage

theorem Transition.effect {fr : Frame} (hfr : fr.Guarded) {w w' : World}
    (hb : w.bank.Bounded) (hguard : w.storage.guard = true) {input : List UInt8}
    (h : Transition fr input w w') : Nonempty (Effect fr.hashes w w') := by
  cases h with
  | @lock terms id w1 hselector hparse hterms hid hnew hpull =>
      obtain ⟨hspares, -, -⟩ := pullIn_ok hfr hb hguard hpull
      refine ⟨{
        id := id
        after := ⟨.locked, terms, (w.storage.swap id).preimage⟩
        log := ⟨fr.time, fr.caller, .locked id terms⟩
        swap_eq := ?_
        logs_eq := by rw [← hspares.logs]; rfl
        payments_eq := hspares.payments
        next := by rw [hnew]; exact .lock
        moved := by rw [hnew]; exact Status.noConfusion
        terms_eq := fun hc => absurd hnew hc
        exit_eq := rfl
        holds := ?_
        derived := fun _ => ⟨terms, w.storage.nonce, rfl, hid⟩
        preimageIdx_eq := fun _ => by rw [← hspares.storage]; rfl
        revealed := fun hc => by cases hc }⟩
      · show (storeLock w1.storage id terms w.storage.nonce).swap = _
        rw [storeLock_swap, hspares.storage]
      · simp [Log.Holds, World.emit, loadStatus]
  | @claim id preimage _ hselector hid hlocked htime hpreimage hreserve hpay =>
      have hpaid := payOut_ok hfr (w := claimedWorld fr w id preimage) hb hguard hpay
      have hswap : w'.storage.swap = Function.update w.storage.swap id
          ⟨.claimed, (w.storage.swap id).terms, preimage⟩ := by
        rw [hpaid.storage]
        simp [claimedWorld, World.emit]
      refine ⟨{
        id := id
        after := ⟨.claimed, (w.storage.swap id).terms, preimage⟩
        log := ⟨fr.time, fr.caller, .claimed id (w.storage.swap id).terms.hashlock preimage
          (w.storage.swap id).terms.recipient (loadAmount w.storage id)⟩
        swap_eq := hswap
        logs_eq := hpaid.logs
        payments_eq := ?_
        next := by rw [hlocked]; exact .claim
        moved := by rw [hlocked]; exact Status.noConfusion
        terms_eq := fun _ => rfl
        exit_eq := rfl
        holds := ?_
        derived := fun hc => by cases hc
        preimageIdx_eq := fun hc => absurd rfl hc
        revealed := fun _ => ⟨preimage, hpreimage, by rw [hpaid.storage]; rfl⟩ }⟩
      · rw [hpaid.payments]
        simp [Log.payment, hswap, claimedWorld, World.emit]
      · simp [Log.Holds, loadStatus, loadAmount, hswap, htime, hpreimage]
  | @refund id _ hselector hid hlocked htime hreserve hpay =>
      have hpaid := payOut_ok hfr (w := refundedWorld fr w id) hb hguard hpay
      have hswap : w'.storage.swap = Function.update w.storage.swap id
          { w.storage.swap id with status := .refunded } := by
        rw [hpaid.storage]
        simp [refundedWorld, World.emit]
      refine ⟨{
        id := id
        after := { w.storage.swap id with status := .refunded }
        log := ⟨fr.time, fr.caller, .refunded id (w.storage.swap id).terms.refund
          (loadAmount w.storage id)⟩
        swap_eq := hswap
        logs_eq := hpaid.logs
        payments_eq := ?_
        next := by rw [hlocked]; exact .refund
        moved := by rw [hlocked]; exact Status.noConfusion
        terms_eq := fun _ => rfl
        exit_eq := rfl
        holds := ?_
        derived := fun hc => by cases hc
        preimageIdx_eq := fun _ => by rw [hpaid.storage]; rfl
        revealed := fun hc => by cases hc }⟩
      · rw [hpaid.payments]
        simp [Log.payment, hswap, refundedWorld, World.emit]
      · simp [Log.Holds, loadStatus, loadAmount, hswap, htime]

/-- The delivery of the value before a transition and the guard around it do not
show. -/
def Effect.outside {hashes : Hashes} {w w1 w2 : World} (hs : Spares w w1)
    (e : Effect hashes w1.enter w2) :
    Effect hashes w { w2 with storage := exitGuard w2.storage } where
  id := e.id
  after := e.after
  log := e.log
  swap_eq := e.swap_eq.trans (by rw [← hs.storage]; rfl)
  logs_eq := e.logs_eq.trans (by rw [← hs.logs]; rfl)
  payments_eq := e.payments_eq.trans (by rw [← hs.payments]; rfl)
  next := by rw [← hs.storage]; exact e.next
  moved := by rw [← hs.storage]; exact e.moved
  terms_eq := by rw [← hs.storage]; exact e.terms_eq
  exit_eq := e.exit_eq
  holds := e.holds
  derived := e.derived
  preimageIdx_eq := by rw [← hs.storage]; exact e.preimageIdx_eq
  revealed := by rw [← hs.storage]; exact e.revealed

theorem exec_effect (hashes : Hashes) {w : World} (hb : w.bank.Bounded) (a : Action) :
    Spares w (exec hashes w a) ∨ Nonempty (Effect hashes w (exec hashes w a)) := by
  obtain hspares | ⟨r, -, ⟨hran⟩⟩ := exec_cases hashes hb a
  · exact Or.inl hspares
  · right
    have hentered := deliverValue_spares hb hran.delivered
    obtain ⟨e⟩ := hran.transition.effect (frameOf_guarded _ _ _ _ _)
      (w := hran.entered.enter) hentered.bounded rfl
    rw [hran.final]
    exact ⟨e.outside hentered⟩

/-! ## The invariant of a run -/

/-- The log is true, names each finished swap once, and is what was paid; a claimed
swap's preimage can be read under its hashlock; and every swap was locked under the
id of its terms and caller. -/
structure Recorded (hashes : Hashes) (w : World) : Prop where
  holds : ∀ l ∈ w.logs, l.Holds hashes w.storage
  once : (w.logs.filterMap Log.exitId).Nodup
  payments : w.payments = w.logs.filterMap (Log.payment w.storage)
  revealed : ∀ id, loadStatus w.storage id = .claimed →
    hashes.sha256 (hashBytes (w.storage.preimageIdx (w.storage.swap id).terms.hashlock)) =
      (w.storage.swap id).terms.hashlock
  derived : ∀ id, loadStatus w.storage id ≠ .none → ∃ l ∈ w.logs, ∃ terms nonce,
    l.event = .locked id terms ∧ id = computeSwapId hashes terms l.caller nonce

section Step

variable {hashes : Hashes} {w w' : World}

theorem Effect.swap_of_ne (e : Effect hashes w w') {id : Word} (h : id ≠ e.id) :
    w'.storage.swap id = w.storage.swap id := by
  rw [e.swap_eq, Function.update_of_ne h]

theorem Effect.swap_self (e : Effect hashes w w') : w'.storage.swap e.id = e.after := by
  rw [e.swap_eq, Function.update_self]

/-- A finished swap is not the one that moves. -/
theorem Effect.ne_of_exit (e : Effect hashes w w') {id : Word}
    (h : loadStatus w.storage id = .claimed ∨ loadStatus w.storage id = .refunded) :
    id ≠ e.id := by
  rintro rfl
  have hnext := e.next
  have hmoved := e.moved
  generalize e.after.status = s at hnext hmoved
  obtain h | h := h
  · rw [h] at hnext hmoved
    cases hnext
    exact hmoved rfl
  · rw [h] at hnext hmoved
    cases hnext
    exact hmoved rfl

theorem Effect.keeps_terms (e : Effect hashes w w') {id : Word}
    (h : loadStatus w.storage id ≠ .none) :
    (w'.storage.swap id).terms = (w.storage.swap id).terms := by
  by_cases hid : id = e.id
  · subst hid
    rw [e.swap_self, e.terms_eq h]
  · rw [e.swap_of_ne hid]

theorem Effect.status_next (e : Effect hashes w w') (id : Word) :
    Status.Next (loadStatus w.storage id) (loadStatus w'.storage id) := by
  unfold loadStatus
  by_cases hid : id = e.id
  · subst hid
    rw [e.swap_self]
    exact e.next
  · rw [e.swap_of_ne hid]
    exact .stay _

theorem Effect.status_ne_none (e : Effect hashes w w') {id : Word}
    (h : loadStatus w.storage id ≠ .none) : loadStatus w'.storage id ≠ .none := by
  intro hnone
  have hnext := e.status_next id
  rw [hnone] at hnext
  generalize loadStatus w.storage id = s at hnext h
  cases hnext with
  | stay => exact h rfl

/-- The swap a log entry names exists. -/
theorem Log.Holds.exists_swap {db : Storage} {l : Log} (h : l.Holds hashes db) :
    (∀ id, l.exitId = some id →
      loadStatus db id = .claimed ∨ loadStatus db id = .refunded) := by
  intro id hid
  unfold Log.exitId at hid
  unfold Log.Holds at h
  cases he : l.event with
  | locked => simp [he] at hid
  | claimed =>
      simp only [he, Option.some.injEq] at hid h
      rw [← hid]
      exact Or.inl h.1
  | refunded =>
      simp only [he, Option.some.injEq] at hid h
      rw [← hid]
      exact Or.inr h.1

/-- A log entry stays true. -/
theorem Effect.keeps_holds (e : Effect hashes w w') {l : Log} (h : l.Holds hashes w.storage) :
    l.Holds hashes w'.storage := by
  cases he : l.event with
  | locked id terms =>
      simp only [Log.Holds, he] at h ⊢
      exact ⟨e.status_ne_none h.1, (e.keeps_terms h.1).trans h.2⟩
  | claimed id hashlock preimage recipient amount =>
      simp only [Log.Holds, he, loadStatus, loadAmount] at h ⊢
      rw [e.swap_of_ne (e.ne_of_exit (Or.inl h.1))]
      exact h
  | refunded id refund amount =>
      simp only [Log.Holds, he, loadStatus, loadAmount] at h ⊢
      rw [e.swap_of_ne (e.ne_of_exit (Or.inr h.1))]
      exact h

theorem Effect.keeps_payment (e : Effect hashes w w') {l : Log}
    (h : l.Holds hashes w.storage) : l.payment w'.storage = l.payment w.storage := by
  cases he : l.event with
  | locked id terms => simp only [Log.payment, he]
  | claimed id hashlock preimage recipient amount =>
      simp only [Log.Holds, he] at h
      simp only [Log.payment, he, e.swap_of_ne (e.ne_of_exit (Or.inl h.1))]
  | refunded id refund amount =>
      simp only [Log.Holds, he] at h
      simp only [Log.payment, he, e.swap_of_ne (e.ne_of_exit (Or.inr h.1))]

theorem Recorded.step (h : Recorded hashes w) (e : Effect hashes w w') :
    Recorded hashes w' where
  holds := by
    rw [e.logs_eq]
    intro l hl
    obtain rfl | hl := List.mem_cons.mp hl
    · exact e.holds
    · exact e.keeps_holds (h.holds l hl)
  once := by
    rw [e.logs_eq, List.filterMap_cons, e.exit_eq]
    split_ifs with hlocked
    · exact h.once
    · refine List.nodup_cons.mpr ⟨?_, h.once⟩
      intro hmem
      obtain ⟨l, hl, hid⟩ := List.mem_filterMap.mp hmem
      exact e.ne_of_exit ((h.holds l hl).exists_swap _ hid) rfl
  payments := by
    have hold : w.logs.filterMap (Log.payment w'.storage) =
        w.logs.filterMap (Log.payment w.storage) :=
      List.filterMap_congr fun l hl => e.keeps_payment (h.holds l hl)
    rw [e.payments_eq, e.logs_eq, List.filterMap_cons, hold, h.payments]
    cases e.log.payment w'.storage with
    | none => rfl
    | some p => rfl
  revealed := by
    intro id hclaimed
    by_cases hafter : e.after.status = .claimed
    · obtain ⟨preimage, hsha, hidx⟩ := e.revealed hafter
      rw [hidx]
      by_cases hlock : (w'.storage.swap id).terms.hashlock = e.after.terms.hashlock
      · rw [hlock, Function.update_self, hsha]
      · have hid : id ≠ e.id := by
          rintro rfl
          exact hlock (by rw [e.swap_self])
        rw [Function.update_of_ne hlock, e.swap_of_ne hid]
        apply h.revealed
        rw [loadStatus, ← e.swap_of_ne hid]
        exact hclaimed
    · have hid : id ≠ e.id := by
        rintro rfl
        rw [loadStatus, e.swap_self] at hclaimed
        exact hafter hclaimed
      rw [e.preimageIdx_eq hafter, e.swap_of_ne hid]
      apply h.revealed
      rw [loadStatus, ← e.swap_of_ne hid]
      exact hclaimed

  derived := by
    rw [e.logs_eq]
    intro id hid
    by_cases hold : loadStatus w.storage id = .none
    · have hself : id = e.id := by
        by_contra hne
        rw [loadStatus, e.swap_of_ne hne] at hid
        exact hid hold
      subst hself
      have hnext := e.next
      have hmoved := e.moved
      rw [hold] at hnext hmoved
      have hlocked : e.after.status = .locked := by
        generalize e.after.status = s at hnext hmoved
        cases hnext with
        | stay => exact absurd rfl hmoved
        | lock => rfl
      obtain ⟨terms, nonce, hevent, hderived⟩ := e.derived hlocked
      exact ⟨e.log, List.mem_cons_self, terms, nonce, hevent, hderived⟩
    · obtain ⟨l, hl, hlog⟩ := h.derived id hold
      exact ⟨l, List.mem_cons_of_mem _ hl, hlog⟩

theorem Recorded.spares (h : Recorded hashes w) (hs : Spares w w') : Recorded hashes w' := by
  obtain ⟨holds, once, payments, revealed, derived⟩ := h
  rw [← hs.storage] at holds payments revealed derived
  rw [← hs.logs] at holds once payments derived
  rw [← hs.payments] at payments
  exact ⟨holds, once, payments, revealed, derived⟩

end Step

theorem Recorded.genesis {hashes : Hashes} {w : World} (h : Genesis w) :
    Recorded hashes w := by
  refine ⟨?_, ?_, ?_, fun id hclaimed => ?_, fun id hid => ?_⟩
  · simp [h.logs_nil]
  · simp [h.logs_nil]
  · simp [h.logs_nil, h.payments_nil]
  · rw [h.storage_empty] at hclaimed
    cases hclaimed
  · rw [h.storage_empty] at hid
    exact absurd rfl hid

theorem reachable_recorded {hashes : Hashes} {w : World} (h : Genesis w)
    (actions : List Action) :
    Recorded hashes (runFrom hashes w actions) := by
  have hboth : Resting (runFrom hashes w actions) ∧
      Recorded hashes (runFrom hashes w actions) := by
    apply foldl_invariant (P := fun w => Resting w ∧ Recorded hashes w)
    · intro w a hw
      refine ⟨hw.1.exec a, ?_⟩
      obtain hspares | ⟨⟨e⟩⟩ := exec_effect hashes hw.1.bounded a
      · exact hw.2.spares hspares
      · exact hw.2.step e
    · exact ⟨Resting.genesis h, Recorded.genesis h⟩
  exact hboth.2

/-! ## Exactly one exit is open -/

theorem runClaim_expired (fr : Frame) {w : World} {data : List UInt8} {gas : ℕ}
    (hgas : gasClaim ≤ gas) (hlength : data.length = 64)
    (hlocked : loadStatus w.storage (argWord data 0) = .locked)
    (htime : (w.storage.swap (argWord data 0)).terms.timeout ≤ fr.time) :
    runClaim fr w data gas = .error .expired := by
  have hcharge : chargeGas Error.outOfGas gas gasClaim = .ok (gas - gasClaim) :=
    if_neg (not_lt.mpr hgas)
  have hcheck : checkLength Error.badArgs data 64 = .ok () := if_neg (not_not.mpr hlength)
  unfold runClaim
  simp only [hcharge, hcheck, hlocked, htime, bind, Except.bind, ne_eq, not_true_eq_false,
    if_false, if_true]

theorem runRefund_notExpired (fr : Frame) {w : World} {data : List UInt8} {gas : ℕ}
    (hgas : gasRefund ≤ gas) (hlength : data.length = 32)
    (hlocked : loadStatus w.storage (argWord data 0) = .locked)
    (htime : fr.time < (w.storage.swap (argWord data 0)).terms.timeout) :
    runRefund fr w data gas = .error .notExpired := by
  have hcharge : chargeGas Error.outOfGas gas gasRefund = .ok (gas - gasRefund) :=
    if_neg (not_lt.mpr hgas)
  have hcheck : checkLength Error.badArgs data 32 = .ok () := if_neg (not_not.mpr hlength)
  unfold runRefund
  simp only [hcharge, hcheck, hlocked, htime, bind, Except.bind, ne_eq, not_true_eq_false,
    if_false, if_true]

/-- The two requests that end a locked swap, as far as the parties can form them: a
claim with a preimage of the hashlock, and a refund. -/
structure ExitRequests (hashes : Hashes) (env : Environment) (depth : ℕ) (w : World)
    (id : Word) (time : UInt64) (claim refund : Request) : Prop where
  claims : Admitted env depth w claim selClaim 64 gasClaim time
  refunds : Admitted env depth w refund selRefund 32 gasRefund time
  claim_id : argWord (claim.input.drop 4) 0 = id
  refund_id : argWord (refund.input.drop 4) 0 = id
  preimage : hashes.sha256 (hashBytes (argWord (claim.input.drop 4) 32)) =
    (w.storage.swap id).terms.hashlock

theorem call_expired {hashes : Hashes} {env : Environment} {depth : ℕ} {w : World}
    {r : Request} {id : Word} {time : UInt64} (h : Resting w)
    (hadmitted : Admitted env depth w r selClaim 64 gasClaim time)
    (hid : argWord (r.input.drop 4) 0 = id) (hlocked : loadStatus w.storage id = .locked)
    (htime : (w.storage.swap id).terms.timeout ≤ time) :
    call hashes env depth w r = .error .expired := by
  obtain ⟨d, bank, -, hcall⟩ := hadmitted.call_eq hashes h.idle (by decide)
  have hlength : (r.input.drop 4).length = 64 := by
    rw [List.length_drop, hadmitted.length_eq]
  subst hid
  have hrun := runClaim_expired (frameOf hashes env d time r.caller)
    (w := World.enter { w with bank := bank }) hadmitted.gas_le hlength hlocked htime
  have hother : selClaim ≠ selLock := by decide
  rw [hcall, runTransition, if_neg hother, if_pos rfl, hrun]
  rfl

theorem call_notExpired {hashes : Hashes} {env : Environment} {depth : ℕ} {w : World}
    {r : Request} {id : Word} {time : UInt64} (h : Resting w)
    (hadmitted : Admitted env depth w r selRefund 32 gasRefund time)
    (hid : argWord (r.input.drop 4) 0 = id) (hlocked : loadStatus w.storage id = .locked)
    (htime : time < (w.storage.swap id).terms.timeout) :
    call hashes env depth w r = .error .notExpired := by
  obtain ⟨d, bank, -, hcall⟩ := hadmitted.call_eq hashes h.idle (by decide)
  have hlength : (r.input.drop 4).length = 32 := by
    rw [List.length_drop, hadmitted.length_eq]
  subst hid
  have hrun := runRefund_notExpired (frameOf hashes env d time r.caller)
    (w := World.enter { w with bank := bank }) hadmitted.gas_le hlength hlocked htime
  have hlock : selRefund ≠ selLock := by decide
  have hclaim : selRefund ≠ selClaim := by decide
  rw [hcall, runTransition, if_neg hlock, if_neg hclaim, hrun]
  rfl

/-- Before the timeout the claim is open and the refund closed; from the timeout on
it is the other way round. -/
theorem ExitRequests.one_open {hashes : Hashes} {env : Environment} {depth : ℕ} {w : World}
    {id : Word} {time : UInt64} {claim refund : Request} (h : Resting w)
    (hlocked : loadStatus w.storage id = .locked)
    (hr : ExitRequests hashes env depth w id time claim refund) :
    if time < (w.storage.swap id).terms.timeout then
      PaysInFull hashes env depth w claim id (w.storage.swap id).terms.recipient ∧
        call hashes env depth w refund = .error .notExpired
    else
      call hashes env depth w claim = .error .expired ∧
        PaysInFull hashes env depth w refund id (w.storage.swap id).terms.refund := by
  split_ifs with htime
  · have hpasses : ClaimPasses hashes env depth w claim id time :=
      ⟨hr.claims, hr.claim_id, hlocked, htime, hr.preimage⟩
    exact ⟨hpasses.pays h, call_notExpired h hr.refunds hr.refund_id hlocked htime⟩
  · have hlate := UInt64.not_lt.mp htime
    have hpasses : RefundPasses env depth w refund id time :=
      ⟨hr.refunds, hr.refund_id, hlocked, hlate⟩
    exact ⟨call_expired h hr.claims hr.claim_id hlocked hlate, hpasses.pays h⟩

/-- A swap takes exactly one of its two exits.  In every reachable state, whatever
comes next: a status only moves along the protocol and a locked swap keeps its
terms; every log entry so far is true, no swap was finished twice and the payments
are those of the log; a claimed swap's preimage is published under its hashlock;
and a locked swap has exactly one exit open at any time. -/
theorem exits_exclusive (hashes : Hashes) {w₀ : World} (hgenesis : Genesis w₀)
    (actions : List Action) {w : World} (hw : w = runFrom hashes w₀ actions) :
    (∀ a id, Status.Next (loadStatus w.storage id)
        (loadStatus (exec hashes w a).storage id) ∧
      (loadStatus w.storage id ≠ .none →
        ((exec hashes w a).storage.swap id).terms = (w.storage.swap id).terms)) ∧
    (∀ l ∈ w.logs, l.Holds hashes w.storage) ∧
    (w.logs.filterMap Log.exitId).Nodup ∧
    w.payments = w.logs.filterMap (Log.payment w.storage) ∧
    (∀ id, loadStatus w.storage id = .claimed →
      hashes.sha256 (hashBytes (w.storage.preimageIdx (w.storage.swap id).terms.hashlock)) =
        (w.storage.swap id).terms.hashlock) ∧
    (∀ id env depth time claim refund, loadStatus w.storage id = .locked →
      ExitRequests hashes env depth w id time claim refund →
      if time < (w.storage.swap id).terms.timeout then
        PaysInFull hashes env depth w claim id (w.storage.swap id).terms.recipient ∧
          call hashes env depth w refund = .error .notExpired
      else
        call hashes env depth w claim = .error .expired ∧
          PaysInFull hashes env depth w refund id (w.storage.swap id).terms.refund) := by
  subst hw
  have hrest : Resting (runFrom hashes w₀ actions) := reachable_resting hgenesis actions
  have hrecorded : Recorded hashes (runFrom hashes w₀ actions) :=
    reachable_recorded hgenesis actions
  refine ⟨?_, hrecorded.holds, hrecorded.once, hrecorded.payments, hrecorded.revealed, ?_⟩
  · intro a id
    obtain hspares | ⟨⟨e⟩⟩ := exec_effect hashes hrest.bounded a
    · rw [hspares.storage]
      exact ⟨.stay _, fun _ => rfl⟩
    · exact ⟨e.status_next id, e.keeps_terms⟩
  · intro id env depth time claim refund hlocked hr
    exact hr.one_open hrest hlocked

/-- The sample swap after its claim: one exit, paid once to the recipient, and the
preimage is public. -/
theorem exits_exclusive_sample :
    (runFrom sampleHashes fundedWorld
      [sampleLock, callAt 1999 7 0 selClaim [sampleId, 1]]).payments =
        [⟨native, 0xB0B, 5⟩] ∧
    sampleHashes.sha256 (hashBytes ((runFrom sampleHashes fundedWorld
      [sampleLock, callAt 1999 7 0 selClaim [sampleId, 1]]).storage.preimageIdx
        sampleTerms.hashlock)) = sampleTerms.hashlock := by
  obtain ⟨-, -, -, -, hrevealed, -⟩ := exits_exclusive sampleHashes fundedWorld_genesis
    [sampleLock, callAt 1999 7 0 selClaim [sampleId, 1]] rfl
  have hclaimed : loadStatus (runFrom sampleHashes fundedWorld
      [sampleLock, callAt 1999 7 0 selClaim [sampleId, 1]]).storage sampleId = .claimed := by
    decide +kernel
  have hterms : ((runFrom sampleHashes fundedWorld
      [sampleLock, callAt 1999 7 0 selClaim [sampleId, 1]]).storage.swap sampleId).terms =
        sampleTerms := by
    decide +kernel
  have hpreimage := hrevealed sampleId hclaimed
  rw [hterms] at hpreimage
  exact ⟨by decide +kernel, hpreimage⟩

end LuxPrecompile.Htlc
