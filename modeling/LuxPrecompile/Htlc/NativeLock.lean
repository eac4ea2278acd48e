import LuxPrecompile.Htlc.Lifecycle

/-!
# Exact native locks

A native lock measures what it was sent as the surplus of the vault's balance over
its reserve.  The surplus is exactly the value of the call as long as no other call
left native coin behind: a view, an exit or a token lock that carried value, or a
payout to the vault itself, leaves a surplus that later locks cannot explain.
-/

namespace LuxPrecompile.Htlc

open Evm Support

/-! ## Runs that leave nothing behind -/

/-- The calldata of a lock of native coin. -/
def IsNativeLock (input : List UInt8) : Prop :=
  selectorOf input = selLock ∧ argAddress (input.drop 4) 96 = native

instance (input : List UInt8) : Decidable (IsNativeLock input) :=
  inferInstanceAs (Decidable (_ ∧ _))

/-- Native coin comes in with native locks only, and goes out to others. -/
def Interaction.Tidy : Interaction → Prop
  | .enter r =>
      (r.value ≠ 0 → IsNativeLock r.input) ∧
        (IsNativeLock r.input → argAddress (r.input.drop 4) 32 ≠ swapAddr ∧
          argAddress (r.input.drop 4) 64 ≠ swapAddr)
  | .credit asset owner _ => ¬(asset = native ∧ owner = swapAddr)
  | .debit _ _ _ => True

/-- A tidy action, with tidy token code. -/
structure Action.Tidy (a : Action) : Prop where
  interaction : a.interaction.Tidy
  reactions : ∀ depth token w, ∀ i ∈ a.env.reactions depth token w, i.Tidy

/-- The vault holds exactly its reserve of native coin, and no locked swap pays the
vault itself. -/
structure Exact (w : World) : Prop where
  balance_eq : w.bank native swapAddr = loadReserve w.storage native
  outward : ∀ id, loadStatus w.storage id = .locked →
    (w.storage.swap id).terms.asset = native →
      (w.storage.swap id).terms.recipient ≠ swapAddr ∧
        (w.storage.swap id).terms.refund ≠ swapAddr

/-! ## What leaves the vault's coin alone -/

theorem deliverValue_balance {w w' : World} (hb : w.bank.Bounded) {caller : Address}
    {value : ℕ} (h : deliverValue w caller value = some w') :
    w'.bank native swapAddr = w.bank native swapAddr +
      if caller = swapAddr then 0 else value := by
  obtain ⟨bank, htransfer, rfl⟩ := Option.map_eq_some_iff.mp h
  obtain ⟨hle, hfits, rfl⟩ := Bank.transfer_eq_some htransfer
  show w.bank.move native caller swapAddr value native swapAddr = _
  split_ifs with hself
  · subst hself
    rw [Bank.move_sender hb hle, if_pos rfl]
    rfl
  · exact Bank.move_recipient hself hfits

/-- A tidy interaction behind the guard. -/
theorem interact_balance {hashes : Hashes} {env : Environment} {depth : ℕ} {w : World}
    (hb : w.bank.Bounded) (hguard : w.storage.guard = true) {i : Interaction}
    (hi : i.Tidy) :
    (interact (call hashes env depth) w i).bank native swapAddr =
      w.bank native swapAddr := by
  cases i with
  | enter r =>
      simp only [interact]
      cases hcall : call hashes env depth w r with
      | error e => rfl
      | ok result =>
          obtain ⟨delivered, d, time, hdeliver, -, hdispatch⟩ := call_eq_ok hcall
          have hspares := deliverValue_spares hb hdeliver
          obtain ⟨hsame, hview⟩ := dispatch_guarded (by rw [hspares.storage, hguard]) hdispatch
          have hzero : r.value = 0 := by
            by_contra hvalue
            exact hview (hi.1 hvalue).1
          simp only [hsame]
          rw [deliverValue_balance hb hdeliver, hzero, ite_self, add_zero]
  | credit asset owner amount =>
      simp only [interact]
      split_ifs
      · show Bank.set _ _ _ _ _ _ = _
        rw [Bank.set_apply, if_neg (fun hc => hi ⟨hc.1.symm, hc.2.symm⟩)]
      · rfl
  | debit asset owner amount =>
      simp only [interact]
      split_ifs with howner
      · rfl
      · show Bank.set _ _ _ _ _ _ = _
        rw [Bank.set_apply, if_neg (fun hc => howner hc.2.symm)]

/-- A frame whose token code leaves the vault's native coin alone. -/
def Frame.Still (fr : Frame) : Prop :=
  ∀ token w, w.bank.Bounded → w.storage.guard = true →
    (fr.callback token w).bank native swapAddr = w.bank native swapAddr

theorem frameOf_still (hashes : Hashes) {env : Environment} (depth : ℕ) (time : UInt64)
    (caller : Address)
    (h : ∀ depth token w, ∀ i ∈ env.reactions depth token w, Interaction.Tidy i) :
    (frameOf hashes env depth time caller).Still := by
  intro token w hb hguard
  have hkept : Spares w ((frameOf hashes env depth time caller).callback token w) ∧
      ((frameOf hashes env depth time caller).callback token w).bank native swapAddr =
        w.bank native swapAddr := by
    apply foldl_invariant_mem
      (P := fun v => Spares w v ∧ v.bank native swapAddr = w.bank native swapAddr)
    · intro v i hi hv
      have hset : v.storage.guard = true := by
        rw [hv.1.storage, hguard]
      exact ⟨hv.1.trans (interact_spares hv.1.bounded hset i),
        (interact_balance hv.1.bounded hset (h depth token w i hi)).trans hv.2⟩
    · exact ⟨Spares.refl hb, rfl⟩
  exact hkept.2

theorem transferToken_balance {fr : Frame} (hfr : fr.Guarded) (hstill : fr.Still)
    {w w' : World} (hb : w.bank.Bounded) (hguard : w.storage.guard = true)
    {token sender recipient : Address} {amount : ℕ} (htoken : token ≠ native)
    (h : transferToken fr w token sender recipient amount = some w') :
    w'.bank native swapAddr = w.bank native swapAddr := by
  simp only [transferToken] at h
  split_ifs at h
  have hbefore := hfr token w hb hguard
  cases htransfer : (fr.callback token w).bank.transfer token sender recipient amount with
  | none => simp [htransfer] at h
  | some bank =>
      obtain ⟨-, -, rfl⟩ := Bank.transfer_eq_some htransfer
      simp only [htransfer, Option.some.injEq] at h
      rw [← h, hstill token _ (hbefore.bounded.move _ _ _ _) (by rw [hbefore.storage, hguard])]
      show Bank.move _ _ _ _ _ _ _ = _
      rw [Bank.move_of_ne _ _ (fun hc => absurd hc.symm htoken), hstill token w hb hguard]

theorem payOut_balance {fr : Frame} (hfr : fr.Guarded) (hstill : fr.Still) {w w' : World}
    (hb : w.bank.Bounded) (hguard : w.storage.guard = true) {asset recipient : Address}
    {amount : ℕ} (hrecipient : asset = native → recipient ≠ swapAddr)
    (h : payOut fr w asset recipient amount = .ok w') :
    w'.bank native swapAddr = w.bank native swapAddr -
      if asset = native then amount else 0 := by
  unfold payOut at h
  by_cases hnative : asset = native
  · subst hnative
    rw [if_pos rfl] at h ⊢
    unfold pushOutNative at h
    split_ifs at h with hbig hshort
    simp only [Except.ok.injEq] at h
    rw [← h]
    show w.bank.move native swapAddr recipient amount native swapAddr = _
    rw [Bank.move_sender hb (not_lt.mp hshort), if_neg (hrecipient rfl).symm]
  · rw [if_neg hnative] at h ⊢
    split_ifs at h
    unfold pushOut at h
    cases htransfer : transferToken fr w asset swapAddr recipient amount with
    | none => simp [htransfer] at h
    | some w1 =>
        simp only [htransfer, Except.ok.injEq] at h
        rw [← h, Nat.sub_zero]
        show w1.bank native swapAddr = _
        exact transferToken_balance hfr hstill hb hguard hnative htransfer

theorem pullIn_balance {fr : Frame} (hfr : fr.Guarded) (hstill : fr.Still) {w w' : World}
    (hb : w.bank.Bounded) (hguard : w.storage.guard = true) {asset : Address} {amount : ℕ}
    (hasset : asset ≠ native) (h : pullIn fr w asset amount = .ok w') :
    w'.bank native swapAddr = w.bank native swapAddr := by
  unfold pullIn at h
  rw [if_neg hasset] at h
  split_ifs at h
  unfold pullExact at h
  cases htransfer : transferToken fr w asset fr.caller swapAddr amount with
  | none => simp [htransfer] at h
  | some w1 =>
      simp only [htransfer] at h
      split_ifs at h
      simp only [Except.ok.injEq] at h
      subst h
      exact transferToken_balance hfr hstill hb hguard hasset htransfer

/-! ## One step -/

theorem parseTerms_ok {data : List UInt8} {terms : Terms} (h : parseTerms data = .ok terms) :
    terms.asset = argAddress data 96 ∧ terms.recipient = argAddress data 32 ∧
      terms.refund = argAddress data 64 := by
  simp only [parseTerms, bind_eq_ok, Except.ok.injEq] at h
  obtain ⟨timeout, -, rfl⟩ := h
  exact ⟨rfl, rfl, rfl⟩

/-- A payout takes as much from the vault as its swap takes from the reserve. -/
theorem Exact.exit {fr : Frame} (hfr : fr.Guarded) (hstill : fr.Still) {w w' : World}
    (h : Backed w) (hexact : Exact w) (w1 : World) (hguard : w1.storage.guard = true)
    {id : Word} {recipient : Address} (hlocked : loadStatus w.storage id = .locked)
    (hbank : w1.bank = w.bank)
    (hothers : ∀ j, j ≠ id → w1.storage.swap j = w.storage.swap j)
    (hleft : loadStatus w1.storage id ≠ .locked)
    (hreserve : w1.storage.reserve =
      (storeReserve w.storage (w.storage.swap id).terms.asset
        (loadReserve w.storage (w.storage.swap id).terms.asset -
          loadAmount w.storage id)).reserve)
    (hrecipient : (w.storage.swap id).terms.asset = native → recipient ≠ swapAddr)
    (hpay : payOut fr w1 (w.storage.swap id).terms.asset recipient
      (loadAmount w.storage id) = .ok w') : Exact w' := by
  have hb : w1.bank.Bounded := by
    rw [hbank]
    exact h.bounded
  have hpaid := payOut_ok hfr hb hguard hpay
  have hbalance := payOut_balance hfr hstill hb hguard hrecipient hpay
  constructor
  · have hdebit := loadReserve_debit (h.amount_le hlocked) native
    rw [← loadReserve_congr hreserve, ← hpaid.storage] at hdebit
    rw [hbank, hexact.balance_eq] at hbalance
    simp only [eq_comm (a := native)] at hdebit
    omega
  · intro j hj hkind
    rw [hpaid.storage] at hj hkind ⊢
    have hne : j ≠ id := by
      rintro rfl
      exact hleft hj
    rw [loadStatus, hothers j hne] at hj
    rw [hothers j hne] at hkind ⊢
    exact hexact.outward j hj hkind

/-- A transition keeps the vault exact.  A native lock checks it by itself; every
other transition starts from an exact vault. -/
theorem Exact.transition {fr : Frame} (hfr : fr.Guarded) (hstill : fr.Still)
    {w w' : World} (h : Backed w) (hguard : w.storage.guard = true) {input : List UInt8}
    (hparties : IsNativeLock input → argAddress (input.drop 4) 32 ≠ swapAddr ∧
      argAddress (input.drop 4) 64 ≠ swapAddr)
    (hbalance : ¬IsNativeLock input → w.bank native swapAddr = loadReserve w.storage native)
    (houtward : ∀ id, loadStatus w.storage id = .locked →
      (w.storage.swap id).terms.asset = native →
        (w.storage.swap id).terms.recipient ≠ swapAddr ∧
          (w.storage.swap id).terms.refund ≠ swapAddr)
    (ht : Transition fr input w w') : Exact w' := by
  cases ht with
  | @lock terms id w1 hselector hparse hterms hid hnew hpull =>
      obtain ⟨hspares, hnative, -⟩ := pullIn_ok hfr h.bounded hguard hpull
      obtain ⟨hasset, hrecipient, hrefund⟩ := parseTerms_ok hparse
      have hheld := h.pulled hfr hguard hpull
      have hreserve := loadReserve_storeLock (hheld.trans_lt (hspares.bounded _ _)) id
        w.storage.nonce native
      constructor
      · show w1.bank native swapAddr = loadReserve (storeLock w1.storage id terms _) native
        rw [hreserve]
        by_cases hkind : terms.asset = native
        · obtain ⟨rfl, hsurplus⟩ := hnative hkind
          rw [hsurplus, if_pos hkind.symm]
        · have hother : ¬IsNativeLock input := fun hc => hkind (hasset.trans hc.2)
          rw [pullIn_balance hfr hstill h.bounded hguard hkind hpull, hbalance hother,
            hspares.storage, if_neg (fun hc => hkind hc.symm), add_zero]
      · intro j hj hkind
        simp only [loadStatus, World.emit, storeLock_swap] at hj hkind ⊢
        by_cases hself : j = id
        · subst hself
          rw [Function.update_self] at hkind ⊢
          have hlock : IsNativeLock input := ⟨hselector, hasset.symm.trans hkind⟩
          rw [hrecipient, hrefund]
          exact hparties hlock
        · rw [Function.update_of_ne hself] at hj hkind ⊢
          rw [hspares.storage] at hj hkind ⊢
          exact houtward j hj hkind
  | @claim id preimage _ hselector hid hlocked htime hpreimage hreserve hpay =>
      have hexact : Exact w := by
        refine ⟨hbalance fun hc => ?_, houtward⟩
        exact absurd (hselector.symm.trans hc.1) (by decide)
      refine hexact.exit hfr hstill h (claimedWorld fr w id preimage) hguard hlocked rfl
        (fun j hj => ?_) ?_ rfl (fun hc => (houtward id hlocked hc).1) hpay
      · simp [claimedWorld, World.emit, Function.update_of_ne hj]
      · simp [loadStatus, claimedWorld, World.emit]
  | @refund id _ hselector hid hlocked htime hreserve hpay =>
      have hexact : Exact w := by
        refine ⟨hbalance fun hc => ?_, houtward⟩
        exact absurd (hselector.symm.trans hc.1) (by decide)
      refine hexact.exit hfr hstill h (refundedWorld fr w id) hguard hlocked rfl
        (fun j hj => ?_) ?_ rfl (fun hc => (houtward id hlocked hc).2) hpay
      · simp [refundedWorld, World.emit, Function.update_of_ne hj]
      · simp [loadStatus, refundedWorld, World.emit]

theorem Exact.keep {w w' : World} (h : Exact w) (hstorage : w'.storage = w.storage)
    (hbalance : w'.bank native swapAddr = w.bank native swapAddr) : Exact w' where
  balance_eq := by rw [hbalance, hstorage, h.balance_eq]
  outward := by
    rw [hstorage]
    exact h.outward

theorem Exact.exec {hashes : Hashes} {w : World} (hrest : Resting w) (h : Exact w)
    {a : Action} (ha : a.Tidy) : Exact (Htlc.exec hashes w a) := by
  have htidy := ha.interaction
  cases hi : a.interaction with
  | credit asset owner amount =>
      rw [hi] at htidy
      rw [exec_eq, hi]
      refine h.keep (Spares.credit hrest.bounded _ asset owner amount).storage ?_
      simp only [interact]
      split_ifs
      · show Bank.set _ _ _ _ _ _ = _
        rw [Bank.set_apply, if_neg (fun hc => htidy ⟨hc.1.symm, hc.2.symm⟩)]
      · rfl
  | debit asset owner amount =>
      rw [exec_eq, hi]
      refine h.keep (Spares.debit hrest.bounded _ asset owner amount).storage ?_
      simp only [interact]
      split_ifs with howner
      · rfl
      · show Bank.set _ _ _ _ _ _ = _
        rw [Bank.set_apply, if_neg (fun hc => howner hc.2.symm)]
  | enter r =>
      rw [hi] at htidy
      rw [exec_eq, hi]
      simp only [interact]
      cases hcall : call hashes a.env a.depth w r with
      | error e => exact h
      | ok res =>
          simp only
          obtain ⟨hview, hselector⟩ | ⟨⟨hran⟩⟩ := call_cases hcall
          · have hzero : r.value = 0 := by
              by_contra hvalue
              exact hselector (htidy.1 hvalue).1
            refine h.keep (deliverValue_spares hrest.bounded hview).storage ?_
            rw [deliverValue_balance hrest.bounded hview, hzero, ite_self, add_zero]
          · have hspares := deliverValue_spares hrest.bounded hran.delivered
            have hleft : Exact hran.left := by
              refine Exact.transition (frameOf_guarded _ _ _ _ _)
                (frameOf_still hashes _ _ _ ha.reactions)
                (hrest.toBacked.spares hspares).enter rfl htidy.2 ?_ ?_ hran.transition
              · intro hother
                have hzero : r.value = 0 := by
                  by_contra hvalue
                  exact hother (htidy.1 hvalue)
                show hran.entered.bank native swapAddr =
                  loadReserve hran.entered.storage native
                rw [hspares.storage, deliverValue_balance hrest.bounded hran.delivered,
                  hzero, ite_self, add_zero, h.balance_eq]
              · show ∀ id, loadStatus hran.entered.storage id = .locked → _
                rw [World.enter, hspares.storage]
                exact h.outward
            rw [hran.final]
            exact ⟨hleft.balance_eq, hleft.outward⟩

theorem reachable_exact {hashes : Hashes} {w : World} (h : Genesis w)
    (hempty : w.bank native swapAddr = 0) {actions : List Action}
    (htidy : ∀ a ∈ actions, a.Tidy) : Exact (runFrom hashes w actions) := by
  have hboth : Resting (runFrom hashes w actions) ∧ Exact (runFrom hashes w actions) := by
    apply foldl_invariant_mem (P := fun w => Resting w ∧ Exact w)
    · intro w a ha hw
      exact ⟨hw.1.exec a, hw.2.exec hw.1 (htidy a ha)⟩
    · refine ⟨Resting.genesis h, ?_, fun id hid => ?_⟩
      · rw [hempty, h.storage_empty]
        rfl
      · rw [h.storage_empty] at hid
        cases hid
  exact hboth.2

/-! ## Accepting an exact lock -/

/-- A well-formed lock of native coin by another account that attaches exactly the
amount. -/
structure NativeLockRequest (env : Environment) (depth : ℕ) (w : World) (r : Request)
    (terms : Terms) (time : UInt64) : Prop extends
    Admitted env depth w r selLock 192 gasLock time where
  parses : parseTerms (r.input.drop 4) = .ok terms
  terms_ok : checkTerms terms time = .ok ()
  asset_eq : terms.asset = native
  value_eq : r.value = wordToUint terms.amount
  caller_ne : r.caller ≠ swapAddr

/-- The caller never locked before. -/
def Fresh (w : World) (caller : Address) : Prop :=
  ∀ l ∈ w.logs, ∀ id terms, l.event = .locked id terms → l.caller ≠ caller

/-- No id of the run is the hash of two different byte strings. -/
def CollisionFree (hashes : Hashes) (w : World) (bytes : List UInt8) : Prop :=
  ∀ l ∈ w.logs, ∀ id terms nonce, l.event = .locked id terms →
    id = hashes.keccak256 (swapIdBytes terms l.caller nonce) →
      id = hashes.keccak256 bytes → swapIdBytes terms l.caller nonce = bytes

theorem swapIdBytes_caller {terms terms' : Terms} {caller caller' : Address}
    {nonce nonce' : UInt64}
    (h : swapIdBytes terms caller nonce = swapIdBytes terms' caller' nonce') :
    caller = caller' := by
  unfold swapIdBytes at h
  have hcut := (List.append_inj h (by simp [addressBytes])).1
  have hcaller := (List.append_inj hcut (by simp [addressBytes])).2
  exact Fin.ext (natToBytes_inj (by have := caller.isLt; omega)
    (by have := caller'.isLt; omega) hcaller)

theorem Recorded.id_free {hashes : Hashes} {w : World} (h : Recorded hashes w)
    {terms : Terms} {caller : Address} {nonce : UInt64} (hfresh : Fresh w caller)
    (hfree : CollisionFree hashes w (swapIdBytes terms caller nonce)) :
    loadStatus w.storage (computeSwapId hashes terms caller nonce) = .none := by
  by_contra hused
  obtain ⟨l, hl, t, n, hevent, hid⟩ := h.derived _ hused
  exact hfresh l hl _ t hevent (swapIdBytes_caller (hfree l hl _ t n hevent hid rfl))

/-- A lock whose native surplus is its amount goes through. -/
theorem runLock_native (fr : Frame) {w : World} {data : List UInt8} {gas : ℕ}
    {terms : Terms} (hgas : gasLock ≤ gas) (hlength : data.length = 192)
    (hparse : parseTerms data = .ok terms) (hterms : checkTerms terms fr.time = .ok ())
    (hnew : loadStatus w.storage
      (computeSwapId fr.hashes terms fr.caller w.storage.nonce) = .none)
    (hasset : terms.asset = native)
    (hsurplus : w.bank native swapAddr =
      loadReserve w.storage native + wordToUint terms.amount) :
    ∃ reply, runLock fr w data gas =
      .ok (World.emit
        { w with
          storage := storeLock w.storage
            (computeSwapId fr.hashes terms fr.caller w.storage.nonce) terms w.storage.nonce }
        fr (.locked (computeSwapId fr.hashes terms fr.caller w.storage.nonce) terms),
        reply) := by
  have hcharge : chargeGas Error.outOfGas gas gasLock = .ok (gas - gasLock) :=
    if_neg (not_lt.mpr hgas)
  have hcheck : checkLength Error.badArgs data 192 = .ok () := if_neg (not_not.mpr hlength)
  have hexact : pullExactNative w (loadReserve w.storage native) (wordToUint terms.amount) =
      .ok () := by
    unfold pullExactNative
    rw [if_neg]
    omega
  have hpull : pullIn fr w terms.asset (wordToUint terms.amount) = .ok w := by
    unfold pullIn
    rw [if_pos hasset, hasset, hexact]
    rfl
  unfold runLock
  simp only [hcharge, hcheck, hparse, hterms, hnew, hpull, bind, Except.bind, ne_eq,
    not_true_eq_false, if_false]
  exact ⟨_, rfl⟩

/-- After a run whose calls bring native coin in with native locks only, and whose
native locks name other accounts, an exact native lock by a fresh caller goes
through and adds exactly its amount to the reserve. -/
theorem native_lock_accepted (hashes : Hashes) {w₀ : World} (hgenesis : Genesis w₀)
    (hempty : w₀.bank native swapAddr = 0) (actions : List Action)
    (htidy : ∀ a ∈ actions, a.Tidy) {env : Environment} {depth : ℕ} {r : Request}
    {terms : Terms} {time : UInt64}
    (hrequest : NativeLockRequest env depth (runFrom hashes w₀ actions) r terms time)
    (hfresh : Fresh (runFrom hashes w₀ actions) r.caller)
    (hfree : CollisionFree hashes (runFrom hashes w₀ actions)
      (swapIdBytes terms r.caller (runFrom hashes w₀ actions).storage.nonce)) :
    ∃ w' reply, call hashes env depth (runFrom hashes w₀ actions) r = .ok (w', reply) ∧
      loadReserve w'.storage native =
        loadReserve (runFrom hashes w₀ actions).storage native + r.value := by
  have hrest : Resting (runFrom hashes w₀ actions) := reachable_resting hgenesis actions
  have hexact : Exact (runFrom hashes w₀ actions) := reachable_exact hgenesis hempty htidy
  have hrecorded : Recorded hashes (runFrom hashes w₀ actions) :=
    reachable_recorded hgenesis actions
  generalize runFrom hashes w₀ actions = w at *
  obtain ⟨d, bank, hdeliver, hcall⟩ := hrequest.call_eq hashes hrest.idle (by decide)
  have hbalance := deliverValue_balance hrest.bounded hdeliver
  rw [if_neg hrequest.caller_ne, hexact.balance_eq, hrequest.value_eq] at hbalance
  have hlength : (r.input.drop 4).length = 192 := by
    rw [List.length_drop, hrequest.length_eq]
  obtain ⟨reply, hrun⟩ := runLock_native (frameOf hashes env d time r.caller)
    (w := World.enter { w with bank := bank }) hrequest.gas_le hlength hrequest.parses
    hrequest.terms_ok (hrecorded.id_free hfresh hfree) hrequest.asset_eq hbalance
  rw [runTransition, if_pos rfl, hrun] at hcall
  refine ⟨_, reply, hcall, ?_⟩
  have hfits : loadReserve w.storage terms.asset + wordToUint terms.amount < 2 ^ 256 := by
    rw [hrequest.asset_eq]
    exact hbalance.symm.trans_lt ((deliverValue_spares hrest.bounded hdeliver).bounded _ _)
  refine (loadReserve_storeLock hfits (computeSwapId hashes terms r.caller w.storage.nonce)
    w.storage.nonce native).trans ?_
  rw [if_pos hrequest.asset_eq.symm, hrequest.value_eq]

/-- Seven native coins for the preimage of two, by another account. -/
def secondTerms : Terms where
  hashlock := 0x9267d3dbed802941483f1afa2a6bc68de5f653128aca9bf1461c5d0a3ad36ed2
  recipient := 0xB0B
  refund := 0xCAB
  asset := native
  amount := 7
  timeout := 3600

/-- The id of that swap as the second lock. -/
def secondId : Word := 0x2285dcaa80b14a44d77390e7ea8e24fc922c1c07bcc970d5ad6a8ed3bd112455

/-- The two hash functions where both swaps need them. -/
def bothHashes : Hashes where
  keccak256 bs :=
    if bs = swapIdBytes sampleTerms 0xA11CE 0 then sampleId
    else if bs = swapIdBytes secondTerms 0xCAB 1 then secondId
    else 0
  sha256 bs :=
    if bs = hashBytes 1 then sampleTerms.hashlock
    else if bs = hashBytes 2 then secondTerms.hashlock
    else 0

/-- The sample swap is locked and claimed. -/
def claimedRun : List Action := [sampleLock, callAt 1999 7 0 selClaim [sampleId, 1]]

theorem claimedRun_logs : (runFrom bothHashes fundedWorld claimedRun).logs =
    [⟨1999, 7, .claimed sampleId sampleTerms.hashlock 1 0xB0B 5⟩,
      ⟨1000, 0xA11CE, .locked sampleId sampleTerms⟩] := by
  decide +kernel

theorem claimedRun_tidy : ∀ a ∈ claimedRun, a.Tidy := by
  intro a ha
  rcases List.mem_cons.mp ha with rfl | ha
  · refine ⟨⟨fun _ => by decide +kernel, fun _ => ?_⟩, fun _ _ _ i hi => by cases hi⟩
    decide +kernel
  · obtain rfl := List.mem_singleton.mp ha
    refine ⟨⟨fun hc => absurd rfl hc, fun hc => ?_⟩, fun _ _ _ i hi => by cases hi⟩
    exact absurd hc (by decide +kernel)

theorem claimedRun_locked {l : Log} (hl : l ∈ (runFrom bothHashes fundedWorld claimedRun).logs)
    {id : Word} {terms : Terms} (h : l.event = .locked id terms) :
    l.caller = 0xA11CE ∧ id = sampleId := by
  rw [claimedRun_logs] at hl
  rcases List.mem_cons.mp hl with rfl | hl
  · cases h
  · obtain rfl := List.mem_singleton.mp hl
    obtain ⟨rfl, -⟩ := Event.locked.inj h
    exact ⟨rfl, rfl⟩

/-- The lock of the second swap. -/
def secondRequest : Request :=
  ⟨0xCAB, 7, calldata selLock (lockArgs secondTerms), 1000000, false⟩

/-- A second account locks seven coins after the first swap was locked and claimed. -/
theorem native_lock_accepted_second :
    loadStatus (runFrom bothHashes fundedWorld claimedRun).storage sampleId = .claimed ∧
    ∃ w' reply, call bothHashes (envAt 2000) 1024
        (runFrom bothHashes fundedWorld claimedRun) secondRequest = .ok (w', reply) ∧
      loadReserve w'.storage native =
        loadReserve (runFrom bothHashes fundedWorld claimedRun).storage native +
          secondRequest.value := by
  refine ⟨by decide +kernel, ?_⟩
  have hdelivered : (deliverValue (runFrom bothHashes fundedWorld claimedRun) 0xCAB 7).isSome =
      true := by
    decide +kernel
  have hadmitted : Admitted (envAt 2000) 1024 (runFrom bothHashes fundedWorld claimedRun)
      secondRequest selLock 192 gasLock 2000 :=
    ⟨by decide, Option.isSome_iff_exists.mp hdelivered, rfl, by decide, by decide +kernel,
      by decide, rfl⟩
  have hrequest : NativeLockRequest (envAt 2000) 1024
      (runFrom bothHashes fundedWorld claimedRun) secondRequest secondTerms 2000 :=
    ⟨hadmitted, by rfl, by rfl, rfl, by decide +kernel, by decide +kernel⟩
  refine native_lock_accepted bothHashes fundedWorld_genesis (by decide) claimedRun
    claimedRun_tidy hrequest ?_ ?_
  · intro l hl id terms hevent
    rw [(claimedRun_locked hl hevent).1]
    decide
  · intro l hl id terms nonce hevent _ hid
    have hnonce : (runFrom bothHashes fundedWorld claimedRun).storage.nonce = 1 := by
      decide +kernel
    have hother : sampleId ≠ bothHashes.keccak256 (swapIdBytes secondTerms 0xCAB 1) := by
      decide +kernel
    rw [(claimedRun_locked hl hevent).2, hnonce] at hid
    exact absurd hid hother

/-- The request of the sample lock. -/
def sampleRequest : Request :=
  ⟨0xA11CE, 5, calldata selLock (lockArgs sampleTerms), 1000000, false⟩

/-- Someone looks at a swap that does not exist, attaching one coin. -/
def viewWithCoin : Action := callAt 900 7 1 selGetSwap [0]

/-- After a view that carried one coin, the first lock fails. -/
theorem native_lock_rejected :
    NativeLockRequest (envAt 1000) 1024 (runFrom sampleHashes fundedWorld [viewWithCoin])
      sampleRequest sampleTerms 1000 ∧
    Fresh (runFrom sampleHashes fundedWorld [viewWithCoin]) 0xA11CE ∧
    call sampleHashes (envAt 1000) 1024 (runFrom sampleHashes fundedWorld [viewWithCoin])
      sampleRequest = .error .deltaMismatch := by
  have hdelivered : (deliverValue (runFrom sampleHashes fundedWorld [viewWithCoin]) 0xA11CE
      5).isSome = true := by
    decide +kernel
  refine ⟨⟨⟨by decide, Option.isSome_iff_exists.mp hdelivered, rfl, by decide, by decide +kernel,
    by decide, rfl⟩, by rfl, by rfl, rfl, by decide +kernel, by decide +kernel⟩, ?_, ?_⟩
  · intro l hl
    have hlogs : (runFrom sampleHashes fundedWorld [viewWithCoin]).logs = [] := by decide
    rw [hlogs] at hl
    cases hl
  · rw [← errorOf_eq_some]
    decide +kernel

end LuxPrecompile.Htlc
