import LuxPrecompile.Htlc.Run
import LuxPrecompile.Support.Sums

/-!
# The reserve of the swap precompile

The reserve of an asset is the total of the swaps locked in it, and the vault
really holds it.  So the reserve never underflows and every exit that passes its
checks is paid, unless the token itself refuses.
-/

namespace LuxPrecompile.Htlc

open Evm Support

/-- What a swap has locked of an asset. -/
def lockedIn (db : Storage) (asset : Address) (id : Word) : ℕ :=
  if (db.swap id).status = .locked ∧ (db.swap id).terms.asset = asset then
    loadAmount db id
  else 0

/-- The total of the swaps of an asset that are locked. -/
noncomputable def lockedTotal (db : Storage) (asset : Address) : ℕ :=
  ∑ id, lockedIn db asset id

/-- The reserve is the total of the locked swaps, and the vault holds it. -/
structure Backed (w : World) : Prop where
  bounded : w.bank.Bounded
  reserve_eq : ∀ asset, loadReserve w.storage asset = lockedTotal w.storage asset
  covered : ∀ asset, loadReserve w.storage asset ≤ w.bank asset swapAddr

/-! ## Updates of the ledger -/

theorem lockedIn_congr {db db' : Storage} {asset : Address} {id : Word}
    (h : db'.swap id = db.swap id) : lockedIn db' asset id = lockedIn db asset id := by
  unfold lockedIn loadAmount
  rw [h]

theorem lockedIn_of_ne {db : Storage} {id : Word} (h : loadStatus db id ≠ .locked)
    (asset : Address) : lockedIn db asset id = 0 :=
  if_neg fun hc => h hc.1

theorem lockedIn_of_locked {db : Storage} {id : Word} (h : loadStatus db id = .locked)
    (asset : Address) :
    lockedIn db asset id =
      if (db.swap id).terms.asset = asset then loadAmount db id else 0 := by
  unfold lockedIn
  simp only [show (db.swap id).status = .locked from h, true_and]

theorem loadReserve_congr {db db' : Storage} (h : db'.reserve = db.reserve)
    (asset : Address) : loadReserve db' asset = loadReserve db asset := by
  unfold loadReserve
  rw [h]

theorem loadReserve_storeReserve (db : Storage) {asset : Address} {v : ℕ}
    (hv : v < 2 ^ 256) (a : Address) :
    loadReserve (storeReserve db asset v) a = if a = asset then v else loadReserve db a := by
  refine (Reserves.load_store v a).trans ?_
  rw [Nat.mod_eq_of_lt hv]
  rfl

theorem loadReserve_storeLock {db : Storage} {terms : Terms}
    (hfits : loadReserve db terms.asset + wordToUint terms.amount < 2 ^ 256) (id : Word)
    (nonce : UInt64) (a : Address) :
    loadReserve (storeLock db id terms nonce) a =
      loadReserve db a + if a = terms.asset then wordToUint terms.amount else 0 := by
  refine (loadReserve_storeReserve _ hfits a).trans ?_
  split_ifs with ha
  · rw [ha]
  · rfl

theorem loadReserve_debit {db : Storage} {asset : Address} {amount : ℕ}
    (hle : amount ≤ loadReserve db asset) (a : Address) :
    loadReserve (storeReserve db asset (loadReserve db asset - amount)) a +
      (if a = asset then amount else 0) = loadReserve db a := by
  have hlt : loadReserve db asset - amount < 2 ^ 256 :=
    (Nat.sub_le _ _).trans_lt (wordToUint_lt _)
  rw [loadReserve_storeReserve _ hlt]
  split_ifs with ha
  · rw [ha, Nat.sub_add_cancel hle]
  · rfl

theorem Backed.amount_le {w : World} (h : Backed w) {id : Word}
    (hlocked : loadStatus w.storage id = .locked) :
    loadAmount w.storage id ≤ loadReserve w.storage (w.storage.swap id).terms.asset := by
  have hone := le_sum (lockedIn w.storage (w.storage.swap id).terms.asset) id
  rw [lockedIn_of_locked hlocked, if_pos rfl] at hone
  rw [h.reserve_eq]
  exact hone

/-! ## One step -/

theorem Backed.spares {w w' : World} (h : Backed w) (hs : Spares w w') : Backed w' where
  bounded := hs.bounded
  reserve_eq := by
    rw [hs.storage]
    exact h.reserve_eq
  covered asset := by
    rw [hs.storage]
    exact (h.covered asset).trans (hs.vault asset)

theorem Backed.enter {w : World} (h : Backed w) : Backed w.enter :=
  ⟨h.bounded, h.reserve_eq, h.covered⟩

theorem Backed.leave {w : World} (h : Backed w) :
    Backed { w with storage := exitGuard w.storage } :=
  ⟨h.bounded, h.reserve_eq, h.covered⟩

theorem Backed.pulled {w w1 : World} (h : Backed w) {fr : Frame} (hfr : fr.Guarded)
    (hguard : w.storage.guard = true) {asset : Address} {amount : ℕ}
    (hpull : pullIn fr w asset amount = .ok w1) :
    loadReserve w1.storage asset + amount ≤ w1.bank asset swapAddr := by
  obtain ⟨hspares, hnative, htoken⟩ := pullIn_ok hfr h.bounded hguard hpull
  by_cases hasset : asset = native
  · obtain ⟨rfl, hbalance⟩ := hnative hasset
    rw [hasset, hbalance]
  · rw [htoken hasset, hspares.storage]
    exact Nat.add_le_add_right (h.covered _) _

/-- A lock adds its amount on both sides. -/
theorem Backed.lock {w w1 : World} (h : Backed w) {fr : Frame} (hfr : fr.Guarded)
    (hguard : w.storage.guard = true) {terms : Terms} {id : Word}
    (hnew : loadStatus w.storage id = .none)
    (hpull : pullIn fr w terms.asset (wordToUint terms.amount) = .ok w1) :
    Backed { w1 with storage := storeLock w1.storage id terms w.storage.nonce } := by
  obtain ⟨hspares, -, -⟩ := pullIn_ok hfr h.bounded hguard hpull
  have h1 := h.spares hspares
  have hheld := h.pulled hfr hguard hpull
  have hreserve := loadReserve_storeLock (hheld.trans_lt (h1.bounded _ _)) id w.storage.nonce
  refine ⟨h1.bounded, fun a => ?_, fun a => ?_⟩
  · have hsum := sum_add_of_eq_off (f := lockedIn w1.storage a)
      (g := lockedIn (storeLock w1.storage id terms w.storage.nonce) a) id (by
        intro j hj
        apply lockedIn_congr
        rw [storeLock_swap, Function.update_of_ne hj])
    have hterms : ((storeLock w1.storage id terms w.storage.nonce).swap id).terms = terms := by
      simp
    rw [lockedIn_of_ne (by rw [hspares.storage, hnew]; decide),
      lockedIn_of_locked (by simp [loadStatus])] at hsum
    have hamount : loadAmount (storeLock w1.storage id terms w.storage.nonce) id =
        wordToUint terms.amount := by
      rw [loadAmount, hterms]
    rw [hterms, hamount, add_zero] at hsum
    show loadReserve (storeLock w1.storage id terms w.storage.nonce) a = _
    rw [hreserve, h1.reserve_eq]
    simp only [eq_comm (a := a)]
    exact hsum.symm
  · show loadReserve (storeLock w1.storage id terms w.storage.nonce) a ≤ w1.bank a swapAddr
    rw [hreserve]
    split_ifs with ha
    · rw [ha]
      exact hheld
    · exact h1.covered a

/-- Leaving the locked status takes the amount from both sides. -/
theorem Backed.exit {w w2 : World} (h : Backed w) (w1 : World) {id : Word} {recipient : Address}
    (hlocked : loadStatus w.storage id = .locked)
    (hbank : w1.bank = w.bank)
    (hothers : ∀ j, j ≠ id → w1.storage.swap j = w.storage.swap j)
    (hleft : loadStatus w1.storage id ≠ .locked)
    (hreserve : w1.storage.reserve =
      (storeReserve w.storage (w.storage.swap id).terms.asset
        (loadReserve w.storage (w.storage.swap id).terms.asset -
          loadAmount w.storage id)).reserve)
    (hpaid : Paid w1 w2 (w.storage.swap id).terms.asset recipient
      (loadAmount w.storage id)) : Backed w2 := by
  have hle := h.amount_le hlocked
  have hnew : ∀ a, loadReserve w2.storage a +
      (if a = (w.storage.swap id).terms.asset then loadAmount w.storage id else 0) =
        loadReserve w.storage a := by
    intro a
    rw [hpaid.storage, loadReserve_congr hreserve, loadReserve_debit hle]
  refine ⟨hpaid.bounded, fun a => ?_, fun a => ?_⟩
  · have hsum := sum_add_of_eq_off (f := lockedIn w.storage a) (g := lockedIn w1.storage a)
      id fun j hj => lockedIn_congr (hothers j hj)
    rw [lockedIn_of_ne hleft, lockedIn_of_locked hlocked, add_zero] at hsum
    have hold := h.reserve_eq a
    have hlaw := hnew a
    unfold lockedTotal at hold ⊢
    rw [hpaid.storage] at hlaw ⊢
    simp only [eq_comm (a := a)] at hlaw
    omega
  · have hlaw := hnew a
    have hold := h.covered a
    have hvault := hpaid.vault a
    rw [hbank] at hvault
    omega

theorem Backed.transition {fr : Frame} (hfr : fr.Guarded) {w w' : World} (h : Backed w)
    (hguard : w.storage.guard = true) {input : List UInt8} (ht : Transition fr input w w') :
    Backed w' := by
  cases ht with
  | lock hselector hparse hterms hid hnew hpull =>
      have hlock := h.lock hfr hguard hnew hpull
      exact ⟨hlock.bounded, hlock.reserve_eq, hlock.covered⟩
  | @claim id preimage _ hselector hid hlocked htime hpreimage hreserve hpay =>
      have hpaid := payOut_ok hfr (w := claimedWorld fr w id preimage) h.bounded hguard hpay
      refine h.exit (claimedWorld fr w id preimage) hlocked rfl (fun j hj => ?_) ?_
        rfl hpaid
      · simp [claimedWorld, World.emit, Function.update_of_ne hj]
      · simp [loadStatus, claimedWorld, World.emit]
  | @refund id _ hselector hid hlocked htime hreserve hpay =>
      have hpaid := payOut_ok hfr (w := refundedWorld fr w id) h.bounded hguard hpay
      refine h.exit (refundedWorld fr w id) hlocked rfl (fun j hj => ?_) ?_ rfl hpaid
      · simp [refundedWorld, World.emit, Function.update_of_ne hj]
      · simp [loadStatus, refundedWorld, World.emit]

/-- A ledger between two calls: backed, with the guard down. -/
structure Resting (w : World) : Prop extends Backed w where
  idle : w.storage.guard = false

theorem Resting.genesis {w : World} (h : Genesis w) : Resting w := by
  refine ⟨⟨h.bounded, fun asset => ?_, fun asset => ?_⟩, ?_⟩
  · rw [h.storage_empty]
    symm
    apply Finset.sum_eq_zero
    intro id _
    exact lockedIn_of_ne (by simp [loadStatus, Storage.empty]) asset
  · rw [h.storage_empty]
    exact Nat.zero_le _
  · rw [h.storage_empty]
    rfl

theorem Resting.exec {hashes : Hashes} {w : World} (h : Resting w) (a : Action) :
    Resting (Htlc.exec hashes w a) := by
  obtain hspares | ⟨r, -, ⟨hran⟩⟩ := exec_cases hashes h.bounded a
  · exact ⟨h.spares hspares, by rw [hspares.storage, h.idle]⟩
  · have hentered := h.spares (deliverValue_spares h.bounded hran.delivered)
    have hleft := hentered.enter.transition (frameOf_guarded _ _ _ _ _) rfl hran.transition
    rw [hran.final]
    exact ⟨hleft.leave, rfl⟩

theorem reachable_resting {hashes : Hashes} {w : World} (h : Genesis w)
    (actions : List Action) : Resting (runFrom hashes w actions) :=
  foldl_invariant (fun _ a hw => hw.exec a) actions (Resting.genesis h)

/-! ## Paying in full -/

/-- A payout refused on the token's side, although the vault holds the amount. -/
inductive TokenRefusal (host : Host) (asset recipient : Address) (amount : ℕ) :
    Error → Prop
  | noVault (h : host.erc20Vault = false) :
      TokenRefusal host asset recipient amount .vaultUnavailable
  | refused (bank : Bank) (hheld : amount ≤ bank asset swapAddr)
      (h : host.tokenAllows asset swapAddr = false ∨
        ¬bank.fits asset swapAddr recipient amount) :
      TokenRefusal host asset recipient amount .transferFailed

/-- A payout the vault covers goes through unless the token refuses it. -/
theorem payOut_covered {fr : Frame} (hfr : fr.Guarded) {w : World} (hb : w.bank.Bounded)
    (hguard : w.storage.guard = true) {asset : Address} (recipient : Address) {amount : ℕ}
    (hheld : amount ≤ w.bank asset swapAddr) :
    (∃ w', payOut fr w asset recipient amount = .ok w') ∨
    ∃ e, payOut fr w asset recipient amount = .error e ∧ asset ≠ native ∧
      TokenRefusal fr.host asset recipient amount e := by
  unfold payOut
  by_cases hnative : asset = native
  · left
    subst hnative
    have hlt : ¬2 ^ 256 ≤ amount := not_le.mpr (hheld.trans_lt (hb _ _))
    rw [if_pos rfl, pushOutNative, if_neg hlt, if_neg (not_lt.mpr hheld)]
    exact ⟨_, rfl⟩
  rw [if_neg hnative]
  cases hvault : fr.host.erc20Vault with
  | false => exact Or.inr ⟨_, rfl, hnative, .noVault hvault⟩
  | true =>
      rw [if_pos rfl]
      have hbefore := hfr asset w hb hguard
      have hheld' : amount ≤ (fr.callback asset w).bank asset swapAddr :=
        hheld.trans (hbefore.vault asset)
      unfold pushOut transferToken
      cases hallows : fr.host.tokenAllows asset swapAddr with
      | false => exact Or.inr ⟨_, by simp, hnative, .refused _ hheld' (Or.inl hallows)⟩
      | true =>
          by_cases hfits : (fr.callback asset w).bank.fits asset swapAddr recipient amount
          · left
            simp [Bank.transfer, hheld', hfits]
          · right
            exact ⟨_, by simp [Bank.transfer, hfits], hnative, .refused _ hheld' (Or.inr hfits)⟩

/-! ## The reserve never underflows -/

theorem chargeGas_ne_underflow (gas cost : ℕ) :
    chargeGas Error.outOfGas gas cost ≠ .error .reserveUnderflow := by
  unfold chargeGas
  split_ifs <;> simp

theorem checkLength_ne_underflow (data : List UInt8) (n : ℕ) :
    checkLength Error.badArgs data n ≠ .error .reserveUnderflow := by
  unfold checkLength
  split_ifs <;> simp

theorem parseTerms_ne_underflow (data : List UInt8) :
    parseTerms data ≠ .error .reserveUnderflow := by
  intro h
  simp only [parseTerms, bind_eq_error, wordUint64] at h
  split_ifs at h <;> simp at h

theorem checkTerms_ne_underflow (terms : Terms) (t0 : UInt64) :
    checkTerms terms t0 ≠ .error .reserveUnderflow := by
  unfold checkTerms
  split_ifs <;> simp

theorem pullIn_ne_underflow (fr : Frame) (w : World) (asset : Address) (amount : ℕ) :
    pullIn fr w asset amount ≠ .error .reserveUnderflow := by
  intro h
  unfold pullIn at h
  split_ifs at h with hnative hvault
  · simp only [bind_eq_error, pullExactNative] at h
    split_ifs at h <;> simp at h
  · unfold pullExact at h
    cases htransfer : transferToken fr w asset fr.caller swapAddr amount with
    | none => simp [htransfer] at h
    | some w1 =>
        simp only [htransfer] at h
        split_ifs at h
        cases h
  · cases h

theorem payOut_ne_underflow {fr : Frame} (hfr : fr.Guarded) {w : World}
    (hb : w.bank.Bounded) (hguard : w.storage.guard = true) {asset recipient : Address}
    {amount : ℕ} (hheld : amount ≤ w.bank asset swapAddr) :
    payOut fr w asset recipient amount ≠ .error .reserveUnderflow := by
  intro h
  obtain ⟨w', hok⟩ | ⟨e, herror, -, hrefusal⟩ := payOut_covered hfr hb hguard recipient hheld
  · rw [hok] at h
    cases h
  · rw [herror, Except.error.injEq] at h
    subst h
    cases hrefusal

theorem runLock_ne_underflow (fr : Frame) (w : World) (data : List UInt8) (gas : ℕ) :
    runLock fr w data gas ≠ .error .reserveUnderflow := by
  intro h
  simp only [runLock, bind_eq_error] at h
  obtain h | ⟨_, -, h | ⟨_, -, h | ⟨terms, -, h | ⟨_, -, h⟩⟩⟩⟩ := h
  · exact chargeGas_ne_underflow _ _ h
  · exact checkLength_ne_underflow _ _ h
  · exact parseTerms_ne_underflow _ h
  · exact checkTerms_ne_underflow _ _ h
  · split_ifs at h
    · cases h
    · rw [bind_eq_error] at h
      obtain h | ⟨_, -, h⟩ := h
      · exact pullIn_ne_underflow _ _ _ _ h
      · cases h

theorem subReserve_of_locked {w : World} (h : Backed w) {id : Word}
    (hlocked : loadStatus w.storage id = .locked) :
    subReserve w.storage (w.storage.swap id).terms.asset (loadAmount w.storage id) =
      some (storeReserve w.storage (w.storage.swap id).terms.asset
        (loadReserve w.storage (w.storage.swap id).terms.asset - loadAmount w.storage id)) :=
  subReserve_eq_some.mpr ⟨h.amount_le hlocked, rfl⟩

theorem runClaim_ne_underflow {fr : Frame} (hfr : fr.Guarded) {w : World} (h : Backed w)
    (hguard : w.storage.guard = true) (data : List UInt8) (gas : ℕ) :
    runClaim fr w data gas ≠ .error .reserveUnderflow := by
  intro hrun
  simp only [runClaim, bind_eq_error] at hrun
  obtain hrun | ⟨_, -, hrun | ⟨_, -, hrun⟩⟩ := hrun
  · exact chargeGas_ne_underflow _ _ hrun
  · exact checkLength_ne_underflow _ _ hrun
  · split_ifs at hrun with hstatus htime hpreimage
    · cases hrun
    · cases hrun
    · cases hrun
    · have hlocked := not_not.mp hstatus
      rw [subReserve_of_locked h hlocked] at hrun
      simp only [bind_eq_error] at hrun
      obtain hrun | ⟨_, -, hrun⟩ := hrun
      · exact payOut_ne_underflow hfr
          (w := claimedWorld fr w (argWord data 0) (argWord data 32)) h.bounded hguard
          ((h.amount_le hlocked).trans (h.covered _)) hrun
      · cases hrun

theorem runRefund_ne_underflow {fr : Frame} (hfr : fr.Guarded) {w : World} (h : Backed w)
    (hguard : w.storage.guard = true) (data : List UInt8) (gas : ℕ) :
    runRefund fr w data gas ≠ .error .reserveUnderflow := by
  intro hrun
  simp only [runRefund, bind_eq_error] at hrun
  obtain hrun | ⟨_, -, hrun | ⟨_, -, hrun⟩⟩ := hrun
  · exact chargeGas_ne_underflow _ _ hrun
  · exact checkLength_ne_underflow _ _ hrun
  · split_ifs at hrun with hstatus htime
    · cases hrun
    · cases hrun
    · have hlocked := not_not.mp hstatus
      rw [subReserve_of_locked h hlocked] at hrun
      simp only [bind_eq_error] at hrun
      obtain hrun | ⟨_, -, hrun⟩ := hrun
      · exact payOut_ne_underflow hfr (w := refundedWorld fr w (argWord data 0)) h.bounded
          hguard ((h.amount_le hlocked).trans (h.covered _)) hrun
      · cases hrun

theorem dispatch_ne_underflow {fr : Frame} (hfr : fr.Guarded) {w : World} (h : Backed w)
    (input : List UInt8) (gas : ℕ) (readOnly : Bool) :
    dispatch fr w input gas readOnly ≠ .error .reserveUnderflow := by
  intro hrun
  simp only [dispatch] at hrun
  split_ifs at hrun
  · simp only [runGetSwap, bind_eq_error] at hrun
    obtain hrun | ⟨_, -, hrun | ⟨_, -, hrun⟩⟩ := hrun
    · exact chargeGas_ne_underflow _ _ hrun
    · exact checkLength_ne_underflow _ _ hrun
    · cases hrun
  · simp only [runGetPreimage, bind_eq_error] at hrun
    obtain hrun | ⟨_, -, hrun | ⟨_, -, hrun⟩⟩ := hrun
    · exact chargeGas_ne_underflow _ _ hrun
    · exact checkLength_ne_underflow _ _ hrun
    · cases hrun
  · cases hrun
  · cases hguard : enterGuard w.storage with
    | none => simp [hguard] at hrun
    | some db =>
        simp only [hguard, bind_eq_error] at hrun
        have hentered := h.enter
        rw [World.enter, ← enterGuard_eq_some hguard] at hentered
        have hset : db.guard = true := by
          rw [enterGuard_eq_some hguard]
        obtain hrun | ⟨_, -, hrun⟩ := hrun
        · unfold runTransition at hrun
          split_ifs at hrun
          · exact runLock_ne_underflow _ _ _ _ hrun
          · exact runClaim_ne_underflow hfr hentered hset _ _ hrun
          · exact runRefund_ne_underflow hfr hentered hset _ _ hrun
        · cases hrun
  · cases hrun

theorem Backed.call_ne_underflow {hashes : Hashes} {env : Environment} {depth : ℕ}
    {w : World} (h : Backed w) (r : Request) :
    call hashes env depth w r ≠ .error .reserveUnderflow := by
  intro hcall
  rw [call_eq_deliver] at hcall
  cases hdeliver : deliverValue w r.caller r.value with
  | none => simp [hdeliver] at hcall
  | some w1 =>
      simp only [hdeliver] at hcall
      cases depth with
      | zero => cases hcall
      | succ depth =>
          rw [run_succ] at hcall
          split_ifs at hcall
          · cases hcall
          · cases htime : env.host.blockContext with
            | none => simp [htime] at hcall
            | some time =>
                simp only [htime] at hcall
                exact dispatch_ne_underflow (frameOf_guarded _ _ _ _ _)
                  (h.spares (deliverValue_spares h.bounded hdeliver)) _ _ _ hcall

/-! ## Exits that pass their checks -/

/-- What the host and the argument parser check before a transition starts. -/
structure Admitted (env : Environment) (depth : ℕ) (w : World) (r : Request)
    (selector size cost : ℕ) (time : UInt64) : Prop where
  deep : 0 < depth
  delivered : ∃ w', deliverValue w r.caller r.value = some w'
  block : env.host.blockContext = some time
  selector_eq : bytesToNat (slice r.input 0 4) = selector
  length_eq : r.input.length = 4 + size
  gas_le : cost ≤ r.gas
  writable : r.readOnly = false

/-- A claim that passes every check of the precompile. -/
structure ClaimPasses (hashes : Hashes) (env : Environment) (depth : ℕ) (w : World)
    (r : Request) (id : Word) (time : UInt64) : Prop extends
    Admitted env depth w r selClaim 64 gasClaim time where
  id_eq : argWord (r.input.drop 4) 0 = id
  locked : loadStatus w.storage id = .locked
  early : time < (w.storage.swap id).terms.timeout
  preimage : hashes.sha256 (hashBytes (argWord (r.input.drop 4) 32)) =
    (w.storage.swap id).terms.hashlock

/-- A refund that passes every check of the precompile. -/
structure RefundPasses (env : Environment) (depth : ℕ) (w : World) (r : Request)
    (id : Word) (time : UInt64) : Prop extends
    Admitted env depth w r selRefund 32 gasRefund time where
  id_eq : argWord (r.input.drop 4) 0 = id
  locked : loadStatus w.storage id = .locked
  late : (w.storage.swap id).terms.timeout ≤ time

/-- The call pays the whole amount of the swap, or only its token refuses to. -/
def PaysInFull (hashes : Hashes) (env : Environment) (depth : ℕ) (w : World)
    (r : Request) (id : Word) (recipient : Address) : Prop :=
  let asset := (w.storage.swap id).terms.asset
  let amount := loadAmount w.storage id
  (∃ w' reply, call hashes env depth w r = .ok (w', reply) ∧
    w'.payments = ⟨asset, recipient, amount⟩ :: w.payments) ∨
  ∃ e, call hashes env depth w r = .error e ∧ asset ≠ native ∧
    TokenRefusal env.host asset recipient amount e

/-- An admitted transition runs behind the guard. -/
theorem Admitted.call_eq (hashes : Hashes) {env : Environment} {depth : ℕ} {w : World}
    {r : Request} {selector size cost : ℕ} {time : UInt64}
    (h : Admitted env depth w r selector size cost time) (hidle : w.storage.guard = false)
    (hselector : selector ∈ [selLock, selClaim, selRefund]) :
    ∃ d bank, deliverValue w r.caller r.value = some { w with bank := bank } ∧
      call hashes env depth w r = (do
        let (w', reply) ← runTransition (frameOf hashes env d time r.caller)
          (World.enter { w with bank := bank }) selector (r.input.drop 4) r.gas
        .ok ({ w' with storage := exitGuard w'.storage }, reply)) := by
  obtain ⟨d, rfl⟩ := Nat.exists_eq_succ_of_ne_zero h.deep.ne'
  obtain ⟨w1, hdeliver⟩ := h.delivered
  obtain ⟨bank, -, rfl⟩ := Option.map_eq_some_iff.mp hdeliver
  have hlength : ¬r.input.length < 4 := by
    rw [h.length_eq]
    omega
  have hswap : selector ≠ selGetSwap := by
    rintro rfl
    exact absurd hselector (by decide)
  have hpreimage : selector ≠ selGetPreimage := by
    rintro rfl
    exact absurd hselector (by decide)
  refine ⟨d, bank, hdeliver, ?_⟩
  rw [call_eq_deliver]
  simp only [hdeliver, Nat.succ_eq_add_one, run_succ, if_neg hlength, h.block, dispatch,
    h.selector_eq, if_neg hswap, if_neg hpreimage, if_pos hselector, h.writable,
    Bool.false_eq_true, if_false, enterGuard, hidle, World.enter]

/-- A claim on a backed ledger is down to its payout once its checks passed. -/
theorem runClaim_eq (fr : Frame) {w : World} (h : Backed w) {data : List UInt8} {gas : ℕ}
    (hgas : gasClaim ≤ gas) (hlength : data.length = 64)
    (hlocked : loadStatus w.storage (argWord data 0) = .locked)
    (htime : fr.time < (w.storage.swap (argWord data 0)).terms.timeout)
    (hpreimage : fr.hashes.sha256 (hashBytes (argWord data 32)) =
      (w.storage.swap (argWord data 0)).terms.hashlock) :
    runClaim fr w data gas = (do
      let w3 ← payOut fr (claimedWorld fr w (argWord data 0) (argWord data 32))
        (w.storage.swap (argWord data 0)).terms.asset
        (w.storage.swap (argWord data 0)).terms.recipient
        (loadAmount w.storage (argWord data 0))
      .ok (w3, ⟨[1], gas - gasClaim⟩)) := by
  have hcharge : chargeGas Error.outOfGas gas gasClaim = .ok (gas - gasClaim) :=
    if_neg (not_lt.mpr hgas)
  have hcheck : checkLength Error.badArgs data 64 = .ok () := if_neg (not_not.mpr hlength)
  have hmatches : preimageMatches fr.hashes (argWord data 32)
      (w.storage.swap (argWord data 0)).terms.hashlock = true := by
    simp [preimageMatches, hpreimage]
  unfold runClaim
  simp only [hcharge, hcheck, hlocked, hmatches, subReserve_of_locked h hlocked,
    UInt64.not_le.mpr htime, bind, Except.bind, ne_eq, not_true_eq_false, if_false,
    Bool.not_true, Bool.false_eq_true]
  rfl

/-- A refund on a backed ledger is down to its payout once its checks passed. -/
theorem runRefund_eq (fr : Frame) {w : World} (h : Backed w) {data : List UInt8} {gas : ℕ}
    (hgas : gasRefund ≤ gas) (hlength : data.length = 32)
    (hlocked : loadStatus w.storage (argWord data 0) = .locked)
    (htime : (w.storage.swap (argWord data 0)).terms.timeout ≤ fr.time) :
    runRefund fr w data gas = (do
      let w3 ← payOut fr (refundedWorld fr w (argWord data 0))
        (w.storage.swap (argWord data 0)).terms.asset
        (w.storage.swap (argWord data 0)).terms.refund
        (loadAmount w.storage (argWord data 0))
      .ok (w3, ⟨[1], gas - gasRefund⟩)) := by
  have hcharge : chargeGas Error.outOfGas gas gasRefund = .ok (gas - gasRefund) :=
    if_neg (not_lt.mpr hgas)
  have hcheck : checkLength Error.badArgs data 32 = .ok () := if_neg (not_not.mpr hlength)
  unfold runRefund
  simp only [hcharge, hcheck, hlocked, subReserve_of_locked h hlocked,
    UInt64.not_lt.mpr htime, bind, Except.bind, ne_eq, not_true_eq_false, if_false]
  rfl

/-- A call that is down to a payout its vault covers pays in full. -/
theorem PaysInFull.of_payOut {hashes : Hashes} {env : Environment} {depth : ℕ}
    {w : World} (w1 : World) {r : Request} {id : Word} {recipient : Address} {fr : Frame}
    {reply : Reply} (hfr : fr.Guarded) (hhost : fr.host = env.host)
    (hb : w1.bank.Bounded) (hguard : w1.storage.guard = true)
    (hpayments : w1.payments = w.payments)
    (hheld : loadAmount w.storage id ≤ w1.bank (w.storage.swap id).terms.asset swapAddr)
    (hcall : call hashes env depth w r = (do
      let (w2, reply) ← (do
        let w2 ← payOut fr w1 (w.storage.swap id).terms.asset recipient
          (loadAmount w.storage id)
        .ok (w2, reply))
      .ok ({ w2 with storage := exitGuard w2.storage }, reply))) :
    PaysInFull hashes env depth w r id recipient := by
  obtain ⟨w2, hok⟩ | ⟨e, herror, hne, hrefusal⟩ :=
    payOut_covered hfr hb hguard recipient hheld
  · left
    have hpaid := payOut_ok hfr hb hguard hok
    rw [hok] at hcall
    exact ⟨_, reply, hcall, hpaid.payments.trans (by rw [hpayments])⟩
  · right
    rw [herror] at hcall
    exact ⟨e, hcall, hne, hhost ▸ hrefusal⟩

theorem ClaimPasses.pays {hashes : Hashes} {env : Environment} {depth : ℕ} {w : World}
    {r : Request} {id : Word} {time : UInt64} (h : Resting w)
    (hp : ClaimPasses hashes env depth w r id time) :
    PaysInFull hashes env depth w r id (w.storage.swap id).terms.recipient := by
  obtain ⟨d, bank, hdeliver, hcall⟩ := hp.call_eq hashes h.idle (by decide)
  have hentered := (h.spares (deliverValue_spares h.bounded hdeliver)).enter
  obtain rfl := hp.id_eq
  have hlength : (r.input.drop 4).length = 64 := by
    rw [List.length_drop, hp.length_eq]
  have hrun := runClaim_eq (frameOf hashes env d time r.caller) hentered hp.gas_le hlength
    hp.locked hp.early hp.preimage
  have hother : selClaim ≠ selLock := by decide
  rw [runTransition, if_neg hother, if_pos rfl, hrun] at hcall
  have hheld := (hentered.amount_le hp.locked).trans (hentered.covered _)
  exact PaysInFull.of_payOut
    (claimedWorld (frameOf hashes env d time r.caller) (World.enter { w with bank := bank }) _ _)
    (frameOf_guarded hashes env d time r.caller) rfl hentered.bounded rfl rfl hheld hcall

theorem RefundPasses.pays {hashes : Hashes} {env : Environment} {depth : ℕ} {w : World}
    {r : Request} {id : Word} {time : UInt64} (h : Resting w)
    (hp : RefundPasses env depth w r id time) :
    PaysInFull hashes env depth w r id (w.storage.swap id).terms.refund := by
  obtain ⟨d, bank, hdeliver, hcall⟩ := hp.call_eq hashes h.idle (by decide)
  have hentered := (h.spares (deliverValue_spares h.bounded hdeliver)).enter
  obtain rfl := hp.id_eq
  have hlength : (r.input.drop 4).length = 32 := by
    rw [List.length_drop, hp.length_eq]
  have hrun := runRefund_eq (frameOf hashes env d time r.caller) hentered hp.gas_le hlength
    hp.locked hp.late
  have hlock : selRefund ≠ selLock := by decide
  have hclaim : selRefund ≠ selClaim := by decide
  rw [runTransition, if_neg hlock, if_neg hclaim, hrun] at hcall
  have hheld := (hentered.amount_le hp.locked).trans (hentered.covered _)
  exact PaysInFull.of_payOut
    (refundedWorld (frameOf hashes env d time r.caller) (World.enter { w with bank := bank }) _)
    (frameOf_guarded hashes env d time r.caller) rfl hentered.bounded rfl rfl hheld hcall

/-- In every reachable state the reserve of each asset is the total of its locked
swaps and is held by the vault; no call reports an underflow, and an exit that
passes its checks is paid in full. -/
theorem reserve_identity (hashes : Hashes) {w₀ : World} (hgenesis : Genesis w₀)
    (actions : List Action) :
    (∀ asset, loadReserve (runFrom hashes w₀ actions).storage asset =
        lockedTotal (runFrom hashes w₀ actions).storage asset ∧
      loadReserve (runFrom hashes w₀ actions).storage asset ≤
        (runFrom hashes w₀ actions).bank asset swapAddr) ∧
    (∀ env depth r, call hashes env depth (runFrom hashes w₀ actions) r ≠
        .error .reserveUnderflow) ∧
    (∀ env depth r id time,
      ClaimPasses hashes env depth (runFrom hashes w₀ actions) r id time →
        PaysInFull hashes env depth (runFrom hashes w₀ actions) r id
          ((runFrom hashes w₀ actions).storage.swap id).terms.recipient) ∧
    (∀ env depth r id time, RefundPasses env depth (runFrom hashes w₀ actions) r id time →
      PaysInFull hashes env depth (runFrom hashes w₀ actions) r id
        ((runFrom hashes w₀ actions).storage.swap id).terms.refund) := by
  have hrest : Resting (runFrom hashes w₀ actions) := reachable_resting hgenesis actions
  refine ⟨fun asset => ⟨hrest.reserve_eq asset, hrest.covered asset⟩, ?_, ?_, ?_⟩
  · intro env depth r
    exact hrest.toBacked.call_ne_underflow r
  · intro env depth r id time hp
    exact hp.pays hrest
  · intro env depth r id time hp
    exact hp.pays hrest

/-- The sample swap: its five coins are locked, and a claim sent by a third account
pays them. -/
theorem reserve_identity_sample :
    lockedTotal (runFrom sampleHashes fundedWorld [sampleLock]).storage native = 5 ∧
    PaysInFull sampleHashes (envAt 1500) 1024 (runFrom sampleHashes fundedWorld [sampleLock])
      ⟨7, 0, calldata selClaim [sampleId, 1], 1000000, false⟩ sampleId 0xB0B := by
  obtain ⟨hreserve, -, hclaim, -⟩ :=
    reserve_identity sampleHashes fundedWorld_genesis [sampleLock]
  constructor
  · rw [← (hreserve native).1]
    decide +kernel
  · have hrecipient : ((runFrom sampleHashes fundedWorld [sampleLock]).storage.swap
        sampleId).terms.recipient = 0xB0B := by
      decide +kernel
    rw [← hrecipient]
    refine hclaim _ _ _ sampleId 1500 ⟨⟨by decide, ?_, rfl, ?_, ?_, by decide, rfl⟩, ?_, ?_, ?_, ?_⟩
    · exact Option.isSome_iff_exists.mp (by decide +kernel)
    all_goals decide +kernel

end LuxPrecompile.Htlc
