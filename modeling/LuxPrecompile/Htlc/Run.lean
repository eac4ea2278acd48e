import LuxPrecompile.Evm.Precompile
import LuxPrecompile.Htlc.Contract

/-!
# Runs of the swap precompile

A run is a list of calls with any caller, attached value and calldata, and of
balance changes of other accounts between them.  While a token transfer is under
way the token's code may change balances and enter the precompile again, to any
depth the host allows.  A failed call leaves nothing behind, its value included.
-/

namespace LuxPrecompile.Htlc

open Evm Support

/-- One call of the precompile. -/
structure Request where
  caller : Address
  value : ℕ
  input : List UInt8
  gas : ℕ
  readOnly : Bool

/-- What may happen to the world: a call of the precompile, or a balance change.
The precompile's own account never spends outside its calls. -/
inductive Interaction
  | enter (r : Request)
  | credit (asset owner : Address) (amount : ℕ)
  | debit (asset owner : Address) (amount : ℕ)

/-- The host moves the attached value before the precompile runs. -/
def deliverValue (w : World) (caller : Address) (value : ℕ) : Option World :=
  (w.bank.transfer native caller swapAddr value).map fun bank => { w with bank := bank }

/-- The world after an interaction. -/
def interact (call : World → Request → Except Error (World × Reply)) (w : World) :
    Interaction → World
  | .enter r =>
      match call w r with
      | .ok (w', _) => w'
      | .error _ => w
  | .credit asset owner amount =>
      if w.bank asset owner + amount < 2 ^ 256 then
        { w with bank := w.bank.set asset owner (w.bank asset owner + amount) }
      else w
  | .debit asset owner amount =>
      if owner = swapAddr then w
      else { w with bank := w.bank.set asset owner (w.bank asset owner - amount) }

/-- The contract under its host: a call needs a selector and a block. -/
def swapContract (hashes : Hashes) :
    Precompile Host World Request Interaction Error Reply where
  deliver w r := deliverValue w r.caller r.value
  interact := interact
  body host callback w r :=
    if r.input.length < 4 then .error .shortInput
    else
      match host.blockContext with
      | none => .error .noBlockContext
      | some time =>
          dispatch
            { hashes := hashes
              host := host
              time := time
              caller := r.caller
              callback := callback }
            w r.input r.gas r.readOnly
  insufficientBalance := .insufficientBalance
  depth := .depth

abbrev Environment := Evm.Environment Host World Interaction

abbrev Action := Evm.Action Host World Interaction

/-- A call as the host executes it. -/
abbrev call (hashes : Hashes) : Environment → ℕ → World → Request →
    Except Error (World × Reply) :=
  (swapContract hashes).call

/-- The world after an action. -/
abbrev exec (hashes : Hashes) : World → Action → World := (swapContract hashes).exec

/-- A world before the first call, with any balances. -/
structure Genesis (w : World) : Prop where
  storage_empty : w.storage = Storage.empty
  bounded : w.bank.Bounded
  logs_nil : w.logs = []
  payments_nil : w.payments = []

/-- The world after a run. -/
abbrev runFrom (hashes : Hashes) : World → List Action → World := (swapContract hashes).runFrom

/-! ## What a token's code can do -/

/-- The precompile's own state is as before and its account lost nothing. -/
structure Spares (w w' : World) : Prop where
  storage : w'.storage = w.storage
  logs : w'.logs = w.logs
  payments : w'.payments = w.payments
  bounded : w'.bank.Bounded
  vault : ∀ asset, w.bank asset swapAddr ≤ w'.bank asset swapAddr

theorem Spares.refl {w : World} (hb : w.bank.Bounded) : Spares w w :=
  ⟨rfl, rfl, rfl, hb, fun _ => le_rfl⟩

theorem Spares.trans {w w' w'' : World} (h : Spares w w') (h' : Spares w' w'') :
    Spares w w'' where
  storage := h'.storage.trans h.storage
  logs := h'.logs.trans h.logs
  payments := h'.payments.trans h.payments
  bounded := h'.bounded
  vault asset := (h.vault asset).trans (h'.vault asset)

/-- A transfer from another account, or from the vault to itself. -/
theorem Spares.transfer {w : World} (hb : w.bank.Bounded) {asset sender recipient : Address}
    {amount : ℕ} {bank : Bank} (hsender : sender = swapAddr → recipient = swapAddr)
    (h : w.bank.transfer asset sender recipient amount = some bank) :
    Spares w { w with bank := bank } := by
  obtain ⟨hle, -, hbank⟩ := Bank.transfer_eq_some h
  refine ⟨rfl, rfl, rfl, ?_, ?_⟩
  · rw [hbank]
    exact hb.move _ _ _ _
  · intro a
    by_cases hself : swapAddr = sender
    · have hrecipient := hsender hself.symm
      subst hself
      rw [hrecipient] at hbank
      by_cases ha : a = asset
      · subst ha
        show _ ≤ bank a swapAddr
        rw [hbank, Bank.move_sender hb hle, if_pos rfl]
      · show _ ≤ bank a swapAddr
        rw [hbank, Bank.move_of_ne _ _ (fun h => absurd h ha)]
    · exact Bank.le_of_transfer h hself

theorem deliverValue_spares {w w' : World} (hb : w.bank.Bounded) {caller : Address}
    {value : ℕ} (h : deliverValue w caller value = some w') : Spares w w' := by
  simp only [deliverValue, Option.map_eq_some_iff] at h
  obtain ⟨bank, htransfer, rfl⟩ := h
  exact Spares.transfer hb (fun _ => rfl) htransfer

/-- The frame a call runs in. -/
def frameOf (hashes : Hashes) (env : Environment) (depth : ℕ) (time : UInt64)
    (caller : Address) : Frame where
  hashes := hashes
  host := env.host
  time := time
  caller := caller
  callback := (swapContract hashes).callback env depth

theorem call_eq_deliver (hashes : Hashes) (env : Environment) (depth : ℕ) (w : World)
    (r : Request) :
    call hashes env depth w r =
      match deliverValue w r.caller r.value with
      | none => .error .insufficientBalance
      | some delivered => (swapContract hashes).run env depth delivered r := by
  have hdeliver : (swapContract hashes).deliver w r = deliverValue w r.caller r.value := rfl
  rw [call, Precompile.call, Precompile.callWith, hdeliver]
  cases deliverValue w r.caller r.value with
  | none => rfl
  | some delivered => rfl

theorem exec_eq (hashes : Hashes) (w : World) (a : Action) :
    exec hashes w a = interact (call hashes a.env a.depth) w a.interaction := rfl

theorem run_succ (hashes : Hashes) (env : Environment) (depth : ℕ) (w : World)
    (r : Request) :
    (swapContract hashes).run env (depth + 1) w r =
      if r.input.length < 4 then .error .shortInput
      else
        match env.host.blockContext with
        | none => .error .noBlockContext
        | some time =>
            dispatch (frameOf hashes env depth time r.caller) w r.input r.gas r.readOnly :=
  rfl

theorem call_eq_ok {hashes : Hashes} {env : Environment} {depth : ℕ} {w w' : World}
    {r : Request} {reply : Reply} (h : call hashes env depth w r = .ok (w', reply)) :
    ∃ delivered d time, deliverValue w r.caller r.value = some delivered ∧
      env.host.blockContext = some time ∧
      dispatch (frameOf hashes env d time r.caller) delivered r.input r.gas r.readOnly =
        .ok (w', reply) := by
  obtain ⟨delivered, hdeliver, hrun⟩ := Precompile.call_eq_ok.mp h
  obtain ⟨d, -, hbody⟩ := Precompile.run_eq_ok hrun
  simp only [swapContract] at hbody
  split_ifs at hbody
  cases htime : env.host.blockContext with
  | none => simp [htime] at hbody
  | some time =>
      simp only [htime] at hbody
      exact ⟨delivered, d, time, hdeliver, rfl, hbody⟩

/-- Behind the guard the precompile only answers views. -/
theorem dispatch_guarded {fr : Frame} {w w' : World} {input : List UInt8} {gas : ℕ}
    {readOnly : Bool} {reply : Reply} (hguard : w.storage.guard = true)
    (h : dispatch fr w input gas readOnly = .ok (w', reply)) :
    w' = w ∧ selectorOf input ≠ selLock := by
  simp only [dispatch] at h
  split_ifs at h with hswap hpreimage
  · simp only [runGetSwap, bind_eq_ok, Except.ok.injEq, Prod.mk.injEq] at h
    obtain ⟨_, -, _, -, rfl, -⟩ := h
    refine ⟨rfl, ?_⟩
    rw [selectorOf, hswap]
    decide
  · simp only [runGetPreimage, bind_eq_ok, Except.ok.injEq, Prod.mk.injEq] at h
    obtain ⟨_, -, _, -, rfl, -⟩ := h
    refine ⟨rfl, ?_⟩
    rw [selectorOf, hpreimage]
    decide
  · simp [enterGuard, hguard] at h

/-- A balance change elsewhere. -/
theorem Spares.credit {w : World} (hb : w.bank.Bounded)
    (call : World → Request → Except Error (World × Reply)) (asset owner : Address)
    (amount : ℕ) : Spares w (interact call w (.credit asset owner amount)) := by
  simp only [interact]
  split_ifs with hfits
  · refine ⟨rfl, rfl, rfl, hb.set hfits, fun a => ?_⟩
    show _ ≤ Bank.set _ _ _ _ _ _
    rw [Bank.set_apply]
    split_ifs with hvault
    · rw [hvault.1, hvault.2]
      exact Nat.le_add_right _ _
    · exact le_rfl
  · exact Spares.refl hb

theorem Spares.debit {w : World} (hb : w.bank.Bounded)
    (call : World → Request → Except Error (World × Reply)) (asset owner : Address)
    (amount : ℕ) : Spares w (interact call w (.debit asset owner amount)) := by
  simp only [interact]
  split_ifs with howner
  · exact Spares.refl hb
  · have hlt := hb asset owner
    refine ⟨rfl, rfl, rfl, hb.set (by omega), fun a => ?_⟩
    show _ ≤ Bank.set _ _ _ _ _ _
    rw [Bank.set_apply, if_neg (fun hc => howner hc.2.symm)]

theorem interact_spares {hashes : Hashes} {env : Environment} {depth : ℕ} {w : World}
    (hb : w.bank.Bounded) (hguard : w.storage.guard = true) (i : Interaction) :
    Spares w (interact (call hashes env depth) w i) := by
  cases i with
  | enter r =>
      simp only [interact]
      cases hcall : call hashes env depth w r with
      | error e => exact Spares.refl hb
      | ok result =>
          obtain ⟨delivered, d, time, hdeliver, -, hdispatch⟩ := call_eq_ok hcall
          have hspares := deliverValue_spares hb hdeliver
          obtain ⟨hsame, -⟩ := dispatch_guarded (by rw [hspares.storage, hguard]) hdispatch
          simp only [hsame]
          exact hspares
  | credit asset owner amount => exact Spares.credit hb _ asset owner amount
  | debit asset owner amount => exact Spares.debit hb _ asset owner amount

/-- A frame whose token code is kept out by the guard. -/
def Frame.Guarded (fr : Frame) : Prop :=
  ∀ token w, w.bank.Bounded → w.storage.guard = true → Spares w (fr.callback token w)

theorem callback_spares {hashes : Hashes} {env : Environment} {depth : ℕ} (token : Address)
    {w : World} (hb : w.bank.Bounded) (hguard : w.storage.guard = true) :
    Spares w ((swapContract hashes).callback env depth token w) := by
  apply foldl_invariant (P := Spares w)
  · intro w1 i h1
    exact h1.trans (interact_spares h1.bounded (by rw [h1.storage, hguard]) i)
  · exact Spares.refl hb

/-! ## What the transfers do -/

theorem transferToken_spares {fr : Frame} (hfr : fr.Guarded) {w w' : World}
    (hb : w.bank.Bounded) (hguard : w.storage.guard = true)
    {token sender recipient : Address} {amount : ℕ}
    (hsender : sender = swapAddr → recipient = swapAddr)
    (h : transferToken fr w token sender recipient amount = some w') : Spares w w' := by
  simp only [transferToken] at h
  split_ifs at h
  have hbefore := hfr token w hb hguard
  cases htransfer : (fr.callback token w).bank.transfer token sender recipient amount with
  | none => simp [htransfer] at h
  | some bank =>
      simp only [htransfer, Option.some.injEq] at h
      have hmoved := Spares.transfer hbefore.bounded hsender htransfer
      have hafter := hfr token { fr.callback token w with bank := bank } hmoved.bounded
        (by rw [hmoved.storage, hbefore.storage, hguard])
      rw [← h]
      exact (hbefore.trans hmoved).trans hafter

/-- Taking value in: the native surplus, or an observed difference, is exactly the
amount. -/
theorem pullIn_ok {fr : Frame} (hfr : fr.Guarded) {w w' : World} (hb : w.bank.Bounded)
    (hguard : w.storage.guard = true) {asset : Address} {amount : ℕ}
    (h : pullIn fr w asset amount = .ok w') :
    Spares w w' ∧
      (asset = native → w' = w ∧
        w.bank native swapAddr = loadReserve w.storage native + amount) ∧
      (asset ≠ native → w'.bank asset swapAddr = w.bank asset swapAddr + amount) := by
  unfold pullIn at h
  split_ifs at h with hnative hvault
  · subst hnative
    simp only [bind_eq_ok, pullExactNative] at h
    obtain ⟨u, hpull, h⟩ := h
    split_ifs at hpull with hdelta
    simp only [Except.ok.injEq] at h
    subst h
    refine ⟨Spares.refl hb, fun _ => ⟨rfl, by omega⟩, fun hne => absurd rfl hne⟩
  · unfold pullExact at h
    cases htransfer : transferToken fr w asset fr.caller swapAddr amount with
    | none => simp [htransfer] at h
    | some w1 =>
        simp only [htransfer] at h
        split_ifs at h with hdelta
        simp only [Except.ok.injEq] at h
        subst h
        exact ⟨transferToken_spares hfr hb hguard (fun _ => rfl) htransfer,
          fun hc => absurd hc hnative, fun _ => by omega⟩

/-- Paying value out leaves everything but the balances alone, records the
payment and takes at most the amount from the vault. -/
structure Paid (w w' : World) (asset recipient : Address) (amount : ℕ) : Prop where
  storage : w'.storage = w.storage
  logs : w'.logs = w.logs
  payments : w'.payments = ⟨asset, recipient, amount⟩ :: w.payments
  bounded : w'.bank.Bounded
  vault : ∀ a, w.bank a swapAddr ≤
    w'.bank a swapAddr + if a = asset then amount else 0

theorem vault_le_move {b : Bank} (hb : b.Bounded) {asset recipient : Address} {amount : ℕ}
    (hle : amount ≤ b asset swapAddr) (a : Address) :
    b a swapAddr ≤ b.move asset swapAddr recipient amount a swapAddr +
      if a = asset then amount else 0 := by
  by_cases ha : a = asset
  · subst ha
    rw [Bank.move_sender hb hle, if_pos rfl]
    split_ifs
    · exact Nat.le_add_right _ _
    · omega
  · rw [Bank.move_of_ne _ _ (fun h => absurd h ha)]
    exact Nat.le_add_right _ _

theorem pushOut_ok {fr : Frame} (hfr : fr.Guarded) {w w' : World} (hb : w.bank.Bounded)
    (hguard : w.storage.guard = true) {asset recipient : Address} {amount : ℕ}
    (h : pushOut fr w asset recipient amount = .ok w') :
    Paid w w' asset recipient amount := by
  unfold pushOut at h
  cases htoken : transferToken fr w asset swapAddr recipient amount with
  | none => simp [htoken] at h
  | some w1 =>
      simp only [htoken, Except.ok.injEq] at h
      simp only [transferToken] at htoken
      split_ifs at htoken
      have hbefore := hfr asset w hb hguard
      cases htransfer : (fr.callback asset w).bank.transfer asset swapAddr recipient
          amount with
      | none => simp [htransfer] at htoken
      | some bank =>
          simp only [htransfer, Option.some.injEq] at htoken
          obtain ⟨hle, -, rfl⟩ := Bank.transfer_eq_some htransfer
          have hafter := hfr asset
            { fr.callback asset w with
              bank := (fr.callback asset w).bank.move asset swapAddr recipient amount }
            (hbefore.bounded.move _ _ _ _) (by rw [hbefore.storage, hguard])
          rw [htoken] at hafter
          subst h
          refine ⟨hafter.storage.trans hbefore.storage, hafter.logs.trans hbefore.logs,
            ?_, hafter.bounded, fun a => ?_⟩
          · show _ :: w1.payments = _
            rw [hafter.payments, hbefore.payments]
          · calc w.bank a swapAddr ≤ (fr.callback asset w).bank a swapAddr :=
                hbefore.vault a
              _ ≤ _ := vault_le_move hbefore.bounded hle a
              _ ≤ _ := Nat.add_le_add_right (hafter.vault a) _

theorem payOut_ok {fr : Frame} (hfr : fr.Guarded) {w w' : World} (hb : w.bank.Bounded)
    (hguard : w.storage.guard = true) {asset recipient : Address} {amount : ℕ}
    (h : payOut fr w asset recipient amount = .ok w') :
    Paid w w' asset recipient amount := by
  unfold payOut at h
  split_ifs at h with hnative hvault
  · subst hnative
    unfold pushOutNative at h
    split_ifs at h with hbig hshort
    simp only [Except.ok.injEq] at h
    subst h
    exact ⟨rfl, rfl, rfl, hb.move _ _ _ _, vault_le_move hb (not_lt.mp hshort)⟩
  · exact pushOut_ok hfr hb hguard h

/-! ## What a successful call did -/

/-- The world of a claim when it pays. -/
def claimedWorld (fr : Frame) (w : World) (id preimage : Word) : World :=
  let terms := (w.storage.swap id).terms
  let amount := loadAmount w.storage id
  World.emit
    { w with
      storage := storeClaim
        (storeReserve w.storage terms.asset (loadReserve w.storage terms.asset - amount))
        id preimage }
    fr (.claimed id terms.hashlock preimage terms.recipient amount)

/-- The world of a refund when it pays. -/
def refundedWorld (fr : Frame) (w : World) (id : Word) : World :=
  let terms := (w.storage.swap id).terms
  let amount := loadAmount w.storage id
  World.emit
    { w with
      storage := storeStatus
        (storeReserve w.storage terms.asset (loadReserve w.storage terms.asset - amount))
        id .refunded }
    fr (.refunded id terms.refund amount)

/-- The three transitions a call may ask for, with everything their checks
establish. -/
inductive Transition (fr : Frame) (input : List UInt8) (w : World) : World → Prop
  | lock {terms : Terms} {id : Word} {w1 : World}
      (hselector : selectorOf input = selLock)
      (hparse : parseTerms (input.drop 4) = .ok terms)
      (hterms : checkTerms terms fr.time = .ok ())
      (hid : id = computeSwapId fr.hashes terms fr.caller w.storage.nonce)
      (hnew : loadStatus w.storage id = .none)
      (hpull : pullIn fr w terms.asset (wordToUint terms.amount) = .ok w1) :
      Transition fr input w
        (World.emit { w1 with storage := storeLock w1.storage id terms w.storage.nonce }
          fr (.locked id terms))
  | claim {id preimage : Word} {w3 : World}
      (hselector : selectorOf input = selClaim)
      (hid : id = argWord (input.drop 4) 0)
      (hlocked : loadStatus w.storage id = .locked)
      (htime : fr.time < (w.storage.swap id).terms.timeout)
      (hpreimage : fr.hashes.sha256 (hashBytes preimage) =
        (w.storage.swap id).terms.hashlock)
      (hreserve : loadAmount w.storage id ≤
        loadReserve w.storage (w.storage.swap id).terms.asset)
      (hpay : payOut fr (claimedWorld fr w id preimage) (w.storage.swap id).terms.asset
        (w.storage.swap id).terms.recipient (loadAmount w.storage id) = .ok w3) :
      Transition fr input w w3
  | refund {id : Word} {w3 : World}
      (hselector : selectorOf input = selRefund)
      (hid : id = argWord (input.drop 4) 0)
      (hlocked : loadStatus w.storage id = .locked)
      (htime : (w.storage.swap id).terms.timeout ≤ fr.time)
      (hreserve : loadAmount w.storage id ≤
        loadReserve w.storage (w.storage.swap id).terms.asset)
      (hpay : payOut fr (refundedWorld fr w id) (w.storage.swap id).terms.asset
        (w.storage.swap id).terms.refund (loadAmount w.storage id) = .ok w3) :
      Transition fr input w w3

theorem subReserve_eq_some {db db' : Storage} {asset : Address} {amount : ℕ} :
    subReserve db asset amount = some db' ↔
      amount ≤ loadReserve db asset ∧
        db' = storeReserve db asset (loadReserve db asset - amount) := by
  unfold subReserve
  rw [Option.map_eq_some_iff]
  constructor
  · rintro ⟨reserve, hsub, rfl⟩
    obtain ⟨hle, rfl⟩ := Reserves.sub_eq_some.mp hsub
    exact ⟨hle, rfl⟩
  · rintro ⟨hle, rfl⟩
    exact ⟨_, Reserves.sub_eq_some.mpr ⟨hle, rfl⟩, rfl⟩

theorem runLock_ok {fr : Frame} {w w' : World} {input : List UInt8} {gas : ℕ}
    {reply : Reply} (hselector : selectorOf input = selLock)
    (h : runLock fr w (input.drop 4) gas = .ok (w', reply)) :
    Transition fr input w w' := by
  simp only [runLock, bind_eq_ok] at h
  obtain ⟨gas', -, _, -, terms, hparse, _, hterms, h⟩ := h
  split_ifs at h with hstatus
  simp only [bind_eq_ok, Except.ok.injEq, Prod.mk.injEq] at h
  obtain ⟨w1, hpull, rfl, -⟩ := h
  exact .lock hselector hparse hterms rfl (not_not.mp hstatus) hpull

theorem runClaim_ok {fr : Frame} {w w' : World} {input : List UInt8} {gas : ℕ}
    {reply : Reply} (hselector : selectorOf input = selClaim)
    (h : runClaim fr w (input.drop 4) gas = .ok (w', reply)) :
    Transition fr input w w' := by
  simp only [runClaim, bind_eq_ok] at h
  obtain ⟨gas', -, _, -, h⟩ := h
  split_ifs at h with hstatus htime hpreimage
  cases hsub : subReserve w.storage
      (w.storage.swap (argWord (input.drop 4) 0)).terms.asset
      (loadAmount w.storage (argWord (input.drop 4) 0)) with
  | none => simp [hsub] at h
  | some db =>
      obtain ⟨hreserve, rfl⟩ := subReserve_eq_some.mp hsub
      simp only [hsub, bind_eq_ok, Except.ok.injEq, Prod.mk.injEq] at h
      obtain ⟨w3, hpay, rfl, -⟩ := h
      exact .claim hselector rfl (not_not.mp hstatus) (UInt64.not_le.mp htime)
        (by simpa [preimageMatches] using hpreimage) hreserve hpay

theorem runRefund_ok {fr : Frame} {w w' : World} {input : List UInt8} {gas : ℕ}
    {reply : Reply} (hselector : selectorOf input = selRefund)
    (h : runRefund fr w (input.drop 4) gas = .ok (w', reply)) :
    Transition fr input w w' := by
  simp only [runRefund, bind_eq_ok] at h
  obtain ⟨gas', -, _, -, h⟩ := h
  split_ifs at h with hstatus htime
  cases hsub : subReserve w.storage
      (w.storage.swap (argWord (input.drop 4) 0)).terms.asset
      (loadAmount w.storage (argWord (input.drop 4) 0)) with
  | none => simp [hsub] at h
  | some db =>
      obtain ⟨hreserve, rfl⟩ := subReserve_eq_some.mp hsub
      simp only [hsub, bind_eq_ok, Except.ok.injEq, Prod.mk.injEq] at h
      obtain ⟨w3, hpay, rfl, -⟩ := h
      exact .refund hselector rfl (not_not.mp hstatus) (UInt64.not_lt.mp htime) hreserve hpay

/-- The world behind the guard. -/
def World.enter (w : World) : World :=
  { w with storage := { w.storage with guard := true } }

theorem enterGuard_eq_some {db db' : Storage} (h : enterGuard db = some db') :
    db' = { db with guard := true } := by
  unfold enterGuard at h
  split_ifs at h
  simpa using h.symm

/-- A successful call is a view, which changes nothing, or one of the three
transitions between entering and leaving the guard. -/
theorem dispatch_cases {fr : Frame} {w w' : World} {input : List UInt8} {gas : ℕ}
    {readOnly : Bool} {reply : Reply}
    (h : dispatch fr w input gas readOnly = .ok (w', reply)) :
    w' = w ∧ selectorOf input ≠ selLock ∨
    ∃ w1, Transition fr input w.enter w1 ∧
      w' = { w1 with storage := exitGuard w1.storage } := by
  simp only [dispatch] at h
  split_ifs at h with hswap hpreimage hselector
  · left
    simp only [runGetSwap, bind_eq_ok, Except.ok.injEq, Prod.mk.injEq] at h
    obtain ⟨_, -, _, -, rfl, -⟩ := h
    refine ⟨rfl, ?_⟩
    rw [selectorOf, hswap]
    decide
  · left
    simp only [runGetPreimage, bind_eq_ok, Except.ok.injEq, Prod.mk.injEq] at h
    obtain ⟨_, -, _, -, rfl, -⟩ := h
    refine ⟨rfl, ?_⟩
    rw [selectorOf, hpreimage]
    decide
  · right
    cases hguard : enterGuard w.storage with
    | none => simp [hguard] at h
    | some db =>
        simp only [hguard, bind_eq_ok] at h
        obtain ⟨⟨w1, reply1⟩, hrun, h⟩ := h
        simp only [Except.ok.injEq, Prod.mk.injEq] at h
        obtain ⟨rfl, -⟩ := h
        refine ⟨w1, ?_, rfl⟩
        rw [World.enter, ← enterGuard_eq_some hguard]
        unfold runTransition at hrun
        split_ifs at hrun with hlock hclaim
        · exact runLock_ok hlock hrun
        · exact runClaim_ok hclaim hrun
        · have hrefund : selectorOf input = selRefund := by
            simpa [selectorOf, hlock, hclaim] using hselector
          exact runRefund_ok hrefund hrun

theorem frameOf_guarded (hashes : Hashes) (env : Environment) (depth : ℕ) (time : UInt64)
    (caller : Address) : (frameOf hashes env depth time caller).Guarded :=
  fun _ _ hb hguard => callback_spares _ hb hguard

/-- A transition that ran after its value was delivered, behind the guard. -/
structure Ran (hashes : Hashes) (env : Environment) (w : World) (r : Request)
    (w' : World) where
  depth : ℕ
  time : UInt64
  entered : World
  left : World
  block : env.host.blockContext = some time
  delivered : deliverValue w r.caller r.value = some entered
  transition : Transition (frameOf hashes env depth time r.caller) r.input entered.enter left
  final : w' = { left with storage := exitGuard left.storage }

/-- A successful call is a view that only received its value, or ran a transition. -/
theorem call_cases {hashes : Hashes} {env : Environment} {depth : ℕ} {w w' : World}
    {r : Request} {reply : Reply} (h : call hashes env depth w r = .ok (w', reply)) :
    deliverValue w r.caller r.value = some w' ∧ selectorOf r.input ≠ selLock ∨
      Nonempty (Ran hashes env w r w') := by
  obtain ⟨w1, d, time, hdeliver, htime, hdispatch⟩ := call_eq_ok h
  obtain ⟨rfl, hview⟩ | ⟨w2, htransition, hfinal⟩ := dispatch_cases hdispatch
  · exact Or.inl ⟨hdeliver, hview⟩
  · exact Or.inr ⟨⟨d, time, w1, w2, htime, hdeliver, htransition, hfinal⟩⟩

/-- One action of a run spares the precompile or is a call that ran a transition. -/
theorem exec_cases (hashes : Hashes) {w : World} (hb : w.bank.Bounded) (a : Action) :
    Spares w (exec hashes w a) ∨
    ∃ r, a.interaction = .enter r ∧ Nonempty (Ran hashes a.env w r (exec hashes w a)) := by
  rw [exec_eq]
  cases hi : a.interaction with
  | credit asset owner amount => exact Or.inl (Spares.credit hb _ asset owner amount)
  | debit asset owner amount => exact Or.inl (Spares.debit hb _ asset owner amount)
  | enter r =>
      simp only [interact]
      cases hcall : call hashes a.env a.depth w r with
      | error e => exact Or.inl (Spares.refl hb)
      | ok result =>
          obtain ⟨hview, -⟩ | hran := call_cases hcall
          · exact Or.inl (deliverValue_spares hb hview)
          · exact Or.inr ⟨r, rfl, hran⟩

/-! ## A sample swap -/

/-- A host at a block time whose tokens never call back. -/
def envAt (time : UInt64) : Environment :=
  ⟨⟨true, some time, fun _ _ => true⟩, fun _ _ _ => []⟩

/-- A call at a block time. -/
def callAt (time : UInt64) (caller : Address) (value selector : ℕ) (args : List Word) :
    Action where
  env := envAt time
  depth := 1024
  interaction := .enter ⟨caller, value, calldata selector args, 1000000, false⟩

/-- Five native coins for the preimage of one. -/
def sampleTerms : Terms where
  hashlock := 0xec4916dd28fc4c10d78e287ca5d9cc51ee1ae73cbfde08c6b37324cbfaac8bc5
  recipient := 0xB0B
  refund := 0xA11CE
  asset := native
  amount := 5
  timeout := 2000

/-- The id of the sample swap as the first lock. -/
def sampleId : Word := 0x57c860d0f4ae979567d2a43deb6479c4aec7d1e4d5de7c959b8d34083d8af42a

/-- The two hash functions where the sample swap needs them. -/
def sampleHashes : Hashes where
  keccak256 bs := if bs = swapIdBytes sampleTerms 0xA11CE 0 then sampleId else 0
  sha256 bs := if bs = hashBytes 1 then sampleTerms.hashlock else 0

/-- The argument words of a lock. -/
def lockArgs (t : Terms) : List Word :=
  [t.hashlock, addressWord t.recipient, addressWord t.refund, addressWord t.asset, t.amount,
    uintWord t.timeout.toNat]

/-- The lock of the sample swap. -/
def sampleLock : Action := callAt 1000 0xA11CE 5 selLock (lockArgs sampleTerms)

/-- A world before the first call: every account but the vault owns some of
everything. -/
def fundedWorld : World where
  storage := Storage.empty
  bank _ owner := if owner = swapAddr then 0 else 2 ^ 200
  logs := []
  payments := []

theorem fundedWorld_genesis : Genesis fundedWorld := by
  refine ⟨rfl, fun asset owner => ?_, rfl, rfl⟩
  show (if owner = swapAddr then 0 else 2 ^ 200) < 2 ^ 256
  split_ifs <;> norm_num

end LuxPrecompile.Htlc
