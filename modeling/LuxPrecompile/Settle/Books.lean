import LuxPrecompile.Settle.Effects

/-!
# The books of the settlement precompile

The ledgers, the claim sets and the staging area are the books of the account.  Every
action of a run writes them by five kinds of steps: a crossing to the D-Chain, a crossing
back, a deposit, a withdrawal and a seed.  Between them the books stay as they are, no
crossing is declared and no value is entered in the history.
-/

namespace LuxPrecompile.Settle

open Dex Evm Support

/-! ## Steps -/

/-- A word of the books. -/
def Slot.IsBook : Slot → Prop
  | .settleVault _ | .depositorClaim _ _ | .custody _ => True
  | .claimWritten _ | .claimConsumed _ => True
  | .stageSeq | .stageKind _ | .stageRecord _ _ _ => True
  | _ => False

theorem Slot.IsBook.not_position {slot : Slot} (h : slot.IsBook) : ¬ slot.IsPosition := by
  intro hposition
  cases slot <;> first | exact hposition | exact h

theorem Slot.IsBook.not_market {slot : Slot} (h : slot.IsBook) : ¬ slot.IsMarket := by
  intro hmarket
  cases slot <;> first | exact hmarket | exact h

theorem Slot.IsBook.not_halt {slot : Slot} (h : slot.IsBook) : ¬ slot.IsHalt := by
  intro hhalt
  cases slot <;> first | exact hhalt | exact h

/-- A log of the account that declares a crossing. -/
def Log.IsCrossing (l : Log) : Prop :=
  l.address = vaultAddr ∧
    (l.topics.head? = some claimExportedSig ∨ l.topics.head? = some settleImportEventSig)

/-- An entry about value of the rail. -/
def Entry.IsFlow : Entry → Prop
  | .seeded _ _ | .exported _ _ _ | .imported _ _ => True
  | _ => False

/-- A change that leaves the books alone. -/
structure Quiet (w w' : World) : Prop where
  storage : ∀ slot : Slot, slot.IsBook → w'.storage slot = w.storage slot
  logs : ∃ added : List Log, (∀ l ∈ added, ¬ l.IsCrossing) ∧ w'.logs = added ++ w.logs
  journal : ∃ added : List Entry, (∀ e ∈ added, ¬ e.IsFlow) ∧
    w'.journal = added ++ w.journal

/-- One change of the books; `blocks` are the blocks a crossing may be marked with. -/
inductive BookStep (hashes : Hashes) (blocks : Set UInt64) : World → World → Prop
  | quiet {w w' : World} (h : Quiet w w') : BookStep hashes blocks w w'
  | exported {w : World} {fr : Frame} {atomic : Atomic} {claimID : Word} {t : Transfer}
      (hhashes : fr.hashes = hashes)
      (hblock : fr.blockNumber ∈ blocks)
      (hamount : t.amount ≠ 0)
      (hunwritten : w.storage (.claimWritten claimID) = 0)
      (hroom : loadCustody w.storage t.asset + t.amount.toNat < 2 ^ 256) :
      BookStep hashes blocks w (exportedWorld fr atomic claimID t w)
  | imported {w : World} {fr : Frame} {atomic : Atomic} {claim : Claim} {body : ClaimBody}
      (hhashes : fr.hashes = hashes)
      (hblock : fr.blockNumber ∈ blocks)
      (hdecode : decodeClaim claim.object = some body)
      (hamount : body.amount ≠ 0)
      (hunconsumed : w.storage (.claimConsumed claim.id) = 0)
      (hbacked : body.amount.toNat ≤ loadCustody w.storage body.asset) :
      BookStep hashes blocks w (importedWorld fr atomic claim body w)
  | deposited {w : World} {st : Storage} {account : Address} {asset : Word} {amount : ℕ}
      (hrecord : recordDeposit w.storage account asset amount = .ok st) :
      BookStep hashes blocks w (w.withStorage st)
  | withdrawn {w : World} {st st' : Storage} {account : Address} {asset : Word} {amount : ℕ}
      (hclaimed : amount ≤ loadDepositorClaim w.storage account asset)
      (hheld : amount ≤ loadSettleVault w.storage asset)
      (hclaim : storeDepositorClaim w.storage account asset
        (loadDepositorClaim w.storage account asset - amount) = .ok st)
      (hvault : storeSettleVault st asset (loadSettleVault w.storage asset - amount) =
        .ok st') :
      BookStep hashes blocks w (w.withStorage st')
  | seeded {w : World} {asset : Word} {amount : ℕ}
      (hroom : loadCustody w.storage asset + amount < 2 ^ 256) :
      BookStep hashes blocks w (seededWorld asset amount w)

/-- Any number of such changes. -/
def Books (hashes : Hashes) (blocks : Set UInt64) : World → World → Prop :=
  Relation.ReflTransGen (BookStep hashes blocks)

variable {hashes : Hashes} {blocks : Set UInt64} {host : Host} {w w' w'' : World}

theorem Books.trans (h : Books hashes blocks w w') (h' : Books hashes blocks w' w'') :
    Books hashes blocks w w'' :=
  Relation.ReflTransGen.trans h h'

theorem BookStep.books (h : BookStep hashes blocks w w') : Books hashes blocks w w' :=
  Relation.ReflTransGen.single h

theorem Quiet.books (h : Quiet w w') : Books hashes blocks w w' := BookStep.books (.quiet h)

/-! ## Quiet changes -/

theorem Quiet.trans (h : Quiet w w') (h' : Quiet w' w'') : Quiet w w'' := by
  obtain ⟨logs, hlogs, hlogsEq⟩ := h.logs
  obtain ⟨logs', hlogs', hlogsEq'⟩ := h'.logs
  obtain ⟨entries, hentries, hentriesEq⟩ := h.journal
  obtain ⟨entries', hentries', hentriesEq'⟩ := h'.journal
  refine ⟨fun slot hslot => ?_, ⟨logs' ++ logs, fun l hl => ?_, ?_⟩,
    ⟨entries' ++ entries, fun e he => ?_, ?_⟩⟩
  · rw [h'.storage slot hslot, h.storage slot hslot]
  · exact (List.mem_append.mp hl).elim (hlogs' l) (hlogs l)
  · rw [hlogsEq', hlogsEq, List.append_assoc]
  · exact (List.mem_append.mp he).elim (hentries' e) (hentries e)
  · rw [hentriesEq', hentriesEq, List.append_assoc]

theorem Quiet.of_same (hstorage : ∀ slot : Slot, slot.IsBook → w'.storage slot = w.storage slot)
    (hlogs : w'.logs = w.logs) (hjournal : w'.journal = w.journal) : Quiet w w' :=
  ⟨hstorage, ⟨[], by simp, by rw [hlogs, List.nil_append]⟩,
    ⟨[], by simp, by rw [hjournal, List.nil_append]⟩⟩

theorem Quiet.emit (w : World) {topics : List Word} {data : List UInt8}
    (h : topics.head? ≠ some claimExportedSig) (h' : topics.head? ≠ some settleImportEventSig) :
    Quiet w (w.emit topics data) := by
  refine ⟨fun _ _ => rfl, ⟨[⟨vaultAddr, topics, data⟩], fun l hl => ?_, rfl⟩, [], by simp, rfl⟩
  rw [List.mem_singleton.mp hl]
  rintro ⟨-, hexport | himport⟩
  · exact h hexport
  · exact h' himport

theorem Quiet.record (w : World) {e : Entry} (h : ¬ e.IsFlow) : Quiet w (w.record e) := by
  refine ⟨fun _ _ => rfl, ⟨[], by simp, rfl⟩, [e], fun e' he => ?_, rfl⟩
  rwa [List.mem_singleton.mp he]

theorem AdminStep.quiet (h : AdminStep hashes host w w') : Quiet w w' := by
  have hstorage : ∀ slot : Slot, slot.IsBook → w'.storage slot = w.storage slot :=
    fun slot hslot => h.storage hslot.not_market hslot.not_halt
  cases h with
  | @register st key price tick creator _ _ _ _ =>
      have hbooks : Quiet w (w.withStorage st) := .of_same hstorage rfl rfl
      refine (hbooks.trans (.emit _ ?_ ?_)).trans (.record _ fun hc => hc)
      · simp [initializeEventSig, claimExportedSig]
      · simp [initializeEventSig, settleImportEventSig]
  | halt _ _ =>
      have hbooks : Quiet w (w.withStorage (setHalt w.storage _ _)) :=
        .of_same hstorage rfl rfl
      exact hbooks.trans (.record _ fun hc => hc)

theorem Outside.quiet (h : Outside hashes host w w') : Quiet w w' := by
  induction h with
  | refl => exact .of_same (fun _ _ => rfl) rfl rfl
  | @tail w1 _ _ hstep ih =>
      apply ih.trans
      cases hstep with
      | bank b _ _ => exact .of_same (fun _ _ => rfl) rfl rfl
      | log l haddress =>
          refine ⟨fun _ _ => rfl, ⟨[l], fun l' hl => ?_, rfl⟩, [], by simp, rfl⟩
          rw [List.mem_singleton.mp hl]
          exact fun hc => haddress hc.1
      | admin hadmin => exact hadmin.quiet

theorem moveNative_quiet {sender recipient : Address} {amount : ℕ} {short : Error}
    (h : moveNative w sender recipient amount short = .ok w') : Quiet w w' := by
  obtain ⟨-, -, rfl⟩ := moveNative_ok h
  exact .of_same (fun _ _ => rfl) rfl rfl

theorem custodyGuard_not_book : ¬ Slot.custodyGuard.IsBook := fun hc => hc

theorem enter_quiet (w : World) : Quiet w w.enter :=
  .of_same (fun _ hslot => Storage.set_of_ne (Slot.ne_of hslot custodyGuard_not_book) _ _) rfl rfl

theorem leave_quiet (w : World) : Quiet w w.leave :=
  .of_same (fun _ hslot => Storage.set_of_ne (Slot.ne_of hslot custodyGuard_not_book) _ _) rfl rfl

theorem seededWorld_of_ne (asset : Word) (amount : ℕ) (w : World) {slot : Slot}
    (h : slot ≠ .custody asset) : (seededWorld asset amount w).storage slot = w.storage slot :=
  Storage.set_of_ne h _ _

/-! ## Handlers -/

section Handlers

variable {fr : Frame}

theorem Exported.books (hfr : fr.Guarded) (hblock : fr.blockNumber ∈ blocks)
    (hb : w.bank.Bounded) (hguard : w.storage .custodyGuard ≠ 0) {atomic : Atomic}
    {claimID : Word} {t : Transfer} (h : Exported fr atomic claimID t w w') :
    Books fr.hashes blocks w w' := by
  have hstep : BookStep fr.hashes blocks w (exportedWorld fr atomic claimID t w) :=
    .exported rfl hblock h.amount h.unwritten h.room
  obtain ⟨-, hmove⟩ | ⟨-, hout⟩ := h.cases hfr hb hguard
  · exact hstep.books.trans (moveNative_quiet hmove).books
  · exact hstep.books.trans hout.quiet.books

theorem Imported.books (hfr : fr.Guarded) (hblock : fr.blockNumber ∈ blocks)
    (hb : w.bank.Bounded) (hguard : w.storage .custodyGuard ≠ 0) {atomic : Atomic}
    {claim : Claim} {body : ClaimBody} (h : Imported fr atomic claim body w w') :
    Books fr.hashes blocks w w' := by
  have hstep : BookStep fr.hashes blocks w (importedWorld fr atomic claim body w) :=
    .imported rfl hblock h.decode h.amount h.unconsumed h.backed
  obtain ⟨-, hmove⟩ | ⟨-, hout⟩ := h.cases hfr hb hguard
  · exact hstep.books.trans (moveNative_quiet hmove).books
  · exact hstep.books.trans hout.quiet.books

theorem Committed.quiet {atomic : Atomic} {key : PoolKey} {params : ModifyLiquidityParams}
    {side : MakerSide} {lockedAsset orderID claimID : Word} {st : Storage} {w1 : World}
    (h : Committed fr atomic key params side lockedAsset orderID claimID st w w1 w') :
    Quiet w1 w' := by
  have hstorage : ∀ slot : Slot, slot.IsBook → w'.storage slot = w1.storage slot :=
    fun slot hslot => h.frame hslot.not_position
  rw [h.final] at hstorage ⊢
  have hbooks : Quiet w1 (w1.withStorage _) := .of_same hstorage rfl rfl
  exact hbooks.trans (.record _ fun hc => hc)

theorem Requested.quiet {orderID : Word} {st : Storage} (h : Requested fr orderID st w w') :
    Quiet w w' := by
  have hstorage : ∀ slot : Slot, slot.IsBook → w'.storage slot = w.storage slot :=
    fun slot hslot => h.frame hslot.not_position
  rw [h.final] at hstorage ⊢
  have hbooks : Quiet w (w.withStorage st) := .of_same hstorage rfl rfl
  refine (hbooks.trans (.emit _ ?_ ?_)).trans (.record _ fun hc => hc)
  · simp [positionClosingSig, claimExportedSig]
  · simp [positionClosingSig, settleImportEventSig]

/-- What a handler does behind the guard, as changes of the books. -/
theorem Operation.books {selector : ℕ} {data : List UInt8} (hfr : fr.Guarded)
    (hblock : fr.blockNumber ∈ blocks) (hb : w.bank.Bounded)
    (h : Operation fr selector data w w') : Books fr.hashes blocks w w' := by
  have hguard := enter_guard w
  have hb0 : w.enter.bank.Bounded := hb
  have henter : Books fr.hashes blocks w w.enter := (enter_quiet w).books
  cases h with
  | exportSwap _ _ _ _ _ _ hexport =>
      exact henter.trans ((exportClaim_ok hexport).books hfr hblock hb0 hguard)
  | @importSwap _ _ _ _ _ poolID _ _ st w1 _ _ _ _ _ _ himport hvolume =>
      obtain ⟨body, -, himported⟩ := importClaim_ok himport
      have hcounted : Quiet w1 (w1.withStorage st) := by
        refine .of_same (fun slot hslot => ?_) rfl rfl
        have hother : ∀ shard, ¬ (Slot.volBucket poolID shard).IsBook := fun shard hc => hc
        exact accrueVolume_of_ne hvolume fun shard => Slot.ne_of hslot (hother shard)
      refine (henter.trans (himported.books hfr hblock hb0 hguard)).trans
        (hcounted.trans (.emit _ ?_ ?_)).books
      · simp [dexFillEventSig, claimExportedSig]
      · simp [dexFillEventSig, settleImportEventSig]
  | commit _ _ _ _ _ _ hcommit =>
      obtain ⟨claimID, st, w1, hcommitted⟩ := commitPosition_ok hcommit
      exact (henter.trans (hcommitted.exported.books hfr hblock hb0 hguard)).trans
        hcommitted.quiet.books
  | request _ _ _ _ _ hrequest =>
      obtain ⟨st, hrequested⟩ := requestPositionWithdraw_ok hrequest
      exact henter.trans hrequested.quiet.books
  | @collect _ _ st w1 _ _ _ himport hrecord =>
      obtain ⟨body, -, himported⟩ := importClaim_ok himport
      have hcollected : Quiet w1 (w1.withStorage st) :=
        .of_same (fun slot hslot => collectPositionRecord_frame hrecord hslot.not_position)
          rfl rfl
      refine (henter.trans (himported.books hfr hblock hb0 hguard)).trans (Quiet.books ?_)
      exact hcollected.trans (.record _ fun hc => hc)
  | depositNative _ _ _ _ hrecord => exact henter.trans (BookStep.books (.deposited hrecord))
  | @depositToken st _ _ _ _ hrecord hpull =>
      have hb1 : (w.enter.withStorage st).bank.Bounded := hb0
      have hst : (w.enter.withStorage st).storage .custodyGuard ≠ 0 := by
        rwa [World.withStorage_storage, recordDeposit_of_ne hrecord (by simp) (by simp)]
      exact (henter.trans (BookStep.books (.deposited hrecord))).trans
        (pullERC20Terminal_outside hfr hb1 hst hpull).quiet.books
  | withdrawNothing _ => exact henter
  | @withdraw realized st st' _ _ hrealized _ hclaim hvault hpay =>
      have hb1 : (w.enter.withStorage st').bank.Bounded := hb0
      have hst : (w.enter.withStorage st').storage .custodyGuard ≠ 0 := by
        rwa [World.withStorage_storage, storeAmount_of_ne hvault (by simp),
          storeAmount_of_ne hclaim (by simp)]
      have hstep : BookStep fr.hashes blocks w.enter (w.enter.withStorage st') := by
        refine .withdrawn ?_ ?_ hclaim hvault
        · rw [hrealized]
          exact le_trans (min_le_left _ _) (min_le_right _ _)
        · rw [hrealized]
          exact min_le_right _ _
      refine (henter.trans hstep.books).trans (Quiet.books ?_)
      obtain ⟨-, hmove⟩ | ⟨-, hpush⟩ := payWithdrawal_ok hpay
      · exact moveNative_quiet hmove
      · exact (transferToken_outside hfr hb1 hst hpush).quiet
  | @seed token amount _ _ _ _ hreceive =>
      obtain ⟨-, -, -, hroom, rfl⟩ | ⟨-, -, hroom, hpull⟩ := receiveOperatorValue_ok hreceive
      · exact henter.trans (BookStep.books (.seeded hroom))
      · have hb1 : (seededWorld (assetID token) amount w.enter).bank.Bounded := hb0
        have hout := pullERC20Terminal_outside hfr hb1 (by rwa [seededWorld_guard]) hpull
        exact (henter.trans (BookStep.books (.seeded hroom))).trans hout.quiet.books

end Handlers

/-! ## Runs -/

/-- The action runs in one of the blocks, if it runs in a block at all. -/
def Action.RunsIn (blocks : Set UInt64) (a : Action) : Prop :=
  ∀ b, a.env.host.blockContext = some b → b ∈ blocks

/-- One action of a run, as changes of the books. -/
theorem exec_books (hashes : Hashes) (hb : w.bank.Bounded) {a : Action}
    (ha : a.RunsIn blocks) : Books hashes blocks w (exec hashes w a) := by
  have hout : ∀ {w'}, Outside hashes a.env.host w w' → Books hashes blocks w w' :=
    fun h => h.quiet.books
  rw [exec_eq]
  cases a.interaction with
  | credit asset owner amount => exact hout (credit_outside hb _ asset owner amount)
  | debit asset owner amount => exact hout (debit_outside hb _ asset owner amount)
  | log l => exact hout (log_outside _ l)
  | enter r =>
      simp only [interact, call_eq_deliver]
      cases hdeliver : deliverValue w r.caller r.value with
      | none => exact hout (.refl w)
      | some w1 =>
          have hdelivered : Outside hashes a.env.host w w1 := deliverValue_outside hb hdeliver
          simp only
          cases hrun : run hashes a.env a.depth w1 r with
          | error e => exact hout (.refl w)
          | ok result =>
              obtain ⟨d, b, hcontext, hdispatch⟩ := run_cases hrun
              refine (hout hdelivered).trans ?_
              obtain hview | hadmin | ⟨-, w2, hoperation, hfinal⟩ := dispatch_cases hdispatch
              · show Books hashes blocks w1 result.1
                rw [hview]
                exact Relation.ReflTransGen.refl
              · exact (AdminStep.quiet hadmin).books
              · have hbooks := hoperation.books (frameOf_guarded hashes a.env d b r)
                  (ha b hcontext) (hdelivered.bounded hb)
                show Books hashes blocks w1 result.1
                rw [hfinal]
                exact hbooks.trans (leave_quiet w2).books

theorem runFrom_books (hashes : Hashes) (hb : w.bank.Bounded) {actions : List Action}
    (hactions : ∀ a ∈ actions, a.RunsIn blocks) :
    Books hashes blocks w (runFrom hashes w actions) ∧ (runFrom hashes w actions).bank.Bounded := by
  induction actions generalizing w with
  | nil => exact ⟨Relation.ReflTransGen.refl, hb⟩
  | cons a actions ih =>
      rw [runFrom_cons]
      have hstep := exec_books hashes hb (hactions a List.mem_cons_self)
      obtain ⟨hbooks, hbounded⟩ := ih (exec_trace hashes hb a).2
        fun a' ha' => hactions a' (List.mem_cons_of_mem a ha')
      exact ⟨hstep.trans hbooks, hbounded⟩

end LuxPrecompile.Settle
