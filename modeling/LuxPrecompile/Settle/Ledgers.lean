import LuxPrecompile.Settle.Books
import LuxPrecompile.Settle.Surplus
import LuxPrecompile.Support.Sums

/-!
# The ledgers of the vault

Two ledgers share the vault's balance of an asset.  The deposit ledger is the total of what
the depositors may claim; custody is what was seeded and exported less what was imported.
Whatever is called in whatever order, both are kept, and as long as a token does not take
from the vault by itself its balance there covers the two together.  So a withdrawal never
spends custody and an import never spends a deposit.
-/

namespace LuxPrecompile.Settle

open Dex Evm Support

/-! ## What the ledgers record -/

/-- What an entry adds to the custody of an asset. -/
def Entry.flow (asset : Word) : Entry → ℤ
  | .seeded a amount => if a = asset then (amount : ℤ) else 0
  | .exported _ _ body => if body.asset = asset then (body.amount.toNat : ℤ) else 0
  | .imported _ body => if body.asset = asset then -(body.amount.toNat : ℤ) else 0
  | _ => 0

/-- Custody of an asset as the history has it: seeded and exported less imported. -/
def custodyFlow (asset : Word) (journal : List Entry) : ℤ :=
  (journal.map (Entry.flow asset)).sum

theorem custodyFlow_cons (asset : Word) (e : Entry) (journal : List Entry) :
    custodyFlow asset (e :: journal) = e.flow asset + custodyFlow asset journal :=
  List.sum_cons

theorem custodyFlow_of_not_flow (asset : Word) {entries : List Entry}
    (h : ∀ e ∈ entries, ¬ e.IsFlow) (journal : List Entry) :
    custodyFlow asset (entries ++ journal) = custodyFlow asset journal := by
  induction entries with
  | nil => rfl
  | cons e entries ih =>
      have hzero : e.flow asset = 0 := by
        have hflow := h e List.mem_cons_self
        cases e <;> first | rfl | exact absurd trivial hflow
      rw [List.cons_append, custodyFlow_cons, hzero, zero_add]
      exact ih fun e' he' => h e' (List.mem_cons_of_mem e he')

/-- What all accounts may claim of an asset. -/
def totalClaims (st : Storage) (asset : Word) : ℕ :=
  ∑ account : Address, loadDepositorClaim st account asset

/-- The deposit ledger is the total of the claims, and custody is what the history has. -/
structure LedgersKept (w : World) : Prop where
  claims : ∀ asset, loadSettleVault w.storage asset = totalClaims w.storage asset
  custody : ∀ asset, (loadCustody w.storage asset : ℤ) = custodyFlow asset w.journal

variable {hashes : Hashes} {blocks : Set UInt64} {w w' : World}

theorem LedgersKept.of_genesis (h : Genesis w) : LedgersKept w := by
  constructor
  · intro asset
    rw [totalClaims, h.storage_empty]
    exact (Finset.sum_eq_zero fun account _ => rfl).symm
  · intro asset
    rw [h.storage_empty, h.journal_nil]
    rfl

theorem loadAmount_congr {st st' : Storage} {slot : Slot} (h : st' slot = st slot) :
    loadAmount st' slot = loadAmount st slot :=
  congrArg wordToUint h

/-! ## One change of the books -/

theorem claims_congr {st st' : Storage} {asset : Word}
    (hvault : st' (.settleVault asset) = st (.settleVault asset))
    (hclaims : ∀ account, st' (.depositorClaim account asset) = st (.depositorClaim account asset))
    (h : loadSettleVault st asset = totalClaims st asset) :
    loadSettleVault st' asset = totalClaims st' asset := by
  have htotal : totalClaims st' asset = totalClaims st asset :=
    Finset.sum_congr rfl fun account _ => loadAmount_congr (hclaims account)
  rw [htotal, ← h]
  exact loadAmount_congr hvault

/-- The ledger and the claim of one account move together. -/
theorem claims_move {st st' : Storage} (account : Address) {asset : Word}
    (h : loadSettleVault st asset = totalClaims st asset)
    (hother : ∀ account', account' ≠ account →
      st' (.depositorClaim account' asset) = st (.depositorClaim account' asset))
    (hmove : loadSettleVault st' asset + loadDepositorClaim st account asset =
      loadSettleVault st asset + loadDepositorClaim st' account asset) :
    loadSettleVault st' asset = totalClaims st' asset := by
  have hsum := sum_add_of_eq_off (f := fun account => loadDepositorClaim st account asset)
    (g := fun account => loadDepositorClaim st' account asset) account
    fun account' hne => loadAmount_congr (hother account' hne)
  change totalClaims st' asset + loadDepositorClaim st account asset =
    totalClaims st asset + loadDepositorClaim st' account asset at hsum
  omega

/-- A change of custody, with the entry that says so. -/
theorem LedgersKept.custody_set (h : LedgersKept w) (asset : Word) {n : ℕ} {e : Entry}
    (hn : n < 2 ^ 256)
    (hvault : ∀ a, w'.storage (.settleVault a) = w.storage (.settleVault a))
    (hclaim : ∀ account a,
      w'.storage (.depositorClaim account a) = w.storage (.depositorClaim account a))
    (hcustody : w'.storage (.custody asset) = BitVec.ofNat 256 n)
    (hother : ∀ a, a ≠ asset → w'.storage (.custody a) = w.storage (.custody a))
    (hjournal : w'.journal = e :: w.journal)
    (hflow : ∀ a, e.flow a = if asset = a then (n : ℤ) - loadCustody w.storage asset else 0) :
    LedgersKept w' := by
  constructor
  · intro a
    exact claims_congr (hvault a) (fun account => hclaim account a) (h.claims a)
  · intro a
    rw [hjournal, custodyFlow_cons, ← h.custody a, hflow a]
    by_cases ha : asset = a
    · subst ha
      rw [if_pos rfl, loadCustody, loadAmount, hcustody, wordToUint, BitVec.toNat_ofNat,
        Nat.mod_eq_of_lt hn]
      ring
    · rw [if_neg ha, zero_add, loadCustody, loadAmount_congr (hother a (Ne.symm ha))]
      rfl

/-- A change of one claim and the deposit ledger together. -/
theorem LedgersKept.claim_move (h : LedgersKept w) {st : Storage} (account : Address)
    (asset : Word)
    (hother : ∀ slot : Slot, slot ≠ .depositorClaim account asset → slot ≠ .settleVault asset →
      st slot = w.storage slot)
    (hmove : loadSettleVault st asset + loadDepositorClaim w.storage account asset =
      loadSettleVault w.storage asset + loadDepositorClaim st account asset) :
    LedgersKept (w.withStorage st) := by
  constructor
  · intro a
    show loadSettleVault st a = totalClaims st a
    by_cases ha : a = asset
    · subst ha
      refine claims_move account (h.claims a) (fun account' hne => ?_) hmove
      exact hother _ (by simp [hne]) (by simp)
    · refine claims_congr ?_ (fun account' => ?_) (h.claims a)
      · exact hother _ (by simp) (by simp [ha])
      · exact hother _ (by simp [ha]) (by simp)
  · intro a
    rw [World.withStorage_journal, ← h.custody a]
    exact congrArg Nat.cast (loadAmount_congr (hother _ (by simp) (by simp)))

/-- A change of the books keeps the ledgers. -/
theorem BookStep.ledgersKept (h : BookStep hashes blocks w w') (hw : LedgersKept w) :
    LedgersKept w' := by
  cases h with
  | quiet hquiet =>
      have hvault : ∀ asset, (Slot.settleVault asset).IsBook := fun asset => trivial
      have hclaim : ∀ account asset, (Slot.depositorClaim account asset).IsBook :=
        fun account asset => trivial
      have hcustody : ∀ asset, (Slot.custody asset).IsBook := fun asset => trivial
      obtain ⟨entries, hflow, hjournal⟩ := hquiet.journal
      constructor
      · intro asset
        exact claims_congr (hquiet.storage _ (hvault asset))
          (fun account => hquiet.storage _ (hclaim account asset)) (hw.claims asset)
      · intro asset
        rw [hjournal, custodyFlow_of_not_flow asset hflow, ← hw.custody asset, loadCustody,
          loadAmount_congr (hquiet.storage _ (hcustody asset))]
        rfl
  | @exported fr atomic claimID t _ _ _ _ hroom =>
      have hvault : ∀ asset, ¬ (Slot.settleVault asset).IsStage := fun asset hc => hc
      have hclaim : ∀ account asset, ¬ (Slot.depositorClaim account asset).IsStage :=
        fun account asset hc => hc
      have hcustody : ∀ asset, ¬ (Slot.custody asset).IsStage := fun asset hc => hc
      refine hw.custody_set t.asset hroom (fun a => ?_) (fun account a => ?_) ?_
        (fun a ha => ?_) rfl (fun a => ?_)
      · exact exportedStorage_of_ne _ _ _ _ _ (hvault a) (by simp) (by simp)
      · exact exportedStorage_of_ne _ _ _ _ _ (hclaim account a) (by simp) (by simp)
      · rw [exportedWorld_storage, exportedStorage, stageAtomicPut,
          stageAtomic_of_not_stage _ _ _ (hcustody _), markClaimWritten,
          Storage.set_of_ne (by simp), Storage.set_self]
      · exact exportedStorage_of_ne _ _ _ _ _ (hcustody a) (by simp) (by simpa using ha)
      · rw [Nat.cast_add, add_sub_cancel_left]
        rfl
  | @imported fr atomic claim body _ _ _ _ _ hbacked =>
      have hvault : ∀ asset, ¬ (Slot.settleVault asset).IsStage := fun asset hc => hc
      have hclaim : ∀ account asset, ¬ (Slot.depositorClaim account asset).IsStage :=
        fun account asset hc => hc
      have hcustody : ∀ asset, ¬ (Slot.custody asset).IsStage := fun asset hc => hc
      have hlt : loadCustody w.storage body.asset - body.amount.toNat < 2 ^ 256 :=
        lt_of_le_of_lt (Nat.sub_le _ _) (w.storage (.custody body.asset)).isLt
      refine hw.custody_set body.asset hlt (fun a => ?_) (fun account a => ?_) ?_
        (fun a ha => ?_) rfl (fun a => ?_)
      · exact importedStorage_of_ne fr atomic claim.id body _ (hvault a) (by simp) (by simp)
      · exact importedStorage_of_ne fr atomic claim.id body _ (hclaim account a) (by simp) (by simp)
      · rw [importedWorld_storage, importedStorage, Storage.set_self]
      · exact importedStorage_of_ne fr atomic claim.id body _ (hcustody a) (by simp)
          (by simpa using ha)
      · rw [Nat.cast_sub hbacked, sub_sub_cancel_left]
        rfl
  | @deposited st account asset amount hrecord =>
      obtain ⟨hclaimRoom, hvaultRoom, hst⟩ := recordDeposit_ok hrecord
      refine hw.claim_move account asset
        (fun slot hclaim hvault => recordDeposit_of_ne hrecord hclaim hvault) ?_
      have hvaultLoad : loadSettleVault st asset = loadSettleVault w.storage asset + amount := by
        rw [hst]
        exact loadAmount_set_self _ _ hvaultRoom
      have hclaimLoad : loadDepositorClaim st account asset =
          loadDepositorClaim w.storage account asset + amount := by
        rw [hst, loadDepositorClaim, loadAmount_set_of_ne (by simp)]
        exact loadAmount_set_self _ _ hclaimRoom
      rw [hvaultLoad, hclaimLoad]
      ring
  | @withdrawn st st' account asset amount hclaimed hheld hclaim hvault =>
      refine hw.claim_move account asset (fun slot hne hne' => ?_) ?_
      · rw [storeAmount_of_ne hvault hne', storeAmount_of_ne hclaim hne]
      · obtain ⟨hclaimRoom, rfl⟩ := storeAmount_ok hclaim
        obtain ⟨hvaultRoom, rfl⟩ := storeAmount_ok hvault
        have hclaimLoad : loadDepositorClaim ((w.storage.set (.depositorClaim account asset)
            (BitVec.ofNat 256 (loadDepositorClaim w.storage account asset - amount))).set
            (.settleVault asset) (BitVec.ofNat 256 (loadSettleVault w.storage asset - amount)))
            account asset = loadDepositorClaim w.storage account asset - amount := by
          rw [loadDepositorClaim, loadAmount_set_of_ne (by simp)]
          exact loadAmount_set_self _ _ hclaimRoom
        rw [hclaimLoad, loadSettleVault, loadAmount_set_self _ _ hvaultRoom]
        omega
  | @seeded asset amount hroom =>
      refine hw.custody_set asset hroom (fun a => ?_) (fun account a => ?_) ?_
        (fun a ha => ?_) rfl (fun a => ?_)
      · exact seededWorld_of_ne asset amount w (by simp)
      · exact seededWorld_of_ne asset amount w (by simp)
      · exact Storage.set_self _ _ _
      · exact seededWorld_of_ne asset amount w (by simpa using ha)
      · rw [Nat.cast_add, add_sub_cancel_left]
        rfl

theorem Books.ledgersKept (h : Books hashes blocks w w') (hw : LedgersKept w) :
    LedgersKept w' := by
  induction h with
  | refl => exact hw
  | tail _ hstep ih => exact hstep.ledgersKept ih

/-- In every run, of any callers and any tokens, the deposit ledger of each asset is the
total of what the accounts may claim, and custody is what was seeded and exported less what
was imported. -/
theorem ledgers_kept (hashes : Hashes) {w₀ : World} (hgenesis : Genesis w₀)
    (actions : List Action) : LedgersKept (runFrom hashes w₀ actions) := by
  have hany : ∀ a ∈ actions, a.RunsIn Set.univ := fun _ _ b _ => Set.mem_univ b
  have hbooks := (runFrom_books hashes hgenesis.bounded hany).1
  exact hbooks.ledgersKept (.of_genesis hgenesis)

/-- A registration, a commit and a collect. -/
theorem ledgers_kept_sample :
    LedgersKept (runFrom sampleHashes fundedWorld
      [sampleInitialize, sampleModify 1 100, sampleCollect 5 40]) :=
  ledgers_kept sampleHashes fundedWorld_genesis _

/-! ## The balance behind the ledgers -/

/-- The interaction takes nothing of a token from the vault by itself. -/
def Interaction.Spares (token : Address) : Interaction → Prop
  | .debit asset owner _ => ¬ (asset = token ∧ owner = vaultAddr)
  | _ => True

/-- Neither the action nor token code during it takes from the vault by itself; nobody but
the precompile spends its native coin. -/
def Action.Spares (token : Address) (a : Action) : Prop :=
  token = native ∨ a.interaction.Spares token ∧
    ∀ depth code w, ∀ i ∈ a.env.reactions depth code w, i.Spares token

variable {env : Environment} {token : Address}

theorem deliverValue_covers {caller : Address} {value : ℕ}
    (h : deliverValue w caller value = some w') (token : Address) :
    w.bank token vaultAddr ≤ w'.bank token vaultAddr := by
  have hvault := deliverValue_vault h
  obtain ⟨-, -, -, rfl⟩ := deliverValue_eq_some h
  by_cases htoken : token = native
  · rw [htoken, hvault]
    exact Nat.le_add_right _ _
  · show _ ≤ w.bank.move native caller vaultAddr value token vaultAddr
    rw [Bank.move_of_ne _ _ fun hc => absurd hc htoken]

/-- What other accounts do takes nothing from the vault. -/
theorem interact_covers_of_not_enter
    (run : World → Request → Except Error (World × Reply)) {i : Interaction}
    (hi : token = native ∨ i.Spares token) (henter : ∀ r, i ≠ .enter r) :
    w.bank token vaultAddr ≤ (interact run w i).bank token vaultAddr ∧
      (interact run w i).storage = w.storage := by
  cases i with
  | enter r => exact absurd rfl (henter r)
  | credit asset owner amount =>
      simp only [interact]
      split_ifs
      · refine ⟨?_, rfl⟩
        show _ ≤ w.bank.set asset owner (w.bank asset owner + amount) token vaultAddr
        rw [Bank.set_apply]
        split_ifs with hvault
        · rw [hvault.1, hvault.2]
          exact Nat.le_add_right _ _
        · exact le_rfl
      · exact ⟨le_rfl, rfl⟩
  | debit asset owner amount =>
      simp only [interact]
      split_ifs with hself
      · exact ⟨le_rfl, rfl⟩
      · refine ⟨?_, rfl⟩
        show _ ≤ w.bank.set asset owner (w.bank asset owner - amount) token vaultAddr
        rw [Bank.set_apply, if_neg]
        rintro ⟨rfl, rfl⟩
        obtain rfl | hspares := hi
        · exact hself ⟨rfl, rfl⟩
        · exact hspares ⟨rfl, rfl⟩
  | log l =>
      simp only [interact]
      split_ifs
      · exact ⟨le_rfl, rfl⟩
      · exact ⟨le_rfl, rfl⟩

/-- Behind the guard token code takes nothing from the vault. -/
theorem interact_covers (hguard : w.storage .custodyGuard ≠ 0) {depth : ℕ} {i : Interaction}
    (hi : token = native ∨ i.Spares token) :
    w.bank token vaultAddr ≤ (interact (call hashes env depth) w i).bank token vaultAddr := by
  cases i with
  | enter r =>
      simp only [interact, call_eq_deliver]
      cases hdeliver : deliverValue w r.caller r.value with
      | none => exact le_rfl
      | some w1 =>
          simp only
          cases hrun : run hashes env depth w1 r with
          | error e => exact le_rfl
          | ok result =>
              have hguard1 : w1.storage .custodyGuard ≠ 0 := by
                rwa [deliverValue_storage hdeliver]
              have hbank : result.1.bank = w1.bank := by
                obtain hview | hadmin := run_guarded hguard1 hrun
                · rw [hview]
                · exact hadmin.bank
              show _ ≤ result.1.bank token vaultAddr
              rw [hbank]
              exact deliverValue_covers hdeliver token
  | credit asset owner amount =>
      exact (interact_covers_of_not_enter _ hi fun r => by simp).1
  | debit asset owner amount =>
      exact (interact_covers_of_not_enter _ hi fun r => by simp).1
  | log l => exact (interact_covers_of_not_enter _ hi fun r => by simp).1

theorem frameOf_covers
    (henv : token = native ∨ ∀ depth code w, ∀ i ∈ env.reactions depth code w, i.Spares token)
    (depth : ℕ) (blockNumber : UInt64) (r : Request) :
    (frameOf hashes env depth blockNumber r).Drifts (fun x y => x ≤ y) token := by
  intro code w hb hguard
  have hfold : w.bank token vaultAddr ≤
        ((settleContract hashes).callback env depth code w).bank token vaultAddr ∧
      Outside hashes env.host w ((settleContract hashes).callback env depth code w) := by
    apply foldl_invariant_mem (P := fun w1 : World =>
      w.bank token vaultAddr ≤ w1.bank token vaultAddr ∧ Outside hashes env.host w w1)
    · rintro w1 i hi ⟨hle, hout⟩
      have hguard1 : w1.storage .custodyGuard ≠ 0 := by rwa [hout.guard]
      exact ⟨hle.trans (interact_covers hguard1 (henv.imp_right fun h => h depth code w i hi)),
        hout.trans (interact_outside (hout.bounded hb) hguard1 i)⟩
    · exact ⟨le_rfl, .refl w⟩
  exact_mod_cast hfold.1

/-- The vault holds at least what the two ledgers of a token say. -/
structure Covered (token : Address) (w : World) : Prop where
  bounded : w.bank.Bounded
  canonical : CustodyCanonical w.storage
  surplus : 0 ≤ surplus w token

theorem Covered.ledgers_le (h : Covered token w) :
    loadSettleVault w.storage (assetID token) + loadCustody w.storage (assetID token) ≤
      w.bank token vaultAddr := by
  have hsurplus := h.surplus
  rw [Settle.surplus, ledgers] at hsurplus
  omega

theorem taken_le {selector : ℕ} {data : List UInt8} (hcovered : 0 ≤ surplus w token)
    (hdelivered : FundsNative selector data →
      ((argWord data 32).toNat : ℤ) ≤ surplus w native) :
    taken selector data w token ≤ surplus w token := by
  unfold taken
  split_ifs with hnative hdeposit hseed
  · rw [hnative.1]
    exact hdelivered ⟨.inl hdeposit, hnative.2⟩
  · rw [hnative.1]
  · exact hcovered
  · exact hcovered

/-- A call keeps the balance behind the ledgers. -/
theorem call_covered (hw : Covered token w) {depth : ℕ} {r : Request}
    (henv : token = native ∨ ∀ depth code w, ∀ i ∈ env.reactions depth code w, i.Spares token)
    {reply : Reply} (h : call hashes env depth w r = .ok (w', reply)) : Covered token w' := by
  obtain ⟨d, blockNumber, w1, hdeliver, hdispatch⟩ := call_dispatch h
  have hcaller := (deliverValue_eq_some hdeliver).1
  have hout : Outside hashes env.host w w1 := deliverValue_outside hw.bounded hdeliver
  have hb1 := hout.bounded hw.bounded
  have hcanon1 := hout.canonical hw.canonical
  have hsurplus1 : 0 ≤ surplus w1 token := by
    have hbank := deliverValue_covers hdeliver token
    have hbefore := hw.surplus
    rw [surplus] at hbefore ⊢
    rw [deliverValue_storage hdeliver]
    omega
  obtain rfl | hadmin | ⟨-, w2, hoperation, rfl⟩ := dispatch_cases hdispatch
  · exact ⟨hb1, hcanon1, hsurplus1⟩
  · have hout' : Outside hashes env.host w1 w' := hadmin.outside
    refine ⟨hout'.bounded hb1, hout'.canonical hcanon1, ?_⟩
    rwa [surplus, hadmin.bank, hout'.ledgers]
  · have hfr := frameOf_guarded hashes env d blockNumber r
    have hkept : surplus w1 token - taken (selectorOf r.input) (r.input.drop 4) w1 token ≤
        surplus w2 token :=
      hoperation.surplus drift_le hfr (frameOf_covers henv _ _ _) hb1 hcaller hcanon1
    have htaken := taken_le hsurplus1 fun hfunds => hoperation.delivered hfunds
    refine ⟨(hoperation.trace hfr hb1).2, ?_, ?_⟩
    · exact (hoperation.canonical hfr hb1 hcanon1).of_eq fun asset =>
        leave_storage_of_ne w2 (by simp)
    · rw [leave_surplus]
      omega

/-- An action keeps the balance behind the ledgers. -/
theorem exec_covered (hw : Covered token w) {a : Action} (ha : a.Spares token) :
    Covered token (exec hashes w a) := by
  by_cases henter : ∃ r, a.interaction = .enter r
  · obtain ⟨r, hr⟩ := henter
    cases hcall : call hashes a.env a.depth w r with
    | error e =>
        rw [exec_refused hr hcall]
        exact hw
    | ok result =>
        have heq : exec hashes w a = result.1 := by
          simp only [exec_eq, hr, interact, hcall]
        rw [heq]
        exact call_covered hw (ha.imp_right fun h => h.2) hcall
  · obtain ⟨hbank, hstorage⟩ := interact_covers_of_not_enter (call hashes a.env a.depth)
      (w := w) (ha.imp_right fun h => h.1) fun r hr => henter ⟨r, hr⟩
    have hbefore := hw.surplus
    refine ⟨(exec_trace hashes hw.bounded a).2, ?_, ?_⟩
    · rw [exec_eq, hstorage]
      exact hw.canonical
    · rw [surplus] at hbefore ⊢
      rw [exec_eq, hstorage]
      omega

/-- In every run the vault holds at least the deposit ledger and custody of a token
together, unless the token takes from the vault by itself; of native coin always. -/
theorem vault_covers_ledgers (hashes : Hashes) {w₀ : World} (hgenesis : Genesis w₀)
    (token : Address) (actions : List Action) (hspares : ∀ a ∈ actions, a.Spares token) :
    loadSettleVault (runFrom hashes w₀ actions).storage (assetID token) +
        loadCustody (runFrom hashes w₀ actions).storage (assetID token) ≤
      (runFrom hashes w₀ actions).bank token vaultAddr := by
  have hw : Covered token w₀ := by
    refine ⟨hgenesis.bounded, fun asset _ => ?_, ?_⟩
    · rw [hgenesis.storage_empty]
      rfl
    · have hempty : ledgers w₀.storage token = 0 := by
        rw [hgenesis.storage_empty]
        rfl
      rw [surplus, hempty, Nat.cast_zero, sub_zero]
      exact Int.natCast_nonneg _
  apply Covered.ledgers_le
  apply foldl_invariant_mem (P := Covered token)
  · exact fun w1 a ha hcovered => exec_covered hcovered (hspares a ha)
  · exact hw

/-- A deposit and the withdrawal of more than it. -/
theorem vault_covers_ledgers_sample :
    loadSettleVault (runFrom sampleHashes fundedWorld [callAt 0 0xA11CE 5 selDeposit
        (wordBytes [0, 5]), callAt 0 0xB0B 0 selWithdraw (wordBytes [0, 9])]).storage
        (assetID native) +
      loadCustody (runFrom sampleHashes fundedWorld [callAt 0 0xA11CE 5 selDeposit
        (wordBytes [0, 5]), callAt 0 0xB0B 0 selWithdraw (wordBytes [0, 9])]).storage
        (assetID native) ≤
      (runFrom sampleHashes fundedWorld [callAt 0 0xA11CE 5 selDeposit
        (wordBytes [0, 5]), callAt 0 0xB0B 0 selWithdraw (wordBytes [0, 9])]).bank native
        vaultAddr :=
  vault_covers_ledgers sampleHashes fundedWorld_genesis native _ fun _ _ => .inl rfl

end LuxPrecompile.Settle
