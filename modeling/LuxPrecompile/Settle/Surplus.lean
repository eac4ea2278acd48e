import LuxPrecompile.Settle.Effects

/-!
# What the vault holds beyond its ledgers

For each token the vault's balance backs two ledgers, the depositors' and the
custody of the rail.  The surplus is what the balance exceeds them by.  Every handler
moves a ledger and the balance together; a deposit or a seed of native coin moves
only the ledger and spends surplus.  In between token code may let balances drift,
equally or upwards: the relation of the drift is a parameter of the results.
-/

namespace LuxPrecompile.Settle

open Dex Evm Support

variable {hashes : Hashes} {host : Host}

/-- The two ledgers of a token. -/
def ledgers (st : Storage) (token : Address) : ℕ :=
  loadSettleVault st (assetID token) + loadCustody st (assetID token)

/-- `balance - (settleVault + custody)` of a token. -/
def surplus (w : World) (token : Address) : ℤ :=
  (w.bank token vaultAddr : ℤ) - ledgers w.storage token

theorem surplus_native (w : World) : surplus w native = deliveredNative w := by
  rw [surplus, ledgers, deliveredNative, Nat.cast_add]
  rfl

theorem assetAddress_assetID (token : Address) : assetAddress (assetID token) = token :=
  wordAddress_addressWord token

theorem assetID_inj {token token' : Address} : assetID token = assetID token' ↔ token = token' := by
  refine ⟨fun h => ?_, congrArg assetID⟩
  rw [← assetAddress_assetID token, h, assetAddress_assetID]

theorem assetID_eq_zero {token : Address} : assetID token = 0 ↔ token = native := by
  have hzero : (0 : Word) = assetID native := rfl
  rw [hzero, assetID_inj]

/-! ## Drift -/

/-- A way balances may drift while foreign code runs: not at all, or upwards. -/
structure Drift (R : ℤ → ℤ → Prop) : Prop where
  refl : ∀ x, R x x
  trans : ∀ {x y z}, R x y → R y z → R x z
  add : ∀ {x y} c, R x y → R (x + c) (y + c)

theorem drift_eq : Drift (fun x y => x = y) :=
  ⟨fun _ => rfl, Eq.trans, fun c h => congrArg (fun z => z + c) h⟩

theorem drift_le : Drift (fun x y => x ≤ y) :=
  ⟨le_refl, le_trans, fun c h => by gcongr⟩

variable {R : ℤ → ℤ → Prop}

theorem Drift.sub (hR : Drift R) {x y : ℤ} (c : ℤ) (h : R x y) : R (x - c) (y - c) :=
  hR.add (-c) h

theorem Drift.of_eq (hR : Drift R) {x y : ℤ} (h : x = y) : R x y := by
  rw [h]
  exact hR.refl y

/-- Behind the guard the code of any token lets the vault's balance of `token` drift. -/
def Frame.Drifts (fr : Frame) (R : ℤ → ℤ → Prop) (token : Address) : Prop :=
  ∀ code (w : World), w.bank.Bounded → w.storage .custodyGuard ≠ 0 →
    R (w.bank token vaultAddr) ((fr.callback code w).bank token vaultAddr)

/-- What a transfer adds to the vault's balance of `token`. -/
def inflow (asset sender recipient : Address) (amount : ℕ) (token : Address) : ℤ :=
  if token = asset then
    (if recipient = vaultAddr then (amount : ℤ) else 0) -
      (if sender = vaultAddr then (amount : ℤ) else 0)
  else 0

theorem move_vault {b : Bank} (hb : b.Bounded) {asset sender recipient : Address} {amount : ℕ}
    (hle : amount ≤ b asset sender) (hfits : b.fits asset sender recipient amount)
    (hne : sender ≠ recipient) (token : Address) :
    (b.move asset sender recipient amount token vaultAddr : ℤ) =
      b token vaultAddr + inflow asset sender recipient amount token := by
  unfold inflow
  by_cases htoken : token = asset
  · subst htoken
    rw [if_pos rfl]
    by_cases hrecipient : recipient = vaultAddr
    · subst hrecipient
      rw [Bank.move_recipient hne hfits, if_pos rfl, if_neg hne]
      push_cast
      ring
    · by_cases hsender : sender = vaultAddr
      · subst hsender
        rw [Bank.move_sender hb hle, if_neg hne, if_neg hrecipient, if_pos rfl]
        omega
      · rw [Bank.move_of_ne _ _ (fun _ => ⟨Ne.symm hsender, Ne.symm hrecipient⟩),
          if_neg hrecipient, if_neg hsender]
        ring
  · rw [Bank.move_of_ne _ _ (fun hc => absurd hc htoken), if_neg htoken]
    ring

section Moves

variable {fr : Frame} {w w' : World} {token : Address}

theorem moveNative_vault (hb : w.bank.Bounded) {sender recipient : Address} {amount : ℕ}
    {short : Error} (h : moveNative w sender recipient amount short = .ok w')
    (hne : sender ≠ recipient) (token : Address) :
    (w'.bank token vaultAddr : ℤ) =
      w.bank token vaultAddr + inflow native sender recipient amount token := by
  obtain ⟨hle, hfits, rfl⟩ := moveNative_ok h
  exact move_vault hb hle hfits hne token

/-- A token transfer moves its amount, up to the drift of the token's code. -/
theorem transferToken_drift (hR : Drift R) (hfr : fr.Guarded) (hdrift : fr.Drifts R token)
    (hb : w.bank.Bounded) (hguard : w.storage .custodyGuard ≠ 0)
    {asset sender recipient : Address} {amount : ℕ}
    (h : transferToken fr w asset sender recipient amount = .ok w') (hne : sender ≠ recipient) :
    R (w.bank token vaultAddr + inflow asset sender recipient amount token)
      (w'.bank token vaultAddr) := by
  simp only [transferToken] at h
  split_ifs at h with hallowed
  have hout := hfr asset w hb hguard
  have hbefore := hdrift asset w hb hguard
  cases htransfer : (fr.callback asset w).bank.transfer asset sender recipient amount with
  | none => simp [htransfer] at h
  | some bank =>
      simp only [htransfer, Except.ok.injEq] at h
      obtain ⟨hle, hfits, hbank⟩ := Bank.transfer_eq_some htransfer
      have hmoved := move_vault (hout.bounded hb) hle hfits hne token
      rw [← hbank] at hmoved
      have hb' : bank.Bounded := by
        rw [hbank]
        exact (hout.bounded hb).move _ _ _ _
      have hafter := hdrift asset { fr.callback asset w with bank := bank } hb'
        (by show (fr.callback asset w).storage .custodyGuard ≠ 0
            rwa [hout.guard])
      rw [← h]
      refine hR.trans (hR.add _ hbefore) ?_
      rw [← hmoved]
      exact hafter

/-- A pull moves its amount into the vault, up to drift. -/
theorem pullERC20Terminal_drift (hR : Drift R) (hfr : fr.Guarded) (hdrift : fr.Drifts R token)
    (hb : w.bank.Bounded) (hguard : w.storage .custodyGuard ≠ 0) {asset sender : Address}
    {amount : ℕ} (h : pullERC20Terminal fr w asset sender amount = .ok w')
    (hne : sender ≠ vaultAddr) :
    R (w.bank token vaultAddr + inflow asset sender vaultAddr amount token)
      (w'.bank token vaultAddr) := by
  simp only [pullERC20Terminal, bind_eq_ok, refuse_eq_ok, Except.ok.injEq] at h
  obtain ⟨w2, htransfer, -, rfl⟩ := h
  have hout := hfr asset w hb hguard
  have hb1 := hout.bounded hb
  have hguard1 : (fr.callback asset w).storage .custodyGuard ≠ 0 := by rwa [hout.guard]
  have hout2 := transferToken_outside hfr hb1 hguard1 htransfer
  have h1 := hdrift asset w hb hguard
  have h2 := transferToken_drift hR hfr hdrift hb1 hguard1 htransfer hne
  have h3 := hdrift asset w2 (hout2.bounded hb1) (by rwa [hout2.guard])
  exact hR.trans (hR.add _ h1) (hR.trans h2 h3)

end Moves

/-! ## Ledgers -/

theorem ledgers_congr {st st' : Storage} {token : Address}
    (hvault : st' (.settleVault (assetID token)) = st (.settleVault (assetID token)))
    (hcustody : st' (.custody (assetID token)) = st (.custody (assetID token))) :
    ledgers st' token = ledgers st token := by
  unfold ledgers loadSettleVault loadCustody loadAmount
  rw [hvault, hcustody]

theorem Outside.ledgers {w w' : World} (h : Outside hashes host w w') (token : Address) :
    Settle.ledgers w'.storage token = Settle.ledgers w.storage token := by
  apply ledgers_congr
  · apply h.storage
    · exact fun hc => hc
    · exact fun hc => hc
  · apply h.storage
    · exact fun hc => hc
    · exact fun hc => hc

/-- The surplus after a change of the balance by `x`, up to drift, and of the ledgers
by `c`. -/
theorem surplus_drift (hR : Drift R) {w w' : World} {token : Address} {x c : ℤ}
    (hbank : R (w.bank token vaultAddr + x) (w'.bank token vaultAddr))
    (hledgers : (ledgers w'.storage token : ℤ) = ledgers w.storage token + c) :
    R (surplus w token + (x - c)) (surplus w' token) := by
  have h := hR.sub (ledgers w'.storage token : ℤ) hbank
  have heq : (w.bank token vaultAddr : ℤ) + x - ledgers w'.storage token =
      surplus w token + (x - c) := by
    rw [hledgers, surplus]
    ring
  rwa [heq] at h

theorem ledgers_custody (token : Address) {st : Storage} {asset : Word} {n : ℕ}
    (hn : n < 2 ^ 256) (c : ℤ) (hc : (n : ℤ) = loadCustody st asset + c) :
    (ledgers (st.set (.custody asset) (BitVec.ofNat 256 n)) token : ℤ) =
      ledgers st token + if assetID token = asset then c else 0 := by
  unfold ledgers loadSettleVault
  rw [loadAmount_set_of_ne (by simp)]
  by_cases hasset : assetID token = asset
  · subst hasset
    rw [if_pos rfl, loadCustody, loadAmount_set_self _ _ hn]
    push_cast
    rw [hc]
    ring
  · have hne : Slot.custody (assetID token) ≠ .custody asset := by simpa using hasset
    rw [if_neg hasset, loadCustody, loadAmount_set_of_ne hne]
    simp [loadCustody]

theorem ledgers_settleVault {st : Storage} {token : Address} {asset : Word} {n : ℕ}
    (hn : n < 2 ^ 256) (c : ℤ) (hc : (n : ℤ) = loadSettleVault st asset + c) :
    (ledgers (st.set (.settleVault asset) (BitVec.ofNat 256 n)) token : ℤ) =
      ledgers st token + if assetID token = asset then c else 0 := by
  unfold ledgers loadCustody
  rw [loadAmount_set_of_ne (by simp)]
  by_cases hasset : assetID token = asset
  · subst hasset
    rw [if_pos rfl, loadSettleVault, loadAmount_set_self _ _ hn]
    push_cast
    rw [hc]
    ring
  · have hne : Slot.settleVault (assetID token) ≠ .settleVault asset := by simpa using hasset
    rw [if_neg hasset, loadSettleVault, loadAmount_set_of_ne hne]
    simp [loadSettleVault]

section Crossings

variable {fr : Frame} {w w' : World} {token : Address}

theorem exportedWorld_ledgers (fr : Frame) (atomic : Atomic) (claimID : Word) (t : Transfer)
    (hroom : loadCustody w.storage t.asset + t.amount.toNat < 2 ^ 256) (token : Address) :
    (ledgers (exportedWorld fr atomic claimID t w).storage token : ℤ) =
      ledgers w.storage token + if assetID token = t.asset then (t.amount.toNat : ℤ) else 0 := by
  have hcustody := ledgers_custody token hroom (t.amount.toNat : ℤ) (by push_cast; ring)
  rw [← hcustody]
  congr 1
  have hvault : ¬ (Slot.settleVault (assetID token)).IsStage := fun hc => hc
  have hcustody' : ¬ (Slot.custody (assetID token)).IsStage := fun hc => hc
  apply ledgers_congr
  · rw [exportedWorld_storage, exportedStorage, stageAtomicPut,
      stageAtomic_of_not_stage _ _ _ hvault, markClaimWritten, Storage.set_of_ne (by simp)]
  · rw [exportedWorld_storage, exportedStorage, stageAtomicPut,
      stageAtomic_of_not_stage _ _ _ hcustody', markClaimWritten, Storage.set_of_ne (by simp)]

theorem importedWorld_ledgers (fr : Frame) (atomic : Atomic) (claim : Claim) (body : ClaimBody)
    (hbacked : body.amount.toNat ≤ loadCustody w.storage body.asset) (token : Address) :
    (ledgers (importedWorld fr atomic claim body w).storage token : ℤ) =
      ledgers w.storage token +
        if assetID token = body.asset then -(body.amount.toNat : ℤ) else 0 := by
  have hvault : ¬ (Slot.settleVault (assetID token)).IsStage := fun hc => hc
  have hcustody : ∀ asset, ¬ (Slot.custody asset).IsStage := fun asset hc => hc
  have hbase : ∀ asset, stageAtomicRemove (markClaimConsumed w.storage claim.id fr.blockNumber)
      atomic.dChainID claim.id (.custody asset) = w.storage (.custody asset) := by
    intro asset
    rw [stageAtomicRemove, stageAtomic_of_not_stage _ _ _ (hcustody asset), markClaimConsumed,
      Storage.set_of_ne (by simp)]
  have hsame : ledgers (stageAtomicRemove
      (markClaimConsumed w.storage claim.id fr.blockNumber) atomic.dChainID claim.id) token =
      ledgers w.storage token := by
    apply ledgers_congr
    · rw [stageAtomicRemove, stageAtomic_of_not_stage _ _ _ hvault, markClaimConsumed,
        Storage.set_of_ne (by simp)]
    · exact hbase _
  have hlt : loadCustody w.storage body.asset < 2 ^ 256 := (w.storage (.custody body.asset)).isLt
  rw [importedWorld_storage, importedStorage, ← hsame]
  apply ledgers_custody
  · omega
  · have hload : loadCustody (stageAtomicRemove
        (markClaimConsumed w.storage claim.id fr.blockNumber) atomic.dChainID claim.id)
        body.asset = loadCustody w.storage body.asset :=
      congrArg wordToUint (hbase body.asset)
    rw [hload]
    omega

/-- An export moves custody and balance together. -/
theorem Exported.surplus (hR : Drift R) (hfr : fr.Guarded) (hdrift : fr.Drifts R token)
    (hb : w.bank.Bounded) (hguard : w.storage .custodyGuard ≠ 0) {atomic : Atomic}
    {claimID : Word} {t : Transfer} (h : Exported fr atomic claimID t w w')
    (hasset : t.asset = assetID t.assetAddr) (howner : t.owner ≠ vaultAddr) :
    R (Settle.surplus w token) (Settle.surplus w' token) := by
  have hledgers := exportedWorld_ledgers fr atomic claimID t h.room token
  have hguard' : (exportedWorld fr atomic claimID t w).storage .custodyGuard ≠ 0 := by
    rwa [exportedWorld_guard]
  have hb' : (exportedWorld fr atomic claimID t w).bank.Bounded := hb
  have hflow : ∀ asset, (asset = t.assetAddr) →
      inflow asset t.owner vaultAddr t.amount.toNat token -
        (if assetID token = t.asset then (t.amount.toNat : ℤ) else 0) = 0 := by
    rintro asset rfl
    unfold inflow
    rw [hasset, if_pos rfl, if_neg howner]
    by_cases htoken : token = t.assetAddr
    · rw [if_pos htoken, if_pos (congrArg assetID htoken)]
      ring
    · rw [if_neg htoken, if_neg (fun hc => htoken (assetID_inj.mp hc))]
      ring
  obtain ⟨hnative, hmove⟩ | ⟨htoken, hpull⟩ := h.moved
  · have haddr : native = t.assetAddr := by
      rw [hasset] at hnative
      exact (assetID_eq_zero.mp hnative).symm
    have hbank := hR.of_eq (moveNative_vault hb' hmove howner token).symm
    obtain ⟨-, -, heq⟩ := moveNative_ok hmove
    have hst : w'.storage = (exportedWorld fr atomic claimID t w).storage := by rw [heq]
    have hdelta := surplus_drift (w := w) hR hbank (by rw [hst]; exact hledgers)
    rwa [hflow _ haddr, add_zero] at hdelta
  · have hbank := pullERC20Terminal_drift hR hfr hdrift hb' hguard' hpull howner
    have hout := pullERC20Terminal_outside hfr hb' hguard' hpull
    have hdelta := surplus_drift (w := w) hR hbank (by rw [hout.ledgers]; exact hledgers)
    rwa [hflow _ rfl, add_zero] at hdelta

/-- An import moves custody and balance together. -/
theorem Imported.surplus (hR : Drift R) (hfr : fr.Guarded) (hdrift : fr.Drifts R token)
    (hb : w.bank.Bounded) (hguard : w.storage .custodyGuard ≠ 0) {atomic : Atomic}
    {claim : Claim} {body : ClaimBody} (h : Imported fr atomic claim body w w')
    (hasset : body.asset = assetID (assetAddress body.asset))
    (hbeneficiary : body.beneficiary ≠ vaultAddr) :
    R (Settle.surplus w token) (Settle.surplus w' token) := by
  have hledgers := importedWorld_ledgers fr atomic claim body h.backed token
  have hguard' : (importedWorld fr atomic claim body w).storage .custodyGuard ≠ 0 := by
    rwa [importedWorld_guard]
  have hb' : (importedWorld fr atomic claim body w).bank.Bounded := hb
  have hflow : ∀ asset, (asset = assetAddress body.asset) →
      inflow asset vaultAddr body.beneficiary body.amount.toNat token -
        (if assetID token = body.asset then -(body.amount.toNat : ℤ) else 0) = 0 := by
    rintro asset rfl
    unfold inflow
    rw [if_pos rfl, if_neg hbeneficiary]
    by_cases htoken : token = assetAddress body.asset
    · rw [if_pos htoken, if_pos (by rw [htoken, ← hasset])]
      ring
    · have hne : assetID token ≠ body.asset := by
        intro hc
        exact htoken (by rw [← hc, assetAddress_assetID])
      rw [if_neg htoken, if_neg hne]
      ring
  obtain ⟨hnative, hmove⟩ | ⟨htoken, hpush⟩ := h.moved
  · have haddr : native = assetAddress body.asset := by
      rw [hnative]
      rfl
    have hbank := hR.of_eq (moveNative_vault hb' hmove hbeneficiary.symm token).symm
    obtain ⟨-, -, heq⟩ := moveNative_ok hmove
    have hst : w'.storage = (importedWorld fr atomic claim body w).storage := by rw [heq]
    have hdelta := surplus_drift (w := w) hR hbank (by rw [hst]; exact hledgers)
    rwa [hflow _ haddr, add_zero] at hdelta
  · have hbank := transferToken_drift hR hfr hdrift hb' hguard' hpush hbeneficiary.symm
    have hout := transferToken_outside hfr hb' hguard' hpush
    have hdelta := surplus_drift (w := w) hR hbank (by rw [hout.ledgers]; exact hledgers)
    rwa [hflow _ rfl, add_zero] at hdelta

end Crossings

/-! ## Custody of real assets -/

/-- Only assets that are the id of a token have custody. -/
def CustodyCanonical (st : Storage) : Prop :=
  ∀ asset, asset ≠ assetID (assetAddress asset) → loadCustody st asset = 0

theorem canonical_assetID (token : Address) :
    assetID token = assetID (assetAddress (assetID token)) := by
  rw [assetAddress_assetID]

theorem CustodyCanonical.of_eq {st st' : Storage} (h : CustodyCanonical st)
    (hsame : ∀ asset, st' (.custody asset) = st (.custody asset)) : CustodyCanonical st' := by
  intro asset hasset
  rw [loadCustody, loadAmount, hsame]
  exact h asset hasset

theorem CustodyCanonical.of_ne {st st' : Storage} (h : CustodyCanonical st) {asset : Word}
    (hasset : asset = assetID (assetAddress asset))
    (hsame : ∀ other, other ≠ asset → st' (.custody other) = st (.custody other)) :
    CustodyCanonical st' := by
  intro other hother
  have hne : other ≠ asset := by
    rintro rfl
    exact hother hasset
  rw [loadCustody, loadAmount, hsame other hne]
  exact h other hother

theorem CustodyCanonical.eq_of_pos {st : Storage} (h : CustodyCanonical st) {asset : Word}
    (hpos : 0 < loadCustody st asset) : asset = assetID (assetAddress asset) := by
  by_contra hc
  rw [h asset hc] at hpos
  exact lt_irrefl 0 hpos

theorem Outside.canonical {w w' : World} (h : Outside hashes host w w')
    (hcanon : CustodyCanonical w.storage) : CustodyCanonical w'.storage := by
  apply hcanon.of_eq
  intro asset
  apply h.storage
  · exact fun hc => hc
  · exact fun hc => hc

section Canonical

variable {fr : Frame} {w w' : World}

theorem Exported.canonical (hfr : fr.Guarded) (hb : w.bank.Bounded)
    (hguard : w.storage .custodyGuard ≠ 0) {atomic : Atomic} {claimID : Word} {t : Transfer}
    (h : Exported fr atomic claimID t w w') (hasset : t.asset = assetID (assetAddress t.asset))
    (hcanon : CustodyCanonical w.storage) : CustodyCanonical w'.storage := by
  have hrecorded : CustodyCanonical (exportedWorld fr atomic claimID t w).storage := by
    apply hcanon.of_ne hasset
    intro other hother
    have hstage : ¬ (Slot.custody other).IsStage := fun hc => hc
    exact exportedStorage_of_ne _ _ _ _ _ hstage (by simp) (by simpa using hother)
  obtain ⟨-, hmove⟩ | ⟨-, hout⟩ := h.cases hfr hb hguard
  · obtain ⟨-, -, rfl⟩ := moveNative_ok hmove
    exact hrecorded
  · exact hout.canonical hrecorded

theorem Imported.asset_canonical {atomic : Atomic} {claim : Claim} {body : ClaimBody}
    (h : Imported fr atomic claim body w w') (hcanon : CustodyCanonical w.storage) :
    body.asset = assetID (assetAddress body.asset) := by
  apply hcanon.eq_of_pos
  have hne : body.amount.toNat ≠ 0 := fun hc => h.amount (UInt64.toNat_inj.mp hc)
  exact lt_of_lt_of_le (Nat.pos_of_ne_zero hne) h.backed

theorem Imported.canonical (hfr : fr.Guarded) (hb : w.bank.Bounded)
    (hguard : w.storage .custodyGuard ≠ 0) {atomic : Atomic} {claim : Claim}
    {body : ClaimBody} (h : Imported fr atomic claim body w w')
    (hcanon : CustodyCanonical w.storage) : CustodyCanonical w'.storage := by
  have hrecorded : CustodyCanonical (importedWorld fr atomic claim body w).storage := by
    apply hcanon.of_ne (h.asset_canonical hcanon)
    intro other hother
    have hstage : ¬ (Slot.custody other).IsStage := fun hc => hc
    exact importedStorage_of_ne _ _ _ _ _ hstage (by simp) (by simpa using hother)
  obtain ⟨-, hmove⟩ | ⟨-, hout⟩ := h.cases hfr hb hguard
  · obtain ⟨-, -, rfl⟩ := moveNative_ok hmove
    exact hrecorded
  · exact hout.canonical hrecorded

end Canonical

theorem buildTransfer_ok {key : PoolKey} {params : SwapParams} {caller : Address} {t : Transfer}
    (h : buildTransfer key params caller = .ok t) :
    t.owner = caller ∧ t.asset = assetID t.assetAddr ∧
      t.asset = (swapAssetDirection key params).1 := by
  simp only [buildTransfer, refuse_eq_ok, Except.ok.injEq] at h
  obtain ⟨-, rfl⟩ := h
  refine ⟨rfl, ?_, rfl⟩
  unfold swapAssetDirection
  split_ifs
  · exact canonical_assetID _
  · exact canonical_assetID _

theorem lockedAssetForSide_canonical (key : PoolKey) (side : MakerSide) :
    lockedAssetForSide key side = assetID (assetAddress (lockedAssetForSide key side)) := by
  unfold lockedAssetForSide
  split_ifs
  · exact canonical_assetID _
  · exact canonical_assetID _

theorem decodeSettlementBody_ok {body : List UInt8} {key : PoolKey} {params : SwapParams}
    {caller : Address} {claim : Claim}
    (h : decodeSettlementBody body key params caller = .ok claim) :
    claim.beneficiary = caller ∧ claim.asset = (swapAssetDirection key params).2 := by
  simp only [decodeSettlementBody, refuse_eq_ok, Except.ok.injEq] at h
  obtain ⟨-, rfl⟩ := h
  exact ⟨rfl, rfl⟩

/-! ## Surplus across an operation -/

/-- The call is a native deposit or a native seed. -/
def FundsNative (selector : ℕ) (data : List UInt8) : Prop :=
  (selector = selDeposit ∨ selector = selSeedSeamReserve) ∧ assetID (argAddress data 0) = 0

instance (selector : ℕ) (data : List UInt8) : Decidable (FundsNative selector data) :=
  inferInstanceAs (Decidable (_ ∧ _))

/-- What an operation takes from the surplus of a token: a native deposit its amount,
a native seed everything. -/
def taken (selector : ℕ) (data : List UInt8) (w : World) (token : Address) : ℤ :=
  if token = native ∧ assetID (argAddress data 0) = 0 then
    if selector = selDeposit then ((argWord data 32).toNat : ℤ)
    else if selector = selSeedSeamReserve then surplus w native
    else 0
  else 0

theorem taken_eq_zero {selector : ℕ} {data : List UInt8} (h : ¬ FundsNative selector data)
    (w : World) (token : Address) : taken selector data w token = 0 := by
  unfold taken
  split_ifs with hnative hdeposit hseed
  · exact absurd ⟨.inl hdeposit, hnative.2⟩ h
  · exact absurd ⟨.inr hseed, hnative.2⟩ h
  · rfl
  · rfl

theorem not_fundsNative {selector : ℕ} {data : List UInt8} (hdeposit : selector ≠ selDeposit)
    (hseed : selector ≠ selSeedSeamReserve) : ¬ FundsNative selector data := by
  rintro ⟨h | h, -⟩
  · exact hdeposit h
  · exact hseed h

theorem decodeAssetAmount_ok {data : List UInt8} {token : Address} {amount : ℕ}
    (h : decodeAssetAmount data = .ok (token, amount)) :
    token = argAddress data 0 ∧ amount = (argWord data 32).toNat ∧ amount ≠ 0 := by
  simp only [decodeAssetAmount, refuse_eq_ok, Except.ok.injEq, Prod.mk.injEq] at h
  obtain ⟨-, hamount, rfl, rfl⟩ := h
  exact ⟨rfl, rfl, hamount⟩

/-- The native ledgers and the vault's native balance are those of the world before
the guard was taken. -/
theorem enter_surplus (w : World) (token : Address) : surplus w.enter token = surplus w token := by
  have hledgers : ledgers w.enter.storage token = ledgers w.storage token := by
    apply ledgers_congr
    · exact enter_storage_of_ne w (by simp)
    · exact enter_storage_of_ne w (by simp)
  rw [surplus, hledgers]
  rfl

theorem leave_surplus (w : World) (token : Address) : surplus w.leave token = surplus w token := by
  have hledgers : ledgers w.leave.storage token = ledgers w.storage token := by
    apply ledgers_congr
    · exact leave_storage_of_ne w (by simp)
    · exact leave_storage_of_ne w (by simp)
  rw [surplus, hledgers]
  rfl

theorem recordDeposit_ledgers {st st' : Storage} {account : Address} {asset : Word}
    {amount : ℕ} (h : recordDeposit st account asset amount = .ok st') (token : Address) :
    (ledgers st' token : ℤ) =
      ledgers st token + if assetID token = asset then (amount : ℤ) else 0 := by
  obtain ⟨-, hroom, rfl⟩ := recordDeposit_ok h
  have hclaim : ledgers (st.set (.depositorClaim account asset)
      (BitVec.ofNat 256 (loadDepositorClaim st account asset + amount))) token =
      ledgers st token := by
    apply ledgers_congr
    · exact Storage.set_of_ne (by simp) _ _
    · exact Storage.set_of_ne (by simp) _ _
  rw [← hclaim]
  apply ledgers_settleVault hroom
  have hload : loadSettleVault (st.set (.depositorClaim account asset)
      (BitVec.ofNat 256 (loadDepositorClaim st account asset + amount))) asset =
      loadSettleVault st asset :=
    loadAmount_set_of_ne (by simp) _ _
  rw [hload]
  push_cast
  ring

theorem withdraw_ledgers {st st1 st2 : Storage} {account : Address} {asset : Word}
    {claim realized : ℕ} (hclaim : storeDepositorClaim st account asset claim = .ok st1)
    (hvault : storeSettleVault st1 asset (loadSettleVault st asset - realized) = .ok st2)
    (hle : realized ≤ loadSettleVault st asset) (token : Address) :
    (ledgers st2 token : ℤ) =
      ledgers st token + if assetID token = asset then -(realized : ℤ) else 0 := by
  obtain ⟨-, rfl⟩ := storeAmount_ok hclaim
  obtain ⟨hroom, rfl⟩ := storeAmount_ok hvault
  have hsame : ledgers (st.set (.depositorClaim account asset) (BitVec.ofNat 256 claim)) token =
      ledgers st token := by
    apply ledgers_congr
    · exact Storage.set_of_ne (by simp) _ _
    · exact Storage.set_of_ne (by simp) _ _
  rw [← hsame]
  apply ledgers_settleVault hroom
  have hload : loadSettleVault (st.set (.depositorClaim account asset)
      (BitVec.ofNat 256 claim)) asset = loadSettleVault st asset :=
    loadAmount_set_of_ne (by simp) _ _
  rw [hload]
  omega

theorem seededWorld_ledgers {w : World} {asset : Word} {amount : ℕ}
    (hroom : loadCustody w.storage asset + amount < 2 ^ 256) (token : Address) :
    (ledgers (seededWorld asset amount w).storage token : ℤ) =
      ledgers w.storage token + if assetID token = asset then (amount : ℤ) else 0 := by
  have h := ledgers_custody token hroom (amount : ℤ) (by push_cast; ring)
  rw [← h]
  rfl

section Operations

variable {fr : Frame} {w w' : World} {token : Address}

theorem surplus_congr (hbank : w'.bank = w.bank)
    (hvault : ∀ asset, w'.storage (.settleVault asset) = w.storage (.settleVault asset))
    (hcustody : ∀ asset, w'.storage (.custody asset) = w.storage (.custody asset)) :
    Settle.surplus w' token = Settle.surplus w token := by
  rw [Settle.surplus, hbank, ledgers_congr (hvault _) (hcustody _), Settle.surplus]

theorem surplus_of_position (hbank : w'.bank = w.bank)
    (hstorage : ∀ slot : Slot, ¬ slot.IsPosition → w'.storage slot = w.storage slot) :
    Settle.surplus w' token = Settle.surplus w token := by
  have hvault : ∀ asset, ¬ (Slot.settleVault asset).IsPosition := fun asset hc => hc
  have hcustody : ∀ asset, ¬ (Slot.custody asset).IsPosition := fun asset hc => hc
  exact surplus_congr hbank (fun asset => hstorage _ (hvault asset))
    fun asset => hstorage _ (hcustody asset)

/-- A withdrawal pays what it takes off the ledger. -/
theorem payWithdrawal_drift (hR : Drift R) (hfr : fr.Guarded) (hdrift : fr.Drifts R token)
    (hb : w.bank.Bounded) (hguard : w.storage .custodyGuard ≠ 0) {source : Address}
    {amount : ℕ} (hcaller : fr.caller ≠ vaultAddr)
    (h : payWithdrawal fr w source amount = .ok w') :
    R (w.bank token vaultAddr +
        if assetID token = assetID source then -(amount : ℤ) else 0)
      (w'.bank token vaultAddr) ∧ ledgers w'.storage token = ledgers w.storage token := by
  have hflow : inflow source vaultAddr fr.caller amount token =
      if assetID token = assetID source then -(amount : ℤ) else 0 := by
    unfold inflow
    by_cases htoken : token = source
    · rw [if_pos htoken, if_pos (congrArg assetID htoken), if_neg hcaller, if_pos rfl]
      ring
    · rw [if_neg htoken, if_neg (fun hc => htoken (assetID_inj.mp hc))]
  rw [← hflow]
  obtain ⟨hnative, hmove⟩ | ⟨-, hpush⟩ := payWithdrawal_ok h
  · rw [assetID_eq_zero.mp hnative]
    have hbank := moveNative_vault hb hmove hcaller.symm token
    obtain ⟨-, -, rfl⟩ := moveNative_ok hmove
    exact ⟨hR.of_eq hbank.symm, rfl⟩
  · exact ⟨transferToken_drift hR hfr hdrift hb hguard hpush hcaller.symm,
      (transferToken_outside hfr hb hguard hpush).ledgers token⟩

/-- A pull brings what was put on the ledger. -/
theorem pull_drift (hR : Drift R) (hfr : fr.Guarded) (hdrift : fr.Drifts R token)
    (hb : w.bank.Bounded) (hguard : w.storage .custodyGuard ≠ 0) {source : Address}
    {amount : ℕ} (hcaller : fr.caller ≠ vaultAddr)
    (h : pullERC20Terminal fr w source fr.caller amount = .ok w') :
    R (w.bank token vaultAddr + if assetID token = assetID source then (amount : ℤ) else 0)
      (w'.bank token vaultAddr) ∧ ledgers w'.storage token = ledgers w.storage token := by
  have hflow : inflow source fr.caller vaultAddr amount token =
      if assetID token = assetID source then (amount : ℤ) else 0 := by
    unfold inflow
    by_cases htoken : token = source
    · rw [if_pos htoken, if_pos (congrArg assetID htoken), if_pos rfl, if_neg hcaller]
      ring
    · rw [if_neg htoken, if_neg (fun hc => htoken (assetID_inj.mp hc))]
  rw [← hflow]
  exact ⟨pullERC20Terminal_drift hR hfr hdrift hb hguard h hcaller,
    (pullERC20Terminal_outside hfr hb hguard h).ledgers token⟩

variable {selector : ℕ} {data : List UInt8}

/-- Custody stays with real assets. -/
theorem Operation.canonical (hfr : fr.Guarded) (hb : w.bank.Bounded)
    (hcanon : CustodyCanonical w.storage) (h : Operation fr selector data w w') :
    CustodyCanonical w'.storage := by
  have hguard := enter_guard w
  have hb0 : w.enter.bank.Bounded := hb
  have henter : CustodyCanonical w.enter.storage :=
    hcanon.of_eq fun asset => enter_storage_of_ne w (by simp)
  cases h with
  | exportSwap _ _ _ _ _ hbuild hexport =>
      obtain ⟨-, hasset, -⟩ := buildTransfer_ok hbuild
      have hcanonical : ∀ {asset : Word} {source : Address}, asset = assetID source →
          asset = assetID (assetAddress asset) := by
        rintro _ source rfl
        exact canonical_assetID source
      exact (exportClaim_ok hexport).canonical hfr hb0 hguard (hcanonical hasset) henter
  | importSwap _ _ _ _ _ _ himport hvolume =>
      obtain ⟨body, -, himported⟩ := importClaim_ok himport
      have hmoved := himported.canonical hfr hb0 hguard henter
      exact hmoved.of_eq fun asset => accrueVolume_of_ne hvolume fun shard => by simp
  | @commit _ key _ hookData _ _ _ _ _ _ _ _ _ _ hcommit =>
      obtain ⟨claimID, st, w1, hcommitted⟩ := commitPosition_ok hcommit
      have hmoved := hcommitted.exported.canonical hfr hb0 hguard
        (lockedAssetForSide_canonical key (decodeMakerSide hookData)) henter
      apply hmoved.of_eq
      intro asset
      have hslot : ¬ (Slot.custody asset).IsPosition := fun hc => hc
      exact hcommitted.frame hslot
  | request _ _ _ _ _ hrequest =>
      obtain ⟨st, hrequested⟩ := requestPositionWithdraw_ok hrequest
      apply henter.of_eq
      intro asset
      have hslot : ¬ (Slot.custody asset).IsPosition := fun hc => hc
      exact hrequested.frame hslot
  | collect _ _ _ himport hrecord =>
      obtain ⟨body, -, himported⟩ := importClaim_ok himport
      have hmoved := himported.canonical hfr hb0 hguard henter
      apply hmoved.of_eq
      intro asset
      have hslot : ¬ (Slot.custody asset).IsPosition := fun hc => hc
      exact collectPositionRecord_frame hrecord hslot
  | depositNative _ _ _ _ hrecord =>
      exact henter.of_eq fun asset => recordDeposit_of_ne hrecord (by simp) (by simp)
  | @depositToken st _ _ _ _ hrecord hpull =>
      have hst : (w.enter.withStorage st).storage .custodyGuard ≠ 0 := by
        rwa [World.withStorage_storage, recordDeposit_of_ne hrecord (by simp) (by simp)]
      have hb1 : (w.enter.withStorage st).bank.Bounded := hb0
      have hrecorded : CustodyCanonical (w.enter.withStorage st).storage :=
        henter.of_eq fun asset => recordDeposit_of_ne hrecord (by simp) (by simp)
      exact (pullERC20Terminal_outside hfr hb1 hst hpull).canonical hrecorded
  | withdrawNothing _ => exact henter
  | @withdraw _ st st' _ _ _ _ hclaim hvault hpay =>
      have hst : (w.enter.withStorage st').storage .custodyGuard ≠ 0 := by
        rwa [World.withStorage_storage, storeAmount_of_ne hvault (by simp),
          storeAmount_of_ne hclaim (by simp)]
      have hb1 : (w.enter.withStorage st').bank.Bounded := hb0
      have hrecorded : CustodyCanonical (w.enter.withStorage st').storage := by
        apply henter.of_eq
        intro asset
        rw [World.withStorage_storage, storeAmount_of_ne hvault (by simp),
          storeAmount_of_ne hclaim (by simp)]
      obtain ⟨-, hmove⟩ | ⟨-, hpush⟩ := payWithdrawal_ok hpay
      · obtain ⟨-, -, rfl⟩ := moveNative_ok hmove
        exact hrecorded
      · exact (transferToken_outside hfr hb1 hst hpush).canonical hrecorded
  | @seed source amount delivered _ _ _ hreceive =>
      have hseeded : ∀ (source : Address) (n : ℕ),
          CustodyCanonical (seededWorld (assetID source) n w.enter).storage := by
        intro source n
        apply henter.of_ne (canonical_assetID source)
        intro other hother
        exact Storage.set_of_ne (by simpa using hother) _ _
      obtain ⟨-, -, -, -, rfl⟩ | ⟨-, -, -, hpull⟩ := receiveOperatorValue_ok hreceive
      · exact hseeded native delivered
      · have hb1 : (seededWorld (assetID source) amount w.enter).bank.Bounded := hb0
        have hout := pullERC20Terminal_outside hfr hb1 (by rwa [seededWorld_guard]) hpull
        exact hout.canonical (hseeded source amount)

/-! ### Handlers behind the guard -/

theorem importedVolume_surplus (hR : Drift R) (hfr : fr.Guarded) (hdrift : fr.Drifts R token)
    (hb : w.bank.Bounded) (hguard : w.storage .custodyGuard ≠ 0)
    (hcanon : CustodyCanonical w.storage) {atomic : Atomic} {claim : Claim} {body : ClaimBody}
    {poolID : Word} {credited epoch : UInt64} {st : Storage} {topics : List Word}
    {bytes : List UInt8} (himported : Imported fr atomic claim body w w')
    (hbeneficiary : body.beneficiary ≠ vaultAddr)
    (hvolume : accrueVolume w'.storage poolID credited epoch = .ok st) :
    R (Settle.surplus w token) (Settle.surplus ((w'.withStorage st).emit topics bytes) token) := by
  have hmoved := himported.surplus hR hfr hdrift hb hguard
    (himported.asset_canonical hcanon) hbeneficiary
  refine hR.trans hmoved (hR.of_eq (Eq.symm ?_))
  apply surplus_congr
  · rfl
  · exact fun asset => accrueVolume_of_ne hvolume fun shard => by simp
  · exact fun asset => accrueVolume_of_ne hvolume fun shard => by simp

theorem Committed.surplus (hR : Drift R) (hfr : fr.Guarded) (hdrift : fr.Drifts R token)
    (hb : w.bank.Bounded) (hguard : w.storage .custodyGuard ≠ 0)
    (hcaller : fr.caller ≠ vaultAddr) {atomic : Atomic} {key : PoolKey}
    {params : ModifyLiquidityParams} {side : MakerSide} {orderID claimID : Word} {st : Storage}
    {w1 : World} (h : Committed fr atomic key params side (lockedAssetForSide key side) orderID
      claimID st w w1 w') :
    R (Settle.surplus w token) (Settle.surplus w' token) := by
  have hmoved := h.exported.surplus hR hfr hdrift hb hguard
    (lockedAssetForSide_canonical key side) hcaller
  refine hR.trans hmoved (hR.of_eq (surplus_of_position ?_ ?_).symm)
  · rw [h.final]
    rfl
  · exact fun slot hslot => h.frame hslot

theorem Requested.surplus {orderID : Word} {st : Storage} (h : Requested fr orderID st w w') :
    Settle.surplus w' token = Settle.surplus w token := by
  apply surplus_of_position
  · rw [h.final]
    rfl
  · exact fun slot hslot => h.frame hslot

theorem collected_surplus (hR : Drift R) (hfr : fr.Guarded) (hdrift : fr.Drifts R token)
    (hb : w.bank.Bounded) (hguard : w.storage .custodyGuard ≠ 0)
    (hcanon : CustodyCanonical w.storage) {atomic : Atomic} {claim : Claim} {body : ClaimBody}
    {positionID : Word} {caller : Address} {credited : UInt64} {st : Storage} {e : Entry}
    (himported : Imported fr atomic claim body w w')
    (hbeneficiary : body.beneficiary ≠ vaultAddr)
    (hrecord : collectPositionRecord w'.storage positionID caller credited = .ok st) :
    R (Settle.surplus w token) (Settle.surplus ((w'.withStorage st).record e) token) := by
  have hmoved := himported.surplus hR hfr hdrift hb hguard
    (himported.asset_canonical hcanon) hbeneficiary
  refine hR.trans hmoved (hR.of_eq (Eq.symm ?_))
  apply surplus_of_position
  · rfl
  · exact fun slot hslot => collectPositionRecord_frame hrecord hslot

/-- A native deposit is recorded without a transfer. -/
theorem depositNative_surplus {account : Address} {amount : ℕ} {st : Storage}
    (h : recordDeposit w.storage account 0 amount = .ok st) :
    Settle.surplus (w.withStorage st) token =
      Settle.surplus w token - if assetID token = 0 then (amount : ℤ) else 0 := by
  rw [Settle.surplus, World.withStorage_storage, recordDeposit_ledgers h token,
    Settle.surplus, World.withStorage_bank]
  ring

theorem depositToken_surplus (hR : Drift R) (hfr : fr.Guarded) (hdrift : fr.Drifts R token)
    (hb : w.bank.Bounded) (hguard : w.storage .custodyGuard ≠ 0)
    (hcaller : fr.caller ≠ vaultAddr) {source : Address} {amount : ℕ} {st : Storage}
    (hrecord : recordDeposit w.storage fr.caller (assetID source) amount = .ok st)
    (hpull : pullERC20Terminal fr (w.withStorage st) source fr.caller amount = .ok w') :
    R (Settle.surplus w token) (Settle.surplus w' token) := by
  have hst : (w.withStorage st).storage .custodyGuard ≠ 0 := by
    rwa [World.withStorage_storage, recordDeposit_of_ne hrecord (by simp) (by simp)]
  have hb1 : (w.withStorage st).bank.Bounded := hb
  obtain ⟨hbank, hledgers⟩ := pull_drift hR hfr hdrift hb1 hst hcaller hpull
  have hdelta := surplus_drift (w := w) hR hbank
    (by rw [hledgers]; exact recordDeposit_ledgers hrecord token)
  rwa [sub_self, add_zero] at hdelta

theorem withdrawn_surplus (hR : Drift R) (hfr : fr.Guarded) (hdrift : fr.Drifts R token)
    (hb : w.bank.Bounded) (hguard : w.storage .custodyGuard ≠ 0)
    (hcaller : fr.caller ≠ vaultAddr) {source : Address} {claim realized : ℕ}
    {st st' : Storage} (hle : realized ≤ loadSettleVault w.storage (assetID source))
    (hclaim : storeDepositorClaim w.storage fr.caller (assetID source) claim = .ok st)
    (hvault : storeSettleVault st (assetID source)
      (loadSettleVault w.storage (assetID source) - realized) = .ok st')
    (hpay : payWithdrawal fr (w.withStorage st') source realized = .ok w') :
    R (Settle.surplus w token) (Settle.surplus w' token) := by
  have hst : (w.withStorage st').storage .custodyGuard ≠ 0 := by
    rwa [World.withStorage_storage, storeAmount_of_ne hvault (by simp),
      storeAmount_of_ne hclaim (by simp)]
  have hb1 : (w.withStorage st').bank.Bounded := hb
  obtain ⟨hbank, hledgers⟩ := payWithdrawal_drift hR hfr hdrift hb1 hst hcaller hpay
  have hdelta := surplus_drift (w := w) hR hbank
    (by rw [hledgers]; exact withdraw_ledgers hclaim hvault hle token)
  rwa [sub_self, add_zero] at hdelta

/-- A native seed is recorded without a transfer. -/
theorem seededNative_surplus {amount : ℕ}
    (hroom : loadCustody w.storage 0 + amount < 2 ^ 256) :
    Settle.surplus (seededWorld 0 amount w) token =
      Settle.surplus w token - if assetID token = 0 then (amount : ℤ) else 0 := by
  rw [Settle.surplus, seededWorld_ledgers hroom token, Settle.surplus]
  show (w.bank token vaultAddr : ℤ) - _ = _
  ring

theorem seededToken_surplus (hR : Drift R) (hfr : fr.Guarded) (hdrift : fr.Drifts R token)
    (hb : w.bank.Bounded) (hguard : w.storage .custodyGuard ≠ 0)
    (hcaller : fr.caller ≠ vaultAddr) {source : Address} {amount : ℕ}
    (hroom : loadCustody w.storage (assetID source) + amount < 2 ^ 256)
    (hpull : pullERC20Terminal fr (seededWorld (assetID source) amount w) source fr.caller
      amount = .ok w') :
    R (Settle.surplus w token) (Settle.surplus w' token) := by
  have hb1 : (seededWorld (assetID source) amount w).bank.Bounded := hb
  obtain ⟨hbank, hledgers⟩ := pull_drift hR hfr hdrift hb1
    (by rwa [seededWorld_guard]) hcaller hpull
  have hdelta := surplus_drift (w := w) hR hbank
    (by rw [hledgers]; exact seededWorld_ledgers hroom token)
  rwa [sub_self, add_zero] at hdelta

/-- What a call that funds with the native coin takes from the surplus of a token. -/
theorem taken_native (hnative : assetID (argAddress data 0) = 0) {amount : ℤ}
    (hamount : selector = selDeposit ∧ amount = (argWord data 32).toNat ∨
      selector = selSeedSeamReserve ∧ amount = Settle.surplus w native) :
    taken selector data w token = if assetID token = 0 then amount else 0 := by
  unfold taken
  by_cases htoken : token = native
  · rw [if_pos ⟨htoken, hnative⟩, if_pos (assetID_eq_zero.mpr htoken)]
    obtain ⟨rfl, rfl⟩ | ⟨rfl, rfl⟩ := hamount
    · rw [if_pos rfl]
    · rw [if_neg (by decide), if_pos rfl]
  · rw [if_neg (fun hc => htoken hc.1), if_neg (fun hc => htoken (assetID_eq_zero.mp hc))]

/-- Every handler keeps the surplus of a token, up to drift, but for what native
deposits and seeds take. -/
theorem Operation.surplus (hR : Drift R) (hfr : fr.Guarded) (hdrift : fr.Drifts R token)
    (hb : w.bank.Bounded) (hcaller : fr.caller ≠ vaultAddr)
    (hcanon : CustodyCanonical w.storage) (h : Operation fr selector data w w') :
    R (Settle.surplus w token - taken selector data w token) (Settle.surplus w' token) := by
  have hguard := enter_guard w
  have hb0 : w.enter.bank.Bounded := hb
  have henter : CustodyCanonical w.enter.storage :=
    hcanon.of_eq fun asset => enter_storage_of_ne w (by simp)
  rw [← enter_surplus w token]
  have hkept : ∀ {w1 : World}, ¬ FundsNative selector data →
      R (Settle.surplus w.enter token) (Settle.surplus w1 token) →
      R (Settle.surplus w.enter token - taken selector data w token)
        (Settle.surplus w1 token) := by
    intro w1 hfunds h1
    rwa [taken_eq_zero hfunds, sub_zero]
  have hother : ∀ {other : ℕ}, selector = other → other ≠ selDeposit →
      other ≠ selSeedSeamReserve → ¬ FundsNative selector data := by
    rintro other rfl hdeposit hseed
    exact not_fundsNative hdeposit hseed
  cases h with
  | exportSwap hselector _ _ _ _ hbuild hexport =>
      obtain ⟨howner, hasset, -⟩ := buildTransfer_ok hbuild
      apply hkept (hother hselector (by decide) (by decide))
      exact (exportClaim_ok hexport).surplus hR hfr hdrift hb0 hguard hasset (by rwa [howner])
  | importSwap hselector _ _ _ _ hclaim himport hvolume =>
      obtain ⟨body, -, himported⟩ := importClaim_ok himport
      have hbeneficiary : body.beneficiary ≠ vaultAddr := by
        rwa [himported.beneficiary, (decodeSettlementBody_ok hclaim).1]
      apply hkept (hother hselector (by decide) (by decide))
      exact importedVolume_surplus hR hfr hdrift hb0 hguard henter himported hbeneficiary hvolume
  | commit hselector _ _ _ _ _ hcommit =>
      obtain ⟨claimID, st, w1, hcommitted⟩ := commitPosition_ok hcommit
      apply hkept (hother hselector (by decide) (by decide))
      exact hcommitted.surplus hR hfr hdrift hb0 hguard hcaller
  | request hselector _ _ _ _ hrequest =>
      obtain ⟨st, hrequested⟩ := requestPositionWithdraw_ok hrequest
      apply hkept (hother hselector (by decide) (by decide))
      exact hR.of_eq hrequested.surplus.symm
  | collect hselector _ _ himport hrecord =>
      obtain ⟨body, -, himported⟩ := importClaim_ok himport
      have hbeneficiary : body.beneficiary ≠ vaultAddr := by
        rw [himported.beneficiary]
        exact hcaller
      apply hkept (hother hselector (by decide) (by decide))
      exact collected_surplus hR hfr hdrift hb0 hguard henter himported hbeneficiary hrecord
  | depositNative hselector hnative _ _ hrecord =>
      rw [depositNative_surplus hrecord, taken_native hnative (.inl ⟨hselector, rfl⟩)]
      exact hR.refl _
  | depositToken _ htoken _ hrecord hpull =>
      apply hkept fun hfunds => htoken hfunds.2
      exact depositToken_surplus hR hfr hdrift hb0 hguard hcaller hrecord hpull
  | withdrawNothing hselector =>
      exact hkept (hother hselector (by decide) (by decide)) (hR.refl _)
  | withdraw hselector hrealized _ hclaim hvault hpay =>
      apply hkept (hother hselector (by decide) (by decide))
      refine withdrawn_surplus hR hfr hdrift hb0 hguard hcaller ?_ hclaim hvault hpay
      rw [hrealized]
      exact min_le_right _ _
  | @seed source amount delivered w1 hselector hdecode hreceive =>
      obtain ⟨rfl, -, -⟩ := decodeAssetAmount_ok hdecode
      obtain ⟨hnative, hshort, hdelivered, hroom, rfl⟩ | ⟨hsource, -, hroom, hpull⟩ :=
        receiveOperatorValue_ok hreceive
      · rw [← surplus_native, enter_surplus] at hshort hdelivered
        have hall : (delivered : ℤ) = Settle.surplus w native := by omega
        rw [seededNative_surplus hroom, taken_native hnative (.inr ⟨hselector, hall⟩)]
        exact hR.refl _
      · apply hkept fun hfunds => hsource hfunds.2
        exact seededToken_surplus hR hfr hdrift hb0 hguard hcaller hroom hpull

/-- A native deposit or seed goes through only on as much surplus as it names. -/
theorem Operation.delivered (hfunds : FundsNative selector data)
    (h : Operation fr selector data w w') :
    ((argWord data 32).toNat : ℤ) ≤ Settle.surplus w native := by
  obtain ⟨hselector, hnative⟩ := hfunds
  have hother : ∀ {other : ℕ}, selector = other → other ≠ selDeposit →
      other ≠ selSeedSeamReserve → False := by
    rintro other rfl hdeposit hseed
    exact hselector.elim hdeposit hseed
  cases h with
  | exportSwap hsel => exact (hother hsel (by decide) (by decide)).elim
  | importSwap hsel => exact (hother hsel (by decide) (by decide)).elim
  | commit hsel => exact (hother hsel (by decide) (by decide)).elim
  | request hsel => exact (hother hsel (by decide) (by decide)).elim
  | collect hsel => exact (hother hsel (by decide) (by decide)).elim
  | depositNative _ _ _ hdelivered _ => rwa [← surplus_native, enter_surplus] at hdelivered
  | depositToken _ htoken => exact absurd hnative htoken
  | withdrawNothing hsel => exact (hother hsel (by decide) (by decide)).elim
  | withdraw hsel => exact (hother hsel (by decide) (by decide)).elim
  | seed _ hdecode hreceive =>
      obtain ⟨rfl, rfl, -⟩ := decodeAssetAmount_ok hdecode
      obtain ⟨-, hshort, -⟩ | ⟨hsource, -⟩ := receiveOperatorValue_ok hreceive
      · rwa [← surplus_native, enter_surplus] at hshort
      · exact absurd hnative hsource

end Operations

end LuxPrecompile.Settle
