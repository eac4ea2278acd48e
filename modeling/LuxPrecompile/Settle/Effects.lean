import LuxPrecompile.Settle.ByteRecords
import LuxPrecompile.Settle.Run

/-!
# What the handlers did

The explicit worlds between the checks of a handler and the movement of value: the
accounting of a crossing to the D-Chain and back, of a position, of a deposit.  From
them every action of a run is a sequence of primitive changes, of which only the
registry and the halt switches write market and halt words.
-/

namespace LuxPrecompile.Settle

open Dex Evm Support

/-! ## Staged operations -/

/-- A word of the staging area. -/
def Slot.IsStage : Slot → Prop
  | .stageSeq | .stageKind _ | .stageRecord _ _ _ => True
  | _ => False

theorem stageAtomic_of_not_stage (st : Storage) (kind : StageKind) (record : List UInt8)
    {slot : Slot} (h : ¬ slot.IsStage) : stageAtomic st kind record slot = st slot := by
  have hseq : slot ≠ .stageSeq := by
    rintro rfl
    exact h trivial
  have hkind : ∀ seq, slot ≠ .stageKind seq := by
    rintro seq rfl
    exact h trivial
  have hrecord : ∀ seq i, slot ≠ .stageRecord kind seq i := by
    rintro seq i rfl
    exact h trivial
  unfold stageAtomic setStageSeq
  rw [Storage.set_of_ne hseq, Storage.set_of_ne (hkind _), writeRecord_of_ne _ _ _ (hrecord _)]

/-! ## History -/

/-- An entry of the registry or of a halt switch. -/
def Entry.IsAdmin : Entry → Prop
  | .registered _ _ _ | .haltSet _ _ _ => True
  | _ => False

variable {hashes : Hashes} {host : Host}

theorem AdminStep.journal {w w' : World} (h : AdminStep hashes host w w') :
    ∃ e : Entry, e.IsAdmin ∧ w'.journal = e :: w.journal := by
  cases h with
  | register _ _ _ _ =>
      refine ⟨_, ?_, rfl⟩
      trivial
  | halt _ _ =>
      refine ⟨_, ?_, rfl⟩
      trivial

/-- Outside the guarded handlers only registry and halt entries are added. -/
theorem Outside.journal {w w' : World} (h : Outside hashes host w w') :
    ∃ added : List Entry, (∀ e ∈ added, e.IsAdmin) ∧ w'.journal = added ++ w.journal := by
  induction h with
  | refl => exact ⟨[], by simp, rfl⟩
  | tail _ hstep ih =>
      obtain ⟨added, hadded, hjournal⟩ := ih
      cases hstep with
      | bank b _ _ => exact ⟨added, hadded, hjournal⟩
      | log l _ => exact ⟨added, hadded, hjournal⟩
      | admin hadmin =>
          obtain ⟨e, he, hcons⟩ := hadmin.journal
          refine ⟨e :: added, ?_, by rw [hcons, hjournal, List.cons_append]⟩
          simpa [he] using hadded

theorem Outside.filter_journal {w w' : World} (h : Outside hashes host w w')
    {p : Entry → Bool} (hp : ∀ e, e.IsAdmin → p e = false) :
    w'.journal.filter p = w.journal.filter p := by
  obtain ⟨added, hadded, hjournal⟩ := h.journal
  have hnone : added.filter p = [] := by
    rw [List.filter_eq_nil_iff]
    intro e he
    rw [hp e (hadded e he)]
    exact Bool.false_ne_true
  rw [hjournal, List.filter_append, hnone, List.nil_append]

/-! ## Native coin -/

theorem moveNative_ok {w w' : World} {sender recipient : Address} {amount : ℕ}
    {short : Error} (h : moveNative w sender recipient amount short = .ok w') :
    amount ≤ w.bank native sender ∧ w.bank.fits native sender recipient amount ∧
      w' = { w with bank := w.bank.move native sender recipient amount } := by
  simp only [moveNative, refuse_eq_ok] at h
  obtain ⟨-, h⟩ := h
  cases htransfer : w.bank.transfer native sender recipient amount with
  | none => simp [htransfer] at h
  | some bank =>
      simp only [htransfer, Except.ok.injEq] at h
      obtain ⟨hle, hfits, hbank⟩ := Bank.transfer_eq_some htransfer
      exact ⟨hle, hfits, by rw [← h, hbank]⟩

/-! ## Crossings to the D-Chain -/

theorem isClaimWritten_iff (st : Storage) (claimID : Word) :
    isClaimWritten st claimID = true ↔ st (.claimWritten claimID) ≠ 0 :=
  decide_eq_true_iff

theorem isClaimConsumed_iff (st : Storage) (claimID : Word) :
    isClaimConsumed st claimID = true ↔ st (.claimConsumed claimID) ≠ 0 :=
  decide_eq_true_iff

/-- What the claim of a transfer carries. -/
def Transfer.body (t : Transfer) : ClaimBody :=
  ⟨if t.beneficiary = 0 then t.owner else t.beneficiary, t.asset, t.amount⟩

/-- The storage of an export before the value moves. -/
def exportedStorage (fr : Frame) (atomic : Atomic) (claimID : Word) (t : Transfer)
    (st : Storage) : Storage :=
  stageAtomicPut
    (markClaimWritten
      (st.set (.custody t.asset)
        (BitVec.ofNat 256 (loadCustody st t.asset + t.amount.toNat)))
      claimID fr.blockNumber)
    atomic.dChainID claimID (encodeClaim t.body)

/-- The world of an export before the value moves. -/
def exportedWorld (fr : Frame) (atomic : Atomic) (claimID : Word) (t : Transfer)
    (w : World) : World :=
  ((w.withStorage (exportedStorage fr atomic claimID t w.storage)).emit
    [claimExportedSig, claimID, atomic.dChainID]
    (hashBytes (addressWord t.owner) ++ hashBytes (addressWord t.body.beneficiary) ++
      hashBytes t.body.asset ++ natToBytes 32 t.body.amount.toNat)).record
    (.exported claimID t.owner t.body)

@[simp]
theorem exportedWorld_storage (fr : Frame) (atomic : Atomic) (claimID : Word) (t : Transfer)
    (w : World) : (exportedWorld fr atomic claimID t w).storage =
      exportedStorage fr atomic claimID t w.storage :=
  rfl

/-- A successful export. -/
structure Exported (fr : Frame) (atomic : Atomic) (claimID : Word) (t : Transfer)
    (w w' : World) : Prop where
  amount : t.amount ≠ 0
  dChain : atomic.dChainID ≠ 0
  id : claimID = deriveClaimID fr.hashes atomic.cChainID atomic.dChainID atomic.txID
    fr.callIndex
  unwritten : w.storage (.claimWritten claimID) = 0
  room : loadCustody w.storage t.asset + t.amount.toNat < 2 ^ 256
  moved : t.asset = 0 ∧ moveNative (exportedWorld fr atomic claimID t w) t.owner vaultAddr
      t.amount.toNat .nativeFundsShort = .ok w' ∨
    t.asset ≠ 0 ∧ pullERC20Terminal fr (exportedWorld fr atomic claimID t w) t.assetAddr
      t.owner t.amount.toNat = .ok w'

theorem exportClaim_ok {fr : Frame} {atomic : Atomic} {w w' : World} {t : Transfer}
    {claimID : Word} (h : exportClaim fr atomic w t = .ok (w', claimID)) :
    Exported fr atomic claimID t w w' := by
  simp only [exportClaim, refuse_eq_ok, bind_eq_ok, Except.ok.injEq, Prod.mk.injEq] at h
  obtain ⟨-, hamount, hchain, w1, hlock, rfl, rfl⟩ := h
  simp only [lockAsset, refuse_eq_ok, bind_eq_ok] at hlock
  obtain ⟨-, -, st, hcustody, w2, hrecord, hmove⟩ := hlock
  obtain ⟨hroom, rfl⟩ := storeAmount_ok hcustody
  simp only [recordExport, refuse_eq_ok, Except.ok.injEq] at hrecord
  obtain ⟨hunwritten, rfl⟩ := hrecord
  have hword := not_not.mp fun hc => hunwritten ((isClaimWritten_iff _ _).mpr hc)
  rw [World.withStorage_storage, Storage.set_of_ne (by simp)] at hword
  refine ⟨hamount, hchain, rfl, hword, hroom, ?_⟩
  by_cases hnative : t.asset = 0
  · rw [if_pos ((isNativeAsset_iff _).mpr hnative)] at hmove
    exact .inl ⟨hnative, hmove⟩
  · rw [if_neg (fun hc => hnative ((isNativeAsset_iff _).mp hc))] at hmove
    exact .inr ⟨hnative, hmove⟩

theorem exportedStorage_of_ne (fr : Frame) (atomic : Atomic) (claimID : Word) (t : Transfer)
    (st : Storage) {slot : Slot} (hstage : ¬ slot.IsStage)
    (hwritten : slot ≠ .claimWritten claimID) (hcustody : slot ≠ .custody t.asset) :
    exportedStorage fr atomic claimID t st slot = st slot := by
  rw [exportedStorage, stageAtomicPut, stageAtomic_of_not_stage _ _ _ hstage,
    markClaimWritten, Storage.set_of_ne hwritten, Storage.set_of_ne hcustody]

/-! ## Crossings from the D-Chain -/

/-- The storage of an import before the value moves. -/
def importedStorage (fr : Frame) (atomic : Atomic) (claimID : Word) (body : ClaimBody)
    (st : Storage) : Storage :=
  (stageAtomicRemove (markClaimConsumed st claimID fr.blockNumber) atomic.dChainID
    claimID).set (.custody body.asset)
    (BitVec.ofNat 256 (loadCustody st body.asset - body.amount.toNat))

/-- The world of an import before the value moves. -/
def importedWorld (fr : Frame) (atomic : Atomic) (claim : Claim) (body : ClaimBody)
    (w : World) : World :=
  ((w.emit [settleImportEventSig, claim.id]
    (hashBytes atomic.dChainID ++
      hashBytes (settleObjectHash fr.hashes claim.object))).record
    (.imported claim.id body)).withStorage
    (importedStorage fr atomic claim.id body w.storage)

@[simp]
theorem importedWorld_storage (fr : Frame) (atomic : Atomic) (claim : Claim)
    (body : ClaimBody) (w : World) : (importedWorld fr atomic claim body w).storage =
      importedStorage fr atomic claim.id body w.storage :=
  rfl

/-- A successful import. -/
structure Imported (fr : Frame) (atomic : Atomic) (claim : Claim) (body : ClaimBody)
    (w w' : World) : Prop where
  decode : decodeClaim claim.object = some body
  amount : body.amount ≠ 0
  asset : body.asset = claim.asset
  beneficiary : body.beneficiary = claim.beneficiary
  unconsumed : w.storage (.claimConsumed claim.id) = 0
  backed : body.amount.toNat ≤ loadCustody w.storage body.asset
  moved : body.asset = 0 ∧ moveNative (importedWorld fr atomic claim body w) vaultAddr
      body.beneficiary body.amount.toNat .custodyUnbacked = .ok w' ∨
    body.asset ≠ 0 ∧ pushERC20Terminal fr (importedWorld fr atomic claim body w)
      (assetAddress body.asset) body.beneficiary body.amount.toNat = .ok w'

theorem importClaim_ok {fr : Frame} {atomic : Atomic} {w w' : World} {claim : Claim}
    {credited : UInt64} (h : importClaim fr atomic w claim = .ok (w', credited)) :
    ∃ body, credited = body.amount ∧ Imported fr atomic claim body w w' := by
  simp only [importClaim, refuse_eq_ok, bind_eq_ok] at h
  obtain ⟨-, -, ⟨w1, body⟩, hbind, h⟩ := h
  simp only [Except.ok.injEq, Prod.mk.injEq] at h
  obtain ⟨hasset, hbeneficiary, hconsumed, w2, hcredit, rfl, rfl⟩ := h
  unfold bindImportObject at hbind
  cases hdecode : decodeClaim claim.object with
  | none => simp [hdecode] at hbind
  | some body' =>
      simp only [hdecode, refuse_eq_ok, Except.ok.injEq, Prod.mk.injEq] at hbind
      obtain ⟨hamount, rfl, rfl⟩ := hbind
      simp only [creditAsset, recordCustodyOut, refuse_eq_ok, bind_eq_ok] at hcredit
      obtain ⟨st, ⟨hbacked, hstore⟩, hmove⟩ := hcredit
      obtain ⟨-, rfl⟩ := storeAmount_ok hstore
      have hslot : ¬ (Slot.custody body'.asset).IsStage := fun hc => hc
      have hcustody : loadCustody (stageAtomicRemove (markClaimConsumed w.storage claim.id
          fr.blockNumber) atomic.dChainID claim.id) body'.asset =
          loadCustody w.storage body'.asset := by
        rw [loadCustody, loadAmount, stageAtomicRemove,
          stageAtomic_of_not_stage _ _ _ hslot, markClaimConsumed, Storage.set_of_ne (by simp)]
        rfl
      refine ⟨body', rfl, hdecode, hamount, not_not.mp hasset, not_not.mp hbeneficiary, ?_, ?_,
        ?_⟩
      · exact not_not.mp fun hc => hconsumed ((isClaimConsumed_iff _ _).mpr hc)
      · have hle := not_lt.mp hbacked
        rwa [← hcustody]
      · by_cases hnative : body'.asset = 0
        · rw [if_pos ((isNativeAsset_iff _).mpr hnative)] at hmove
          refine .inl ⟨hnative, ?_⟩
          rw [importedWorld, importedStorage, ← hcustody]
          exact hmove
        · rw [if_neg (fun hc => hnative ((isNativeAsset_iff _).mp hc))] at hmove
          refine .inr ⟨hnative, ?_⟩
          rw [importedWorld, importedStorage, ← hcustody]
          exact hmove

theorem importedStorage_of_ne (fr : Frame) (atomic : Atomic) (claimID : Word)
    (body : ClaimBody) (st : Storage) {slot : Slot} (hstage : ¬ slot.IsStage)
    (hconsumed : slot ≠ .claimConsumed claimID) (hcustody : slot ≠ .custody body.asset) :
    importedStorage fr atomic claimID body st slot = st slot := by
  rw [importedStorage, Storage.set_of_ne hcustody, stageAtomicRemove,
    stageAtomic_of_not_stage _ _ _ hstage, markClaimConsumed, Storage.set_of_ne hconsumed]

/-! ## Positions -/

/-- The record a commit writes over an existing one. -/
def committedOrder (fr : Frame) (key : PoolKey) (params : ModifyLiquidityParams)
    (side : MakerSide) (lockedAsset : Word) (existing : RestingOrder) : RestingOrder where
  owner := fr.caller
  poolID := key.id fr.hashes
  side := side
  lockedAsset := lockedAsset
  lockedAmt := if existing.status = .open then
      existing.lockedAmt + params.liquidityDelta.toNat
    else params.liquidityDelta.toNat
  tickLower := params.tickLower
  tickUpper := params.tickUpper
  salt := params.salt
  status := .open

/-- The crossing that funds a position. -/
def commitTransfer (fr : Frame) (params : ModifyLiquidityParams) (lockedAsset : Word) :
    Transfer :=
  ⟨fr.caller, fr.caller, lockedAsset, assetAddress lockedAsset,
    UInt64.ofNat params.liquidityDelta.toNat⟩

/-- A successful commit: the crossing `w` to `w1`, then the reserve and the record. -/
structure Committed (fr : Frame) (atomic : Atomic) (key : PoolKey)
    (params : ModifyLiquidityParams) (side : MakerSide) (lockedAsset orderID claimID : Word)
    (st : Storage) (w w1 w' : World) : Prop where
  unhalted : w.storage (.haltAsset lockedAsset) = 0
  positive : 0 < params.liquidityDelta
  small : params.liquidityDelta < 2 ^ 64
  exported : Exported fr atomic claimID (commitTransfer fr params lockedAsset) w w1
  room : loadLockedReserve w1.storage fr.caller lockedAsset + params.liquidityDelta.toNat <
    2 ^ 256
  unclosed : (loadRestingOrder w1.storage orderID).status ≠ .closing
  stored : storeRestingOrder
    (w1.storage.set (.lockedReserve fr.caller lockedAsset)
      (BitVec.ofNat 256 (loadLockedReserve w1.storage fr.caller lockedAsset +
        params.liquidityDelta.toNat)))
    orderID (committedOrder fr key params side lockedAsset
      (loadRestingOrder w1.storage orderID)) = .ok st
  final : w' = (w1.withStorage
    (appendOwnerOrder (st.set (.order orderID .commitObject) claimID) fr.caller
      orderID)).record (.committed orderID fr.caller params.liquidityDelta.toNat)

theorem isHalted_iff (st : Storage) (slot : Slot) : isHalted st slot = true ↔ st slot ≠ 0 :=
  decide_eq_true_iff

theorem commitPosition_ok {fr : Frame} {atomic : Atomic} {key : PoolKey}
    {params : ModifyLiquidityParams} {side : MakerSide} {lockedAsset orderID : Word}
    {gasLeft : ℕ} {w w' : World} {reply : Reply}
    (h : commitPosition fr atomic key params side lockedAsset orderID gasLeft w =
      .ok (w', reply)) :
    ∃ claimID st w1,
      Committed fr atomic key params side lockedAsset orderID claimID st w w1 w' := by
  simp only [commitPosition, refuse_eq_ok, bind_eq_ok] at h
  obtain ⟨hhalt, hrange, ⟨w1, claimID⟩, hexport, st1, hreserve, h⟩ := h
  simp only [Except.ok.injEq, Prod.mk.injEq] at h
  obtain ⟨hclosing, st, hstore, rfl, -⟩ := h
  obtain ⟨hroom, rfl⟩ := storeAmount_ok hreserve
  have hsmall : params.liquidityDelta < 2 ^ 64 := by omega
  have hnat : (UInt64.ofNat params.liquidityDelta.toNat).toNat = params.liquidityDelta.toNat := by
    rw [UInt64.toNat_ofNat', Nat.mod_eq_of_lt (by omega)]
  have horder : loadRestingOrder (w1.storage.set (.lockedReserve fr.caller lockedAsset)
      (BitVec.ofNat 256 (loadLockedReserve w1.storage fr.caller lockedAsset +
        (UInt64.ofNat params.liquidityDelta.toNat).toNat))) orderID =
      loadRestingOrder w1.storage orderID :=
    loadRestingOrder_congr fun field => Storage.set_of_ne (by simp) _ _
  rw [horder] at hclosing hstore
  rw [hnat] at hroom hstore
  refine ⟨claimID, st, w1, ?_, by omega, hsmall, exportClaim_ok hexport, hroom, hclosing,
    hstore, ?_⟩
  · exact not_not.mp fun hc => hhalt ((isHalted_iff _ _).mpr hc)
  · rw [hnat]

/-- A successful withdraw request. -/
structure Requested (fr : Frame) (orderID : Word) (st : Storage) (w w' : World) : Prop where
  known : (loadRestingOrder w.storage orderID).status ≠ .none
  owned : (loadRestingOrder w.storage orderID).owner = fr.caller
  unclosed : (loadRestingOrder w.storage orderID).status ≠ .closed
  stored : storeRestingOrder w.storage orderID
    { loadRestingOrder w.storage orderID with status := .closing } = .ok st
  final : w' = ((w.withStorage st).emit
    [positionClosingSig, orderID, (loadRestingOrder w.storage orderID).poolID]
    (hashBytes (addressWord fr.caller))).record (.requested orderID fr.caller)

theorem requestPositionWithdraw_ok {fr : Frame} {orderID : Word} {gasLeft : ℕ} {w w' : World}
    {reply : Reply} (h : requestPositionWithdraw fr orderID gasLeft w = .ok (w', reply)) :
    ∃ st, Requested fr orderID st w w' := by
  simp only [requestPositionWithdraw, refuse_eq_ok, bind_eq_ok, Except.ok.injEq,
    Prod.mk.injEq] at h
  obtain ⟨hnone, howner, hclosed, st, hstore, rfl, -⟩ := h
  exact ⟨st, hnone, not_not.mp howner, hclosed, hstore, rfl⟩

/-- A record a collect applies to. -/
def RestingOrder.Live (o : RestingOrder) : Prop := o.status = .open ∨ o.status = .closing

/-- A record after a collect of `amount`. -/
def RestingOrder.collect (o : RestingOrder) (amount : ℕ) : RestingOrder :=
  { o with
    lockedAmt := o.lockedAmt - min amount o.lockedAmt
    status := if o.lockedAmt - min amount o.lockedAmt = 0 then .closed else o.status }

theorem collectPositionRecord_ok {st st' : Storage} {positionID : Word} {owner : Address}
    {amount : UInt64} (h : collectPositionRecord st positionID owner amount = .ok st') :
    ¬ (loadRestingOrder st positionID).Live ∧ st' = st ∨
    (loadRestingOrder st positionID).Live ∧ (loadRestingOrder st positionID).owner = owner ∧
      ∃ st1, storeRestingOrder st positionID
          ((loadRestingOrder st positionID).collect amount.toNat) = .ok st1 ∧
        storeLockedReserve st1 owner (loadRestingOrder st positionID).lockedAsset
          (max (loadLockedReserve st1 owner (loadRestingOrder st positionID).lockedAsset)
            (min amount.toNat (loadRestingOrder st positionID).lockedAmt) -
            min amount.toNat (loadRestingOrder st positionID).lockedAmt) = .ok st' := by
  unfold collectPositionRecord at h
  dsimp only at h
  obtain ⟨hdead, h⟩ | ⟨hlive, h⟩ := ite_eq_iff.mp h
  · simp only [Except.ok.injEq] at h
    refine .inl ⟨?_, h.symm⟩
    rintro (hopen | hclosing)
    · exact hdead.1 hopen
    · exact hdead.2 hclosing
  · simp only [refuse_eq_ok, bind_eq_ok] at h
    obtain ⟨howner, st1, hstore, hreserve⟩ := h
    have howner' := not_not.mp howner
    rw [howner'] at hreserve
    refine .inr ⟨?_, howner', st1, hstore, hreserve⟩
    by_cases hopen : (loadRestingOrder st positionID).status = .open
    · exact .inl hopen
    · exact .inr (not_not.mp fun hclosing => hlive ⟨hopen, hclosing⟩)

/-! ## Deposits, withdrawals and seeds -/

theorem storeAmount_of_ne {st st' : Storage} {slot other : Slot} {amount : ℕ}
    (h : storeAmount st slot amount = .ok st') (hother : other ≠ slot) :
    st' other = st other := by
  obtain ⟨-, rfl⟩ := storeAmount_ok h
  exact Storage.set_of_ne hother _ _

theorem recordDeposit_ok {st st' : Storage} {account : Address} {asset : Word} {amount : ℕ}
    (h : recordDeposit st account asset amount = .ok st') :
    loadDepositorClaim st account asset + amount < 2 ^ 256 ∧
      loadSettleVault st asset + amount < 2 ^ 256 ∧
      st' = (st.set (.depositorClaim account asset)
        (BitVec.ofNat 256 (loadDepositorClaim st account asset + amount))).set
        (.settleVault asset) (BitVec.ofNat 256 (loadSettleVault st asset + amount)) := by
  simp only [recordDeposit, bind_eq_ok] at h
  obtain ⟨st1, hclaim, hvault⟩ := h
  obtain ⟨hclaimRoom, rfl⟩ := storeAmount_ok hclaim
  obtain ⟨hvaultRoom, rfl⟩ := storeAmount_ok hvault
  have hload : loadSettleVault (st.set (.depositorClaim account asset)
      (BitVec.ofNat 256 (loadDepositorClaim st account asset + amount))) asset =
      loadSettleVault st asset :=
    loadAmount_set_of_ne (by simp) _ _
  rw [hload] at hvaultRoom ⊢
  exact ⟨hclaimRoom, hvaultRoom, rfl⟩

theorem recordDeposit_of_ne {st st' : Storage} {account : Address} {asset : Word} {amount : ℕ}
    (h : recordDeposit st account asset amount = .ok st') {slot : Slot}
    (hclaim : slot ≠ .depositorClaim account asset) (hvault : slot ≠ .settleVault asset) :
    st' slot = st slot := by
  obtain ⟨-, -, rfl⟩ := recordDeposit_ok h
  rw [Storage.set_of_ne hvault, Storage.set_of_ne hclaim]

theorem accrueVolume_of_ne {st st' : Storage} {poolID : Word} {amount epoch : UInt64}
    (h : accrueVolume st poolID amount epoch = .ok st') {slot : Slot}
    (hslot : ∀ shard, slot ≠ .volBucket poolID shard) : st' slot = st slot := by
  simp only [accrueVolume] at h
  obtain ⟨-, h⟩ | ⟨-, h⟩ := ite_eq_iff.mp h
  · simp only [Except.ok.injEq] at h
    rw [h]
  · exact storeAmount_of_ne h (hslot _)

theorem appendOwnerOrder_of_ne (st : Storage) (owner : Address) (orderID : Word) {slot : Slot}
    (hindexed : slot ≠ .order orderID .indexed) (hcount : slot ≠ .ownerOrdersCount owner)
    (hat : ∀ i, slot ≠ .ownerOrdersAt owner i) :
    appendOwnerOrder st owner orderID slot = st slot := by
  unfold appendOwnerOrder
  split_ifs
  · rfl
  · simp [hindexed, hcount, hat]

/-- The world of a seed before the value moves. -/
def seededWorld (asset : Word) (amount : ℕ) (w : World) : World :=
  (w.withStorage (w.storage.set (.custody asset)
    (BitVec.ofNat 256 (loadCustody w.storage asset + amount)))).record (.seeded asset amount)

theorem recordSeed_ok {w w' : World} {asset : Word} {amount : ℕ}
    (h : recordSeed w asset amount = .ok w') :
    loadCustody w.storage asset + amount < 2 ^ 256 ∧ w' = seededWorld asset amount w := by
  simp only [recordSeed, bind_eq_ok, Except.ok.injEq] at h
  obtain ⟨st, hstore, rfl⟩ := h
  obtain ⟨hroom, rfl⟩ := storeAmount_ok hstore
  exact ⟨hroom, rfl⟩

/-- A native seed takes what was delivered; a token seed pulls the amount. -/
theorem receiveOperatorValue_ok {fr : Frame} {w w' : World} {token : Address}
    {amount delivered : ℕ}
    (h : receiveOperatorValue fr w token amount = .ok (w', delivered)) :
    (assetID token = 0 ∧ (amount : ℤ) ≤ deliveredNative w ∧
      delivered = (deliveredNative w).toNat ∧
      loadCustody w.storage 0 + delivered < 2 ^ 256 ∧ w' = seededWorld 0 delivered w) ∨
    (assetID token ≠ 0 ∧ delivered = amount ∧
      loadCustody w.storage (assetID token) + amount < 2 ^ 256 ∧
      pullERC20Terminal fr (seededWorld (assetID token) amount w) token fr.caller amount =
        .ok w') := by
  simp only [receiveOperatorValue] at h
  by_cases hnative : assetID token = 0
  · rw [if_pos ((isNativeAsset_iff _).mpr hnative), refuse_eq_ok] at h
    simp only [bind_eq_ok, Except.ok.injEq, Prod.mk.injEq] at h
    obtain ⟨hshort, w1, hseed, rfl, rfl⟩ := h
    rw [hnative] at hseed
    obtain ⟨hroom, rfl⟩ := recordSeed_ok hseed
    exact .inl ⟨hnative, not_lt.mp hshort, rfl, hroom, rfl⟩
  · rw [if_neg (fun hc => hnative ((isNativeAsset_iff _).mp hc))] at h
    simp only [bind_eq_ok, Except.ok.injEq, Prod.mk.injEq] at h
    obtain ⟨w1, hseed, w2, hpull, rfl, rfl⟩ := h
    obtain ⟨hroom, rfl⟩ := recordSeed_ok hseed
    exact .inr ⟨hnative, rfl, hroom, hpull⟩

theorem payWithdrawal_ok {fr : Frame} {w w' : World} {token : Address} {amount : ℕ}
    (h : payWithdrawal fr w token amount = .ok w') :
    (assetID token = 0 ∧
      moveNative w vaultAddr fr.caller amount .settleClaimShort = .ok w') ∨
    (assetID token ≠ 0 ∧ transferToken fr w token vaultAddr fr.caller amount = .ok w') := by
  unfold payWithdrawal at h
  by_cases hnative : assetID token = 0
  · rw [if_pos ((isNativeAsset_iff _).mpr hnative)] at h
    exact .inl ⟨hnative, h⟩
  · rw [if_neg (fun hc => hnative ((isNativeAsset_iff _).mp hc))] at h
    exact .inr ⟨hnative, h⟩

/-! ## Position words -/

/-- A word of a position, of the index of an owner or of a locked reserve. -/
def Slot.IsPosition : Slot → Prop
  | .order _ _ | .ownerOrdersCount _ | .ownerOrdersAt _ _ | .lockedReserve _ _ => True
  | _ => False

theorem storeRestingOrder_frame {st st' : Storage} {orderID : Word} {o : RestingOrder}
    (h : storeRestingOrder st orderID o = .ok st') {slot : Slot} (hslot : ¬ slot.IsPosition) :
    st' slot = st slot := by
  apply storeRestingOrder_of_ne h
  rintro field rfl
  exact hslot trivial

theorem storeLockedReserve_frame {st st' : Storage} {owner : Address} {asset : Word}
    {amount : ℕ} (h : storeLockedReserve st owner asset amount = .ok st') {slot : Slot}
    (hslot : ¬ slot.IsPosition) : st' slot = st slot := by
  apply storeAmount_of_ne h
  rintro rfl
  exact hslot trivial

/-- After its crossing a commit writes position words only. -/
theorem Committed.frame {fr : Frame} {atomic : Atomic} {key : PoolKey}
    {params : ModifyLiquidityParams} {side : MakerSide} {lockedAsset orderID claimID : Word}
    {st : Storage} {w w1 w' : World}
    (h : Committed fr atomic key params side lockedAsset orderID claimID st w w1 w')
    {slot : Slot} (hslot : ¬ slot.IsPosition) : w'.storage slot = w1.storage slot := by
  have horder : ∀ id field, slot ≠ .order id field := by
    rintro id field rfl
    exact hslot trivial
  have hcount : ∀ owner, slot ≠ .ownerOrdersCount owner := by
    rintro owner rfl
    exact hslot trivial
  have hat : ∀ owner i, slot ≠ .ownerOrdersAt owner i := by
    rintro owner i rfl
    exact hslot trivial
  have hreserve : slot ≠ .lockedReserve fr.caller lockedAsset := by
    rintro rfl
    exact hslot trivial
  rw [h.final, World.record_storage, World.withStorage_storage,
    appendOwnerOrder_of_ne _ _ _ (horder _ _) (hcount _) (hat _), Storage.set_of_ne (horder _ _),
    storeRestingOrder_frame h.stored hslot, Storage.set_of_ne hreserve]

theorem Requested.frame {fr : Frame} {orderID : Word} {st : Storage} {w w' : World}
    (h : Requested fr orderID st w w') {slot : Slot} (hslot : ¬ slot.IsPosition) :
    w'.storage slot = w.storage slot := by
  rw [h.final]
  exact storeRestingOrder_frame h.stored hslot

theorem collectPositionRecord_frame {st st' : Storage} {positionID : Word} {owner : Address}
    {amount : UInt64} (h : collectPositionRecord st positionID owner amount = .ok st')
    {slot : Slot} (hslot : ¬ slot.IsPosition) : st' slot = st slot := by
  obtain ⟨-, rfl⟩ | ⟨-, -, st1, hstore, hreserve⟩ := collectPositionRecord_ok h
  · rfl
  · rw [storeLockedReserve_frame hreserve hslot, storeRestingOrder_frame hstore hslot]

/-! ## Every action is a sequence of primitive changes -/

/-- A word of the registry or a halt switch. -/
def Slot.IsAdmin : Slot → Prop
  | .market _ _ | .haltGlobal | .haltMarket _ | .haltAsset _ => True
  | _ => False

theorem Slot.ne_of {P : Slot → Prop} {slot other : Slot} (h : P slot) (hother : ¬ P other) :
    slot ≠ other := by
  rintro rfl
  exact hother h

theorem Slot.IsAdmin.not_position {slot : Slot} (h : slot.IsAdmin) : ¬ slot.IsPosition := by
  intro hposition
  cases slot <;> first | exact hposition | exact h

theorem Slot.IsAdmin.not_stage {slot : Slot} (h : slot.IsAdmin) : ¬ slot.IsStage := by
  intro hstage
  cases slot <;> first | exact hstage | exact h

/-- A change by a handler or by another account: neither the registry nor a halt
switch is touched. -/
structure Inner (w w' : World) : Prop where
  storage : ∀ slot : Slot, slot.IsAdmin → w'.storage slot = w.storage slot
  journal : ∃ added : List Entry, (∀ e ∈ added, ¬ e.IsAdmin) ∧
    w'.journal = added ++ w.journal

theorem Inner.of_journal_eq {w w' : World} (hjournal : w'.journal = w.journal)
    (hstorage : ∀ slot : Slot, slot.IsAdmin → w'.storage slot = w.storage slot) :
    Inner w w' :=
  ⟨hstorage, [], by simp, hjournal⟩

theorem Inner.of_journal_cons {w w' : World} {e : Entry}
    (hjournal : w'.journal = e :: w.journal) (he : ¬ e.IsAdmin)
    (hstorage : ∀ slot : Slot, slot.IsAdmin → w'.storage slot = w.storage slot) :
    Inner w w' :=
  ⟨hstorage, [e], by simpa using he, hjournal⟩

/-- One primitive change. -/
inductive Primitive (hashes : Hashes) (host : Host) : World → World → Prop
  | admin {w w' : World} (h : AdminStep hashes host w w') : Primitive hashes host w w'
  | inner {w w' : World} (h : Inner w w') : Primitive hashes host w w'

/-- Any number of primitive changes. -/
def Trace (hashes : Hashes) (host : Host) : World → World → Prop :=
  Relation.ReflTransGen (Primitive hashes host)

theorem Trace.trans {w w' w'' : World} (h : Trace hashes host w w')
    (h' : Trace hashes host w' w'') : Trace hashes host w w'' :=
  Relation.ReflTransGen.trans h h'

theorem Inner.trace {w w' : World} (h : Inner w w') : Trace hashes host w w' :=
  Relation.ReflTransGen.single (.inner h)

theorem Outside.trace {w w' : World} (h : Outside hashes host w w') :
    Trace hashes host w w' := by
  induction h with
  | refl => exact Relation.ReflTransGen.refl
  | tail _ hstep ih =>
      apply ih.trans
      cases hstep with
      | bank b _ _ =>
          apply Inner.trace
          exact .of_journal_eq rfl fun _ _ => rfl
      | log l _ =>
          apply Inner.trace
          exact .of_journal_eq rfl fun _ _ => rfl
      | admin hadmin => exact Relation.ReflTransGen.single (.admin hadmin)

theorem custodyGuard_not_admin : ¬ Slot.custodyGuard.IsAdmin := fun hc => hc

theorem enter_inner (w : World) : Inner w w.enter :=
  .of_journal_eq rfl fun _ hslot => Storage.set_of_ne (Slot.ne_of hslot custodyGuard_not_admin) _ _

theorem leave_inner (w : World) : Inner w w.leave :=
  .of_journal_eq rfl fun _ hslot => Storage.set_of_ne (Slot.ne_of hslot custodyGuard_not_admin) _ _

theorem moveNative_inner {w w' : World} {sender recipient : Address} {amount : ℕ}
    {short : Error} (h : moveNative w sender recipient amount short = .ok w') : Inner w w' := by
  obtain ⟨-, -, rfl⟩ := moveNative_ok h
  exact .of_journal_eq rfl fun _ _ => rfl

theorem moveNative_bounded {w w' : World} {sender recipient : Address} {amount : ℕ}
    {short : Error} (hb : w.bank.Bounded)
    (h : moveNative w sender recipient amount short = .ok w') : w'.bank.Bounded := by
  obtain ⟨-, -, rfl⟩ := moveNative_ok h
  exact hb.move _ _ _ _

section Traces

variable {fr : Frame} {w w' : World}

theorem exportedWorld_guard (fr : Frame) (atomic : Atomic) (claimID : Word) (t : Transfer)
    (w : World) :
    (exportedWorld fr atomic claimID t w).storage .custodyGuard = w.storage .custodyGuard := by
  have hstage : ¬ Slot.custodyGuard.IsStage := fun hc => hc
  exact exportedStorage_of_ne fr atomic claimID t w.storage hstage (by simp) (by simp)

theorem importedWorld_guard (fr : Frame) (atomic : Atomic) (claim : Claim) (body : ClaimBody)
    (w : World) :
    (importedWorld fr atomic claim body w).storage .custodyGuard = w.storage .custodyGuard := by
  have hstage : ¬ Slot.custodyGuard.IsStage := fun hc => hc
  exact importedStorage_of_ne fr atomic claim.id body w.storage hstage (by simp) (by simp)

theorem Exported.cases (hfr : fr.Guarded) (hb : w.bank.Bounded)
    (hguard : w.storage .custodyGuard ≠ 0) {atomic : Atomic} {claimID : Word} {t : Transfer}
    (h : Exported fr atomic claimID t w w') :
    t.asset = 0 ∧ moveNative (exportedWorld fr atomic claimID t w) t.owner vaultAddr
      t.amount.toNat .nativeFundsShort = .ok w' ∨
    t.asset ≠ 0 ∧ Outside fr.hashes fr.host (exportedWorld fr atomic claimID t w) w' := by
  have hb' : (exportedWorld fr atomic claimID t w).bank.Bounded := hb
  obtain hmove | ⟨htoken, hpull⟩ := h.moved
  · exact .inl hmove
  · refine .inr ⟨htoken, pullERC20Terminal_outside hfr hb' ?_ hpull⟩
    rwa [exportedWorld_guard]

theorem Imported.cases (hfr : fr.Guarded) (hb : w.bank.Bounded)
    (hguard : w.storage .custodyGuard ≠ 0) {atomic : Atomic} {claim : Claim}
    {body : ClaimBody} (h : Imported fr atomic claim body w w') :
    body.asset = 0 ∧ moveNative (importedWorld fr atomic claim body w) vaultAddr
      body.beneficiary body.amount.toNat .custodyUnbacked = .ok w' ∨
    body.asset ≠ 0 ∧ Outside fr.hashes fr.host (importedWorld fr atomic claim body w) w' := by
  have hb' : (importedWorld fr atomic claim body w).bank.Bounded := hb
  obtain hmove | ⟨htoken, hpush⟩ := h.moved
  · exact .inl hmove
  · refine .inr ⟨htoken, transferToken_outside hfr hb' ?_ hpush⟩
    rwa [importedWorld_guard]

theorem Exported.trace (hfr : fr.Guarded) (hb : w.bank.Bounded)
    (hguard : w.storage .custodyGuard ≠ 0) {atomic : Atomic} {claimID : Word} {t : Transfer}
    (h : Exported fr atomic claimID t w w') : Trace fr.hashes fr.host w w' := by
  have hrecorded : Inner w (exportedWorld fr atomic claimID t w) := by
    have hwritten : ¬ (Slot.claimWritten claimID).IsAdmin := fun hc => hc
    have hcustody : ¬ (Slot.custody t.asset).IsAdmin := fun hc => hc
    refine .of_journal_cons rfl ?_ ?_
    · exact fun hc => hc
    · intro slot hslot
      exact exportedStorage_of_ne fr atomic claimID t w.storage hslot.not_stage
        (Slot.ne_of hslot hwritten) (Slot.ne_of hslot hcustody)
  obtain ⟨-, hmove⟩ | ⟨-, hout⟩ := h.cases hfr hb hguard
  · exact hrecorded.trace.trans (moveNative_inner hmove).trace
  · exact hrecorded.trace.trans hout.trace

theorem Imported.trace (hfr : fr.Guarded) (hb : w.bank.Bounded)
    (hguard : w.storage .custodyGuard ≠ 0) {atomic : Atomic} {claim : Claim}
    {body : ClaimBody} (h : Imported fr atomic claim body w w') :
    Trace fr.hashes fr.host w w' := by
  have hrecorded : Inner w (importedWorld fr atomic claim body w) := by
    have hconsumed : ¬ (Slot.claimConsumed claim.id).IsAdmin := fun hc => hc
    have hcustody : ¬ (Slot.custody body.asset).IsAdmin := fun hc => hc
    refine .of_journal_cons rfl ?_ ?_
    · exact fun hc => hc
    · intro slot hslot
      exact importedStorage_of_ne fr atomic claim.id body w.storage hslot.not_stage
        (Slot.ne_of hslot hconsumed) (Slot.ne_of hslot hcustody)
  obtain ⟨-, hmove⟩ | ⟨-, hout⟩ := h.cases hfr hb hguard
  · exact hrecorded.trace.trans (moveNative_inner hmove).trace
  · exact hrecorded.trace.trans hout.trace

theorem Exported.bounded (hfr : fr.Guarded) (hb : w.bank.Bounded)
    (hguard : w.storage .custodyGuard ≠ 0) {atomic : Atomic} {claimID : Word} {t : Transfer}
    (h : Exported fr atomic claimID t w w') : w'.bank.Bounded := by
  have hb' : (exportedWorld fr atomic claimID t w).bank.Bounded := hb
  obtain ⟨-, hmove⟩ | ⟨-, hout⟩ := h.cases hfr hb hguard
  · exact moveNative_bounded hb' hmove
  · exact hout.bounded hb'

theorem Imported.bounded (hfr : fr.Guarded) (hb : w.bank.Bounded)
    (hguard : w.storage .custodyGuard ≠ 0) {atomic : Atomic} {claim : Claim}
    {body : ClaimBody} (h : Imported fr atomic claim body w w') : w'.bank.Bounded := by
  have hb' : (importedWorld fr atomic claim body w).bank.Bounded := hb
  obtain ⟨-, hmove⟩ | ⟨-, hout⟩ := h.cases hfr hb hguard
  · exact moveNative_bounded hb' hmove
  · exact hout.bounded hb'

theorem enter_guard (w : World) : w.enter.storage .custodyGuard ≠ 0 := by
  rw [World.enter, World.withStorage_storage, Storage.set_self]
  decide

theorem enter_storage_of_ne (w : World) {slot : Slot} (h : slot ≠ .custodyGuard) :
    w.enter.storage slot = w.storage slot :=
  Storage.set_of_ne h _ _

theorem leave_storage_of_ne (w : World) {slot : Slot} (h : slot ≠ .custodyGuard) :
    w.leave.storage slot = w.storage slot :=
  Storage.set_of_ne h _ _

theorem Committed.inner {atomic : Atomic} {key : PoolKey} {params : ModifyLiquidityParams}
    {side : MakerSide} {lockedAsset orderID claimID : Word} {st : Storage} {w1 : World}
    (h : Committed fr atomic key params side lockedAsset orderID claimID st w w1 w') :
    Inner w1 w' := by
  rw [h.final]
  refine .of_journal_cons rfl ?_ ?_
  · exact fun hc => hc
  · intro slot hslot
    rw [← h.final]
    exact h.frame hslot.not_position

theorem Requested.inner {orderID : Word} {st : Storage} (h : Requested fr orderID st w w') :
    Inner w w' := by
  rw [h.final]
  refine .of_journal_cons rfl ?_ ?_
  · exact fun hc => hc
  · intro slot hslot
    exact storeRestingOrder_frame h.stored hslot.not_position

theorem recordDeposit_admin {st st' : Storage} {account : Address} {asset : Word} {amount : ℕ}
    (h : recordDeposit st account asset amount = .ok st') {slot : Slot} (hslot : slot.IsAdmin) :
    st' slot = st slot := by
  have hclaim : ¬ (Slot.depositorClaim account asset).IsAdmin := fun hc => hc
  have hvault : ¬ (Slot.settleVault asset).IsAdmin := fun hc => hc
  exact recordDeposit_of_ne h (Slot.ne_of hslot hclaim) (Slot.ne_of hslot hvault)

theorem seededWorld_inner (asset : Word) (amount : ℕ) (w : World) :
    Inner w (seededWorld asset amount w) := by
  refine .of_journal_cons rfl ?_ ?_
  · exact fun hc => hc
  · intro slot hslot
    have hcustody : ¬ (Slot.custody asset).IsAdmin := fun hc => hc
    exact Storage.set_of_ne (Slot.ne_of hslot hcustody) _ _

theorem seededWorld_guard (asset : Word) (amount : ℕ) (w : World) :
    (seededWorld asset amount w).storage .custodyGuard = w.storage .custodyGuard := by
  simp [seededWorld]

/-- What a handler does behind the guard is a sequence of primitive changes, and
balances stay words. -/
theorem Operation.trace {selector : ℕ} {data : List UInt8} (hfr : fr.Guarded)
    (hb : w.bank.Bounded) (h : Operation fr selector data w w') :
    Trace fr.hashes fr.host w w' ∧ w'.bank.Bounded := by
  have hguard := enter_guard w
  have hb0 : w.enter.bank.Bounded := hb
  have henter : Trace fr.hashes fr.host w w.enter := (enter_inner w).trace
  cases h with
  | exportSwap _ _ _ _ _ _ hexport =>
      have h := exportClaim_ok hexport
      exact ⟨henter.trans (h.trace hfr hb0 hguard), h.bounded hfr hb0 hguard⟩
  | @importSwap _ _ _ _ _ poolID _ _ st w1 _ _ _ _ _ _ himport hvolume =>
      obtain ⟨body, -, h⟩ := importClaim_ok himport
      have hbounded := h.bounded hfr hb0 hguard
      refine ⟨(henter.trans (h.trace hfr hb0 hguard)).trans ?_, hbounded⟩
      apply Inner.trace
      refine .of_journal_eq rfl ?_
      intro slot hslot
      have hother : ∀ shard, ¬ (Slot.volBucket poolID shard).IsAdmin := fun shard hc => hc
      exact accrueVolume_of_ne hvolume fun shard => Slot.ne_of hslot (hother shard)
  | commit _ _ _ _ _ _ hcommit =>
      obtain ⟨claimID, st, w1, h⟩ := commitPosition_ok hcommit
      have hmoved := h.exported.trace hfr hb0 hguard
      have hbounded := h.exported.bounded hfr hb0 hguard
      refine ⟨(henter.trans hmoved).trans h.inner.trace, ?_⟩
      rw [h.final]
      exact hbounded
  | request _ _ _ _ _ hrequest =>
      obtain ⟨st, h⟩ := requestPositionWithdraw_ok hrequest
      refine ⟨henter.trans h.inner.trace, ?_⟩
      rw [h.final]
      exact hb0
  | collect _ _ _ himport hrecord =>
      obtain ⟨body, -, h⟩ := importClaim_ok himport
      have hbounded := h.bounded hfr hb0 hguard
      refine ⟨(henter.trans (h.trace hfr hb0 hguard)).trans ?_, hbounded⟩
      apply Inner.trace
      refine .of_journal_cons rfl ?_ ?_
      · exact fun hc => hc
      · intro slot hslot
        exact collectPositionRecord_frame hrecord hslot.not_position
  | depositNative _ _ _ _ hrecord =>
      refine ⟨henter.trans (Inner.trace ?_), hb0⟩
      exact .of_journal_eq rfl fun slot hslot => recordDeposit_admin hrecord hslot
  | @depositToken st _ _ _ _ hrecord hpull =>
      have hinner : Inner w.enter (w.enter.withStorage st) :=
        .of_journal_eq rfl fun slot hslot => recordDeposit_admin hrecord hslot
      have hst : (w.enter.withStorage st).storage .custodyGuard ≠ 0 := by
        rwa [World.withStorage_storage, recordDeposit_of_ne hrecord (by simp) (by simp)]
      have hb1 : (w.enter.withStorage st).bank.Bounded := hb0
      have hout := pullERC20Terminal_outside hfr hb1 hst hpull
      exact ⟨(henter.trans hinner.trace).trans hout.trace, hout.bounded hb0⟩
  | withdrawNothing _ => exact ⟨henter, hb0⟩
  | @withdraw _ st st' _ _ _ _ hclaim hvault hpay =>
      have hinner : Inner w.enter (w.enter.withStorage st') := by
        refine .of_journal_eq rfl ?_
        intro slot hslot
        have hother : ∀ asset, ¬ (Slot.settleVault asset).IsAdmin := fun asset hc => hc
        have hother' : ∀ asset, ¬ (Slot.depositorClaim fr.caller asset).IsAdmin :=
          fun asset hc => hc
        show st' slot = w.enter.storage slot
        rw [storeAmount_of_ne hvault (Slot.ne_of hslot (hother _)),
          storeAmount_of_ne hclaim (Slot.ne_of hslot (hother' _))]
      have hb1 : (w.enter.withStorage st').bank.Bounded := hb0
      obtain ⟨-, hmove⟩ | ⟨-, hpush⟩ := payWithdrawal_ok hpay
      · exact ⟨(henter.trans hinner.trace).trans (moveNative_inner hmove).trace,
          moveNative_bounded hb1 hmove⟩
      · have hst : (w.enter.withStorage st').storage .custodyGuard ≠ 0 := by
          rwa [World.withStorage_storage, storeAmount_of_ne hvault (by simp),
            storeAmount_of_ne hclaim (by simp)]
        have hout := transferToken_outside hfr hb1 hst hpush
        exact ⟨(henter.trans hinner.trace).trans hout.trace, hout.bounded hb0⟩
  | @seed token amount _ _ _ _ hreceive =>
      obtain ⟨-, -, -, -, rfl⟩ | ⟨-, -, -, hpull⟩ := receiveOperatorValue_ok hreceive
      · exact ⟨henter.trans (seededWorld_inner _ _ _).trace, hb0⟩
      · have hb1 : (seededWorld (assetID token) amount w.enter).bank.Bounded := hb0
        have hout := pullERC20Terminal_outside hfr hb1 (by rwa [seededWorld_guard]) hpull
        exact ⟨(henter.trans (seededWorld_inner _ _ _).trace).trans hout.trace,
          hout.bounded hb0⟩

end Traces

/-- One action of a run is a sequence of primitive changes, and balances stay
words. -/
theorem exec_trace (hashes : Hashes) {w : World} (hb : w.bank.Bounded) (a : Action) :
    Trace hashes a.env.host w (exec hashes w a) ∧ (exec hashes w a).bank.Bounded := by
  obtain hout | ⟨r, -, ⟨hran⟩⟩ := exec_cases hashes hb a
  · exact ⟨hout.trace, hout.bounded hb⟩
  · have hdelivered : Outside hashes a.env.host w hran.entered :=
      deliverValue_outside hb hran.delivered
    obtain ⟨htrace, hbounded⟩ := hran.operation.trace (frameOf_guarded _ _ _ _ _)
      (hdelivered.bounded hb)
    rw [hran.final]
    exact ⟨(hdelivered.trace.trans htrace).trans (leave_inner hran.left).trace, hbounded⟩

end LuxPrecompile.Settle
