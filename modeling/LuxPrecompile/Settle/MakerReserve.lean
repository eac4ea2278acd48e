import LuxPrecompile.Settle.Position
import LuxPrecompile.Support.Sums

/-!
# The reserve behind the positions

`lockedReserve` keeps, for each owner and asset, the total of what the owner's live
positions hold in that asset (`dex/position_commit.go`).  The id of a position says nothing
of its side, so a commit may find an open record that rests the other asset; it then moves
the whole record there and the two fall apart.  In every run without such a commit the
reserve is that total in each state, a collect releases no more than the reserve has, and
no position is paid from the reserve of another.
-/

namespace LuxPrecompile.Settle

open Dex Evm Support

variable {hashes : Hashes} {host : Host} {fr : Frame} {w w' : World} {o : RestingOrder}
  {owner : Address} {asset : Word}

/-! ## What a position holds -/

/-- What a record holds for an owner in an asset. -/
def RestingOrder.share (o : RestingOrder) (owner : Address) (asset : Word) : ℕ :=
  if o.Live ∧ o.owner = owner ∧ o.lockedAsset = asset then o.lockedAmt else 0

/-- What all live positions of an owner hold in an asset. -/
noncomputable def liveLocked (w : World) (owner : Address) (asset : Word) : ℕ :=
  ∑ id : Word, (w.order id).share owner asset

/-- The reserve is what the positions hold. -/
structure ReserveKept (w : World) : Prop where
  kept : ∀ id, (w.order id).Kept
  reserve : ∀ owner asset, loadLockedReserve w.storage owner asset = liveLocked w owner asset

theorem ReserveKept.of_genesis (h : Genesis w) : ReserveKept w := by
  have hzero : ∀ id, w.order id = RestingOrder.zero := by
    intro id
    show loadRestingOrder w.storage id = _
    rw [h.storage_empty, loadRestingOrder_empty]
  constructor
  · intro id
    rw [hzero]
    exact RestingOrder.zero_kept
  · intro owner asset
    have hnone : ∀ id ∈ Finset.univ, (w.order id).share owner asset = 0 := by
      intro id _
      have hdead : ¬ RestingOrder.zero.Live := fun hc => absurd rfl hc.ne_none
      rw [hzero, RestingOrder.share, if_neg fun hc => hdead hc.1]
    rw [liveLocked, Finset.sum_eq_zero hnone, h.storage_empty]
    rfl

/-! ## Changes that leave positions alone -/

/-- No word of a position, an index or a reserve has changed. -/
def PositionsKept (w w' : World) : Prop :=
  ∀ slot : Slot, slot.IsPosition → w'.storage slot = w.storage slot

theorem PositionsKept.trans {w'' : World} (h : PositionsKept w w')
    (h' : PositionsKept w' w'') : PositionsKept w w'' := by
  intro slot hslot
  rw [h' slot hslot, h slot hslot]

theorem Slot.IsPosition.not_stage {slot : Slot} (h : slot.IsPosition) : ¬ slot.IsStage := by
  intro hstage
  cases slot <;> first | exact hstage | exact h

theorem Outside.positions (h : Outside hashes host w w') : PositionsKept w w' := by
  intro slot hslot
  apply h.storage
  · intro hmarket
    cases slot <;> first | exact hmarket | exact hslot
  · intro hhalt
    cases slot <;> first | exact hhalt | exact hslot

theorem custodyGuard_not_position : ¬ Slot.custodyGuard.IsPosition := fun hc => hc

theorem enter_positions (w : World) : PositionsKept w w.enter :=
  fun _ hslot => enter_storage_of_ne w (Slot.ne_of hslot custodyGuard_not_position)

theorem leave_positions (w : World) : PositionsKept w w.leave :=
  fun _ hslot => leave_storage_of_ne w (Slot.ne_of hslot custodyGuard_not_position)

theorem moveNative_positions {sender recipient : Address} {amount : ℕ} {short : Error}
    (h : moveNative w sender recipient amount short = .ok w') : PositionsKept w w' := by
  obtain ⟨-, -, rfl⟩ := moveNative_ok h
  exact fun _ _ => rfl

theorem Exported.positions (hfr : fr.Guarded) (hb : w.bank.Bounded)
    (hguard : w.storage .custodyGuard ≠ 0) {atomic : Atomic} {claimID : Word} {t : Transfer}
    (h : Exported fr atomic claimID t w w') : PositionsKept w w' := by
  have hrecorded : PositionsKept w (exportedWorld fr atomic claimID t w) := by
    intro slot hslot
    have hwritten : ¬ (Slot.claimWritten claimID).IsPosition := fun hc => hc
    have hcustody : ¬ (Slot.custody t.asset).IsPosition := fun hc => hc
    exact exportedStorage_of_ne fr atomic claimID t w.storage hslot.not_stage
      (Slot.ne_of hslot hwritten) (Slot.ne_of hslot hcustody)
  obtain ⟨-, hmove⟩ | ⟨-, hout⟩ := h.cases hfr hb hguard
  · exact hrecorded.trans (moveNative_positions hmove)
  · exact hrecorded.trans hout.positions

theorem Imported.positions (hfr : fr.Guarded) (hb : w.bank.Bounded)
    (hguard : w.storage .custodyGuard ≠ 0) {atomic : Atomic} {claim : Claim}
    {body : ClaimBody} (h : Imported fr atomic claim body w w') : PositionsKept w w' := by
  have hrecorded : PositionsKept w (importedWorld fr atomic claim body w) := by
    intro slot hslot
    have hconsumed : ¬ (Slot.claimConsumed claim.id).IsPosition := fun hc => hc
    have hcustody : ¬ (Slot.custody body.asset).IsPosition := fun hc => hc
    exact importedStorage_of_ne fr atomic claim.id body w.storage hslot.not_stage
      (Slot.ne_of hslot hconsumed) (Slot.ne_of hslot hcustody)
  obtain ⟨-, hmove⟩ | ⟨-, hout⟩ := h.cases hfr hb hguard
  · exact hrecorded.trans (moveNative_positions hmove)
  · exact hrecorded.trans hout.positions

theorem recordDeposit_positions {st : Storage} {account : Address} {asset : Word} {amount : ℕ}
    (h : recordDeposit w.storage account asset amount = .ok st) :
    PositionsKept w (w.withStorage st) := by
  intro slot hslot
  have hclaim : ¬ (Slot.depositorClaim account asset).IsPosition := fun hc => hc
  have hvault : ¬ (Slot.settleVault asset).IsPosition := fun hc => hc
  exact recordDeposit_of_ne h (Slot.ne_of hslot hclaim) (Slot.ne_of hslot hvault)

theorem ReserveKept.congr (h : ReserveKept w) (hkept : PositionsKept w w') : ReserveKept w' := by
  have hreserve : ∀ owner asset, (Slot.lockedReserve owner asset).IsPosition :=
    fun owner asset => trivial
  have horder : ∀ id field, (Slot.order id field).IsPosition := fun id field => trivial
  have horders : ∀ id, w'.order id = w.order id := fun id =>
    loadRestingOrder_congr fun field => hkept _ (horder id field)
  constructor
  · intro id
    rw [horders]
    exact h.kept id
  · intro owner asset
    have htotal : liveLocked w' owner asset = liveLocked w owner asset :=
      Finset.sum_congr rfl fun id _ => by rw [horders]
    rw [htotal, ← h.reserve owner asset]
    exact congrArg wordToUint (hkept _ (hreserve owner asset))

/-! ## Changes of one position -/

theorem OrdersKept.refl (w : World) : OrdersKept w w :=
  fun _ _ => rfl

/-- A position and the reserve that move together. -/
theorem ReserveKept.move (h : ReserveKept w) (orderID : Word)
    (hothers : ∀ id, id ≠ orderID → w'.order id = w.order id)
    (hown : (w'.order orderID).Kept)
    (hmove : ∀ owner asset,
      loadLockedReserve w'.storage owner asset + (w.order orderID).share owner asset =
        loadLockedReserve w.storage owner asset + (w'.order orderID).share owner asset) :
    ReserveKept w' := by
  constructor
  · intro id
    by_cases hid : id = orderID
    · rw [hid]
      exact hown
    · rw [hothers id hid]
      exact h.kept id
  · intro owner asset
    have hsum := sum_add_of_eq_off (f := fun id => (w.order id).share owner asset)
      (g := fun id => (w'.order id).share owner asset) orderID
      fun id hid => by rw [hothers id hid]
    change liveLocked w' owner asset + (w.order orderID).share owner asset =
      liveLocked w owner asset + (w'.order orderID).share owner asset at hsum
    have hbefore := h.reserve owner asset
    have hpair := hmove owner asset
    omega

theorem ReserveKept.share_le (h : ReserveKept w) (id : Word) (owner : Address) (asset : Word) :
    (w.order id).share owner asset ≤ loadLockedReserve w.storage owner asset := by
  rw [h.reserve owner asset]
  exact le_sum (fun id => (w.order id).share owner asset) id

/-- A commit that finds an open record rests the asset of that record. -/
def SameSide (o : RestingOrder) (caller : Address) (lockedAsset : Word) : Prop :=
  o.status = .open → o.owner = caller ∧ o.lockedAsset = lockedAsset

/-- After its crossing a commit adds its amount to one reserve. -/
theorem Committed.reserve {atomic : Atomic} {key : PoolKey} {params : ModifyLiquidityParams}
    {side : MakerSide} {lockedAsset orderID claimID : Word} {st : Storage} {w1 : World}
    (h : Committed fr atomic key params side lockedAsset orderID claimID st w w1 w')
    (owner : Address) (asset : Word) :
    loadLockedReserve w'.storage owner asset =
      loadLockedReserve w1.storage owner asset +
        if owner = fr.caller ∧ asset = lockedAsset then params.liquidityDelta.toNat else 0 := by
  have hst : w'.storage (.lockedReserve owner asset) = (w1.storage.set
      (.lockedReserve fr.caller lockedAsset) (BitVec.ofNat 256
        (loadLockedReserve w1.storage fr.caller lockedAsset + params.liquidityDelta.toNat)))
      (.lockedReserve owner asset) := by
    rw [h.final, World.record_storage, World.withStorage_storage,
      appendOwnerOrder_of_ne _ _ _ (by simp) (by simp) (by simp), Storage.set_of_ne (by simp),
      storeRestingOrder_of_ne h.stored (by simp)]
  by_cases hsame : owner = fr.caller ∧ asset = lockedAsset
  · obtain ⟨rfl, rfl⟩ := hsame
    rw [if_pos ⟨rfl, rfl⟩, loadLockedReserve, loadAmount, hst]
    exact loadAmount_set_self _ _ h.room
  · have hne : Slot.lockedReserve owner asset ≠ .lockedReserve fr.caller lockedAsset := by
      simpa using hsame
    rw [if_neg hsame, add_zero, loadLockedReserve, loadAmount, hst, Storage.set_of_ne hne]
    rfl

theorem ReserveKept.commit {atomic : Atomic} {key : PoolKey} {params : ModifyLiquidityParams}
    {hookData input : List UInt8} {lockedAsset orderID claimID : Word} {st : Storage}
    {w0 w1 : World}
    (h : Committed fr atomic key params (decodeMakerSide hookData) lockedAsset orderID claimID
      st w0 w1 w')
    (hdecode : decodeModifyLiquidityInput input = .ok (key, params, hookData))
    (hw : ReserveKept w1) (hside : SameSide (w1.order orderID) fr.caller lockedAsset) :
    ReserveKept w' := by
  have hroom := (storeRestingOrder_ok h.stored).1
  have hstorable := committedOrder_storable hdecode hroom
  obtain ⟨hown, hothers⟩ := h.order hstorable
  have hrecord := h.record hdecode (OrdersKept.refl w1) orderID
  refine hw.move orderID hothers (hrecord.kept (hw.kept orderID)) fun owner asset => ?_
  rw [h.reserve owner asset, hown]
  have hnew : (committedOrder fr key params (decodeMakerSide hookData) lockedAsset
      (w1.order orderID)).share owner asset =
      if owner = fr.caller ∧ asset = lockedAsset then
        (committedOrder fr key params (decodeMakerSide hookData) lockedAsset
          (w1.order orderID)).lockedAmt
      else 0 := by
    have hlive : (committedOrder fr key params (decodeMakerSide hookData) lockedAsset
        (w1.order orderID)).Live := .inl rfl
    refine if_congr ⟨?_, ?_⟩ rfl rfl
    · rintro ⟨-, rfl, rfl⟩
      exact ⟨rfl, rfl⟩
    · rintro ⟨rfl, rfl⟩
      exact ⟨hlive, rfl, rfl⟩
  by_cases hopen : (w1.order orderID).status = .open
  · obtain ⟨howner, hasset⟩ := hside hopen
    have hold : (w1.order orderID).share owner asset =
        if owner = fr.caller ∧ asset = lockedAsset then (w1.order orderID).lockedAmt else 0 := by
      refine if_congr ⟨?_, ?_⟩ rfl rfl
      · rintro ⟨-, hc, hc'⟩
        exact ⟨hc.symm.trans howner, hc'.symm.trans hasset⟩
      · rintro ⟨hc, hc'⟩
        exact ⟨.inl hopen, howner.trans hc.symm, hasset.trans hc'.symm⟩
    rw [hnew, hold, committedOrder_lockedAmt, if_pos hopen]
    split_ifs
    · ring
    · ring
  · have hdead : ¬ (w1.order orderID).Live := by
      rintro (hc | hc)
      · exact hopen hc
      · exact h.unclosed hc
    have hold : (w1.order orderID).share owner asset = 0 := if_neg fun hc => hdead hc.1
    rw [hnew, hold, committedOrder_lockedAmt, if_neg hopen, add_zero]

theorem RestingOrder.share_closing (h : o.Live) (owner : Address) (asset : Word) :
    ({ o with status := .closing } : RestingOrder).share owner asset = o.share owner asset := by
  have hclosing : ({ o with status := .closing } : RestingOrder).Live := .inr rfl
  exact if_congr ⟨fun hc => ⟨h, hc.2⟩, fun hc => ⟨hclosing, hc.2⟩⟩ rfl rfl

theorem ReserveKept.request {orderID : Word} {st : Storage}
    (h : Requested fr orderID st w w') (hw : ReserveKept w) : ReserveKept w' := by
  have hlive : (w.order orderID).Live := (hw.kept orderID).live h.known h.unclosed
  obtain ⟨hown, hothers⟩ := h.order ((hw.kept orderID).storable hlive.ne_none)
  have hrecord := h.record (OrdersKept.refl w) (hw.kept orderID) orderID
  refine hw.move orderID hothers (hrecord.kept (hw.kept orderID)) fun owner asset => ?_
  have hshare : (w'.order orderID).share owner asset = (w.order orderID).share owner asset := by
    rw [hown]
    exact RestingOrder.share_closing hlive owner asset
  have hreserve : w'.storage (.lockedReserve owner asset) =
      w.storage (.lockedReserve owner asset) := by
    rw [h.final]
    exact storeRestingOrder_of_ne h.stored (by simp)
  rw [hshare, loadLockedReserve, loadAmount, hreserve]
  rfl

/-- A collect releases from the record and from the reserve the same amount. -/
theorem RestingOrder.share_collect (h : o.Live) (amount : ℕ) (owner : Address) (asset : Word) :
    (o.collect amount).share owner asset +
        (if o.owner = owner ∧ o.lockedAsset = asset then min amount o.lockedAmt else 0) =
      o.share owner asset := by
  have hle : min amount o.lockedAmt ≤ o.lockedAmt := min_le_right _ _
  have hamount : (o.collect amount).lockedAmt = o.lockedAmt - min amount o.lockedAmt := rfl
  by_cases hmatch : o.owner = owner ∧ o.lockedAsset = asset
  · have hold : o.share owner asset = o.lockedAmt := if_pos ⟨h, hmatch⟩
    have hnew : (o.collect amount).share owner asset = o.lockedAmt - min amount o.lockedAmt := by
      by_cases hlive : (o.collect amount).Live
      · exact if_pos ⟨hlive, hmatch⟩
      · have hzero : (o.collect amount).lockedAmt = 0 :=
          Nat.eq_zero_of_not_pos fun hc => hlive ((o.collect_live h amount).mpr hc)
        rw [← hamount, hzero]
        exact if_neg fun hc => hlive hc.1
    rw [hold, hnew, if_pos hmatch]
    omega
  · have hold : o.share owner asset = 0 := if_neg fun hc => hmatch hc.2
    have hnew : (o.collect amount).share owner asset = 0 := if_neg fun hc => hmatch hc.2
    rw [hold, hnew, if_neg hmatch]

/-- What a collect leaves in the reserves: the reserve of its record has enough. -/
theorem collectPositionRecord_reserve {st st' : Storage} {positionID : Word}
    {caller : Address} {amount : UInt64}
    (h : collectPositionRecord st positionID caller amount = .ok st')
    (hlive : (loadRestingOrder st positionID).Live)
    (hbacked : (loadRestingOrder st positionID).lockedAmt ≤
      loadLockedReserve st caller (loadRestingOrder st positionID).lockedAsset)
    (owner : Address) (asset : Word) :
    loadLockedReserve st' owner asset +
        (if (loadRestingOrder st positionID).owner = owner ∧
            (loadRestingOrder st positionID).lockedAsset = asset then
          min amount.toNat (loadRestingOrder st positionID).lockedAmt else 0) =
      loadLockedReserve st owner asset := by
  obtain ⟨hdead, -⟩ | ⟨-, howner, st1, hstore, hreserve⟩ := collectPositionRecord_ok h
  · exact absurd hlive hdead
  have hsame : ∀ owner asset, loadLockedReserve st1 owner asset =
      loadLockedReserve st owner asset := by
    intro owner asset
    exact congrArg wordToUint (storeRestingOrder_of_ne hstore (by simp))
  rw [hsame] at hreserve
  obtain ⟨hroom, hst⟩ := storeAmount_ok hreserve
  rw [howner]
  by_cases hmatch : caller = owner ∧ (loadRestingOrder st positionID).lockedAsset = asset
  · obtain ⟨rfl, rfl⟩ := hmatch
    rw [if_pos ⟨rfl, rfl⟩, hst, loadLockedReserve, loadAmount_set_self _ _ hroom]
    omega
  · have hne : Slot.lockedReserve owner asset ≠
        .lockedReserve caller (loadRestingOrder st positionID).lockedAsset := by
      intro hc
      obtain ⟨hcaller, hasset⟩ := Slot.lockedReserve.inj hc
      exact hmatch ⟨hcaller.symm, hasset.symm⟩
    rw [if_neg hmatch, add_zero, hst, loadLockedReserve, loadAmount_set_of_ne hne]
    exact hsame owner asset

theorem ReserveKept.collect {st : Storage} {positionID : Word} {caller : Address}
    {amount : UInt64} (h : collectPositionRecord w.storage positionID caller amount = .ok st)
    (hw : ReserveKept w) {e : Entry} : ReserveKept ((w.withStorage st).record e) := by
  have hrecord := collectPositionRecord_record h (OrdersKept.refl w)
    (hw.kept positionID) positionID
  obtain ⟨hown, hothers⟩ :=
    collectPositionRecord_order h fun hlive => (hw.kept positionID).storable hlive.ne_none
  refine hw.move positionID hothers (hrecord.kept (hw.kept positionID)) fun owner asset => ?_
  obtain ⟨hdead, hsame⟩ | ⟨hlive, howner, hcollected⟩ := hown
  · obtain ⟨-, rfl⟩ | ⟨hlive, -⟩ := collectPositionRecord_ok h
    · rfl
    · exact absurd hlive hdead
  · have hheld := hw.share_le positionID caller (w.order positionID).lockedAsset
    have hshare : (w.order positionID).share caller (w.order positionID).lockedAsset =
        (w.order positionID).lockedAmt := if_pos ⟨hlive, howner, rfl⟩
    rw [hshare] at hheld
    have hreserve := collectPositionRecord_reserve h hlive hheld owner asset
    have hmoved : ((w.order positionID).collect amount.toNat).share owner asset +
        (if (loadRestingOrder w.storage positionID).owner = owner ∧
            (loadRestingOrder w.storage positionID).lockedAsset = asset then
          min amount.toNat (loadRestingOrder w.storage positionID).lockedAmt else 0) =
        (w.order positionID).share owner asset :=
      RestingOrder.share_collect hlive amount.toNat owner asset
    have hfinal : ((w.withStorage st).record e).order positionID =
        (w.order positionID).collect amount.toNat := hcollected
    rw [hfinal]
    show loadLockedReserve st owner asset + (w.order positionID).share owner asset = _
    rw [← hreserve, ← hmoved]
    ring

/-! ## Handlers -/

/-- The action is no commit, carried out on an open record, that rests the other asset. -/
def CommitsSameSide (hashes : Hashes) (w : World) (a : Action) : Prop :=
  ∀ r key params hookData, a.interaction = .enter r →
    (call hashes a.env a.depth w r).isOk = true → selectorOf r.input = selModifyLiquidity →
    decodeModifyLiquidityInput (r.input.drop 4) = .ok (key, params, hookData) →
    0 < params.liquidityDelta →
    SameSide (w.order (makerOrderID hashes r.caller (key.id hashes) params.salt
      params.tickLower params.tickUpper)) r.caller
      (lockedAssetForSide key (decodeMakerSide hookData))

/-- A handler keeps the reserve, unless it commits to the other side of an open record. -/
theorem Operation.reserveKept {selector : ℕ} {data : List UInt8} (hfr : fr.Guarded)
    (hb : w.bank.Bounded) (hw : ReserveKept w)
    (hside : ∀ key params hookData, selector = selModifyLiquidity →
      decodeModifyLiquidityInput data = .ok (key, params, hookData) →
      0 < params.liquidityDelta →
      SameSide (w.order (makerOrderID fr.hashes fr.caller (key.id fr.hashes) params.salt
        params.tickLower params.tickUpper)) fr.caller
        (lockedAssetForSide key (decodeMakerSide hookData)))
    (h : Operation fr selector data w w') : ReserveKept w' := by
  have hguard := enter_guard w
  have hb0 : w.enter.bank.Bounded := hb
  have henter := enter_positions w
  cases h with
  | exportSwap _ _ _ _ _ _ hexport =>
      exact hw.congr (henter.trans ((exportClaim_ok hexport).positions hfr hb0 hguard))
  | @importSwap _ _ _ _ _ poolID _ _ st w1 _ _ _ _ _ _ himport hvolume =>
      obtain ⟨body, -, himported⟩ := importClaim_ok himport
      refine hw.congr ((henter.trans (himported.positions hfr hb0 hguard)).trans ?_)
      intro slot hslot
      have hother : ∀ shard, ¬ (Slot.volBucket poolID shard).IsPosition := fun shard hc => hc
      exact accrueVolume_of_ne hvolume fun shard => Slot.ne_of hslot (hother shard)
  | @commit _ key params hookData _ _ _ _ hselector hdecode _ _ hmarket hpositive hcommit =>
      obtain ⟨rfl, -⟩ := marketFor_eq_some hmarket
      obtain ⟨claimID, st, w1, hcommitted⟩ := commitPosition_ok hcommit
      have hmoved : PositionsKept w w1 :=
        henter.trans (hcommitted.exported.positions hfr hb0 hguard)
      have horder : ∀ id, w1.order id = w.order id := fun id =>
        loadRestingOrder_congr fun field => hmoved _ trivial
      refine ReserveKept.commit hcommitted hdecode (hw.congr hmoved) ?_
      rw [horder]
      exact hside key params hookData hselector hdecode hpositive
  | request _ _ _ _ _ hrequest =>
      obtain ⟨st, hrequested⟩ := requestPositionWithdraw_ok hrequest
      exact ReserveKept.request hrequested (hw.congr henter)
  | collect _ _ _ himport hrecord =>
      obtain ⟨body, -, himported⟩ := importClaim_ok himport
      exact ReserveKept.collect hrecord
        (hw.congr (henter.trans (himported.positions hfr hb0 hguard)))
  | depositNative _ _ _ _ hrecord =>
      exact hw.congr (henter.trans (recordDeposit_positions hrecord))
  | @depositToken st _ _ _ _ hrecord hpull =>
      have hst : (w.enter.withStorage st).storage .custodyGuard ≠ 0 := by
        rwa [World.withStorage_storage, recordDeposit_of_ne hrecord (by simp) (by simp)]
      have hb1 : (w.enter.withStorage st).bank.Bounded := hb0
      exact hw.congr ((henter.trans (recordDeposit_positions hrecord)).trans
        (pullERC20Terminal_outside hfr hb1 hst hpull).positions)
  | withdrawNothing _ => exact hw.congr henter
  | @withdraw realized st st' _ _ _ _ hclaim hvault hpay =>
      have hst : (w.enter.withStorage st').storage .custodyGuard ≠ 0 := by
        rwa [World.withStorage_storage, storeAmount_of_ne hvault (by simp),
          storeAmount_of_ne hclaim (by simp)]
      have hb1 : (w.enter.withStorage st').bank.Bounded := hb0
      have hrecorded : PositionsKept w.enter (w.enter.withStorage st') := by
        intro slot hslot
        have hclaim' : ∀ asset, ¬ (Slot.depositorClaim fr.caller asset).IsPosition :=
          fun asset hc => hc
        have hvault' : ∀ asset, ¬ (Slot.settleVault asset).IsPosition := fun asset hc => hc
        rw [World.withStorage_storage, storeAmount_of_ne hvault (Slot.ne_of hslot (hvault' _)),
          storeAmount_of_ne hclaim (Slot.ne_of hslot (hclaim' _))]
      refine hw.congr ((henter.trans hrecorded).trans ?_)
      obtain ⟨-, hmove⟩ | ⟨-, hpush⟩ := payWithdrawal_ok hpay
      · exact moveNative_positions hmove
      · exact (transferToken_outside hfr hb1 hst hpush).positions
  | @seed token amount delivered _ _ _ hreceive =>
      have hseeded : ∀ asset amount,
          PositionsKept w.enter (seededWorld asset amount w.enter) := by
        intro asset amount slot hslot
        have hcustody : ¬ (Slot.custody asset).IsPosition := fun hc => hc
        exact Storage.set_of_ne (Slot.ne_of hslot hcustody) _ _
      obtain ⟨-, -, -, -, rfl⟩ | ⟨-, -, -, hpull⟩ := receiveOperatorValue_ok hreceive
      · exact hw.congr (henter.trans (hseeded 0 delivered))
      · have hb1 : (seededWorld (assetID token) amount w.enter).bank.Bounded := hb0
        have hout := pullERC20Terminal_outside hfr hb1 (by rwa [seededWorld_guard]) hpull
        exact hw.congr ((henter.trans (hseeded _ _)).trans hout.positions)

/-! ## Runs -/

/-- An action keeps the reserve, unless it commits to the other side of an open record. -/
theorem exec_reserveKept (hb : w.bank.Bounded) (hw : ReserveKept w) {a : Action}
    (hside : CommitsSameSide hashes w a) : ReserveKept (exec hashes w a) := by
  obtain hout | ⟨r, hr, ⟨hran⟩⟩ := exec_cases hashes hb a
  · exact hw.congr hout.positions
  cases hcall : call hashes a.env a.depth w r with
  | error e =>
      rw [exec_refused hr hcall]
      exact hw
  | ok result =>
      have hok : (call hashes a.env a.depth w r).isOk = true := by rw [hcall]; rfl
      have hdelivered : Outside hashes a.env.host w hran.entered :=
        deliverValue_outside hb hran.delivered
      have hentered : ReserveKept hran.entered := hw.congr hdelivered.positions
      have horder : ∀ id, hran.entered.order id = w.order id := hdelivered.orders.order
      rw [hran.final]
      refine ReserveKept.congr ?_ (leave_positions hran.left)
      refine hran.operation.reserveKept (frameOf_guarded _ _ _ _ _)
        (hdelivered.bounded hb) hentered ?_
      intro key params hookData hselector hdecode hpositive
      rw [horder]
      exact hside r key params hookData hr hok hselector hdecode hpositive

/-- In every run in which no commit finds an open record of the other side, the reserve of
each owner and asset is what the owner's live positions hold in it, in every state. -/
theorem reserve_kept (hashes : Hashes) {w₀ : World} (hgenesis : Genesis w₀)
    (actions : List Action)
    (hside : Along (exec hashes) (CommitsSameSide hashes) w₀ actions) :
    ReserveKept (runFrom hashes w₀ actions) := by
  have hb := hgenesis.bounded
  have hw := ReserveKept.of_genesis hgenesis
  clear hgenesis
  induction actions generalizing w₀ with
  | nil => exact hw
  | cons a actions ih =>
      rw [runFrom_cons]
      exact ih hside.2 (exec_trace hashes hb a).2 (exec_reserveKept hb hw hside.1)

theorem sampleModify_sameSide {tx : Word} {delta : ℤ} (hookData : List UInt8)
    (hdecoded : decodeModifyLiquidityInput (wordBytes (sampleKeyArgs ++
      [intWord (-60), intWord 60, intWord delta, 1])) =
        .ok (sampleKey, ⟨-60, 60, delta, 1⟩, hookData))
    (hside : SameSide (w.order sampleOrder) 0xA11CE
      (lockedAssetForSide sampleKey (decodeMakerSide hookData))) :
    CommitsSameSide sampleHashes w (sampleModify tx delta) := by
  have horder : makerOrderID sampleHashes 0xA11CE (sampleKey.id sampleHashes) 1 (-60) 60 =
      sampleOrder := by decide +kernel
  intro r key params hookData' hr _ _ hdecode _
  rw [← Interaction.enter.inj hr] at hdecode ⊢
  obtain ⟨rfl, rfl, rfl⟩ : key = sampleKey ∧ params = ⟨-60, 60, delta, 1⟩ ∧
      hookData' = hookData := by
    have hdrop := hdecode.symm.trans hdecoded
    simpa using hdrop
  dsimp only
  rw [horder]
  exact hside

/-- A registration, a commit to a new position, and one that adds to it. -/
theorem reserve_kept_sample :
    ReserveKept (runFrom sampleHashes fundedWorld
        [sampleInitialize, sampleModify 1 100, sampleModify 2 50]) ∧
      loadLockedReserve (runFrom sampleHashes fundedWorld
        [sampleInitialize, sampleModify 1 100, sampleModify 2 50]).storage 0xA11CE 0 = 150 := by
  refine ⟨reserve_kept sampleHashes fundedWorld_genesis _ ⟨?_, ?_, ?_, trivial⟩, by
    decide +kernel⟩
  · intro r key params hookData hr _ hselector
    rw [← Interaction.enter.inj hr] at hselector
    exact absurd ((selectorOf_append (by decide) _).symm.trans hselector) (by decide)
  · refine sampleModify_sameSide [] (by decide +kernel) fun hopen => ?_
    exfalso
    revert hopen
    decide +kernel
  · refine sampleModify_sameSide [] (by decide +kernel) fun _ => ?_
    decide +kernel

end LuxPrecompile.Settle
