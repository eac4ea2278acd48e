import LuxPrecompile.Settle.Effects

/-!
# The life of a position

The records of `dex/position_commit.go`.  A successful call commits to one record,
asks for its withdrawal or collects against it, and leaves all other records alone.
The tally of a record counts what was committed and collected since it was last
opened; over every run the record holds the difference.
-/

namespace LuxPrecompile.Settle

open Dex Evm Support

/-! ## Calls on positions -/

/-- What a call asks of a position. -/
inductive PositionCall
  | commit (orderID : Word) (amount : ℕ)
  | request (orderID : Word)
  | collect (orderID : Word) (amount : ℕ)
deriving DecidableEq

/-- The position a call is about. -/
def PositionCall.orderID : PositionCall → Word
  | .commit orderID _ => orderID
  | .request orderID => orderID
  | .collect orderID _ => orderID

/-- The bytes a `modifyLiquidity` call hashes to its order id. -/
def orderBytes (hashes : Hashes) (caller : Address) (selector : ℕ) (data : List UInt8) :
    Option (List UInt8) :=
  if selector = selModifyLiquidity then
    match decodeModifyLiquidityInput data with
    | .ok (key, params, _) =>
        some (makerOrderBytes caller (key.id hashes) params.salt params.tickLower
          params.tickUpper)
    | .error _ => none
  else none

/-- What the calldata asks of a position, if anything. -/
def positionCall (hashes : Hashes) (caller : Address) (selector : ℕ) (data : List UInt8) :
    Option PositionCall :=
  if selector = selModifyLiquidity then
    match decodeModifyLiquidityInput data with
    | .ok (key, params, _) =>
        let orderID := makerOrderID hashes caller (key.id hashes) params.salt
          params.tickLower params.tickUpper
        some (if 0 < params.liquidityDelta then .commit orderID params.liquidityDelta.toNat
          else .request orderID)
    | .error _ => none
  else if selector = selCollectPosition then
    (decodeClaim (slice data 96 (96 + claimSize))).map fun body =>
      .collect (argWord data 64) body.amount.toNat
  else none

/-- What an action of a run did to the positions: nothing unless its call went
through. -/
def performed (hashes : Hashes) (w : World) (a : Action) : Option PositionCall :=
  match a.interaction with
  | .enter r =>
      if (call hashes a.env a.depth w r).isOk then
        positionCall hashes r.caller (selectorOf r.input) (r.input.drop 4)
      else none
  | _ => none

/-! ## What a call does to a record -/

variable {hashes : Hashes} {host : Host} {fr : Frame} {w w' : World}
  {caller : Address} {called : Option PositionCall} {id : Word} {o o' : RestingOrder}

instance (o : RestingOrder) : Decidable o.Live :=
  inferInstanceAs (Decidable (_ ∨ _))

/-- The change of the record under an id by a call. -/
inductive RecordStep (caller : Address) (called : Option PositionCall) (id : Word) :
    RestingOrder → RestingOrder → Prop
  | other {o : RestingOrder} (h : ∀ c, called = some c → c.orderID ≠ id) :
      RecordStep caller called id o o
  | commit {o o' : RestingOrder} {amount : ℕ}
      (hcalled : called = some (.commit id amount))
      (hpositive : 0 < amount)
      (hstatus : o.status ≠ .closing)
      (hopen : o'.status = .open)
      (howner : o'.owner = caller)
      (hamount : o'.lockedAmt = if o.status = .open then o.lockedAmt + amount else amount)
      (hstorable : o'.Storable) :
      RecordStep caller called id o o'
  | request {o : RestingOrder}
      (hcalled : called = some (.request id))
      (howner : o.owner = caller)
      (hlive : o.Live) :
      RecordStep caller called id o { o with status := .closing }
  | collect {o : RestingOrder} {amount : ℕ}
      (hcalled : called = some (.collect id amount))
      (howner : o.owner = caller)
      (hlive : o.Live) :
      RecordStep caller called id o (o.collect amount)
  | collectDead {o : RestingOrder} {amount : ℕ}
      (hcalled : called = some (.collect id amount))
      (hdead : ¬ o.Live) :
      RecordStep caller called id o o

/-- A record the handlers keep: it can be stored, and it is live just when it holds
something. -/
structure RestingOrder.Kept (o : RestingOrder) : Prop where
  storable : o.status ≠ .none → o.Storable
  empty : ¬ o.Live → o.lockedAmt = 0
  holds : o.Live → 0 < o.lockedAmt

theorem RestingOrder.Live.ne_none (h : o.Live) : o.status ≠ .none := by
  intro hc
  rw [RestingOrder.Live, hc] at h
  obtain h | h := h <;> cases h

theorem RestingOrder.Kept.live (h : o.Kept) (hnone : o.status ≠ .none)
    (hclosed : o.status ≠ .closed) : o.Live := by
  obtain hopen | hc | hclosing := (h.storable hnone).status
  · exact .inl hopen
  · exact absurd hc hclosed
  · exact .inr hclosing

theorem RestingOrder.zero_kept : RestingOrder.zero.Kept := by
  refine ⟨fun h => absurd rfl h, fun _ => rfl, fun h => absurd rfl h.ne_none⟩

theorem RestingOrder.Storable.closing (h : o.Storable) :
    ({ o with status := .closing } : RestingOrder).Storable :=
  ⟨.inr (.inr rfl), h.side, h.amount, h.lower, h.upper⟩

theorem RestingOrder.Storable.collect (h : o.Storable) (amount : ℕ) :
    (o.collect amount).Storable := by
  refine ⟨?_, h.side, lt_of_le_of_lt (Nat.sub_le _ _) h.amount, h.lower, h.upper⟩
  by_cases hzero : o.lockedAmt - min amount o.lockedAmt = 0
  · exact .inr (.inl (if_pos hzero))
  · have hstatus : (o.collect amount).status = o.status := if_neg hzero
    rw [hstatus]
    exact h.status

theorem RestingOrder.collect_live (h : o.Live) (amount : ℕ) :
    (o.collect amount).Live ↔ 0 < (o.collect amount).lockedAmt := by
  have hstatus : (o.collect amount).status =
      if (o.collect amount).lockedAmt = 0 then .closed else o.status := rfl
  rw [RestingOrder.Live, hstatus]
  split_ifs with hzero
  · simp [hzero]
  · simp only [RestingOrder.Live] at h
    simp [h, Nat.pos_of_ne_zero hzero]

/-- A call keeps a kept record kept. -/
theorem RecordStep.kept (h : RecordStep caller called id o o') (ho : o.Kept) : o'.Kept := by
  cases h with
  | other _ => exact ho
  | commit hcalled hpositive hstatus hopen howner hamount hstorable =>
      refine ⟨fun _ => hstorable, fun hdead => absurd (.inl hopen) hdead, fun _ => ?_⟩
      rw [hamount]
      split_ifs
      · omega
      · exact hpositive
  | request hcalled howner hlive =>
      refine ⟨fun _ => (ho.storable hlive.ne_none).closing, fun hdead => ?_, fun _ => ?_⟩
      · exact absurd (.inr rfl) hdead
      · exact ho.holds hlive
  | @collect amount hcalled howner hlive =>
      have hiff := RestingOrder.collect_live hlive amount
      refine ⟨fun _ => (ho.storable hlive.ne_none).collect _, fun hdead => ?_, hiff.mp⟩
      exact Nat.eq_zero_of_not_pos fun hpos => hdead (hiff.mpr hpos)
  | collectDead _ _ => exact ho

/-- The five ways a status moves. -/
inductive StatusMove (called : Option PositionCall) (id : Word) :
    OrderStatus → OrderStatus → Prop
  | same (s : OrderStatus) : StatusMove called id s s
  | opened : StatusMove called id .none .open
  | requested : StatusMove called id .open .closing
  | collected {s : OrderStatus} (h : s = .open ∨ s = .closing) : StatusMove called id s .closed
  | reopened {amount : ℕ} (h : called = some (.commit id amount)) :
      StatusMove called id .closed .open

theorem RecordStep.status (h : RecordStep caller called id o o') (ho : o.Kept) :
    StatusMove called id o.status o'.status := by
  cases h with
  | other _ => exact .same _
  | commit hcalled hpositive hstatus hopen howner hamount hstorable =>
      rw [hopen]
      by_cases hnone : o.status = .none
      · rw [hnone]
        exact .opened
      obtain hopen' | hclosed | hclosing := (ho.storable hnone).status
      · rw [hopen']
        exact .same _
      · rw [hclosed]
        exact .reopened hcalled
      · exact absurd hclosing hstatus
  | request hcalled howner hlive =>
      obtain hopen | hclosing := hlive
      · rw [hopen]
        exact .requested
      · rw [hclosing]
        exact .same _
  | @collect amount hcalled howner hlive =>
      show StatusMove called id o.status
        (if o.lockedAmt - min amount o.lockedAmt = 0 then .closed else o.status)
      split_ifs
      · exact .collected hlive
      · exact .same _
  | collectDead _ _ => exact .same _

theorem RecordStep.owner (h : RecordStep caller called id o o')
    (hsame : ∀ amount, called = some (.commit id amount) → caller = o.owner) :
    o'.owner = o.owner := by
  cases h with
  | other _ => rfl
  | commit hcalled hpositive hstatus hopen howner hamount hstorable =>
      rw [howner, hsame _ hcalled]
  | request _ _ _ => rfl
  | collect _ _ _ => rfl
  | collectDead _ _ => rfl

theorem RecordStep.caller_eq (h : RecordStep caller called id o o')
    (hsame : ∀ amount, called = some (.commit id amount) → caller = o.owner) (hne : o' ≠ o) :
    (∃ c, called = some c) ∧ caller = o.owner := by
  cases h with
  | other _ => exact absurd rfl hne
  | commit hcalled hpositive hstatus hopen howner hamount hstorable =>
      exact ⟨⟨_, hcalled⟩, hsame _ hcalled⟩
  | request hcalled howner _ => exact ⟨⟨_, hcalled⟩, howner.symm⟩
  | collect hcalled howner _ => exact ⟨⟨_, hcalled⟩, howner.symm⟩
  | collectDead _ hdead => exact absurd rfl hne

theorem RecordStep.not_commit (h : RecordStep caller called id o o')
    (hclosing : o.status = .closing) (amount : ℕ) : called ≠ some (.commit id amount) := by
  intro hc
  cases h with
  | other hother => exact hother _ hc rfl
  | commit hcalled hpositive hstatus hopen howner hamount hstorable =>
      exact hstatus hclosing
  | request hcalled howner hlive => simp [hcalled] at hc
  | collect hcalled howner hlive => simp [hcalled] at hc
  | collectDead hcalled hdead => simp [hcalled] at hc

/-! ## Tallies -/

/-- What was committed to a record and collected against it since it was last
opened. -/
structure Tally where
  committed : ℕ
  collected : ℕ

/-- The tally of a record after a call: a commit to a record that is not live opens
it, and a collect counts up to what remained. -/
def Tally.after (t : Tally) (o : RestingOrder) (id : Word) : Option PositionCall → Tally
  | some (.commit orderID amount) =>
      if orderID ≠ id then t
      else if o.Live then ⟨t.committed + amount, t.collected⟩
      else ⟨amount, 0⟩
  | some (.collect orderID amount) =>
      if orderID ≠ id then t
      else ⟨t.committed, t.collected + min amount (t.committed - t.collected)⟩
  | some (.request _) => t
  | none => t

theorem Tally.after_other (t : Tally) (o : RestingOrder)
    (h : ∀ c, called = some c → c.orderID ≠ id) : t.after o id called = t := by
  cases called with
  | none => rfl
  | some c =>
      have hne := h c rfl
      cases c with
      | commit orderID amount => exact if_pos hne
      | request orderID => rfl
      | collect orderID amount => exact if_pos hne

/-- The record holds what was committed and not collected. -/
theorem RecordStep.tally (h : RecordStep caller called id o o') (ho : o.Kept) {t : Tally}
    (ht : o.lockedAmt + t.collected = t.committed) :
    o'.lockedAmt + (t.after o id called).collected = (t.after o id called).committed := by
  cases h with
  | other hother => rw [Tally.after_other t o hother, ht]
  | @commit _ amount hcalled hpositive hstatus hopen howner hamount hstorable =>
      rw [hcalled, hamount]
      show _ + (if id ≠ id then t else if o.Live then _ else _).collected =
        (if id ≠ id then t else if o.Live then _ else _).committed
      rw [if_neg (not_not.mpr rfl)]
      by_cases hlive : o.Live
      · obtain hopen' | hclosing := hlive
        · rw [if_pos hopen', if_pos (.inl hopen')]
          show o.lockedAmt + amount + t.collected = t.committed + amount
          omega
        · exact absurd hclosing hstatus
      · have hopen' : o.status ≠ .open := fun hc => hlive (.inl hc)
        rw [if_neg hopen', if_neg hlive]
        rfl
  | request hcalled howner hlive =>
      rw [hcalled]
      exact ht
  | @collect amount hcalled howner hlive =>
      rw [hcalled]
      show o.lockedAmt - min amount o.lockedAmt +
          (if id ≠ id then t else (⟨_, _⟩ : Tally)).collected =
        (if id ≠ id then t else (⟨_, _⟩ : Tally)).committed
      rw [if_neg (not_not.mpr rfl)]
      dsimp only
      have hremains : t.committed - t.collected = o.lockedAmt := by omega
      rw [hremains]
      omega
  | @collectDead amount hcalled hdead =>
      rw [hcalled]
      show o.lockedAmt + (if id ≠ id then t else (⟨_, _⟩ : Tally)).collected =
        (if id ≠ id then t else (⟨_, _⟩ : Tally)).committed
      rw [if_neg (not_not.mpr rfl)]
      dsimp only
      have hempty := ho.empty hdead
      have hremains : t.committed - t.collected = 0 := by omega
      rw [hremains]
      omega

/-! ## Position words -/

/-- No position record has changed. -/
def OrdersKept (w w' : World) : Prop :=
  ∀ id field, w'.storage (.order id field) = w.storage (.order id field)

theorem OrdersKept.trans {w'' : World} (h : OrdersKept w w') (h' : OrdersKept w' w'') :
    OrdersKept w w'' := by
  intro id field
  rw [h' id field, h id field]

/-- The record under an id. -/
def World.order (w : World) (id : Word) : RestingOrder := loadRestingOrder w.storage id

theorem OrdersKept.order (h : OrdersKept w w') (id : Word) : w'.order id = w.order id :=
  loadRestingOrder_congr (h id)

theorem Outside.orders (h : Outside hashes host w w') : OrdersKept w w' :=
  fun _ _ => h.storage (fun hc => hc) (fun hc => hc)

theorem enter_orders (w : World) : OrdersKept w w.enter :=
  fun _ _ => enter_storage_of_ne w (by simp)

theorem leave_orders (w : World) : OrdersKept w w.leave :=
  fun _ _ => leave_storage_of_ne w (by simp)

theorem moveNative_orders {sender recipient : Address} {amount : ℕ} {short : Error}
    (h : moveNative w sender recipient amount short = .ok w') : OrdersKept w w' := by
  obtain ⟨-, -, rfl⟩ := moveNative_ok h
  exact fun _ _ => rfl

theorem Exported.orders (hfr : fr.Guarded) (hb : w.bank.Bounded)
    (hguard : w.storage .custodyGuard ≠ 0) {atomic : Atomic} {claimID : Word} {t : Transfer}
    (h : Exported fr atomic claimID t w w') : OrdersKept w w' := by
  have hrecorded : OrdersKept w (exportedWorld fr atomic claimID t w) := by
    intro orderID field
    have hstage : ¬ (Slot.order orderID field).IsStage := fun hc => hc
    exact exportedStorage_of_ne fr atomic claimID t w.storage hstage (by simp) (by simp)
  obtain ⟨-, hmove⟩ | ⟨-, hout⟩ := h.cases hfr hb hguard
  · exact hrecorded.trans (moveNative_orders hmove)
  · exact hrecorded.trans hout.orders

theorem Imported.orders (hfr : fr.Guarded) (hb : w.bank.Bounded)
    (hguard : w.storage .custodyGuard ≠ 0) {atomic : Atomic} {claim : Claim}
    {body : ClaimBody} (h : Imported fr atomic claim body w w') : OrdersKept w w' := by
  have hrecorded : OrdersKept w (importedWorld fr atomic claim body w) := by
    intro orderID field
    have hstage : ¬ (Slot.order orderID field).IsStage := fun hc => hc
    exact importedStorage_of_ne fr atomic claim.id body w.storage hstage (by simp) (by simp)
  obtain ⟨-, hmove⟩ | ⟨-, hout⟩ := h.cases hfr hb hguard
  · exact hrecorded.trans (moveNative_orders hmove)
  · exact hrecorded.trans hout.orders

theorem recordDeposit_orders {st : Storage} {account : Address} {asset : Word} {amount : ℕ}
    (h : recordDeposit w.storage account asset amount = .ok st) :
    OrdersKept w (w.withStorage st) :=
  fun _ _ => recordDeposit_of_ne h (by simp) (by simp)

theorem loadRestingOrder_of_read {st st' : Storage} {orderID : Word}
    (h : ∀ field, field ≠ .commitObject → field ≠ .indexed →
      st' (.order orderID field) = st (.order orderID field)) :
    loadRestingOrder st' orderID = loadRestingOrder st orderID := by
  simp only [loadRestingOrder, loadAmount, h .packed (by simp) (by simp),
    h .owner (by simp) (by simp), h .pool (by simp) (by simp), h .asset (by simp) (by simp),
    h .amount (by simp) (by simp), h .salt (by simp) (by simp)]

theorem loadRestingOrder_storeRestingOrder_of_ne {st st' : Storage} {orderID : Word}
    (h : storeRestingOrder st orderID o = .ok st') (hne : id ≠ orderID) :
    loadRestingOrder st' id = loadRestingOrder st id := by
  apply loadRestingOrder_congr
  intro field
  apply storeRestingOrder_of_ne h
  intro field' hc
  exact hne (Slot.order.inj hc).1

/-! ## Handlers -/

theorem decodeMakerSide_cases (hookData : List UInt8) :
    decodeMakerSide hookData = .bid ∨ decodeMakerSide hookData = .ask := by
  unfold decodeMakerSide
  split_ifs
  · exact .inr rfl
  · exact .inl rfl

theorem decodeModifyLiquidityInput_ok {input hookData : List UInt8} {key : PoolKey}
    {params : ModifyLiquidityParams}
    (h : decodeModifyLiquidityInput input = .ok (key, params, hookData)) :
    (-2 ^ 23 ≤ params.tickLower ∧ params.tickLower < 2 ^ 23) ∧
      (-2 ^ 23 ≤ params.tickUpper ∧ params.tickUpper < 2 ^ 23) := by
  simp only [decodeModifyLiquidityInput, refuse_eq_ok, bind_eq_ok, Except.ok.injEq,
    Prod.mk.injEq] at h
  obtain ⟨-, key', -, hlower, hupper, -, rfl, -⟩ := h
  exact ⟨by simpa [fitsInt24] using hlower, by simpa [fitsInt24] using hupper⟩

theorem committedOrder_lockedAmt (fr : Frame) (key : PoolKey) (params : ModifyLiquidityParams)
    (side : MakerSide) (lockedAsset : Word) (o : RestingOrder) :
    (committedOrder fr key params side lockedAsset o).lockedAmt =
      if o.status = .open then o.lockedAmt + params.liquidityDelta.toNat
      else params.liquidityDelta.toNat :=
  rfl

theorem committedOrder_storable {key : PoolKey} {params : ModifyLiquidityParams}
    {hookData input : List UInt8} {lockedAsset : Word}
    (hdecode : decodeModifyLiquidityInput input = .ok (key, params, hookData))
    (hamount : (committedOrder fr key params (decodeMakerSide hookData) lockedAsset o).lockedAmt <
      2 ^ 256) :
    (committedOrder fr key params (decodeMakerSide hookData) lockedAsset o).Storable := by
  obtain ⟨hlower, hupper⟩ := decodeModifyLiquidityInput_ok hdecode
  exact ⟨.inl rfl, decodeMakerSide_cases hookData, hamount, hlower, hupper⟩

/-- A commit writes the record of its own id. -/
theorem Committed.order {atomic : Atomic} {key : PoolKey} {params : ModifyLiquidityParams}
    {side : MakerSide} {lockedAsset orderID claimID : Word} {st : Storage} {w1 : World}
    (h : Committed fr atomic key params side lockedAsset orderID claimID st w w1 w')
    (hstorable : (committedOrder fr key params side lockedAsset (w1.order orderID)).Storable) :
    w'.order orderID = committedOrder fr key params side lockedAsset (w1.order orderID) ∧
      ∀ id, id ≠ orderID → w'.order id = w1.order id := by
  constructor
  · rw [h.final]
    show loadRestingOrder (appendOwnerOrder (st.set (.order orderID .commitObject) claimID)
      fr.caller orderID) orderID = _
    rw [← loadRestingOrder_storeRestingOrder hstorable h.stored]
    apply loadRestingOrder_of_read
    intro field hobject hindexed
    rw [appendOwnerOrder_of_ne _ _ _ (by simpa using hindexed) (by simp) (by simp),
      Storage.set_of_ne (by simpa using hobject)]
  · intro id hne
    rw [h.final]
    show loadRestingOrder (appendOwnerOrder (st.set (.order orderID .commitObject) claimID)
      fr.caller orderID) id = _
    have hfinal : ∀ field, appendOwnerOrder (st.set (.order orderID .commitObject) claimID)
        fr.caller orderID (.order id field) = st (.order id field) := by
      intro field
      rw [appendOwnerOrder_of_ne _ _ _ (by simp [hne]) (by simp) (by simp),
        Storage.set_of_ne (by simp [hne])]
    rw [loadRestingOrder_congr hfinal, loadRestingOrder_storeRestingOrder_of_ne h.stored hne]
    exact loadRestingOrder_congr fun field => Storage.set_of_ne (by simp) _ _

theorem Requested.order {orderID : Word} {st : Storage} (h : Requested fr orderID st w w')
    (hstorable : (w.order orderID).Storable) :
    w'.order orderID = { w.order orderID with status := .closing } ∧
      ∀ id, id ≠ orderID → w'.order id = w.order id := by
  rw [h.final]
  constructor
  · exact loadRestingOrder_storeRestingOrder hstorable.closing h.stored
  · intro id hne
    exact loadRestingOrder_storeRestingOrder_of_ne h.stored hne

/-- A collect writes the record of its own id, if that is live. -/
theorem collectPositionRecord_order {st st' : Storage} {positionID : Word} {owner : Address}
    {amount : UInt64} (h : collectPositionRecord st positionID owner amount = .ok st')
    (hstorable : (loadRestingOrder st positionID).Live →
      (loadRestingOrder st positionID).Storable) :
    (¬ (loadRestingOrder st positionID).Live ∧
        loadRestingOrder st' positionID = loadRestingOrder st positionID ∨
      (loadRestingOrder st positionID).Live ∧
        (loadRestingOrder st positionID).owner = owner ∧
        loadRestingOrder st' positionID =
          (loadRestingOrder st positionID).collect amount.toNat) ∧
      ∀ id, id ≠ positionID → loadRestingOrder st' id = loadRestingOrder st id := by
  obtain ⟨hdead, rfl⟩ | ⟨hlive, howner, st1, hstore, hreserve⟩ := collectPositionRecord_ok h
  · exact ⟨.inl ⟨hdead, rfl⟩, fun _ _ => rfl⟩
  · have hfinal : ∀ id, loadRestingOrder st' id = loadRestingOrder st1 id := by
      intro id
      exact loadRestingOrder_congr fun field => storeAmount_of_ne hreserve (by simp)
    refine ⟨.inr ⟨hlive, howner, ?_⟩, fun id hne => ?_⟩
    · rw [hfinal, loadRestingOrder_storeRestingOrder ((hstorable hlive).collect _) hstore]
    · rw [hfinal, loadRestingOrder_storeRestingOrder_of_ne hstore hne]

theorem RecordStep.of_orders (h : OrdersKept w w') (hnone : called = none) :
    RecordStep caller called id (w.order id) (w'.order id) := by
  rw [h.order id]
  refine .other fun c hc => ?_
  rw [hnone] at hc
  cases hc

theorem positionCall_of_ne {selector : ℕ} (hmodify : selector ≠ selModifyLiquidity)
    (hcollect : selector ≠ selCollectPosition) (data : List UInt8) :
    positionCall hashes caller selector data = none := by
  rw [positionCall, if_neg hmodify, if_neg hcollect]

theorem positionCall_modify {data hookData : List UInt8} {key : PoolKey}
    {params : ModifyLiquidityParams}
    (hdecode : decodeModifyLiquidityInput data = .ok (key, params, hookData)) :
    positionCall hashes caller selModifyLiquidity data =
      some (if 0 < params.liquidityDelta then
        .commit (makerOrderID hashes caller (key.id hashes) params.salt params.tickLower
          params.tickUpper) params.liquidityDelta.toNat
        else .request (makerOrderID hashes caller (key.id hashes) params.salt
          params.tickLower params.tickUpper)) := by
  rw [positionCall, if_pos rfl, hdecode]

theorem positionCall_collect {data : List UInt8} {body : ClaimBody}
    (hdecode : decodeClaim (slice data 96 (96 + claimSize)) = some body) :
    positionCall hashes caller selCollectPosition data =
      some (.collect (argWord data 64) body.amount.toNat) := by
  rw [positionCall, if_neg (by decide), if_pos rfl, hdecode]
  rfl

/-- A commit over an unchanged record. -/
theorem Committed.record {w0 w1 : World} {atomic : Atomic} {key : PoolKey}
    {params : ModifyLiquidityParams} {hookData input : List UInt8}
    {lockedAsset orderID claimID : Word} {st : Storage}
    (h : Committed fr atomic key params (decodeMakerSide hookData) lockedAsset orderID claimID
      st w w1 w')
    (hdecode : decodeModifyLiquidityInput input = .ok (key, params, hookData))
    (horders : OrdersKept w0 w1) (id : Word) :
    RecordStep fr.caller (some (.commit orderID params.liquidityDelta.toNat)) id (w0.order id)
      (w'.order id) := by
  have hroom := (storeRestingOrder_ok h.stored).1
  have hstorable := committedOrder_storable hdecode hroom
  have hunclosed : (w1.order orderID).status ≠ .closing := h.unclosed
  obtain ⟨hown, hothers⟩ := h.order hstorable
  rw [← horders.order id]
  by_cases hid : id = orderID
  · subst hid
    have hpositive : 0 < params.liquidityDelta.toNat := by
      have hp := h.positive
      omega
    rw [hown]
    exact .commit rfl hpositive hunclosed rfl rfl (committedOrder_lockedAmt ..) hstorable
  · rw [hothers id hid]
    refine .other fun c hc => ?_
    rw [← Option.some.inj hc]
    exact fun hc' => hid hc'.symm

/-- A withdraw request on a kept record. -/
theorem Requested.record {w0 : World} {orderID : Word} {st : Storage}
    (h : Requested fr orderID st w w') (horders : OrdersKept w0 w)
    (hkept : (w0.order orderID).Kept) (id : Word) :
    RecordStep fr.caller (some (.request orderID)) id (w0.order id) (w'.order id) := by
  rw [← horders.order] at hkept
  have hlive : (w.order orderID).Live := hkept.live h.known h.unclosed
  obtain ⟨hown, hothers⟩ := h.order (hkept.storable hlive.ne_none)
  rw [← horders.order id]
  by_cases hid : id = orderID
  · subst hid
    rw [hown]
    exact .request rfl h.owned hlive
  · rw [hothers id hid]
    refine .other fun c hc => ?_
    rw [← Option.some.inj hc]
    exact fun hc' => hid hc'.symm

/-- A collect on a kept record. -/
theorem collectPositionRecord_record {w0 : World} {st : Storage} {positionID : Word}
    {owner : Address} {amount : UInt64}
    (h : collectPositionRecord w.storage positionID owner amount = .ok st)
    (horders : OrdersKept w0 w) (hkept : (w0.order positionID).Kept) (id : Word) :
    RecordStep owner (some (.collect positionID amount.toNat)) id (w0.order id)
      (loadRestingOrder st id) := by
  rw [← horders.order] at hkept
  obtain ⟨hown, hothers⟩ :=
    collectPositionRecord_order h fun hlive => hkept.storable hlive.ne_none
  rw [← horders.order id]
  by_cases hid : id = positionID
  · subst hid
    obtain ⟨hdead, hsame⟩ | ⟨hlive, howner, hcollected⟩ := hown
    · rw [hsame]
      exact .collectDead rfl hdead
    · rw [hcollected]
      exact .collect rfl howner hlive
  · rw [hothers id hid]
    refine .other fun c hc => ?_
    rw [← Option.some.inj hc]
    exact fun hc' => hid hc'.symm

/-- What a handler does to the record under an id. -/
theorem Operation.record {selector : ℕ} {data : List UInt8} (hfr : fr.Guarded)
    (hb : w.bank.Bounded) (hkept : ∀ id, (w.order id).Kept)
    (h : Operation fr selector data w w') (id : Word) :
    RecordStep fr.caller (positionCall fr.hashes fr.caller selector data) id (w.order id)
      (w'.order id) := by
  have hguard := enter_guard w
  have hb0 : w.enter.bank.Bounded := hb
  have henter := enter_orders w
  cases h with
  | exportSwap hselector _ _ _ _ _ hexport =>
      rw [hselector]
      apply RecordStep.of_orders
      · exact henter.trans ((exportClaim_ok hexport).orders hfr hb0 hguard)
      · exact positionCall_of_ne (by decide) (by decide) data
  | importSwap hselector _ _ _ _ _ himport hvolume =>
      obtain ⟨body, -, himported⟩ := importClaim_ok himport
      rw [hselector]
      apply RecordStep.of_orders
      · refine (henter.trans (himported.orders hfr hb0 hguard)).trans ?_
        exact fun _ _ => accrueVolume_of_ne hvolume (by simp)
      · exact positionCall_of_ne (by decide) (by decide) data
  | commit hselector hdecode _ _ hmarket hpositive hcommit =>
      obtain ⟨rfl, -⟩ := marketFor_eq_some hmarket
      obtain ⟨claimID, st, w1, hcommitted⟩ := commitPosition_ok hcommit
      have horders : OrdersKept w w1 :=
        henter.trans (hcommitted.exported.orders hfr hb0 hguard)
      rw [hselector, positionCall_modify hdecode, if_pos hpositive]
      exact hcommitted.record hdecode horders id
  | request hselector hdecode _ hmarket hnegative hrequest =>
      obtain ⟨rfl, -⟩ := marketFor_eq_some hmarket
      obtain ⟨st, hrequested⟩ := requestPositionWithdraw_ok hrequest
      rw [hselector, positionCall_modify hdecode, if_neg hnegative]
      exact hrequested.record henter (hkept _) id
  | @collect _ _ _ w1 hselector _ _ himport hrecord =>
      obtain ⟨body, rfl, himported⟩ := importClaim_ok himport
      have horders : OrdersKept w w1 := henter.trans (himported.orders hfr hb0 hguard)
      rw [hselector, positionCall_collect himported.decode]
      exact collectPositionRecord_record hrecord horders (hkept _) id
  | depositNative hselector _ _ _ hrecord =>
      rw [hselector]
      apply RecordStep.of_orders
      · exact henter.trans (recordDeposit_orders hrecord)
      · exact positionCall_of_ne (by decide) (by decide) data
  | @depositToken st _ hselector _ _ hrecord hpull =>
      have hst : (w.enter.withStorage st).storage .custodyGuard ≠ 0 := by
        rwa [World.withStorage_storage, recordDeposit_of_ne hrecord (by simp) (by simp)]
      have hb1 : (w.enter.withStorage st).bank.Bounded := hb0
      rw [hselector]
      apply RecordStep.of_orders
      · refine (henter.trans (recordDeposit_orders hrecord)).trans ?_
        exact (pullERC20Terminal_outside hfr hb1 hst hpull).orders
      · exact positionCall_of_ne (by decide) (by decide) data
  | withdrawNothing hselector =>
      rw [hselector]
      apply RecordStep.of_orders henter
      exact positionCall_of_ne (by decide) (by decide) data
  | @withdraw _ st st' _ hselector _ _ hclaim hvault hpay =>
      have hinner : OrdersKept w.enter (w.enter.withStorage st') := by
        intro orderID field
        rw [World.withStorage_storage, storeAmount_of_ne hvault (by simp),
          storeAmount_of_ne hclaim (by simp)]
      have hst : (w.enter.withStorage st').storage .custodyGuard ≠ 0 := by
        rwa [World.withStorage_storage, storeAmount_of_ne hvault (by simp),
          storeAmount_of_ne hclaim (by simp)]
      have hb1 : (w.enter.withStorage st').bank.Bounded := hb0
      rw [hselector]
      apply RecordStep.of_orders
      · refine (henter.trans hinner).trans ?_
        obtain ⟨-, hmove⟩ | ⟨-, hpush⟩ := payWithdrawal_ok hpay
        · exact moveNative_orders hmove
        · exact (transferToken_outside hfr hb1 hst hpush).orders
      · exact positionCall_of_ne (by decide) (by decide) data
  | @seed token amount _ _ hselector _ hreceive =>
      have hseeded : ∀ asset amount, OrdersKept w.enter (seededWorld asset amount w.enter) := by
        intro asset amount orderID field
        simp [seededWorld]
      rw [hselector]
      apply RecordStep.of_orders
      · refine henter.trans ?_
        obtain ⟨-, -, -, -, rfl⟩ | ⟨-, -, -, hpull⟩ := receiveOperatorValue_ok hreceive
        · exact hseeded _ _
        · have hb1 : (seededWorld (assetID token) amount w.enter).bank.Bounded := hb0
          have hout := pullERC20Terminal_outside hfr hb1 (by rwa [seededWorld_guard]) hpull
          exact (hseeded _ _).trans hout.orders
      · exact positionCall_of_ne (by decide) (by decide) data

/-! ## Runs -/

/-- A call on a position that goes through ran behind the guard. -/
theorem positionCall_behind {selector : ℕ} {data : List UInt8} {gas : ℕ} {readOnly : Bool}
    {reply : Reply} (hcalled : positionCall hashes caller selector data ≠ none)
    (h : dispatch fr w selector data gas readOnly = .ok (w', reply)) :
    Behind fr selector data w w' := by
  by_cases hmodify : selector = selModifyLiquidity
  · rw [hmodify, dispatch_modifyLiquidity] at h
    rw [hmodify]
    exact runSettleModifyLiquidity_ok h
  by_cases hcollect : selector = selCollectPosition
  · rw [hcollect, dispatch_collectPosition] at h
    rw [hcollect]
    exact runSettleCollectPosition_ok h
  · exact absurd (positionCall_of_ne hmodify hcollect data) hcalled

/-- What a successful call does to the record under an id. -/
theorem call_record {env : Environment} {depth : ℕ} {r : Request} {reply : Reply}
    (hb : w.bank.Bounded) (hkept : ∀ id, (w.order id).Kept)
    (h : call hashes env depth w r = .ok (w', reply)) (id : Word) :
    RecordStep r.caller (positionCall hashes r.caller (selectorOf r.input) (r.input.drop 4)) id
      (w.order id) (w'.order id) := by
  obtain ⟨d, blockNumber, w1, hdeliver, hdispatch⟩ := call_dispatch h
  have hout : Outside hashes env.host w w1 := deliverValue_outside hb hdeliver
  have hkept1 : ∀ id, (w1.order id).Kept := by
    intro orderID
    rw [hout.orders.order]
    exact hkept orderID
  have hbehind : Behind (frameOf hashes env d blockNumber r) (selectorOf r.input)
      (r.input.drop 4) w1 w' →
      RecordStep r.caller (positionCall hashes r.caller (selectorOf r.input) (r.input.drop 4))
        id (w1.order id) (w'.order id) := by
    rintro ⟨-, w2, hoperation, rfl⟩
    rw [(leave_orders w2).order]
    exact hoperation.record (frameOf_guarded hashes env d blockNumber r) (hout.bounded hb)
      hkept1 id
  rw [← hout.orders.order id]
  by_cases hcalled :
      positionCall hashes r.caller (selectorOf r.input) (r.input.drop 4) = none
  · obtain rfl | hadmin | hran := dispatch_cases hdispatch
    · exact .of_orders (fun _ _ => rfl) hcalled
    · exact .of_orders hadmin.outside.orders hcalled
    · exact hbehind hran
  · exact hbehind (positionCall_behind hcalled hdispatch)

theorem performed_of_not_enter {a : Action} (h : ∀ r, a.interaction ≠ .enter r) :
    performed hashes w a = none := by
  unfold performed
  split
  · exact absurd ‹_› (h _)
  · rfl

theorem performed_of_error {a : Action} {r : Request} {e : Error}
    (hr : a.interaction = .enter r) (h : call hashes a.env a.depth w r = .error e) :
    performed hashes w a = none := by
  simp only [performed, hr, h]
  rfl

theorem performed_of_ok {a : Action} {r : Request} {result : World × Reply}
    (hr : a.interaction = .enter r) (h : call hashes a.env a.depth w r = .ok result) :
    performed hashes w a =
      positionCall hashes r.caller (selectorOf r.input) (r.input.drop 4) := by
  simp only [performed, hr, h]
  rfl

/-- A refused call, like an action of another account, leaves the records alone; a
call that goes through does what its calldata asks. -/
theorem exec_record (hb : w.bank.Bounded) (hkept : ∀ id, (w.order id).Kept) (a : Action) :
    ∃ caller, (∀ id, RecordStep caller (performed hashes w a) id (w.order id)
        ((exec hashes w a).order id)) ∧
      ∀ c, performed hashes w a = some c → ∃ r, a.interaction = .enter r ∧ r.caller = caller ∧
        positionCall hashes caller (selectorOf r.input) (r.input.drop 4) = some c := by
  have hidle : OrdersKept w (exec hashes w a) → performed hashes w a = none →
      ∃ caller, (∀ id, RecordStep caller (performed hashes w a) id (w.order id)
          ((exec hashes w a).order id)) ∧
        ∀ c, performed hashes w a = some c → ∃ r, a.interaction = .enter r ∧
          r.caller = caller ∧
          positionCall hashes caller (selectorOf r.input) (r.input.drop 4) = some c := by
    intro horders hnone
    refine ⟨0, fun id => .of_orders horders hnone, fun c hc => ?_⟩
    rw [hnone] at hc
    cases hc
  by_cases henter : ∃ r, a.interaction = .enter r
  · obtain ⟨r, hr⟩ := henter
    cases hcall : call hashes a.env a.depth w r with
    | error e =>
        apply hidle
        · rw [exec_refused hr hcall]
          exact fun _ _ => rfl
        · exact performed_of_error hr hcall
    | ok result =>
        have hexec : exec hashes w a = result.1 := by
          simp only [exec_eq, hr, interact, hcall]
        have hperformed := performed_of_ok hr hcall
        refine ⟨r.caller, fun id => ?_, fun c hc => ⟨r, hr, rfl, ?_⟩⟩
        · rw [hexec, hperformed]
          exact call_record hb hkept hcall id
        · rw [← hperformed, hc]
  · have hother : ∀ r, a.interaction ≠ .enter r := fun r hr => henter ⟨r, hr⟩
    obtain hout | ⟨r, hr, -⟩ := exec_cases hashes hb a
    · exact hidle hout.orders (performed_of_not_enter hother)
    · exact absurd hr (hother r)

/-! ## The lifecycle over a run -/

/-- A world of a run with the tally of every record. -/
structure Tracked where
  world : World
  tally : Word → Tally

/-- An action, with its call counted. -/
def track (hashes : Hashes) (s : Tracked) (a : Action) : Tracked where
  world := exec hashes s.world a
  tally id := (s.tally id).after (s.world.order id) id (performed hashes s.world a)

/-- The world before the first call. -/
def Tracked.start (w : World) : Tracked := ⟨w, fun _ => ⟨0, 0⟩⟩

/-- The bytes an action hashes to an order id. -/
def Action.orderBytes (hashes : Hashes) (a : Action) : Option (List UInt8) :=
  match a.interaction with
  | .enter r => Settle.orderBytes hashes r.caller (selectorOf r.input) (r.input.drop 4)
  | _ => none

/-- What one action does to the record under an id. -/
structure PositionStep (hashes : Hashes) (s : Tracked) (a : Action) (id : Word) : Prop where
  status : StatusMove (performed hashes s.world a) id (s.world.order id).status
    ((exec hashes s.world a).order id).status
  closed : ((exec hashes s.world a).order id).status = .closed →
    ((exec hashes s.world a).order id).lockedAmt = 0
  owner : (s.world.order id).Live →
    ((exec hashes s.world a).order id).owner = (s.world.order id).owner
  caller : (s.world.order id).Live → (exec hashes s.world a).order id ≠ s.world.order id →
    ∃ r, a.interaction = .enter r ∧ r.caller = (s.world.order id).owner
  closing : (s.world.order id).status = .closing →
    ∀ amount, performed hashes s.world a ≠ some (.commit id amount)
  locked : ((exec hashes s.world a).order id).lockedAmt +
      ((track hashes s a).tally id).collected =
    ((track hashes s a).tally id).committed

/-- The id is the hash of one of the given byte strings, which starts with the
owner. -/
def Sourced (hashes : Hashes) (preimages : Set (List UInt8)) (id : Word) (owner : Address) :
    Prop :=
  ∃ bs ∈ preimages, hashes.keccak256 bs = id ∧ bs.take 20 = natToBytes 20 owner

theorem Sourced.unique {preimages : Set (List UInt8)}
    (hcollision : Set.InjOn hashes.keccak256 preimages) {owner owner' : Address}
    (h : Sourced hashes preimages id owner) (h' : Sourced hashes preimages id owner') :
    owner = owner' := by
  obtain ⟨bs, hmem, hid, howner⟩ := h
  obtain ⟨bs', hmem', hid', howner'⟩ := h'
  have hbs : bs = bs' := hcollision hmem hmem' (hid.trans hid'.symm)
  rw [hbs, howner'] at howner
  have hlt := owner.isLt
  have hlt' := owner'.isLt
  exact Fin.ext (natToBytes_inj (by omega) (by omega) howner.symm)

/-- A record in use stays sourced. -/
theorem RecordStep.sourced (h : RecordStep caller called id o o')
    {preimages : Set (List UInt8)}
    (ho : o.status ≠ .none → Sourced hashes preimages id o.owner)
    (hcommit : ∀ amount, called = some (.commit id amount) →
      Sourced hashes preimages id caller) :
    o'.status ≠ .none → Sourced hashes preimages id o'.owner := by
  cases h with
  | other _ => exact ho
  | commit hcalled hpositive hstatus hopen howner hamount hstorable =>
      rw [howner]
      exact fun _ => hcommit _ hcalled
  | request hcalled howner hlive => exact fun _ => ho hlive.ne_none
  | collect hcalled howner hlive => exact fun _ => ho hlive.ne_none
  | collectDead _ _ => exact ho

/-- What a run keeps of the record under an id; `preimages` are the bytes its calls
hash to order ids. -/
structure Tracked.Kept (hashes : Hashes) (preimages : Set (List UInt8)) (s : Tracked)
    (id : Word) : Prop where
  record : (s.world.order id).Kept
  tally : (s.world.order id).lockedAmt + (s.tally id).collected = (s.tally id).committed
  source : (s.world.order id).status ≠ .none →
    Sourced hashes preimages id (s.world.order id).owner

/-- A commit names the bytes of its order id, its caller first. -/
theorem positionCall_commit {selector : ℕ} {data : List UInt8} {amount : ℕ}
    (h : positionCall hashes caller selector data = some (.commit id amount)) :
    ∃ bs, orderBytes hashes caller selector data = some bs ∧ hashes.keccak256 bs = id ∧
      bs.take 20 = natToBytes 20 caller := by
  unfold positionCall at h
  unfold orderBytes
  by_cases hmodify : selector = selModifyLiquidity
  · rw [if_pos hmodify] at h ⊢
    cases hdecode : decodeModifyLiquidityInput data with
    | error e => simp [hdecode] at h
    | ok input =>
        obtain ⟨key, params, hookData⟩ := input
        simp only [hdecode, Option.some.injEq] at h ⊢
        split_ifs at h with hpositive
        simp only [PositionCall.commit.injEq] at h
        refine ⟨_, rfl, h.1, ?_⟩
        simp only [makerOrderBytes, List.append_assoc]
        exact List.take_left' (natToBytes_length _ _)
  · rw [if_neg hmodify] at h
    by_cases hcollect : selector = selCollectPosition
    · rw [if_pos hcollect] at h
      simp at h
    · rw [if_neg hcollect] at h
      cases h

/-- One action moves every record as it should and keeps the tallies. -/
theorem track_kept {preimages : Set (List UInt8)}
    (hcollision : Set.InjOn hashes.keccak256 preimages) {s : Tracked}
    (hb : s.world.bank.Bounded) (hs : ∀ id, s.Kept hashes preimages id) {a : Action}
    (ha : ∀ bs, a.orderBytes hashes = some bs → bs ∈ preimages) :
    (∀ id, (track hashes s a).Kept hashes preimages id) ∧ ∀ id, PositionStep hashes s a id := by
  obtain ⟨caller, hrecord, hasked⟩ := exec_record hb (fun id => (hs id).record) a
  have hsource : ∀ id amount, performed hashes s.world a = some (.commit id amount) →
      Sourced hashes preimages id caller := by
    intro id amount hperformed
    obtain ⟨r, hr, hcaller, hcalled⟩ := hasked _ hperformed
    obtain ⟨bs, hbytes, hid, howner⟩ := positionCall_commit hcalled
    refine ⟨bs, ha bs ?_, hid, howner⟩
    simp only [Action.orderBytes, hr, hcaller]
    exact hbytes
  have hsame : ∀ id, (s.world.order id).Live → ∀ amount,
      performed hashes s.world a = some (.commit id amount) →
      caller = (s.world.order id).owner := by
    intro id hlive amount hperformed
    exact (hsource id amount hperformed).unique hcollision ((hs id).source hlive.ne_none)
  have hkept : ∀ id, (track hashes s a).Kept hashes preimages id := by
    intro id
    exact ⟨(hrecord id).kept (hs id).record, (hrecord id).tally (hs id).record (hs id).tally,
      (hrecord id).sourced (hs id).source (hsource id)⟩
  refine ⟨hkept, fun id => ⟨(hrecord id).status (hs id).record, ?_, ?_, ?_, ?_, (hkept id).tally⟩⟩
  · intro hclosed
    apply (hkept id).record.empty
    rintro (hopen | hclosing)
    · exact absurd (hclosed.symm.trans hopen) (by simp)
    · exact absurd (hclosed.symm.trans hclosing) (by simp)
  · exact fun hlive => (hrecord id).owner (hsame id hlive)
  · intro hlive hne
    obtain ⟨⟨c, hperformed⟩, howner⟩ := (hrecord id).caller_eq (hsame id hlive) hne
    obtain ⟨r, hr, hcaller, -⟩ := hasked c hperformed
    exact ⟨r, hr, hcaller.trans howner⟩
  · exact (hrecord id).not_commit

/-- In every run whose order ids do not collide, every record lives as its calls
say. -/
theorem position_lifecycle (hashes : Hashes) {w₀ : World} (hgenesis : Genesis w₀)
    (actions : List Action)
    (hcollision : Set.InjOn hashes.keccak256
      {bs | bs ∈ actions.filterMap (Action.orderBytes hashes)}) :
    Along (track hashes) (fun s a => ∀ id, PositionStep hashes s a id) (.start w₀) actions := by
  have hstart : ∀ id, (Tracked.start w₀).Kept hashes
      {bs | bs ∈ actions.filterMap (Action.orderBytes hashes)} id := by
    intro id
    have hzero : (Tracked.start w₀).world.order id = RestingOrder.zero := by
      show loadRestingOrder w₀.storage id = _
      rw [hgenesis.storage_empty, loadRestingOrder_empty]
    refine ⟨?_, ?_, ?_⟩
    · rw [hzero]
      exact RestingOrder.zero_kept
    · rw [hzero]
      rfl
    · rw [hzero]
      exact fun h => absurd rfl h
  generalize hpreimages : {bs | bs ∈ actions.filterMap (Action.orderBytes hashes)} = preimages
    at hcollision hstart
  have hmem : ∀ a ∈ actions, ∀ bs, a.orderBytes hashes = some bs → bs ∈ preimages := by
    intro a ha bs hbs
    rw [← hpreimages]
    exact List.mem_filterMap.mpr ⟨a, ha, hbs⟩
  have hb : (Tracked.start w₀).world.bank.Bounded := hgenesis.bounded
  clear hpreimages hgenesis
  generalize Tracked.start w₀ = s at hstart hb ⊢
  induction actions generalizing s with
  | nil => trivial
  | cons a actions ih =>
      obtain ⟨hkept, hstep⟩ := track_kept hcollision hb hstart (hmem a List.mem_cons_self)
      exact ⟨hstep, ih (fun b hb' => hmem b (List.mem_cons_of_mem a hb')) _ hkept
        (exec_trace hashes hb a).2⟩

/-- A position committed to, collected in part, asked back and collected in full. -/
def samplePositionRun : List Action :=
  [sampleInitialize, sampleModify 1 100, sampleCollect 5 40, sampleModify 2 (-1),
    sampleCollect 6 60]

theorem samplePositionRun_orderBytes :
    samplePositionRun.filterMap (Action.orderBytes sampleHashes) =
      [makerOrderBytes 0xA11CE samplePool 1 (-60) 60,
        makerOrderBytes 0xA11CE samplePool 1 (-60) 60] := by
  decide +kernel

/-- The last collect of the sample run closes the position. -/
theorem position_lifecycle_sample :
    Along (track sampleHashes) (fun s a => ∀ id, PositionStep sampleHashes s a id)
        (.start fundedWorld) samplePositionRun ∧
      (runFrom sampleHashes fundedWorld samplePositionRun).order sampleOrder =
        ⟨0xA11CE, samplePool, .bid, 0, 0, -60, 60, 1, .closed⟩ := by
  refine ⟨position_lifecycle sampleHashes fundedWorld_genesis _ ?_, by decide +kernel⟩
  rw [samplePositionRun_orderBytes]
  intro bs hbs bs' hbs' _
  simp only [List.mem_cons, List.not_mem_nil, or_false, or_self, Set.mem_ofPred_eq] at hbs hbs'
  rw [hbs, hbs']

end LuxPrecompile.Settle
