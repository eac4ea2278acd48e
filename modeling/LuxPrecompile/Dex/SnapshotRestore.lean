import LuxPrecompile.Dex.Snapshot

/-!
# Import after export

What a manager is after its own snapshot was imported into an empty one, and
which snapshots an import refuses.  States are compared by what their maps give
to each key.
-/

namespace LuxPrecompile.Dex.Snapshot

open LuxPrecompile.Evm LuxPrecompile.Support

/-! ## The state that a manager holds -/

/-- What a `PoolState` holds. -/
structure PoolStateValue where
  pool : Pool
  ticks : Int32 → Option TickInfo
  tickBitmap : Option (Int16 → Option BigInt)
  positions : Id → Option Position
  tickSpacing : Int32
  lpFee : UInt32
  protocolFee : UInt32

def PoolState.value (ps : PoolState) : PoolStateValue where
  pool := ps.pool
  ticks := ps.ticks.get
  tickBitmap := ps.tickBitmap.map fun bitmap => bitmap.words.get
  positions := ps.positions.get
  tickSpacing := ps.tickSpacing
  lpFee := ps.lpFee
  protocolFee := ps.protocolFee

/-- What a `PoolManager` holds. -/
structure PoolManagerValue where
  pools : Id → Option Pool
  poolStates : Id → Option PoolStateValue
  positions : Id → Option Position

def PoolManager.value (pm : PoolManager) : PoolManagerValue where
  pools := pm.pools.get
  poolStates := fun id => (pm.poolStates.get id).map PoolState.value
  positions := pm.positions.get

/-! ## Numbers in a snapshot -/

/-- A number as a snapshot keeps it: nil is written as zero. -/
def filled (v : BigInt) : BigInt := some (v.getD 0)

theorem filled_eq_self {v : BigInt} : filled v = v ↔ v ≠ none := by
  cases v with
  | none => simp [filled]
  | some v => simp [filled]

/-- A number of any size and sign is read back from its text. -/
theorem strToBigInt_bigIntToStr (v : BigInt) : strToBigInt (bigIntToStr v) = filled v := by
  cases v with
  | none => rfl
  | some v =>
      have hread : setString (bigIntToStr (some v)) = some v := by
        rw [setString, bigIntToStr, String.toList_ofList, Decimal.read_text]
      rw [strToBigInt]
      split_ifs with hzero
      · rcases hzero with hempty | hzero
        · refine absurd ?_ (Decimal.text_ne_nil v)
          rw [bigIntToStr] at hempty
          exact (String.toList_ofList (l := Decimal.text v)).symm.trans (by rw [hempty]; rfl)
        · rw [hzero] at hread
          have hvalue : v = 0 := Option.some.inj (hread.symm.trans (by decide))
          rw [hvalue]
          rfl
      · rw [hread]
        rfl

def Pool.filled (p : Pool) : Pool where
  sqrtPriceX96 := Snapshot.filled p.sqrtPriceX96
  tick := p.tick
  liquidity := Snapshot.filled p.liquidity
  feeGrowth0X128 := Snapshot.filled p.feeGrowth0X128
  feeGrowth1X128 := Snapshot.filled p.feeGrowth1X128
  protocolFees0 := Snapshot.filled p.protocolFees0
  protocolFees1 := Snapshot.filled p.protocolFees1

def Position.filled (p : Position) : Position where
  owner := p.owner
  tickLower := p.tickLower
  tickUpper := p.tickUpper
  liquidity := Snapshot.filled p.liquidity
  feeGrowthInside0LastX128 := Snapshot.filled p.feeGrowthInside0LastX128
  feeGrowthInside1LastX128 := Snapshot.filled p.feeGrowthInside1LastX128
  tokensOwed0 := Snapshot.filled p.tokensOwed0
  tokensOwed1 := Snapshot.filled p.tokensOwed1

def TickInfo.filled (t : TickInfo) : TickInfo where
  liquidityGross := Snapshot.filled t.liquidityGross
  liquidityNet := Snapshot.filled t.liquidityNet
  feeGrowthOutside0X128 := Snapshot.filled t.feeGrowthOutside0X128
  feeGrowthOutside1X128 := Snapshot.filled t.feeGrowthOutside1X128

/-- No number of a pool is nil. -/
def Pool.Complete (p : Pool) : Prop :=
  p.sqrtPriceX96 ≠ none ∧ p.liquidity ≠ none ∧ p.feeGrowth0X128 ≠ none ∧
    p.feeGrowth1X128 ≠ none ∧ p.protocolFees0 ≠ none ∧ p.protocolFees1 ≠ none

/-- No number of a position is nil. -/
def Position.Complete (p : Position) : Prop :=
  p.liquidity ≠ none ∧ p.feeGrowthInside0LastX128 ≠ none ∧ p.feeGrowthInside1LastX128 ≠ none ∧
    p.tokensOwed0 ≠ none ∧ p.tokensOwed1 ≠ none

/-- No number of a tick is nil. -/
def TickInfo.Complete (t : TickInfo) : Prop :=
  t.liquidityGross ≠ none ∧ t.liquidityNet ≠ none ∧ t.feeGrowthOutside0X128 ≠ none ∧
    t.feeGrowthOutside1X128 ≠ none

theorem Pool.filled_eq_self {p : Pool} : p.filled = p ↔ p.Complete := by
  cases p
  simp only [Pool.filled, Pool.mk.injEq, Snapshot.filled_eq_self, Pool.Complete, true_and]

theorem Position.filled_eq_self {p : Position} : p.filled = p ↔ p.Complete := by
  cases p
  simp only [Position.filled, Position.mk.injEq, Snapshot.filled_eq_self, Position.Complete,
    true_and]

theorem TickInfo.filled_eq_self {t : TickInfo} : t.filled = t ↔ t.Complete := by
  cases t
  simp only [TickInfo.filled, TickInfo.mk.injEq, Snapshot.filled_eq_self, TickInfo.Complete]

/-- No number of a pool is nil, and it has a bitmap. -/
structure PoolState.Complete (ps : PoolState) : Prop where
  pool : ps.pool.Complete
  ticks : ∀ i t, ps.ticks.get i = some t → t.Complete
  tickBitmap : ∃ bitmap, ps.tickBitmap = some bitmap ∧
    ∀ i v, bitmap.words.get i = some v → v ≠ none
  positions : ∀ k p, ps.positions.get k = some p → p.Complete

/-! ## A pool exported and imported -/

section Common

variable (common : Common)

theorem get_imported {κ ν σ τ : Type} [DecidableEq κ] [LinearOrder τ] (m : FinMap κ ν)
    (key : σ → τ) {exported : κ × ν → σ} {imported : σ → κ × ν} {f : ν → ν}
    (h : ∀ e, imported (exported e) = (e.1, f e.2)) :
    (FinMap.empty.insertAll ((sortBy key (m.entries.map exported)).map imported)).get =
      fun k => (m.get k).map f := by
  funext k
  refine FinMap.get_insertAll_perm (((sortBy_perm _).map imported).trans ?_) k
  rw [List.map_map]
  exact .of_eq (List.map_congr_left fun e _ => h e)

theorem decodeId_hexId (id : Id) : decodeId common (hexId id) = some id := by
  rw [decodeId, common.fromHex_hexId, if_pos (hashBytes_length id), bytesToHash_hashBytes]

theorem importPosition_exportPosition (e : Id × Position) :
    importPosition common (exportPosition common e) = (e.1, e.2.filled) := by
  simp only [importPosition, exportPosition, decodeId_hexId, common.hexToAddress_addressHex,
    strToBigInt_bigIntToStr, Option.getD_some, Position.filled]

theorem importTick_exportTick (e : Int32 × TickInfo) :
    importTick (exportTick e) = (e.1, e.2.filled) := by
  simp only [importTick, exportTick, strToBigInt_bigIntToStr, TickInfo.filled]

theorem importWord_exportWord (e : Int16 × BigInt) :
    importWord (exportWord e) = (e.1, filled e.2) := by
  simp only [importWord, exportWord, strToBigInt_bigIntToStr]

/-- A pool state that was exported and imported. -/
def PoolState.restored (ps : PoolState) : PoolState :=
  importPoolState common (exportPoolState common 0 ps)

theorem importPoolSnapshot_exportPoolState (id : Id) (ps : PoolState) :
    importPoolSnapshot common (exportPoolState common id ps) =
      some (id, ps.restored common, (ps.restored common).positions) := by
  have hstate : importPoolState common (exportPoolState common id ps) = ps.restored common := by
    simp only [PoolState.restored, importPoolState, exportPoolState]
  have hid : decodeId common (exportPoolState common id ps).poolID = some id :=
    decodeId_hexId common id
  rw [importPoolSnapshot, hid, hstate]

theorem PoolState.pool_restored (ps : PoolState) : (ps.restored common).pool = ps.pool.filled := by
  simp only [PoolState.restored, importPoolState, exportPoolState, strToBigInt_bigIntToStr,
    Pool.filled]

theorem PoolState.ticks_restored (ps : PoolState) :
    (ps.restored common).ticks.get = fun i => (ps.ticks.get i).map TickInfo.filled := by
  rw [PoolState.restored, importPoolState, exportPoolState]
  exact get_imported ps.ticks (fun t => t.index.toInt) importTick_exportTick

theorem PoolState.positions_restored (ps : PoolState) :
    (ps.restored common).positions.get = fun k => (ps.positions.get k).map Position.filled := by
  rw [PoolState.restored, importPoolState, exportPoolState]
  exact get_imported ps.positions PositionSnapshot.positionID (importPosition_exportPosition common)

theorem PoolState.tickBitmap_restored (ps : PoolState) :
    (ps.restored common).value.tickBitmap =
      some (match ps.tickBitmap with
        | none => fun _ => none
        | some bitmap => fun i => (bitmap.words.get i).map filled) := by
  rw [PoolState.value, PoolState.restored, importPoolState, exportPoolState]
  cases ps.tickBitmap with
  | none => rfl
  | some bitmap =>
      exact congrArg some
        (get_imported bitmap.words (fun w => w.wordIndex.toInt) importWord_exportWord)

/-- A pool state comes back the same exactly when nothing in it is nil. -/
theorem PoolState.value_restored_iff (ps : PoolState) :
    (ps.restored common).value = ps.value ↔ ps.Complete := by
  have hpool : (ps.restored common).pool = ps.pool ↔ ps.pool.Complete := by
    rw [PoolState.pool_restored, Pool.filled_eq_self]
  have hticks : (ps.restored common).ticks.get = ps.ticks.get ↔
      ∀ i t, ps.ticks.get i = some t → t.Complete := by
    rw [PoolState.ticks_restored, FinMap.map_get_eq_iff]
    simp only [TickInfo.filled_eq_self]
  have hpositions : (ps.restored common).positions.get = ps.positions.get ↔
      ∀ k p, ps.positions.get k = some p → p.Complete := by
    rw [PoolState.positions_restored, FinMap.map_get_eq_iff]
    simp only [Position.filled_eq_self]
  have hbitmap : (ps.restored common).value.tickBitmap = ps.value.tickBitmap ↔
      ∃ bitmap, ps.tickBitmap = some bitmap ∧ ∀ i v, bitmap.words.get i = some v → v ≠ none := by
    rw [PoolState.tickBitmap_restored, PoolState.value]
    cases ps.tickBitmap with
    | none => simp
    | some bitmap =>
        simp only [Option.map_some, Option.some.injEq, FinMap.map_get_eq_iff, filled_eq_self,
          exists_eq_left']
  constructor
  · intro h
    exact {
      pool := hpool.mp (congrArg PoolStateValue.pool h)
      ticks := hticks.mp (congrArg PoolStateValue.ticks h)
      tickBitmap := hbitmap.mp (congrArg PoolStateValue.tickBitmap h)
      positions := hpositions.mp (congrArg PoolStateValue.positions h) }
  · intro h
    have hparts : (ps.restored common).value = {
        pool := (ps.restored common).pool
        ticks := (ps.restored common).ticks.get
        tickBitmap := (ps.restored common).value.tickBitmap
        positions := (ps.restored common).positions.get
        tickSpacing := ps.tickSpacing
        lpFee := ps.lpFee
        protocolFee := ps.protocolFee } := rfl
    rw [hparts, hpool.mpr h.pool, hticks.mpr h.ticks, hbitmap.mpr h.tickBitmap,
      hpositions.mpr h.positions]
    rfl

/-! ## A manager exported and imported -/

/-- The pool states in the order of the snapshot. -/
def PoolManager.inExportOrder (pm : PoolManager) : List (Id × PoolState) :=
  sortBy (fun e => hexId e.1) pm.poolStates.entries

/-- The position of the last pool, in the order of the snapshot, that has one under the key. -/
def PoolManager.poolPosition (pm : PoolManager) (k : Id) : Option Position :=
  pm.inExportOrder.reverse.findSome? fun e => e.2.positions.get k

theorem pools_exportState (pm : PoolManager) (timestamp : Int64) (blockNum : UInt64) :
    (exportState common pm timestamp blockNum).pools =
      pm.inExportOrder.map fun e => exportPoolState common e.1 e.2 :=
  sortBy_map (fun e : Id × PoolState => exportPoolState common e.1 e.2) pm.poolStates.entries

theorem importPools_exported (new : PoolManager) (l : List (Id × PoolState)) :
    importPools common new (l.map fun e => exportPoolState common e.1 e.2) = .ok {
      pools := new.pools.insertAll (l.map fun e => (e.1, (e.2.restored common).pool))
      poolStates := new.poolStates.insertAll (l.map fun e => (e.1, e.2.restored common))
      positions := l.foldl
        (fun m e => m.insertAll (e.2.restored common).positions.entries) new.positions } := by
  induction l generalizing new with
  | nil => rfl
  | cons e l ih =>
      rw [List.map_cons, importPools, importPoolSnapshot_exportPoolState]
      exact ih _

/-- The manager that is built from the snapshot of another. -/
def PoolManager.imported (pm : PoolManager) : PoolManager where
  pools := FinMap.empty.insertAll (pm.inExportOrder.map fun e => (e.1, (e.2.restored common).pool))
  poolStates := FinMap.empty.insertAll (pm.inExportOrder.map fun e => (e.1, e.2.restored common))
  positions := pm.inExportOrder.foldl
    (fun m e => m.insertAll (e.2.restored common).positions.entries) .empty

theorem importState_exportState (persist : Bool) (pm old : PoolManager) (timestamp : Int64)
    (blockNum : UInt64) :
    importState common persist old (exportState common pm timestamp blockNum) =
      (pm.imported common,
        if persist ∧ ¬ (pm.imported common).Fillable then .panicked else .imported) := by
  have hversion : ¬ (exportState common pm timestamp blockNum).version ≠ snapshotVersion :=
    fun h => h rfl
  rw [importState, if_neg hversion, pools_exportState, importPools_exported]
  rfl

theorem PoolManager.pools_imported (pm : PoolManager) :
    (pm.imported common).pools.get =
      fun id => (pm.poolStates.get id).map fun ps => ps.pool.filled := by
  funext id
  have hget := FinMap.get_insertAll_perm (f := fun ps : PoolState => (ps.restored common).pool)
    ((@sortBy_perm _ _ _ (fun e : Id × PoolState => hexId e.1) pm.poolStates.entries).map
      fun e => (e.1, (e.2.restored common).pool)) id
  simp only [PoolState.pool_restored] at hget
  simp only [PoolManager.imported, PoolManager.inExportOrder, PoolState.pool_restored]
  exact hget

theorem PoolManager.poolStates_imported (pm : PoolManager) :
    (pm.imported common).poolStates.get =
      fun id => (pm.poolStates.get id).map fun ps => ps.restored common := by
  funext id
  exact FinMap.get_insertAll_perm (f := fun ps : PoolState => ps.restored common)
    ((@sortBy_perm _ _ _ (fun e : Id × PoolState => hexId e.1) pm.poolStates.entries).map
      fun e => (e.1, e.2.restored common)) id

theorem PoolManager.positions_imported (pm : PoolManager) :
    (pm.imported common).positions.get = fun k => (pm.poolPosition k).map Position.filled := by
  funext k
  rw [PoolManager.imported, FinMap.get_foldl_insertAll, FinMap.get_empty, Option.or_none,
    PoolManager.poolPosition, List.map_findSome?]
  refine congrArg (fun f => pm.inExportOrder.reverse.findSome? f) ?_
  funext e
  exact congrFun (PoolState.positions_restored common e.2) k

theorem PoolManager.poolPosition_complete {pm : PoolManager}
    (h : ∀ id ps, pm.poolStates.get id = some ps → ps.Complete) {k : Id} {p : Position}
    (hp : pm.poolPosition k = some p) : p.Complete := by
  obtain ⟨e, he, hget⟩ := List.exists_of_findSome?_eq_some hp
  have hmem : e ∈ pm.poolStates.entries := (sortBy_perm _).mem_iff.mp (List.mem_reverse.mp he)
  exact (h e.1 e.2 (FinMap.get_eq_some.mpr hmem)).positions k p hget

theorem PoolManager.fillable_congr {pm pm' : PoolManager} (hpools : pm.pools.get = pm'.pools.get)
    (hpositions : pm.positions.get = pm'.positions.get) : pm.Fillable ↔ pm'.Fillable := by
  have hiff : ∀ m : PoolManager, m.Fillable ↔
      (∀ id p, m.pools.get id = some p → p.Fillable) ∧
        ∀ k p, m.positions.get k = some p → p.Fillable := by
    intro m
    simp only [PoolManager.Fillable, FinMap.get_eq_some, Prod.forall]
  rw [hiff, hiff, hpools, hpositions]

/-- A manager that its snapshot restores: nothing in its pool states is nil, its pools and
positions are those of its pool states, and where the import persists them they fit their
slots. -/
structure PoolManager.Restorable (persist : Bool) (pm : PoolManager) : Prop where
  complete : ∀ id ps, pm.poolStates.get id = some ps → ps.Complete
  pools : ∀ id, pm.pools.get id = (pm.poolStates.get id).map PoolState.pool
  positions : ∀ k, pm.positions.get k = pm.poolPosition k
  fillable : persist = true → pm.Fillable

/-- The manager built from a snapshot holds what the exported one held exactly when that one has
nothing nil in its pool states and its pools and positions are those of its pool states. -/
theorem PoolManager.value_imported_iff (pm : PoolManager) :
    (pm.imported common).value = pm.value ↔
      (∀ id ps, pm.poolStates.get id = some ps → ps.Complete) ∧
        (∀ id, pm.pools.get id = (pm.poolStates.get id).map PoolState.pool) ∧
        ∀ k, pm.positions.get k = pm.poolPosition k := by
  have hpoolStates : (pm.imported common).value.poolStates = pm.value.poolStates ↔
      ∀ id ps, pm.poolStates.get id = some ps → ps.Complete := by
    simp only [PoolManager.value, PoolManager.poolStates_imported, Option.map_map]
    constructor
    · intro h id ps hps
      have hid := congrFun h id
      simp only [hps, Option.map_some] at hid
      exact (PoolState.value_restored_iff common ps).mp (Option.some.inj hid)
    · intro h
      funext id
      cases hps : pm.poolStates.get id with
      | none => rfl
      | some ps =>
          exact congrArg some ((PoolState.value_restored_iff common ps).mpr (h id ps hps))
  have hpools : (∀ id ps, pm.poolStates.get id = some ps → ps.Complete) →
      (pm.imported common).pools.get =
        fun id => (pm.poolStates.get id).map PoolState.pool := by
    intro h
    rw [PoolManager.pools_imported]
    funext id
    cases hps : pm.poolStates.get id with
    | none => rfl
    | some ps => exact congrArg some (Pool.filled_eq_self.mpr (h id ps hps).pool)
  have hpositions : (∀ id ps, pm.poolStates.get id = some ps → ps.Complete) →
      (pm.imported common).positions.get = pm.poolPosition := by
    intro h
    rw [PoolManager.positions_imported]
    funext k
    cases hp : pm.poolPosition k with
    | none => rfl
    | some p =>
        exact congrArg some
          (Position.filled_eq_self.mpr (PoolManager.poolPosition_complete h hp))
  constructor
  · intro h
    have hcomplete := hpoolStates.mp (congrArg PoolManagerValue.poolStates h)
    have hsame : pm.pools.get = _ :=
      (congrArg PoolManagerValue.pools h).symm.trans (hpools hcomplete)
    have hsamePositions : pm.positions.get = _ :=
      (congrArg PoolManagerValue.positions h).symm.trans (hpositions hcomplete)
    exact ⟨hcomplete, congrFun hsame, congrFun hsamePositions⟩
  · rintro ⟨hcomplete, hsame, hsamePositions⟩
    have hparts : (pm.imported common).value = {
        pools := (pm.imported common).pools.get
        poolStates := (pm.imported common).value.poolStates
        positions := (pm.imported common).positions.get } := rfl
    rw [hparts, hpools hcomplete, hpoolStates.mpr hcomplete, hpositions hcomplete,
      ← funext hsame, ← funext hsamePositions]
    rfl

/-- Importing a manager's snapshot succeeds and gives back its state exactly when the manager is
restorable. -/
theorem importState_exportState_iff (persist : Bool) (pm old : PoolManager) (timestamp : Int64)
    (blockNum : UInt64) :
    (∃ new, importState common persist old (exportState common pm timestamp blockNum) =
        (new, .imported) ∧ new.value = pm.value) ↔ pm.Restorable persist := by
  have hfillable : (pm.imported common).value = pm.value →
      ((pm.imported common).Fillable ↔ pm.Fillable) := fun h =>
    PoolManager.fillable_congr (congrArg PoolManagerValue.pools h)
      (congrArg PoolManagerValue.positions h)
  rw [importState_exportState]
  constructor
  · rintro ⟨new, hout, hvalue⟩
    obtain ⟨hnew, hended⟩ := Prod.mk.inj hout
    rw [← hnew] at hvalue
    obtain ⟨hcomplete, hpools, hpositions⟩ := (PoolManager.value_imported_iff common pm).mp hvalue
    refine ⟨hcomplete, hpools, hpositions, fun hpersist => ?_⟩
    by_contra hwide
    rw [if_pos ⟨hpersist, fun h => hwide ((hfillable hvalue).mp h)⟩] at hended
    cases hended
  · intro h
    have hvalue := (PoolManager.value_imported_iff common pm).mpr ⟨h.complete, h.pools, h.positions⟩
    refine ⟨pm.imported common, ?_, hvalue⟩
    rw [if_neg fun hpanic => hpanic.2 ((hfillable hvalue).mpr (h.fillable hpanic.1))]

end Common

end LuxPrecompile.Dex.Snapshot
