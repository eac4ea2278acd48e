import LuxPrecompile.Dex.Snapshot
import LuxPrecompile.Evm.Bytes
import LuxPrecompile.Support.Runs

/-!
# Snapshots in the database

`WriteToZapDB` and `ReadFromZapDB` of `dex/state_export.go`.  The writer puts
one row for the metadata, one for each pool and one for each of its positions,
ticks and bitmap words; the reader takes every row under the prefix of pools.
-/

namespace LuxPrecompile.Dex.Snapshot

open LuxPrecompile.Evm LuxPrecompile.Support

/-- The bytes of a Go string. -/
def stringBytes (s : String) : List UInt8 := s.toByteArray.data.toList

/-- The metadata row. -/
structure Metadata where
  version : UInt32
  timestamp : Int64
  blockNum : UInt64
  poolCount : ℤ

/-- `encoding/json` on the rows: what `Marshal` writes, `Unmarshal` reads back. -/
structure Json where
  marshalMetadata : Metadata → List UInt8
  unmarshalMetadata : List UInt8 → Option Metadata
  marshalPool : PoolSnapshot → List UInt8
  unmarshalPool : List UInt8 → Option PoolSnapshot
  marshalPosition : PositionSnapshot → List UInt8
  marshalTick : TickSnapshot → List UInt8
  marshalBitmapWord : BitmapWord → List UInt8
  unmarshal_marshalMetadata : ∀ m, unmarshalMetadata (marshalMetadata m) = some m
  unmarshal_marshalPool : ∀ p, unmarshalPool (marshalPool p) = some p

/-- The order in which a prefix iterator serves rows. -/
structure IteratorOrder where
  serve : List (List UInt8 × List UInt8) → List (List UInt8 × List UInt8)
  serve_perm : ∀ rows, (serve rows).Perm rows

/-- `database.Database`. -/
abbrev Database := FinMap (List UInt8) (List UInt8)

def dbPrefixMeta : List UInt8 := ascii "dex:meta:".toList
def dbPrefixPool : List UInt8 := ascii "dex:pool:".toList
def dbPrefixPosition : List UInt8 := ascii "dex:posn:".toList
def dbPrefixTick : List UInt8 := ascii "dex:tick:".toList
def dbPrefixBitmap : List UInt8 := ascii "dex:bmap:".toList

def metaKey : List UInt8 := dbPrefixMeta ++ ascii "snapshot".toList

def poolKey (poolID : String) : List UInt8 := dbPrefixPool ++ stringBytes poolID

def positionKey (poolID positionID : String) : List UInt8 :=
  dbPrefixPosition ++ stringBytes (poolID ++ ":" ++ positionID)

def makeTickDBKey (poolID : List UInt8) (tickIndex : Int32) : List UInt8 :=
  dbPrefixTick ++ (poolID ++ (ascii [':'] ++ uint32Bytes tickIndex.toUInt32))

def makeBitmapDBKey (poolID : List UInt8) (wordIndex : Int16) : List UInt8 :=
  dbPrefixBitmap ++ (poolID ++ (ascii [':'] ++ uint16Bytes wordIndex.toUInt16))

section Json

variable (json : Json)

/-- The row of the metadata. -/
def metaRow (snap : DEXStateSnapshot) : List UInt8 × List UInt8 :=
  (metaKey, json.marshalMetadata {
    version := snap.version
    timestamp := snap.timestamp
    blockNum := snap.blockNum
    poolCount := snap.pools.length })

/-- The row of a pool. -/
def poolRow (p : PoolSnapshot) : List UInt8 × List UInt8 := (poolKey p.poolID, json.marshalPool p)

/-- The rows of the positions, ticks and bitmap words of a pool. -/
def detailRows (p : PoolSnapshot) : List (List UInt8 × List UInt8) :=
  (p.positions.map fun pos => (positionKey p.poolID pos.positionID, json.marshalPosition pos)) ++
    (p.ticks.map fun t => (makeTickDBKey (stringBytes p.poolID) t.index, json.marshalTick t)) ++
    (p.bitmapWords.map fun w =>
      (makeBitmapDBKey (stringBytes p.poolID) w.wordIndex, json.marshalBitmapWord w))

/-- The rows of the batch, in the order they are put. -/
def snapshotRows (snap : DEXStateSnapshot) : List (List UInt8 × List UInt8) :=
  metaRow json snap :: snap.pools.flatMap fun p => poolRow json p :: detailRows json p

/-- `WriteToZapDB`: the database after the batch was written. -/
def writeToZapDB (db : Database) (snap : DEXStateSnapshot) : Database :=
  db.insertAll (snapshotRows json snap)

/-- The errors of `ReadFromZapDB`. -/
inductive ReadError where
  | readMetadata
  | unmarshalMetadata
  | versionMismatch (got want : UInt32)
  | unmarshalPool
deriving DecidableEq, Repr

/-- The loop of `ReadFromZapDB` over the rows the iterator serves. -/
def readPools : List (List UInt8 × List UInt8) → Except ReadError (List PoolSnapshot)
  | [] => .ok []
  | row :: rest =>
      match json.unmarshalPool row.2 with
      | none => .error .unmarshalPool
      | some p => do
          let pools ← readPools rest
          .ok (p :: pools)

/-- `NewIteratorWithPrefix`: the rows whose keys start with a prefix. -/
def iteratorWithPrefix (order : IteratorOrder) (db : Database) (start : List UInt8) :
    List (List UInt8 × List UInt8) :=
  order.serve (db.entries.filter fun row => start.isPrefixOf row.1)

def readFromZapDB (order : IteratorOrder) (db : Database) :
    Except ReadError DEXStateSnapshot :=
  match db.get metaKey with
  | none => .error .readMetadata
  | some metaBytes =>
      match json.unmarshalMetadata metaBytes with
      | none => .error .unmarshalMetadata
      | some found =>
          if found.version ≠ snapshotVersion then
            .error (.versionMismatch found.version snapshotVersion)
          else do
            let pools ← readPools json (iteratorWithPrefix order db dbPrefixPool)
            .ok {
              version := found.version
              timestamp := found.timestamp
              blockNum := found.blockNum
              pools := sortBy PoolSnapshot.poolID pools }

/-! ## The rows of a kind -/

theorem prefix_append_iff {start other rest : List UInt8} (hlen : start.length = other.length) :
    start <+: other ++ rest ↔ start = other := by
  constructor
  · intro h
    exact (List.prefix_of_prefix_length_le h (List.prefix_append other rest) hlen.le).eq_of_length
      hlen
  · rintro rfl
    exact List.prefix_append _ _

theorem not_pool_detail {p : PoolSnapshot} {row : List UInt8 × List UInt8}
    (h : row ∈ detailRows json p) : ¬ dbPrefixPool <+: row.1 := by
  simp only [detailRows, List.mem_append, List.mem_map] at h
  rcases h with (⟨pos, -, rfl⟩ | ⟨t, -, rfl⟩) | ⟨w, -, rfl⟩
  · rw [positionKey, prefix_append_iff (by decide)]
    decide
  · rw [makeTickDBKey, prefix_append_iff (by decide)]
    decide
  · rw [makeBitmapDBKey, prefix_append_iff (by decide)]
    decide

theorem pool_poolRow (p : PoolSnapshot) : dbPrefixPool <+: (poolRow json p).1 :=
  List.prefix_append _ _

/-- No row of a pool takes the place of the metadata. -/
theorem metaKey_notMem (snap : DEXStateSnapshot) :
    metaKey ∉ (snap.pools.flatMap fun p => poolRow json p :: detailRows json p).map Prod.fst := by
  intro h
  obtain ⟨row, hrow, hkey⟩ := List.mem_map.mp h
  obtain ⟨p, -, hmem⟩ := List.mem_flatMap.mp hrow
  have hstart : dbPrefixMeta <+: row.1 := by
    rw [hkey]
    exact List.prefix_append _ _
  rcases List.mem_cons.mp hmem with rfl | hdetail
  · rw [poolRow, poolKey, prefix_append_iff (by decide)] at hstart
    exact absurd hstart (by decide)
  · simp only [detailRows, List.mem_append, List.mem_map] at hdetail
    rcases hdetail with (⟨pos, -, rfl⟩ | ⟨t, -, rfl⟩) | ⟨w, -, rfl⟩
    · rw [positionKey, prefix_append_iff (by decide)] at hstart
      exact absurd hstart (by decide)
    · rw [makeTickDBKey, prefix_append_iff (by decide)] at hstart
      exact absurd hstart (by decide)
    · rw [makeBitmapDBKey, prefix_append_iff (by decide)] at hstart
      exact absurd hstart (by decide)

/-- The rows that a reader of pools is served are those of the pools. -/
theorem filter_snapshotRows (snap : DEXStateSnapshot) :
    ((snapshotRows json snap).filter fun row => dbPrefixPool.isPrefixOf row.1) =
      snap.pools.map (poolRow json) := by
  have hpool : ∀ p : PoolSnapshot, ((poolRow json p :: detailRows json p).filter
      fun row => dbPrefixPool.isPrefixOf row.1) = [poolRow json p] := by
    intro p
    have hhead : ((poolRow json p :: detailRows json p).filter
        fun row => dbPrefixPool.isPrefixOf row.1) =
        poolRow json p :: (detailRows json p).filter fun row => dbPrefixPool.isPrefixOf row.1 :=
      List.filter_cons_of_pos (List.isPrefixOf_iff_prefix.mpr (pool_poolRow json p))
    rw [hhead, List.filter_eq_nil_iff.mpr]
    intro row hrow
    rw [List.isPrefixOf_iff_prefix]
    exact not_pool_detail json hrow
  have hhead : ((snapshotRows json snap).filter fun row => dbPrefixPool.isPrefixOf row.1) =
      (snap.pools.flatMap fun p => poolRow json p :: detailRows json p).filter
        fun row => dbPrefixPool.isPrefixOf row.1 := by
    refine List.filter_cons_of_neg ?_
    rw [List.isPrefixOf_iff_prefix, metaRow, metaKey, prefix_append_iff (by decide)]
    decide
  rw [hhead, List.filter_flatMap]
  simp only [hpool]
  exact List.map_eq_flatMap.symm

/-! ## Reading after writing -/

theorem stringBytes_injective : Function.Injective stringBytes := by
  intro s t h
  have hdata : s.toByteArray.data = t.toByteArray.data := Array.toList_inj.mp h
  exact String.toByteArray_inj.mp (ByteArray.ext hdata)

theorem poolKey_injective : Function.Injective poolKey := fun _ _ h =>
  stringBytes_injective (List.append_cancel_left h)

theorem map_fst_poolRow (pools : List PoolSnapshot) :
    (pools.map (poolRow json)).map Prod.fst = (pools.map PoolSnapshot.poolID).map poolKey := by
  rw [List.map_map, List.map_map]
  rfl

theorem nodup_poolRow {pools : List PoolSnapshot} (h : (pools.map PoolSnapshot.poolID).Nodup) :
    ((pools.map (poolRow json)).map Prod.fst).Nodup := by
  rw [map_fst_poolRow]
  exact h.map poolKey_injective

theorem get_metaKey (db : Database) (snap : DEXStateSnapshot) :
    (writeToZapDB json db snap).get metaKey = some (metaRow json snap).2 := by
  rw [writeToZapDB, snapshotRows, FinMap.insertAll_cons,
    FinMap.get_insertAll_of_notMem (metaKey_notMem json snap), FinMap.get_insert]
  exact Function.update_self _ _ _

theorem get_pool (db : Database) (snap : DEXStateSnapshot) {k : List UInt8}
    (hk : dbPrefixPool <+: k) :
    (writeToZapDB json db snap).get k = (db.insertAll (snap.pools.map (poolRow json))).get k := by
  rw [writeToZapDB, FinMap.get_insertAll_filter db (snapshotRows json snap)
    (List.isPrefixOf_iff_prefix.mpr hk), filter_snapshotRows]

theorem mem_iteratorWithPrefix {order : IteratorOrder} {db : Database} {start k v : List UInt8} :
    (k, v) ∈ iteratorWithPrefix order db start ↔ start <+: k ∧ db.get k = some v := by
  rw [iteratorWithPrefix, (order.serve_perm _).mem_iff, List.mem_filter,
    List.isPrefixOf_iff_prefix, FinMap.get_eq_some, and_comm]

theorem nodup_iteratorWithPrefix (order : IteratorOrder) (db : Database) (start : List UInt8) :
    (iteratorWithPrefix order db start).Nodup :=
  (order.serve_perm _).nodup_iff.mpr (db.entries_nodup.filter _)

theorem readPools_of_forall {rows : List (List UInt8 × List UInt8)}
    {g : List UInt8 × List UInt8 → PoolSnapshot}
    (h : ∀ row ∈ rows, json.unmarshalPool row.2 = some (g row)) :
    readPools json rows = .ok (rows.map g) := by
  induction rows with
  | nil => rfl
  | cons row rest ih =>
      rw [readPools, h row List.mem_cons_self, ih fun r hr => h r (List.mem_cons_of_mem row hr)]
      rfl

/-- A pool is read from every row. -/
theorem length_readPools {rows : List (List UInt8 × List UInt8)} {pools : List PoolSnapshot}
    (h : readPools json rows = .ok pools) : pools.length = rows.length := by
  induction rows generalizing pools with
  | nil =>
      cases h
      rfl
  | cons row rest ih =>
      rw [readPools] at h
      cases hrow : json.unmarshalPool row.2 with
      | none => simp [hrow] at h
      | some p =>
          rw [hrow] at h
          obtain ⟨ps, hps, hout⟩ := bind_eq_ok.mp h
          cases hout
          rw [List.length_cons, List.length_cons, ih hps]

/-- A snapshot of this version with its pools in the order of their identifiers, no two of them
with one identifier: what `ExportState` makes. -/
structure DEXStateSnapshot.Canonical (snap : DEXStateSnapshot) : Prop where
  version : snap.version = snapshotVersion
  inOrder : InKeyOrder PoolSnapshot.poolID snap.pools

/-- Every row of a pool that the database holds already is replaced by the snapshot. -/
def NothingLeftOver (db : Database) (snap : DEXStateSnapshot) : Prop :=
  ∀ row ∈ db.entries, dbPrefixPool <+: row.1 → ∃ p ∈ snap.pools, row.1 = poolKey p.poolID

theorem poolRow_mem_iterator (order : IteratorOrder) (db : Database) {snap : DEXStateSnapshot}
    (hids : (snap.pools.map PoolSnapshot.poolID).Nodup) {row : List UInt8 × List UInt8}
    (hrow : row ∈ snap.pools.map (poolRow json)) :
    row ∈ iteratorWithPrefix order (writeToZapDB json db snap) dbPrefixPool := by
  have hk : dbPrefixPool <+: row.1 := by
    obtain ⟨p, -, rfl⟩ := List.mem_map.mp hrow
    exact pool_poolRow json p
  refine mem_iteratorWithPrefix.mpr ⟨hk, ?_⟩
  rw [get_pool json db snap hk, FinMap.get_insertAll_of_mem (nodup_poolRow json hids) hrow]

/-- Where nothing is left over, the reader is served the rows of the snapshot. -/
theorem NothingLeftOver.iterator_perm {db : Database} {snap : DEXStateSnapshot}
    (h : NothingLeftOver db snap) (hids : (snap.pools.map PoolSnapshot.poolID).Nodup)
    (order : IteratorOrder) :
    (iteratorWithPrefix order (writeToZapDB json db snap) dbPrefixPool).Perm
      (snap.pools.map (poolRow json)) := by
  have hkeys := nodup_poolRow json hids
  rw [List.perm_ext_iff_of_nodup (nodup_iteratorWithPrefix order _ _) (.of_map _ hkeys)]
  rintro ⟨k, v⟩
  rw [mem_iteratorWithPrefix]
  constructor
  · rintro ⟨hk, hget⟩
    rw [get_pool json db snap hk] at hget
    by_cases hwritten : k ∈ (snap.pools.map (poolRow json)).map Prod.fst
    · obtain ⟨row, hrow, rfl⟩ := List.mem_map.mp hwritten
      rw [FinMap.get_insertAll_of_mem hkeys hrow] at hget
      rw [← Option.some.inj hget]
      exact hrow
    · rw [FinMap.get_insertAll_of_notMem hwritten, FinMap.get_eq_some] at hget
      obtain ⟨p, hp, hkey⟩ := h (k, v) hget hk
      refine absurd (List.mem_map.mpr ⟨poolRow json p, List.mem_map_of_mem hp, ?_⟩) hwritten
      exact hkey.symm
  · intro hrow
    exact mem_iteratorWithPrefix.mp (poolRow_mem_iterator json order db hids hrow)

theorem NothingLeftOver.of_older {db : Database} {older snap : DEXStateSnapshot}
    (hids : (older.pools.map PoolSnapshot.poolID).Nodup)
    (h : NothingLeftOver (writeToZapDB json db older) snap) {p : PoolSnapshot}
    (hp : p ∈ older.pools) : ∃ q ∈ snap.pools, q.poolID = p.poolID := by
  have hget : (writeToZapDB json db older).get (poolRow json p).1 = some (poolRow json p).2 := by
    rw [get_pool json db older (pool_poolRow json p)]
    exact FinMap.get_insertAll_of_mem (nodup_poolRow json hids) (List.mem_map_of_mem hp)
  obtain ⟨q, hq, hkey⟩ := h _ (FinMap.get_eq_some.mp hget) (pool_poolRow json p)
  exact ⟨q, hq, (poolKey_injective hkey).symm⟩

/-- Where the new one has all of its pools, an older snapshot leaves nothing over. -/
theorem NothingLeftOver.over_older {db : Database} {older snap : DEXStateSnapshot}
    (h : NothingLeftOver db snap)
    (holder : ∀ p ∈ older.pools, ∃ q ∈ snap.pools, q.poolID = p.poolID) :
    NothingLeftOver (writeToZapDB json db older) snap := by
  rintro ⟨k, v⟩ hrow hk
  have hget := FinMap.get_eq_some.mpr hrow
  rw [get_pool json db older hk] at hget
  by_cases hwritten : k ∈ (older.pools.map (poolRow json)).map Prod.fst
  · rw [map_fst_poolRow, List.map_map] at hwritten
    obtain ⟨p, hp, rfl⟩ := List.mem_map.mp hwritten
    obtain ⟨q, hq, hid⟩ := holder p hp
    refine ⟨q, hq, ?_⟩
    rw [hid]
    rfl
  · rw [FinMap.get_insertAll_of_notMem hwritten, FinMap.get_eq_some] at hget
    exact h (k, v) hget hk

/-- A row left over is served beside those of the snapshot. -/
theorem length_lt_iterator {db : Database} {snap : DEXStateSnapshot}
    (h : ¬ NothingLeftOver db snap) (hids : (snap.pools.map PoolSnapshot.poolID).Nodup)
    (order : IteratorOrder) :
    snap.pools.length <
      (iteratorWithPrefix order (writeToZapDB json db snap) dbPrefixPool).length := by
  have hkeys := nodup_poolRow json hids
  rw [NothingLeftOver] at h
  push Not at h
  obtain ⟨row, hrow, hstart, hfree⟩ := h
  have hnot : row.1 ∉ (snap.pools.map (poolRow json)).map Prod.fst := by
    intro hmem
    obtain ⟨e, he, hkey⟩ := List.mem_map.mp hmem
    obtain ⟨p, hp, rfl⟩ := List.mem_map.mp he
    exact hfree p hp hkey.symm
  have hnodup : (row :: snap.pools.map (poolRow json)).Nodup := by
    refine .of_map Prod.fst ?_
    rw [List.map_cons, List.nodup_cons]
    exact ⟨hnot, hkeys⟩
  have hsubset : row :: snap.pools.map (poolRow json) ⊆
      iteratorWithPrefix order (writeToZapDB json db snap) dbPrefixPool := by
    rintro ⟨k, v⟩ he
    rw [mem_iteratorWithPrefix]
    rcases List.mem_cons.mp he with rfl | he
    · refine ⟨hstart, ?_⟩
      rw [get_pool json db snap hstart, FinMap.get_insertAll_of_notMem hnot, FinMap.get_eq_some]
      exact hrow
    · exact mem_iteratorWithPrefix.mp (poolRow_mem_iterator json order db hids he)
  have hlen := (hnodup.subperm hsubset).length_le
  rw [List.length_cons, List.length_map] at hlen
  exact hlen

theorem readFromZapDB_writeToZapDB (order : IteratorOrder) (db : Database)
    (snap : DEXStateSnapshot) :
    readFromZapDB json order (writeToZapDB json db snap) =
      if snap.version ≠ snapshotVersion then
        .error (.versionMismatch snap.version snapshotVersion)
      else
        readPools json (iteratorWithPrefix order (writeToZapDB json db snap) dbPrefixPool) >>=
          fun pools => .ok { snap with pools := sortBy PoolSnapshot.poolID pools } := by
  rw [readFromZapDB, get_metaKey]
  simp only [metaRow, json.unmarshal_marshalMetadata]

/-- The reader gives back the set of pools that was written exactly when it is a snapshot of this
version and no pool of an older one is left over. -/
theorem readFromZapDB_eq_iff (order : IteratorOrder) (db : Database) {snap : DEXStateSnapshot}
    (hids : (snap.pools.map PoolSnapshot.poolID).Nodup) :
    readFromZapDB json order (writeToZapDB json db snap) = .ok snap ↔
      snap.Canonical ∧ NothingLeftOver db snap := by
  rw [readFromZapDB_writeToZapDB]
  constructor
  · intro h
    by_cases hversion : snap.version = snapshotVersion
    · rw [if_neg (not_not.mpr hversion)] at h
      obtain ⟨pools, hread, hout⟩ := bind_eq_ok.mp h
      have hsorted : sortBy PoolSnapshot.poolID pools = snap.pools :=
        congrArg DEXStateSnapshot.pools (Except.ok.inj hout)
      have hperm : pools.Perm snap.pools := by
        rw [← hsorted]
        exact (sortBy_perm pools).symm
      refine ⟨⟨hversion, ?_⟩, ?_⟩
      · rw [← hsorted]
        exact inKeyOrder_sortBy ((hperm.map _).nodup_iff.mpr hids)
      · by_contra hleft
        have hlt := length_lt_iterator json hleft hids order
        rw [← length_readPools json hread, hperm.length_eq] at hlt
        exact lt_irrefl _ hlt
    · rw [if_pos hversion] at h
      cases h
  · rintro ⟨hcanonical, hnothing⟩
    have hperm := hnothing.iterator_perm json hids order
    have hread : readPools json
        (iteratorWithPrefix order (writeToZapDB json db snap) dbPrefixPool) =
        .ok ((iteratorWithPrefix order (writeToZapDB json db snap) dbPrefixPool).map
          fun row => (json.unmarshalPool row.2).getD default) := by
      refine readPools_of_forall json fun row hrow => ?_
      obtain ⟨p, -, rfl⟩ := List.mem_map.mp (hperm.mem_iff.mp hrow)
      rw [poolRow, json.unmarshal_marshalPool]
      rfl
    have hpools := hperm.map fun row => (json.unmarshalPool row.2).getD default
    have hback : (snap.pools.map (poolRow json)).map
        (fun row => (json.unmarshalPool row.2).getD default) = snap.pools := by
      rw [List.map_map]
      refine (List.map_congr_left fun p _ => ?_).trans (List.map_id _)
      simp only [Function.comp_apply, poolRow, json.unmarshal_marshalPool]
      rfl
    rw [hback] at hpools
    rw [if_neg (not_not.mpr hcanonical.version), hread]
    exact congrArg (fun pools => Except.ok { snap with pools := pools })
      (sortBy_eq hcanonical.inOrder hpools)

end Json

end LuxPrecompile.Dex.Snapshot
