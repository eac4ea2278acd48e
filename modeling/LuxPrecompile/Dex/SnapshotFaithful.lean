import LuxPrecompile.Dex.SnapshotJson
import LuxPrecompile.Dex.SnapshotRestore

/-!
# What snapshots keep

The three ways a snapshot goes: through the database, into an empty manager,
and, when it is malformed, back to the caller.
-/

namespace LuxPrecompile.Dex.Snapshot

open LuxPrecompile.Evm LuxPrecompile.Support

section Common

variable (common : Common)

/-! ## Exported snapshots -/

theorem hexId_injective : Function.Injective hexId := fun id id' h => by
  have hbytes := congrArg fromHex h
  rw [hexId, hexId, fromHex_hexString, fromHex_hexString] at hbytes
  exact hashBytes_inj hbytes

theorem canonical_exportState (pm : PoolManager) (timestamp : Int64) (blockNum : UInt64) :
    (exportState common pm timestamp blockNum).Canonical := by
  refine ⟨rfl, inKeyOrder_sortBy ?_⟩
  have hids : (pm.poolStates.entries.map fun e => exportPoolState common e.1 e.2).map
      PoolSnapshot.poolID = (pm.poolStates.entries.map Prod.fst).map hexId := by
    rw [List.map_map, List.map_map]
    rfl
  rw [hids]
  exact pm.poolStates.distinct.map hexId_injective

theorem readFromZapDB_exportState_iff (json : Json) (order : IteratorOrder) (db : Database)
    (pm : PoolManager) (timestamp : Int64) (blockNum : UInt64) :
    readFromZapDB json order
        (writeToZapDB json db (exportState common pm timestamp blockNum)) =
        .ok (exportState common pm timestamp blockNum) ↔
      NothingLeftOver db (exportState common pm timestamp blockNum) := by
  have hcanonical := canonical_exportState common pm timestamp blockNum
  rw [readFromZapDB_eq_iff json order db hcanonical.inOrder.nodup, and_iff_right hcanonical]

/-! ## Malformed snapshots -/

/-- A text that stands for a number: nothing, which stands for zero, or what `SetString`
accepts. -/
def Numeral (s : String) : Prop := s = "" ∨ (setString s).isSome

def PositionSnapshot.numbers (p : PositionSnapshot) : List String :=
  [p.liquidity, p.feeGrowthInside0LastX128, p.feeGrowthInside1LastX128, p.tokensOwed0,
    p.tokensOwed1]

def TickSnapshot.numbers (t : TickSnapshot) : List String :=
  [t.liquidityGross, t.liquidityNet, t.feeGrowthOutside0X128, t.feeGrowthOutside1X128]

/-- The numbers of a pool, with those of its positions, ticks and bitmap words. -/
def PoolSnapshot.numbers (p : PoolSnapshot) : List String :=
  [p.sqrtPriceX96, p.liquidity, p.feeGrowth0X128, p.feeGrowth1X128, p.protocolFees0,
    p.protocolFees1] ++ p.positions.flatMap PositionSnapshot.numbers ++
    p.ticks.flatMap TickSnapshot.numbers ++ p.bitmapWords.map BitmapWord.value

/-- A text that is an identifier: the digits of 32 bytes, marked as hex or not. -/
def IdText (s : String) : Prop :=
  (dropHexMark s.toList).length = 64 ∧ ∀ c ∈ dropHexMark s.toList, (hexDigit? c).isSome

/-- Every identifier is one and every number of a snapshot can be read. -/
structure DEXStateSnapshot.WellFormed (snap : DEXStateSnapshot) : Prop where
  poolIDs : ∀ p ∈ snap.pools, IdText p.poolID
  positionIDs : ∀ p ∈ snap.pools, ∀ pos ∈ p.positions, IdText pos.positionID
  numbers : ∀ p ∈ snap.pools, ∀ s ∈ p.numbers, Numeral s

theorem strToBigInt_of_not_numeral {s : String} (h : ¬ Numeral s) : strToBigInt s = some 0 := by
  rw [Numeral, not_or, Option.not_isSome_iff_eq_none] at h
  rw [strToBigInt, h.2]
  split_ifs <;> rfl

theorem numeral_bigIntToStr (v : BigInt) : Numeral (bigIntToStr v) := by
  refine Or.inr ?_
  cases v with
  | none => decide
  | some v => rw [setString, bigIntToStr, String.toList_ofList, Decimal.read_text]; rfl

theorem idText_hexId (id : Id) : IdText (hexId id) := by
  have hdigits : dropHexMark (hexId id).toList = (hashBytes id).flatMap byteDigits := by
    rw [hexId, hexString, String.toList_ofList]
    exact dropHexMark_byteDigits _
  rw [IdText, hdigits]
  constructor
  · simp [List.length_flatMap, byteDigits, hashBytes_length]
  · intro c hc
    obtain ⟨b, -, hmem⟩ := List.mem_flatMap.mp hc
    rcases List.mem_cons.mp hmem with rfl | hmem
    · rw [hexDigit?_digitChar _ (Nat.div_lt_of_lt_mul b.toNat_lt)]
      rfl
    · rw [List.mem_singleton.mp hmem, hexDigit?_digitChar _ (Nat.mod_lt _ (by norm_num))]
      rfl

/-- The exporter makes well-formed snapshots. -/
theorem wellFormed_exportState (pm : PoolManager) (timestamp : Int64) (blockNum : UInt64) :
    (exportState common pm timestamp blockNum).WellFormed := by
  have hpool : ∀ p ∈ (exportState common pm timestamp blockNum).pools,
      ∃ e : Id × PoolState, p = exportPoolState common e.1 e.2 := by
    intro p hp
    rw [pools_exportState] at hp
    obtain ⟨e, -, rfl⟩ := List.mem_map.mp hp
    exact ⟨e, rfl⟩
  constructor
  · intro p hp
    obtain ⟨e, rfl⟩ := hpool p hp
    exact idText_hexId e.1
  · intro p hp pos hpos
    obtain ⟨e, rfl⟩ := hpool p hp
    obtain ⟨f, -, rfl⟩ := List.mem_map.mp ((sortBy_perm _).mem_iff.mp hpos)
    exact idText_hexId f.1
  · intro p hp s hs
    obtain ⟨e, rfl⟩ := hpool p hp
    simp only [PoolSnapshot.numbers, List.mem_append, List.mem_flatMap, List.mem_map] at hs
    rcases hs with ((hs | ⟨pos, hpos, hs⟩) | ⟨t, ht, hs⟩) | ⟨w, hw, rfl⟩
    · simp only [exportPoolState, List.mem_cons, List.not_mem_nil, or_false] at hs
      rcases hs with rfl | rfl | rfl | rfl | rfl | rfl <;> exact numeral_bigIntToStr _
    · obtain ⟨f, -, rfl⟩ := List.mem_map.mp ((sortBy_perm _).mem_iff.mp hpos)
      simp only [PositionSnapshot.numbers, exportPosition, List.mem_cons, List.not_mem_nil,
        or_false] at hs
      rcases hs with rfl | rfl | rfl | rfl | rfl <;> exact numeral_bigIntToStr _
    · obtain ⟨f, -, rfl⟩ := List.mem_map.mp ((sortBy_perm _).mem_iff.mp ht)
      simp only [TickSnapshot.numbers, exportTick, List.mem_cons, List.not_mem_nil,
        or_false] at hs
      rcases hs with rfl | rfl | rfl | rfl <;> exact numeral_bigIntToStr _
    · rw [exportPoolState] at hw
      cases hbitmap : e.2.tickBitmap with
      | none => simp [hbitmap] at hw
      | some bitmap =>
          simp only [hbitmap] at hw
          obtain ⟨f, -, rfl⟩ := List.mem_map.mp ((sortBy_perm _).mem_iff.mp hw)
          exact numeral_bigIntToStr _

theorem importPools_error_iff (new : PoolManager) (pools : List PoolSnapshot) :
    (∃ e, importPools common new pools = .error e) ↔
      ∃ p ∈ pools, decodeId common p.poolID = none := by
  induction pools generalizing new with
  | nil => simp [importPools]
  | cons p pools ih =>
      rw [importPools, importPoolSnapshot]
      cases hid : decodeId common p.poolID with
      | none => exact iff_of_true ⟨_, rfl⟩ ⟨p, List.mem_cons_self, hid⟩
      | some id =>
          refine (ih _).trans ?_
          simp only [List.mem_cons, exists_eq_or_imp, hid, reduceCtorEq, false_or]

/-- An import is refused, with the manager as it was, for its version or for the identifier of a
pool. -/
theorem importState_refused_iff (persist : Bool) (pm : PoolManager) (snap : DEXStateSnapshot) :
    (∃ e, importState common persist pm snap = (pm, .failed e)) ↔
      snap.version ≠ snapshotVersion ∨ ∃ p ∈ snap.pools, decodeId common p.poolID = none := by
  rw [importState]
  by_cases hversion : snap.version ≠ snapshotVersion
  · rw [if_pos hversion]
    exact iff_of_true ⟨_, rfl⟩ (Or.inl hversion)
  · rw [if_neg hversion, ← importPools_error_iff common newPoolManager, or_iff_right hversion]
    cases importPools common newPoolManager snap.pools with
    | error e => exact iff_of_true ⟨e, rfl⟩ ⟨e, rfl⟩
    | ok new =>
        refine iff_of_false ?_ ?_
        · rintro ⟨e, he⟩
          have hended := (Prod.mk.inj he).2
          split_ifs at hended
        · rintro ⟨e, he⟩
          cases he

/-- Where snapshots keep what they should.  A set of pools comes back from the database exactly
when it is a snapshot of this version and replaces every pool an older one left there; an export
imported into an empty manager gives the same state exactly when the manager holds nothing but
what its pool states say; and malformed snapshots are refused, the manager unchanged, exactly for
a wrong version or an unreadable identifier of a pool. -/
theorem snapshots_faithful_iff (json : Json) (order : IteratorOrder) :
    (∀ (db : Database) (snap : DEXStateSnapshot), (snap.pools.map PoolSnapshot.poolID).Nodup →
      (readFromZapDB json order (writeToZapDB json db snap) = .ok snap ↔
        snap.Canonical ∧ NothingLeftOver db snap)) ∧
    (∀ (persist : Bool) (pm : PoolManager) (timestamp : Int64) (blockNum : UInt64),
      (∃ new, importState common persist newPoolManager
          (exportState common pm timestamp blockNum) = (new, .imported) ∧ new.value = pm.value) ↔
        pm.Restorable persist) ∧
    ∀ (persist : Bool) (pm : PoolManager) (snap : DEXStateSnapshot),
      (¬ snap.WellFormed →
          ∃ e, importState common persist pm snap = (pm, .failed e)) ↔
        snap.WellFormed ∨ snap.version ≠ snapshotVersion ∨
          ∃ p ∈ snap.pools, decodeId common p.poolID = none := by
  refine ⟨fun db snap hids => readFromZapDB_eq_iff json order db hids,
    fun persist pm timestamp blockNum =>
      importState_exportState_iff common persist pm newPoolManager timestamp blockNum,
    fun persist pm snap => ?_⟩
  rw [importState_refused_iff]
  exact or_iff_not_imp_left.symm

end Common

/-! ## What snapshots lose -/

/-- A pool without positions, ticks and bitmap words. -/
def barePool (liquidity : String) : PoolSnapshot :=
  { (default : PoolSnapshot) with poolID := hexId 1, liquidity := liquidity }

/-- A snapshot of one pool. -/
def onePool (liquidity : String) : DEXStateSnapshot where
  version := snapshotVersion
  timestamp := 0
  blockNum := 0
  pools := [barePool liquidity]

/-- A snapshot without pools. -/
def noPools : DEXStateSnapshot where
  version := snapshotVersion
  timestamp := 0
  blockNum := 0
  pools := []

/-- A manager that has read one pool from the state and has no pool state for it. -/
def readPool : PoolManager where
  pools := FinMap.empty.insert 1 {
    sqrtPriceX96 := some 1
    tick := 0
    liquidity := some 0
    feeGrowth0X128 := some 0
    feeGrowth1X128 := some 0
    protocolFees0 := some 0
    protocolFees1 := some 0 }
  poolStates := .empty
  positions := .empty

/-- A pool with two positions, two ticks and a word of their bitmap. -/
def tradedPool (id : Id) (liquidity : String) : PoolSnapshot :=
  { barePool liquidity with
    poolID := hexId id
    positions := [
      ⟨hexId 10, "0xA11CE", -60, 60, "5", "0", "0", "1", "2"⟩,
      ⟨hexId 11, "0xB0B", -60, 60, "2", "0", "0", "0", "0"⟩]
    ticks := [⟨-60, "7", "7", "0", "0"⟩, ⟨60, "7", "-7", "0", "0"⟩]
    bitmapWords := [⟨-1, "1"⟩] }

/-- The pools of an older block. -/
def olderPools : DEXStateSnapshot where
  version := snapshotVersion
  timestamp := 100
  blockNum := 1
  pools := [tradedPool 2 "3"]

def laterPools : DEXStateSnapshot where
  version := snapshotVersion
  timestamp := 200
  blockNum := 2
  pools := [tradedPool 1 "7", tradedPool 2 "9", tradedPool 3 "7"]

/-- Three pools are read back after they replaced the only one of an older snapshot. -/
theorem snapshots_faithful_laterPools :
    readFromZapDB encodingJson keyOrder
        (writeToZapDB encodingJson (writeToZapDB encodingJson .empty olderPools) laterPools) =
      .ok laterPools := by
  have hids : (laterPools.pools.map PoolSnapshot.poolID).Nodup := by decide +kernel
  have hempty : NothingLeftOver .empty laterPools := fun row hrow => by cases hrow
  have hnothing : NothingLeftOver (writeToZapDB encodingJson .empty olderPools) laterPools := by
    refine hempty.over_older encodingJson fun p hp => ⟨tradedPool 2 "9", by simp [laterPools], ?_⟩
    rw [List.mem_singleton.mp hp]
    rfl
  have hcanonical : laterPools.Canonical := by
    refine ⟨rfl, ?_⟩
    rw [InKeyOrder]
    decide +kernel
  exact ((snapshots_faithful_iff gethCommon encodingJson keyOrder).1 _ laterPools hids).mpr
    ⟨hcanonical, hnothing⟩

/-- A snapshot without pools written after one with a pool is read with that pool; a pool that
was read from the state and has no pool state is not in the snapshot; and a liquidity that is no
number is imported. -/
theorem snapshots_lose :
    readFromZapDB encodingJson keyOrder (writeToZapDB encodingJson
        (writeToZapDB encodingJson .empty (onePool "7")) noPools) ≠ .ok noPools ∧
      (¬ ∃ new, importState gethCommon false newPoolManager (exportState gethCommon readPool 0 0) =
        (new, .imported) ∧ new.value = readPool.value) ∧
      ¬ (onePool "seven").WellFormed ∧
      ¬ ∃ e, importState gethCommon false newPoolManager (onePool "seven") =
        (newPoolManager, .failed e) := by
  refine ⟨fun h => ?_, fun h => ?_, fun h => ?_, fun h => ?_⟩
  · have hids : (noPools.pools.map PoolSnapshot.poolID).Nodup := List.nodup_nil
    have holder : ((onePool "7").pools.map PoolSnapshot.poolID).Nodup := List.nodup_singleton _
    have hnothing := ((readFromZapDB_eq_iff encodingJson keyOrder _ hids).mp h).2
    obtain ⟨q, hq, -⟩ := hnothing.of_older encodingJson holder List.mem_cons_self
    cases hq
  · have hpools := ((importState_exportState_iff gethCommon false readPool newPoolManager 0 0).mp
      h).pools 1
    simp [readPool, FinMap.get_insert] at hpools
  · have hnumeral := h.numbers _ List.mem_cons_self "seven"
      (by simp [PoolSnapshot.numbers, barePool])
    revert hnumeral
    rw [Numeral]
    decide
  · rcases (importState_refused_iff gethCommon false newPoolManager _).mp h with hversion | hpool
    · exact hversion rfl
    · obtain ⟨p, hp, hid⟩ := hpool
      rw [List.mem_singleton.mp hp, barePool, decodeId_hexId] at hid
      cases hid

end LuxPrecompile.Dex.Snapshot
