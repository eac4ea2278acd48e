import LuxPrecompile.V3.State

/-!
# One pool of the storage

The decoded words of a single pool, and what each storage write does to them.
Every invariant of a pool is a statement about its view, so the frame conditions
(a write for one pool leaves every other pool alone) are stated here once.
-/

namespace LuxPrecompile.V3

open Dex Evm

/-- The decoded state of one pool. -/
@[ext]
structure Pool where
  sqrtPrice : ℕ
  tick : ℤ
  liquidity : ℕ
  feeGrowth : Token → ℕ
  tickInfo : ℤ → TickInfo
  words : TickBitmap
  position : PositionKey → Position

/-- The view of one pool. -/
def Storage.view (db : Storage) (pk : PoolKey) : Pool where
  sqrtPrice := loadSqrtPrice db pk
  tick := loadPoolTick db pk
  liquidity := loadLiquidity db pk
  feeGrowth := loadFeeGrowthGlobal db pk
  tickInfo := loadTickInfo db pk
  words := loadBitmapWord db pk
  position := loadPosition db pk

/-- What is read back after a tick was written. -/
def TickInfo.readBack (info : TickInfo) : TickInfo where
  liquidityGross := wordToUint (uintWord info.liquidityGross)
  liquidityNet := wordToInt (intWord info.liquidityNet)
  feeGrowthOutside i := wordToUint (uintWord (info.feeGrowthOutside i))

/-- What is read back after a position was written. -/
def Position.readBack (pos : Position) : Position where
  liquidity := wordToUint (uintWord pos.liquidity)
  feeGrowthInsideLast i := wordToUint (uintWord (pos.feeGrowthInsideLast i))
  tokensOwed i := wordToUint (uintWord (pos.tokensOwed i))

theorem TickInfo.readBack_eq {info : TickInfo}
    (hgross : 0 ≤ info.liquidityGross ∧ info.liquidityGross < 2 ^ 256)
    (hnet : -2 ^ 255 ≤ info.liquidityNet ∧ info.liquidityNet < 2 ^ 255)
    (hout : ∀ i, info.feeGrowthOutside i < 2 ^ 256) : info.readBack = info := by
  obtain ⟨gross, net, outside⟩ := info
  simp only [readBack, TickInfo.mk.injEq]
  refine ⟨wordToUint_uintWord_int hgross.1 hgross.2,
    wordToInt_intWord hnet.1 hnet.2, ?_⟩
  funext i
  exact wordToUint_uintWord_of_lt (hout i)

/-! ## Writes to the viewed pool and to others -/

/-- The view depends on the pool's own words only. -/
theorem view_congr {db db' : Storage} {pk : PoolKey}
    (hpool : db'.pool pk = db.pool pk) (htick : db'.tick pk = db.tick pk)
    (hbitmap : db'.bitmap pk = db.bitmap pk)
    (hposition : db'.position pk = db.position pk) : db'.view pk = db.view pk := by
  ext : 1
  · simp only [Storage.view, loadSqrtPrice, hpool]
  · simp only [Storage.view, loadPoolTick, hpool]
  · simp only [Storage.view, loadLiquidity, hpool]
  · funext i
    simp only [Storage.view, loadFeeGrowthGlobal, hpool]
  · funext t
    simp only [Storage.view, loadTickInfo, htick]
  · funext p
    simp only [Storage.view, loadBitmapWord, hbitmap]
  · funext k
    simp only [Storage.view, loadPosition, hposition]

section Views

variable (db : Storage) {pk pk' : PoolKey}

@[simp]
theorem setPool_pool (pk : PoolKey) (w : PoolWords) : (db.setPool pk w).pool pk = w :=
  Function.update_self _ _ _

@[simp]
theorem setPool_setPool (pk : PoolKey) (w w' : PoolWords) :
    (db.setPool pk w).setPool pk w' = db.setPool pk w' := by
  simp [Storage.setPool]

theorem view_setPool_of_ne (w : PoolWords) (h : pk' ≠ pk) :
    (db.setPool pk w).view pk' = db.view pk' :=
  view_congr (Function.update_of_ne h _ _) rfl rfl rfl

theorem view_setPool (pk : PoolKey) (w : PoolWords) :
    (db.setPool pk w).view pk =
      { db.view pk with
        sqrtPrice := wordToUint w.sqrtPrice
        tick := int32 (wordToInt w.tick)
        liquidity := wordToUint w.liquidity
        feeGrowth := fun i => wordToUint (w.feeGrowthGlobal i) } := by
  ext : 1
  · simp [Storage.view, loadSqrtPrice, Storage.setPool]
  · simp [Storage.view, loadPoolTick, Storage.setPool]
  · simp [Storage.view, loadLiquidity, Storage.setPool]
  · funext i
    simp [Storage.view, loadFeeGrowthGlobal, Storage.setPool]
  · rfl
  · rfl
  · rfl

theorem view_storeTickInfo_of_ne (t : ℤ) (info : TickInfo) (h : pk' ≠ pk) :
    (storeTickInfo db pk t info).view pk' = db.view pk' :=
  view_congr rfl (Function.update_of_ne h _ _) rfl rfl

theorem view_storeTickInfo (pk : PoolKey) (t : ℤ) (info : TickInfo) :
    (storeTickInfo db pk t info).view pk =
      { db.view pk with
        tickInfo := Function.update (db.view pk).tickInfo t info.readBack } := by
  ext : 1
  · rfl
  · rfl
  · rfl
  · rfl
  · funext t'
    by_cases h : t' = t
    · subst h
      simp [Storage.view, loadTickInfo, storeTickInfo, TickInfo.readBack]
    · simp [Storage.view, loadTickInfo, storeTickInfo, h]
  · rfl
  · rfl

theorem view_storeBitmapWord_of_ne (pos : ℤ) (word : ℕ) (h : pk' ≠ pk) :
    (storeBitmapWord db pk pos word).view pk' = db.view pk' :=
  view_congr rfl rfl (Function.update_of_ne h _ _) rfl

theorem view_storeBitmapWord (pk : PoolKey) (pos : ℤ) (word : ℕ) :
    (storeBitmapWord db pk pos word).view pk =
      { db.view pk with
        words := Function.update (db.view pk).words pos (wordToUint (uintWord word)) } := by
  ext : 1
  · rfl
  · rfl
  · rfl
  · rfl
  · rfl
  · funext p
    by_cases h : p = pos
    · subst h
      simp [Storage.view, loadBitmapWord, storeBitmapWord]
    · simp [Storage.view, loadBitmapWord, storeBitmapWord, h]
  · rfl

theorem view_storePosition_of_ne (key : PositionKey) (pos : Position) (h : pk' ≠ pk) :
    (storePosition db pk key pos).view pk' = db.view pk' :=
  view_congr rfl rfl rfl (Function.update_of_ne h _ _)

theorem view_storePosition (pk : PoolKey) (key : PositionKey) (pos : Position) :
    (storePosition db pk key pos).view pk =
      { db.view pk with
        position := Function.update (db.view pk).position key pos.readBack } := by
  ext : 1
  · rfl
  · rfl
  · rfl
  · rfl
  · rfl
  · rfl
  · funext k
    by_cases h : k = key
    · subst h
      simp [Storage.view, loadPosition, storePosition, Position.readBack]
    · simp [Storage.view, loadPosition, storePosition, h]

@[simp]
theorem view_storeReserve (pk : PoolKey) (asset : Address) (v : ℕ) :
    (storeReserve db asset v).view pk = db.view pk := rfl

@[simp]
theorem view_guard (pk : PoolKey) (g : Word) :
    ({ db with guard := g } : Storage).view pk = db.view pk := rfl

end Views

/-! ## Writes of one pool -/

/-- The second storage differs from the first in the words of one pool only. -/
structure Local (pk : PoolKey) (db db' : Storage) : Prop where
  view_eq : ∀ pk', pk' ≠ pk → db'.view pk' = db.view pk'
  reserve_eq : db'.reserve = db.reserve
  guard_eq : db'.guard = db.guard

namespace Local

variable {pk : PoolKey}

theorem refl (db : Storage) : Local pk db db :=
  ⟨fun _ _ => rfl, rfl, rfl⟩

theorem trans {db1 db2 db3 : Storage} (h12 : Local pk db1 db2) (h23 : Local pk db2 db3) :
    Local pk db1 db3 where
  view_eq pk' hne := (h23.view_eq pk' hne).trans (h12.view_eq pk' hne)
  reserve_eq := h23.reserve_eq.trans h12.reserve_eq
  guard_eq := h23.guard_eq.trans h12.guard_eq

theorem setPool (db : Storage) (w : PoolWords) : Local pk db (db.setPool pk w) :=
  ⟨fun _ hne => view_setPool_of_ne db w hne, rfl, rfl⟩

theorem storeTickInfo (db : Storage) (t : ℤ) (info : TickInfo) :
    Local pk db (storeTickInfo db pk t info) :=
  ⟨fun _ hne => view_storeTickInfo_of_ne db t info hne, rfl, rfl⟩

theorem storeBitmapWord (db : Storage) (pos : ℤ) (word : ℕ) :
    Local pk db (storeBitmapWord db pk pos word) :=
  ⟨fun _ hne => view_storeBitmapWord_of_ne db pos word hne, rfl, rfl⟩

theorem storePosition (db : Storage) (key : PositionKey) (pos : Position) :
    Local pk db (storePosition db pk key pos) :=
  ⟨fun _ hne => view_storePosition_of_ne db key pos hne, rfl, rfl⟩

end Local

/-! ## Bounds every view satisfies -/

theorem view_feeGrowth_lt (db : Storage) (pk : PoolKey) (i : Token) :
    (db.view pk).feeGrowth i < 2 ^ 256 :=
  wordToUint_lt _

theorem view_words_lt (db : Storage) (pk : PoolKey) (p : ℤ) :
    (db.view pk).words p < 2 ^ 256 :=
  wordToUint_lt _

/-! ## The bitmap of a pool -/

theorem nextInitializedTick_eq (db : Storage) (pk : PoolKey) (t : ℤ) (lte : Bool) :
    nextInitializedTick db pk t lte =
      nextInitializedTickWithinOneWord (db.view pk).words t pk.tickSpacing lte := by
  unfold nextInitializedTick
  apply nextInitializedTick_congr
  simp only [singleWord, if_true]
  rfl

/-- Toggling one bit keeps a word in range. -/
theorem flipTick_lt {words : TickBitmap} {t spacing p : ℤ} (h : words p < 2 ^ 256) :
    flipTick words t spacing p < 2 ^ 256 := by
  unfold flipTick
  split_ifs
  · exact h
  · simp only [Function.update_apply]
    split_ifs with hp
    · subst hp
      apply Nat.xor_lt_two_pow h
      rw [Nat.shiftLeft_eq, Nat.one_mul]
      apply Nat.pow_lt_pow_right (by norm_num)
      simp only [tickBitmapPosition]
      omega
    · exact h

/-- The stored word that is flipped is the word of the whole bitmap. -/
theorem view_flipTickBitmap (db : Storage) (pk : PoolKey) (t : ℤ) :
    (flipTickBitmap db pk t).view pk =
      { db.view pk with words := flipTick (db.view pk).words t pk.tickSpacing } := by
  rw [flipTickBitmap, view_storeBitmapWord]
  generalize hpos : (tickBitmapPosition (compress t pk.tickSpacing)).1 = pos
  have hword : flipTick (singleWord pos (loadBitmapWord db pk pos)) t pk.tickSpacing pos =
      flipTick (db.view pk).words t pk.tickSpacing pos := by
    unfold flipTick
    split_ifs
    · simp [singleWord, Storage.view]
    · simp [hpos, singleWord, Storage.view]
  rw [hword, wordToUint_uintWord_of_lt (flipTick_lt (view_words_lt db pk pos))]
  ext p : 2
  all_goals try rfl
  by_cases hp : p = pos
  · subst hp
    simp
  · have hother : flipTick (db.view pk).words t pk.tickSpacing p = (db.view pk).words p := by
      unfold flipTick
      split_ifs
      · rfl
      · simp [hpos, hp]
    simp only [Function.update_of_ne hp, hother]

end LuxPrecompile.V3
