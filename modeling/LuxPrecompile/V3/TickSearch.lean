import LuxPrecompile.V3.PriceTick
import Mathlib.Order.Bounds.Basic

/-!
# The search of the tick bitmap

A search looks at one word: that of the tick when it goes down, and that of the next
compressed tick when it goes up.  There it finds the nearest initialised tick, and
otherwise the edge of the word, with nothing initialised on the way.  Searching again from
where the last search ended, as a swap does, visits every initialised tick once.
-/

namespace LuxPrecompile.V3

open Dex Evm

/-! ## One search -/

/-- The bitmap word of a tick. -/
def tickWord (tick spacing : ℤ) : ℤ := (tickBitmapPosition (compress tick spacing)).1

/-- The bitmap word of the compressed tick after that of a tick. -/
def wordAbove (tick spacing : ℤ) : ℤ := (tickBitmapPosition (compress tick spacing + 1)).1

/-- What a search down from `tick` reports over the initialised ticks `T`. -/
structure SearchDown (T : Set ℤ) (spacing tick : ℤ) (result : ℤ × Bool) : Prop where
  found : ∀ t, IsGreatest {u | u ∈ T ∧ u ≤ tick} t →
    tickWord t spacing = tickWord tick spacing → result = (t, true)
  missed : (∀ u ∈ T, u ≤ tick → tickWord u spacing ≠ tickWord tick spacing) →
    result = (tickWord tick spacing * 256 * spacing, false) ∧ result.1 ≤ tick ∧
      ∀ u ∈ T, ¬(result.1 ≤ u ∧ u ≤ tick)

/-- What a search up from `tick` reports. -/
structure SearchUp (T : Set ℤ) (spacing tick : ℤ) (result : ℤ × Bool) : Prop where
  found : ∀ t, IsLeast {u | u ∈ T ∧ tick < u} t →
    tickWord t spacing = wordAbove tick spacing → result = (t, true)
  missed : (∀ u ∈ T, tick < u → tickWord u spacing ≠ wordAbove tick spacing) →
    result = ((wordAbove tick spacing * 256 + 255) * spacing, false) ∧ tick < result.1 ∧
      ∀ u ∈ T, ¬(tick < u ∧ u ≤ result.1)

/-- The bits of a bitmap are those of the ticks in `T`, all of them aligned. -/
structure Represents (bitmap : TickBitmap) (spacing : ℤ) (T : Set ℤ) : Prop where
  bit : ∀ i, bitSet bitmap i = true ↔ i * spacing ∈ T
  aligned : ∀ t ∈ T, spacing ∣ t
  band : ∀ t ∈ T, minTick ≤ t ∧ t ≤ maxTick

section Search

variable {bitmap : TickBitmap} {spacing tick : ℤ} {T : Set ℤ}

theorem compress_range (hs : 1 ≤ spacing) (hmin : minTick - 1 ≤ tick) (hmax : tick ≤ maxTick) :
    -2 ^ 22 ≤ tick / spacing ∧ tick / spacing + 1 < 2 ^ 22 := by
  unfold minTick at hmin
  unfold maxTick at hmax
  have hpos : 0 < spacing := by omega
  constructor
  · rw [Int.le_ediv_iff_mul_le hpos]
    nlinarith
  · have hlt : tick / spacing < 2 ^ 21 := by
      rw [Int.ediv_lt_iff_lt_mul hpos]
      nlinarith
    omega

theorem tickWord_eq (hs : 1 ≤ spacing) (hmin : minTick - 1 ≤ tick) (hmax : tick ≤ maxTick) :
    tickWord tick spacing = tick / spacing / 256 := by
  obtain ⟨hlo, hhi⟩ := compress_range hs hmin hmax
  rw [tickWord, compress_eq (by omega), tickBitmapPosition_eq ⟨hlo, by omega⟩]

theorem wordAbove_eq (hs : 1 ≤ spacing) (hmin : minTick - 1 ≤ tick) (hmax : tick ≤ maxTick) :
    wordAbove tick spacing = (tick / spacing + 1) / 256 := by
  obtain ⟨hlo, hhi⟩ := compress_range hs hmin hmax
  rw [wordAbove, compress_eq (by omega), tickBitmapPosition_eq ⟨by omega, hhi⟩]

theorem tickWord_mul (hs : 1 ≤ spacing) {n : ℤ} (hmin : minTick - 1 ≤ n * spacing)
    (hmax : n * spacing ≤ maxTick) : tickWord (n * spacing) spacing = n / 256 := by
  rw [tickWord_eq hs hmin hmax, Int.mul_ediv_cancel _ (by omega)]

theorem search_down (hs : 1 ≤ spacing) (h : Represents bitmap spacing T)
    (hmin : minTick - 1 ≤ tick) (hmax : tick ≤ maxTick) :
    SearchDown T spacing tick (nextInitializedTickWithinOneWord bitmap tick spacing true) := by
  have hpos : 0 < spacing := by omega
  obtain ⟨hlo, hhi⟩ := compress_range hs hmin hmax
  obtain ⟨n, hn, hle, hfar, hbit, hnone, hedge⟩ :=
    nextInitializedTick_lte bitmap hpos ⟨hlo, by omega⟩
  obtain ⟨m, hm, hinword⟩ := nextInitializedTick_lte_word bitmap hpos ⟨hlo, by omega⟩
  have hnm : n = tick / spacing / 256 * 256 + m :=
    mul_right_cancel₀ hpos.ne' (hn.symm.trans hinword)
  have hword := tickWord_eq hs hmin hmax
  have hnle : n * spacing ≤ tick := by rwa [← Int.le_ediv_iff_mul_le hpos]
  have habove : ∀ u ∈ T, u ≤ tick → u ≤ n * spacing := by
    intro u hu hut
    obtain ⟨i, rfl⟩ := h.aligned u hu
    rw [mul_comm spacing i] at hu hut ⊢
    by_contra hlt
    have hni : n < i := lt_of_mul_lt_mul_right (not_le.mp hlt) hpos.le
    have hunset := hnone i hni ((Int.le_ediv_iff_mul_le hpos).mpr hut)
    rw [(h.bit i).mpr hu] at hunset
    cases hunset
  constructor
  · intro t ht hsame
    obtain ⟨i, rfl⟩ := h.aligned t ht.1.1
    obtain ⟨hband, -⟩ := h.band _ ht.1.1
    have htop := ht.1.2
    rw [mul_comm spacing i] at ht hsame hband htop ⊢
    rw [hword, tickWord_mul hs (by omega) (by omega)] at hsame
    have hin := habove _ ht.1.1 ht.1.2
    have hile : i ≤ n := le_of_mul_le_mul_right hin hpos
    have hset : bitSet bitmap n = true := by
      by_contra hunset
      have hdvd := hedge (by simpa using hunset)
      have hin' : i = n := by omega
      rw [← hin'] at hunset
      exact hunset ((h.bit i).mpr ht.1.1)
    have hnT := (h.bit n).mp hset
    have heq : n * spacing = i * spacing := le_antisymm (ht.2 ⟨hnT, hnle⟩) hin
    exact Prod.ext (hn.trans heq) (hbit.trans hset)
  · intro hempty
    have hunset : bitSet bitmap n = false := by
      by_contra hset
      have hnT := (h.bit n).mp (by simpa using hset)
      obtain ⟨hband, -⟩ := h.band _ hnT
      refine hempty _ hnT hnle ?_
      rw [hword, tickWord_mul hs (by omega) (by omega)]
      omega
    have hdvd := hedge hunset
    have hneq : n = tick / spacing / 256 * 256 := by omega
    have hfirst : (nextInitializedTickWithinOneWord bitmap tick spacing true).1 =
        tickWord tick spacing * 256 * spacing := by rw [hn, hword, hneq]
    refine ⟨Prod.ext hfirst (hbit.trans hunset), hn ▸ hnle, ?_⟩
    rintro u hu ⟨hlow, hhigh⟩
    rw [hn] at hlow
    have heq := le_antisymm (habove u hu hhigh) hlow
    rw [heq] at hu
    rw [(h.bit n).mpr hu] at hunset
    cases hunset

theorem search_up (hs : 1 ≤ spacing) (h : Represents bitmap spacing T)
    (hmin : minTick - 1 ≤ tick) (hmax : tick ≤ maxTick) :
    SearchUp T spacing tick (nextInitializedTickWithinOneWord bitmap tick spacing false) := by
  have hpos : 0 < spacing := by omega
  obtain ⟨hlo, hhi⟩ := compress_range hs hmin hmax
  obtain ⟨n, hn, hgt, -, hbit, hnone⟩ := nextInitializedTick_gt bitmap hpos ⟨by omega, hhi⟩
  obtain ⟨m, hm, hinword⟩ := nextInitializedTick_gt_word bitmap hpos ⟨by omega, hhi⟩
  have hnm : n = (tick / spacing + 1) / 256 * 256 + m :=
    mul_right_cancel₀ hpos.ne' (hn.symm.trans hinword)
  have hword := wordAbove_eq hs hmin hmax
  have hngt : tick < n * spacing := by rwa [← Int.ediv_lt_iff_lt_mul hpos]
  have hbelow : ∀ u ∈ T, tick < u → n * spacing ≤ u := by
    intro u hu hut
    obtain ⟨i, rfl⟩ := h.aligned u hu
    rw [mul_comm spacing i] at hu hut ⊢
    by_contra hlt
    have hni : i < n := lt_of_mul_lt_mul_right (not_le.mp hlt) hpos.le
    have hunset := hnone i ((Int.ediv_lt_iff_lt_mul hpos).mpr hut) hni
    rw [(h.bit i).mpr hu] at hunset
    cases hunset
  constructor
  · intro t ht hsame
    obtain ⟨i, rfl⟩ := h.aligned t ht.1.1
    obtain ⟨hband, hbandmax⟩ := h.band _ ht.1.1
    rw [mul_comm spacing i] at ht hsame hband hbandmax ⊢
    rw [hword, tickWord_mul hs (by omega) hbandmax] at hsame
    have hin := hbelow _ ht.1.1 ht.1.2
    have hile : n ≤ i := le_of_mul_le_mul_right hin hpos
    have hset : bitSet bitmap n = true := by
      by_contra hunset
      have hedge := nextInitializedTick_gt_edge bitmap hpos ⟨by omega, hhi⟩
        (hbit.trans (by simpa using hunset))
      have hnedge : n = (tick / spacing + 1) / 256 * 256 + 255 :=
        mul_right_cancel₀ hpos.ne' (hn.symm.trans hedge)
      have hin' : i = n := by omega
      rw [← hin'] at hunset
      exact hunset ((h.bit i).mpr ht.1.1)
    have hnT := (h.bit n).mp hset
    have heq : n * spacing = i * spacing := le_antisymm hin (ht.2 ⟨hnT, hngt⟩)
    exact Prod.ext (hn.trans heq) (hbit.trans hset)
  · intro hempty
    have hunset : bitSet bitmap n = false := by
      by_contra hset
      have hnT := (h.bit n).mp (by simpa using hset)
      obtain ⟨hband, hbandmax⟩ := h.band _ hnT
      refine hempty _ hnT hngt ?_
      rw [hword, tickWord_mul hs (by omega) hbandmax]
      omega
    have hedge := nextInitializedTick_gt_edge bitmap hpos ⟨by omega, hhi⟩
      (hbit.trans hunset)
    rw [← hword] at hedge
    refine ⟨Prod.ext hedge (hbit.trans hunset), hn ▸ hngt, ?_⟩
    rintro u hu ⟨hlow, hhigh⟩
    rw [hn] at hhigh
    have heq := le_antisymm hhigh (hbelow u hu hlow)
    rw [heq] at hu
    rw [(h.bit n).mpr hu] at hunset
    cases hunset

end Search

/-! ## The searches of a walk -/

section Walk

variable (db : Storage) (pk : PoolKey) (lte : Bool) (limit : ℤ)

/-- The ticks whose bit a pool has set. -/
def Storage.initializedTicks : Set ℤ :=
  {t | ∃ i, t = i * pk.tickSpacing ∧ bitSet (db.view pk).words i = true}

/-- The initialised ticks that repeated searches of a pool report from `tick` on, as long
as they do not pass the limit. -/
def ticksVisited : ℕ → ℤ → List ℤ
  | 0, _ => []
  | fuel + 1, tick =>
      let next := nextInitializedTick db pk tick lte
      if (if lte then next.1 < limit else limit < next.1) then []
      else
        (if next.2 then [next.1] else []) ++
          ticksVisited fuel (tickAfterCross lte next.1)

variable {db pk limit}

/-- A search down reports the nearest initialised tick, or one with none above it. -/
theorem nextInitializedTick_down {tick : ℤ} (hmin : minTick - 1 ≤ tick)
    (hmax : tick ≤ maxTick) :
    (nextInitializedTick db pk tick true).1 ≤ tick ∧
      ((nextInitializedTick db pk tick true).2 = true ↔
        (nextInitializedTick db pk tick true).1 ∈ db.initializedTicks pk) ∧
      ∀ u ∈ db.initializedTicks pk, u ≤ tick →
        u ≤ (nextInitializedTick db pk tick true).1 := by
  have hs := pk.spacing_pos
  have hpos : 0 < pk.tickSpacing := by omega
  obtain ⟨hlo, hhi⟩ := compress_range hs hmin hmax
  obtain ⟨n, hn, hle, -, hbit, hnone, -⟩ :=
    nextInitializedTick_lte (db.view pk).words hpos ⟨hlo, by omega⟩
  rw [nextInitializedTick_eq, hn, hbit]
  refine ⟨by rwa [← Int.le_ediv_iff_mul_le hpos], ⟨fun hset => ⟨n, rfl, hset⟩, ?_⟩, ?_⟩
  · rintro ⟨i, heq, hset⟩
    rwa [mul_right_cancel₀ hpos.ne' heq]
  · rintro u ⟨i, rfl, hset⟩ hu
    by_contra hlt
    have hni : n < i := lt_of_mul_lt_mul_right (not_le.mp hlt) hpos.le
    rw [hnone i hni ((Int.le_ediv_iff_mul_le hpos).mpr hu)] at hset
    cases hset

/-- A search up reports the nearest initialised tick, or one with none below it. -/
theorem nextInitializedTick_up {tick : ℤ} (hmin : minTick - 1 ≤ tick)
    (hmax : tick ≤ maxTick) :
    tick < (nextInitializedTick db pk tick false).1 ∧
      ((nextInitializedTick db pk tick false).2 = true ↔
        (nextInitializedTick db pk tick false).1 ∈ db.initializedTicks pk) ∧
      ∀ u ∈ db.initializedTicks pk, tick < u →
        (nextInitializedTick db pk tick false).1 ≤ u := by
  have hs := pk.spacing_pos
  have hpos : 0 < pk.tickSpacing := by omega
  obtain ⟨hlo, hhi⟩ := compress_range hs hmin hmax
  obtain ⟨n, hn, hgt, -, hbit, hnone⟩ :=
    nextInitializedTick_gt (db.view pk).words hpos ⟨by omega, hhi⟩
  rw [nextInitializedTick_eq, hn, hbit]
  refine ⟨by rwa [← Int.ediv_lt_iff_lt_mul hpos], ⟨fun hset => ⟨n, rfl, hset⟩, ?_⟩, ?_⟩
  · rintro ⟨i, heq, hset⟩
    rwa [mul_right_cancel₀ hpos.ne' heq]
  · rintro u ⟨i, rfl, hset⟩ hu
    by_contra hlt
    have hni : i < n := lt_of_mul_lt_mul_right (not_le.mp hlt) hpos.le
    rw [hnone i ((Int.ediv_lt_iff_lt_mul hpos).mpr hu) hni] at hset
    cases hset

/-- Going down, the walk visits the initialised ticks from the start to the limit, each
once and in falling order. -/
theorem ticksVisited_down (hlimit : minTick ≤ limit) {fuel : ℕ} {tick : ℤ}
    (hmin : limit - 1 ≤ tick) (hmax : tick ≤ maxTick)
    (hfuel : (tick - limit + 1).toNat < fuel) :
    (ticksVisited db pk true limit fuel tick).Pairwise (· > ·) ∧
      ∀ t, t ∈ ticksVisited db pk true limit fuel tick ↔
        t ∈ db.initializedTicks pk ∧ limit ≤ t ∧ t ≤ tick := by
  induction fuel generalizing tick with
  | zero => exact absurd hfuel (Nat.not_lt_zero _)
  | succ fuel ih =>
      obtain ⟨hle, hiff, hnone⟩ :=
        @nextInitializedTick_down db pk tick (by omega) hmax
      rw [ticksVisited]
      generalize nextInitializedTick db pk tick true = next at hle hiff hnone ⊢
      simp only [if_true, tickAfterCross]
      split_ifs with hpast hset
      · refine ⟨List.Pairwise.nil, fun t => ⟨fun ht => absurd ht List.not_mem_nil, ?_⟩⟩
        rintro ⟨ht, hlow, hhigh⟩
        have := hnone t ht hhigh
        omega
      · obtain ⟨hsorted, hmem⟩ := @ih (next.1 - 1) (by omega) (by omega) (by omega)
        refine ⟨?_, fun t => ?_⟩
        · refine List.Pairwise.cons (fun t ht => ?_) hsorted
          have := ((hmem t).mp ht).2.2
          omega
        · rw [List.mem_append, List.mem_singleton, hmem]
          constructor
          · rintro (rfl | ⟨ht, hlow, hhigh⟩)
            · exact ⟨hiff.mp hset, by omega, hle⟩
            · exact ⟨ht, hlow, by omega⟩
          · rintro ⟨ht, hlow, hhigh⟩
            have hbelow := hnone t ht hhigh
            rcases hbelow.eq_or_lt with heq | hlt
            · exact .inl heq
            · exact .inr ⟨ht, hlow, by omega⟩
      · obtain ⟨hsorted, hmem⟩ := @ih (next.1 - 1) (by omega) (by omega) (by omega)
        refine ⟨hsorted, fun t => ?_⟩
        rw [List.nil_append, hmem]
        constructor
        · rintro ⟨ht, hlow, hhigh⟩
          exact ⟨ht, hlow, by omega⟩
        · rintro ⟨ht, hlow, hhigh⟩
          have hbelow := hnone t ht hhigh
          refine ⟨ht, hlow, ?_⟩
          by_contra hlast
          have heq : t = next.1 := by omega
          exact hset (hiff.mpr (heq ▸ ht))

/-- Going up, the walk visits the initialised ticks above the start and up to the limit,
each once and in rising order. -/
theorem ticksVisited_up (hlimit : limit ≤ maxTick) {fuel : ℕ} {tick : ℤ}
    (hmin : minTick - 1 ≤ tick) (hmax : tick ≤ limit) (hfuel : (limit - tick).toNat < fuel) :
    (ticksVisited db pk false limit fuel tick).Pairwise (· < ·) ∧
      ∀ t, t ∈ ticksVisited db pk false limit fuel tick ↔
        t ∈ db.initializedTicks pk ∧ tick < t ∧ t ≤ limit := by
  induction fuel generalizing tick with
  | zero => exact absurd hfuel (Nat.not_lt_zero _)
  | succ fuel ih =>
      obtain ⟨hlt, hiff, hnone⟩ :=
        @nextInitializedTick_up db pk tick hmin (by omega)
      rw [ticksVisited]
      generalize nextInitializedTick db pk tick false = next at hlt hiff hnone ⊢
      simp only [Bool.false_eq_true, if_false, tickAfterCross]
      split_ifs with hpast hset
      · refine ⟨List.Pairwise.nil, fun t => ⟨fun ht => absurd ht List.not_mem_nil, ?_⟩⟩
        rintro ⟨ht, hlow, hhigh⟩
        have := hnone t ht hlow
        omega
      · obtain ⟨hsorted, hmem⟩ := @ih next.1 (by omega) (by omega) (by omega)
        refine ⟨?_, fun t => ?_⟩
        · exact List.Pairwise.cons (fun t ht => ((hmem t).mp ht).2.1) hsorted
        · rw [List.mem_append, List.mem_singleton, hmem]
          constructor
          · rintro (rfl | ⟨ht, hlow, hhigh⟩)
            · exact ⟨hiff.mp hset, hlt, by omega⟩
            · exact ⟨ht, by omega, hhigh⟩
          · rintro ⟨ht, hlow, hhigh⟩
            have habove := hnone t ht hlow
            rcases habove.eq_or_lt with heq | hgt
            · exact .inl heq.symm
            · exact .inr ⟨ht, hgt, hhigh⟩
      · obtain ⟨hsorted, hmem⟩ := @ih next.1 (by omega) (by omega) (by omega)
        refine ⟨hsorted, fun t => ?_⟩
        rw [List.nil_append, hmem]
        constructor
        · rintro ⟨ht, hlow, hhigh⟩
          exact ⟨ht, by omega, hhigh⟩
        · rintro ⟨ht, hlow, hhigh⟩
          have habove := hnone t ht hlow
          refine ⟨ht, ?_, hhigh⟩
          by_contra hfirst
          have heq : t = next.1 := by omega
          exact hset (hiff.mpr (heq ▸ ht))

end Walk

/-- The search of the bitmap.  Over any set of aligned ticks of the band, each flipped
once, and from any tick of the band, a search reports the nearest initialised tick at or
below the start (strictly above it when it goes up) if that lies in the word the search
reads: the word of the compressed tick going down, and of the next one going up.
Otherwise it reports the edge of that word, with nothing initialised on the way.  Repeated
searches of a pool visit every initialised tick between start and limit, each once, in
order. -/
theorem tickSearch_correct :
    (∀ (spacing : ℤ), 1 ≤ spacing → spacing ≤ 16384 → ∀ (ts : List ℤ), ts.Nodup →
      (∀ t ∈ ts, spacing ∣ t ∧ minTick ≤ t ∧ t ≤ maxTick) →
      ∀ tick, minTick - 1 ≤ tick → tick ≤ maxTick →
        SearchDown {t | t ∈ ts} spacing tick
          (nextInitializedTickWithinOneWord (flipTicks spacing ts) tick spacing true) ∧
        SearchUp {t | t ∈ ts} spacing tick
          (nextInitializedTickWithinOneWord (flipTicks spacing ts) tick spacing false)) ∧
    (∀ (db : Storage) (pk : PoolKey) (start limit : ℤ),
      (minTick ≤ limit → limit - 1 ≤ start → start ≤ maxTick →
        ∀ fuel, (start - limit + 1).toNat < fuel →
          (ticksVisited db pk true limit fuel start).Pairwise (· > ·) ∧
          ∀ t, t ∈ ticksVisited db pk true limit fuel start ↔
            t ∈ db.initializedTicks pk ∧ limit ≤ t ∧ t ≤ start) ∧
      (limit ≤ maxTick → minTick - 1 ≤ start → start ≤ limit →
        ∀ fuel, (limit - start).toNat < fuel →
          (ticksVisited db pk false limit fuel start).Pairwise (· < ·) ∧
          ∀ t, t ∈ ticksVisited db pk false limit fuel start ↔
            t ∈ db.initializedTicks pk ∧ start < t ∧ t ≤ limit)) := by
  refine ⟨?_, fun db pk start limit => ⟨?_, ?_⟩⟩
  · intro spacing hs _ ts hnodup hticks tick hmin hmax
    have hbits : Represents (flipTicks spacing ts) spacing {t | t ∈ ts} := by
      refine ⟨fun i => ?_, fun t ht => (hticks t ht).1, fun t ht => (hticks t ht).2⟩
      refine bitSet_flipTicks (by omega) hnodup (fun t ht => (hticks t ht).1) ?_ i
      intro t ht
      obtain ⟨-, htmin, htmax⟩ := hticks t ht
      obtain ⟨hlo, hhi⟩ := compress_range hs (show minTick - 1 ≤ t by omega) htmax
      exact ⟨hlo, by omega⟩
    exact ⟨search_down hs hbits hmin hmax, search_up hs hbits hmin hmax⟩
  · intro hlimit hmin hmax fuel hfuel
    exact ticksVisited_down hlimit hmin hmax hfuel
  · intro hlimit hmin hmax fuel hfuel
    exact ticksVisited_up hlimit hmin hmax hfuel

/-- A search up from the last tick of a word, and a walk over two initialised ticks. -/
theorem tickSearch_correct_sample :
    nextInitializedTickWithinOneWord (flipTicks 1 [256]) 255 1 false = (256, true) ∧
      -120 ∈ ticksVisited (flipTickBitmap (flipTickBitmap Storage.empty sixtyPool 60)
        sixtyPool (-120)) sixtyPool true (-300) 500 100 ∧
      60 ∈ ticksVisited (flipTickBitmap (flipTickBitmap Storage.empty sixtyPool 60)
        sixtyPool (-120)) sixtyPool false 300 500 (-100) := by
  refine ⟨?_, ?_, ?_⟩
  · refine (tickSearch_correct.1 1 (by decide) (by decide) [256] (by decide) (by decide) 255
      (by decide) (by decide)).2.found 256 ⟨⟨by simp, by decide⟩, ?_⟩ (by decide)
    rintro u ⟨hu, -⟩
    exact (List.mem_singleton.mp hu).ge
  · exact (((tickSearch_correct.2 _ _ 100 (-300)).1 (by decide) (by decide) (by decide) 500
      (by decide)).2 (-120)).mpr ⟨⟨-2, rfl, by decide⟩, by decide, by decide⟩
  · exact (((tickSearch_correct.2 _ _ (-100) 300).2 (by decide) (by decide) (by decide) 500
      (by decide)).2 60).mpr ⟨⟨1, rfl, by decide⟩, by decide, by decide⟩

/-- A search up from the last tick of a word reads the next word, and finds a tick there
although the word of the start holds none above it. -/
theorem search_up_leaves_word :
    ¬∀ (spacing : ℤ), 1 ≤ spacing → spacing ≤ 16384 → ∀ (ts : List ℤ), ts.Nodup →
      (∀ t ∈ ts, spacing ∣ t ∧ minTick ≤ t ∧ t ≤ maxTick) →
      ∀ tick, minTick ≤ tick → tick ≤ maxTick →
        (∀ u ∈ ts, tick < u → tickWord u spacing ≠ tickWord tick spacing) →
        (nextInitializedTickWithinOneWord (flipTicks spacing ts) tick spacing false).2 =
          false := by
  intro h
  have hfound := h 1 (by decide) (by decide) [256] (by decide) (by decide) 255 (by decide)
    (by decide) (by decide)
  revert hfound
  decide

end LuxPrecompile.V3
