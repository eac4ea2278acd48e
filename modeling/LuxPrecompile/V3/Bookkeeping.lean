import LuxPrecompile.V3.PriceTick

/-!
# Liquidity bookkeeping

The precompile keeps the boundaries of positions instead of the positions: for
each tick the liquidity that starts or ends there, with a bitmap of the ticks in
use, and the liquidity active at the current tick.  All of these are sums over
positions.  The words hold them exactly as long as the liquidity ever minted in
the pool stays below `2 ^ 255`, where the signed net of a tick overflows.
-/

namespace LuxPrecompile.V3

open Dex Evm Support

/-! ## The sums a pool keeps -/

/-- The lower end of a position's range. -/
def PositionKey.lower (k : PositionKey) : ℤ := k.tickLower

/-- The upper end of a position's range. -/
def PositionKey.upper (k : PositionKey) : ℤ := k.tickUpper

/-- The liquidity of every position. -/
def Pool.weight (P : Pool) : PositionKey → ℤ := fun k => (P.position k).liquidity

theorem Pool.weight_nonneg (P : Pool) (k : PositionKey) : 0 ≤ P.weight k :=
  Int.natCast_nonneg _

theorem Pool.weight_congr {P Q : Pool} (h : P.position = Q.position) :
    P.weight = Q.weight := by
  unfold Pool.weight
  rw [h]

/-- The boundaries, the bitmap and the active liquidity are what the positions
say. -/
structure Bookkeeping (pk : PoolKey) (P : Pool) : Prop where
  range : ∀ k, P.weight k ≠ 0 → ValidRange pk k
  gross : ∀ t, (P.tickInfo t).liquidityGross =
    grossAt PositionKey.lower PositionKey.upper P.weight t
  net : ∀ t, (P.tickInfo t).liquidityNet =
    netAt PositionKey.lower PositionKey.upper P.weight t
  bit : ∀ i, bitSet P.words i = true ↔
    0 < (P.tickInfo (i * pk.tickSpacing)).liquidityGross
  active : (P.liquidity : ℤ) =
    activeAt PositionKey.lower PositionKey.upper P.weight P.tick

namespace Bookkeeping

variable {pk : PoolKey} {P : Pool}

theorem gross_nonneg (h : Bookkeeping pk P) (t : ℤ) : 0 ≤ (P.tickInfo t).liquidityGross := by
  rw [h.gross]
  exact grossAt_nonneg _ _ P.weight_nonneg t

/-- A boundary of a position with liquidity has its bit set. -/
theorem bit_of_weight (h : Bookkeeping pk P) {k : PositionKey} (hk : P.weight k ≠ 0)
    {t : ℤ} (ht : k.lower = t ∨ k.upper = t) :
    ∃ i, t = i * pk.tickSpacing ∧ bitSet P.words i = true := by
  have hrange := h.range k hk
  obtain ⟨i, hi⟩ : pk.tickSpacing ∣ t := by
    rcases ht with ht | ht
    · rw [← ht]
      exact hrange.lower_aligned
    · rw [← ht]
      exact hrange.upper_aligned
  have hti : t = i * pk.tickSpacing := by rw [hi, mul_comm]
  refine ⟨i, hti, ?_⟩
  rw [h.bit, ← hti, h.gross]
  exact grossAt_pos P.weight_nonneg ht hk

/-- No used boundary is passed when the bits between are clear, except those of
`n`. -/
theorem boundary_of_bits (h : Bookkeeping pk P) {t t' : ℤ} {p : ℤ → Prop}
    (hbits : ∀ i, ¬p (i * pk.tickSpacing) → Between t t' (i * pk.tickSpacing) →
      bitSet P.words i = false)
    {k : PositionKey} (hk : P.weight k ≠ 0) :
    (Between t t' k.lower → p k.lower) ∧ (Between t t' k.upper → p k.upper) := by
  have hpass : ∀ b, k.lower = b ∨ k.upper = b → Between t t' b → p b := by
    intro b hb hbetween
    obtain ⟨i, rfl, hbit⟩ := h.bit_of_weight hk hb
    by_contra hnot
    rw [hbits i hnot hbetween] at hbit
    cases hbit
  exact ⟨hpass _ (Or.inl rfl), hpass _ (Or.inr rfl)⟩

/-! ## Swap steps -/

theorem move (h : Bookkeeping pk P) {price : ℕ} {tick : ℤ} {fg : Token → ℕ}
    (hquiet : ∀ i, Between P.tick tick (i * pk.tickSpacing) → bitSet P.words i = false) :
    Bookkeeping pk (P.move price tick fg) := by
  refine ⟨h.range, h.gross, h.net, h.bit, ?_⟩
  show (P.liquidity : ℤ) = activeAt _ _ P.weight tick
  rw [h.active]
  symm
  apply activeAt_eq_of_quiet
  intro k hk
  have hnone := h.boundary_of_bits (p := fun _ => False) (fun i _ hi => hquiet i hi) hk
  exact ⟨fun hb => hnone.1 hb, fun hb => hnone.2 hb⟩

/-- The active liquidity on the other side of the one initialised tick passed. -/
theorem active_cross (h : Bookkeeping pk P) {zeroForOne : Bool} {n tick : ℤ}
    (htick : tick = tickAfterCross zeroForOne (n * pk.tickSpacing))
    (hpassed : Between P.tick tick (n * pk.tickSpacing))
    (hothers : ∀ i, i ≠ n → Between P.tick tick (i * pk.tickSpacing) →
      bitSet P.words i = false) :
    activeAt PositionKey.lower PositionKey.upper P.weight tick =
      (P.liquidity : ℤ) +
        directedNet zeroForOne (P.tickInfo (n * pk.tickSpacing)).liquidityNet := by
  have hs : 0 < pk.tickSpacing := by
    have := pk.spacing_pos
    omega
  have honly : ∀ k, P.weight k ≠ 0 →
      (Between P.tick tick k.lower → k.lower = n * pk.tickSpacing) ∧
      (Between P.tick tick k.upper → k.upper = n * pk.tickSpacing) := by
    intro k hk
    refine h.boundary_of_bits (p := fun b => b = n * pk.tickSpacing) ?_ hk
    intro i hi
    refine hothers i ?_
    rintro rfl
    exact hi rfl
  have hvalid : ∀ k, P.weight k ≠ 0 → k.lower < k.upper :=
    fun k hk => (h.range k hk).lower_lt
  rw [h.active, h.net]
  cases zeroForOne with
  | true =>
      simp only [tickAfterCross, if_true] at htick
      simp only [directedNet, if_true]
      have hup : tick < n * pk.tickSpacing ∧ n * pk.tickSpacing ≤ P.tick := by
        unfold Between at hpassed
        omega
      have hswap : ∀ b, Between tick P.tick b → Between P.tick tick b := by
        intro b hb
        unfold Between at *
        omega
      rw [activeAt_cross hup hvalid fun k hk =>
        ⟨fun hb => (honly k hk).1 (hswap _ hb), fun hb => (honly k hk).2 (hswap _ hb)⟩]
      ring
  | false =>
      simp only [tickAfterCross, Bool.false_eq_true, if_false] at htick
      simp only [directedNet, Bool.false_eq_true, if_false]
      have hup : P.tick < n * pk.tickSpacing ∧ n * pk.tickSpacing ≤ tick := by
        unfold Between at hpassed
        omega
      exact activeAt_cross hup hvalid honly

theorem tick_bounds (h : Bookkeeping pk P) (hbound : totalWeight P.weight < 2 ^ 255) (t : ℤ) :
    (0 ≤ (P.tickInfo t).liquidityGross ∧ (P.tickInfo t).liquidityGross < 2 ^ 256) ∧
    (-2 ^ 255 ≤ (P.tickInfo t).liquidityNet ∧ (P.tickInfo t).liquidityNet < 2 ^ 255) := by
  have hgross := grossAt_le PositionKey.lower PositionKey.upper
    P.weight_nonneg t
  have hnet := netAt_bounds PositionKey.lower PositionKey.upper
    P.weight_nonneg t
  refine ⟨⟨h.gross_nonneg t, ?_⟩, ?_⟩
  · rw [h.gross]
    omega
  · rw [h.net]
    omega

/-- A step that crosses an initialised tick keeps the sums. -/
theorem cross (h : Bookkeeping pk P) (hbound : totalWeight P.weight < 2 ^ 255)
    {zeroForOne : Bool} {n tick : ℤ} {price : ℕ} {fg : Token → ℕ}
    (htick : tick = tickAfterCross zeroForOne (n * pk.tickSpacing))
    (hpassed : Between P.tick tick (n * pk.tickSpacing))
    (hothers : ∀ i, i ≠ n → Between P.tick tick (i * pk.tickSpacing) →
      bitSet P.words i = false) :
    Bookkeeping pk ((P.move price tick fg).cross zeroForOne (n * pk.tickSpacing)) := by
  have hinfo : ∀ t,
      ((((P.move price tick fg).cross zeroForOne (n * pk.tickSpacing)).tickInfo
        t).liquidityGross = (P.tickInfo t).liquidityGross) ∧
      ((((P.move price tick fg).cross zeroForOne (n * pk.tickSpacing)).tickInfo
        t).liquidityNet = (P.tickInfo t).liquidityNet) := by
    intro t
    by_cases ht : t = n * pk.tickSpacing
    · subst ht
      obtain ⟨⟨hg0, hg⟩, hn0, hn⟩ := h.tick_bounds hbound (n * pk.tickSpacing)
      simp only [Pool.cross, Function.update_self, Pool.crossedTick, TickInfo.readBack,
        Pool.move]
      exact ⟨wordToUint_uintWord_int hg0 hg, wordToInt_intWord hn0 hn⟩
    · simp only [Pool.cross, Function.update_of_ne ht, Pool.move]
      exact ⟨trivial, trivial⟩
  refine ⟨h.range, fun t => ?_, fun t => ?_, fun i => ?_, ?_⟩
  · rw [(hinfo t).1]
    exact h.gross t
  · rw [(hinfo t).2]
    exact h.net t
  · rw [(hinfo _).1]
    exact h.bit i
  · have hcross := h.active_cross htick hpassed hothers
    have hnonneg := activeAt_nonneg PositionKey.lower PositionKey.upper
      P.weight_nonneg tick
    show ((((P.liquidity : ℤ) + directedNet zeroForOne
      (P.tickInfo (n * pk.tickSpacing)).liquidityNet).toNat : ℕ) : ℤ) =
      activeAt _ _ P.weight tick
    rw [Int.toNat_of_nonneg (by omega), hcross]

/-! ## Changes of a position -/

variable {key : PositionKey} {d : ℤ}

/-- The liquidity of every position after a change, as long as the words hold
it. -/
theorem weight_modify (hnonneg : 0 ≤ P.weight key + d)
    (hlt : P.weight key + d < 2 ^ 256) (spacing : ℤ) (fees : Token → ℕ) :
    (P.modify spacing key d fees).weight = addWeight P.weight key d := by
  funext k
  unfold addWeight
  by_cases hk : k = key
  · subst hk
    unfold Pool.weight at hnonneg hlt
    rw [Function.update_self]
    simp only [Pool.weight, Pool.modify, Function.update_self, Position.readBack]
    rw [Int.toNat_of_nonneg hnonneg]
    exact wordToUint_uintWord_int hnonneg hlt
  · rw [Function.update_of_ne hk]
    simp only [Pool.weight, Pool.modify, Function.update_of_ne hk]

/-- A boundary tick after a change holds the new sums.  A tick that lost its last
liquidity is cleared, and its sums are zero. -/
theorem tickAfter_sums (h : Bookkeeping pk P) {t : ℤ} (upper : Bool)
    (hend : (if upper then key.upper else key.lower) = t) (hlt : key.lower < key.upper)
    (hnonneg : ∀ k, 0 ≤ addWeight P.weight key d k)
    (hbound : totalWeight (addWeight P.weight key d) < 2 ^ 255) :
    (P.tickAfter t d upper).liquidityGross =
        grossAt PositionKey.lower PositionKey.upper (addWeight P.weight key d) t ∧
      (P.tickAfter t d upper).liquidityNet =
        netAt PositionKey.lower PositionKey.upper (addWeight P.weight key d) t := by
  have hgross : (P.tickInfo t).liquidityGross + d =
      grossAt PositionKey.lower PositionKey.upper (addWeight P.weight key d) t := by
    rw [grossAt_addWeight, h.gross, if_pos]
    cases upper with
    | false => exact Or.inl hend
    | true => exact Or.inr hend
  have hnet : (P.touchTick t d upper).liquidityNet =
      netAt PositionKey.lower PositionKey.upper (addWeight P.weight key d) t := by
    rw [netAt_addWeight, Pool.touchTick]
    cases upper with
    | false =>
        simp only [Bool.false_eq_true, if_false] at hend ⊢
        rw [h.net, if_pos hend, if_neg (by omega)]
        ring
    | true =>
        simp only [if_true] at hend ⊢
        rw [h.net, if_pos hend, if_neg (by omega)]
        ring
  have hgrossNonneg := grossAt_nonneg PositionKey.lower PositionKey.upper
    hnonneg t
  unfold Pool.tickAfter
  split_ifs with hcleared
  · have hzero : (P.tickInfo t).liquidityGross + d = 0 := by
      obtain ⟨hneg, hflip⟩ := hcleared
      simp only [Pool.flips, bne_iff_ne, ne_eq, decide_eq_decide] at hflip
      omega
    rw [hgross] at hzero
    rw [hzero, netAt_eq_zero hnonneg hzero]
    exact ⟨rfl, rfl⟩
  · have hgrossLe := grossAt_le PositionKey.lower PositionKey.upper hnonneg t
    have hnetBounds := netAt_bounds PositionKey.lower PositionKey.upper
      hnonneg t
    have hg : (P.touchTick t d upper).liquidityGross = _ := hgross
    constructor
    · rw [← hg] at hgrossNonneg hgrossLe ⊢
      exact wordToUint_uintWord_int hgrossNonneg (by omega)
    · rw [← hnet] at hnetBounds ⊢
      exact wordToInt_intWord (by omega) (by omega)

/-- The bits after a change: those of the two boundaries may have flipped. -/
theorem bitSet_modify (hrange : ValidRange pk key) {fees : Token → ℕ} (i : ℤ) :
    bitSet (P.modify pk.tickSpacing key d fees).words i =
      if (i * pk.tickSpacing = key.lower ∨ i * pk.tickSpacing = key.upper) ∧
          P.flips (i * pk.tickSpacing) d = true then !bitSet P.words i
      else bitSet P.words i := by
  have hs : 0 < pk.tickSpacing := by
    have := pk.spacing_pos
    omega
  have hbit : ∀ (words : TickBitmap) (t : Tick), pk.tickSpacing ∣ (t : ℤ) →
      bitSet (flipTick words t pk.tickSpacing) i =
        if i * pk.tickSpacing = t then !bitSet words i else bitSet words i := by
    intro words t ht
    have hband := compressed_range pk.spacing_pos t.2.1 t.2.2
    have haligned : (t : ℤ) / pk.tickSpacing * pk.tickSpacing = t := Int.ediv_mul_cancel ht
    have hflip := bitSet_flip words (i := i) hs (c := (t : ℤ) / pk.tickSpacing)
      ⟨hband.1, by omega⟩
    rw [haligned] at hflip
    rw [hflip]
    have hiff : i = (t : ℤ) / pk.tickSpacing ↔ i * pk.tickSpacing = t := by
      constructor
      · rintro rfl
        exact haligned
      · intro hi
        rw [← hi, Int.mul_ediv_cancel _ hs.ne']
    simp only [hiff]
  have hlower := hrange.lower_aligned
  have hupper := hrange.upper_aligned
  have hne := hrange.lower_lt
  simp only [Pool.modify, PositionKey.lower, PositionKey.upper]
  by_cases hl : i * pk.tickSpacing = key.tickLower
  · have hu : i * pk.tickSpacing ≠ key.tickUpper := by omega
    cases hfl : P.flips key.tickLower d <;> cases hfu : P.flips key.tickUpper d <;>
      simp [hbit _ _ hlower, hbit _ _ hupper, hl, hne.ne, hfl]
  · by_cases hu : i * pk.tickSpacing = key.tickUpper
    · cases hfl : P.flips key.tickLower d <;> cases hfu : P.flips key.tickUpper d <;>
        simp [hbit _ _ hlower, hbit _ _ hupper, hu, hne.ne', hfu]
    · cases hfl : P.flips key.tickLower d <;> cases hfu : P.flips key.tickUpper d <;>
        simp [hbit _ _ hlower, hbit _ _ hupper, hu, hl]

/-- The ticks after a change hold the new sums everywhere. -/
theorem modify_sums (h : Bookkeeping pk P) (hrange : ValidRange pk key)
    (hnonneg : ∀ k, 0 ≤ addWeight P.weight key d k)
    (hbound : totalWeight (addWeight P.weight key d) < 2 ^ 255) (fees : Token → ℕ) (t : ℤ) :
    ((P.modify pk.tickSpacing key d fees).tickInfo t).liquidityGross =
        grossAt PositionKey.lower PositionKey.upper (addWeight P.weight key d) t ∧
      ((P.modify pk.tickSpacing key d fees).tickInfo t).liquidityNet =
        netAt PositionKey.lower PositionKey.upper (addWeight P.weight key d) t := by
  have hlt : key.lower < key.upper := hrange.lower_lt
  simp only [Pool.modify]
  by_cases hu : t = key.tickUpper
  · subst hu
    rw [Function.update_self]
    exact h.tickAfter_sums true rfl hlt hnonneg hbound
  · rw [Function.update_of_ne hu]
    by_cases hl : t = key.tickLower
    · subst hl
      rw [Function.update_self]
      exact h.tickAfter_sums false rfl hlt hnonneg hbound
    · rw [Function.update_of_ne hl, grossAt_addWeight, netAt_addWeight, h.gross, h.net]
      have hl' : key.lower ≠ t := fun heq => hl heq.symm
      have hu' : key.upper ≠ t := fun heq => hu heq.symm
      simp [hl', hu']

/-- The bit of a tick is set exactly when the new sum there is positive. -/
theorem modify_bit (h : Bookkeeping pk P) (hrange : ValidRange pk key)
    (hnonneg : ∀ k, 0 ≤ addWeight P.weight key d k) (fees : Token → ℕ) (i : ℤ) :
    bitSet (P.modify pk.tickSpacing key d fees).words i = true ↔
      0 < grossAt PositionKey.lower PositionKey.upper (addWeight P.weight key d)
        (i * pk.tickSpacing) := by
  have hold := h.gross_nonneg (i * pk.tickSpacing)
  have hnew := grossAt_nonneg PositionKey.lower PositionKey.upper hnonneg
    (i * pk.tickSpacing)
  have hchange : grossAt PositionKey.lower PositionKey.upper (addWeight P.weight key d)
      (i * pk.tickSpacing) = _ :=
    grossAt_addWeight key d (i * pk.tickSpacing)
  rw [← h.gross] at hchange
  rw [bitSet_modify hrange]
  have hbit := h.bit i
  by_cases hend : i * pk.tickSpacing = key.lower ∨ i * pk.tickSpacing = key.upper
  · rw [if_pos (hend.imp Eq.symm Eq.symm)] at hchange
    simp only [hend, true_and]
    cases hflip : P.flips (i * pk.tickSpacing) d with
    | true =>
        simp only [Pool.flips, bne_iff_ne, ne_eq, decide_eq_decide] at hflip
        rw [if_pos rfl, Bool.not_eq_true', ← Bool.not_eq_true, hbit]
        omega
    | false =>
        simp only [Pool.flips, bne_eq_false_iff_eq, decide_eq_decide] at hflip
        rw [if_neg (by decide), hbit]
        omega
  · rw [if_neg (fun hc => hend (hc.imp Eq.symm Eq.symm)), add_zero] at hchange
    rw [if_neg (fun hc => hend hc.1), hbit, hchange]

/-- The active liquidity after a change is the new sum at the current tick. -/
theorem modify_active (h : Bookkeeping pk P)
    (hnonneg : ∀ k, 0 ≤ addWeight P.weight key d k)
    (hbound : totalWeight (addWeight P.weight key d) < 2 ^ 255) (spacing : ℤ)
    (fees : Token → ℕ) :
    ((P.modify spacing key d fees).liquidity : ℤ) =
      activeAt PositionKey.lower PositionKey.upper (addWeight P.weight key d) P.tick := by
  have hnew := activeAt_nonneg PositionKey.lower PositionKey.upper hnonneg
    P.tick
  have hle := activeAt_le PositionKey.lower PositionKey.upper hnonneg P.tick
  rw [activeAt_addWeight, ← h.active] at hnew hle ⊢
  simp only [Pool.modify]
  by_cases hin : P.inRange key
  · have hin' : key.lower ≤ P.tick ∧ P.tick < key.upper := hin
    rw [if_pos hin'] at hnew hle ⊢
    rw [if_pos hin, Int.toNat_of_nonneg hnew]
    exact wordToUint_uintWord_int hnew (by omega)
  · have hin' : ¬(key.lower ≤ P.tick ∧ P.tick < key.upper) := hin
    rw [if_neg hin, if_neg hin', add_zero]

/-- A change of a position's liquidity keeps the sums, and changes the total by
as much. -/
theorem modify (h : Bookkeeping pk P) (hrange : ValidRange pk key)
    (hnonneg : 0 ≤ P.weight key + d)
    (hbound : totalWeight P.weight + d < 2 ^ 255) (fees : Token → ℕ) :
    Bookkeeping pk (P.modify pk.tickSpacing key d fees) ∧
      (P.modify pk.tickSpacing key d fees).weight = addWeight P.weight key d := by
  have hweights : ∀ k, 0 ≤ addWeight P.weight key d k := by
    intro k
    unfold addWeight
    by_cases hk : k = key
    · rw [hk, Function.update_self]
      exact hnonneg
    · rw [Function.update_of_ne hk]
      exact P.weight_nonneg k
  have hbound' : totalWeight (addWeight P.weight key d) < 2 ^ 255 := by
    rwa [totalWeight_addWeight]
  have hkey : P.weight key + d ≤ totalWeight (addWeight P.weight key d) := by
    have hle := Finset.single_le_sum (fun k _ => hweights k) (Finset.mem_univ key)
    simpa [addWeight, totalWeight] using hle
  have hweight := weight_modify hnonneg (by omega) pk.tickSpacing fees
  have hsums := h.modify_sums hrange hweights hbound' fees
  refine ⟨⟨?_, fun t => ?_, fun t => ?_, fun i => ?_, ?_⟩, hweight⟩
  · intro k hk
    rw [hweight] at hk
    unfold addWeight at hk
    by_cases hkey : k = key
    · rw [hkey]
      exact hrange
    · rw [Function.update_of_ne hkey] at hk
      exact h.range k hk
  · rw [hweight]
    exact (hsums t).1
  · rw [hweight]
    exact (hsums t).2
  · rw [(hsums _).1]
    exact h.modify_bit hrange hweights fees i
  · rw [hweight]
    exact h.modify_active hweights hbound' pk.tickSpacing fees

/-- What is owed to a position does not enter the sums. -/
theorem setOwed (h : Bookkeeping pk P) (hbound : totalWeight P.weight < 2 ^ 255)
    (key : PositionKey) (owed : Token → ℕ) :
    Bookkeeping pk { P with
      position := Function.update P.position key
        (Position.readBack { P.position key with tokensOwed := owed }) } ∧
    Pool.weight { P with
      position := Function.update P.position key
        (Position.readBack { P.position key with tokensOwed := owed }) } = P.weight := by
  have hweight : Pool.weight { P with
      position := Function.update P.position key
        (Position.readBack { P.position key with tokensOwed := owed }) } = P.weight := by
    funext k
    by_cases hk : k = key
    · subst hk
      have hle := Finset.single_le_sum (fun k _ => P.weight_nonneg k) (Finset.mem_univ k)
      have hlt : P.weight k < 2 ^ 255 := lt_of_le_of_lt hle hbound
      unfold Pool.weight at hlt
      simp only [Pool.weight, Function.update_self, Position.readBack]
      rw [wordToUint_uintWord_of_lt (by omega)]
    · simp only [Pool.weight, Function.update_of_ne hk]
  refine ⟨⟨?_, ?_, ?_, h.bit, ?_⟩, hweight⟩
  · rw [hweight]
    exact h.range
  · rw [hweight]
    exact h.gross
  · rw [hweight]
    exact h.net
  · rw [hweight]
    exact h.active

/-! ## A whole swap -/

theorem swapStep {p : SwapParams} {s s' : SwapState} (hs : Swapping p s)
    (h : Bookkeeping p.pk (s.pool p.pk))
    (hbound : totalWeight (s.pool p.pk).weight < 2 ^ 255) (hstep : swapStep p s = .ok s') :
    Bookkeeping p.pk (s'.pool p.pk) := by
  obtain ⟨step, growth, -, -, -, -, hsettled⟩ :=
    swapStep_spec hs.priced hs.withinLimit hstep
  rcases hsettled.pool_cases with
    ⟨hquiet, hpool⟩ | ⟨n, htick, -, hpassed, hothers, -, hpool⟩
  · rw [hpool]
    exact h.move hquiet
  · rw [hpool]
    exact h.cross hbound htick hpassed hothers

/-- The loop of a swap keeps the sums and the positions, and persisting it loses
nothing. -/
theorem swapLoop {p : SwapParams} {db : Storage} {amountSpecified : ℤ} {fuel fuel' : ℕ}
    {s : SwapState} (h : Bookkeeping p.pk (db.view p.pk))
    (hbound : totalWeight (db.view p.pk).weight < 2 ^ 255)
    (hprice : Priced (db.view p.pk).sqrtPrice (db.view p.pk).tick)
    (hlimit : WithinLimit p (db.view p.pk).sqrtPrice)
    (hloop : swapLoop p fuel (swapInit db p.pk amountSpecified) = .ok (s, fuel')) :
    Bookkeeping p.pk (s.pool p.pk) ∧ (s.pool p.pk).position = (db.view p.pk).position ∧
      (persistSwap s p.pk).view p.pk = s.pool p.pk := by
  have hkeep : ∀ s s', Swapping p s →
      (Bookkeeping p.pk (s.pool p.pk) ∧
        (s.pool p.pk).position = (db.view p.pk).position) →
      V3.swapStep p s = .ok s' →
      Bookkeeping p.pk (s'.pool p.pk) ∧
        (s'.pool p.pk).position = (db.view p.pk).position := by
    rintro s s' hs ⟨hbook, hpos⟩ hstep
    refine ⟨hbook.swapStep hs ?_ hstep, (swapStep_frame hstep).2.1.trans hpos⟩
    rw [Pool.weight_congr hpos]
    exact hbound
  have hstart : Bookkeeping p.pk ((swapInit db p.pk amountSpecified).pool p.pk) ∧
      ((swapInit db p.pk amountSpecified).pool p.pk).position =
        (db.view p.pk).position := ⟨h, rfl⟩
  obtain ⟨-, hbook, hpos⟩ :=
    swapLoop_invariant hkeep fuel ⟨hprice, hlimit⟩ hstart hloop
  refine ⟨hbook, hpos, ?_⟩
  obtain ⟨-, hview⟩ := persistSwap_priced hprice hlimit hloop
  have hle := activeAt_le PositionKey.lower PositionKey.upper
    (s.pool p.pk).weight_nonneg (s.pool p.pk).tick
  have htotal : totalWeight (s.pool p.pk).weight < 2 ^ 255 := by
    rw [Pool.weight_congr hpos]
    exact hbound
  rw [← hbook.active] at hle
  have hliq : ((s.liquidity : ℕ) : ℤ) ≤ totalWeight (s.pool p.pk).weight := hle
  rw [hview, wordToUint_uintWord_of_lt (by omega)]
  rfl

end Bookkeeping

/-! ## Every run -/

/-- The liquidity a call minted in a pool. -/
def Outcome.minted (pk : PoolKey) (out : Outcome) : ℕ :=
  match out.event with
  | some (.mint pool _ amount _) => if pool = pk then amount else 0
  | _ => 0

/-- The liquidity ever minted in a pool. -/
def minted (pk : PoolKey) (trace : List Outcome) : ℕ :=
  (trace.map (Outcome.minted pk)).sum

theorem minted_cons (pk : PoolKey) (out : Outcome) (trace : List Outcome) :
    minted pk (out :: trace) = out.minted pk + minted pk trace := by
  simp [minted]

/-- What holds of a pool whose words never overflowed. -/
structure Sound (pk : PoolKey) (P : Pool) (trace : List Outcome) : Prop where
  priced : P.sqrtPrice ≠ 0 → Priced P.sqrtPrice P.tick
  fresh : P.sqrtPrice = 0 → ∀ k, P.weight k = 0
  book : Bookkeeping pk P
  total_le : totalWeight P.weight ≤ minted pk trace

theorem Sound.empty (pk : PoolKey) : Sound pk Pool.empty [] := by
  have hzero : Pool.empty.weight = fun _ => 0 := rfl
  refine ⟨fun h => absurd rfl h, fun _ _ => rfl, ⟨?_, ?_, ?_, ?_, ?_⟩, ?_⟩
  · intro k hk
    exact absurd rfl hk
  · intro t
    rw [hzero]
    simp [grossAt, Pool.empty, newTickInfo]
  · intro t
    rw [hzero]
    simp [netAt, Pool.empty, newTickInfo]
  · intro i
    simp [bitSet, Pool.empty, newTickInfo]
  · rw [hzero, activeAt_zero]
    rfl
  · rw [hzero]
    simp [totalWeight, minted]

/-- A call keeps a pool sound as long as the minted liquidity stays below the
bound. -/
theorem Sound.step {pk : PoolKey} {P P' : Pool} {trace : List Outcome} {out : Outcome}
    (h : Sound pk P trace) (hbound : minted pk (out :: trace) < 2 ^ 255)
    (hstep : PoolStep pk P P' out) : Sound pk P' (out :: trace) := by
  rw [minted_cons] at hbound
  have htotal := h.total_le
  have hsmall : totalWeight P.weight < 2 ^ 255 := by omega
  have hgrow : (minted pk trace : ℤ) ≤ minted pk (out :: trace) := by
    rw [minted_cons]
    omega
  cases hstep with
  | idle _ => exact ⟨h.priced, h.fresh, h.book, htotal.trans hgrow⟩
  | init hnew hpriced _ _ _ _ =>
      -- no position has liquidity yet, so any tick has the same active liquidity
      have hzero : P.weight = fun _ => 0 := funext (h.fresh hnew)
      refine ⟨fun _ => hpriced, fun hc => absurd hc hpriced.ne_zero,
        ⟨h.book.range, h.book.gross, h.book.net, h.book.bit, ?_⟩, htotal.trans hgrow⟩
      have hactive := h.book.active
      rw [hzero] at hactive
      show (P.liquidity : ℤ) = activeAt _ _ P.weight _
      rw [hzero, hactive, activeAt_zero, activeAt_zero]
  | @mint _ _ key amount amounts hinit hrange hpos hle hmodify hevent _ =>
      have hout : out.minted pk = amount := by simp [Outcome.minted, hevent]
      obtain ⟨hbook, hweight⟩ := h.book.modify hrange hmodify.liquidity_nonneg
        (by omega) out.feesCredited
      rw [hmodify.result]
      refine ⟨fun _ => h.priced hinit, fun hc => absurd hc hinit, hbook, ?_⟩
      rw [hweight, totalWeight_addWeight, minted_cons, hout]
      push_cast
      omega
  | @burn _ P1 key amount amounts hinit hrange hpos hle hmodify hevent _ =>
      obtain ⟨hbook, hweight⟩ := h.book.modify hrange hmodify.liquidity_nonneg
        (by omega) out.feesCredited
      have hless : totalWeight (P.modify pk.tickSpacing key (-amount)
          out.feesCredited).weight < 2 ^ 255 := by
        rw [hweight, totalWeight_addWeight]
        omega
      rw [hmodify.result]
      obtain ⟨hbook', hweight'⟩ := hbook.setOwed hless key _
      refine ⟨fun _ => h.priced hinit, fun hc => absurd hc hinit, hbook', ?_⟩
      rw [show Pool.weight (Pool.credit _ _ _) = _ from hweight', hweight,
        totalWeight_addWeight]
      omega
  | @collect _ key amounts _ _ _ _ =>
      obtain ⟨hbook, hweight⟩ := h.book.setOwed hsmall key
        (fun i => (P.position key).tokensOwed i - amounts i)
      refine ⟨h.priced, fun hc k => ?_, hbook, ?_⟩
      · rw [show Pool.weight (Pool.collect _ _ _) = _ from hweight]
        exact h.fresh hc k
      · rw [show Pool.weight (Pool.collect _ _ _) = _ from hweight]
        exact htotal.trans hgrow
  | swap hpk hview hinit hlimit hloop _ _ _ =>
      subst hpk
      subst hview
      obtain ⟨hbook, hpos, hpersist⟩ :=
        h.book.swapLoop hsmall (h.priced hinit) hlimit hloop
      obtain ⟨hpriced, -⟩ := persistSwap_priced (h.priced hinit) hlimit hloop
      rw [hpersist]
      refine ⟨fun _ => hpriced, fun hc => absurd hc hpriced.ne_zero, hbook, ?_⟩
      rw [Pool.weight_congr hpos]
      exact htotal.trans hgrow

/-- The rule for runs that stay below the bound: every step starts from a sound
pool. -/
theorem sound_invariant (pk : PoolKey) {I : Pool → List Outcome → Prop}
    (hempty : I Pool.empty [])
    (hstep : ∀ P P' out trace, Sound pk P trace → minted pk (out :: trace) < 2 ^ 255 →
      I P trace → PoolStep pk P P' out → I P' (out :: trace))
    {w : World} (hw : Genesis w) (actions : List Action)
    (hbound : minted pk (runFrom w actions).2 < 2 ^ 255) :
    Sound pk ((runFrom w actions).1.storage.view pk) (runFrom w actions).2 ∧
      I ((runFrom w actions).1.storage.view pk) (runFrom w actions).2 := by
  refine pool_invariant pk
    (I := fun P trace => minted pk trace < 2 ^ 255 → Sound pk P trace ∧ I P trace)
    (fun _ => ⟨.empty pk, hempty⟩) ?_ hw actions hbound
  intro P P' out trace hP hpool hlt
  have hlt' : minted pk trace < 2 ^ 255 := by
    rw [minted_cons] at hlt
    omega
  obtain ⟨hsound, hI⟩ := hP hlt'
  exact ⟨hsound.step hlt hpool, hstep P P' out trace hsound hlt hI hpool⟩

theorem reachable_sound (pk : PoolKey) {w : World} (hw : Genesis w) (actions : List Action)
    (hbound : minted pk (runFrom w actions).2 < 2 ^ 255) :
    Sound pk ((runFrom w actions).1.storage.view pk) (runFrom w actions).2 :=
  (sound_invariant pk (I := fun _ _ => True) trivial (fun _ _ _ _ _ _ _ _ => trivial)
    hw actions hbound).1

/-! ## The bound -/

theorem exec_trace_length (pk : PoolKey) (r : Execution) (a : Action) :
    (exec r a).2.length ≤ r.2.length + 1 := by
  rcases exec_pool r a pk with ⟨-, htrace⟩ | ⟨out, htrace, -⟩
  · rw [htrace]
    exact Nat.le_succ _
  · rw [htrace, List.length_cons]

theorem foldl_trace_length (pk : PoolKey) (actions : List Action) (r : Execution) :
    (actions.foldl exec r).2.length ≤ r.2.length + actions.length := by
  induction actions generalizing r with
  | nil => exact le_rfl
  | cons a actions ih =>
      calc ((a :: actions).foldl exec r).2.length
          ≤ (exec r a).2.length + actions.length := ih (exec r a)
        _ ≤ r.2.length + 1 + actions.length :=
          Nat.add_le_add_right (exec_trace_length pk r a) _
        _ = r.2.length + (a :: actions).length := by
          rw [List.length_cons]
          ring

/-- A call mints at most one word of liquidity, so only a run of `2 ^ 127` actions
could reach the bound. -/
theorem minted_le (pk : PoolKey) (w : World) (actions : List Action) :
    minted pk (runFrom w actions).2 ≤ actions.length * maxUint128 := by
  have htrace : minted pk (runFrom w actions).2 ≤
      (runFrom w actions).2.length * maxUint128 := by
    refine pool_invariant_from pk
      (I := fun _ trace => minted pk trace ≤ trace.length * maxUint128) (Nat.zero_le _) ?_
      actions
    intro P P' out trace h hstep
    have hout : out.minted pk ≤ maxUint128 := by
      cases hstep with
      | idle hevent =>
          unfold Outcome.minted
          rcases hev : out.event with _ | ev
          · exact Nat.zero_le _
          · have hne := hevent ev hev
            cases ev with
            | mint pool key amount amounts =>
                simp only [Event.pool] at hne
                simp only [if_neg hne]
                exact Nat.zero_le _
            | _ => exact Nat.zero_le _
      | init _ _ _ hevent _ _ => simp [Outcome.minted, hevent]
      | mint _ _ _ hle _ hevent _ => simpa [Outcome.minted, hevent] using hle
      | burn _ _ _ _ _ hevent _ => simp [Outcome.minted, hevent]
      | collect _ hevent _ _ => simp [Outcome.minted, hevent]
      | swap _ _ _ _ _ hevent _ _ => simp [Outcome.minted, hevent]
    rw [minted_cons, List.length_cons, Nat.succ_mul]
    omega
  have hlength : (runFrom w actions).2.length ≤ actions.length := by
    simpa [runFrom] using foldl_trace_length pk actions (w, [])
  exact htrace.trans (Nat.mul_le_mul_right _ hlength)

end LuxPrecompile.V3
