import LuxPrecompile.Support.Counters
import LuxPrecompile.V3.Principal

/-!
# Fee growth inside a range

A pool keeps one fee counter for each token, and each tick the growth on its far
side.  The words wrap around and a tick starts with whatever suits it, so the
growth inside a range means nothing by itself.  Between two touches of a position
with liquidity its difference is the growth of exactly the swap steps that started
inside the range.
-/

namespace LuxPrecompile.V3

open Dex Evm Support

/-- Fee counters wrap around. -/
abbrev Growth := ZMod (2 ^ 256)

/-- The fee counters of a token, as counters outside boundaries. -/
def Pool.counters (P : Pool) (i : Token) : Counters Growth where
  total := (P.feeGrowth i : ℕ)
  outside t := ((P.tickInfo t).feeGrowthOutside i : ℕ)
  point := P.tick

theorem Pool.inside_cast (P : Pool) (lower upper : ℤ) (i : Token) :
    ((P.inside lower upper i : ℕ) : Growth) = (P.counters i).inside lower upper := by
  have hside : ∀ (c : Prop) [Decidable c] (x y : ℕ),
      (((if c then x else sub256 (P.feeGrowth i) y : ℕ)) : Growth) =
        if c then (x : Growth) else (P.feeGrowth i : ℕ) - (y : Growth) := by
    intro c _ x y
    by_cases hc : c
    · rw [if_pos hc, if_pos hc]
    · rw [if_neg hc, if_neg hc, sub256_cast]
  simp only [Pool.inside, sub256_cast, hside]
  rfl

theorem sub256_lt (a b : ℕ) : sub256 a b < 2 ^ 256 := mod256_lt _

theorem readBack_cast (n : ℕ) : ((wordToUint (uintWord n) : ℕ) : Growth) = (n : ℕ) := by
  rw [wordToUint_uintWord]
  exact ZMod.natCast_mod n (2 ^ 256)

/-! ## The growth of swap steps -/

/-- The growth of a token's counter in the steps that started inside a range. -/
def growthIn (lower upper : ℤ) (i : Token) (steps : List StepRecord) : ℕ :=
  (steps.map fun r =>
    if r.token = i ∧ lower ≤ r.tick ∧ r.tick < upper then r.growth else 0).sum

@[simp]
theorem growthIn_nil (lower upper : ℤ) (i : Token) : growthIn lower upper i [] = 0 := rfl

theorem growthIn_append (lower upper : ℤ) (i : Token) (steps steps' : List StepRecord) :
    growthIn lower upper i (steps ++ steps') =
      growthIn lower upper i steps + growthIn lower upper i steps' := by
  simp [growthIn]

/-- The counters after a step: only the token taken in grows. -/
theorem Stepped.accrue_cast {p : SwapParams} {s : SwapState} {step : SwapStepResult}
    {growth : ℕ} (h : Stepped p s step growth) (i : Token) :
    ((accrueGrowth p s step.feeAmount growth i : ℕ) : Growth) =
      (s.feeGrowth i : ℕ) + if p.tokenIn = i then (growth : Growth) else 0 := by
  have hgrown := h.grown
  unfold stepGrowth at hgrown
  unfold accrueGrowth
  by_cases hfee : 0 < s.liquidity ∧ 0 < step.feeAmount
  · rw [if_pos hfee]
    by_cases hi : p.tokenIn = i
    · subst hi
      rw [Function.update_self, add256_cast, if_pos rfl]
    · rw [Function.update_of_ne (Ne.symm hi), if_neg hi, add_zero]
  · rw [if_neg hfee] at hgrown ⊢
    obtain rfl := Option.some.inj hgrown
    simp

theorem Pool.counters_move {P : Pool} {price : ℕ} {tick : ℤ} {fg : Token → ℕ} {i : Token}
    {g : Growth} (hfg : ((fg i : ℕ) : Growth) = (P.feeGrowth i : ℕ) + g) :
    (P.move price tick fg).counters i = ((P.counters i).grow g).moveTo tick := by
  simp only [Pool.counters, Pool.move, Counters.grow, Counters.moveTo, hfg]

/-- A tick that is crossed is turned over. -/
theorem Pool.counters_cross (P : Pool) (zeroForOne : Bool) (t : ℤ) (i : Token) :
    (P.cross zeroForOne t).counters i = (P.counters i).cross t := by
  have houtside : (fun u => ((((P.cross zeroForOne t).tickInfo u).feeGrowthOutside i : ℕ) :
      Growth)) = ((P.counters i).cross t).outside := by
    funext u
    by_cases hu : u = t
    · subst hu
      simp only [Pool.cross, Function.update_self, Pool.crossedTick, TickInfo.readBack,
        readBack_cast, sub256_cast, Counters.cross, Pool.counters]
    · simp only [Pool.cross, Function.update_of_ne hu, Counters.cross, Pool.counters]
  simp only [Pool.counters] at houtside ⊢
  rw [houtside]
  rfl

theorem Settled.steps {p : SwapParams} {s s' : SwapState} {step : SwapStepResult}
    {growth : ℕ} (h : Settled p s step growth s') :
    s'.steps = s.steps ++ [stepRecord p s step growth] := by
  cases h with
  | quiet tick hnone => rfl
  | crossed n hbit hat hnone hnonneg => rfl

/-- A step grows the inside of a range with liquidity by its own growth, when it
started there. -/
theorem swapStep_inside {p : SwapParams} {s s' : SwapState} (hs : Swapping p s)
    (hbook : Bookkeeping p.pk (s.pool p.pk)) {k : PositionKey}
    (hk : (s.pool p.pk).weight k ≠ 0) (hstep : swapStep p s = .ok s') (i : Token) :
    ∃ r, s'.steps = s.steps ++ [r] ∧
      ((s'.pool p.pk).counters i).inside k.lower k.upper =
        ((s.pool p.pk).counters i).inside k.lower k.upper +
          (growthIn k.lower k.upper i [r] : ℕ) := by
  obtain ⟨step, growth, hstepped, -, -, -, hsettled⟩ :=
    swapStep_spec hs.priced hs.withinLimit hstep
  refine ⟨_, hsettled.steps, ?_⟩
  have hlt : k.lower < k.upper := (hbook.range k hk).lower_lt
  have hfg := hstepped.accrue_cast i
  generalize hg : (if p.tokenIn = i then (growth : Growth) else 0) = g at hfg
  have hmove : ∀ tick, (((s.pool p.pk).move step.sqrtRatioNextX96 tick
      (accrueGrowth p s step.feeAmount growth)).counters i) =
      (((s.pool p.pk).counters i).grow g).moveTo tick :=
    fun tick => Pool.counters_move hfg
  have hgrown : (((s.pool p.pk).counters i).grow g).inside k.lower k.upper =
      ((s.pool p.pk).counters i).inside k.lower k.upper +
        (growthIn k.lower k.upper i [stepRecord p s step growth] : ℕ) := by
    rw [Counters.inside_grow _ _ hlt, ← hg]
    have hpoint : ((s.pool p.pk).counters i).point = s.tick := rfl
    simp only [growthIn, stepRecord, List.map_cons, List.map_nil, List.sum_cons, List.sum_nil,
      add_zero, hpoint]
    by_cases hi : p.tokenIn = i
    · by_cases hin : k.lower ≤ s.tick ∧ s.tick < k.upper
      · simp [hi, hin]
      · simp [hi, hin]
    · simp [hi]
  rw [← hgrown]
  rcases hsettled.pool_cases with ⟨hnone, hpool⟩ | ⟨n, -, -, hpassed, hothers, -, hpool⟩
  · rw [hpool, hmove]
    have hquiet := hbook.boundary_of_bits (p := fun _ => False) (fun j _ hj => hnone j hj) hk
    exact Counters.inside_congr (Counters.below_moveTo _ hquiet.1)
      (Counters.below_moveTo _ hquiet.2)
  · rw [hpool, Pool.counters_cross, hmove]
    have honly := hbook.boundary_of_bits (p := fun b => b = n * p.pk.tickSpacing)
      (fun j hj hb => hothers j (fun hc => hj (by rw [hc])) hb) hk
    have hcomm : ((((s.pool p.pk).counters i).grow g).moveTo s'.tick).cross
        (n * p.pk.tickSpacing) =
        ((((s.pool p.pk).counters i).grow g).cross (n * p.pk.tickSpacing)).moveTo s'.tick := rfl
    rw [hcomm]
    exact Counters.inside_congr (Counters.below_pass _ hpassed honly.1)
      (Counters.below_pass _ hpassed honly.2)

/-- The loop of a swap grows the inside of every range with liquidity by the growth
of its steps there. -/
theorem swapLoop_inside {p : SwapParams} {db : Storage} {amountSpecified : ℤ}
    {fuel fuel' : ℕ} {s : SwapState} (hbook : Bookkeeping p.pk (db.view p.pk))
    (hbound : totalWeight (db.view p.pk).weight < 2 ^ 255)
    (hs : Swapping p (swapInit db p.pk amountSpecified))
    (hloop : swapLoop p fuel (swapInit db p.pk amountSpecified) = .ok (s, fuel'))
    {k : PositionKey} (hk : (db.view p.pk).weight k ≠ 0) (i : Token) :
    ((s.pool p.pk).counters i).inside k.lower k.upper =
      ((db.view p.pk).counters i).inside k.lower k.upper +
        (growthIn k.lower k.upper i s.steps : ℕ) := by
  have hkeep : ∀ s s', Swapping p s →
      (Bookkeeping p.pk (s.pool p.pk) ∧ (s.pool p.pk).position = (db.view p.pk).position ∧
        ((s.pool p.pk).counters i).inside k.lower k.upper =
          ((db.view p.pk).counters i).inside k.lower k.upper +
            (growthIn k.lower k.upper i s.steps : ℕ)) →
      swapStep p s = .ok s' →
      Bookkeeping p.pk (s'.pool p.pk) ∧ (s'.pool p.pk).position = (db.view p.pk).position ∧
        ((s'.pool p.pk).counters i).inside k.lower k.upper =
          ((db.view p.pk).counters i).inside k.lower k.upper +
            (growthIn k.lower k.upper i s'.steps : ℕ) := by
    rintro s s' hs ⟨hb, hpos, hin⟩ hstep
    have hweight : (s.pool p.pk).weight = (db.view p.pk).weight := Pool.weight_congr hpos
    obtain ⟨r, hsteps, hgrow⟩ := swapStep_inside hs hb (by rwa [hweight]) hstep i
    refine ⟨hb.swapStep hs (by rwa [hweight]) hstep, (swapStep_frame hstep).2.1.trans hpos, ?_⟩
    rw [hgrow, hin, hsteps, growthIn_append]
    push_cast
    ring
  have hstart : ((swapInit db p.pk amountSpecified).pool p.pk).counters i =
      (db.view p.pk).counters i := rfl
  refine (swapLoop_invariant hkeep fuel hs ⟨hbook, rfl, ?_⟩ hloop).2.2.2
  rw [hstart]
  simp [swapInit]

/-! ## Changing a position -/

theorem touchTick_outside {P : Pool} {t d : ℤ} (hgross : (P.tickInfo t).liquidityGross ≠ 0)
    (upper : Bool) : (P.touchTick t d upper).feeGrowthOutside =
      (P.tickInfo t).feeGrowthOutside := by
  simp only [Pool.touchTick, hgross, false_and, if_false]

namespace Bookkeeping

variable {pk : PoolKey} {P : Pool} {key : PositionKey} {d : ℤ}

/-- An end of the changed position that is still used afterwards is not cleared. -/
theorem tickAfter_eq (h : Bookkeeping pk P)
    (hnonneg : ∀ k, 0 ≤ addWeight P.weight key d k) {k : PositionKey}
    (hk : addWeight P.weight key d k ≠ 0) {t : ℤ} (ht : k.lower = t ∨ k.upper = t)
    (hend : key.lower = t ∨ key.upper = t) (upper : Bool) :
    P.tickAfter t d upper = (P.touchTick t d upper).readBack := by
  have hpos : 0 < grossAt PositionKey.lower PositionKey.upper (addWeight P.weight key d) t :=
    grossAt_pos hnonneg ht hk
  rw [grossAt_addWeight, if_pos hend, ← h.gross] at hpos
  have hold := h.gross_nonneg t
  unfold Pool.tickAfter
  rw [if_neg]
  rintro ⟨hneg, hflip⟩
  simp only [Pool.flips, bne_iff_ne, ne_eq, decide_eq_decide] at hflip
  omega

theorem gross_ne_zero (h : Bookkeeping pk P) {k : PositionKey} (hk : P.weight k ≠ 0) {t : ℤ}
    (ht : k.lower = t ∨ k.upper = t) : (P.tickInfo t).liquidityGross ≠ 0 := by
  rw [h.gross]
  exact (grossAt_pos P.weight_nonneg ht hk).ne'

/-- A change of a position leaves the growth outside the ends of the positions that
had liquidity and still have some. -/
theorem modify_outside (h : Bookkeeping pk P)
    (hnonneg : ∀ k, 0 ≤ addWeight P.weight key d k) {k : PositionKey}
    (hold : P.weight k ≠ 0) (hk : addWeight P.weight key d k ≠ 0) {t : ℤ}
    (ht : k.lower = t ∨ k.upper = t) (spacing : ℤ) (fees : Token → ℕ) (i : Token) :
    ((((P.modify spacing key d fees).tickInfo t).feeGrowthOutside i : ℕ) : Growth) =
      ((P.tickInfo t).feeGrowthOutside i : ℕ) := by
  have hgross := h.gross_ne_zero hold ht
  have hafter : ∀ upper, (key.lower = t ∨ key.upper = t) →
      (((P.tickAfter t d upper).feeGrowthOutside i : ℕ) : Growth) =
        ((P.tickInfo t).feeGrowthOutside i : ℕ) := by
    intro upper hend
    rw [h.tickAfter_eq hnonneg hk ht hend]
    simp only [TickInfo.readBack, readBack_cast, touchTick_outside hgross]
  simp only [Pool.modify]
  by_cases hu : t = key.tickUpper
  · subst hu
    rw [Function.update_self]
    exact hafter true (Or.inr rfl)
  · rw [Function.update_of_ne hu]
    by_cases hl : t = key.tickLower
    · subst hl
      rw [Function.update_self]
      exact hafter false (Or.inl rfl)
    · rw [Function.update_of_ne hl]

/-- The growth inside the range of a position that had liquidity and still has
some does not change with another position. -/
theorem modify_inside (h : Bookkeeping pk P)
    (hnonneg : ∀ k, 0 ≤ addWeight P.weight key d k) {k : PositionKey}
    (hold : P.weight k ≠ 0) (hk : addWeight P.weight key d k ≠ 0) (spacing : ℤ)
    (fees : Token → ℕ) (i : Token) :
    ((P.modify spacing key d fees).counters i).inside k.lower k.upper =
      (P.counters i).inside k.lower k.upper := by
  have hbelow : ∀ t, k.lower = t ∨ k.upper = t →
      ((P.modify spacing key d fees).counters i).below t = (P.counters i).below t := by
    intro t ht
    have hout := h.modify_outside hnonneg hold hk ht spacing fees i
    simp only [Counters.below, Pool.counters]
    rw [hout]
    rfl
  exact Counters.inside_congr (hbelow _ (Or.inl rfl)) (hbelow _ (Or.inr rfl))

/-- While a position that keeps liquidity is touched, the ticks it reads are the
ticks it leaves. -/
theorem modify_touched (h : Bookkeeping pk P) (hlt : key.lower < key.upper)
    (hnonneg : ∀ k, 0 ≤ addWeight P.weight key d k)
    (hkey : addWeight P.weight key d key ≠ 0) (spacing : ℤ) (fees : Token → ℕ) (i : Token) :
    (P.modify spacing key d fees).inside key.lower key.upper i =
      (P.touched key d).inside key.lower key.upper i := by
  have hne : (key.tickLower : ℤ) ≠ key.tickUpper := hlt.ne
  have hinfo : ∀ t, key.lower = t ∨ key.upper = t →
      (P.modify spacing key d fees).tickInfo t = (P.touched key d).tickInfo t := by
    intro t ht
    simp only [Pool.modify, Pool.touched]
    rcases ht with rfl | rfl
    · simp only [PositionKey.lower, Function.update_of_ne hne, Function.update_self]
      exact h.tickAfter_eq hnonneg hkey (Or.inl rfl) (Or.inl rfl) false
    · simp only [PositionKey.upper, Function.update_self]
      exact h.tickAfter_eq hnonneg hkey (Or.inr rfl) (Or.inr rfl) true
  simp only [Pool.inside, hinfo _ (Or.inl rfl), hinfo _ (Or.inr rfl)]
  rfl

/-- Touching a position with liquidity reads the growth inside its range as it was
before. -/
theorem touched_inside (h : Bookkeeping pk P) (hlt : key.lower < key.upper)
    (hkey : P.weight key ≠ 0) (i : Token) :
    (((P.touched key d).inside key.lower key.upper i : ℕ) : Growth) =
      (P.counters i).inside key.lower key.upper := by
  have hne : (key.tickLower : ℤ) ≠ key.tickUpper := hlt.ne
  have hbelow : ∀ t, key.lower = t ∨ key.upper = t →
      ((P.touched key d).counters i).below t = (P.counters i).below t := by
    intro t ht
    have hgross := h.gross_ne_zero hkey ht
    have hout : ((((P.touched key d).tickInfo t).feeGrowthOutside i : ℕ) : Growth) =
        ((P.tickInfo t).feeGrowthOutside i : ℕ) := by
      simp only [Pool.touched]
      rcases ht with rfl | rfl
      · have hsame : (P.touchTick key.tickLower d false).feeGrowthOutside =
            (P.tickInfo key.tickLower).feeGrowthOutside := touchTick_outside hgross false
        simp only [PositionKey.lower, Function.update_of_ne hne, Function.update_self,
          TickInfo.readBack, readBack_cast, hsame]
      · have hsame : (P.touchTick key.tickUpper d true).feeGrowthOutside =
            (P.tickInfo key.tickUpper).feeGrowthOutside := touchTick_outside hgross true
        simp only [PositionKey.upper, Function.update_self, TickInfo.readBack, readBack_cast,
          hsame]
    simp only [Counters.below, Pool.counters]
    rw [hout]
    rfl
  rw [Pool.inside_cast]
  exact Counters.inside_congr (hbelow _ (Or.inl rfl)) (hbelow _ (Or.inr rfl))

end Bookkeeping

end LuxPrecompile.V3
