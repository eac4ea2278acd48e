import LuxPrecompile.V3.SwapOutcome
import LuxPrecompile.V3.TickSearch

/-!
# The swap loop ends

A pass that neither uses up the amount nor reaches the limit stops on a tick: an
initialised one, or the edge of its bitmap word.  The next pass looks for ticks strictly
behind that one, so such stops are all different.  Each of them lies strictly between the
starting price and the limit, except that the first may be at the starting price itself.
This bounds the passes of a swap by the initialised ticks and the bitmap words on its way.
-/

namespace LuxPrecompile.V3

open Dex Evm Support

/-! ## Counting passes -/

/-- `n` passes of the loop lead from `s` to `s'`. -/
inductive Iterates (p : SwapParams) (s : SwapState) : ℕ → SwapState → Prop
  | none : Iterates p s 0 s
  | pass {n : ℕ} {s' s'' : SwapState} (before : Iterates p s n s') (hgo : Continues p s')
      (hok : swapStep p s' = .ok s'') : Iterates p s (n + 1) s''

theorem Iterates.head {p : SwapParams} {s s1 s' : SwapState} {n : ℕ} (hgo : Continues p s)
    (hok : swapStep p s = .ok s1) (h : Iterates p s1 n s') : Iterates p s (n + 1) s' := by
  induction h with
  | none => exact .pass .none hgo hok
  | pass _ hgo' hok' ih => exact .pass ih hgo' hok'

theorem Iterates.invariant {p : SwapParams} {P : SwapState → Prop} {s s' : SwapState} {n : ℕ}
    (h : Iterates p s n s') (hs : Swapping p s) (hP : P s)
    (hstep : ∀ s s', Swapping p s → Continues p s → P s → swapStep p s = .ok s' → P s') :
    Swapping p s' ∧ P s' := by
  induction h with
  | none => exact ⟨hs, hP⟩
  | pass _ hgo hok ih => exact ⟨ih.1.step hok, hstep _ _ ih.1 hgo ih.2 hok⟩

theorem reachTick_ne_outOfGas (p : SwapParams) (s : SwapState) (t : ℤ) (initialized : Bool) :
    reachTick p s t initialized ≠ .error .outOfGas := by
  unfold reachTick
  cases initialized with
  | false => simp
  | true =>
      simp only [if_true]
      split_ifs
      · simp
      · simp

/-- No pass of the loop is short of gas; only the loop is. -/
theorem swapStep_ne_outOfGas (p : SwapParams) (s : SwapState) :
    swapStep p s ≠ .error .outOfGas := by
  unfold swapStep
  simp only
  split
  · simp
  · split
    · simp
    · split
      · simp
      · split_ifs
        · exact reachTick_ne_outOfGas _ _ _ _
        · split
          · simp
          · simp
        · simp

/-- A loop that runs out of gas has used all of it on passes, and would go on. -/
theorem swapLoop_outOfGas {p : SwapParams} (fuel : ℕ) {s : SwapState}
    (h : swapLoop p fuel s = .error .outOfGas) :
    ∃ s', Iterates p s fuel s' ∧ Continues p s' := by
  induction fuel generalizing s with
  | zero =>
      unfold swapLoop at h
      split_ifs at h with hgo
      exact ⟨s, .none, hgo⟩
  | succ fuel ih =>
      unfold swapLoop at h
      split_ifs at h with hgo
      cases hok : swapStep p s with
      | error e =>
          simp only [hok, Except.error.injEq] at h
          exact absurd (h ▸ hok) (swapStep_ne_outOfGas p s)
      | ok mid =>
          simp only [hok] at h
          obtain ⟨s', hpasses, hgo'⟩ := ih h
          exact ⟨s', hpasses.head hgo hok, hgo'⟩

/-- A loop that ends has made one pass for every unit of fuel it used. -/
theorem swapLoop_passes {p : SwapParams} (fuel : ℕ) {s s' : SwapState} {fuel' : ℕ}
    (h : swapLoop p fuel s = .ok (s', fuel')) :
    fuel' ≤ fuel ∧ Iterates p s (fuel - fuel') s' := by
  induction fuel generalizing s with
  | zero =>
      unfold swapLoop at h
      split_ifs at h
      simp only [Except.ok.injEq, Prod.mk.injEq] at h
      obtain ⟨rfl, rfl⟩ := h
      exact ⟨le_rfl, .none⟩
  | succ fuel ih =>
      unfold swapLoop at h
      split_ifs at h with hgo
      · cases hok : swapStep p s with
        | error e => simp [hok] at h
        | ok mid =>
            simp only [hok] at h
            obtain ⟨hle, hpasses⟩ := ih h
            refine ⟨by omega, ?_⟩
            rw [Nat.succ_sub hle]
            exact hpasses.head hgo hok
      · simp only [Except.ok.injEq, Prod.mk.injEq] at h
        obtain ⟨rfl, rfl⟩ := h
        refine ⟨le_rfl, ?_⟩
        rw [Nat.sub_self]
        exact .none

/-! ## One pass -/

/-- The search tick moved on in the direction of the swap. -/
def Advances (p : SwapParams) (s s' : SwapState) : Prop :=
  if p.zeroForOne then s'.tick < s.tick else s.tick < s'.tick

/-- A pass that stopped on a tick behind which the loop may go on: an initialised tick or
the edge of its bitmap word. -/
structure Stopped (p : SwapParams) (s s' : SwapState) (n : ℤ) : Prop where
  band : minTick ≤ n * p.pk.tickSpacing ∧ n * p.pk.tickSpacing ≤ maxTick
  behind : if p.zeroForOne then n * p.pk.tickSpacing ≤ s.tick
    else s.tick < n * p.pk.tickSpacing
  price : s'.sqrtPrice = sqrtRatio (n * p.pk.tickSpacing)
  tick : s'.tick = tickAfterCross p.zeroForOne (n * p.pk.tickSpacing)
  onWay : OnWay p.zeroForOne s.sqrtPrice (sqrtRatio (n * p.pk.tickSpacing)) p.sqrtPriceLimit
  edge : bitSet (s.storage.view p.pk).words n = true ∨
    n % 256 = if p.zeroForOne then 0 else 255

theorem Stopped.advances {p : SwapParams} {s s' : SwapState} {n : ℤ}
    (h : Stopped p s s' n) : Advances p s s' := by
  have hbehind := h.behind
  have htick := h.tick
  unfold Advances
  unfold tickAfterCross at htick
  split_ifs at hbehind htick ⊢
  · omega
  · omega

/-- A search up that finds nothing ends at the last tick of its word. -/
theorem nextTick_up_edge {p : SwapParams} {s : SwapState} (hdir : p.zeroForOne = false)
    (hprice : Priced s.sqrtPrice s.tick) {n : ℤ} (hn : (nextTick p s).1 = n * p.pk.tickSpacing)
    (hlt : n * p.pk.tickSpacing < maxTick) (hmissed : (nextTick p s).2 = false) :
    n % 256 = 255 := by
  have hs := p.pk.spacing_pos
  have hpos : 0 < p.pk.tickSpacing := by omega
  obtain ⟨hlo, hhi⟩ := compressed_range hs hprice.minTick_le hprice.lt_maxTick.le
  have hmin := hprice.minTick_le
  obtain ⟨m, hm, hgt, -⟩ :=
    nextInitializedTick_gt (s.storage.view p.pk).words hpos ⟨by omega, hhi⟩
  have hmgt : s.tick < m * p.pk.tickSpacing := by
    rwa [← Int.ediv_lt_iff_lt_mul hpos]
  have hfound : nextTick p s = nextInitializedTickWithinOneWord (s.storage.view p.pk).words
      s.tick p.pk.tickSpacing false := by
    simp only [nextTick, hdir, nextInitializedTick_eq] at hn ⊢
    split_ifs at hn ⊢ with h1 h2
    · omega
    · omega
    · rfl
  rw [hfound] at hn hmissed
  rw [nextInitializedTick_gt_edge _ hpos ⟨by omega, hhi⟩ hmissed] at hn
  have heq := mul_right_cancel₀ hpos.ne' hn
  omega

/-- A step that ended on the tick it headed for stopped there. -/
theorem Reached.stopped {p : SwapParams} {s s' : SwapState} {n : ℤ} {step : SwapStepResult}
    {growth : ℕ} (h : Reached p s n) (hs : Swapping p s) (hstepped : Stepped p s step growth)
    (hmoved : Moved p s step) (hreach : step.sqrtRatioNextX96 = sqrtRatio (nextTick p s).1)
    (hok : reachTick p (advance p s step growth) (nextTick p s).1 (nextTick p s).2 = .ok s') :
    Stopped p s s' n := by
  obtain ⟨hprice, htick, -⟩ := reachTick_price hok
  have hband := hstepped.band
  rw [h.tick_eq] at hreach htick hband
  have honWay := hmoved.onWay
  rw [hreach] at honWay
  refine ⟨hband, ?_, hprice.trans hreach, htick, honWay, ?_⟩
  · cases hdir : p.zeroForOne with
    | true =>
        obtain ⟨-, -, hle, -⟩ := nextTick_down hdir hs.priced.minTick_le hs.priced.lt_maxTick
        rwa [h.tick_eq] at hle
    | false =>
        obtain ⟨-, -, hlt, -⟩ := nextTick_up hdir hs.priced.minTick_le hs.priced.lt_maxTick
        rwa [h.tick_eq] at hlt
  · cases hbit : (nextTick p s).2 with
    | true => exact Or.inl (by rw [← h.bit_eq, hbit])
    | false =>
        right
        cases hdir : p.zeroForOne with
        | true => exact Int.emod_eq_zero_of_dvd (h.edge hdir hbit)
        | false =>
            have hlt := h.priced.lt_maxTick
            simp only [tickAfterCross, hdir, Bool.false_eq_true, if_false] at hlt
            exact nextTick_up_edge hdir hs.priced h.tick_eq hlt hbit

/-- A pass uses up the amount, reaches the limit or stops on a tick. -/
theorem pass_cases {p : SwapParams} {start : ℕ} {amountSpecified : ℤ} {s s' : SwapState}
    (hs : Swapping p s) (hgo : Continues p s) (haccounts : Accounts p start amountSpecified s)
    (hok : swapStep p s = .ok s') :
    s'.amountRemaining = 0 ∨ s'.sqrtPrice = p.sqrtPriceLimit ∨ ∃ n, Stopped p s s' n := by
  obtain ⟨step, growth, hstepped, hcases⟩ := swapStep_cases hok
  have hmoved := moved_of_stepped hs.priced hs.withinLimit hstepped
  by_cases hreach : step.sqrtRatioNextX96 = sqrtRatio (nextTick p s).1
  · obtain ⟨n, hn⟩ := reached_of_stepped hs.priced hs.withinLimit hstepped hmoved hreach
    rcases hcases with ⟨-, hreached⟩ | ⟨hne, -⟩ | ⟨hne, -⟩
    · exact Or.inr (Or.inr ⟨n, hn.stopped hs hstepped hmoved hreach hreached⟩)
    · exact absurd hreach hne
    · exact absurd hreach hne
  · obtain ⟨step', growth', hstepped', haccrued⟩ := swapStep_accrued hok
    have hsame : step' = step :=
      Option.some.inj (hstepped'.stepResult.symm.trans hstepped.stepResult)
    rw [hsame] at haccrued
    by_cases htarget : step.sqrtRatioNextX96 = stepTarget p (sqrtRatio (nextTick p s).1)
    · right
      left
      rw [haccrued.sqrtPrice, htarget]
      rw [htarget] at hreach
      unfold stepTarget at hreach ⊢
      split_ifs at hreach ⊢
      · exact (max_choice _ _).resolve_left hreach
      · exact (min_choice _ _).resolve_left hreach
    · left
      have hcontract := hs.contract hgo hstepped
      rw [haccrued.amountRemaining]
      cases hexact : p.exactInput with
      | true =>
          obtain ⟨-, hsign⟩ := haccounts.exactInput hexact
          have hneg : s.amountRemaining < 0 := lt_of_le_of_ne hsign hgo.1
          have hspent := (hcontract.exactInput hneg).2 htarget
          rw [abs_of_neg hneg] at hspent
          rw [if_pos rfl]
          omega
      | false =>
          obtain ⟨-, hsign⟩ := haccounts.exactOutput hexact
          have hpos : 0 < s.amountRemaining := lt_of_le_of_ne hsign (Ne.symm hgo.1)
          have hpaid := (hcontract.exactOutput hpos).2 htarget
          rw [if_neg Bool.false_ne_true]
          omega

/-! ## What lies ahead -/

/-- A price strictly between the price of the pool and the limit. -/
def Ahead (p : SwapParams) (price q : ℕ) : Prop :=
  if p.zeroForOne then p.sqrtPriceLimit < q ∧ q < price else price < q ∧ q < p.sqrtPriceLimit

instance (p : SwapParams) (price q : ℕ) : Decidable (Ahead p price q) :=
  inferInstanceAs (Decidable (if p.zeroForOne = true then p.sqrtPriceLimit < q ∧ q < price
    else price < q ∧ q < p.sqrtPriceLimit))

/-- The usable multiples of the spacing strictly between a price and the limit. -/
noncomputable def ticksAhead (p : SwapParams) (price : ℕ) : Finset ℤ :=
  (Finset.Icc minTick maxTick).filter fun t =>
    p.pk.tickSpacing ∣ t ∧ Ahead p price (sqrtRatio t)

/-- Those of them whose bit is set. -/
noncomputable def initializedAhead (p : SwapParams) (words : TickBitmap) (price : ℕ) : Finset ℤ :=
  (ticksAhead p price).filter fun t => bitSet words (t / p.pk.tickSpacing) = true

/-- The bitmap words that hold them. -/
noncomputable def wordsAhead (p : SwapParams) (price : ℕ) : Finset ℤ :=
  (ticksAhead p price).image fun t => tickWord t p.pk.tickSpacing

/-- The stops a swap can still make. -/
noncomputable def stopsAhead (p : SwapParams) (words : TickBitmap) (price : ℕ) : ℕ :=
  (initializedAhead p words price).card + (wordsAhead p price).card

theorem mem_ticksAhead {p : SwapParams} {price : ℕ} {n : ℤ}
    (hband : minTick ≤ n * p.pk.tickSpacing ∧ n * p.pk.tickSpacing ≤ maxTick) :
    n * p.pk.tickSpacing ∈ ticksAhead p price ↔
      Ahead p price (sqrtRatio (n * p.pk.tickSpacing)) := by
  simp [ticksAhead, hband]

theorem ticksAhead_subset {p : SwapParams} {a b : ℕ}
    (h : OnWay p.zeroForOne a b p.sqrtPriceLimit) : ticksAhead p b ⊆ ticksAhead p a := by
  refine Finset.monotone_filter_right _ ?_
  rintro t - ⟨hdvd, hahead⟩
  refine ⟨hdvd, ?_⟩
  unfold OnWay at h
  unfold Ahead at hahead ⊢
  split_ifs at h hahead ⊢
  · omega
  · omega

theorem initializedAhead_subset {p : SwapParams} {words : TickBitmap} {a b : ℕ}
    (h : OnWay p.zeroForOne a b p.sqrtPriceLimit) :
    initializedAhead p words b ⊆ initializedAhead p words a :=
  Finset.filter_subset_filter _ (ticksAhead_subset h)

theorem wordsAhead_subset {p : SwapParams} {a b : ℕ}
    (h : OnWay p.zeroForOne a b p.sqrtPriceLimit) : wordsAhead p b ⊆ wordsAhead p a :=
  Finset.image_subset_image (ticksAhead_subset h)

theorem stopsAhead_le {p : SwapParams} {words : TickBitmap} {a b : ℕ}
    (h : OnWay p.zeroForOne a b p.sqrtPriceLimit) :
    stopsAhead p words b ≤ stopsAhead p words a :=
  Nat.add_le_add (Finset.card_le_card (initializedAhead_subset h))
    (Finset.card_le_card (wordsAhead_subset h))

/-- Behind a stop nothing is ahead of the stop's own price. -/
theorem Stopped.ahead_iff {p : SwapParams} {s s' : SwapState} {n m : ℤ}
    (h : Stopped p s s' n)
    (hband : minTick ≤ m * p.pk.tickSpacing ∧ m * p.pk.tickSpacing ≤ maxTick)
    (hahead : Ahead p s'.sqrtPrice (sqrtRatio (m * p.pk.tickSpacing))) :
    if p.zeroForOne then m < n else n < m := by
  have hpos : 0 < p.pk.tickSpacing := by
    have := p.pk.spacing_pos
    omega
  rw [h.price] at hahead
  unfold Ahead at hahead
  split_ifs at hahead ⊢
  · exact lt_of_mul_lt_mul_right (lt_of_sqrtRatio_lt hband h.band hahead.2) hpos.le
  · exact lt_of_mul_lt_mul_right (lt_of_sqrtRatio_lt h.band hband hahead.1) hpos.le

/-- A stop that was ahead is no longer: either it was the tick of one more set bit, or the
last one of its word. -/
theorem Stopped.stopsAhead_lt {p : SwapParams} {s s' : SwapState} {n : ℤ}
    (h : Stopped p s s' n)
    (hahead : Ahead p s.sqrtPrice (sqrtRatio (n * p.pk.tickSpacing))) :
    stopsAhead p (s.storage.view p.pk).words s'.sqrtPrice <
      stopsAhead p (s.storage.view p.pk).words s.sqrtPrice := by
  have hs := p.pk.spacing_pos
  have hpos : 0 < p.pk.tickSpacing := by omega
  have honWay : OnWay p.zeroForOne s.sqrtPrice s'.sqrtPrice p.sqrtPriceLimit := by
    rw [h.price]
    exact h.onWay
  have hinit : (initializedAhead p (s.storage.view p.pk).words s'.sqrtPrice).card ≤
      (initializedAhead p (s.storage.view p.pk).words s.sqrtPrice).card :=
    Finset.card_le_card (initializedAhead_subset honWay)
  have hwords := Finset.card_le_card (wordsAhead_subset honWay)
  have hmem := (mem_ticksAhead h.band).mpr hahead
  have hmiss : n * p.pk.tickSpacing ∉ ticksAhead p s'.sqrtPrice := by
    intro hin
    have hself := h.ahead_iff h.band ((mem_ticksAhead h.band).mp hin)
    split_ifs at hself
    · omega
    · omega
  unfold stopsAhead
  rcases h.edge with hbit | hedge
  · have hlt : (initializedAhead p (s.storage.view p.pk).words s'.sqrtPrice).card <
        (initializedAhead p (s.storage.view p.pk).words s.sqrtPrice).card := by
      apply Finset.card_lt_card
      rw [Finset.ssubset_iff_of_subset (initializedAhead_subset honWay)]
      refine ⟨n * p.pk.tickSpacing, ?_, fun hin => hmiss (Finset.mem_of_mem_filter _ hin)⟩
      rw [initializedAhead, Finset.mem_filter, Int.mul_ediv_cancel _ hpos.ne']
      exact ⟨hmem, hbit⟩
    omega
  · have hlt : (wordsAhead p s'.sqrtPrice).card < (wordsAhead p s.sqrtPrice).card := by
      apply Finset.card_lt_card
      rw [Finset.ssubset_iff_of_subset (wordsAhead_subset honWay)]
      refine ⟨tickWord (n * p.pk.tickSpacing) p.pk.tickSpacing,
        Finset.mem_image_of_mem _ hmem, ?_⟩
      intro hin
      obtain ⟨t, ht, hword⟩ := Finset.mem_image.mp hin
      obtain ⟨hIcc, ⟨m, hm⟩, hmahead⟩ := Finset.mem_filter.mp ht
      rw [mul_comm] at hm
      subst hm
      rw [Finset.mem_Icc] at hIcc
      have hside := h.ahead_iff hIcc hmahead
      rw [tickWord_mul hs (by omega) hIcc.2, tickWord_mul hs (by have := h.band; omega)
        h.band.2] at hword
      split_ifs at hedge hside
      · omega
      · omega
    omega

/-! ## The number of passes -/

/-- The price is that of the tick the loop stopped on. -/
def AtStop (p : SwapParams) (s : SwapState) : Prop :=
  s.sqrtPrice = sqrtRatio (if p.zeroForOne then s.tick + 1 else s.tick)

theorem Stopped.atStop {p : SwapParams} {s s' : SwapState} {n : ℤ} (h : Stopped p s s' n) :
    AtStop p s' := by
  have htick := h.tick
  unfold tickAfterCross at htick
  unfold AtStop
  rw [h.price]
  split_ifs at htick ⊢
  · rw [htick, sub_add_cancel]
  · rw [htick]

theorem Stopped.ahead_or_same {p : SwapParams} {s s' : SwapState} {n : ℤ}
    (h : Stopped p s s' n) (hshort : s'.sqrtPrice ≠ p.sqrtPriceLimit) :
    Ahead p s.sqrtPrice (sqrtRatio (n * p.pk.tickSpacing)) ∨ s'.sqrtPrice = s.sqrtPrice := by
  have honWay := h.onWay
  rw [← h.price] at honWay ⊢
  unfold OnWay at honWay
  unfold Ahead
  split_ifs at honWay ⊢
  · omega
  · omega

/-- The stop after a stop is ahead. -/
theorem Stopped.ahead_of_atStop {p : SwapParams} {s s' : SwapState} {n : ℤ}
    (h : Stopped p s s' n) (hs : Swapping p s) (hat : AtStop p s)
    (hshort : s'.sqrtPrice ≠ p.sqrtPriceLimit) :
    Ahead p s.sqrtPrice (sqrtRatio (n * p.pk.tickSpacing)) := by
  refine (h.ahead_or_same hshort).resolve_right ?_
  intro hsame
  rw [h.price, hat] at hsame
  have hbehind := h.behind
  have hlow := hs.priced.minTick_le
  have hhigh := hs.priced.lt_maxTick
  split_ifs at hbehind hsame
  · have hlt := (sqrtRatio_lt_iff h.band hs.priced.tickSucc_le).mpr (by omega)
    omega
  · have hlt := (sqrtRatio_lt_iff ⟨hlow, hhigh.le⟩ h.band).mpr hbehind
    omega

theorem swapStep_words {p : SwapParams} {s s' : SwapState} (h : swapStep p s = .ok s') :
    (s'.storage.view p.pk).words = (s.storage.view p.pk).words :=
  (swapStep_frame h).2.2

section Count

variable {p : SwapParams} {start : ℕ} {amountSpecified : ℤ} {s0 s : SwapState} {n : ℕ}

theorem Iterates.accounts (h : Iterates p s0 n s) (hs : Swapping p s0)
    (haccounts : Accounts p start amountSpecified s0) :
    Swapping p s ∧ Accounts p start amountSpecified s ∧
      (s.storage.view p.pk).words = (s0.storage.view p.pk).words := by
  refine h.invariant (P := fun s => Accounts p start amountSpecified s ∧
    (s.storage.view p.pk).words = (s0.storage.view p.pk).words) hs ⟨haccounts, rfl⟩ ?_
  rintro s s' hs hgo ⟨hacc, hwords⟩ hok
  exact ⟨hacc.step hs hgo hok, (swapStep_words hok).trans hwords⟩

/-- Every pass that leaves the loop going makes one of the stops ahead, except that the
first may stop where it started. -/
theorem Iterates.stops (h : Iterates p s0 n s) (hs : Swapping p s0)
    (haccounts : Accounts p start amountSpecified s0) (hgo : Continues p s) :
    (n = 0 ∧ s = s0) ∨
      (AtStop p s ∧ n + stopsAhead p (s0.storage.view p.pk).words s.sqrtPrice ≤
        stopsAhead p (s0.storage.view p.pk).words s0.sqrtPrice + 1) := by
  induction h with
  | none => exact Or.inl ⟨rfl, rfl⟩
  | @pass n s' s'' before hgo' hok ih =>
      right
      obtain ⟨hs', hacc', hwords⟩ := before.accounts hs haccounts
      obtain ⟨m, hm⟩ := ((pass_cases hs' hgo' hacc' hok).resolve_left hgo.1).resolve_left hgo.2
      refine ⟨hm.atStop, ?_⟩
      rcases ih hgo' with ⟨rfl, rfl⟩ | ⟨hat, hcount⟩
      · have hle : stopsAhead p (s'.storage.view p.pk).words s''.sqrtPrice ≤
            stopsAhead p (s'.storage.view p.pk).words s'.sqrtPrice := by
          apply stopsAhead_le
          rw [hm.price]
          exact hm.onWay
        omega
      · have hlt := hm.stopsAhead_lt (hm.ahead_of_atStop hs' hat hgo.2)
        rw [hwords] at hlt
        omega

theorem Iterates.le_of_continues (h : Iterates p s0 n s) (hs : Swapping p s0)
    (haccounts : Accounts p start amountSpecified s0) (hgo : Continues p s) :
    n ≤ stopsAhead p (s0.storage.view p.pk).words s0.sqrtPrice + 1 := by
  rcases h.stops hs haccounts hgo with ⟨rfl, -⟩ | ⟨-, hcount⟩
  · exact Nat.zero_le _
  · omega

theorem Iterates.le (h : Iterates p s0 n s) (hs : Swapping p s0)
    (haccounts : Accounts p start amountSpecified s0) :
    n ≤ stopsAhead p (s0.storage.view p.pk).words s0.sqrtPrice + 2 := by
  cases h with
  | none => exact Nat.zero_le _
  | pass before hgo _ =>
      have hle := before.le_of_continues hs haccounts hgo
      omega

end Count

/-! ## Every swap -/

/-- A swap call whose loop runs out of gas fails, and leaves the world as it was. -/
theorem outOfGas_rolls_back {w : World} {c : Call} {p : SwapParams} {amountSpecified : ℤ}
    {db : Storage} (h : Admitted w c p amountSpecified db) (trace : List Outcome)
    (hgas : swapLoop p ((c.gas - gasSwapBase) / gasSwapStep)
      (swapInit db p.pk amountSpecified) = .error .outOfGas) :
    call w c = none ∧ exec (w, trace) (.call c) = (w, trace) := by
  have hfails : call w c = none := by
    cases hcall : call w c with
    | none => rfl
    | some r =>
        obtain ⟨p', amountSpecified', db', s, hswap⟩ :=
          call_swap (show call w c = some (r.1, r.2) from hcall) h.selector
        have hpk : p'.pk = p.pk := Except.ok.inj (hswap.key.symm.trans h.key)
        have hp : p' = p := by rw [hswap.params, h.params, hpk]
        obtain ⟨fuel, hloop⟩ := hswap.loop
        have hdb : db' = db := Option.some.inj (hswap.guarded.symm.trans h.guarded)
        rw [hp, hswap.amount, ← h.amount, hdb, hgas] at hloop
        cases hloop
  exact ⟨hfails, by rw [exec, hfails]⟩

/-- The bound on the passes of a swap: the initialised ticks strictly between the price and
the limit, the bitmap words of the ticks there, and two. -/
noncomputable def passBound (p : SwapParams) (db : Storage) : ℕ :=
  (initializedAhead p (db.view p.pk).words (loadSqrtPrice db p.pk)).card +
    (wordsAhead p (loadSqrtPrice db p.pk)).card + 2

/-- In every swap admitted in a reachable state, each pass of the loop uses up the amount,
reaches the limit or moves the search tick on, and there are never more passes than the
bound.  So the loop ends when its gas pays for that many passes; where the gas runs out
first, the call fails and nothing of it remains. -/
theorem swap_progress {w0 : World} (h0 : Genesis w0) (actions : List Action) {c : Call}
    {p : SwapParams} {amountSpecified : ℤ} {db : Storage}
    (h : Admitted (runFrom w0 actions).1 c p amountSpecified db) :
    (∀ n s s', Iterates p (swapInit db p.pk amountSpecified) n s → Continues p s →
      swapStep p s = .ok s' →
        s'.amountRemaining = 0 ∨ s'.sqrtPrice = p.sqrtPriceLimit ∨ Advances p s s') ∧
    (∀ n s, Iterates p (swapInit db p.pk amountSpecified) n s → n ≤ passBound p db) ∧
    (∀ fuel s fuel', swapLoop p fuel (swapInit db p.pk amountSpecified) = .ok (s, fuel') →
      fuel' ≤ fuel ∧ fuel - fuel' ≤ passBound p db) ∧
    (∀ fuel, passBound p db ≤ fuel →
      swapLoop p fuel (swapInit db p.pk amountSpecified) ≠ .error .outOfGas) ∧
    (swapLoop p ((c.gas - gasSwapBase) / gasSwapStep)
        (swapInit db p.pk amountSpecified) = .error .outOfGas →
      call (runFrom w0 actions).1 c = none ∧
        exec (runFrom w0 actions) (.call c) = runFrom w0 actions) := by
  have hpriced := (reachable_consistent h0 actions p.pk h.initialized).priced
  have hs := h.swapping hpriced
  have haccounts := h.accounts hpriced
  have hbound : ∀ n s, Iterates p (swapInit db p.pk amountSpecified) n s →
      n ≤ passBound p db := fun n s hpasses => hpasses.le hs haccounts
  refine ⟨?_, hbound, ?_, ?_, outOfGas_rolls_back h _⟩
  · intro n s s' hpasses hgo hok
    obtain ⟨hs', hacc', -⟩ := hpasses.accounts hs haccounts
    rcases pass_cases hs' hgo hacc' hok with hzero | hlimit | ⟨m, hm⟩
    · exact Or.inl hzero
    · exact Or.inr (Or.inl hlimit)
    · exact Or.inr (Or.inr hm.advances)
  · intro fuel s fuel' hloop
    obtain ⟨hle, hpasses⟩ := swapLoop_passes fuel hloop
    exact ⟨hle, hbound _ _ hpasses⟩
  · intro fuel hfuel hgas
    obtain ⟨s, hpasses, hgo⟩ := swapLoop_outOfGas fuel hgas
    have hle : fuel + 1 ≤ passBound p db :=
      Nat.succ_le_succ (hpasses.le_of_continues hs haccounts hgo)
    omega

/-- The sample swap is admitted after the pool was opened and funded. -/
theorem swapToZero_admitted :
    Admitted (runFrom fundedWorld (stopThenDust.take 2)).1 swapToZero
      ⟨sixtyPool, true, true, 2 ^ 96⟩ (-1000000)
      { (runFrom fundedWorld (stopThenDust.take 2)).1.storage with guard := 1 } where
  selector := by decide
  key := by decide +kernel
  params := by
    rw [swapParams, SwapParams.mk.injEq]
    decide +kernel
  amount := by decide
  guarded := if_neg (by decide +kernel)
  initialized := by decide +kernel
  nonzero := by decide
  limit := by decide +kernel

theorem swap_progress_swapToZero :
    swapLoop ⟨sixtyPool, true, true, 2 ^ 96⟩
        (passBound ⟨sixtyPool, true, true, 2 ^ 96⟩
          { (runFrom fundedWorld (stopThenDust.take 2)).1.storage with guard := 1 })
        (swapInit { (runFrom fundedWorld (stopThenDust.take 2)).1.storage with guard := 1 }
          sixtyPool (-1000000)) ≠ .error .outOfGas :=
  (swap_progress fundedWorld_genesis (stopThenDust.take 2) swapToZero_admitted).2.2.2.1 _ le_rfl

end LuxPrecompile.V3
