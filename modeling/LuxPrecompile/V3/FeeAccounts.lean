import LuxPrecompile.Support.Sums
import LuxPrecompile.V3.FeeGrowth
import LuxPrecompile.V3.PriceTick
import LuxPrecompile.V3.SwapOutcome

/-!
# Fee accounts

The fees a touch credits to a position are its share of the growth since the touch
before, rounded down.  Every step hands out no more growth than the fee it charged
covers at the liquidity it used, which is the liquidity of the positions around
it, so the positions of a pool never get more fees than its swaps charged.
-/

namespace LuxPrecompile.V3

open Dex Evm Support

/-! ## The fees of a trace -/

/-- The call changed the liquidity of a position. -/
def Outcome.touches (pk : PoolKey) (key : PositionKey) (out : Outcome) : Bool :=
  match out.event with
  | some (.mint pool k _ _) => decide (pool = pk ∧ k = key)
  | some (.burn pool k _ _) => decide (pool = pk ∧ k = key)
  | _ => false

/-- The swap steps of a call in a pool. -/
def Outcome.stepsIn (pk : PoolKey) (out : Outcome) : List StepRecord :=
  if out.swapIn pk then out.steps else []

/-- The fees a call credited in a pool. -/
def Outcome.creditedIn (pk : PoolKey) (i : Token) (out : Outcome) : ℕ :=
  match out.event with
  | some ev => if ev.pool = pk then out.feesCredited i else 0
  | none => 0

/-- The swap steps of a pool since the last touch of a position. -/
def sinceTouch (pk : PoolKey) (key : PositionKey) (trace : List Outcome) : List StepRecord :=
  (trace.takeWhile fun out => !out.touches pk key).flatMap (Outcome.stepsIn pk)

/-- The growth inside the range of a position since its last touch. -/
def growthSince (pk : PoolKey) (key : PositionKey) (i : Token) (trace : List Outcome) : ℕ :=
  growthIn key.lower key.upper i (sinceTouch pk key trace)

/-- The fees of the steps that charged a token. -/
def feesOf (i : Token) (steps : List StepRecord) : ℤ :=
  (steps.map fun r => if r.token = i then r.fee else 0).sum

/-- The fees ever credited to positions of a pool. -/
def credited (pk : PoolKey) (i : Token) (trace : List Outcome) : ℕ :=
  (trace.map (Outcome.creditedIn pk i)).sum

/-- The fees ever charged by swaps of a pool. -/
def charged (pk : PoolKey) (i : Token) (trace : List Outcome) : ℤ :=
  (trace.map fun out => feesOf i (out.stepsIn pk)).sum

section Traces

variable {pk : PoolKey} {key : PositionKey} {i : Token} {out : Outcome} {trace : List Outcome}

theorem growthSince_of_touch (h : out.touches pk key = true) :
    growthSince pk key i (out :: trace) = 0 := by
  simp [growthSince, sinceTouch, h]

theorem growthSince_of_not_touch (h : out.touches pk key = false) :
    growthSince pk key i (out :: trace) =
      growthIn key.lower key.upper i (out.stepsIn pk) + growthSince pk key i trace := by
  simp [growthSince, sinceTouch, h, growthIn_append]

theorem credited_cons : credited pk i (out :: trace) =
    out.creditedIn pk i + credited pk i trace := by
  simp [credited]

theorem charged_cons : charged pk i (out :: trace) =
    feesOf i (out.stepsIn pk) + charged pk i trace := by
  simp [charged]

theorem feesOf_append (steps steps' : List StepRecord) :
    feesOf i (steps ++ steps') = feesOf i steps + feesOf i steps' := by
  simp [feesOf]

theorem silent_of_ne (h : ∀ ev, out.event = some ev → ev.pool ≠ pk) :
    out.stepsIn pk = [] ∧ (∀ key, out.touches pk key = false) ∧ out.creditedIn pk i = 0 := by
  unfold Outcome.stepsIn Outcome.swapIn Outcome.touches Outcome.creditedIn
  rcases hev : out.event with _ | ev
  · simp
  · have hne := h ev hev
    cases ev <;> simp_all [Event.pool]

end Traces

/-! ## Growth since the last touch -/

/-- Every position with liquidity knows the growth inside its range since its last
touch. -/
def Tracked (pk : PoolKey) (P : Pool) (trace : List Outcome) : Prop :=
  ∀ k, P.weight k ≠ 0 → ∀ i, (P.counters i).inside k.lower k.upper =
    ((P.position k).feeGrowthInsideLast i : ℕ) + (growthSince pk k i trace : ℕ)

theorem Modify.addWeight_nonneg {spacing : ℤ} {P P' : Pool} {key : PositionKey} {d : ℤ}
    {fees amounts : Token → ℕ} (h : Modify spacing P key d fees amounts P') (k : PositionKey) :
    0 ≤ addWeight P.weight key d k := by
  unfold addWeight
  by_cases hk : k = key
  · rw [hk, Function.update_self]
    exact h.liquidity_nonneg
  · rw [Function.update_of_ne hk]
    exact P.weight_nonneg k

/-- A change of a position keeps what the others know, and the position starts
over. -/
theorem Tracked.modify {pk : PoolKey} {P P' : Pool} {trace : List Outcome}
    {key : PositionKey} {d : ℤ} {fees amounts : Token → ℕ} (h : Tracked pk P trace)
    (hbook : Bookkeeping pk P) (hrange : ValidRange pk key)
    (hmodify : Modify pk.tickSpacing P key d fees amounts P')
    (hweight : P'.weight = addWeight P.weight key d) {k : PositionKey}
    (hk : P'.weight k ≠ 0) (i : Token) :
    (P'.counters i).inside k.lower k.upper = ((P'.position k).feeGrowthInsideLast i : ℕ) +
      ((if k = key then 0 else growthSince pk k i trace : ℕ) : Growth) := by
  have hlt : key.lower < key.upper := hrange.lower_lt
  have hnonneg := hmodify.addWeight_nonneg
  rw [hweight] at hk
  rw [hmodify.result]
  by_cases hkey : k = key
  · subst hkey
    rw [if_pos rfl, Nat.cast_zero, add_zero, ← Pool.inside_cast,
      hbook.modify_touched hlt hnonneg hk]
    simp only [Pool.modify, Function.update_self, Position.readBack, readBack_cast]
    rfl
  · have hold : P.weight k ≠ 0 := by
      unfold addWeight at hk
      rwa [Function.update_of_ne hkey] at hk
    rw [if_neg hkey, hbook.modify_inside hnonneg hold hk]
    simp only [Pool.modify, Function.update_of_ne hkey]
    exact h k hold i

theorem Tracked.step {pk : PoolKey} {P P' : Pool} {trace : List Outcome} {out : Outcome}
    (h : Tracked pk P trace) (hsound : Sound pk P trace)
    (hbound : minted pk (out :: trace) < 2 ^ 255) (hstep : PoolStep pk P P' out) :
    Tracked pk P' (out :: trace) := by
  have hsound' := hsound.step hbound hstep
  rw [minted_cons] at hbound
  have htotal := hsound.total_le
  have hsmall : totalWeight P.weight < 2 ^ 255 := by omega
  intro k hk i
  cases hstep with
  | idle hevent =>
      obtain ⟨hsteps, htouches, -⟩ := silent_of_ne (i := i) hevent
      rw [growthSince_of_not_touch (htouches k), hsteps, growthIn_nil, zero_add]
      exact h k hk i
  | init hnew _ _ _ _ _ => exact absurd (hsound.fresh hnew k) hk
  | @mint _ _ key amount amounts _ hrange _ _ hmodify hevent _ =>
      have hminted : out.minted pk = amount := by simp [Outcome.minted, hevent]
      obtain ⟨-, hweight⟩ := hsound.book.modify hrange hmodify.liquidity_nonneg
        (by omega) out.feesCredited
      rw [← hmodify.result] at hweight
      rw [h.modify hsound.book hrange hmodify hweight hk]
      by_cases hkey : k = key
      · rw [if_pos hkey, growthSince_of_touch (by simp [Outcome.touches, hevent, hkey])]
      · have htouch : out.touches pk k = false := by
          simp [Outcome.touches, hevent, Ne.symm hkey]
        rw [if_neg hkey, growthSince_of_not_touch htouch]
        simp [Outcome.stepsIn, Outcome.swapIn, hevent]
  | @burn _ P1 key amount amounts _ hrange _ _ hmodify hevent _ =>
      obtain ⟨hbook1, hweight⟩ := hsound.book.modify hrange hmodify.liquidity_nonneg
        (by omega) out.feesCredited
      rw [← hmodify.result] at hbook1 hweight
      have hsmall1 : totalWeight P1.weight < 2 ^ 255 := by
        rw [hweight, totalWeight_addWeight]
        omega
      have hcredit : (P1.credit key amounts).weight = P1.weight :=
        (hbook1.setOwed hsmall1 key _).2
      rw [hcredit] at hk
      have hlast : (((P1.credit key amounts).position k).feeGrowthInsideLast i : Growth) =
          ((P1.position k).feeGrowthInsideLast i : ℕ) := by
        by_cases hkey : k = key
        · subst hkey
          simp only [Pool.credit, Function.update_self, Position.readBack, readBack_cast]
        · simp only [Pool.credit, Function.update_of_ne hkey]
      rw [hlast, show (P1.credit key amounts).counters i = P1.counters i from rfl,
        h.modify hsound.book hrange hmodify hweight hk]
      by_cases hkey : k = key
      · rw [if_pos hkey, growthSince_of_touch (by simp [Outcome.touches, hevent, hkey])]
      · have htouch : out.touches pk k = false := by
          simp [Outcome.touches, hevent, Ne.symm hkey]
        rw [if_neg hkey, growthSince_of_not_touch htouch]
        simp [Outcome.stepsIn, Outcome.swapIn, hevent]
  | @collect _ key amounts _ hevent _ _ =>
      have hcollect : (P.collect key amounts).weight = P.weight :=
        (hsound.book.setOwed hsmall key _).2
      rw [hcollect] at hk
      have hlast : (((P.collect key amounts).position k).feeGrowthInsideLast i : Growth) =
          ((P.position k).feeGrowthInsideLast i : ℕ) := by
        by_cases hkey : k = key
        · subst hkey
          simp only [Pool.collect, Function.update_self, Position.readBack, readBack_cast]
        · simp only [Pool.collect, Function.update_of_ne hkey]
      have htouch : out.touches pk k = false := by simp [Outcome.touches, hevent]
      rw [hlast, growthSince_of_not_touch htouch]
      simp only [Outcome.stepsIn, Outcome.swapIn, hevent, Bool.false_eq_true, if_false,
        growthIn_nil, zero_add]
      exact h k hk i
  | @swap _ db p sender amountSpecified fuel fuel' s hpk hview hinit hlimit hloop hevent
      hsteps _ =>
      subst hpk
      subst hview
      obtain ⟨-, hpos, hpersist⟩ :=
        hsound.book.swapLoop hsmall (hsound.priced hinit) hlimit hloop
      rw [hpersist] at hk ⊢
      rw [Pool.weight_congr hpos] at hk
      have htouch : out.touches p.pk k = false := by simp [Outcome.touches, hevent]
      have hin : out.stepsIn p.pk = s.steps := by
        simp [Outcome.stepsIn, Outcome.swapIn, hevent, hsteps]
      rw [swapLoop_inside hsound.book hsmall ⟨hsound.priced hinit, hlimit⟩ hloop hk i,
        h k hk i, hpos, growthSince_of_not_touch htouch, hin]
      push_cast
      ring

theorem reachable_tracked (pk : PoolKey) {w : World} (hw : Genesis w) (actions : List Action)
    (hbound : minted pk (runFrom w actions).2 < 2 ^ 255) :
    Sound pk ((runFrom w actions).1.storage.view pk) (runFrom w actions).2 ∧
      Tracked pk ((runFrom w actions).1.storage.view pk) (runFrom w actions).2 := by
  refine sound_invariant pk (I := Tracked pk) ?_ ?_ hw actions hbound
  · intro k hk
    exact absurd rfl hk
  · intro P P' out trace hsound hlt htracked hstep
    exact htracked.step hsound hlt hstep

/-! ## What a touch credits -/

/-- A touch credits the position's share of the growth since its last touch, rounded
down. -/
theorem Modify.fees {pk : PoolKey} {P P' : Pool} {trace : List Outcome} {key : PositionKey}
    {d : ℤ} {fees amounts : Token → ℕ} (h : Modify pk.tickSpacing P key d fees amounts P')
    (hbook : Bookkeeping pk P) (htracked : Tracked pk P trace) (hrange : ValidRange pk key)
    (i : Token) :
    fees i = growthSince pk key i trace % 2 ^ 256 * (P.position key).liquidity / 2 ^ 128 := by
  have hfees := h.fees_eq i
  unfold owedFees at hfees
  by_cases hliq : 0 < (P.position key).liquidity
  · rw [if_pos hliq] at hfees
    obtain ⟨-, heq, -⟩ := mulDiv_eq_some hfees
    have hkey : P.weight key ≠ 0 := by
      unfold Pool.weight
      omega
    have hgrown : sub256 ((P.touched key d).inside key.tickLower key.tickUpper i)
        ((P.position key).feeGrowthInsideLast i) = growthSince pk key i trace % 2 ^ 256 := by
      apply eq_of_cast_eq (sub256_lt _ _) (Nat.mod_lt _ (by positivity))
      rw [sub256_cast, ZMod.natCast_mod]
      have hinside := hbook.touched_inside (d := d) hrange.lower_lt hkey i
      rw [htracked key hkey i] at hinside
      simp only [PositionKey.lower, PositionKey.upper] at hinside
      rw [hinside]
      ring
    rw [heq, hgrown]
    rfl
  · rw [if_neg hliq] at hfees
    have hzero : (P.position key).liquidity = 0 := by omega
    rw [hzero, Nat.mul_zero, Nat.zero_div]
    exact (Option.some.inj hfees).symm

theorem Modify.fees_le {pk : PoolKey} {P P' : Pool} {trace : List Outcome} {key : PositionKey}
    {d : ℤ} {fees amounts : Token → ℕ} (h : Modify pk.tickSpacing P key d fees amounts P')
    (hbook : Bookkeeping pk P) (htracked : Tracked pk P trace) (hrange : ValidRange pk key)
    (i : Token) :
    2 ^ 128 * fees i ≤ (P.position key).liquidity * growthSince pk key i trace := by
  rw [h.fees hbook htracked hrange i]
  calc 2 ^ 128 * (growthSince pk key i trace % 2 ^ 256 * (P.position key).liquidity / 2 ^ 128)
      ≤ growthSince pk key i trace % 2 ^ 256 * (P.position key).liquidity :=
        Nat.mul_div_le _ _
    _ ≤ growthSince pk key i trace * (P.position key).liquidity :=
        Nat.mul_le_mul_right _ (Nat.mod_le _ _)
    _ = (P.position key).liquidity * growthSince pk key i trace := Nat.mul_comm _ _

/-- A call that touches a position credits its share of the growth since the touch
before. -/
theorem PoolStep.credits {pk : PoolKey} {P P' : Pool} {trace : List Outcome}
    {key : PositionKey} {out : Outcome} (hstep : PoolStep pk P P' out)
    (hbook : Bookkeeping pk P) (htracked : Tracked pk P trace)
    (htouch : out.touches pk key = true) (i : Token) :
    out.feesCredited i =
      growthSince pk key i trace % 2 ^ 256 * (P.position key).liquidity / 2 ^ 128 := by
  cases hstep with
  | idle hevent =>
      obtain ⟨-, htouches, -⟩ := silent_of_ne (i := i) hevent
      rw [htouches key] at htouch
      cases htouch
  | init _ _ _ hevent _ _ => simp [Outcome.touches, hevent] at htouch
  | mint _ hrange _ _ hmodify hevent _ =>
      obtain rfl : _ = key := by simpa [Outcome.touches, hevent] using htouch
      exact hmodify.fees hbook htracked hrange i
  | burn _ hrange _ _ hmodify hevent _ =>
      obtain rfl : _ = key := by simpa [Outcome.touches, hevent] using htouch
      exact hmodify.fees hbook htracked hrange i
  | collect _ hevent _ _ => simp [Outcome.touches, hevent] at htouch
  | swap _ _ _ _ _ hevent _ _ => simp [Outcome.touches, hevent] at htouch

/-- After every run, what a position with liquidity would be found to have earned is
the growth, modulo the width of the counters, of exactly the swap steps since its
last touch that started inside its range.  The call that touches it next credits
that growth at the position's liquidity, rounded down. -/
theorem feeGrowth_inside {w : World} (hw : Genesis w) (actions : List Action) (pk : PoolKey)
    (hbound : minted pk (runFrom w actions).2 < 2 ^ 255) (key : PositionKey) (i : Token) :
    (0 < (loadPosition (runFrom w actions).1.storage pk key).liquidity →
      sub256 (((runFrom w actions).1.storage.view pk).inside key.lower key.upper i)
          ((loadPosition (runFrom w actions).1.storage pk key).feeGrowthInsideLast i) =
        growthSince pk key i (runFrom w actions).2 % 2 ^ 256) ∧
    ∀ c w' out, call (runFrom w actions).1 c = some (w', out) → out.touches pk key = true →
      out.feesCredited i = growthSince pk key i (runFrom w actions).2 % 2 ^ 256 *
        (loadPosition (runFrom w actions).1.storage pk key).liquidity / 2 ^ 128 := by
  obtain ⟨hsound, htracked⟩ := reachable_tracked pk hw actions hbound
  refine ⟨fun hliq => ?_, fun c w' out hcall htouch => ?_⟩
  · apply eq_of_cast_eq (sub256_lt _ _) (Nat.mod_lt _ (by positivity))
    have hkey : ((runFrom w actions).1.storage.view pk).weight key ≠ 0 := by
      show ((loadPosition (runFrom w actions).1.storage pk key).liquidity : ℤ) ≠ 0
      omega
    rw [sub256_cast, ZMod.natCast_mod, Pool.inside_cast, htracked key hkey i]
    exact add_sub_cancel_left _ _
  · exact (call_poolStep hcall pk).credits hsound.book htracked htouch i

/-- The position of account 7 in the run `stopThenDust`. -/
def wideKey : PositionKey := ⟨7, ⟨-600, by decide⟩, ⟨600, by decide⟩⟩

theorem minted_stopThenDust :
    minted sixtyPool (runFrom fundedWorld stopThenDust).2 < 2 ^ 255 :=
  (minted_le sixtyPool fundedWorld stopThenDust).trans_lt (by decide)

theorem feeGrowth_inside_stopThenDust :
    sub256 (((runFrom fundedWorld stopThenDust).1.storage.view sixtyPool).inside
          wideKey.lower wideKey.upper .token0)
        ((loadPosition (runFrom fundedWorld stopThenDust).1.storage sixtyPool
          wideKey).feeGrowthInsideLast .token0) =
      growthSince sixtyPool wideKey .token0 (runFrom fundedWorld stopThenDust).2 % 2 ^ 256 :=
  (feeGrowth_inside fundedWorld_genesis stopThenDust sixtyPool minted_stopThenDust wideKey
    .token0).1 (by decide +kernel)

/-! ## Credited against charged -/

/-- A step hands out no more growth than its fee covers at the liquidity it used. -/
theorem Stepped.growth_le {p : SwapParams} {s : SwapState} {step : SwapStepResult}
    {growth : ℕ} (h : Stepped p s step growth) (hfee : 0 ≤ step.feeAmount) :
    (growth : ℤ) * s.liquidity ≤ 2 ^ 128 * step.feeAmount := by
  have hgrown := h.grown
  unfold stepGrowth at hgrown
  by_cases hpos : 0 < s.liquidity ∧ 0 < step.feeAmount
  · rw [if_pos hpos] at hgrown
    obtain ⟨-, rfl, -⟩ := mulDiv_eq_some hgrown
    have hmul := Nat.div_mul_le_self (step.feeAmount.toNat * q128) s.liquidity
    have hcast : (step.feeAmount.toNat : ℤ) = step.feeAmount := Int.toNat_of_nonneg hfee
    have hmul' : ((step.feeAmount.toNat * q128 / s.liquidity * s.liquidity : ℕ) : ℤ) ≤
        (step.feeAmount.toNat * q128 : ℕ) := by exact_mod_cast hmul
    rw [Nat.cast_mul, Nat.cast_mul, hcast] at hmul'
    calc _ ≤ step.feeAmount * (q128 : ℤ) := hmul'
      _ = 2 ^ 128 * step.feeAmount := by rw [mul_comm]; rfl
  · rw [if_neg hpos] at hgrown
    obtain rfl := Option.some.inj hgrown
    simpa using hfee

/-- One step grows the ranges around it, and these hold the active weight. -/
theorem sum_growthIn_single (weight : PositionKey → ℤ) (i : Token) (r : StepRecord) :
    ∑ k : PositionKey, weight k * (growthIn k.lower k.upper i [r] : ℕ) =
      if r.token = i then r.growth * activeAt PositionKey.lower PositionKey.upper weight r.tick
      else 0 := by
  have hterm : ∀ k : PositionKey, weight k * (growthIn k.lower k.upper i [r] : ℕ) =
      if r.token = i then
        r.growth * (if k.lower ≤ r.tick ∧ r.tick < k.upper then weight k else 0)
      else 0 := by
    intro k
    by_cases hi : r.token = i
    · by_cases hin : k.lower ≤ r.tick ∧ r.tick < k.upper
      · simp [growthIn, hi, hin, mul_comm]
      · simp [growthIn, hi, hin]
    · simp [growthIn, hi]
  rw [Finset.sum_congr rfl fun k _ => hterm k]
  by_cases hi : r.token = i
  · simp only [if_pos hi]
    rw [activeAt, Finset.mul_sum]
  · simp only [if_neg hi, Finset.sum_const_zero]

/-- The growth a step hands to the positions is covered by its fee. -/
theorem Stepped.shares {p : SwapParams} {s : SwapState} {step : SwapStepResult} {growth : ℕ}
    (h : Stepped p s step growth) (hmoved : Moved p s step)
    (hbook : Bookkeeping p.pk (s.pool p.pk)) (i : Token) :
    ∑ k : PositionKey, (s.pool p.pk).weight k *
        (growthIn k.lower k.upper i [stepRecord p s step growth] : ℕ) ≤
      2 ^ 128 * if p.tokenIn = i then step.feeAmount else 0 := by
  rw [sum_growthIn_single]
  have hactive := hbook.active
  have htoken : (stepRecord p s step growth).token = p.tokenIn := rfl
  rw [htoken]
  by_cases hi : p.tokenIn = i
  · have hle := h.growth_le (Moved.fee_nonneg hmoved)
    have hliq : activeAt PositionKey.lower PositionKey.upper (s.pool p.pk).weight
        (stepRecord p s step growth).tick = s.liquidity := hactive.symm
    rw [if_pos hi, if_pos hi, hliq]
    exact hle
  · rw [if_neg hi, if_neg hi, mul_zero]

theorem swapStep_shares {p : SwapParams} {s s' : SwapState} (hs : Swapping p s)
    (hbook : Bookkeeping p.pk (s.pool p.pk)) (hstep : swapStep p s = .ok s') (i : Token) :
    ∃ r, s'.steps = s.steps ++ [r] ∧
      ∑ k : PositionKey, (s.pool p.pk).weight k * (growthIn k.lower k.upper i [r] : ℕ) ≤
        2 ^ 128 * feesOf i [r] := by
  obtain ⟨step, growth, hstepped, hmoved, -, -, hsettled⟩ :=
    swapStep_spec hs.priced hs.withinLimit hstep
  refine ⟨_, hsettled.steps, ?_⟩
  have hfees : feesOf i [stepRecord p s step growth] =
      if p.tokenIn = i then step.feeAmount else 0 := by
    simp [feesOf, stepRecord]
  rw [hfees]
  exact hstepped.shares hmoved hbook i

/-- The growth a swap hands to the positions is covered by its fees. -/
theorem swapLoop_shares {p : SwapParams} {db : Storage} {amountSpecified : ℤ}
    {fuel fuel' : ℕ} {s : SwapState} (hbook : Bookkeeping p.pk (db.view p.pk))
    (hbound : totalWeight (db.view p.pk).weight < 2 ^ 255)
    (hs : Swapping p (swapInit db p.pk amountSpecified))
    (hloop : swapLoop p fuel (swapInit db p.pk amountSpecified) = .ok (s, fuel')) (i : Token) :
    ∑ k : PositionKey, (db.view p.pk).weight k * (growthIn k.lower k.upper i s.steps : ℕ) ≤
      2 ^ 128 * feesOf i s.steps := by
  have hkeep : ∀ s s', Swapping p s →
      (Bookkeeping p.pk (s.pool p.pk) ∧ (s.pool p.pk).position = (db.view p.pk).position ∧
        ∑ k : PositionKey, (db.view p.pk).weight k *
          (growthIn k.lower k.upper i s.steps : ℕ) ≤ 2 ^ 128 * feesOf i s.steps) →
      swapStep p s = .ok s' →
      Bookkeeping p.pk (s'.pool p.pk) ∧ (s'.pool p.pk).position = (db.view p.pk).position ∧
        ∑ k : PositionKey, (db.view p.pk).weight k *
          (growthIn k.lower k.upper i s'.steps : ℕ) ≤ 2 ^ 128 * feesOf i s'.steps := by
    rintro s s' hs ⟨hb, hpos, hle⟩ hstep
    have hweight : (s.pool p.pk).weight = (db.view p.pk).weight := Pool.weight_congr hpos
    obtain ⟨r, hsteps, hshare⟩ := swapStep_shares hs hb hstep i
    have hsmall : totalWeight (s.pool p.pk).weight < 2 ^ 255 := hweight.symm ▸ hbound
    have hb' : Bookkeeping p.pk (s'.pool p.pk) := hb.swapStep hs hsmall hstep
    have hpos' : (s'.pool p.pk).position = (db.view p.pk).position :=
      (swapStep_frame hstep).2.1.trans hpos
    refine ⟨hb', hpos', ?_⟩
    rw [hweight] at hshare
    calc ∑ k : PositionKey, (db.view p.pk).weight k *
          (growthIn k.lower k.upper i s'.steps : ℕ)
        = ∑ k : PositionKey, (db.view p.pk).weight k *
            (growthIn k.lower k.upper i s.steps : ℕ) +
          ∑ k : PositionKey, (db.view p.pk).weight k * (growthIn k.lower k.upper i [r] : ℕ) := by
          rw [hsteps, ← Finset.sum_add_distrib]
          apply Finset.sum_congr rfl
          intro k _
          rw [growthIn_append, Nat.cast_add, mul_add]
      _ ≤ 2 ^ 128 * feesOf i s.steps + 2 ^ 128 * feesOf i [r] := add_le_add hle hshare
      _ = 2 ^ 128 * feesOf i s'.steps := by rw [hsteps, feesOf_append, mul_add]
  refine (swapLoop_invariant hkeep fuel hs ⟨hbook, rfl, ?_⟩ hloop).2.2.2
  simp [swapInit, feesOf]

/-- The shares of the growth no touch has credited yet. -/
noncomputable def pending (pk : PoolKey) (i : Token) (P : Pool) (trace : List Outcome) : ℤ :=
  ∑ k : PositionKey, P.weight k * (growthSince pk k i trace : ℕ)

section Pending

variable {pk : PoolKey} {i : Token} {P P' : Pool} {trace : List Outcome} {out : Outcome}

theorem pending_of_silent (hweight : P'.weight = P.weight) (hsteps : out.stepsIn pk = [])
    (htouches : ∀ k, out.touches pk k = false) :
    pending pk i P' (out :: trace) = pending pk i P trace := by
  unfold pending
  apply Finset.sum_congr rfl
  intro k _
  rw [hweight, growthSince_of_not_touch (htouches k), hsteps, growthIn_nil, zero_add]

/-- A touch takes the pending share of its position. -/
theorem pending_of_touch {key : PositionKey}
    (hweight : ∀ k, k ≠ key → P'.weight k = P.weight k) (hsteps : out.stepsIn pk = [])
    (htouches : ∀ k, out.touches pk k = decide (key = k)) :
    pending pk i P' (out :: trace) + P.weight key * (growthSince pk key i trace : ℕ) =
      pending pk i P trace := by
  have hkey : P'.weight key * ((growthSince pk key i (out :: trace) : ℕ) : ℤ) = 0 := by
    rw [growthSince_of_touch (by simp [htouches]), Nat.cast_zero, mul_zero]
  have hsum := sum_add_of_eq_off
    (f := fun k => P.weight k * (growthSince pk k i trace : ℕ))
    (g := fun k => P'.weight k * (growthSince pk k i (out :: trace) : ℕ)) key (by
      intro k hk
      have hno : out.touches pk k = false := by simp [htouches, Ne.symm hk]
      simp only [hweight k hk, growthSince_of_not_touch hno, hsteps, growthIn_nil, zero_add])
  simp only [hkey, add_zero] at hsum
  exact hsum

/-- A touch takes at least the fees it credits from the pending shares. -/
theorem Modify.pending_le {P1 : Pool} {key : PositionKey} {d : ℤ} {fees amounts : Token → ℕ}
    (h : Modify pk.tickSpacing P key d fees amounts P1) (hbook : Bookkeeping pk P)
    (htracked : Tracked pk P trace) (hrange : ValidRange pk key)
    (hweight : P'.weight = addWeight P.weight key d) (hsteps : out.stepsIn pk = [])
    (htouches : ∀ k, out.touches pk k = decide (key = k)) :
    pending pk i P' (out :: trace) + 2 ^ 128 * fees i ≤ pending pk i P trace := by
  have htake : pending pk i P' (out :: trace) +
      P.weight key * (growthSince pk key i trace : ℕ) = pending pk i P trace :=
    pending_of_touch (fun k hk => by rw [hweight, addWeight, Function.update_of_ne hk])
      hsteps htouches
  have hfees := h.fees_le hbook htracked hrange i
  have hshare : (2 ^ 128 * fees i : ℤ) ≤ P.weight key * (growthSince pk key i trace : ℕ) := by
    unfold Pool.weight
    exact_mod_cast hfees
  linarith

/-- A swap adds the growth of its steps to the pending shares. -/
theorem pending_of_swap {db : Storage} {p : SwapParams} {s : SwapState}
    (hpersist : (persistSwap s p.pk).view p.pk = s.pool p.pk)
    (hpos : (s.pool p.pk).position = (db.view p.pk).position)
    (hsteps : out.stepsIn p.pk = s.steps) (htouches : ∀ k, out.touches p.pk k = false) :
    pending p.pk i ((persistSwap s p.pk).view p.pk) (out :: trace) =
      (∑ k : PositionKey, (db.view p.pk).weight k *
        (growthIn k.lower k.upper i s.steps : ℕ)) + pending p.pk i (db.view p.pk) trace := by
  unfold pending
  rw [hpersist, Pool.weight_congr hpos, ← Finset.sum_add_distrib]
  apply Finset.sum_congr rfl
  intro k _
  rw [growthSince_of_not_touch (htouches k), hsteps]
  push_cast
  ring

end Pending

/-- The fees credited and the shares still pending are covered by the fees charged. -/
def Covered (pk : PoolKey) (i : Token) (P : Pool) (trace : List Outcome) : Prop :=
  2 ^ 128 * (credited pk i trace : ℤ) + pending pk i P trace ≤ 2 ^ 128 * charged pk i trace

theorem Covered.step {pk : PoolKey} {i : Token} {P P' : Pool} {trace : List Outcome}
    {out : Outcome} (h : Covered pk i P trace) (htracked : Tracked pk P trace)
    (hsound : Sound pk P trace) (hbound : minted pk (out :: trace) < 2 ^ 255)
    (hstep : PoolStep pk P P' out) : Covered pk i P' (out :: trace) := by
  rw [minted_cons] at hbound
  have htotal := hsound.total_le
  have hsmall : totalWeight P.weight < 2 ^ 255 := by omega
  unfold Covered at h ⊢
  rw [credited_cons, charged_cons]
  cases hstep with
  | idle hevent =>
      obtain ⟨hsteps, htouches, hcredited⟩ := silent_of_ne (i := i) hevent
      rw [pending_of_silent rfl hsteps htouches, hsteps, hcredited]
      simpa [feesOf] using h
  | @init _ price tick _ _ _ hevent _ hfees =>
      have hsteps : out.stepsIn pk = [] := by simp [Outcome.stepsIn, Outcome.swapIn, hevent]
      have hcredited : out.creditedIn pk i = 0 := by
        simp [Outcome.creditedIn, hevent, Event.pool, hfees]
      have htouches : ∀ k, out.touches pk k = false := by simp [Outcome.touches, hevent]
      have hpending : pending pk i { P with sqrtPrice := price, tick := tick } (out :: trace) =
          pending pk i P trace := pending_of_silent rfl hsteps htouches
      rw [hpending, hsteps, hcredited]
      simpa [feesOf] using h
  | @mint _ _ key amount amounts _ hrange _ _ hmodify hevent _ =>
      have hminted : out.minted pk = amount := by simp [Outcome.minted, hevent]
      obtain ⟨-, hweight⟩ := hsound.book.modify hrange hmodify.liquidity_nonneg
        (by omega) out.feesCredited
      rw [← hmodify.result] at hweight
      have hsteps : out.stepsIn pk = [] := by simp [Outcome.stepsIn, Outcome.swapIn, hevent]
      have hpending := hmodify.pending_le (i := i) hsound.book htracked hrange hweight hsteps
        (fun k => by simp [Outcome.touches, hevent])
      have hcredited : out.creditedIn pk i = out.feesCredited i := by
        simp [Outcome.creditedIn, hevent, Event.pool]
      rw [hsteps, hcredited]
      simp only [feesOf, List.map_nil, List.sum_nil, zero_add]
      push_cast
      linarith
  | @burn _ P1 key amount amounts _ hrange _ _ hmodify hevent _ =>
      obtain ⟨hbook1, hweight⟩ := hsound.book.modify hrange hmodify.liquidity_nonneg
        (by omega) out.feesCredited
      rw [← hmodify.result] at hbook1 hweight
      have hsmall1 : totalWeight P1.weight < 2 ^ 255 := by
        rw [hweight, totalWeight_addWeight]
        omega
      have hcredit : (P1.credit key amounts).weight = P1.weight :=
        (hbook1.setOwed hsmall1 key _).2
      have hsteps : out.stepsIn pk = [] := by simp [Outcome.stepsIn, Outcome.swapIn, hevent]
      have hpending := hmodify.pending_le (i := i) hsound.book htracked hrange
        (hcredit.trans hweight) hsteps (fun k => by simp [Outcome.touches, hevent])
      have hcredited : out.creditedIn pk i = out.feesCredited i := by
        simp [Outcome.creditedIn, hevent, Event.pool]
      rw [hsteps, hcredited]
      simp only [feesOf, List.map_nil, List.sum_nil, zero_add]
      push_cast
      linarith
  | @collect _ key amounts _ hevent _ hfees =>
      have hcollect : (P.collect key amounts).weight = P.weight :=
        (hsound.book.setOwed hsmall key _).2
      have hsteps : out.stepsIn pk = [] := by simp [Outcome.stepsIn, Outcome.swapIn, hevent]
      have hcredited : out.creditedIn pk i = 0 := by
        simp [Outcome.creditedIn, hevent, Event.pool, hfees]
      rw [pending_of_silent hcollect hsteps fun k => by simp [Outcome.touches, hevent],
        hsteps, hcredited]
      simpa [feesOf] using h
  | @swap _ db p sender amountSpecified fuel fuel' s hpk hview hinit hlimit hloop hevent
      hrecords hfees =>
      subst hpk
      subst hview
      obtain ⟨-, hpos, hpersist⟩ :=
        hsound.book.swapLoop hsmall (hsound.priced hinit) hlimit hloop
      have hsteps : out.stepsIn p.pk = s.steps := by
        simp [Outcome.stepsIn, Outcome.swapIn, hevent, hrecords]
      have hcredited : out.creditedIn p.pk i = 0 := by
        simp [Outcome.creditedIn, hevent, Event.pool, hfees]
      have hshares := swapLoop_shares hsound.book hsmall ⟨hsound.priced hinit, hlimit⟩ hloop i
      have hpending : pending p.pk i ((persistSwap s p.pk).view p.pk) (out :: trace) = _ :=
        pending_of_swap hpersist hpos hsteps fun k => by simp [Outcome.touches, hevent]
      rw [hpending, hsteps, hcredited]
      push_cast
      linarith

/-- Over every run, the fees ever credited to the positions of a pool, and what all
positions together have earned since they were touched, are covered by the fees
the pool's swaps charged. -/
theorem fees_covered {w : World} (hw : Genesis w) (actions : List Action) (pk : PoolKey)
    (hbound : minted pk (runFrom w actions).2 < 2 ^ 255) (i : Token) :
    2 ^ 128 * (credited pk i (runFrom w actions).2 : ℤ) +
        ∑ k, ((loadPosition (runFrom w actions).1.storage pk k).liquidity : ℤ) *
          growthSince pk k i (runFrom w actions).2 ≤
      2 ^ 128 * charged pk i (runFrom w actions).2 := by
  have hrun := sound_invariant pk
    (I := fun P trace => Tracked pk P trace ∧ Covered pk i P trace) ?_ ?_ hw actions hbound
  · exact hrun.2.2
  · refine ⟨fun k hk => absurd rfl hk, ?_⟩
    have hzero : Pool.empty.weight = fun _ => 0 := rfl
    simp [Covered, pending, credited, charged, hzero]
  · rintro P P' out trace hsound hlt ⟨htracked, hcovered⟩ hstep
    exact ⟨htracked.step hsound hlt hstep, hcovered.step htracked hsound hlt hstep⟩

theorem fees_covered_stopThenDust :
    2 ^ 128 * (credited sixtyPool .token0 (runFrom fundedWorld stopThenDust).2 : ℤ) +
        ∑ k, ((loadPosition (runFrom fundedWorld stopThenDust).1.storage sixtyPool
          k).liquidity : ℤ) *
          growthSince sixtyPool k .token0 (runFrom fundedWorld stopThenDust).2 ≤
      2 ^ 128 * charged sixtyPool .token0 (runFrom fundedWorld stopThenDust).2 :=
  fees_covered fundedWorld_genesis stopThenDust sixtyPool minted_stopThenDust .token0

end LuxPrecompile.V3
