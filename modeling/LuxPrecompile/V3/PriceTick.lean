import LuxPrecompile.V3.PoolRun

/-!
# Price and tick

A pool keeps its price together with a tick.  The tick is the price's own tick,
except after a downward swap that stopped exactly on a tick it was heading for:
there the pool stands on the far side of that tick.  The exception survives
swaps too small to move the price, so it is stated for the last swap that
changed the price or the tick.
-/

namespace LuxPrecompile.V3

open Dex Evm Support

/-! ## The history of the price -/

/-- The price and the tick an outcome reports for a pool. -/
def Outcome.recorded (pk : PoolKey) (out : Outcome) : Option (ℕ × ℤ) :=
  match out.event with
  | some (.init pool tick price) => if pool = pk then some (price, tick) else none
  | some (.swap pool _ _ price _ tick) => if pool = pk then some (price, tick) else none
  | _ => none

/-- The price and the tick last reported for a pool. -/
def recordedPrice (pk : PoolKey) (trace : List Outcome) : Option (ℕ × ℤ) :=
  trace.findSome? (Outcome.recorded pk)

/-- The last call that changed what is reported for a pool. -/
def lastMove (pk : PoolKey) : List Outcome → Option Outcome
  | [] => none
  | out :: older =>
      if out.recorded pk = none ∨ out.recorded pk = recordedPrice pk older then
        lastMove pk older
      else some out

/-- A swap that moved down and stopped exactly on a tick: an initialised one, or
the boundary of a bitmap word. -/
structure StoppedDown (pk : PoolKey) (tick : ℤ) (out : Outcome) : Prop where
  swapped : ∃ sender amounts price liquidity,
    out.event = some (.swap pk sender amounts price liquidity tick)
  down : ∀ r ∈ out.steps, r.token = .token0
  on_tick : ∃ r ∈ out.steps, r.tickNext = tick + 1 ∧
    (r.initialized = true ∨ 256 * pk.tickSpacing ∣ tick + 1)

/-- The price and the tick of a pool agree, and so does the trace. -/
structure Consistent (pk : PoolKey) (P : Pool) (trace : List Outcome) : Prop where
  priced : Priced P.sqrtPrice P.tick
  recorded : recordedPrice pk trace = some (P.sqrtPrice, P.tick)
  stopped : P.sqrtPrice = sqrtRatio (P.tick + 1) →
    ∃ out, lastMove pk trace = some out ∧ StoppedDown pk P.tick out

/-- A call that reports no price keeps the agreement. -/
theorem Consistent.of_silent {pk : PoolKey} {P P' : Pool} {trace : List Outcome}
    {out : Outcome} (h : Consistent pk P trace) (hsilent : out.recorded pk = none)
    (hprice : P'.sqrtPrice = P.sqrtPrice) (htick : P'.tick = P.tick) :
    Consistent pk P' (out :: trace) := by
  refine ⟨?_, ?_, ?_⟩
  · rw [hprice, htick]
    exact h.priced
  · rw [hprice, htick, ← h.recorded]
    simp [recordedPrice, hsilent]
  · rw [hprice, htick]
    intro heq
    obtain ⟨last, hlast, hstopped⟩ := h.stopped heq
    exact ⟨last, by simp [lastMove, hsilent, hlast], hstopped⟩

/-! ## A swap -/

/-- What the loop of a swap keeps, relative to the price and the tick it started
at: an ambiguous price is the one it started with, or one it stopped on. -/
structure Stopping (p : SwapParams) (price : ℕ) (tick : ℤ) (s : SwapState) : Prop where
  token : ∀ r ∈ s.steps, r.token = p.tokenIn
  descending : p.zeroForOne = true → s.tick ≤ tick
  stopped : s.sqrtPrice = sqrtRatio (s.tick + 1) →
    (s.sqrtPrice = price ∧ s.tick = tick) ∨
    (p.zeroForOne = true ∧ s.tick < tick ∧ ∃ r ∈ s.steps, r.tickNext = s.tick + 1 ∧
      (r.initialized = true ∨ 256 * p.pk.tickSpacing ∣ s.tick + 1))

theorem Stopping.step {p : SwapParams} {price : ℕ} {tick : ℤ} {s s' : SwapState}
    (hs : Swapping p s) (h : Stopping p price tick s) (hstep : swapStep p s = .ok s') :
    Stopping p price tick s' := by
  have htoken : ∀ r ∈ s'.steps, r.token = p.tokenIn := by
    obtain ⟨step, growth, -, -, hsteps, -⟩ := swapStep_feeGrowth hstep
    rw [hsteps]
    intro r hr
    rcases List.mem_append.mp hr with hold | hnew
    · exact h.token r hold
    · rw [List.mem_singleton.mp hnew]
      rfl
  obtain ⟨step, growth, hstepped, hcases⟩ := swapStep_cases hstep
  have hmoved := moved_of_stepped hs.priced hs.withinLimit hstepped
  rcases hcases with ⟨hreach, hok⟩ | ⟨hne, hchanged, t, htick, rfl⟩ | ⟨hne, hsame, rfl⟩
  · obtain ⟨n, hn⟩ := reached_of_stepped hs.priced hs.withinLimit hstepped hmoved hreach
    obtain ⟨hp, ht, hrecords, -⟩ := reachTick_price hok
    rw [hn.tick_eq] at ht
    have hpassed := hn.passed
    have hband := hstepped.band
    rw [hn.tick_eq] at hband
    cases hdir : p.zeroForOne with
    | true =>
        simp only [tickAfterCross, hdir, if_true] at ht hpassed
        have hlt : s'.tick < s.tick := by
          unfold Between at hpassed
          omega
        have hdesc := h.descending hdir
        refine ⟨htoken, fun _ => by omega, fun _ => Or.inr ⟨hdir, by omega, ?_⟩⟩
        have hlast : stepRecord p s step growth ∈ s'.steps := by
          rw [hrecords]
          simp [advance]
        have hnext : n * p.pk.tickSpacing = s'.tick + 1 := by omega
        refine ⟨_, hlast, ?_, ?_⟩
        · rw [← hnext, ← hn.tick_eq]
          rfl
        · cases hbit : (nextTick p s).2 with
          | true => exact Or.inl hbit
          | false =>
              refine Or.inr ?_
              rw [← hnext]
              exact Int.mul_dvd_mul_right _ (hn.edge hdir hbit)
    | false =>
        simp only [tickAfterCross, hdir, Bool.false_eq_true, if_false] at ht
        have hpriced := hn.priced
        simp only [tickAfterCross, hdir, Bool.false_eq_true, if_false] at hpriced
        refine ⟨htoken, fun hd => absurd (hdir ▸ hd) (by decide), fun heq => ?_⟩
        have hlt : sqrtRatio (n * p.pk.tickSpacing) <
            sqrtRatio (n * p.pk.tickSpacing + 1) := by
          rw [sqrtRatio_lt_iff hband hpriced.tickSucc_le]
          omega
        have hprice' : s'.sqrtPrice = sqrtRatio (n * p.pk.tickSpacing) := by
          rw [hp, ← hn.tick_eq]
          exact hreach
        rw [hprice', ht] at heq
        omega
  · obtain ⟨hmin, hmax⟩ := hmoved.usable hs.priced hs.withinLimit
    obtain ⟨hpriced, hstrict⟩ := getTick_priced hmin hmax htick
    obtain ⟨hdown, -⟩ :=
      quiet_of_stepped hs.priced hstepped hmoved hne hchanged hpriced hstrict
    refine ⟨htoken, fun hdir => (hdown hdir).trans (h.descending hdir), fun heq => ?_⟩
    have heq' : step.sqrtRatioNextX96 = sqrtRatio (t + 1) := heq
    omega
  · refine ⟨htoken, h.descending, fun heq => ?_⟩
    have heq' : step.sqrtRatioNextX96 = sqrtRatio (s.tick + 1) := heq
    rcases h.stopped (hsame ▸ heq') with ⟨hp, ht⟩ | ⟨hdir, hlt, r, hr, hrest⟩
    · exact Or.inl ⟨hsame.trans hp, ht⟩
    · exact Or.inr ⟨hdir, hlt, r, List.mem_append_left _ hr, hrest⟩

/-- The fee counters of a swap stay in range, so persisting keeps the price. -/
theorem persistSwap_priced {p : SwapParams} {db : Storage} {amountSpecified : ℤ}
    {fuel fuel' : ℕ} {s : SwapState} (hprice : Priced (db.view p.pk).sqrtPrice
      (db.view p.pk).tick) (hlimit : WithinLimit p (db.view p.pk).sqrtPrice)
    (hloop : swapLoop p fuel (swapInit db p.pk amountSpecified) = .ok (s, fuel')) :
    Priced s.sqrtPrice s.tick ∧
    (persistSwap s p.pk).view p.pk =
      { s.pool p.pk with liquidity := wordToUint (uintWord s.liquidity) } := by
  have hkeep : ∀ s s', Swapping p s → (∀ i, s.feeGrowth i < 2 ^ 256) →
      swapStep p s = .ok s' → ∀ i, s'.feeGrowth i < 2 ^ 256 := by
    intro s s' _ hg hstep
    obtain ⟨step, growth, -, hfg, -⟩ := swapStep_feeGrowth hstep
    rw [hfg]
    exact accrueGrowth_lt hg
  obtain ⟨hs, hgrowth⟩ := swapLoop_invariant hkeep fuel ⟨hprice, hlimit⟩
    (fun i => view_feeGrowth_lt db p.pk i) hloop
  exact ⟨hs.priced, persistSwap_view hs.priced hgrowth⟩

theorem Consistent.swap {p : SwapParams} {db : Storage} {trace : List Outcome}
    {out : Outcome} {sender : Address} {amountSpecified : ℤ} {fuel fuel' : ℕ}
    {s : SwapState} (h : Consistent p.pk (db.view p.pk) trace)
    (hlimit : WithinLimit p (db.view p.pk).sqrtPrice)
    (hloop : swapLoop p fuel (swapInit db p.pk amountSpecified) = .ok (s, fuel'))
    (hevent : out.event = some (.swap p.pk sender
      (swapAmounts p.zeroForOne s.totalIn s.totalOut) s.sqrtPrice s.liquidity s.tick))
    (hsteps : out.steps = s.steps) :
    Consistent p.pk ((persistSwap s p.pk).view p.pk) (out :: trace) := by
  obtain ⟨hpriced, hview⟩ := persistSwap_priced h.priced hlimit hloop
  have hstart : Stopping p (db.view p.pk).sqrtPrice (db.view p.pk).tick
      (swapInit db p.pk amountSpecified) :=
    ⟨fun _ hr => absurd hr List.not_mem_nil, fun _ => le_rfl, fun _ => Or.inl ⟨rfl, rfl⟩⟩
  obtain ⟨-, hstopping⟩ := swapLoop_invariant
    (fun s s' hs hP hok => Stopping.step hs hP hok) fuel ⟨h.priced, hlimit⟩ hstart hloop
  have hrecorded : out.recorded p.pk = some (s.sqrtPrice, s.tick) := by
    simp [Outcome.recorded, hevent]
  rw [hview]
  refine ⟨hpriced, by simp [recordedPrice, hrecorded, SwapState.pool], fun heq => ?_⟩
  rcases hstopping.stopped heq with ⟨hp, ht⟩ | ⟨hdir, hlt, htick⟩
  · have hsame : out.recorded p.pk = recordedPrice p.pk trace := by
      rw [hrecorded, h.recorded, hp, ht]
    have heq' : (db.view p.pk).sqrtPrice = sqrtRatio ((db.view p.pk).tick + 1) := by
      rw [← hp, ← ht]
      exact heq
    obtain ⟨last, hlast, hstopped⟩ := h.stopped heq'
    refine ⟨last, by simp only [lastMove, hsame, or_true, if_true, hlast], ?_⟩
    simp only [SwapState.pool, ht]
    exact hstopped
  · refine ⟨out, ?_, ⟨⟨_, _, _, _, hevent⟩, ?_, ?_⟩⟩
    · have hne : ¬(out.recorded p.pk = none ∨ out.recorded p.pk = recordedPrice p.pk trace) := by
        rw [hrecorded, h.recorded]
        simp only [reduceCtorEq, Option.some.injEq, Prod.mk.injEq, false_or, not_and]
        intro _
        omega
      simp only [lastMove, if_neg hne]
    · rw [hsteps]
      intro r hr
      rw [hstopping.token r hr, SwapParams.tokenIn, hdir, if_pos rfl]
    · rw [hsteps]
      exact htick

/-! ## Every run -/

/-- One call keeps the agreement, whatever state it starts from. -/
theorem Consistent.step {pk : PoolKey} {P P' : Pool} {trace : List Outcome} {out : Outcome}
    (h : Consistent pk P trace) (hstep : PoolStep pk P P' out) :
    Consistent pk P' (out :: trace) := by
  cases hstep with
  | idle hevent =>
      refine h.of_silent ?_ rfl rfl
      unfold Outcome.recorded
      split
      · rename_i pool tick price heq
        exact if_neg (hevent _ heq)
      · rename_i pool sender amounts price liquidity tick heq
        exact if_neg (hevent _ heq)
      · rfl
  | init hnew _ _ _ _ _ =>
      have := h.priced.min_le
      rw [hnew] at this
      exact absurd this (by decide)
  | mint _ _ _ _ hmodify hevent _ =>
      refine h.of_silent (by simp [Outcome.recorded, hevent]) ?_ ?_ <;>
        rw [hmodify.result] <;> rfl
  | burn _ _ _ _ hmodify hevent _ =>
      refine h.of_silent (by simp [Outcome.recorded, hevent]) ?_ ?_ <;>
        rw [hmodify.result] <;> rfl
  | collect _ hevent _ _ =>
      exact h.of_silent (by simp [Outcome.recorded, hevent]) rfl rfl
  | swap hpk hview _ hlimit hloop hevent hsteps _ =>
      subst hpk
      subst hview
      exact h.swap hlimit hloop hevent hsteps

/-- Every initialised pool of every reachable state is consistent. -/
theorem reachable_consistent {w : World} (hw : Genesis w) (actions : List Action)
    (pk : PoolKey)
    (hinit : isInitialized (runFrom w actions).1.storage pk = true) :
    Consistent pk ((runFrom w actions).1.storage.view pk) (runFrom w actions).2 := by
  refine pool_invariant pk (I := fun P trace => P.sqrtPrice ≠ 0 → Consistent pk P trace)
    ?_ ?_ hw actions (isInitialized_iff.mp hinit)
  · intro h
    exact absurd rfl h
  · intro P P' out trace hP hstep hne
    by_cases hold : P.sqrtPrice = 0
    · cases hstep with
      | idle _ => exact absurd hold hne
      | init hnew hpriced hstrict hevent _ _ =>
          refine ⟨hpriced, by simp [recordedPrice, Outcome.recorded, hevent], fun heq => ?_⟩
          exact absurd heq hstrict.ne
      | mint hold' _ _ _ _ _ _ => exact absurd hold hold'
      | burn hold' _ _ _ _ _ _ => exact absurd hold hold'
      | collect _ _ _ _ => exact absurd hold hne
      | swap _ _ hold' _ _ _ _ _ => exact absurd hold hold'
    · exact (hP hold).step hstep

/-- The price of every initialised pool is usable and lies between its tick's
ratio and the next one's.  It equals the next one's only when the last call that
changed the pool's price or tick was a swap that moved down and stopped exactly
on that tick, an initialised or a word-boundary one.  Any call that starts from
such a state ends in such a state. -/
theorem priceTick_consistent (pk : PoolKey) :
    (∀ (w : World) (actions : List Action), Genesis w →
      isInitialized (runFrom w actions).1.storage pk = true →
      ∃ lo hi, minSqrtRatio ≤ loadSqrtPrice (runFrom w actions).1.storage pk ∧
        loadSqrtPrice (runFrom w actions).1.storage pk < maxSqrtRatio ∧
        getSqrtRatioAtTick (loadPoolTick (runFrom w actions).1.storage pk) = some lo ∧
        getSqrtRatioAtTick (loadPoolTick (runFrom w actions).1.storage pk + 1) = some hi ∧
        lo ≤ loadSqrtPrice (runFrom w actions).1.storage pk ∧
        loadSqrtPrice (runFrom w actions).1.storage pk ≤ hi ∧
        (loadSqrtPrice (runFrom w actions).1.storage pk = hi →
          ∃ out, lastMove pk (runFrom w actions).2 = some out ∧
            StoppedDown pk (loadPoolTick (runFrom w actions).1.storage pk) out)) ∧
    (∀ (w w' : World) (trace : List Outcome) (c : Call) (out : Outcome),
      Consistent pk (w.storage.view pk) trace → call w c = some (w', out) →
      Consistent pk (w'.storage.view pk) (out :: trace)) := by
  constructor
  · intro w actions hw hinit
    have h := reachable_consistent hw actions pk hinit
    refine ⟨_, _, h.priced.min_le, h.priced.lt_max,
      getSqrtRatioAtTick_eq h.priced.minTick_le h.priced.lt_maxTick.le,
      getSqrtRatioAtTick_eq h.priced.tickSucc_le.1 h.priced.tickSucc_le.2,
      h.priced.tick_le, h.priced.le_next, h.stopped⟩
  · intro w w' trace c out h hcall
    exact h.step (call_poolStep hcall pk)

/-! ## The last swap need not be the one that moved the price -/

/-- The last swap of a pool. -/
def lastSwap (pk : PoolKey) (trace : List Outcome) : Option Outcome :=
  trace.find? fun out =>
    match out.event with
    | some (.swap pool _ _ _ _ _) => decide (pool = pk)
    | _ => false

/-- A pool of the tokens 1 and 2. -/
def sixtyPool : PoolKey := ⟨1, 2, 3000, 60, by decide, by decide, by decide, by decide⟩

/-- The words that name the pool in calldata. -/
def sixtyPoolWords : List Word := [1, 2, 3000, 60]

/-- A swap down to the word boundary at tick zero, then an upward swap of one
unit, which is all fee and moves nothing. -/
def stopThenDust : List Action :=
  [plainCall 7 selInitialize (sixtyPoolWords ++ [2 ^ 96 + 2 ^ 86]),
    plainCall 7 selMint (sixtyPoolWords ++ [intWord (-600), intWord 600, 1000000]),
    plainCall 7 selSwap (sixtyPoolWords ++ [1, intWord (-1000000), 2 ^ 96]),
    plainCall 7 selSwap (sixtyPoolWords ++ [0, intWord (-1), 2 ^ 97])]

/-- The state that run ends in is consistent: the dust swap left the price where
the swap before it had stopped. -/
theorem priceTick_consistent_stopThenDust :
    ∃ out, lastMove sixtyPool (runFrom fundedWorld stopThenDust).2 = some out ∧
      StoppedDown sixtyPool
        (loadPoolTick (runFrom fundedWorld stopThenDust).1.storage sixtyPool) out := by
  obtain ⟨lo, hi, -, -, -, hhi, -, -, hstopped⟩ := (priceTick_consistent sixtyPool).1
    fundedWorld stopThenDust fundedWorld_genesis (by decide +kernel)
  have heq : getSqrtRatioAtTick
      (loadPoolTick (runFrom fundedWorld stopThenDust).1.storage sixtyPool + 1) =
      some (loadSqrtPrice (runFrom fundedWorld stopThenDust).1.storage sixtyPool) := by
    decide +kernel
  rw [heq, Option.some.injEq] at hhi
  exact hstopped hhi

/-- The right end can be reached although the last swap moved up. -/
theorem lastSwap_moved_up :
    ¬∀ (w : World) (actions : List Action) (pk : PoolKey), Genesis w →
      isInitialized (runFrom w actions).1.storage pk = true →
      getSqrtRatioAtTick (loadPoolTick (runFrom w actions).1.storage pk + 1) =
        some (loadSqrtPrice (runFrom w actions).1.storage pk) →
      ∃ out, lastSwap pk (runFrom w actions).2 = some out ∧
        StoppedDown pk (loadPoolTick (runFrom w actions).1.storage pk) out := by
  intro h
  obtain ⟨out, hlast, hstopped⟩ := h fundedWorld stopThenDust sixtyPool fundedWorld_genesis
    (by decide +kernel) (by decide +kernel)
  have hup : ((lastSwap sixtyPool (runFrom fundedWorld stopThenDust).2).map
      fun out => out.steps.any fun r => decide (r.token = .token1)) = some true := by
    decide +kernel
  rw [hlast, Option.map_some, Option.some.injEq, List.any_eq_true] at hup
  obtain ⟨r, hr, htoken⟩ := hup
  rw [hstopped.down r hr] at htoken
  exact absurd htoken (by decide)

end LuxPrecompile.V3
