import LuxPrecompile.Support.Faults
import LuxPrecompile.V3.Bookkeeping
import LuxPrecompile.V3.PriceTick

/-!
# Liquidity never underflows

The three places that subtract liquidity check the result, and none of the checks can
fail: a burn is of no more than the position has, the pool's active liquidity contains
every active position, and what a crossed tick takes away is what the positions that
end there hold.
-/

namespace LuxPrecompile.V3

open Dex Evm Support

/-! ## Steps that never subtract liquidity -/

section Plain

variable {w : World} {host : Host}

theorem chargeGas_avoids (gas cost : ℕ) :
    Avoids .liquidityUnderflow (chargeGas Error.outOfGas gas cost) :=
  avoids_ite (fun _ => avoids_error (by decide)) fun _ => avoids_ok _

theorem checkLength_avoids (data : List UInt8) (n : ℕ) :
    Avoids .liquidityUnderflow (checkLength Error.badArgs data n) :=
  avoids_ite (fun _ => avoids_error (by simp)) fun _ => avoids_ok _

theorem parsePoolKey_avoids (data : List UInt8) :
    Avoids .liquidityUnderflow (parsePoolKey data) := by
  refine avoids_ite (fun _ => avoids_error (by simp)) fun _ => ?_
  unfold makePoolKey
  split_ifs
  · exact avoids_ok _
  · exact avoids_error (by decide)
  · exact avoids_error (by decide)
  · exact avoids_error (by decide)

theorem parseTick_avoids (word : Word) : Avoids .liquidityUnderflow (parseTick word) := by
  unfold parseTick
  split_ifs
  · exact avoids_ok _
  · exact avoids_error (by decide)

theorem parseRange_avoids (caller : Address) (data : List UInt8) :
    Avoids .liquidityUnderflow (parseRange caller data) :=
  avoids_bind (parsePoolKey_avoids _) fun _ _ =>
    avoids_bind (parseTick_avoids _) fun _ _ =>
      avoids_bind (parseTick_avoids _) fun _ _ => avoids_ok _

theorem validateTickRange_avoids (lower upper spacing : ℤ) :
    Avoids .liquidityUnderflow (validateTickRange lower upper spacing) :=
  avoids_ite (fun _ => avoids_error (by decide)) fun _ =>
    avoids_ite (fun _ => avoids_error (by decide)) fun _ =>
      avoids_ite (fun _ => avoids_error (by decide)) fun _ => avoids_ok _

theorem orPanic_avoids {α : Type} (x : Option α) : Avoids .liquidityUnderflow (orPanic x) := by
  cases x with
  | none => exact avoids_error (by decide)
  | some a => exact avoids_ok a

theorem pullExact_avoids (asset sender : Address) (amount : ℕ) :
    Avoids .liquidityUnderflow (pullExact host w asset sender amount) := by
  unfold pullExact
  cases transferToken host w asset sender v3Addr amount with
  | none => exact avoids_error (by decide)
  | some w' =>
      exact avoids_ite (fun _ => avoids_error (by decide)) fun _ => avoids_ok _

theorem pullAsset_avoids (asset sender : Address) (amount : ℕ) :
    Avoids .liquidityUnderflow (pullAsset host w asset sender amount) := by
  refine avoids_ite (fun _ => avoids_ok _) fun _ => avoids_ite (fun _ => ?_) fun _ =>
    avoids_ite (fun _ => ?_) fun _ => avoids_error (by decide)
  · exact avoids_bind (avoids_ite (fun _ => avoids_error (by decide)) fun _ => avoids_ok _)
      fun _ _ => avoids_ok _
  · exact avoids_bind (pullExact_avoids _ _ _) fun _ _ => avoids_ok _

theorem payAsset_avoids (asset recipient : Address) (amount : ℕ) :
    Avoids .liquidityUnderflow (payAsset host w asset recipient amount) := by
  refine avoids_ite (fun _ => avoids_ok _) fun _ => ?_
  cases subReserve w.storage asset amount with
  | none => exact avoids_error (by decide)
  | some db =>
      refine avoids_ite (fun _ => ?_) fun _ =>
        avoids_ite (fun _ => ?_) fun _ => avoids_error (by decide)
      · exact avoids_ite (fun _ => avoids_error (by decide)) fun _ =>
          avoids_ite (fun _ => avoids_error (by decide)) fun _ => avoids_ok _
      · unfold pushOut
        cases transferToken host { w with storage := db } asset v3Addr recipient amount with
        | none => exact avoids_error (by decide)
        | some w' => exact avoids_ok w'

end Plain

/-! ## Changes of a position -/

/-- Updating ticks and positions leaves the pool's own words alone. -/
theorem updateTicks_pool (db : Storage) (pk : PoolKey) (key : PositionKey)
    (currentTick d : ℤ) (fg : Token → ℕ) :
    (updateTicks db pk key currentTick d fg).1.pool = db.pool ∧
      (updateTicks db pk key currentTick d fg).1.position = db.position := by
  have hflip : ∀ (flipped : Bool) (db : Storage) (t : ℤ),
      (flipIf flipped db pk t).pool = db.pool ∧
        (flipIf flipped db pk t).position = db.position := by
    intro flipped db t
    cases flipped with
    | true => exact ⟨rfl, rfl⟩
    | false => exact ⟨rfl, rfl⟩
  unfold updateTicks
  simp only
  rw [(hflip _ _ _).1, (hflip _ _ _).1, (hflip _ _ _).2, (hflip _ _ _).2]
  exact ⟨rfl, rfl⟩

theorem clearIf_pool (flipped : Bool) (d : ℤ) (db : Storage) (pk : PoolKey) (t : ℤ) :
    (clearIf flipped d db pk t).pool = db.pool := by
  unfold clearIf
  split_ifs
  · rfl
  · rfl

/-- A change of a position that leaves it and the active liquidity enough. -/
theorem modifyLiquidity_avoids {db : Storage} {pk : PoolKey} {key : PositionKey} {d : ℤ}
    (hposition : 0 ≤ ((loadPosition db pk key).liquidity : ℤ) + d)
    (hactive : (key.tickLower : ℤ) ≤ loadPoolTick db pk ∧ loadPoolTick db pk < key.tickUpper →
      0 ≤ (loadLiquidity db pk : ℤ) + d) :
    Avoids .liquidityUnderflow (modifyLiquidity db pk key d) := by
  obtain ⟨hpool, hpos⟩ := updateTicks_pool db pk key (loadPoolTick db pk) d
    (loadFeeGrowthGlobal db pk)
  refine avoids_bind ?_ fun updated hupdated => avoids_bind (orPanic_avoids _) fun _ _ =>
    avoids_bind ?_ fun _ _ => avoids_ok _
  · refine avoids_bind (orPanic_avoids _) fun _ _ => avoids_bind (orPanic_avoids _) fun _ _ =>
      avoids_ite (fun hneg => ?_) fun _ => avoids_ok _
    have hsame : loadPosition (updateTicks db pk key (loadPoolTick db pk) d
        (loadFeeGrowthGlobal db pk)).1 pk key = loadPosition db pk key := by
      unfold loadPosition
      rw [hpos]
    rw [hsame] at hneg
    omega
  · refine avoids_ite (fun hin => ?_) fun _ => avoids_ok _
    refine avoids_ite (fun hneg => ?_) fun _ => avoids_ok _
    have hstored : updated.1.pool = db.pool := by
      obtain ⟨db', fees⟩ := updated
      obtain ⟨-, -, rfl⟩ := updatePosition_ok hupdated
      exact hpool
    have hsame : ∀ db' : Storage, db'.pool = db.pool →
        loadLiquidity db' pk = loadLiquidity db pk := by
      intro db' heq
      unfold loadLiquidity
      rw [heq]
    rw [hsame _ (by rw [clearIf_pool, clearIf_pool, hstored])] at hneg
    have hle := hactive hin
    omega

/-! ## Swaps -/

section Swaps

variable {p : SwapParams} {s s' : SwapState}

/-- Crossing a tick takes away no more than the positions that end there hold. -/
theorem reachTick_avoids (hs : Swapping p s) (hbook : Bookkeeping p.pk (s.pool p.pk))
    {step : SwapStepResult} {growth : ℕ} (hstepped : Stepped p s step growth)
    (hreach : step.sqrtRatioNextX96 = sqrtRatio (nextTick p s).1) :
    Avoids .liquidityUnderflow
      (reachTick p (advance p s step growth) (nextTick p s).1 (nextTick p s).2) := by
  have hmoved := moved_of_stepped hs.priced hs.withinLimit hstepped
  obtain ⟨n, hn⟩ := reached_of_stepped hs.priced hs.withinLimit hstepped hmoved hreach
  refine avoids_ite (fun _ => ?_) fun _ => avoids_ok _
  refine avoids_ite (fun hneg => ?_) fun _ => avoids_ok _
  have hcross := hbook.active_cross rfl hn.passed hn.others
  have hnonneg := activeAt_nonneg PositionKey.lower PositionKey.upper
    (s.pool p.pk).weight_nonneg (tickAfterCross p.zeroForOne (n * p.pk.tickSpacing))
  rw [hcross] at hnonneg
  have hnet : (crossTick (advance p s step growth).storage p.pk (nextTick p s).1
      (advance p s step growth).feeGrowth).2 =
      ((s.pool p.pk).tickInfo (n * p.pk.tickSpacing)).liquidityNet := by
    rw [hn.tick_eq]
    rfl
  rw [hnet] at hneg
  have hliq : ((advance p s step growth).liquidity : ℤ) = (s.pool p.pk).liquidity := rfl
  rw [hliq] at hneg
  exact absurd hnonneg (not_le.mpr hneg)

theorem swapStep_avoids (hs : Swapping p s) (hbook : Bookkeeping p.pk (s.pool p.pk)) :
    Avoids .liquidityUnderflow (swapStep p s) := by
  unfold swapStep
  simp only
  cases hratio : getSqrtRatioAtTick (nextTick p s).1 with
  | none => exact avoids_error (by decide)
  | some ratio =>
      obtain ⟨hband, rfl⟩ : (minTick ≤ (nextTick p s).1 ∧ (nextTick p s).1 ≤ maxTick) ∧
          ratio = sqrtRatio (nextTick p s).1 := by
        unfold getSqrtRatioAtTick at hratio
        split_ifs at hratio with hout
        simp only [Option.some.injEq] at hratio
        exact ⟨by omega, hratio.symm⟩
      simp only
      cases hstep : computeSwapStep s.sqrtPrice (stepTarget p (sqrtRatio (nextTick p s).1))
          s.liquidity s.amountRemaining p.pk.fee with
      | none => exact avoids_error (by decide)
      | some step =>
          simp only
          cases hgrowth : stepGrowth s.liquidity step.feeAmount with
          | none => exact avoids_error (by decide)
          | some growth =>
              refine avoids_ite (fun hreach => ?_) fun _ => avoids_ite (fun _ => ?_) fun _ =>
                avoids_ok _
              · exact reachTick_avoids hs hbook ⟨hband, hstep, hgrowth⟩ hreach
              · cases getTickAtSqrtRatio step.sqrtRatioNextX96 with
                | none => exact avoids_error (by decide)
                | some tick => exact avoids_ok _

theorem swapLoop_avoids (hbound : totalWeight (s.pool p.pk).weight < 2 ^ 255)
    (hs : Swapping p s) (hbook : Bookkeeping p.pk (s.pool p.pk)) (fuel : ℕ) :
    Avoids .liquidityUnderflow (swapLoop p fuel s) := by
  induction fuel generalizing s with
  | zero => exact avoids_ite (fun _ => avoids_error (by decide)) fun _ => avoids_ok _
  | succ fuel ih =>
      refine avoids_ite (fun _ => ?_) fun _ => avoids_ok _
      cases hok : swapStep p s with
      | error e =>
          have havoids := swapStep_avoids hs hbook
          rw [hok] at havoids
          intro h
          exact havoids (congrArg Except.error (Except.error.inj h))
      | ok s1 =>
          have hweight : (s1.pool p.pk).weight = (s.pool p.pk).weight :=
            Pool.weight_congr (swapStep_frame hok).2.1
          exact ih (hweight.symm ▸ hbound) (hs.step hok) (hbook.swapStep hs hbound hok)

end Swaps

/-! ## Every call -/

/-- The pools of a state keep their sums, which fit their words. -/
structure Kept (db : Storage) : Prop where
  book : ∀ pk, Bookkeeping pk (db.view pk)
  small : ∀ pk, totalWeight (db.view pk).weight < 2 ^ 255
  priced : ∀ pk, isInitialized db pk = true → Priced (loadSqrtPrice db pk) (loadPoolTick db pk)

section Calls

variable {w : World} {host : Host} {caller : Address} {data : List UInt8} {gas : ℕ}

theorem Kept.swapLoop_avoids {db : Storage} (h : Kept db) {p : SwapParams}
    (hinit : isInitialized db p.pk = true) (hlimit : WithinLimit p (loadSqrtPrice db p.pk))
    (amountSpecified : ℤ) (fuel : ℕ) :
    Avoids .liquidityUnderflow (swapLoop p fuel (swapInit db p.pk amountSpecified)) := by
  have hpool : (swapInit db p.pk amountSpecified).pool p.pk = db.view p.pk := rfl
  apply V3.swapLoop_avoids
  · rw [hpool]
    exact h.small p.pk
  · exact ⟨h.priced p.pk hinit, hlimit⟩
  · rw [hpool]
    exact h.book p.pk

theorem runInitialize_avoids : Avoids .liquidityUnderflow (runInitialize w data gas) := by
  refine avoids_bind (chargeGas_avoids _ _) fun _ _ => avoids_bind (checkLength_avoids _ _)
    fun _ _ => avoids_bind (parsePoolKey_avoids _) fun _ _ =>
      avoids_ite (fun _ => avoids_error (by decide)) fun _ =>
        avoids_ite (fun _ => avoids_error (by decide)) fun _ => ?_
  cases getTickAtSqrtRatio (wordToUint (argWord data 128)) with
  | none => exact avoids_error (by decide)
  | some tick => exact avoids_ok _

theorem runMint_avoids : Avoids .liquidityUnderflow (runMint host w caller data gas) := by
  refine avoids_bind (chargeGas_avoids _ _) fun _ _ => avoids_bind (checkLength_avoids _ _)
    fun _ _ => avoids_bind (parseRange_avoids _ _) fun range _ =>
      avoids_ite (fun _ => avoids_error (by decide)) fun _ =>
        avoids_bind (validateTickRange_avoids _ _ _) fun _ _ =>
          avoids_ite (fun _ => avoids_error (by decide)) fun _ =>
            avoids_ite (fun _ => avoids_error (by decide)) fun _ =>
              avoids_bind (modifyLiquidity_avoids ?_ fun _ => ?_) fun _ _ =>
                avoids_bind (pullAsset_avoids _ _ _) fun _ _ =>
                  avoids_bind (pullAsset_avoids _ _ _) fun _ _ => avoids_ok _
  · omega
  · omega

theorem Kept.runBurn_avoids (h : Kept w.storage) :
    Avoids .liquidityUnderflow (runBurn w caller data gas) := by
  refine avoids_bind (chargeGas_avoids _ _) fun _ _ => avoids_bind (checkLength_avoids _ _)
    fun _ _ => avoids_bind (parseRange_avoids _ _) fun range _ =>
      avoids_ite (fun _ => avoids_error (by decide)) fun _ =>
        avoids_bind (validateTickRange_avoids _ _ _) fun _ _ =>
          avoids_ite (fun _ => avoids_error (by decide)) fun _ =>
            avoids_ite (fun _ => avoids_error (by decide)) fun henough =>
              avoids_bind (modifyLiquidity_avoids ?_ fun hin => ?_) fun _ _ => avoids_ok _
  · omega
  · have hbook := h.book range.1
    have hactive : (w.storage.view range.1).weight range.2 ≤
        (w.storage.view range.1).liquidity := by
      rw [hbook.active]
      exact le_activeAt (w.storage.view range.1).weight_nonneg hin
    have hweight : (w.storage.view range.1).weight range.2 =
        (loadPosition w.storage range.1 range.2).liquidity := rfl
    have hliq : (w.storage.view range.1).liquidity = loadLiquidity w.storage range.1 := rfl
    rw [hweight, hliq] at hactive
    omega

theorem runCollect_avoids : Avoids .liquidityUnderflow (runCollect host w caller data gas) :=
  avoids_bind (chargeGas_avoids _ _) fun _ _ => avoids_bind (checkLength_avoids _ _)
    fun _ _ => avoids_bind (parseRange_avoids _ _) fun _ _ =>
      avoids_bind (payAsset_avoids _ _ _) fun _ _ =>
        avoids_bind (payAsset_avoids _ _ _) fun _ _ => avoids_ok _

theorem Kept.runSwap_avoids (h : Kept w.storage) :
    Avoids .liquidityUnderflow (runSwap host w caller data gas) := by
  refine avoids_bind (chargeGas_avoids _ _) fun gas' _ => avoids_bind (checkLength_avoids _ _)
    fun _ _ => avoids_bind (parsePoolKey_avoids _) fun pk _ =>
      avoids_ite (fun _ => avoids_error (by decide)) fun hinit =>
        avoids_ite (fun _ => avoids_error (by decide)) fun _ =>
          avoids_ite (fun _ => avoids_error (by decide)) fun hlimit => avoids_bind ?_ fun _ _ =>
            avoids_bind (pullAsset_avoids _ _ _) fun _ _ =>
              avoids_bind (payAsset_avoids _ _ _) fun _ _ => avoids_ok _
  simp only [Bool.not_eq_true', Bool.not_eq_false] at hinit hlimit
  exact h.swapLoop_avoids hinit (withinLimit_of_priceLimitOk hlimit) _ _

theorem Kept.run_avoids (h : Kept w.storage) (host : Host) (caller : Address)
    (input : List UInt8) (gas : ℕ) (readOnly : Bool) :
    Avoids .liquidityUnderflow (run host w caller input gas readOnly) := by
  refine avoids_ite (fun _ => avoids_error (by decide)) fun _ =>
    avoids_ite (fun _ => ?_) fun _ => avoids_ite (fun _ => ?_) fun _ =>
      avoids_ite (fun _ => ?_) fun _ => avoids_ite (fun _ => ?_) fun _ =>
        avoids_ite (fun _ => ?_) fun _ => avoids_error (by simp)
  · exact avoids_bind (chargeGas_avoids _ _) fun _ _ =>
      avoids_bind (parsePoolKey_avoids _) fun _ _ => avoids_ok _
  · exact avoids_bind (chargeGas_avoids _ _) fun _ _ =>
      avoids_bind (parsePoolKey_avoids _) fun _ _ => avoids_ok _
  · exact avoids_bind (chargeGas_avoids _ _) fun _ _ => avoids_bind (checkLength_avoids _ _)
      fun _ _ => avoids_bind (parsePoolKey_avoids _) fun _ _ =>
        avoids_bind (parseTick_avoids _) fun _ _ => avoids_ok _
  · exact avoids_bind (chargeGas_avoids _ _) fun _ _ => avoids_bind (checkLength_avoids _ _)
      fun _ _ => avoids_bind (parsePoolKey_avoids _) fun _ _ =>
        avoids_bind (parseTick_avoids _) fun _ _ =>
          avoids_bind (parseTick_avoids _) fun _ _ => avoids_ok _
  · refine avoids_ite (fun _ => avoids_error (by decide)) fun _ => ?_
    cases hguard : enterGuard w.storage with
    | none => exact avoids_error (by decide)
    | some db =>
        have hdb : Kept db := by
          unfold enterGuard at hguard
          split_ifs at hguard
          obtain rfl := Option.some.inj hguard
          exact ⟨h.book, h.small, h.priced⟩
        have hkept : Kept ({ w with storage := db } : World).storage := hdb
        refine avoids_bind ?_ fun _ _ => avoids_ok _
        exact avoids_ite (fun _ => runInitialize_avoids) fun _ =>
          avoids_ite (fun _ => runMint_avoids) fun _ =>
            avoids_ite (fun _ => hkept.runBurn_avoids) fun _ =>
              avoids_ite (fun _ => runCollect_avoids) fun _ => hkept.runSwap_avoids

end Calls

/-- After every run whose pools minted less than their words hold, the ticks, the bitmap
and the active liquidity of every pool are the sums of its positions, and no call ever
fails because liquidity would underflow. -/
theorem liquidity_never_underflows {w : World} (hw : Genesis w) (actions : List Action)
    (hbound : ∀ pk, minted pk (runFrom w actions).2 < 2 ^ 255) :
    (∀ pk, Bookkeeping pk ((runFrom w actions).1.storage.view pk)) ∧
      ∀ (host : Host) (w' : World) (caller : Address) (input : List UInt8) (gas : ℕ)
        (readOnly : Bool), w'.storage = (runFrom w actions).1.storage →
        run host w' caller input gas readOnly ≠ .error .liquidityUnderflow := by
  have hsound : ∀ pk, Sound pk ((runFrom w actions).1.storage.view pk) (runFrom w actions).2 :=
    fun pk => reachable_sound pk hw actions (hbound pk)
  refine ⟨fun pk => (hsound pk).book, fun host w' caller input gas readOnly hsame => ?_⟩
  have hkept : Kept w'.storage := by
    rw [hsame]
    refine ⟨fun pk => (hsound pk).book, fun pk => ?_, fun pk hinit => ?_⟩
    · have htotal := (hsound pk).total_le
      have hlt := hbound pk
      omega
    · exact (reachable_consistent hw actions pk hinit).priced
  exact hkept.run_avoids host caller input gas readOnly

theorem liquidity_never_underflows_stopThenDust :
    Bookkeeping sixtyPool ((runFrom fundedWorld stopThenDust).1.storage.view sixtyPool) :=
  (liquidity_never_underflows fundedWorld_genesis stopThenDust fun pk =>
    (minted_le pk fundedWorld stopThenDust).trans_lt (by decide)).1 sixtyPool

end LuxPrecompile.V3
