import LuxPrecompile.V3.SwapCurve

/-!
# Swapping there and back

The two legs of a round trip move along one curve, so what the second returns is
compared with what the first paid, whatever steps either took: the exchange rate
at a price does not depend on the direction, and it only gets worse on the way.
-/

namespace LuxPrecompile.V3

open Dex Evm Support

/-! ## The exchange rate at a price -/

/-- Token1 for a unit of token0 at a square-root price, inverted. -/
def rateAt (price : ℕ) : ℚ := 2 ^ 192 / price ^ 2

theorem rateAt_pos {price : ℕ} (h : 0 < price) : 0 < rateAt price := by
  have h' : (0 : ℚ) < price := by exact_mod_cast h
  unfold rateAt
  positivity

theorem potential_token0_sub {x y : ℕ} (hx : 0 < x) (hy : 0 < y) :
    potential .token0 y - potential .token0 x = 2 ^ 96 * (y - x) / (x * y) := by
  have hx' : (x : ℚ) ≠ 0 := by exact_mod_cast hx.ne'
  have hy' : (y : ℚ) ≠ 0 := by exact_mod_cast hy.ne'
  simp only [potential]
  field_simp
  ring

theorem rateAt_mul_token1 {price x y : ℕ} :
    rateAt price * (potential .token1 y - potential .token1 x) =
      2 ^ 96 * (y - x) / (price * price) := by
  simp only [potential, rateAt]
  ring

theorem rate_below {price x y : ℕ} (hx : 0 < x) (hxy : x ≤ y) (hy : y ≤ price) :
    rateAt price * (potential .token1 y - potential .token1 x) ≤
      potential .token0 y - potential .token0 x := by
  have hx' : (0 : ℚ) < x := by exact_mod_cast hx
  have hxy' : (x : ℚ) ≤ y := by exact_mod_cast hxy
  have hy' : (y : ℚ) ≤ price := by exact_mod_cast hy
  rw [rateAt_mul_token1, potential_token0_sub hx (by omega)]
  apply div_le_div_of_nonneg_left
  · nlinarith
  · nlinarith
  · nlinarith

theorem rate_above {price x y : ℕ} (hprice : 0 < price) (hx : price ≤ x) (hxy : x ≤ y) :
    potential .token0 y - potential .token0 x ≤
      rateAt price * (potential .token1 y - potential .token1 x) := by
  have hprice' : (0 : ℚ) < price := by exact_mod_cast hprice
  have hx' : (price : ℚ) ≤ x := by exact_mod_cast hx
  have hxy' : (x : ℚ) ≤ y := by exact_mod_cast hxy
  rw [rateAt_mul_token1, potential_token0_sub (by omega) (by omega)]
  apply div_le_div_of_nonneg_left
  · nlinarith
  · nlinarith
  · nlinarith

/-- The price where a round trip starts is a pivot of its exchange rates. -/
theorem pivot_of_onWay {p : SwapParams} {start turn stop limit limit' : ℕ} (hstart : 0 < start)
    (hturn : 0 < turn) (hstop : 0 < stop) (hthere : OnWay p.zeroForOne start turn limit)
    (hback : OnWay (!p.zeroForOne) turn stop limit') :
    ∃ rate, Grid.Pivot (potential p.tokenIn) (potential p.tokenOut) rate start turn stop := by
  have hrate := rateAt_pos hstart
  have hmono : ∀ x y, min turn (min start stop) ≤ x → x ≤ y →
      potential p.tokenIn x ≤ potential p.tokenIn y :=
    fun x y hx hxy => potential_mono _
      (lt_of_lt_of_le (lt_min hturn (lt_min hstart hstop)) hx) hxy
  have hpos : 0 < min start stop := lt_min hstart hstop
  unfold SwapParams.tokenIn SwapParams.tokenOut at *
  cases hdir : p.zeroForOne with
  | true =>
      simp only [hdir, OnWay, if_true, Bool.not_true, Bool.false_eq_true, if_false]
        at hthere hback hmono ⊢
      refine ⟨rateAt start, hrate.le, hmono, ?_, ?_⟩
      · intro x y hx hxy hy
        rw [min_eq_right hthere.2] at hx
        rw [max_eq_left hthere.2] at hy
        exact rate_below (by omega) hxy hy
      · intro x y hx hxy hy hpast
        have hup : start ≤ stop := by omega
        rw [min_eq_left hup] at hx
        exact rate_above hstart hx hxy
  | false =>
      simp only [hdir, OnWay, if_true, Bool.not_false, Bool.false_eq_true, if_false]
        at hthere hback hmono ⊢
      refine ⟨(rateAt start)⁻¹, (inv_pos.mpr hrate).le, hmono, ?_, ?_⟩
      · intro x y hx hxy hy
        rw [min_eq_left hthere.1] at hx
        rw [inv_mul_le_iff₀ hrate]
        exact rate_above hstart hx hxy
      · intro x y hx hxy hy hpast
        have hdown : stop ≤ start := by omega
        rw [max_eq_left hdown] at hy
        rw [le_inv_mul_iff₀ hrate]
        exact rate_below (by omega) hxy hy

/-! ## Two legs -/

/-- The second of two legs spends at most what the first got, and returns at most
what the first paid. -/
theorem Leg.returned_le {p p' : SwapParams} {P Q : Pool} {s s' : SwapState} (h : Leg p P s)
    (h' : Leg p' Q s') (hpk : p'.pk = p.pk) (hdir : p'.zeroForOne = !p.zeroForOne)
    (hstored : Q = { s.pool p.pk with liquidity := wordToUint (uintWord s.liquidity) })
    (hstart : 0 < P.sqrtPrice) (hturn : 0 < s.sqrtPrice) (hstop : 0 < s'.sqrtPrice)
    (hwhole : s'.totalIn ≤ s.totalOut) : (s'.totalOut : ℤ) ≤ s.totalIn := by
  have hQ : Q.sqrtPrice = s.sqrtPrice := by
    rw [hstored]
    rfl
  have hin : p'.tokenIn = p.tokenOut := by
    unfold SwapParams.tokenIn SwapParams.tokenOut
    rw [hdir]
    cases p.zeroForOne <;> rfl
  have hout : p'.tokenOut = p.tokenIn := by
    unfold SwapParams.tokenIn SwapParams.tokenOut
    rw [hdir]
    cases p.zeroForOne <;> rfl
  have hway := h.onWay
  have hway' := h'.onWay
  have hpaid' := h'.paid
  have hgot' := h'.got
  rw [hQ, hdir] at hway'
  rw [hQ, hpk, hin] at hpaid'
  rw [hQ, hpk, hout] at hgot'
  obtain ⟨rate, hpivot⟩ := pivot_of_onWay hstart hturn hstop hway hway'
  have hside : s.sqrtPrice ≤ P.sqrtPrice ∧ s.sqrtPrice ≤ s'.sqrtPrice ∨
      P.sqrtPrice ≤ s.sqrtPrice ∧ s'.sqrtPrice ≤ s.sqrtPrice := by
    unfold OnWay at hway hway'
    cases hz : p.zeroForOne with
    | true =>
        simp only [hz, if_true, Bool.not_true, Bool.false_eq_true, if_false] at hway hway'
        exact Or.inl ⟨hway.2, hway'.1⟩
    | false =>
        simp only [hz, if_true, Bool.not_false, Bool.false_eq_true, if_false] at hway hway'
        exact Or.inr ⟨hway.1, hway'.2⟩
  have hle : (s'.totalOut : ℚ) ≤ s.totalIn :=
    Grid.returned_le_paid hpivot (fun n => Nat.cast_nonneg _) (h.shallower hstored) hside
      h.paid h.got hpaid' (by exact_mod_cast hwhole) hgot'
  exact_mod_cast hle

/-! ## Every round trip -/

/-- A swap call and, right after it, a swap call of the same pool in the other
direction, with the amounts both reported. -/
structure RoundTrip (w : World) (pk : PoolKey) (there back : Call)
    (amounts amounts' : Token → ℤ) : Prop where
  calls : ∃ w1 w2 out out', call w there = some (w1, out) ∧ call w1 back = some (w2, out') ∧
    (∃ price liquidity tick,
      out.event = some (.swap pk there.caller amounts price liquidity tick)) ∧
    ∃ price liquidity tick,
      out'.event = some (.swap pk back.caller amounts' price liquidity tick)
  selectors : bytesToNat (slice there.input 0 4) = selSwap ∧
    bytesToNat (slice back.input 0 4) = selSwap
  opposite : (swapParams pk (back.input.drop 4)).zeroForOne =
    !(swapParams pk (there.input.drop 4)).zeroForOne

theorem runFrom_concat {w w' : World} {actions : List Action} {c : Call} {out : Outcome}
    (h : call (runFrom w actions).1 c = some (w', out)) :
    runFrom w (actions ++ [.call c]) = (w', out :: (runFrom w actions).2) := by
  unfold runFrom at *
  rw [List.foldl_append, List.foldl_cons, List.foldl_nil]
  simp only [exec, h]

/-- A successful exact-input swap of a reachable state spends at most what was
specified, along the curve of its pool. -/
theorem SwapCall.leg {w0 : World} (h0 : Genesis w0) {actions : List Action} {w' : World}
    {c : Call} {out : Outcome} {p : SwapParams} {amountSpecified : ℤ} {db : Storage}
    {s : SwapState}
    (h : SwapCall (runFrom w0 actions).1 w' c out p amountSpecified db s) :
    Swapping p s ∧ Leg p ((runFrom w0 actions).1.storage.view p.pk) s ∧
      w'.storage.view p.pk =
        { s.pool p.pk with liquidity := wordToUint (uintWord s.liquidity) } ∧
      (amountSpecified < 0 → s.totalIn ≤ |amountSpecified|) := by
  have hpriced := (reachable_consistent h0 actions p.pk h.initialized).priced
  have hs := h.swapping hpriced
  obtain ⟨fuel, hloop⟩ := h.loop
  have hview : db.view p.pk = (runFrom w0 actions).1.storage.view p.pk := by
    rw [enterGuard_eq_some h.guarded, view_guard]
  obtain ⟨hend, hleg⟩ := Leg.of_loop hs hloop
  obtain ⟨-, haccounts, -⟩ := swapLoop_ends
    (fun s s' hs hgo hP hok => Accounts.step hs hgo hP hok) _ hs (h.accounts hpriced) hloop
  rw [hview] at hleg
  refine ⟨hend, hleg, h.stored.trans (persistSwap_priced hs.priced hs.withinLimit hloop).2, ?_⟩
  intro hneg
  have hspent := haccounts.exactInput (by rw [h.exactInput, decide_eq_true hneg])
  rw [abs_of_neg hneg]
  omega

/-- From every reachable state, an exact-input swap followed by an exact-input swap
of its whole output in the other direction returns at most what the first took,
which is at most what was specified. -/
theorem round_trip {w0 : World} (h0 : Genesis w0) (actions : List Action) {pk : PoolKey}
    {there back : Call} {amounts amounts' : Token → ℤ}
    (h : RoundTrip (runFrom w0 actions).1 pk there back amounts amounts')
    (hexact : wordToInt (argWord (there.input.drop 4) 160) < 0)
    (hwhole : wordToInt (argWord (back.input.drop 4) 160) =
      amounts (swapParams pk (there.input.drop 4)).tokenOut) :
    -amounts' (swapParams pk (there.input.drop 4)).tokenIn ≤
        amounts (swapParams pk (there.input.drop 4)).tokenIn ∧
      amounts (swapParams pk (there.input.drop 4)).tokenIn ≤
        |wordToInt (argWord (there.input.drop 4) 160)| := by
  obtain ⟨w1, w2, out, out', hthere, hback, ⟨_, _, _, hevent⟩, ⟨_, _, _, hevent'⟩⟩ := h.calls
  obtain ⟨p, x, db, s, hswap⟩ := call_swap hthere h.selectors.1
  obtain ⟨p', y, db', s', hswap'⟩ := call_swap hback h.selectors.2
  have hreached := runFrom_concat hthere
  have hw1 : w1 = (runFrom w0 (actions ++ [.call there])).1 := by rw [hreached]
  rw [hw1] at hswap'
  obtain ⟨hs, hleg, hstored, hspent⟩ := hswap.leg h0
  obtain ⟨hs', hleg', -, hspent'⟩ := hswap'.leg h0
  rw [← hw1] at hleg'
  rw [hswap.event, Option.some.injEq, Event.swap.injEq] at hevent
  rw [hswap'.event, Option.some.injEq, Event.swap.injEq] at hevent'
  obtain ⟨hpk, -, hamounts, -⟩ := hevent
  obtain ⟨hpk', -, hamounts', -⟩ := hevent'
  have hp := hswap.params
  have hp' := hswap'.params
  rw [hpk] at hp
  rw [hpk'] at hp'
  have hx := hswap.amount
  have hy := hswap'.amount
  rw [← hp, ← hamounts, swapAmounts_tokenOut] at hwhole
  have hdir : p'.zeroForOne = !p.zeroForOne := by
    rw [hp, hp']
    exact h.opposite
  have hin : swapAmounts p'.zeroForOne s'.totalIn s'.totalOut p.tokenIn = -s'.totalOut := by
    rw [← swapAmounts_tokenOut p' s'.totalIn s'.totalOut]
    unfold SwapParams.tokenIn SwapParams.tokenOut
    rw [hdir]
    cases p.zeroForOne <;> rfl
  rw [← hp, ← hamounts, ← hamounts', swapAmounts_tokenIn, hin, neg_neg]
  refine ⟨?_, ?_⟩
  · have hneg : y < 0 := by
      have hne := hswap'.nonzero
      omega
    have hle := hspent' hneg
    rw [abs_of_neg hneg] at hle
    have hQ : p'.pk = p.pk := hpk'.trans hpk.symm
    rw [hQ] at hleg'
    have hlow : ∀ q : ℕ, minSqrtRatio ≤ q → 0 < q := fun q hq => lt_of_lt_of_le (by decide) hq
    have hpriced := (reachable_consistent h0 actions p.pk hswap.initialized).priced
    exact hleg.returned_le hleg' hQ hdir hstored (hlow _ hpriced.min_le)
      (hlow _ hs.priced.min_le) (hlow _ hs'.priced.min_le) (by omega)
  · have hle := hspent (by omega)
    rwa [hx] at hle

/-- A thousand units down. -/
def goDown : Call :=
  ⟨plainHost, 7, 0,
    calldata selSwap (sixtyPoolWords ++ [1, intWord (-1000), 2 ^ 95]), 10000000, false⟩

/-- What they bought, back up. -/
def comeBack : Call :=
  ⟨plainHost, 7, 0,
    calldata selSwap (sixtyPoolWords ++ [0, intWord (-995), 2 ^ 97]), 10000000, false⟩

/-- What a swap reports having taken and paid. -/
def reportedAmounts (out : Outcome) : Option (ℤ × ℤ) :=
  match out.event with
  | some (.swap _ _ amounts _ _ _) => some (amounts .token0, amounts .token1)
  | _ => none

theorem goDown_comeBack : ∃ amounts amounts',
    RoundTrip (runFrom fundedWorld (stopThenDust.take 2)).1 sixtyPool goDown comeBack amounts
      amounts' ∧ amounts .token1 = -995 := by
  obtain ⟨⟨⟨w1, out⟩, ⟨w2, out'⟩⟩, hboth⟩ := Option.isSome_iff_exists.mp
    (show ((call (runFrom fundedWorld (stopThenDust.take 2)).1 goDown).bind fun r =>
      (call r.1 comeBack).map fun r' => (r, r')).isSome = true by decide +kernel)
  simp only [Option.bind_eq_some_iff, Option.map_eq_some_iff, Prod.mk.injEq] at hboth
  obtain ⟨r, hthere, r', hback, rfl, rfl⟩ := hboth
  have hreport : ((call (runFrom fundedWorld (stopThenDust.take 2)).1 goDown).bind fun r =>
      (reportedAmounts r.2).map Prod.snd) = some (-995) := by decide +kernel
  obtain ⟨p, _, _, s, hswap⟩ := call_swap hthere (by decide)
  obtain ⟨p', _, _, s', hswap'⟩ := call_swap hback (by decide)
  have hpk : p.pk = sixtyPool := by
    have hkey := hswap.key
    rw [show parsePoolKey (slice (goDown.input.drop 4) 0 128) = .ok sixtyPool from by
      decide +kernel, Except.ok.injEq] at hkey
    exact hkey.symm
  have hpk' : p'.pk = sixtyPool := by
    have hkey := hswap'.key
    rw [show parsePoolKey (slice (comeBack.input.drop 4) 0 128) = .ok sixtyPool from by
      decide +kernel, Except.ok.injEq] at hkey
    exact hkey.symm
  have hevent := hswap.event
  have hevent' := hswap'.event
  rw [hpk] at hevent
  rw [hpk'] at hevent'
  refine ⟨_, _, ⟨⟨w1, w2, out, out', hthere, hback, ⟨_, _, _, hevent⟩, _, _, _, hevent'⟩,
    ⟨by decide, by decide⟩, by decide⟩, ?_⟩
  rw [hthere, Option.bind_some] at hreport
  simpa [reportedAmounts, hevent] using hreport

theorem round_trip_goDown : ∃ amounts amounts' : Token → ℤ,
    RoundTrip (runFrom fundedWorld (stopThenDust.take 2)).1 sixtyPool goDown comeBack amounts
      amounts' ∧ -amounts' .token0 ≤ amounts .token0 ∧ amounts .token0 ≤ 1000 := by
  obtain ⟨amounts, amounts', h, hout⟩ := goDown_comeBack
  have hin : (swapParams sixtyPool (goDown.input.drop 4)).tokenIn = .token0 := by
    decide
  have hback : (swapParams sixtyPool (goDown.input.drop 4)).tokenOut = .token1 := by
    decide
  have hspecified : wordToInt (argWord (goDown.input.drop 4) 160) = -1000 := by decide
  have hwhole : wordToInt (argWord (comeBack.input.drop 4) 160) = -995 := by decide
  have hle := round_trip fundedWorld_genesis (stopThenDust.take 2) h (by decide)
    (by rw [hwhole, hback, hout])
  rw [hin, hspecified] at hle
  exact ⟨amounts, amounts', h, hle.1, hle.2⟩

end LuxPrecompile.V3
