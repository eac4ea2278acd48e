import Mathlib.Data.List.GetD
import LuxPrecompile.Settle.QuoteWords

/-!
# Two quotes of one market

The router lists, for a pair, the best of the markets it asks.  Its amount word is the one
the quoter answers for that market exactly when every market it asks is one the quoter can
answer for.
-/

namespace LuxPrecompile.Settle

open Dex Evm Support

variable {hashes : Hashes} {st : Storage} {tokenIn tokenOut : Address} {amountIn : ℕ}

/-! ## The pick -/

/-- The output of an active market for a tier. -/
def TierOutput (hashes : Hashes) (st : Storage) (tokenIn tokenOut : Address) (amountIn : ℕ)
    (fee : ℕ) (output : ℤ) : Prop :=
  marketFor hashes st (tierKey tokenIn tokenOut fee) =
      some ((tierKey tokenIn tokenOut fee).id hashes) ∧
    output = spotOutputFeeAdjusted (loadMarket st ((tierKey tokenIn tokenOut fee).id hashes))
      amountIn (routeDirection tokenIn tokenOut)

/-- What the loop of `quoteV4` has found among the tiers it has asked: a positive output no
other tier exceeds, or no positive output. -/
structure BestOf (hashes : Hashes) (st : Storage) (tokenIn tokenOut : Address) (amountIn : ℕ)
    (tiers : List ℕ) (best : Option Pick) : Prop where
  found : ∀ p ∈ best, 0 < p.amount ∧ ∃ fee ∈ tiers,
    p.key = tierKey tokenIn tokenOut fee ∧ p.poolID = p.key.id hashes ∧
      TierOutput hashes st tokenIn tokenOut amountIn fee p.amount
  bound : ∀ fee ∈ tiers, ∀ output, TierOutput hashes st tokenIn tokenOut amountIn fee output →
    output ≤ 0 ∨ ∃ p ∈ best, output ≤ p.amount

theorem askTier_none {best : Option Pick} {fee : ℕ}
    (h : marketFor hashes st (tierKey tokenIn tokenOut fee) = none) :
    askTier hashes st tokenIn tokenOut amountIn best fee = best := by
  simp only [askTier, h]

theorem askTier_some (best : Option Pick) {fee : ℕ} {output : ℤ}
    (h : TierOutput hashes st tokenIn tokenOut amountIn fee output) :
    askTier hashes st tokenIn tokenOut amountIn best fee =
      if 0 < output ∧ ∀ b ∈ best, b.amount < output then
        some ⟨output, (tierKey tokenIn tokenOut fee).id hashes, tierKey tokenIn tokenOut fee⟩
      else best := by
  obtain ⟨hmarket, houtput⟩ := h
  rw [askTier]
  simp only [hmarket, ← houtput]

theorem askTier_best {tiers : List ℕ} {best : Option Pick} (fee : ℕ)
    (h : BestOf hashes st tokenIn tokenOut amountIn tiers best) :
    BestOf hashes st tokenIn tokenOut amountIn (tiers ++ [fee])
      (askTier hashes st tokenIn tokenOut amountIn best fee) := by
  have hfound : ∀ p ∈ best, 0 < p.amount ∧ ∃ fee' ∈ tiers ++ [fee],
      p.key = tierKey tokenIn tokenOut fee' ∧ p.poolID = p.key.id hashes ∧
        TierOutput hashes st tokenIn tokenOut amountIn fee' p.amount := by
    intro p hp
    obtain ⟨hpos, fee', hmem, hrest⟩ := h.found p hp
    exact ⟨hpos, fee', List.mem_append_left _ hmem, hrest⟩
  cases hmarket : marketFor hashes st (tierKey tokenIn tokenOut fee) with
  | none =>
      rw [askTier_none hmarket]
      refine ⟨hfound, fun fee' hmem output houtput => ?_⟩
      obtain hmem | hmem := List.mem_append.mp hmem
      · exact h.bound fee' hmem output houtput
      · rw [List.mem_singleton.mp hmem] at houtput
        rw [houtput.1] at hmarket
        cases hmarket
  | some poolID =>
      obtain ⟨hid, -⟩ := marketFor_eq_some hmarket
      rw [hid] at hmarket
      have htier : TierOutput hashes st tokenIn tokenOut amountIn fee _ := ⟨hmarket, rfl⟩
      generalize spotOutputFeeAdjusted _ _ _ = output at htier
      rw [askTier_some best htier]
      split_ifs with hbetter
      · constructor
        · intro p hp
          obtain rfl := Option.some.inj hp
          exact ⟨hbetter.1, fee, List.mem_append_right _ (List.mem_singleton_self fee), rfl, rfl,
            htier⟩
        · intro fee' hmem output' houtput
          obtain hmem | hmem := List.mem_append.mp hmem
          · obtain hle | ⟨p, hp, hle⟩ := h.bound fee' hmem output' houtput
            · exact .inl hle
            · exact .inr ⟨_, rfl, hle.trans (hbetter.2 p hp).le⟩
          · rw [List.mem_singleton.mp hmem] at houtput
            exact .inr ⟨_, rfl, (houtput.2.trans htier.2.symm).le⟩
      · refine ⟨hfound, fun fee' hmem output' houtput => ?_⟩
        obtain hmem | hmem := List.mem_append.mp hmem
        · exact h.bound fee' hmem output' houtput
        · rw [List.mem_singleton.mp hmem] at houtput
          rw [houtput.2.trans htier.2.symm]
          by_cases hpos : 0 < output
          · have hex : ¬∀ b ∈ best, b.amount < output := fun hall => hbetter ⟨hpos, hall⟩
            push Not at hex
            exact .inr hex
          · exact .inl (not_lt.mp hpos)

theorem quoteV4_best (preferredFee : ℕ) :
    BestOf hashes st tokenIn tokenOut amountIn (feeTiers preferredFee)
      (quoteV4 hashes st tokenIn tokenOut amountIn preferredFee) := by
  unfold quoteV4
  induction feeTiers preferredFee using List.reverseRecOn with
  | nil => exact ⟨by simp, by simp⟩
  | append_singleton tiers fee ih =>
      rw [List.foldl_append, List.foldl_cons, List.foldl_nil]
      exact askTier_best fee ih

/-! ## The router's answer -/

theorem encodeQuoteResults_first (r : QuoteResult) (rest : List QuoteResult) :
    slice (encodeQuoteResults (r :: rest)) 1 2 = [r.venue.toByte] ∧
      slice (encodeQuoteResults (r :: rest)) 2 34 =
        (leftPadBytes (bigBytes r.amountOut.natAbs) 32).take 32 := by
  have hword : ((leftPadBytes (bigBytes r.amountOut.natAbs) 32).take 32).length = 32 := by
    rw [List.length_take, leftPadBytes, List.length_append, List.length_replicate]
    omega
  constructor
  · rfl
  · rw [encodeQuoteResults, List.flatMap_cons, encodeQuoteResult, slice]
    simp only [List.drop_succ_cons, List.cons_append, List.drop_zero, List.append_assoc]
    rw [List.take_append_of_le_length (by omega), List.take_of_length_le (by omega)]

theorem OtherVenues.venue_ne (others : OtherVenues) :
    ∀ r ∈ others.results, r.venue ≠ .v4Native := by
  intro r hr
  obtain hv2 | hext := List.mem_append.mp hr
  · obtain ⟨a, -, rfl⟩ := List.mem_map.mp hv2
    simp
  · obtain ⟨v, -, hv⟩ := List.mem_filterMap.mp hext
    simp only [Option.bind_eq_bind, Option.bind_eq_some_iff,
      Option.ite_none_right_eq_some, Option.some.injEq] at hv
    obtain ⟨amount, -, -, rfl⟩ := hv
    simp

theorem bestResult_mem {results : List QuoteResult} {r : QuoteResult}
    (h : bestResult results = some r) : r ∈ results := by
  unfold bestResult at h
  induction results using List.reverseRecOn with
  | nil => cases h
  | append_singleton results last ih =>
      rw [List.foldl_append, List.foldl_cons, List.foldl_nil] at h
      split_ifs at h
      · obtain rfl := Option.some.inj h
        simp
      · exact List.mem_append_left _ (ih h)

/-! ## The quoter's answer for a pick -/

/-- The calldata behind the selector that asks the quoter for a market. -/
def quoteInput (key : PoolKey) (amount : ℕ) (zeroForOne : Bool) : List UInt8 :=
  encodePoolKeyABI key ++ (natToBytes 32 amount ++ natToBytes 32 (if zeroForOne then 1 else 0))

theorem askedOf_quoteInput {key : PoolKey} (hfits : key.Fits)
    (hmarket : marketFor hashes st key = some (key.id hashes)) (hpos : 0 < amountIn)
    (hlt : amountIn < 2 ^ 256) (zeroForOne : Bool) {gas : ℕ} (hgas : gasQuoteView ≤ gas) :
    askedOf hashes st (quoteInput key amountIn zeroForOne) gas =
      .ok (⟨loadMarket st (key.id hashes), amountIn, zeroForOne⟩, gas - gasQuoteView) := by
  obtain ⟨-, hactive⟩ := marketFor_eq_some hmarket
  have hlen : (quoteInput key amountIn zeroForOne).length = 224 := by simp [quoteInput]
  have hkey : slice (quoteInput key amountIn zeroForOne) 0 160 = encodePoolKeyABI key := by
    rw [quoteInput, slice_append_left (by simp), slice_all (by simp)]
  have hamount : (argWord (quoteInput key amountIn zeroForOne) 160).toNat = amountIn := by
    rw [argWord, quoteInput, slice_append_right (by simp), encodePoolKeyABI_length,
      slice_append_left (by simp), slice_all (by simp), bytesToHash_natToBytes,
      BitVec.toNat_ofNat, Nat.mod_eq_of_lt hlt]
  have hflag : decide ((quoteInput key amountIn zeroForOne).getD 223 0 = 1) = zeroForOne := by
    have hlast : (quoteInput key amountIn zeroForOne).getD 223 0 =
        (natToBytes 32 (if zeroForOne then 1 else 0)).getD 31 0 := by
      rw [quoteInput, List.getD_append_right _ _ _ _ (by simp), encodePoolKeyABI_length,
        List.getD_append_right _ _ _ _ (by simp), natToBytes_length]
    rw [hlast]
    cases zeroForOne with
    | true => decide
    | false => decide
  rw [askedOf, if_neg (by omega)]
  dsimp only
  rw [if_neg (by omega), hkey, decodePoolKey_encodePoolKeyABI hfits]
  dsimp only
  rw [hamount, if_neg (by omega), if_neg (not_not.mpr hactive), hflag]

theorem tierKey_fits {fee : ℕ} (h : fee < 2 ^ 24) : (tierKey tokenIn tokenOut fee).Fits := by
  have hspacing : -2 ^ 23 ≤ tickSpacingForFee fee ∧ tickSpacingForFee fee < 2 ^ 23 := by
    unfold tickSpacingForFee
    split_ifs <;> decide
  unfold tierKey
  split_ifs
  · exact ⟨h, hspacing⟩
  · exact ⟨h, hspacing⟩

theorem Registry.price_pos {w : World} (hreg : Registry hashes w) {key : PoolKey}
    (hmarket : marketFor hashes w.storage key = some (key.id hashes)) :
    0 < (loadMarket w.storage (key.id hashes)).sqrtPriceX96 := by
  obtain ⟨-, hactive⟩ := marketFor_eq_some hmarket
  have hstatus : (loadMarket w.storage (key.id hashes)).status ≠ .none := by
    rw [hactive]
    decide
  obtain ⟨key', hlisted, -⟩ := hreg.listed hstatus
  have hmin : 0 < minSqrtRatio := by decide
  exact lt_of_lt_of_le hmin hlisted.price.1

/-- The quoter's plain answer for a market. -/
theorem quote_quoteInput {key : PoolKey} (hfits : key.Fits)
    (hmarket : marketFor hashes st key = some (key.id hashes)) (hpos : 0 < amountIn)
    (hlt : amountIn < 2 ^ 256) (zeroForOne : Bool) {out : List UInt8} :
    quote hashes st (quoteInput key amountIn zeroForOne) gasQuoteView true .plain =
        .ok (out, 0) ↔
      fillWord (spotOutputFeeAdjusted (loadMarket st (key.id hashes)) amountIn zeroForOne) =
        some out := by
  have hasked := askedOf_quoteInput hfits hmarket hpos hlt zeroForOne le_rfl
  have hanswer : answer ⟨loadMarket st (key.id hashes), amountIn, zeroForOne⟩ true .plain =
      fillWord (spotOutputFeeAdjusted (loadMarket st (key.id hashes)) amountIn zeroForOne) := by
    simp only [answer, projectSingleTick, if_true, Option.bind_eq_bind, Option.bind_some]
  rw [quote_of_asked hasked, hanswer, Nat.sub_self]
  cases fillWord (spotOutputFeeAdjusted (loadMarket st (key.id hashes)) amountIn zeroForOne) with
  | none => simp
  | some word => simp

/-! ## Agreement -/

/-- The amount word of the first entry of the router's answer is what the quoter answers
for a market. -/
def AmountAgrees (hashes : Hashes) (st : Storage) (out : List UInt8) (key : PoolKey)
    (amountIn : ℕ) (zeroForOne : Bool) : Prop :=
  quote hashes st (quoteInput key amountIn zeroForOne) gasQuoteView true .plain =
    .ok (slice out 2 34, 0)

/-- Whenever the router's quote, or its best route, picks a market, it writes the amount
the quoter answers for that market. -/
def RouterAgrees (hashes : Hashes) (st : Storage) (others : OtherVenues) (input : List UInt8) :
    Prop :=
  ∀ p, decodeQuoteParams input = .ok p →
    (∀ gas out g pick, runQuoteExactInputSingle hashes st others input gas = .ok (out, g) →
      quoteV4 hashes st p.tokenIn p.tokenOut p.amountIn p.fee = some pick →
      AmountAgrees hashes st out pick.key p.amountIn (routeDirection p.tokenIn p.tokenOut)) ∧
    (∀ gas out g pick, runGetBestRoute hashes st others input gas = .ok (out, g) →
      quoteV4 hashes st p.tokenIn p.tokenOut p.amountIn 0 = some pick →
      slice out 1 2 = [SwapVenue.v4Native.toByte] →
      AmountAgrees hashes st out pick.key p.amountIn (routeDirection p.tokenIn p.tokenOut))

/-- Every market the router asks is one the quoter can answer for. -/
def TiersWritable (hashes : Hashes) (st : Storage) (input : List UInt8) : Prop :=
  ∀ p, decodeQuoteParams input = .ok p → ∀ fee ∈ feeTiers p.fee,
    let poolID := (tierKey p.tokenIn p.tokenOut fee).id hashes
    marketFor hashes st (tierKey p.tokenIn p.tokenOut fee) = some poolID →
      (Asked.mk (loadMarket st poolID) p.amountIn
        (routeDirection p.tokenIn p.tokenOut)).Writable true .plain

theorem decodeQuoteParams_ok {input : List UInt8} {p : QuoteParams}
    (h : decodeQuoteParams input = .ok p) : p.amountIn < 2 ^ 256 ∧ p.fee < 2 ^ 24 := by
  simp only [decodeQuoteParams, refuse_eq_ok, Except.ok.injEq] at h
  obtain ⟨hlen, h⟩ := h
  have hamount : p.amountIn = bytesToNat (slice input 40 72) := by rw [← h]
  have hfee : p.fee = if 75 ≤ input.length then bytesToNat (slice input 72 75) else 0 := by
    rw [← h]
  have hword := bytesToNat_lt (slice input 40 72)
  have hwordLength : (slice input 40 72).length = 32 := by
    rw [slice, List.length_take, List.length_drop]
    omega
  rw [hwordLength] at hword
  rw [hamount, hfee]
  refine ⟨lt_of_lt_of_eq hword (by norm_num), ?_⟩
  split_ifs
  · have hbytes := bytesToNat_lt (slice input 72 75)
    have hlength : (slice input 72 75).length = 3 := by
      rw [slice, List.length_take, List.length_drop]
      omega
    rw [hlength] at hbytes
    exact lt_of_lt_of_eq hbytes (by norm_num)
  · norm_num

theorem feeTiers_lt {preferredFee fee : ℕ} (h : preferredFee < 2 ^ 24)
    (hmem : fee ∈ feeTiers preferredFee) : fee < 2 ^ 24 := by
  unfold feeTiers standardTiers at hmem
  split_ifs at hmem
  · simp only [List.mem_cons, List.not_mem_nil, or_false] at hmem
    omega
  · simp only [List.mem_cons, List.not_mem_nil, or_false] at hmem
    omega

theorem standardTiers_subset (preferredFee : ℕ) : feeTiers 0 ⊆ feeTiers preferredFee := by
  unfold feeTiers
  split_ifs
  · omega
  · omega
  · exact List.subset_cons_self _ _
  · exact List.Subset.refl _

/-- The entry of a pick. -/
def Pick.entry (pick : Pick) : QuoteResult := ⟨pick.amount, .v4Native, pick.poolID, gasSwap⟩

theorem quoteExactInputSingle_pick (others : OtherVenues) {fee : ℕ} {pick : Pick}
    (h : quoteV4 hashes st tokenIn tokenOut amountIn fee = some pick) :
    quoteExactInputSingle hashes st others tokenIn tokenOut amountIn fee =
      .ok (pick.entry :: others.results) := by
  rw [quoteExactInputSingle, h]
  rfl

section Runs

variable {others : OtherVenues} {input out : List UInt8} {p : QuoteParams} {gas g : ℕ}
  {pick : Pick}

theorem runQuoteExactInputSingle_pick (hp : decodeQuoteParams input = .ok p)
    (hpick : quoteV4 hashes st p.tokenIn p.tokenOut p.amountIn p.fee = some pick)
    (hgas : gasQuote ≤ gas) :
    runQuoteExactInputSingle hashes st others input gas =
      .ok (encodeQuoteResults (pick.entry :: others.results), gas - gasQuote) := by
  rw [runQuoteExactInputSingle, if_neg (by omega), hp, Except.mapError]
  simp only [bind, Except.bind, quoteExactInputSingle_pick others hpick, Except.mapError]

theorem runQuoteExactInputSingle_out (hp : decodeQuoteParams input = .ok p)
    (hpick : quoteV4 hashes st p.tokenIn p.tokenOut p.amountIn p.fee = some pick)
    (h : runQuoteExactInputSingle hashes st others input gas = .ok (out, g)) :
    out = encodeQuoteResults (pick.entry :: others.results) := by
  by_cases hgas : gas < gasQuote
  · rw [runQuoteExactInputSingle, if_pos hgas] at h
    cases h
  · rw [runQuoteExactInputSingle_pick hp hpick (not_lt.mp hgas), Except.ok.injEq] at h
    exact (Prod.mk.inj h).1.symm

/-- A best route that names the market registry is the entry of the pick. -/
theorem runGetBestRoute_out (hp : decodeQuoteParams input = .ok p)
    (hpick : quoteV4 hashes st p.tokenIn p.tokenOut p.amountIn 0 = some pick)
    (h : runGetBestRoute hashes st others input gas = .ok (out, g))
    (hvenue : slice out 1 2 = [SwapVenue.v4Native.toByte]) :
    out = encodeQuoteResults [pick.entry] := by
  simp only [runGetBestRoute, getBestRoute, hp, quoteExactInputSingle_pick others hpick,
    refuse_eq_ok, bind, Except.bind, Except.mapError, Except.ok.injEq, Prod.mk.injEq] at h
  obtain ⟨-, rfl, -⟩ := h
  cases hbest : bestResult (pick.entry :: others.results) with
  | none =>
      rw [hbest] at hvenue
      cases hvenue
  | some r =>
      rw [hbest, Option.toList_some, (encodeQuoteResults_first r []).1] at hvenue
      have hvenue' : r.venue = .v4Native := by
        cases hr : r.venue <;> rw [hr] at hvenue <;> simp_all [SwapVenue.toByte]
      obtain rfl | hmem := List.mem_cons.mp (bestResult_mem hbest)
      · rfl
      · exact absurd hvenue' (others.venue_ne r hmem)

end Runs

/-- The word of a pick is the quoter's exactly when the amount fits a word. -/
theorem amountAgrees_iff {w : World} (hreg : Registry hashes w) {fee : ℕ} {pick : Pick}
    (hfee : fee < 2 ^ 24) (hamountIn : amountIn < 2 ^ 256)
    (hpick : quoteV4 hashes w.storage tokenIn tokenOut amountIn fee = some pick)
    (rest : List QuoteResult) :
    AmountAgrees hashes w.storage (encodeQuoteResults (pick.entry :: rest)) pick.key amountIn
        (routeDirection tokenIn tokenOut) ↔
      pick.amount < 2 ^ 256 := by
  obtain ⟨hpos, fee', hmem, hkey, -, hmarket, houtput⟩ :=
    (quoteV4_best fee).found pick (by rw [hpick]; rfl)
  have hprice := hreg.price_pos hmarket
  have hfits : (tierKey tokenIn tokenOut fee').Fits := tierKey_fits (feeTiers_lt hfee hmem)
  have hamountPos : 0 < amountIn := by
    by_contra hzero
    obtain rfl : amountIn = 0 := by omega
    rw [houtput, Nat.cast_zero, spotOutputFeeAdjusted_zero hprice] at hpos
    exact lt_irrefl _ hpos
  rw [AmountAgrees, hkey, quote_quoteInput hfits hmarket hamountPos hamountIn, ← houtput,
    fillWord_isSome_iff hpos.le, (encodeQuoteResults_first pick.entry rest).2, Pick.entry]
  constructor
  · exact fun h => h.1
  · intro hlt
    have hpow : pick.amount.natAbs < 256 ^ 32 := by
      have hnat : pick.amount.natAbs < 2 ^ 256 := by omega
      exact lt_of_lt_of_eq hnat (by norm_num)
    refine ⟨hlt, ?_⟩
    rw [leftPadBytes_bigBytes hpow, List.take_of_length_le (by rw [natToBytes_length])]

/-- In a state of the registry the router agrees with the quoter exactly when the quoter can
answer for every market the router asks. -/
theorem routerAgrees_iff {w : World} (hreg : Registry hashes w) (others : OtherVenues)
    (input : List UInt8) :
    RouterAgrees hashes w.storage others input ↔ TiersWritable hashes w.storage input := by
  constructor
  · intro hagrees p hp fee hfee poolID hmarket
    obtain ⟨hquote, -⟩ := hagrees p hp
    obtain ⟨hamountIn, hpfee⟩ := decodeQuoteParams_ok hp
    rw [writable_plain_iff (hreg.price_pos hmarket)]
    have htier : TierOutput hashes w.storage p.tokenIn p.tokenOut p.amountIn fee
        (spotOutputFeeAdjusted (loadMarket w.storage poolID) p.amountIn
          (routeDirection p.tokenIn p.tokenOut)) :=
      ⟨hmarket, rfl⟩
    obtain hle | ⟨pick, hpick, hle⟩ := (quoteV4_best p.fee).bound fee hfee _ htier
    · exact lt_of_le_of_lt hle (by norm_num)
    · have hword := hquote _ _ _ pick (runQuoteExactInputSingle_pick hp hpick le_rfl) hpick
      rw [amountAgrees_iff hreg hpfee hamountIn hpick] at hword
      exact lt_of_le_of_lt hle hword
  · intro hfits p hp
    obtain ⟨hamountIn, hpfee⟩ := decodeQuoteParams_ok hp
    have hlt : ∀ fee pick, feeTiers fee ⊆ feeTiers p.fee →
        quoteV4 hashes w.storage p.tokenIn p.tokenOut p.amountIn fee = some pick →
        pick.amount < 2 ^ 256 := by
      intro fee pick hsub hpick
      obtain ⟨-, fee', hmem, -, -, hmarket, houtput⟩ :=
        (quoteV4_best fee).found pick (by rw [hpick]; rfl)
      rw [houtput]
      exact (writable_plain_iff (hreg.price_pos hmarket) _ _).mp
        (hfits p hp fee' (hsub hmem) hmarket)
    constructor
    · intro gas out g pick hrun hpick
      rw [runQuoteExactInputSingle_out hp hpick hrun,
        amountAgrees_iff hreg hpfee hamountIn hpick]
      exact hlt p.fee pick (List.Subset.refl _) hpick
    · intro gas out g pick hrun hpick hvenue
      rw [runGetBestRoute_out hp hpick hrun hvenue,
        amountAgrees_iff hreg (by norm_num) hamountIn hpick]
      exact hlt 0 pick (standardTiers_subset p.fee) hpick

/-- What a call of the quoter asks, if it asks anything, is small enough for the price. -/
def QuoterFits (hashes : Hashes) (st : Storage) (blockContext : Bool) (input : List UInt8)
    (gas : ℕ) : Prop :=
  4 ≤ input.length → blockContext = true → ∀ exactIn mode q g,
    quoteKind (bytesToNat (slice input 0 4)) = some (exactIn, mode) →
    askedOf hashes st (input.drop 4) gas = .ok (q, g) → q.Writable exactIn mode

/-- In every reachable state: a call of the quoter answers the exact integers of its
formulas or refuses, without a panic, exactly when its amount is small enough for the
price; and the router writes the quoter's amount exactly when the amount is small enough
for the price of every market it asks. -/
theorem quotes_exact_iff (hashes : Hashes) {w₀ : World} (hgenesis : Genesis w₀)
    (actions : List Action) :
    (∀ blockContext input gas,
      QuoteSound hashes (runFrom hashes w₀ actions).storage blockContext input gas ↔
        QuoterFits hashes (runFrom hashes w₀ actions).storage blockContext input gas) ∧
    (∀ others input,
      RouterAgrees hashes (runFrom hashes w₀ actions).storage others input ↔
        TiersWritable hashes (runFrom hashes w₀ actions).storage input) := by
  obtain ⟨-, hreg, -⟩ := runFrom_registry hashes actions hgenesis.bounded hgenesis.registry
  exact ⟨quoteSound_iff hreg, routerAgrees_iff hreg⟩

/-- Calldata that asks what `2 ^ 255` units of the second currency of the sample market
buy; the price is a quarter, so they buy close to `2 ^ 257` units of the first. -/
def oversizedQuote : List UInt8 :=
  natToBytes 4 selQExactInputSingle ++ quoteInput sampleKey (2 ^ 255) false

/-- The quote panics. -/
theorem quote_panics :
    runQuoter sampleHashes (runFrom sampleHashes fundedWorld [sampleInitialize]).storage true
      oversizedQuote 10000 = .error (.panic, 0) := by
  decide +kernel

theorem quotes_exact_iff_sample :
    ¬ QuoterFits sampleHashes (runFrom sampleHashes fundedWorld [sampleInitialize]).storage true
      oversizedQuote 10000 := by
  rw [← (quotes_exact_iff sampleHashes fundedWorld_genesis [sampleInitialize]).1]
  exact fun h => h.1 0 (by decide +kernel)

end LuxPrecompile.Settle
