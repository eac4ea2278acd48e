import LuxPrecompile.Settle.Router

/-!
# The words of a quote

In a reachable state a quote answers the exact integers of its formulas when these fit a
word, and aborts the process when one does not; which of the two happens is decided by
the amount, the price, the direction and the fee.  The same condition decides whether the
router's answer for a market is the one of the quoter.
-/

namespace LuxPrecompile.Settle

open Dex Evm Support

variable {hashes : Hashes} {st : Storage}

/-! ## Encoded integers -/

/-- The words of an answer, read as unsigned integers. -/
def WordsAre (out : List UInt8) (values : List ℤ) : Prop :=
  out.length = 32 * values.length ∧
    ∀ k v, values[k]? = some v → ((argWord out (32 * k)).toNat : ℤ) = v

/-- `FillBytes` of one integer after the other. -/
def fillWords : List ℤ → Option (List UInt8)
  | [] => some []
  | v :: vs => do
      let word ← fillWord v
      let rest ← fillWords vs
      some (word ++ rest)

theorem positiveWord_eq {v : ℤ} (hv : 0 ≤ v) : positiveWord v = fillWord v := by
  unfold positiveWord
  split_ifs with hpos
  · rfl
  · obtain rfl : v = 0 := by omega
    decide

theorem fillWord_isSome_iff {v : ℤ} (hv : 0 ≤ v) {out : List UInt8} :
    fillWord v = some out ↔ v < 2 ^ 256 ∧ out = natToBytes 32 v.natAbs := by
  have hiff : v.natAbs < 2 ^ 256 ↔ v < 2 ^ 256 := by omega
  rw [fillWord, Option.ite_none_right_eq_some, Option.some.injEq, hiff, eq_comm (a := out)]

theorem fillWords_eq_some_iff {vs : List ℤ} (hnonneg : ∀ v ∈ vs, 0 ≤ v) {out : List UInt8} :
    fillWords vs = some out ↔
      (∀ v ∈ vs, v < 2 ^ 256) ∧ out = (vs.map fun v => natToBytes 32 v.natAbs).flatten := by
  induction vs generalizing out with
  | nil => simp [fillWords, eq_comm]
  | cons v vs ih =>
      rw [List.forall_mem_cons] at hnonneg
      simp only [fillWords, Option.bind_eq_bind, Option.bind_eq_some_iff,
        fillWord_isSome_iff hnonneg.1, ih hnonneg.2, Option.some.injEq, List.forall_mem_cons,
        List.map_cons, List.flatten_cons]
      constructor
      · rintro ⟨word, ⟨hv, hword⟩, rest, ⟨hvs, hrest⟩, hout⟩
        rw [← hout, hword, hrest]
        exact ⟨⟨hv, hvs⟩, rfl⟩
      · rintro ⟨⟨hv, hvs⟩, hout⟩
        exact ⟨natToBytes 32 v.natAbs, ⟨hv, rfl⟩, _, ⟨hvs, rfl⟩, hout.symm⟩

/-- Nonnegative integers that fit are read back from their words. -/
theorem wordsAre_of_fits {vs : List ℤ} (hnonneg : ∀ v ∈ vs, 0 ≤ v)
    (hlt : ∀ v ∈ vs, v < 2 ^ 256) :
    WordsAre (vs.map fun v => natToBytes 32 v.natAbs).flatten vs := by
  have hlengths : ∀ f ∈ vs.map fun v => natToBytes 32 v.natAbs, f.length = 32 := by
    intro f hf
    obtain ⟨v, -, rfl⟩ := List.mem_map.mp hf
    exact natToBytes_length _ _
  constructor
  · rw [← List.flatMap_def, length_flatMap_of_length fun _ => natToBytes_length _ _]
  · intro k v hk
    have hmem : v ∈ vs := List.mem_of_getElem? hk
    have hfield : (vs.map fun v => natToBytes 32 v.natAbs)[k]? =
        some (natToBytes 32 v.natAbs) := by
      rw [List.getElem?_map, hk]
      rfl
    have hword := argWord_fields hlengths [] hfield
    have hv := hnonneg v hmem
    have hvlt := hlt v hmem
    rw [List.append_nil] at hword
    rw [hword, bytesToHash_natToBytes, BitVec.toNat_ofNat, Nat.mod_eq_of_lt (by omega)]
    omega

/-! ## When an answer fits -/

/-- The integers of an answer, by their formulas, around the projected amount. -/
def Asked.values (q : Asked) (projected : ℤ) : QuoteMode → List ℤ
  | .fees => [projected, feeOnInput q.amount q.market.fee]
  | .depth => [projected, 0]
  | .slippage => [projected, spotOutput q.market q.amount q.zeroForOne]
  | .plain | .book => [projected]

/-- The amount is small enough for its price.  For a given input what is left of it after
the fee buys less than `2 ^ 256`, where the answer also holds the output without a fee the
whole of it; for a wanted output the largest word, less its fee, pays for it. -/
def Asked.Writable (q : Asked) (exactIn : Bool) (mode : QuoteMode) : Prop :=
  if exactIn then
    (q.amount - if mode = .slippage then 0 else (q.amount : ℤ) * q.market.fee / 1000000) *
      q.market.priceNum q.zeroForOne < 2 ^ 256 * q.market.priceDen q.zeroForOne
  else
    q.amount * q.market.priceDen q.zeroForOne ≤
      (2 ^ 256 - 1 - (2 ^ 256 - 1) * (q.market.fee : ℤ) / 1000000) *
        q.market.priceNum q.zeroForOne

/-- What the registry says of the market of a quote. -/
structure Asked.Sound (q : Asked) : Prop where
  price : 0 < q.market.sqrtPriceX96
  fee : q.market.fee ≤ feeMax
  amount : 0 < q.amount ∧ q.amount < 2 ^ 256

section Answer

variable {q : Asked} {exactIn : Bool} {mode : QuoteMode}

theorem spotOutput_lt_iff (hprice : 0 < q.market.sqrtPriceX96) (amount bound : ℤ) :
    spotOutput q.market amount q.zeroForOne < bound ↔
      amount * q.market.priceNum q.zeroForOne < bound * q.market.priceDen q.zeroForOne := by
  rw [spotOutput_eq hprice, Int.ediv_lt_iff_lt_mul (priceDen_pos hprice q.zeroForOne)]

theorem writable_plain_iff {market : MarketRecord} (hprice : 0 < market.sqrtPriceX96)
    (amount : ℕ) (zeroForOne : Bool) :
    (Asked.mk market amount zeroForOne).Writable true .plain ↔
      spotOutputFeeAdjusted market amount zeroForOne < 2 ^ 256 := by
  have hlt := spotOutput_lt_iff (q := ⟨market, amount, zeroForOne⟩) hprice
    (amount - feeOnInput amount market.fee) (2 ^ 256)
  exact hlt.symm

theorem spotOutput_nonneg (h : q.Sound) {amount : ℤ} (hamount : 0 ≤ amount) :
    0 ≤ spotOutput q.market amount q.zeroForOne := by
  rw [le_spotOutput_iff h.price, zero_mul]
  exact mul_nonneg hamount (priceNum_pos h.price q.zeroForOne).le

theorem feeOnInput_range (h : q.Sound) :
    0 ≤ feeOnInput q.amount q.market.fee ∧ feeOnInput q.amount q.market.fee ≤ q.amount := by
  have hfee := h.fee
  have hamount : (0 : ℤ) ≤ q.amount := by positivity
  unfold feeOnInput feeDenominator
  unfold feeMax at hfee
  have hle : (q.amount : ℤ) * q.market.fee ≤ q.amount * 1000000 :=
    mul_le_mul_of_nonneg_left (by omega) hamount
  constructor
  · positivity
  · omega

/-- The integer a quote projects, and when it fits a word. -/
theorem projected_spec (h : q.Sound) (hmode : exactIn = true ∨ mode = .plain) :
    ∃ x, projectSingleTick q.market q.amount q.zeroForOne exactIn = some x ∧ 0 ≤ x ∧
      ((∀ v ∈ q.values x mode, v < 2 ^ 256) ↔ q.Writable exactIn mode) := by
  have hfee := feeOnInput_range h
  have hamount := h.amount
  cases exactIn with
  | true =>
      have hnet :=
        spotOutput_lt_iff h.price (q.amount - feeOnInput q.amount q.market.fee) (2 ^ 256)
      have hwhole := spotOutput_lt_iff h.price q.amount (2 ^ 256)
      have hle : spotOutputFeeAdjusted q.market q.amount q.zeroForOne ≤
          spotOutput q.market q.amount q.zeroForOne := by
        rw [spotOutputFeeAdjusted, spotOutput_eq h.price, spotOutput_eq h.price]
        apply Int.ediv_le_ediv (priceDen_pos h.price q.zeroForOne)
        exact mul_le_mul_of_nonneg_right (by omega) (priceNum_pos h.price q.zeroForOne).le
      refine ⟨_, rfl, spotOutput_nonneg h (by omega), ?_⟩
      unfold spotOutputFeeAdjusted feeOnInput feeDenominator at *
      cases mode with
      | slippage =>
          simp only [Asked.values, List.forall_mem_cons, Asked.Writable, if_true, sub_zero]
          rw [← hwhole]
          constructor
          · rintro ⟨-, hlt, -⟩
            exact hlt
          · exact fun hlt => ⟨lt_of_le_of_lt hle hlt, hlt, by simp⟩
      | fees =>
          simp only [Asked.values, List.forall_mem_cons, Asked.Writable, if_true, reduceCtorEq,
            if_false]
          rw [← hnet]
          constructor
          · exact fun hlt => hlt.1
          · exact fun hlt => ⟨hlt, by unfold feeOnInput feeDenominator; omega, by simp⟩
      | depth =>
          simp only [Asked.values, List.forall_mem_cons, Asked.Writable, if_true, reduceCtorEq,
            if_false]
          rw [← hnet]
          constructor
          · exact fun hlt => hlt.1
          · exact fun hlt => ⟨hlt, by norm_num, by simp⟩
      | plain =>
          simp only [Asked.values, List.forall_mem_singleton, Asked.Writable, if_true,
            reduceCtorEq, if_false]
          exact hnet
      | book =>
          simp only [Asked.values, List.forall_mem_singleton, Asked.Writable, if_true,
            reduceCtorEq, if_false]
          exact hnet
  | false =>
      obtain rfl : mode = .plain := by simpa using hmode
      have hpositive : (0 : ℤ) < q.amount := by exact_mod_cast hamount.1
      obtain ⟨x, hx, hpos, hspec⟩ := spotInputForOutput_spec h.price h.fee hpositive q.zeroForOne
      refine ⟨x, hx, hpos.le, ?_⟩
      have hle : x < 2 ^ 256 ↔ x ≤ 2 ^ 256 - 1 := by omega
      rw [Asked.values, List.forall_mem_singleton, hle, hspec, spotOutputFeeAdjusted,
        le_spotOutput_iff h.price]
      rfl

/-- An answer holds the words of its integers, and is there exactly when these fit. -/
theorem answer_spec (h : q.Sound) (hmode : exactIn = true ∨ mode = .plain) :
    (q.Writable exactIn mode → ∃ x out,
      projectSingleTick q.market q.amount q.zeroForOne exactIn = some x ∧
      answer q exactIn mode = some out ∧ WordsAre out (q.values x mode)) ∧
    (¬ q.Writable exactIn mode → answer q exactIn mode = none) := by
  obtain ⟨x, hx, hx0, hfits⟩ := projected_spec h hmode
  have hfee := feeOnInput_range h
  have hspot : 0 ≤ spotOutput q.market q.amount q.zeroForOne :=
    spotOutput_nonneg h (by positivity)
  have hnonneg : ∀ v ∈ q.values x mode, 0 ≤ v := by
    cases mode <;> simp [Asked.values, hx0, hfee.1, hspot]
  have hanswer : answer q exactIn mode = fillWords (q.values x mode) := by
    rw [answer, hx]
    cases mode with
    | fees =>
        simp [encodeTwoWords, Asked.values, fillWords, positiveWord_eq hx0,
          positiveWord_eq hfee.1]
    | depth =>
        simp [encodeWordAndBool, Asked.values, fillWords, positiveWord_eq hx0]
        rfl
    | slippage =>
        simp [encodeTwoWords, Asked.values, fillWords, positiveWord_eq hx0,
          positiveWord_eq hspot]
    | plain => simp [Asked.values, fillWords]
    | book => simp [Asked.values, fillWords]
  constructor
  · intro hwritable
    have hlt := hfits.mpr hwritable
    refine ⟨x, _, hx, ?_, wordsAre_of_fits hnonneg hlt⟩
    rw [hanswer, (fillWords_eq_some_iff hnonneg).mpr ⟨hlt, rfl⟩]
  · intro hwritable
    rw [hanswer, Option.eq_none_iff_forall_ne_some]
    intro out hout
    exact hwritable (hfits.mp ((fillWords_eq_some_iff hnonneg).mp hout).1)

end Answer

/-! ## The quoter -/

theorem quoteKind_mode {selector : ℕ} {exactIn : Bool} {mode : QuoteMode}
    (h : quoteKind selector = some (exactIn, mode)) : exactIn = true ∨ mode = .plain := by
  unfold quoteKind at h
  split_ifs at h
  all_goals simp_all

theorem askedOf_ok {data : List UInt8} {gas gasLeft : ℕ} {q : Asked}
    (h : askedOf hashes st data gas = .ok (q, gasLeft)) :
    ∃ key, decodePoolKey (slice data 0 160) = .ok key ∧
      q.market = loadMarket st (key.id hashes) ∧ q.market.status = .active ∧
      0 < q.amount ∧ q.amount < 2 ^ 256 := by
  unfold askedOf at h
  split_ifs at h with hgas hlen
  cases hkey : decodePoolKey (slice data 0 160) with
  | error e =>
      rw [hkey] at h
      cases h
  | ok key =>
      rw [hkey] at h
      simp only [refuse_eq_ok, Except.ok.injEq, Prod.mk.injEq, not_not] at h
      obtain ⟨hzero, hactive, hq, -⟩ := h
      have hmarket : q.market = loadMarket st (key.id hashes) := by rw [← hq]
      have hamount : q.amount = (argWord data 160).toNat := by rw [← hq]
      rw [hmarket, hamount]
      exact ⟨key, rfl, rfl, hactive, Nat.pos_of_ne_zero hzero, (argWord data 160).isLt⟩

theorem askedOf_not_panic {data : List UInt8} {gas g : ℕ} :
    askedOf hashes st data gas ≠ .error (.panic, g) := by
  unfold askedOf
  split_ifs
  · simp
  · simp
  · cases decodePoolKey (slice data 0 160) with
    | error e => simp
    | ok key =>
        dsimp only
        split_ifs
        · simp
        · simp
        · simp

theorem Registry.asked_sound {w : World} (hreg : Registry hashes w) {data : List UInt8}
    {gas gasLeft : ℕ} {q : Asked} (h : askedOf hashes w.storage data gas = .ok (q, gasLeft)) :
    q.Sound := by
  obtain ⟨key, -, hmarket, hactive, hamount⟩ := askedOf_ok h
  have hstatus : (loadMarket w.storage (key.id hashes)).status ≠ .none := by
    rw [← hmarket, hactive]
    decide
  obtain ⟨key', hlisted, -⟩ := hreg.listed hstatus
  have hmin : 0 < minSqrtRatio := by decide
  rw [← hmarket] at hlisted
  exact ⟨lt_of_lt_of_le hmin hlisted.price.1, hlisted.fee.2, hamount⟩

/-- A call of the quoter does not panic, and its answer holds the integers of its
formulas. -/
def QuoteSound (hashes : Hashes) (st : Storage) (blockContext : Bool) (input : List UInt8)
    (gas : ℕ) : Prop :=
  (∀ g, runQuoter hashes st blockContext input gas ≠ .error (.panic, g)) ∧
    ∀ out g, runQuoter hashes st blockContext input gas = .ok (out, g) →
      ∃ exactIn mode q x, quoteKind (bytesToNat (slice input 0 4)) = some (exactIn, mode) ∧
        askedOf hashes st (input.drop 4) gas = .ok (q, g) ∧
        projectSingleTick q.market q.amount q.zeroForOne exactIn = some x ∧
        WordsAre out (q.values x mode)

theorem quote_of_asked {data : List UInt8} {gas gasLeft : ℕ} {q : Asked}
    (h : askedOf hashes st data gas = .ok (q, gasLeft)) (exactIn : Bool) (mode : QuoteMode) :
    quote hashes st data gas exactIn mode = match answer q exactIn mode with
      | none => .error (.panic, 0)
      | some out => .ok (out, gasLeft) := by
  rw [quote, h]
  rfl

/-- In a state of the registry a call of the quoter is sound exactly when what it asks, if
it asks anything, is small enough for the price. -/
theorem quoteSound_iff {w : World} (hreg : Registry hashes w) (blockContext : Bool)
    (input : List UInt8) (gas : ℕ) :
    QuoteSound hashes w.storage blockContext input gas ↔
      (4 ≤ input.length → blockContext = true → ∀ exactIn mode q g,
        quoteKind (bytesToNat (slice input 0 4)) = some (exactIn, mode) →
        askedOf hashes w.storage (input.drop 4) gas = .ok (q, g) → q.Writable exactIn mode) := by
  unfold QuoteSound runQuoter
  by_cases hlen : input.length < 4
  · simp [hlen]
  cases blockContext with
  | false => simp [hlen]
  | true =>
      simp only [if_neg hlen, Bool.not_true, Bool.false_eq_true, if_false, not_lt.mp hlen,
        forall_true_left]
      cases hkind : quoteKind (bytesToNat (slice input 0 4)) with
      | none => simp
      | some kind =>
          obtain ⟨exactIn, mode⟩ := kind
          dsimp only
          have hmode := quoteKind_mode hkind
          cases hasked : askedOf hashes w.storage (input.drop 4) gas with
          | error e =>
              have hquote : quote hashes w.storage (input.drop 4) gas exactIn mode = .error e := by
                rw [quote, hasked]
                rfl
              simp only [hquote, reduceCtorEq, false_implies, implies_true, and_true, iff_true]
              rintro g hpanic
              rw [Except.error.injEq] at hpanic
              exact askedOf_not_panic (hasked.trans (by rw [hpanic]))
          | ok asked =>
              obtain ⟨q, gasLeft⟩ := asked
              obtain ⟨hfits, hover⟩ := answer_spec (hreg.asked_sound hasked) hmode
              rw [quote_of_asked hasked]
              constructor
              · rintro ⟨hpanic, -⟩ exactIn' mode' q' g hkind' hasked'
                cases hkind'
                cases hasked'
                by_contra hwritable
                rw [hover hwritable] at hpanic
                exact hpanic 0 rfl
              · intro hwritable
                obtain ⟨x, out, hx, hanswer, hwords⟩ :=
                  hfits (hwritable exactIn mode q gasLeft rfl rfl)
                rw [hanswer]
                refine ⟨by simp, fun out' g hok => ?_⟩
                cases hok
                exact ⟨exactIn, mode, q, x, rfl, rfl, hx, hwords⟩

end LuxPrecompile.Settle
