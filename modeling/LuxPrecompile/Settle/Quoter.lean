import LuxPrecompile.Settle.Contract

/-!
# The read-only quoter

`dex/quoter_module.go`, the view at `0x9998`.  A quote reads the registered price of a
market and writes nothing.  For a given input it answers the output after the fee; for a
wanted output it answers the input.  Amounts are `big.Int`s and may leave the word; the
encoders of the answer then abort the process, which is an error of its own here.
-/

namespace LuxPrecompile.Settle

open Evm Support

/-- The errors of the quoter, and a Go panic. -/
inductive QuoterError
  | inputTooShort
  | noBlockContext
  | unknownSelector (selector : ℕ)
  | outOfGas
  | badInput
  /-- A refusal of the pool key. -/
  | poolKey (e : Error)
  | zeroAmount
  | noMarket
  | panic
deriving DecidableEq, Repr

/-! ## Prices and fees -/

def feeDenominator : ℤ := 1000000

/-- `UnsafeDivRoundingUp` on integers of either sign; `none` is a zero divisor. -/
def bigDivRoundingUp (x y : ℤ) : Option ℤ :=
  if y = 0 then none else some (if 0 < x % y then x / y + 1 else x / y)

def feeOnInput (amount : ℤ) (feePips : ℕ) : ℤ := amount * feePips / feeDenominator

/-- `spotOutput`: the output at the registered price, without a fee. -/
def spotOutput (rec : MarketRecord) (amount : ℤ) (zeroForOne : Bool) : ℤ :=
  if rec.sqrtPriceX96 = 0 then 0
  else
    let sq : ℤ := rec.sqrtPriceX96 * rec.sqrtPriceX96
    if zeroForOne then amount * sq / 2 ^ 192 else amount * 2 ^ 192 / sq

def spotOutputFeeAdjusted (rec : MarketRecord) (amount : ℤ) (zeroForOne : Bool) : ℤ :=
  spotOutput rec (amount - feeOnInput amount rec.fee) zeroForOne

/-- The input `spotInputForOutput` needs after the fee. -/
def netForOutput (rec : MarketRecord) (amountOut : ℤ) (zeroForOne : Bool) : Option ℤ :=
  let sq : ℤ := rec.sqrtPriceX96 * rec.sqrtPriceX96
  if zeroForOne then bigDivRoundingUp (amountOut * 2 ^ 192) sq
  else bigDivRoundingUp (amountOut * sq) (2 ^ 192)

/-- `spotInputForOutput`: every division rounds up. -/
def spotInputForOutput (rec : MarketRecord) (amountOut : ℤ) (zeroForOne : Bool) : Option ℤ :=
  if amountOut ≤ 0 ∨ rec.sqrtPriceX96 = 0 then some 0
  else do
    let net ← netForOutput rec amountOut zeroForOne
    bigDivRoundingUp ((net - 1) * feeDenominator + 1) (feeDenominator - rec.fee)

def projectSingleTick (rec : MarketRecord) (amount : ℤ) (zeroForOne exactIn : Bool) :
    Option ℤ :=
  if exactIn then some (spotOutputFeeAdjusted rec amount zeroForOne)
  else spotInputForOutput rec amount zeroForOne

/-! ## Encoders -/

/-- `FillBytes` into 32 bytes; `none` is its panic. -/
def fillWord (x : ℤ) : Option (List UInt8) :=
  if x.natAbs < 2 ^ 256 then some (natToBytes 32 x.natAbs) else none

/-- The word the two encoders write for a positive number, and leave zero otherwise. -/
def positiveWord (x : ℤ) : Option (List UInt8) :=
  if 0 < x then fillWord x else some (List.replicate 32 0)

def encodeTwoWords (a b : ℤ) : Option (List UInt8) := do
  let x ← positiveWord a
  let y ← positiveWord b
  some (x ++ y)

def encodeWordAndBool (a : ℤ) (flag : Bool) : Option (List UInt8) := do
  let x ← positiveWord a
  some (x ++ natToBytes 32 (if flag then 1 else 0))

/-! ## The view -/

/-- `quoteMode`. -/
inductive QuoteMode
  | plain
  | book
  | depth
  | fees
  | slippage
deriving DecidableEq, Repr

def gasQuoteView : ℕ := 3000

/-- What a quote asks: a registered market, an amount and a direction. -/
structure Asked where
  market : MarketRecord
  amount : ℕ
  zeroForOne : Bool
deriving DecidableEq

/-- The part of `quote` that reads the arguments and the market; an error leaves gas. -/
def askedOf (hashes : Hashes) (st : Storage) (data : List UInt8) (gas : ℕ) :
    Except (QuoterError × ℕ) (Asked × ℕ) :=
  if gas < gasQuoteView then .error (.outOfGas, 0)
  else
    let gasLeft := gas - gasQuoteView
    if data.length < 160 + 32 + 32 then .error (.badInput, gasLeft)
    else
      match decodePoolKey (slice data 0 160) with
      | .error e => .error (.poolKey e, gasLeft)
      | .ok key =>
          let amount := (argWord data 160).toNat
          if amount = 0 then .error (.zeroAmount, gasLeft)
          else
            let market := loadMarket st (key.id hashes)
            if market.status ≠ .active then .error (.noMarket, gasLeft)
            else .ok (⟨market, amount, decide (data.getD 223 0 = 1)⟩, gasLeft)

/-- The part of `quote` that computes and encodes the answer. -/
def answer (q : Asked) (exactIn : Bool) (mode : QuoteMode) : Option (List UInt8) := do
  let amountOut ← projectSingleTick q.market q.amount q.zeroForOne exactIn
  let feeAmount := feeOnInput q.amount q.market.fee
  match mode with
  | .fees => encodeTwoWords amountOut feeAmount
  | .depth => encodeWordAndBool amountOut false
  | .slippage => encodeTwoWords amountOut (spotOutput q.market q.amount q.zeroForOne)
  | .plain | .book => fillWord amountOut

def quote (hashes : Hashes) (st : Storage) (data : List UInt8) (gas : ℕ) (exactIn : Bool)
    (mode : QuoteMode) : Except (QuoterError × ℕ) (List UInt8 × ℕ) := do
  let (q, gasLeft) ← askedOf hashes st data gas
  match answer q exactIn mode with
  | none => .error (.panic, 0)
  | some out => .ok (out, gasLeft)

def selQExactInputSingle : ℕ := 0xf6f3c6d7
def selQExactOutputSingle : ℕ := 0xa95111fd
def selQExactInput : ℕ := 0xb02ffe49
def selQExactOutput : ℕ := 0xae379097
def selQAgainstBook : ℕ := 0xfc1c3094
def selQWithDepth : ℕ := 0x90c45007
def selQWithFees : ℕ := 0x6f8d2628
def selQWithSlippage : ℕ := 0x4e6e4c81

/-- The question a selector of the quoter stands for. -/
def quoteKind (selector : ℕ) : Option (Bool × QuoteMode) :=
  if selector = selQExactInput ∨ selector = selQExactInputSingle then some (true, .plain)
  else if selector = selQExactOutput ∨ selector = selQExactOutputSingle then
    some (false, .plain)
  else if selector = selQAgainstBook then some (true, .book)
  else if selector = selQWithDepth then some (true, .depth)
  else if selector = selQWithFees then some (true, .fees)
  else if selector = selQWithSlippage then some (true, .slippage)
  else none

/-- `Run` of the quoter. -/
def runQuoter (hashes : Hashes) (st : Storage) (blockContext : Bool) (input : List UInt8)
    (gas : ℕ) : Except (QuoterError × ℕ) (List UInt8 × ℕ) :=
  if input.length < 4 then .error (.inputTooShort, gas)
  else if !blockContext then .error (.noBlockContext, gas)
  else
    let selector := bytesToNat (slice input 0 4)
    match quoteKind selector with
    | none => .error (.unknownSelector selector, gas)
    | some (exactIn, mode) => quote hashes st (input.drop 4) gas exactIn mode

/-! ## The two directions are inverse -/

/-- Rounding up is the least integer whose product with the divisor reaches the dividend. -/
theorem bigDivRoundingUp_spec {x y q : ℤ} (hy : 0 < y) (h : bigDivRoundingUp x y = some q) :
    ∀ k, q ≤ k ↔ x ≤ k * y := by
  rw [bigDivRoundingUp, if_neg hy.ne', Option.some.injEq] at h
  have hmod := Int.emod_nonneg x hy.ne'
  have hlt := Int.emod_lt_of_pos x hy
  have hdiv := Int.mul_ediv_add_emod x y
  intro k
  rw [← h]
  constructor
  · intro hk
    split_ifs at hk with hrest
    · nlinarith
    · nlinarith
  · intro hk
    split_ifs with hrest
    · have hquotient : x / y < k := by
        by_contra hge
        nlinarith
      omega
    · have hquotient : x / y < k + 1 := by
        by_contra hge
        nlinarith
      omega

theorem bigDivRoundingUp_isSome {x y : ℤ} (hy : 0 < y) : ∃ q, bigDivRoundingUp x y = some q := by
  rw [bigDivRoundingUp, if_neg hy.ne']
  exact ⟨_, rfl⟩

section Spot

variable {rec : MarketRecord}

/-- The price of an input in a direction, as a fraction: its numerator. -/
def MarketRecord.priceNum (rec : MarketRecord) (zeroForOne : Bool) : ℤ :=
  if zeroForOne then rec.sqrtPriceX96 * rec.sqrtPriceX96 else 2 ^ 192

/-- Its denominator. -/
def MarketRecord.priceDen (rec : MarketRecord) (zeroForOne : Bool) : ℤ :=
  if zeroForOne then 2 ^ 192 else rec.sqrtPriceX96 * rec.sqrtPriceX96

theorem priceDen_pos (hprice : 0 < rec.sqrtPriceX96) (zeroForOne : Bool) :
    0 < rec.priceDen zeroForOne := by
  have hcast : (0 : ℤ) < rec.sqrtPriceX96 := by exact_mod_cast hprice
  unfold MarketRecord.priceDen
  split_ifs
  · norm_num
  · exact Int.mul_pos hcast hcast

theorem priceNum_pos (hprice : 0 < rec.sqrtPriceX96) (zeroForOne : Bool) :
    0 < rec.priceNum zeroForOne := by
  have hcast : (0 : ℤ) < rec.sqrtPriceX96 := by exact_mod_cast hprice
  unfold MarketRecord.priceNum
  split_ifs
  · exact Int.mul_pos hcast hcast
  · norm_num

theorem spotOutput_eq (hprice : 0 < rec.sqrtPriceX96) (amount : ℤ) (zeroForOne : Bool) :
    spotOutput rec amount zeroForOne =
      amount * rec.priceNum zeroForOne / rec.priceDen zeroForOne := by
  rw [spotOutput, if_neg (by omega)]
  cases zeroForOne with
  | true => rfl
  | false => rfl

theorem le_spotOutput_iff (hprice : 0 < rec.sqrtPriceX96) (k amount : ℤ) (zeroForOne : Bool) :
    k ≤ spotOutput rec amount zeroForOne ↔
      k * rec.priceDen zeroForOne ≤ amount * rec.priceNum zeroForOne := by
  rw [spotOutput_eq hprice, Int.le_ediv_iff_mul_le (priceDen_pos hprice zeroForOne)]

/-- What is left of an input after the fee reaches an amount exactly when the input, less
the fee as a fraction, comes within one unit of it. -/
theorem le_net_iff {fee : ℕ} (k amount : ℤ) :
    k ≤ amount - feeOnInput amount fee ↔
      (k - 1) * feeDenominator + 1 ≤ amount * (feeDenominator - fee) := by
  have hden : (0 : ℤ) < feeDenominator := by decide
  have hfee : feeOnInput amount fee < amount - k + 1 ↔
      amount * fee < (amount - k + 1) * feeDenominator := by
    rw [feeOnInput, Int.ediv_lt_iff_lt_mul hden]
  constructor
  · intro h
    have hlt := hfee.mp (by omega)
    linarith
  · intro h
    have hlt := hfee.mpr (by linarith)
    omega

theorem netForOutput_spec (hprice : 0 < rec.sqrtPriceX96) (amountOut : ℤ)
    (zeroForOne : Bool) :
    ∃ net, netForOutput rec amountOut zeroForOne = some net ∧
      ∀ k, net ≤ k ↔ amountOut ≤ spotOutput rec k zeroForOne := by
  have hnum := priceNum_pos hprice zeroForOne
  obtain ⟨net, hnet⟩ := bigDivRoundingUp_isSome (x := amountOut * rec.priceDen zeroForOne) hnum
  refine ⟨net, ?_, fun k => ?_⟩
  · cases zeroForOne with
    | true => exact hnet
    | false => exact hnet
  · rw [bigDivRoundingUp_spec hnum hnet, le_spotOutput_iff hprice]

theorem fee_lt_denominator (hfee : rec.fee ≤ feeMax) : (rec.fee : ℤ) < feeDenominator := by
  unfold feeMax at hfee
  unfold feeDenominator
  omega

theorem spotOutputFeeAdjusted_zero (hprice : 0 < rec.sqrtPriceX96) (zeroForOne : Bool) :
    spotOutputFeeAdjusted rec 0 zeroForOne = 0 := by
  rw [spotOutputFeeAdjusted, feeOnInput, spotOutput_eq hprice]
  simp

/-- For a positive output the quoted input and the output bought by an input are adjoint. -/
theorem spotInputForOutput_spec (hprice : 0 < rec.sqrtPriceX96) (hfee : rec.fee ≤ feeMax)
    {amountOut : ℤ} (hout : 0 < amountOut) (zeroForOne : Bool) :
    ∃ x, spotInputForOutput rec amountOut zeroForOne = some x ∧ 0 < x ∧
      ∀ y, x ≤ y ↔ amountOut ≤ spotOutputFeeAdjusted rec y zeroForOne := by
  have hdecide : ¬(amountOut ≤ 0 ∨ rec.sqrtPriceX96 = 0) := by omega
  obtain ⟨net, hnet, hnetSpec⟩ := netForOutput_spec hprice amountOut zeroForOne
  have hden : 0 < feeDenominator - (rec.fee : ℤ) := by
    have hlt := fee_lt_denominator hfee
    omega
  obtain ⟨x, hx⟩ := bigDivRoundingUp_isSome (x := (net - 1) * feeDenominator + 1) hden
  have hspec : ∀ y, x ≤ y ↔ amountOut ≤ spotOutputFeeAdjusted rec y zeroForOne := by
    intro y
    rw [bigDivRoundingUp_spec hden hx, ← le_net_iff, hnetSpec]
    rfl
  refine ⟨x, ?_, ?_, hspec⟩
  · simp only [spotInputForOutput, if_neg hdecide, hnet, Option.bind_eq_bind, Option.bind_some]
    exact hx
  · by_contra hneg
    have hbuys := (hspec 0).mp (by omega)
    rw [spotOutputFeeAdjusted_zero hprice] at hbuys
    omega

/-- The quoted input for an output is the least one that buys it, at every price and fee a
market admits, in both directions and for every output. -/
theorem spotInputForOutput_least (hprice : 0 < rec.sqrtPriceX96) (hfee : rec.fee ≤ feeMax)
    (amountOut : ℤ) (zeroForOne : Bool) :
    ∃ x, spotInputForOutput rec amountOut zeroForOne = some x ∧
      IsLeast {y | 0 ≤ y ∧ amountOut ≤ spotOutputFeeAdjusted rec y zeroForOne} x := by
  by_cases hout : 0 < amountOut
  · obtain ⟨x, hx, hpos, hspec⟩ := spotInputForOutput_spec hprice hfee hout zeroForOne
    exact ⟨x, hx, ⟨hpos.le, (hspec x).mp le_rfl⟩, fun y hy => (hspec y).mpr hy.2⟩
  · have hanswer : spotInputForOutput rec amountOut zeroForOne = some 0 :=
      if_pos (Or.inl (not_lt.mp hout))
    refine ⟨0, hanswer, ⟨le_rfl, ?_⟩, fun y hy => hy.1⟩
    rw [spotOutputFeeAdjusted_zero hprice]
    exact not_lt.mp hout

theorem spotInputForOutput_least_unitPrice :
    ∃ x, spotInputForOutput { MarketRecord.zero with
          sqrtPriceX96 := 2 ^ 96, fee := 3000 } 1000 true = some x ∧
      IsLeast {y | 0 ≤ y ∧ 1000 ≤ spotOutputFeeAdjusted { MarketRecord.zero with
          sqrtPriceX96 := 2 ^ 96, fee := 3000 } y true} x :=
  spotInputForOutput_least (by decide) (by decide) 1000 true

end Spot

end LuxPrecompile.Settle
