import LuxPrecompile.Evm.Bytes
import LuxPrecompile.Settle.Market
import LuxPrecompile.Settle.PositionManager
import LuxPrecompile.Settle.Quoter
import LuxPrecompile.Support.Chunks

/-!
# The router's quotes

The read-only part of `dex/router.go` and `dex/router_module.go`.  A single-hop quote
asks every fee tier of the market registry and lists the best answer, followed by those of
the other venues.  The router and the quoter of `dex/quoter_module.go` project a market in
the same way but write the amount with different encoders: the quoter's aborts on a number
that leaves the word, the router's keeps the upper bytes.
-/

namespace LuxPrecompile.Settle

open Dex Evm Support

/-! ## Quotes -/

/-- `SwapVenue`. -/
inductive SwapVenue
  | v4Native
  | v3
  | v2
  | external
deriving DecidableEq, Repr

def SwapVenue.toByte : SwapVenue → UInt8
  | .v4Native => 0
  | .v3 => 1
  | .v2 => 2
  | .external => 3

/-- `QuoteResult`, with the fields its encoding reads. -/
structure QuoteResult where
  amountOut : ℤ
  venue : SwapVenue
  poolID : Word
  gasEstimate : ℕ
deriving DecidableEq

inductive RouterError
  | outOfGas
  | inputTooShort
  | insufficientLiquidity
deriving DecidableEq, Repr

def gasQuote : ℕ := 5000
def gasRouteLookup : ℕ := 5000
def gasSwap : ℕ := 50000
def gasFillAttestation : ℕ := 30000

/-- The standard fee tiers, in the order they are asked. -/
def standardTiers : List ℕ := [100, 500, 3000, 10000]

/-- The tiers of a quote: a preferred fee comes first. -/
def feeTiers (preferredFee : ℕ) : List ℕ :=
  if 0 < preferredFee then preferredFee :: standardTiers else standardTiers

/-- `tickSpacings`, with its default. -/
def tickSpacingForFee (fee : ℕ) : ℤ :=
  if fee = 100 then 1
  else if fee = 500 then 10
  else if fee = 3000 then 60
  else if fee = 10000 then 200
  else 60

/-- `zeroForOne` of `quoteV4`. -/
def routeDirection (tokenIn tokenOut : Address) : Bool := decide (tokenIn < tokenOut)

/-- The key `quoteV4` asks for a tier. -/
def tierKey (tokenIn tokenOut : Address) (fee : ℕ) : PoolKey :=
  if tokenIn < tokenOut then ⟨tokenIn, tokenOut, fee, tickSpacingForFee fee, 0⟩
  else ⟨tokenOut, tokenIn, fee, tickSpacingForFee fee, 0⟩

/-- What `quoteV4` has found so far. -/
structure Pick where
  amount : ℤ
  poolID : Word
  key : PoolKey
deriving DecidableEq

/-- One round of the loop of `quoteV4`. -/
def askTier (hashes : Hashes) (st : Storage) (tokenIn tokenOut : Address) (amountIn : ℕ)
    (best : Option Pick) (fee : ℕ) : Option Pick :=
  let key := tierKey tokenIn tokenOut fee
  match marketFor hashes st key with
  | none => best
  | some poolID =>
      let output := spotOutputFeeAdjusted (loadMarket st poolID) amountIn
        (routeDirection tokenIn tokenOut)
      if 0 < output ∧ ∀ b ∈ best, b.amount < output then some ⟨output, poolID, key⟩ else best

/-- `quoteV4`; `none` is `ErrPoolNotFound`. -/
def quoteV4 (hashes : Hashes) (st : Storage) (tokenIn tokenOut : Address) (amountIn : ℕ)
    (preferredFee : ℕ) : Option Pick :=
  (feeTiers preferredFee).foldl (askTier hashes st tokenIn tokenOut amountIn) none

/-- What the venues outside the market registry answer: the constant-product pool of the
pair, and the registered quoters with their ids. -/
structure OtherVenues where
  v2 : Option ℤ
  external : List (Option ℤ × Word)

/-- The results of the other venues; a deployment of `quoteV3` is not there to ask. -/
def OtherVenues.results (others : OtherVenues) : List QuoteResult :=
  (others.v2.toList.filter (0 < ·)).map (fun a => ⟨a, .v2, 0, 100000⟩) ++
    others.external.filterMap fun v => do
      let amount ← v.1
      if 0 < amount then some ⟨amount, .external, v.2, gasFillAttestation⟩ else none

def quoteExactInputSingle (hashes : Hashes) (st : Storage) (others : OtherVenues)
    (tokenIn tokenOut : Address) (amountIn fee : ℕ) : Except RouterError (List QuoteResult) :=
  let v4 := (quoteV4 hashes st tokenIn tokenOut amountIn fee).toList.map
    fun p => ⟨p.amount, .v4Native, p.poolID, gasSwap⟩
  let results := v4 ++ others.results
  if results.isEmpty then .error .insufficientLiquidity else .ok results

/-- The loop of `GetBestRoute`: the first of the largest amounts. -/
def bestResult (results : List QuoteResult) : Option QuoteResult :=
  results.foldl (fun best r => if ∀ b ∈ best, b.amountOut < r.amountOut then some r else best)
    none

/-- `LXRouter.GetBestRoute`; there is a best one, as there is no empty list of results. -/
def getBestRoute (hashes : Hashes) (st : Storage) (others : OtherVenues)
    (tokenIn tokenOut : Address) (amountIn : ℕ) : Except RouterError (List QuoteResult) := do
  let results ← quoteExactInputSingle hashes st others tokenIn tokenOut amountIn 0
  .ok (bestResult results).toList

/-! ## The wire -/

/-- What `DecodeQuoteParams` reads. -/
structure QuoteParams where
  tokenIn : Address
  tokenOut : Address
  amountIn : ℕ
  fee : ℕ
deriving DecidableEq

def decodeQuoteParams (input : List UInt8) : Except RouterError QuoteParams :=
  if input.length < 72 then .error .inputTooShort
  else
    .ok { tokenIn := bytesToAddress (slice input 0 20)
          tokenOut := bytesToAddress (slice input 20 40)
          amountIn := bytesToNat (slice input 40 72)
          fee := if 75 ≤ input.length then bytesToNat (slice input 72 75) else 0 }

/-- One entry of `EncodeQuoteResults`: 73 bytes. -/
def encodeQuoteResult (r : QuoteResult) : List UInt8 :=
  r.venue.toByte :: ((leftPadBytes (bigBytes r.amountOut.natAbs) 32).take 32 ++
    (hashBytes r.poolID ++ natToBytes 8 r.gasEstimate))

def encodeQuoteResults (results : List QuoteResult) : List UInt8 :=
  UInt8.ofNat results.length :: results.flatMap encodeQuoteResult

/-- `runQuoteExactInputSingle`; an error leaves gas. -/
def runQuoteExactInputSingle (hashes : Hashes) (st : Storage) (others : OtherVenues)
    (input : List UInt8) (gas : ℕ) : Except (RouterError × ℕ) (List UInt8 × ℕ) :=
  if gas < gasQuote then .error (.outOfGas, 0)
  else do
    let p ← (decodeQuoteParams input).mapError (·, gas - gasQuote)
    let results ← (quoteExactInputSingle hashes st others p.tokenIn p.tokenOut p.amountIn
      p.fee).mapError (·, gas - gasQuote)
    .ok (encodeQuoteResults results, gas - gasQuote)

def runGetBestRoute (hashes : Hashes) (st : Storage) (others : OtherVenues)
    (input : List UInt8) (gas : ℕ) : Except (RouterError × ℕ) (List UInt8 × ℕ) :=
  if gas < gasRouteLookup then .error (.outOfGas, 0)
  else do
    let p ← (decodeQuoteParams input).mapError (·, gas - gasRouteLookup)
    let results ← (getBestRoute hashes st others p.tokenIn p.tokenOut p.amountIn).mapError
      (·, gas - gasRouteLookup)
    .ok (encodeQuoteResults results, gas - gasRouteLookup)

end LuxPrecompile.Settle
