import LuxPrecompile.Settle.State

/-!
# Calldata, hook data and cross-chain objects

The decoders of `dex/module.go`, the phase tags of `dex/settle_hookdata.go`, the
60-byte funding claim of `dex/native_wire.go` and the identifiers hashed from
them.
-/

namespace LuxPrecompile.Settle

open Evm

/-! ## Pool keys -/

/-- `PoolKey`. -/
structure PoolKey where
  currency0 : Address
  currency1 : Address
  fee : ℕ
  tickSpacing : ℤ
  hooks : Address
deriving DecidableEq

/-- `common.BytesToAddress` of the argument word at an offset. -/
def argAddress (data : List UInt8) (i : ℕ) : Address := wordAddress (argWord data i)

/-- `decodeSigned256` of the argument word at an offset. -/
def argSigned (data : List UInt8) (i : ℕ) : ℤ := wordToInt (argWord data i)

/-- `contract.Signed` for 24 bits. -/
def fitsInt24 (x : ℤ) : Bool := decide (-2 ^ 23 ≤ x ∧ x < 2 ^ 23)

def decodePoolKey (data : List UInt8) : Except Error PoolKey :=
  if data.length < 160 then .error .shortArguments
  else if 2 ^ 24 ≤ (argWord data 64).toNat then .error .invalidFee
  else if !fitsInt24 (argSigned data 96) then .error .invalidTickSpacing
  else
    .ok { currency0 := argAddress data 0
          currency1 := argAddress data 32
          fee := (argWord data 64).toNat
          tickSpacing := argSigned data 96
          hooks := argAddress data 128 }

def encodePoolKeyABI (key : PoolKey) : List UInt8 :=
  hashBytes (addressWord key.currency0) ++ hashBytes (addressWord key.currency1) ++
    (List.replicate 29 0 ++ natToBytes 3 key.fee) ++
    (List.replicate 29 (if key.tickSpacing < 0 then 0xff else 0) ++ putInt24 key.tickSpacing) ++
    hashBytes (addressWord key.hooks)

def PoolKey.id (hashes : Hashes) (key : PoolKey) : Word :=
  hashes.keccak256 (encodePoolKeyABI key)

def currenciesSorted (c0 c1 : Address) : Bool := decide (c0 < c1)

/-! ## Dynamic bytes -/

/-- `decodeABIBytes`: the bytes behind the offset word at `offsetPos`; empty where
the encoding is malformed. -/
def decodeABIBytes (args : List UInt8) (offsetPos : ℕ) : List UInt8 :=
  if args.length < offsetPos + 32 then []
  else
    let absOffset := (argWord args offsetPos).toNat
    if 2 ^ 63 ≤ absOffset then []
    else if absOffset < offsetPos + 32 then []
    else if args.length < absOffset + 32 then []
    else
      let length := (argWord args absOffset).toNat
      if 2 ^ 63 ≤ length then []
      else if args.length < absOffset + 32 + length then []
      else slice args (absOffset + 32) (absOffset + 32 + length)

/-! ## Swaps -/

/-- `SwapParams`; the price limit is decoded by the source and read by no path of
the settlement precompile. -/
structure SwapParams where
  zeroForOne : Bool
  amountSpecified : ℤ
deriving DecidableEq

def decodeSwapInput (input : List UInt8) :
    Except Error (PoolKey × SwapParams × List UInt8) := do
  if input.length < 256 then .error .shortArguments
  else do
    let key ← decodePoolKey (slice input 0 160)
    .ok (key,
      { zeroForOne := decide (input.getD 191 0 = 1)
        amountSpecified := argSigned input 192 },
      if 256 < input.length then decodeABIBytes input 256 else [])

/-- `swapAssetDirection`: the asset that goes in and the asset that comes out. -/
def swapAssetDirection (key : PoolKey) (params : SwapParams) : Word × Word :=
  if params.zeroForOne then (assetID key.currency0, assetID key.currency1)
  else (assetID key.currency1, assetID key.currency0)

/-- The two phases of a swap. -/
inductive SwapPhase
  | order
  | settlement
deriving DecidableEq

def orderPhaseTag : List UInt8 := ascii ['D', 'I', '0', '1']
def settlementPhaseTag : List UInt8 := ascii ['D', 'S', '0', '2']
def retiredSettlementTag : List UInt8 := ascii ['D', 'S', '0', '1']

/-- `decodeSwapPhase`: the phase and, behind a known tag, its body. -/
def decodeSwapPhase (hookData : List UInt8) : Except Error (SwapPhase × List UInt8) :=
  if hookData.length < 4 then .ok (.order, [])
  else if hookData.take 4 = orderPhaseTag then .ok (.order, hookData.drop 4)
  else if hookData.take 4 = settlementPhaseTag then .ok (.settlement, hookData.drop 4)
  else if hookData.take 4 = retiredSettlementTag then .error .retiredSwapPhase
  else .ok (.order, [])

/-! ## Positions -/

/-- `ModifyLiquidityParams`. -/
structure ModifyLiquidityParams where
  tickLower : ℤ
  tickUpper : ℤ
  liquidityDelta : ℤ
  salt : Word
deriving DecidableEq

def decodeModifyLiquidityInput (input : List UInt8) :
    Except Error (PoolKey × ModifyLiquidityParams × List UInt8) := do
  if input.length < 288 then .error .shortArguments
  else do
    let key ← decodePoolKey (slice input 0 160)
    if !fitsInt24 (argSigned input 160) then .error .invalidTick
    else if !fitsInt24 (argSigned input 192) then .error .invalidTick
    else
      .ok (key,
        { tickLower := argSigned input 160
          tickUpper := argSigned input 192
          liquidityDelta := argSigned input 224
          salt := argWord input 256 },
        if 288 < input.length then decodeABIBytes input 288 else [])

def makerEnvelopeTag : List UInt8 := ascii ['M', '9', '9', '9']

def decodeMakerSide (hookData : List UInt8) : MakerSide :=
  if 5 ≤ hookData.length ∧ hookData.take 4 = makerEnvelopeTag ∧ hookData.getD 4 0 = 1 then
    .ask
  else .bid

def lockedAssetForSide (key : PoolKey) (side : MakerSide) : Word :=
  if side = .ask then assetID key.currency1 else assetID key.currency0

/-- The bytes `MakerOrderID` hashes. -/
def makerOrderBytes (owner : Address) (poolID salt : Word) (tickLower tickUpper : ℤ) :
    List UInt8 :=
  natToBytes 20 owner ++ hashBytes poolID ++ hashBytes salt ++ putInt24 tickLower ++
    putInt24 tickUpper

def makerOrderID (hashes : Hashes) (owner : Address) (poolID salt : Word)
    (tickLower tickUpper : ℤ) : Word :=
  hashes.keccak256 (makerOrderBytes owner poolID salt tickLower tickUpper)

/-! ## Claims -/

def claimSize : ℕ := 60

/-- What a funding claim carries. -/
structure ClaimBody where
  beneficiary : Address
  asset : Word
  amount : UInt64
deriving DecidableEq

def encodeClaim (body : ClaimBody) : List UInt8 :=
  natToBytes 20 body.beneficiary ++ hashBytes body.asset ++ natToBytes 8 body.amount.toNat

def decodeClaim (v : List UInt8) : Option ClaimBody :=
  if v.length ≠ claimSize then none
  else
    some { beneficiary := bytesToAddress (slice v 0 20)
           asset := bytesToHash (slice v 20 52)
           amount := UInt64.ofNat (bytesToNat (slice v 52 60)) }

/-- `claimDomain`, "lux.dex.claim.v1". -/
def claimDomain : List UInt8 :=
  ascii ['l', 'u', 'x', '.', 'd', 'e', 'x', '.', 'c', 'l', 'a', 'i', 'm', '.', 'v', '1']

def deriveClaimID (hashes : Hashes) (source dest sourceTx : Word) (index : UInt32) : Word :=
  hashes.sha256 (claimDomain ++ hashBytes source ++ hashBytes dest ++ hashBytes sourceTx ++
    natToBytes 4 index.toNat)

/-- `exportedObjectHashDomain`, "lux.dex.native.import.object.v2". -/
def exportedObjectHashDomain : List UInt8 :=
  ascii ['l', 'u', 'x', '.', 'd', 'e', 'x', '.', 'n', 'a', 't', 'i', 'v', 'e', '.', 'i', 'm',
    'p', 'o', 'r', 't', '.', 'o', 'b', 'j', 'e', 'c', 't', '.', 'v', '2']

def settleObjectHash (hashes : Hashes) (object : List UInt8) : Word :=
  hashes.keccak256 (exportedObjectHashDomain ++ object)

end LuxPrecompile.Settle
