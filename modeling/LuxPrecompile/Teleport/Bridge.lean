import LuxPrecompile.Evm.Bytes

/-!
# The teleport bridge

`dex/teleport.go`.  A transfer is initiated on its source chain, burned there and
completed, or cancelled by its sender before the burn.  The locked total of a token is
a field of the token's configuration.
-/

namespace LuxPrecompile.Teleport

open Evm

/-- The errors of the calls below. -/
inductive Error
  | invalidChainID
  | tokenNotSupported
  | belowMinimum
  | exceedsLimit
  | duplicateTeleportID
  | teleportNotFound
  | invalidTeleportState
  | insufficientSignatures
  | invalidWarpSignature
  | unauthorized
  | cannotCancel
deriving DecidableEq, Repr

/-- `TeleportStatus`. -/
inductive TeleportStatus
  | pending
  | burned
  | validated
  | minted
  | failed
deriving DecidableEq, Repr

/-- `TeleportRequest`. -/
structure TeleportRequest where
  sourceChain : UInt32
  destChain : UInt32
  sender : Address
  recipient : Address
  token : Address
  amount : ℤ
  status : TeleportStatus
deriving DecidableEq

/-- `BridgedToken`. -/
structure BridgedToken where
  singleTxLimit : ℤ
  minAmount : ℤ
  isPaused : Bool
  totalLocked : ℤ
deriving DecidableEq

/-- `TeleportBridge`. -/
structure TeleportBridge where
  pendingTeleports : Word → Option TeleportRequest
  completedTeleports : Word → Bool
  supportedTokens : UInt32 → Address → Option BridgedToken
  threshold : UInt32
  totalFees : ℤ

/-! ## Constants -/

def feeRate : ℤ := 30
def minFee : ℤ := 10 ^ 15
def maxFee : ℤ := 10 ^ 20

/-- The chains of `isChainSupported`. -/
def supportedChains : List UInt32 :=
  [96369, 36963, 200200, 1, 42161, 10, 8453, 137, 56, 43114]

def newTeleportBridge (threshold : UInt32) : TeleportBridge where
  pendingTeleports _ := none
  completedTeleports _ := false
  supportedTokens _ _ := none
  threshold := threshold
  totalFees := 0

/-! ## Helpers -/

def calculateFee (amount : ℤ) : ℤ :=
  let fee := amount * feeRate / 10000
  if fee < minFee then minFee
  else if maxFee < fee then maxFee
  else fee

/-- `big.Int.Bytes`: the magnitude without leading zeros. -/
def bigBytes (v : ℤ) : List UInt8 := natToBytes ((v.natAbs.size + 7) / 8) v.natAbs

/-- What a teleport is asked to move, and the time in nanoseconds. -/
structure Initiation where
  sender : Address
  destChain : UInt32
  recipient : Address
  token : Address
  amount : ℤ
  sourceChain : UInt32
  nanos : UInt64
deriving DecidableEq

/-- The bridge with another request under an id. -/
def TeleportBridge.setPending (tb : TeleportBridge) (id : Word)
    (request : Option TeleportRequest) : TeleportBridge :=
  { tb with pendingTeleports := Function.update tb.pendingTeleports id request }

/-- The bridge with another configuration of a token. -/
def TeleportBridge.setToken (tb : TeleportBridge) (chain : UInt32) (token : Address)
    (config : BridgedToken) : TeleportBridge :=
  { tb with
    supportedTokens := Function.update tb.supportedTokens chain
      (Function.update (tb.supportedTokens chain) token (some config)) }

/-- The configuration with another locked total. -/
def BridgedToken.lock (config : BridgedToken) (amount : ℤ) : BridgedToken :=
  { config with totalLocked := config.totalLocked + amount }

namespace TeleportBridge

variable (tb : TeleportBridge) (id : Word) (request : Option TeleportRequest)
  (chain : UInt32) (token : Address) (config : BridgedToken)

@[simp]
theorem setPending_pendingTeleports : (tb.setPending id request).pendingTeleports =
    Function.update tb.pendingTeleports id request := rfl

@[simp]
theorem setPending_completedTeleports :
    (tb.setPending id request).completedTeleports = tb.completedTeleports := rfl

@[simp]
theorem setPending_supportedTokens :
    (tb.setPending id request).supportedTokens = tb.supportedTokens := rfl

@[simp]
theorem setToken_pendingTeleports :
    (tb.setToken chain token config).pendingTeleports = tb.pendingTeleports := rfl

@[simp]
theorem setToken_completedTeleports :
    (tb.setToken chain token config).completedTeleports = tb.completedTeleports := rfl

theorem setToken_supportedTokens (chain' : UInt32) (token' : Address) :
    (tb.setToken chain token config).supportedTokens chain' token' =
      if chain' = chain ∧ token' = token then some config
      else tb.supportedTokens chain' token' := by
  by_cases hchain : chain' = chain
  · subst hchain
    by_cases htoken : token' = token <;> simp [setToken, htoken]
  · simp [setToken, hchain]

end TeleportBridge

section Operations

variable (blake3 : List UInt8 → Word)

def generateTeleportID (i : Initiation) : Word :=
  blake3 (addressBytes i.sender ++ (uint32Bytes i.destChain ++ (addressBytes i.recipient ++
    (addressBytes i.token ++ (bigBytes i.amount ++ uint64Bytes i.nanos)))))

/-! ## Operations -/

/-- The checks of `InitiateTeleport`, and the configuration it finds. -/
def checkInitiation (tb : TeleportBridge) (i : Initiation) : Except Error BridgedToken :=
  if i.destChain ∉ supportedChains then .error .invalidChainID
  else
    match tb.supportedTokens i.sourceChain i.token with
    | none => .error .tokenNotSupported
    | some config =>
        let id := generateTeleportID blake3 i
        if config.isPaused then .error .tokenNotSupported
        else if i.amount < config.minAmount then .error .belowMinimum
        else if config.singleTxLimit < i.amount then .error .exceedsLimit
        else if tb.pendingTeleports id ≠ none then .error .duplicateTeleportID
        else if tb.completedTeleports id then .error .duplicateTeleportID
        else .ok config

/-- The request of a teleport. -/
def Initiation.request (i : Initiation) : TeleportRequest where
  sourceChain := i.sourceChain
  destChain := i.destChain
  sender := i.sender
  recipient := i.recipient
  token := i.token
  amount := i.amount - calculateFee i.amount
  status := .pending

def initiateTeleport (tb : TeleportBridge) (i : Initiation) : Except Error TeleportBridge := do
  let config ← checkInitiation blake3 tb i
  let tb := tb.setPending (generateTeleportID blake3 i) (some i.request)
  let tb := tb.setToken i.sourceChain i.token (config.lock i.request.amount)
  return { tb with totalFees := tb.totalFees + calculateFee i.amount }

end Operations

/-- `CompleteTeleport`, of a message and a number of signatures. -/
def completeTeleport (tb : TeleportBridge) (id : Word) (warpMessage : List UInt8)
    (signatures : List (List UInt8)) : Except Error TeleportBridge :=
  match tb.pendingTeleports id with
  | none => .error .teleportNotFound
  | some request =>
      if request.status ≠ .burned then .error .invalidTeleportState
      else if UInt32.ofNat signatures.length < tb.threshold then .error .insufficientSignatures
      else if warpMessage = [] then .error .invalidWarpSignature
      else
        let tb := tb.setPending id none
        .ok { tb with completedTeleports := Function.update tb.completedTeleports id true }

def burnForTeleport (tb : TeleportBridge) (id : Word) : Except Error TeleportBridge :=
  match tb.pendingTeleports id with
  | none => .error .teleportNotFound
  | some request =>
      if request.status ≠ .pending then .error .invalidTeleportState
      else .ok (tb.setPending id (some { request with status := .burned }))

def cancelTeleport (tb : TeleportBridge) (sender : Address) (id : Word) :
    Except Error TeleportBridge :=
  match tb.pendingTeleports id with
  | none => .error .teleportNotFound
  | some request =>
      if request.sender ≠ sender then .error .unauthorized
      else if request.status ≠ .pending then .error .cannotCancel
      else
        let tb :=
          match tb.supportedTokens request.sourceChain request.token with
          | none => tb
          | some config =>
              tb.setToken request.sourceChain request.token (config.lock (-request.amount))
        .ok (tb.setPending id none)

def addSupportedToken (tb : TeleportBridge) (chain : UInt32) (token : Address)
    (singleTxLimit minAmount : ℤ) : TeleportBridge :=
  tb.setToken chain token ⟨singleTxLimit, minAmount, false, 0⟩

/-- `PauseToken` and `UnpauseToken`. -/
def setPaused (tb : TeleportBridge) (chain : UInt32) (token : Address) (paused : Bool) :
    Except Error TeleportBridge :=
  match tb.supportedTokens chain token with
  | none => .error .tokenNotSupported
  | some config => .ok (tb.setToken chain token { config with isPaused := paused })

def pauseToken (tb : TeleportBridge) (chain : UInt32) (token : Address) :
    Except Error TeleportBridge := setPaused tb chain token true

def unpauseToken (tb : TeleportBridge) (chain : UInt32) (token : Address) :
    Except Error TeleportBridge := setPaused tb chain token false

end LuxPrecompile.Teleport
