import LuxPrecompile.Evm.Calldata
import LuxPrecompile.Htlc.State
import LuxPrecompile.Support.Runs

/-!
# The hash time-locked swap precompile

`swap/vault.go` and `swap/swap.go`.  A token transfer runs the code of the token,
which may call back before and after it moves the amount; `callback` is the effect
of that code on the world and is filled in by the run model.  Tokens are honest
otherwise: a transfer moves exactly the requested amount or fails.
-/

namespace LuxPrecompile.Htlc

open Evm Support

/-- The sentinel errors of the package. -/
inductive Error
  | readOnly
  | reentrant
  | shortInput
  /-- `ErrBadArgs` with the expected and the given number of argument bytes. -/
  | badArgs (expected got : ℕ)
  /-- `ErrBadArgs`: "timeout exceeds uint64". -/
  | timeoutTooLarge
  | unknownSelector (selector : ℕ)
  | noBlockContext
  | outOfGas
  | zeroHashlock
  | zeroRecipient
  | zeroRefund
  | dustAmount
  | timeoutBounds (t0 timeout : UInt64)
  | swapExists
  | notLocked
  | expired
  | notExpired
  | badPreimage
  | reserveUnderflow
  | vaultUnavailable
  | transferFailed
  | deltaMismatch
  /-- The call-depth limit of the host. -/
  | depth
  /-- The host's refusal of a value the caller does not own. -/
  | insufficientBalance
deriving DecidableEq, Repr

/-- `swapAddr`, the account that holds all swap state and all locked value. -/
def swapAddr : Address := 0x90A0

def gasLock : ℕ := 60000
def gasClaim : ℕ := 50000
def gasRefund : ℕ := 40000
def gasGetSwap : ℕ := 5000
def gasGetPreimage : ℕ := 3000

def minSwapAmount : ℕ := 1
def minTimeout : UInt64 := 600
def maxTimeout : UInt64 := 30 * 24 * 60 * 60

/-! ## What a call works on -/

/-- The events of `swap/events.go`. -/
inductive Event
  | locked (id : Word) (terms : Terms)
  | claimed (id hashlock preimage : Word) (recipient : Address) (amount : ℕ)
  | refunded (id : Word) (refund : Address) (amount : ℕ)
deriving DecidableEq

/-- A log entry with the time of its block and the caller it was emitted for. -/
structure Log where
  time : UInt64
  caller : Address
  event : Event
deriving DecidableEq

/-- A transfer out of the precompile's account. -/
structure Payment where
  asset : Address
  recipient : Address
  amount : ℕ
deriving DecidableEq

/-- The part of the host state a call sees.  `logs` and `payments` only grow, the
latest entry first; `payments` records the transfers out of the precompile's
account and is never read. -/
structure World where
  storage : Storage
  bank : Bank
  logs : List Log
  payments : List Payment

/-- What the host answers during one top-level call. -/
structure Host where
  /-- The state database implements the ERC-20 vault capability. -/
  erc20Vault : Bool
  /-- The block context, if there is one, with its timestamp. -/
  blockContext : Option UInt64
  /-- The token lets a transfer of the given owner's balance through. -/
  tokenAllows : Address → Address → Bool

/-- The context of one frame: the host, the caller and what a token's code does
to the world when it runs. -/
structure Frame where
  hashes : Hashes
  host : Host
  time : UInt64
  caller : Address
  callback : Address → World → World

/-! ## Custody -/

/-- An honest ERC-20 transfer.  The token's code runs before and after the amount
moves. -/
def transferToken (fr : Frame) (w : World) (token sender recipient : Address)
    (amount : ℕ) : Option World :=
  let before := fr.callback token w
  if fr.host.tokenAllows token sender then
    match before.bank.transfer token sender recipient amount with
    | none => none
    | some bank => some (fr.callback token { before with bank := bank })
  else none

/-- `pullExact`: the observed inbound difference must be the amount. -/
def pullExact (fr : Frame) (w : World) (asset : Address) (amount : ℕ) :
    Except Error World :=
  match transferToken fr w asset fr.caller swapAddr amount with
  | none => .error .transferFailed
  | some w' =>
      if (w'.bank asset swapAddr : ℤ) - w.bank asset swapAddr ≠ amount then
        .error .deltaMismatch
      else .ok w'

/-- `pullExactNative`: the surplus of the balance over the reserve must be the
amount. -/
def pullExactNative (w : World) (reserveNative amount : ℕ) : Except Error Unit :=
  if (w.bank native swapAddr : ℤ) - reserveNative ≠ amount then .error .deltaMismatch
  else .ok ()

def pushOut (fr : Frame) (w : World) (asset recipient : Address) (amount : ℕ) :
    Except Error World :=
  match transferToken fr w asset swapAddr recipient amount with
  | none => .error .transferFailed
  | some w' => .ok { w' with payments := ⟨asset, recipient, amount⟩ :: w'.payments }

def pushOutNative (w : World) (recipient : Address) (amount : ℕ) : Except Error World :=
  if 2 ^ 256 ≤ amount then .error .transferFailed
  else if w.bank native swapAddr < amount then .error .reserveUnderflow
  else
    .ok { w with
      bank := w.bank.move native swapAddr recipient amount
      payments := ⟨native, recipient, amount⟩ :: w.payments }

def payOut (fr : Frame) (w : World) (asset recipient : Address) (amount : ℕ) :
    Except Error World :=
  if asset = native then pushOutNative w recipient amount
  else if fr.host.erc20Vault then pushOut fr w asset recipient amount
  else .error .vaultUnavailable

/-- The inbound half of `runLock`, by kind of asset. -/
def pullIn (fr : Frame) (w : World) (asset : Address) (amount : ℕ) :
    Except Error World :=
  if asset = native then do
    pullExactNative w (loadReserve w.storage asset) amount
    .ok w
  else if fr.host.erc20Vault then pullExact fr w asset amount
  else .error .vaultUnavailable

/-! ## Call data -/

/-- A precompile's return value: the result words and the gas left. -/
structure Reply where
  ret : List Word
  gas : ℕ

/-- `wordAddress` of the argument word at an offset. -/
def argAddress (data : List UInt8) (i : ℕ) : Address :=
  bytesToAddress (slice data (i + 12) (i + 32))

/-- `wordUint64`: the high 24 bytes must be zero. -/
def wordUint64 (word : List UInt8) : Except Error UInt64 :=
  if (word.take 24).any (fun b => b ≠ 0) then .error .timeoutTooLarge
  else .ok (UInt64.ofNat (bytesToNat (word.drop 24)))

/-- The six argument words of a lock. -/
def parseTerms (data : List UInt8) : Except Error Terms := do
  let timeout ← wordUint64 (slice data 160 192)
  .ok { hashlock := argWord data 0
        recipient := argAddress data 32
        refund := argAddress data 64
        asset := argAddress data 96
        amount := argWord data 128
        timeout := timeout }

/-- The checks of a lock on its terms at block time `t0`; the bounds are computed
in 64 bits. -/
def checkTerms (terms : Terms) (t0 : UInt64) : Except Error Unit :=
  if terms.hashlock = 0 then .error .zeroHashlock
  else if terms.recipient = 0 then .error .zeroRecipient
  else if terms.refund = 0 then .error .zeroRefund
  else if wordToUint terms.amount < minSwapAmount then .error .dustAmount
  else if terms.timeout < t0 + minTimeout ∨ t0 + maxTimeout < terms.timeout then
    .error (.timeoutBounds t0 terms.timeout)
  else .ok ()

/-! ## The three transitions -/

/-- What a lock persists once the value is in. -/
def storeLock (db : Storage) (id : Word) (terms : Terms) (nonce : UInt64) : Storage :=
  let db := storeStatus db id .locked
  let db := storeTerms db id terms
  let db := addReserve db terms.asset (wordToUint terms.amount)
  storeNonce db (nonce + 1)

def World.emit (w : World) (fr : Frame) (e : Event) : World :=
  { w with logs := ⟨fr.time, fr.caller, e⟩ :: w.logs }

def runLock (fr : Frame) (w : World) (data : List UInt8) (suppliedGas : ℕ) :
    Except Error (World × Reply) := do
  let gas ← chargeGas Error.outOfGas suppliedGas gasLock
  checkLength Error.badArgs data 192
  let terms ← parseTerms data
  checkTerms terms fr.time
  let nonce := w.storage.nonce
  let id := computeSwapId fr.hashes terms fr.caller nonce
  if loadStatus w.storage id ≠ .none then .error .swapExists
  else do
    let w1 ← pullIn fr w terms.asset (wordToUint terms.amount)
    let w2 : World := { w1 with storage := storeLock w1.storage id terms nonce }
    .ok (w2.emit fr (.locked id terms), ⟨[id], gas⟩)

/-- What a claim writes before it pays. -/
def storeClaim (db : Storage) (id preimage : Word) : Storage :=
  let hashlock := (db.swap id).terms.hashlock
  let db := storeStatus db id .claimed
  let db := storePreimage db id preimage
  storePreimageIdx db hashlock preimage

@[simp]
theorem storeStatus_swap (db : Storage) (id : Word) (status : Status) :
    (storeStatus db id status).swap =
      Function.update db.swap id { db.swap id with status := status } := rfl

@[simp]
theorem storeReserve_swap (db : Storage) (asset : Address) (v : ℕ) :
    (storeReserve db asset v).swap = db.swap := rfl

@[simp]
theorem storeLock_swap (db : Storage) (id : Word) (terms : Terms) (nonce : UInt64) :
    (storeLock db id terms nonce).swap =
      Function.update db.swap id ⟨.locked, terms, (db.swap id).preimage⟩ := by
  simp [storeLock, storeNonce, addReserve, storeTerms, Storage.setSwap]

@[simp]
theorem storeClaim_swap (db : Storage) (id preimage : Word) :
    (storeClaim db id preimage).swap =
      Function.update db.swap id ⟨.claimed, (db.swap id).terms, preimage⟩ := by
  simp [storeClaim, storePreimageIdx, storePreimage, Storage.setSwap]

def runClaim (fr : Frame) (w : World) (data : List UInt8) (suppliedGas : ℕ) :
    Except Error (World × Reply) := do
  let gas ← chargeGas Error.outOfGas suppliedGas gasClaim
  checkLength Error.badArgs data 64
  let id := argWord data 0
  let preimage := argWord data 32
  let terms := (w.storage.swap id).terms
  let amount := loadAmount w.storage id
  if loadStatus w.storage id ≠ .locked then .error .notLocked
  else if terms.timeout ≤ fr.time then .error .expired
  else if !preimageMatches fr.hashes preimage terms.hashlock then .error .badPreimage
  else
    match subReserve w.storage terms.asset amount with
    | none => .error .reserveUnderflow
    | some db => do
        let w1 : World := { w with storage := storeClaim db id preimage }
        let w2 := w1.emit fr (.claimed id terms.hashlock preimage terms.recipient amount)
        let w3 ← payOut fr w2 terms.asset terms.recipient amount
        .ok (w3, ⟨[1], gas⟩)

def runRefund (fr : Frame) (w : World) (data : List UInt8) (suppliedGas : ℕ) :
    Except Error (World × Reply) := do
  let gas ← chargeGas Error.outOfGas suppliedGas gasRefund
  checkLength Error.badArgs data 32
  let id := argWord data 0
  let terms := (w.storage.swap id).terms
  let amount := loadAmount w.storage id
  if loadStatus w.storage id ≠ .locked then .error .notLocked
  else if fr.time < terms.timeout then .error .notExpired
  else
    match subReserve w.storage terms.asset amount with
    | none => .error .reserveUnderflow
    | some db => do
        let w1 : World := { w with storage := storeStatus db id .refunded }
        let w2 := w1.emit fr (.refunded id terms.refund amount)
        let w3 ← payOut fr w2 terms.asset terms.refund amount
        .ok (w3, ⟨[1], gas⟩)

/-! ## Views -/

def runGetSwap (w : World) (data : List UInt8) (suppliedGas : ℕ) :
    Except Error (World × Reply) := do
  let gas ← chargeGas Error.outOfGas suppliedGas gasGetSwap
  checkLength Error.badArgs data 32
  let s := w.storage.swap (argWord data 0)
  .ok (w, ⟨[uintWord s.status.toByte, s.terms.hashlock, addressWord s.terms.recipient,
    addressWord s.terms.refund, addressWord s.terms.asset, s.terms.amount,
    uintWord s.terms.timeout.toNat, s.preimage], gas⟩)

def runGetPreimage (w : World) (data : List UInt8) (suppliedGas : ℕ) :
    Except Error (World × Reply) := do
  let gas ← chargeGas Error.outOfGas suppliedGas gasGetPreimage
  checkLength Error.badArgs data 32
  .ok (w, ⟨[w.storage.preimageIdx (argWord data 0)], gas⟩)

/-! ## Dispatch -/

def selLock : ℕ := 0x4da2c728
def selClaim : ℕ := 0x84cc9dfb
def selRefund : ℕ := 0x7249fbb6
def selGetSwap : ℕ := 0x3da0e66e
def selGetPreimage : ℕ := 0x0f622b04

/-- The three transitions, behind the guard. -/
def runTransition (fr : Frame) (w : World) (selector : ℕ) (data : List UInt8)
    (suppliedGas : ℕ) : Except Error (World × Reply) :=
  if selector = selLock then runLock fr w data suppliedGas
  else if selector = selClaim then runClaim fr w data suppliedGas
  else runRefund fr w data suppliedGas

/-- `Run` after its two entry checks. -/
def dispatch (fr : Frame) (w : World) (input : List UInt8) (suppliedGas : ℕ)
    (readOnly : Bool) : Except Error (World × Reply) :=
  let selector := bytesToNat (slice input 0 4)
  let data := input.drop 4
  if selector = selGetSwap then runGetSwap w data suppliedGas
  else if selector = selGetPreimage then runGetPreimage w data suppliedGas
  else if selector ∈ [selLock, selClaim, selRefund] then
    if readOnly then .error .readOnly
    else
      match enterGuard w.storage with
      | none => .error .reentrant
      | some db => do
          let (w', reply) ← runTransition fr { w with storage := db } selector data
            suppliedGas
          .ok ({ w' with storage := exitGuard w'.storage }, reply)
  else .error (.unknownSelector selector)

end LuxPrecompile.Htlc
