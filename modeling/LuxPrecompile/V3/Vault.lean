import LuxPrecompile.V3.State

/-!
# Custody

`v3/vault.go`: how the precompile takes tokens in and pays them out.  The native
coin is asset zero.  A token's code may do with the balances what it likes; its
calls back into the precompile stop at the reentrancy guard.
-/

namespace LuxPrecompile.V3

open Evm

/-- The sentinel errors of the package and of the `dex` functions it calls. -/
inductive Error
  | readOnly
  | reentrant
  | shortInput
  /-- `ErrBadArgs` with the expected and the given number of argument bytes. -/
  | badArgs (expected got : ℕ)
  | unknownSelector (selector : ℕ)
  | outOfGas
  | currencyOrder
  | invalidFee
  | invalidTickSpacing
  | tickMisaligned
  | zeroAmount
  | amountTooLarge
  | insufficientLiq
  | liquidityUnderflow
  | vaultUnavailable
  | transferFailed
  | deltaMismatch
  | reserveUnderflow
  | tickOutOfRange
  | invalidTickRange
  | poolNotInitialized
  | poolAlreadyInitialized
  | invalidSqrtPrice
  /-- "sqrtPriceX96 out of range", from the tick search. -/
  | priceOutOfRange
  /-- A Go panic of the arithmetic; the host fails the call. -/
  | panic
deriving DecidableEq, Repr

/-- A Go panic as a failed call. -/
def orPanic {α : Type} : Option α → Except Error α
  | some a => .ok a
  | none => .error .panic

/-- `v3Addr`, the account that holds all pool state and all custody. -/
def v3Addr : Address := 0x90A1

/-- The native coin as an asset. -/
def native : Address := 0

/-- What accounts hold, by asset and owner: the host's balances of the native coin and
what `TokenBalanceOf` answers for a token. -/
abbrev Balances := Address → Address → ℕ

/-- What the call sees: the precompile's storage and all balances. -/
structure World where
  storage : Storage
  balance : Balances

/-- What the host does during a call. -/
structure Host where
  /-- The state database implements the ERC-20 vault capability. -/
  erc20Vault : Bool
  /-- `TransferTokenFrom` and `TransferTokenTo`: the balances that the token's code leaves
  when it is asked to move an amount between two accounts, or its failure. -/
  transferToken : Balances → Address → Address → Address → ℕ → Option Balances
  fits : ∀ {balance token sender recipient amount balance'},
    transferToken balance token sender recipient amount = some balance' →
      (∀ asset owner, balance asset owner < 2 ^ 256) →
        ∀ asset owner, balance' asset owner < 2 ^ 256
  /-- Only the precompile spends its native coin. -/
  keepsNative : ∀ {balance token sender recipient amount balance'}, token ≠ native →
    transferToken balance token sender recipient amount = some balance' →
      balance native v3Addr ≤ balance' native v3Addr

def Balances.set (balance : Balances) (asset owner : Address) (v : ℕ) : Balances :=
  Function.update balance asset (Function.update (balance asset) owner v)

theorem Balances.set_apply (balance : Balances) (asset owner : Address) (v : ℕ)
    (a o : Address) :
    balance.set asset owner v a o = if a = asset ∧ o = owner then v else balance a o := by
  unfold Balances.set
  by_cases ha : a = asset
  · subst ha
    by_cases ho : o = owner
    · subst ho
      simp
    · simp [ho]
  · simp [ha]

def World.setBalance (w : World) (asset owner : Address) (v : ℕ) : World :=
  { w with balance := w.balance.set asset owner v }

def transferToken (host : Host) (w : World) (token sender recipient : Address)
    (amount : ℕ) : Option World :=
  (host.transferToken w.balance token sender recipient amount).map fun balance =>
    { w with balance := balance }

/-- `pullExact`: the observed inbound difference must be the amount. -/
def pullExact (host : Host) (w : World) (asset sender : Address) (amount : ℕ) :
    Except Error World :=
  match transferToken host w asset sender v3Addr amount with
  | none => .error .transferFailed
  | some w' =>
      if (w'.balance asset v3Addr : ℤ) - w.balance asset v3Addr ≠ amount then
        .error .deltaMismatch
      else .ok w'

def pushOut (host : Host) (w : World) (asset recipient : Address) (amount : ℕ) :
    Except Error World :=
  match transferToken host w asset v3Addr recipient amount with
  | none => .error .transferFailed
  | some w' => .ok w'

/-- `pullExactNative`: the surplus of the balance over the reserve must be the
amount. -/
def pullExactNative (w : World) (reserveNative amount : ℕ) : Except Error Unit :=
  if (w.balance native v3Addr : ℤ) - reserveNative ≠ amount then
    .error .deltaMismatch
  else .ok ()

/-- `pushOutNative`: a `SubBalance`/`AddBalance` pair on 256-bit balances. -/
def pushOutNative (w : World) (recipient : Address) (amount : ℕ) :
    Except Error World :=
  if 2 ^ 256 ≤ amount then .error .transferFailed
  else if w.balance native v3Addr < amount then .error .reserveUnderflow
  else
    let debited := w.setBalance native v3Addr (w.balance native v3Addr - amount)
    .ok (debited.setBalance native recipient
      ((debited.balance native recipient + amount) % 2 ^ 256))

/-- `pullAsset`: takes the amount in and credits the reserve. -/
def pullAsset (host : Host) (w : World) (asset sender : Address) (amount : ℕ) :
    Except Error World :=
  if amount = 0 then .ok w
  else if asset = native then do
    pullExactNative w (loadReserve w.storage asset) amount
    .ok { w with storage := addReserve w.storage asset amount }
  else if host.erc20Vault then do
    let w' ← pullExact host w asset sender amount
    .ok { w' with storage := addReserve w'.storage asset amount }
  else .error .vaultUnavailable

/-- `payAsset`: debits the reserve first, then pays the amount out. -/
def payAsset (host : Host) (w : World) (asset recipient : Address) (amount : ℕ) :
    Except Error World :=
  if amount = 0 then .ok w
  else
    match subReserve w.storage asset amount with
    | none => .error .reserveUnderflow
    | some db =>
        if asset = native then pushOutNative { w with storage := db } recipient amount
        else if host.erc20Vault then
          pushOut host { w with storage := db } asset recipient amount
        else .error .vaultUnavailable

/-! ## What the transfers leave alone -/

theorem transferToken_storage {host : Host} {w w' : World}
    {token sender recipient : Address} {amount : ℕ}
    (h : transferToken host w token sender recipient amount = some w') :
    w'.storage = w.storage := by
  obtain ⟨balance, -, rfl⟩ := Option.map_eq_some_iff.mp h
  rfl

theorem pullExact_ok {host : Host} {w w' : World} {asset sender : Address} {amount : ℕ}
    (h : pullExact host w asset sender amount = .ok w') :
    transferToken host w asset sender v3Addr amount = some w' ∧
      (w'.balance asset v3Addr : ℤ) - w.balance asset v3Addr = amount := by
  unfold pullExact at h
  cases htransfer : transferToken host w asset sender v3Addr amount with
  | none => simp [htransfer] at h
  | some w1 =>
      simp only [htransfer] at h
      split_ifs at h with hdelta
      simp only [Except.ok.injEq] at h
      subst h
      exact ⟨rfl, not_not.mp hdelta⟩

theorem pushOut_ok {host : Host} {w w' : World} {asset recipient : Address} {amount : ℕ}
    (h : pushOut host w asset recipient amount = .ok w') :
    transferToken host w asset v3Addr recipient amount = some w' := by
  unfold pushOut at h
  cases htransfer : transferToken host w asset v3Addr recipient amount with
  | none => simp [htransfer] at h
  | some w1 =>
      simp only [htransfer, Except.ok.injEq] at h
      rw [h]

theorem pushOutNative_storage {w w' : World} {recipient : Address} {amount : ℕ}
    (h : pushOutNative w recipient amount = .ok w') : w'.storage = w.storage := by
  unfold pushOutNative at h
  split_ifs at h
  simp only [Except.ok.injEq] at h
  rw [← h]
  rfl

/-- Taking an asset in only adds the amount to its reserve. -/
theorem pullAsset_storage {host : Host} {w w' : World} {asset sender : Address}
    {amount : ℕ} (h : pullAsset host w asset sender amount = .ok w') :
    w'.storage = w.storage ∧ amount = 0 ∨
      w'.storage = addReserve w.storage asset amount := by
  unfold pullAsset at h
  split_ifs at h with hzero hnative hvault
  · simp only [Except.ok.injEq] at h
    exact Or.inl ⟨by rw [h], hzero⟩
  · simp only [bind, Except.bind] at h
    cases hpull : pullExactNative w (loadReserve w.storage asset) amount with
    | error e => simp [hpull] at h
    | ok u =>
        simp only [hpull, Except.ok.injEq] at h
        rw [← h]
        exact Or.inr rfl
  · simp only [bind, Except.bind] at h
    cases hpull : pullExact host w asset sender amount with
    | error e => simp [hpull] at h
    | ok w1 =>
        simp only [hpull, Except.ok.injEq] at h
        rw [← h, ← transferToken_storage (pullExact_ok hpull).1]
        exact Or.inr rfl

/-- Paying an asset out only takes the amount from its reserve. -/
theorem payAsset_storage {host : Host} {w w' : World} {asset recipient : Address}
    {amount : ℕ} (h : payAsset host w asset recipient amount = .ok w') :
    w'.storage = w.storage ∧ amount = 0 ∨
      amount ≤ loadReserve w.storage asset ∧
        w'.storage = storeReserve w.storage asset (loadReserve w.storage asset - amount) := by
  unfold payAsset at h
  by_cases hzero : amount = 0
  · rw [if_pos hzero, Except.ok.injEq] at h
    exact Or.inl ⟨by rw [h], hzero⟩
  rw [if_neg hzero] at h
  cases hsub : subReserve w.storage asset amount with
  | none => simp [hsub] at h
  | some db =>
      simp only [hsub] at h
      obtain ⟨reserve, hreserve, rfl⟩ := Option.map_eq_some_iff.mp hsub
      obtain ⟨hle, rfl⟩ := Reserves.sub_eq_some.mp hreserve
      refine Or.inr ⟨hle, ?_⟩
      split_ifs at h
      · exact pushOutNative_storage h
      · exact transferToken_storage (pushOut_ok h)

end LuxPrecompile.V3
