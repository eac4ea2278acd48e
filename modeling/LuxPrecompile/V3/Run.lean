import LuxPrecompile.Support.Runs
import LuxPrecompile.V3.Contract
import LuxPrecompile.V3.Pool

/-!
# Runs of the precompile

A run is a list of actions of the host: calls with any caller, attached value and
calldata, and balance changes of other accounts between them.  A failed call
leaves nothing behind, its value included.  The trace keeps the outcomes of the
calls that succeeded, the latest first.
-/

namespace LuxPrecompile.V3

open Dex Evm Support

/-- One call of the precompile. -/
structure Call where
  host : Host
  caller : Address
  value : ℕ
  input : List UInt8
  gas : ℕ
  readOnly : Bool

/-- The host moves the attached value before the precompile runs. -/
def deliverValue (w : World) (caller : Address) (value : ℕ) : Option World :=
  if w.balance native caller < value then none
  else
    let debited := w.setBalance native caller (w.balance native caller - value)
    if debited.balance native v3Addr + value < 2 ^ 256 then
      some (debited.setBalance native v3Addr (debited.balance native v3Addr + value))
    else none

/-- A call as the host executes it; `none` is a failure. -/
def call (w : World) (c : Call) : Option (World × Outcome) :=
  match deliverValue w c.caller c.value with
  | none => none
  | some w' => (run c.host w' c.caller c.input c.gas c.readOnly).toOption

/-- What can happen next: a call, or a change of a balance.  The precompile never spends
its native coin outside its calls. -/
inductive Action
  | call (c : Call)
  | credit (asset owner : Address) (amount : ℕ)
  | debit (asset owner : Address) (amount : ℕ)

/-- A world together with the outcomes that led to it. -/
abbrev Execution := World × List Outcome

/-- One action. -/
def exec (r : Execution) : Action → Execution
  | .call c =>
      match call r.1 c with
      | some (w, out) => (w, out :: r.2)
      | none => r
  | .credit asset owner amount =>
      if r.1.balance asset owner + amount < 2 ^ 256 then
        (r.1.setBalance asset owner (r.1.balance asset owner + amount), r.2)
      else r
  | .debit asset owner amount =>
      if asset = native ∧ owner = v3Addr then r
      else (r.1.setBalance asset owner (r.1.balance asset owner - amount), r.2)

/-- A world whose precompile storage is empty, with any balances that fit a
256-bit word. -/
structure Genesis (w : World) : Prop where
  storage_empty : w.storage = Storage.empty
  balance_lt : ∀ asset owner, w.balance asset owner < 2 ^ 256

/-- The execution of a run from a given world. -/
def runFrom (w : World) (actions : List Action) : Execution :=
  actions.foldl exec (w, [])

/-- An ERC-20 that moves what the sender has. -/
def plainTransfer (balance : Balances) (token sender recipient : Address) (amount : ℕ) :
    Option Balances :=
  if balance token sender < amount then none
  else
    let debited := balance.set token sender (balance token sender - amount)
    if debited token recipient + amount < 2 ^ 256 then
      some (debited.set token recipient (debited token recipient + amount))
    else none

/-- It takes from the vault what it is asked for. -/
theorem plainTransfer_vault {balance balance' : Balances} {token sender recipient : Address}
    {amount : ℕ} (h : plainTransfer balance token sender recipient amount = some balance')
    (asset : Address) : balance asset v3Addr ≤
      balance' asset v3Addr + if token = asset ∧ sender = v3Addr then amount else 0 := by
  simp only [plainTransfer] at h
  split_ifs at h with hshort hroom
  obtain rfl := Option.some.inj h
  have hdebit : balance asset v3Addr ≤
      balance.set token sender (balance token sender - amount) asset v3Addr +
        if token = asset ∧ sender = v3Addr then amount else 0 := by
    rw [Balances.set_apply]
    by_cases hat : asset = token ∧ v3Addr = sender
    · obtain ⟨rfl, rfl⟩ := hat
      rw [if_pos ⟨rfl, rfl⟩, if_pos ⟨rfl, rfl⟩]
      omega
    · rw [if_neg hat]
      exact Nat.le_add_right _ _
  refine hdebit.trans (Nat.add_le_add_right ?_ _)
  generalize balance.set token sender (balance token sender - amount) = debited
  rw [debited.set_apply]
  split_ifs with hat
  · obtain ⟨rfl, rfl⟩ := hat
    exact Nat.le_add_right _ _
  · exact le_rfl

/-- A host whose tokens are such. -/
def plainHost : Host where
  erc20Vault := true
  transferToken := plainTransfer
  fits {balance token sender recipient amount balance'} h hfits asset owner := by
    simp only [plainTransfer] at h
    split_ifs at h with hshort hroom
    obtain rfl := Option.some.inj h
    rw [Balances.set_apply]
    split_ifs
    · exact hroom
    · rw [Balances.set_apply]
      split_ifs
      · exact (Nat.sub_le _ _).trans_lt (hfits token sender)
      · exact hfits asset owner
  keepsNative htoken h := by
    have hkept := plainTransfer_vault h native
    rwa [if_neg fun hc => htoken hc.1] at hkept

/-- A call without value on that host. -/
def plainCall (caller : Address) (selector : ℕ) (args : List Word) : Action :=
  .call ⟨plainHost, caller, 0, calldata selector args, 10000000, false⟩

/-- A world before the first call in which every account owns some of
everything. -/
def fundedWorld : World := ⟨Storage.empty, fun _ _ => 2 ^ 200⟩

theorem fundedWorld_genesis : Genesis fundedWorld := by
  refine ⟨rfl, fun _ _ => ?_⟩
  show 2 ^ 200 < 2 ^ 256
  norm_num

/-! ## What a successful call did -/

/-- The bounds mint and burn check on a range. -/
structure ValidRange (pk : PoolKey) (key : PositionKey) : Prop where
  lower_lt : (key.tickLower : ℤ) < key.tickUpper
  lower_aligned : pk.tickSpacing ∣ key.tickLower
  upper_aligned : pk.tickSpacing ∣ key.tickUpper

/-- The five transitions with everything their checks establish. -/
inductive Transition (host : Host) (caller : Address) (w : World) :
    World → Outcome → Prop
  | init {pk : PoolKey} {price gas : ℕ} {tick : ℤ}
      (hnew : isInitialized w.storage pk = false)
      (hlo : minSqrtRatio ≤ price) (hhi : price < maxSqrtRatio)
      (htick : getTickAtSqrtRatio price = some tick) :
      Transition host caller w
        { w with storage := storePoolTick (storeSqrtPrice w.storage pk price) pk tick }
        (.plain [intWord tick] gas (some (.init pk tick price)))
  | mint {pk : PoolKey} {key : PositionKey} {amount gas : ℕ} {m : Modified}
      {w1 w2 : World} (hinit : isInitialized w.storage pk = true)
      (hrange : ValidRange pk key) (howner : key.owner = caller)
      (hpos : 0 < amount) (hle : amount ≤ maxUint128)
      (hcore : modifyLiquidity w.storage pk key amount = .ok m)
      (hpull0 : pullAsset host { w with storage := m.storage } pk.currency0 caller
        (m.amounts .token0) = .ok w1)
      (hpull1 : pullAsset host w1 pk.currency1 caller (m.amounts .token1) = .ok w2) :
      Transition host caller w w2
        { ret := [uintWord (m.amounts .token0), uintWord (m.amounts .token1)]
          gas := gas
          event := some (.mint pk key amount m.amounts)
          steps := []
          feesCredited := m.feesCredited }
  | burn {pk : PoolKey} {key : PositionKey} {amount gas : ℕ} {m : Modified}
      (hinit : isInitialized w.storage pk = true)
      (hrange : ValidRange pk key) (howner : key.owner = caller)
      (hpos : 0 < amount) (hle : amount ≤ (loadPosition w.storage pk key).liquidity)
      (hcore : modifyLiquidity w.storage pk key (-amount) = .ok m) :
      Transition host caller w
        { w with storage := creditPrincipal m.storage pk key m.amounts }
        { ret := [uintWord (m.amounts .token0), uintWord (m.amounts .token1)]
          gas := gas
          event := some (.burn pk key amount m.amounts)
          steps := []
          feesCredited := m.feesCredited }
  | collect {pk : PoolKey} {key : PositionKey} {gas : ℕ} {requested : Token → ℕ}
      {w1 w2 : World} (amounts : Token → ℕ) (howner : key.owner = caller)
      (hamounts : amounts = fun i =>
        min (requested i) ((loadPosition w.storage pk key).tokensOwed i))
      (hpay0 : payAsset host
        { w with
          storage := storePosition w.storage pk key
            { loadPosition w.storage pk key with
              tokensOwed := fun i =>
                (loadPosition w.storage pk key).tokensOwed i - amounts i } }
        pk.currency0 caller (amounts .token0) = .ok w1)
      (hpay1 : payAsset host w1 pk.currency1 caller (amounts .token1) = .ok w2) :
      Transition host caller w w2
        (.plain [uintWord (amounts .token0), uintWord (amounts .token1)] gas
          (some (.collect pk key amounts)))
  | swap {p : SwapParams} {amountSpecified : ℤ} {fuel fuel' gas : ℕ} {s : SwapState}
      {w1 w2 : World} (hinit : isInitialized w.storage p.pk = true)
      (hamount : amountSpecified ≠ 0)
      (hlimit : priceLimitOk p.zeroForOne p.sqrtPriceLimit
        (loadSqrtPrice w.storage p.pk) = true)
      (hloop : swapLoop p fuel (swapInit w.storage p.pk amountSpecified) = .ok (s, fuel'))
      (hpull : pullAsset host { w with storage := persistSwap s p.pk }
        (p.pk.currency p.tokenIn) caller s.totalIn.toNat = .ok w1)
      (hpay : payAsset host w1 (p.pk.currency p.tokenOut) caller s.totalOut = .ok w2) :
      Transition host caller w w2
        { ret := [intWord (swapAmounts p.zeroForOne s.totalIn s.totalOut .token0),
            intWord (swapAmounts p.zeroForOne s.totalIn s.totalOut .token1)]
          gas := gas
          event := some (.swap p.pk caller (swapAmounts p.zeroForOne s.totalIn s.totalOut)
            s.sqrtPrice s.liquidity s.tick)
          steps := s.steps
          feesCredited := fun _ => 0 }

theorem validateTickRange_ok {pk : PoolKey} {key : PositionKey}
    (h : validateTickRange key.tickLower key.tickUpper pk.tickSpacing = .ok ()) :
    ValidRange pk key := by
  unfold validateTickRange at h
  split_ifs at h with hlt hband halign
  rw [not_or, not_not, not_not] at halign
  exact ⟨not_le.mp hlt, Int.dvd_of_tmod_eq_zero halign.1, Int.dvd_of_tmod_eq_zero halign.2⟩

theorem parseRange_owner {caller : Address} {data : List UInt8} {pk : PoolKey}
    {key : PositionKey} (h : parseRange caller data = .ok (pk, key)) :
    key.owner = caller := by
  simp only [parseRange, bind_eq_ok, Except.ok.injEq, Prod.mk.injEq] at h
  obtain ⟨_, -, _, -, _, -, -, rfl⟩ := h
  rfl

theorem runInitialize_ok {host : Host} {caller : Address} {w w' : World}
    {data : List UInt8} {gas : ℕ} {out : Outcome}
    (h : runInitialize w data gas = .ok (w', out)) : Transition host caller w w' out := by
  simp only [runInitialize, bind_eq_ok] at h
  obtain ⟨gas', -, -, -, pk, -, h⟩ := h
  split_ifs at h with hinit hprice
  cases htick : getTickAtSqrtRatio (wordToUint (argWord data 128)) with
  | none => simp [htick] at h
  | some tick =>
      simp only [htick, Except.ok.injEq, Prod.mk.injEq] at h
      obtain ⟨rfl, rfl⟩ := h
      exact .init (by simpa using hinit) (by omega) (by omega) htick

theorem runMint_ok {host : Host} {caller : Address} {w w' : World}
    {data : List UInt8} {gas : ℕ} {out : Outcome}
    (h : runMint host w caller data gas = .ok (w', out)) :
    Transition host caller w w' out := by
  simp only [runMint, bind_eq_ok] at h
  obtain ⟨gas', -, -, -, ⟨pk, key⟩, hparse, h⟩ := h
  by_cases hinit : (!isInitialized w.storage pk) = true
  · rw [if_pos hinit] at h
    cases h
  rw [if_neg hinit, bind_eq_ok] at h
  obtain ⟨_, hvalid, h⟩ := h
  split_ifs at h with hzero hlarge
  simp only [bind_eq_ok, Except.ok.injEq, Prod.mk.injEq] at h
  obtain ⟨m, hcore, w1, hpull0, w2, hpull1, rfl, rfl⟩ := h
  exact .mint (by simpa using hinit) (validateTickRange_ok hvalid) (parseRange_owner hparse)
    (Nat.pos_of_ne_zero hzero) (not_lt.mp hlarge) hcore hpull0 hpull1

theorem runBurn_ok {host : Host} {caller : Address} {w w' : World}
    {data : List UInt8} {gas : ℕ} {out : Outcome}
    (h : runBurn w caller data gas = .ok (w', out)) :
    Transition host caller w w' out := by
  simp only [runBurn, bind_eq_ok] at h
  obtain ⟨gas', -, -, -, ⟨pk, key⟩, hparse, h⟩ := h
  by_cases hinit : (!isInitialized w.storage pk) = true
  · rw [if_pos hinit] at h
    cases h
  rw [if_neg hinit, bind_eq_ok] at h
  obtain ⟨_, hvalid, h⟩ := h
  split_ifs at h with hzero hshort
  simp only [bind_eq_ok, Except.ok.injEq, Prod.mk.injEq] at h
  obtain ⟨m, hcore, rfl, rfl⟩ := h
  exact .burn (by simpa using hinit) (validateTickRange_ok hvalid) (parseRange_owner hparse)
    (Nat.pos_of_ne_zero hzero) (not_lt.mp hshort) hcore

theorem runCollect_ok {host : Host} {caller : Address} {w w' : World}
    {data : List UInt8} {gas : ℕ} {out : Outcome}
    (h : runCollect host w caller data gas = .ok (w', out)) :
    Transition host caller w w' out := by
  simp only [runCollect, bind_eq_ok] at h
  obtain ⟨gas', -, -, -, ⟨pk, key⟩, hparse, h⟩ := h
  simp only [Except.ok.injEq, Prod.mk.injEq] at h
  obtain ⟨w1, hpay0, w2, hpay1, rfl, rfl⟩ := h
  exact .collect _ (parseRange_owner hparse) rfl hpay0 hpay1

theorem runSwap_ok {host : Host} {caller : Address} {w w' : World}
    {data : List UInt8} {gas : ℕ} {out : Outcome}
    (h : runSwap host w caller data gas = .ok (w', out)) :
    Transition host caller w w' out := by
  simp only [runSwap, bind_eq_ok] at h
  obtain ⟨gas', -, -, -, pk, -, h⟩ := h
  split_ifs at h with hinit hzero hlimit
  simp only [bind_eq_ok] at h
  obtain ⟨⟨s, fuel⟩, hloop, h⟩ := h
  simp only [Except.ok.injEq, Prod.mk.injEq] at h
  obtain ⟨w1, hpull, w2, hpay, rfl, rfl⟩ := h
  rw [Bool.not_eq_true', Bool.not_eq_false] at hlimit
  exact .swap (p := ⟨pk, _, _, _⟩) (by simpa using hinit) hzero hlimit hloop hpull hpay

/-- A successful call is a view, which changes nothing, or one of the five
transitions between entering and leaving the guard. -/
theorem run_cases {host : Host} {caller : Address} {w w' : World}
    {input : List UInt8} {gas : ℕ} {readOnly : Bool} {out : Outcome}
    (h : run host w caller input gas readOnly = .ok (w', out)) :
    (w' = w ∧ ∃ ret gas', out = .plain ret gas' none) ∨
    ∃ w1, Transition host caller { w with storage := { w.storage with guard := 1 } } w1 out ∧
      w' = { w1 with storage := exitGuard w1.storage } := by
  unfold run at h
  simp only at h
  split_ifs at h with hshort hslot hliq hticks hpos hop hro
  · left
    simp only [runSlot0, bind_eq_ok, Except.ok.injEq, Prod.mk.injEq] at h
    obtain ⟨gas', -, pk, -, rfl, rfl⟩ := h
    exact ⟨rfl, _, _, rfl⟩
  · left
    simp only [runLiquidity, bind_eq_ok, Except.ok.injEq, Prod.mk.injEq] at h
    obtain ⟨gas', -, pk, -, rfl, rfl⟩ := h
    exact ⟨rfl, _, _, rfl⟩
  · left
    simp only [runTicks, bind_eq_ok, Except.ok.injEq, Prod.mk.injEq] at h
    obtain ⟨gas', -, -, -, pk, -, tick, -, rfl, rfl⟩ := h
    exact ⟨rfl, _, _, rfl⟩
  · left
    simp only [runPositions, bind_eq_ok, Except.ok.injEq, Prod.mk.injEq] at h
    obtain ⟨gas', -, -, -, pk, -, lo, -, hi, -, rfl, rfl⟩ := h
    exact ⟨rfl, _, _, rfl⟩
  · right
    cases hguard : enterGuard w.storage with
    | none => simp [hguard] at h
    | some db =>
        simp only [hguard, bind_eq_ok] at h
        obtain ⟨⟨w1, out1⟩, hrun, h⟩ := h
        simp only [Except.ok.injEq, Prod.mk.injEq] at h
        obtain ⟨rfl, rfl⟩ := h
        refine ⟨w1, ?_, rfl⟩
        have hdb : db = { w.storage with guard := 1 } := by
          unfold enterGuard at hguard
          split_ifs at hguard
          simpa using hguard.symm
        rw [← hdb]
        unfold runTransition at hrun
        split_ifs at hrun
        · exact runInitialize_ok hrun
        · exact runMint_ok hrun
        · exact runBurn_ok hrun
        · exact runCollect_ok hrun
        · exact runSwap_ok hrun

end LuxPrecompile.V3
