import LuxPrecompile.Settle.Run

/-!
# Ledger sums that leave the word

A deposit adds its amount to two ledger words.  The amount is checked to fit a word, the
sums are not, and `FillBytes` panics on a wider number: two deposits of a token whose
supply fills a word bring the node down.  A withdrawal only lowers the same words.
-/

namespace LuxPrecompile.Settle

open Dex Evm Support

/-- The computation succeeded or failed with an error of its own. -/
def Calm {α : Type} (x : Except Error α) : Prop := x ≠ .error .panic

section Calm

variable {α β : Type}

theorem calm_ok (a : α) : Calm (.ok a : Except Error α) := fun h => nomatch h

theorem calm_error {e : Error} (h : e ≠ .panic) : Calm (.error e : Except Error α) := by
  intro hpanic
  cases hpanic
  exact h rfl

theorem Calm.bind {x : Except Error α} {f : α → Except Error β} (hx : Calm x)
    (hf : ∀ a, x = .ok a → Calm (f a)) : Calm (x >>= f) := by
  intro h
  rcases bind_eq_error.mp h with herror | ⟨a, ha, herror⟩
  · exact hx herror
  · exact hf a ha herror

theorem calm_refuse {c : Prop} [Decidable c] {e : Error} (he : e ≠ .panic)
    {x : Except Error α} : Calm (if c then .error e else x) ↔ (¬c → Calm x) := by
  split_ifs with hc
  · exact ⟨fun _ h => absurd hc h, fun _ => calm_error he⟩
  · exact ⟨fun h _ => h, fun h => h hc⟩

theorem calm_bind_iff {x : Except Error α} {f : α → Except Error β} (hf : ∀ a, Calm (f a)) :
    Calm (x >>= f) ↔ Calm x := by
  refine ⟨fun h hx => h (bind_eq_error.mpr (.inl hx)), fun h => h.bind fun a _ => hf a⟩

theorem calm_charge_bind {gas cost : ℕ} {f : ℕ → Except Error β} :
    Calm (chargeGas Error.outOfGas gas cost >>= f) ↔ (cost ≤ gas → Calm (f (gas - cost))) := by
  by_cases h : gas < cost
  · have hcharge : chargeGas Error.outOfGas gas cost = .error .outOfGas := if_pos h
    rw [hcharge]
    exact ⟨fun _ hle => absurd h (by omega), fun _ => calm_error (by decide)⟩
  · have hcharge : chargeGas Error.outOfGas gas cost = .ok (gas - cost) := if_neg h
    rw [hcharge]
    exact ⟨fun hcalm _ => hcalm, fun hcalm => hcalm (by omega)⟩

theorem calm_guarded {w : World} {body : World → Except Error (World × Reply)} :
    Calm (guarded w body) ↔ (w.storage .custodyGuard = 0 →
      Calm (body (w.withStorage (w.storage.set .custodyGuard flagSet)))) := by
  rw [guarded, enterCustody]
  by_cases hguard : w.storage .custodyGuard = 0
  · rw [if_neg (by simp [hguard])]
    exact (calm_bind_iff fun _ => calm_ok _).trans ⟨fun h _ => h, fun h => h hguard⟩
  · rw [if_pos hguard]
    exact ⟨fun _ h => absurd h hguard, fun _ => calm_error (by decide)⟩

theorem calm_transferToken (fr : Frame) (w : World) (token sender recipient : Address)
    (amount : ℕ) : Calm (transferToken fr w token sender recipient amount) := by
  unfold transferToken
  dsimp only
  split_ifs
  · cases (fr.callback token w).bank.transfer token sender recipient amount with
    | none => exact calm_error (by decide)
    | some bank => exact calm_ok _
  · exact calm_error (by decide)

theorem calm_pullERC20Terminal (fr : Frame) (w : World) (token sender : Address) (amount : ℕ) :
    Calm (pullERC20Terminal fr w token sender amount) := by
  rw [pullERC20Terminal]
  refine (calm_transferToken _ _ _ _ _ _).bind fun w1 _ => ?_
  dsimp only
  split_ifs
  · exact calm_error (by decide)
  · exact calm_ok _

theorem calm_moveNative (w : World) (sender recipient : Address) (amount : ℕ) {short : Error}
    (h : short ≠ .panic) : Calm (moveNative w sender recipient amount short) := by
  rw [moveNative]
  split_ifs
  · exact calm_error h
  · cases w.bank.transfer native sender recipient amount with
    | none => exact calm_error (by decide)
    | some bank => exact calm_ok _

theorem calm_storeAmount {st : Storage} {slot : Slot} {amount : ℕ} :
    Calm (storeAmount st slot amount) ↔ amount < 2 ^ 256 := by
  rw [storeAmount, fillBytes]
  split_ifs with hlt
  · exact ⟨fun _ => hlt, fun _ => calm_ok _⟩
  · exact ⟨fun h => absurd rfl h, fun h => absurd h hlt⟩

theorem calm_recordDeposit {st : Storage} {account : Address} {asset : Word} {amount : ℕ} :
    Calm (recordDeposit st account asset amount) ↔
      loadDepositorClaim st account asset + amount < 2 ^ 256 ∧
        loadSettleVault st asset + amount < 2 ^ 256 := by
  rw [recordDeposit, storeDepositorClaim]
  by_cases hclaim : loadDepositorClaim st account asset + amount < 2 ^ 256
  · obtain ⟨st', hst'⟩ : ∃ st', storeAmount st (.depositorClaim account asset)
        (loadDepositorClaim st account asset + amount) = .ok st' := by
      rw [storeAmount, fillBytes, if_pos hclaim]
      exact ⟨_, rfl⟩
    have hvault : loadSettleVault st' asset = loadSettleVault st asset := by
      obtain ⟨-, hset⟩ := storeAmount_ok hst'
      rw [hset, loadSettleVault, loadSettleVault, loadAmount_set_of_ne (by simp)]
    rw [hst']
    show Calm (storeSettleVault st' asset (loadSettleVault st' asset + amount)) ↔ _
    rw [storeSettleVault, calm_storeAmount, hvault]
    exact ⟨fun h => ⟨hclaim, h⟩, fun h => h.2⟩
  · have hpanic : storeAmount st (.depositorClaim account asset)
        (loadDepositorClaim st account asset + amount) = .error .panic := by
      rw [storeAmount, fillBytes, if_neg hclaim]
      rfl
    rw [hpanic]
    exact ⟨fun h => absurd rfl h, fun h => absurd h.1 hclaim⟩

end Calm

/-! ## The two handlers -/

/-- A deposit passes every check that comes before its ledger writes. -/
structure DepositAdmitted (w : World) (data : List UInt8) (gas : ℕ) (readOnly : Bool) :
    Prop where
  writable : readOnly = false
  gas : gasSettlement ≤ gas
  length : 64 ≤ data.length
  positive : (argWord data 32).toNat ≠ 0
  unhalted : isHalted w.storage (.haltAsset (assetID (argAddress data 0))) = false
  free : w.storage .custodyGuard = 0
  delivered : isNativeAsset (assetID (argAddress data 0)) = true →
    ((argWord data 32).toNat : ℤ) ≤ deliveredNative w

/-- The two sums a deposit writes fit a word. -/
def DepositFits (w : World) (caller : Address) (data : List UInt8) : Prop :=
  loadDepositorClaim w.storage caller (assetID (argAddress data 0)) + (argWord data 32).toNat <
      2 ^ 256 ∧
    loadSettleVault w.storage (assetID (argAddress data 0)) + (argWord data 32).toNat < 2 ^ 256

section Handlers

variable {fr : Frame} {w : World} {data : List UInt8} {gas : ℕ} {readOnly : Bool}

theorem deliveredNative_guard (value : Word) :
    deliveredNative (w.withStorage (w.storage.set .custodyGuard value)) = deliveredNative w := by
  rw [deliveredNative, deliveredNative, World.withStorage_storage, World.withStorage_bank,
    loadSettleVault, loadSettleVault, loadCustody, loadCustody,
    loadAmount_set_of_ne (by simp), loadAmount_set_of_ne (by simp)]

/-- A deposit that is refused before its ledger writes does not panic; one that reaches
them panics exactly when a sum does not fit. -/
theorem calm_runSettleDeposit :
    Calm (runSettleDeposit fr w data gas readOnly) ↔
      (DepositAdmitted w data gas readOnly → DepositFits w fr.caller data) := by
  have hbody : Calm (runSettleDeposit fr w data gas readOnly) ↔
      (¬readOnly = true → gasSettlement ≤ gas → ¬data.length < 64 →
        ¬(argWord data 32).toNat = 0 →
        ¬isHalted w.storage (.haltAsset (assetID (argAddress data 0))) = true →
        w.storage .custodyGuard = 0 →
        (isNativeAsset (assetID (argAddress data 0)) = true →
          ¬deliveredNative w < ((argWord data 32).toNat : ℤ)) →
        DepositFits w fr.caller data) := by
    rw [runSettleDeposit, calm_refuse (by decide), calm_charge_bind, calm_refuse (by decide)]
    dsimp only
    rw [calm_refuse (by decide), calm_refuse (by decide), calm_guarded]
    refine forall_congr' fun _ => forall_congr' fun _ => forall_congr' fun _ =>
      forall_congr' fun _ => forall_congr' fun _ => forall_congr' fun _ => ?_
    have hrecord : Calm (recordDeposit (w.storage.set .custodyGuard flagSet) fr.caller
        (assetID (argAddress data 0)) (argWord data 32).toNat) ↔ DepositFits w fr.caller data := by
      rw [calm_recordDeposit, DepositFits, loadDepositorClaim, loadSettleVault,
        loadAmount_set_of_ne (by simp), loadAmount_set_of_ne (by simp)]
      rfl
    by_cases hnative : isNativeAsset (assetID (argAddress data 0)) = true
    · rw [if_pos hnative, calm_refuse (by decide), deliveredNative_guard,
        calm_bind_iff fun _ => calm_ok _, World.withStorage_storage, hrecord]
      exact ⟨fun h hd => h (hd hnative), fun h hd => h fun _ => hd⟩
    · rw [if_neg hnative,
        calm_bind_iff fun st => (calm_pullERC20Terminal _ _ _ _ _).bind fun _ _ => calm_ok _,
        World.withStorage_storage, hrecord]
      exact ⟨fun h _ => h, fun h => h fun hn => absurd hn hnative⟩
  rw [hbody]
  constructor
  · intro h hadmitted
    refine h (by simp [hadmitted.writable]) hadmitted.gas (not_lt.mpr hadmitted.length)
      hadmitted.positive (by simp [hadmitted.unhalted]) hadmitted.free ?_
    exact fun hnative => not_lt.mpr (hadmitted.delivered hnative)
  · intro h hread hgas hlength hpositive hhalt hfree hdelivered
    exact h ⟨by simpa using hread, hgas, not_lt.mp hlength, hpositive, by simpa using hhalt,
      hfree, fun hnative => not_lt.mp (hdelivered hnative)⟩

/-- A withdrawal writes numbers below ones a word already holds. -/
theorem calm_runSettleWithdraw : Calm (runSettleWithdraw fr w data gas readOnly) := by
  rw [runSettleWithdraw, calm_refuse (by decide), calm_charge_bind]
  intro _ _
  rw [calm_refuse (by decide)]
  intro _
  dsimp only
  rw [calm_guarded]
  intro _
  generalize w.withStorage (w.storage.set .custodyGuard flagSet) = w₁
  split_ifs
  · exact calm_ok _
  have hclaim : loadDepositorClaim w₁.storage fr.caller (assetID (argAddress data 0)) < 2 ^ 256 :=
    wordToUint_lt _
  have hvault : loadSettleVault w₁.storage (assetID (argAddress data 0)) < 2 ^ 256 :=
    wordToUint_lt _
  refine Calm.bind (calm_storeAmount.mpr (by omega)) fun st _ => ?_
  refine Calm.bind (calm_storeAmount.mpr (by omega)) fun st' _ => ?_
  refine Calm.bind ?_ fun _ _ => calm_ok _
  rw [payWithdrawal]
  split_ifs
  · exact calm_moveNative _ _ _ _ (by decide)
  · exact calm_transferToken _ _ _ _ _ _

end Handlers

/-- In any state and for any caller and call data, with any code behind the tokens, a
deposit does not panic if and only if a check refuses it before its ledger writes or both
sums it writes fit a word; a withdrawal never panics. -/
theorem custody_panics_iff (fr : Frame) (w : World) (data : List UInt8) (gas : ℕ)
    (readOnly : Bool) :
    (Calm (runSettleDeposit fr w data gas readOnly) ↔
      (DepositAdmitted w data gas readOnly → DepositFits w fr.caller data)) ∧
    Calm (runSettleWithdraw fr w data gas readOnly) :=
  ⟨calm_runSettleDeposit, calm_runSettleWithdraw⟩

/-- A deposit of a token by its first holder. -/
def tokenDeposit (amount : ℕ) : Action :=
  callAt 0 0xA11CE 0 selDeposit (wordBytes [0x1234, BitVec.ofNat 256 amount])

/-- The holder of the whole word of a token deposits it, and then one unit more. -/
theorem second_deposit_panics :
    ¬∀ (hashes : Hashes) (w₀ : World), Genesis w₀ → ∀ (actions : List Action)
      (env : Environment) (depth : ℕ) (r : Request), selectorOf r.input = selDeposit →
        Calm (call hashes env depth (runFrom hashes w₀ actions) r) := by
  intro h
  refine h sampleHashes fundedWorld fundedWorld_genesis
    [⟨envAt 0, 1024, .credit 0x1234 0xA11CE (2 ^ 256 - 1 - 2 ^ 200)⟩,
      tokenDeposit (2 ^ 256 - 1)]
    (envAt 0) 1024 ⟨0xA11CE, vaultAddr, 0, 0, natToBytes 4 selDeposit ++ wordBytes [0x1234, 1],
      1000000, false⟩ (by decide) (errorOf_eq_some.mp ?_)
  decide

end LuxPrecompile.Settle
