import LuxPrecompile.Settle.Surplus

/-!
# Native delivery

A call never learns the value it carried: it takes what the vault's balance exceeds
the two native ledgers by.  That is the value of the call itself exactly as long as
no earlier call left any behind, which every call but a native deposit or seed does
with all the value it carries, and a deposit with all beyond its amount.
-/

namespace LuxPrecompile.Settle

open Dex Evm Support

variable {hashes : Hashes} {env : Environment}

/-! ## Calls that leave no value behind -/

/-- The call carries no value, or funds native coin with at most what it names. -/
def Request.Exact (r : Request) : Prop :=
  r.value = 0 ∨
    (selectorOf r.input = selDeposit ∧ assetID (argAddress (r.input.drop 4) 0) = 0 ∧
      r.value ≤ (argWord (r.input.drop 4) 32).toNat) ∨
    selectorOf r.input = selSeedSeamReserve ∧ assetID (argAddress (r.input.drop 4) 0) = 0

/-- Native coin reaches the vault only as the value of an exact call. -/
def Interaction.Exact : Interaction → Prop
  | .enter r => r.Exact
  | .credit asset owner _ => ¬ (asset = native ∧ owner = vaultAddr)
  | _ => True

/-- The action and all that token code does during it are exact. -/
structure Action.Exact (a : Action) : Prop where
  interaction : a.interaction.Exact
  reactions : ∀ depth token w, ∀ i ∈ a.env.reactions depth token w, i.Exact

theorem Request.Exact.value_eq {r : Request} (h : r.Exact)
    (hfunds : ¬ FundsNative (selectorOf r.input) (r.input.drop 4)) : r.value = 0 := by
  obtain hzero | ⟨hselector, hnative, -⟩ | ⟨hselector, hnative⟩ := h
  · exact hzero
  · exact absurd ⟨.inl hselector, hnative⟩ hfunds
  · exact absurd ⟨.inr hselector, hnative⟩ hfunds

theorem FundsNative.behind {selector : ℕ} {data : List UInt8} (h : FundsNative selector data)
    {fr : Frame} {w w' : World} {gas : ℕ} {readOnly : Bool} {reply : Reply}
    (hdispatch : dispatch fr w selector data gas readOnly = .ok (w', reply)) :
    Behind fr selector data w w' := by
  obtain ⟨rfl | rfl, -⟩ := h
  · rw [dispatch_deposit] at hdispatch
    exact runSettleDeposit_ok hdispatch
  · rw [dispatch_seedSeamReserve] at hdispatch
    exact runSeedSeamReserve_ok hdispatch

/-! ## Token code behind the guard -/

/-- What other accounts do does not move the vault's native balance. -/
theorem interact_native_of_not_enter {w : World}
    (run : World → Request → Except Error (World × Reply)) {i : Interaction} (hi : i.Exact)
    (henter : ∀ r, i ≠ .enter r) :
    (interact run w i).bank native vaultAddr = w.bank native vaultAddr ∧
      (interact run w i).storage = w.storage := by
  cases i with
  | enter r => exact absurd rfl (henter r)
  | credit asset owner amount =>
      simp only [interact]
      split_ifs
      · exact ⟨(Bank.set_apply _ _ _ _ _ _).trans
          (if_neg fun hc => hi ⟨hc.1.symm, hc.2.symm⟩), rfl⟩
      · exact ⟨rfl, rfl⟩
  | debit asset owner amount =>
      simp only [interact]
      split_ifs with hself
      · exact ⟨rfl, rfl⟩
      · exact ⟨(Bank.set_apply _ _ _ _ _ _).trans
          (if_neg fun hc => hself ⟨hc.1.symm, hc.2.symm⟩), rfl⟩
  | log l =>
      simp only [interact]
      split_ifs
      · exact ⟨rfl, rfl⟩
      · exact ⟨rfl, rfl⟩

/-- Exact token code leaves the vault's native balance alone. -/
theorem interact_native {w : World} (hguard : w.storage .custodyGuard ≠ 0) {depth : ℕ}
    {i : Interaction} (hi : i.Exact) :
    (interact (call hashes env depth) w i).bank native vaultAddr = w.bank native vaultAddr := by
  cases i with
  | enter r =>
      simp only [interact, call_eq_deliver]
      cases hdeliver : deliverValue w r.caller r.value with
      | none => rfl
      | some w1 =>
          simp only
          cases hrun : run hashes env depth w1 r with
          | error e => rfl
          | ok result =>
              have hguard1 : w1.storage .custodyGuard ≠ 0 := by
                rwa [deliverValue_storage hdeliver]
              have hvault := deliverValue_vault hdeliver
              obtain ⟨d, blockNumber, -, hdispatch⟩ := run_cases hrun
              have hbank : result.1.bank = w1.bank := by
                obtain hview | hadmin := run_guarded hguard1 hrun
                · rw [hview]
                · exact hadmin.bank
              have hzero : r.value = 0 :=
                Request.Exact.value_eq hi fun hfunds => hguard1 (hfunds.behind hdispatch).1
              show result.1.bank native vaultAddr = _
              rw [hbank, hvault, hzero, add_zero]
  | credit asset owner amount =>
      exact (interact_native_of_not_enter _ hi fun r => by simp).1
  | debit asset owner amount =>
      exact (interact_native_of_not_enter _ hi fun r => by simp).1
  | log l => exact (interact_native_of_not_enter _ hi fun r => by simp).1

theorem frameOf_native (henv : ∀ depth token w, ∀ i ∈ env.reactions depth token w, i.Exact)
    (depth : ℕ) (blockNumber : UInt64) (r : Request) :
    (frameOf hashes env depth blockNumber r).Drifts (fun x y => x = y) native := by
  intro code w hb hguard
  have hfold : ((settleContract hashes).callback env depth code w).bank native vaultAddr =
        w.bank native vaultAddr ∧
      Outside hashes env.host w ((settleContract hashes).callback env depth code w) := by
    apply foldl_invariant_mem (P := fun w1 : World =>
      w1.bank native vaultAddr = w.bank native vaultAddr ∧ Outside hashes env.host w w1)
    · rintro w1 i hi ⟨hsame, hout⟩
      have hguard1 : w1.storage .custodyGuard ≠ 0 := by rwa [hout.guard]
      exact ⟨(interact_native hguard1 (henv depth code w i hi)).trans hsame,
        hout.trans (interact_outside (hout.bounded hb) hguard1 i)⟩
    · exact ⟨rfl, .refl w⟩
  exact congrArg Nat.cast hfold.1.symm

/-! ## Attribution over a run -/

/-- Every native coin of the vault is on one of the two ledgers. -/
structure Attributed (w : World) : Prop where
  bounded : w.bank.Bounded
  canonical : CustodyCanonical w.storage
  surplus_eq : surplus w native = 0

/-- After the action the vault's native coins are those of its ledgers, and a native
deposit or seed went through only on the value of its own call. -/
structure DeliveryAttributed (hashes : Hashes) (w : World) (a : Action) : Prop where
  balance : (exec hashes w a).bank native vaultAddr =
    loadSettleVault (exec hashes w a).storage 0 + loadCustody (exec hashes w a).storage 0
  delivered : ∀ r, Succeeds hashes w a r →
    FundsNative (selectorOf r.input) (r.input.drop 4) →
      (argWord (r.input.drop 4) 32).toNat ≤ r.value

theorem surplus_eq_zero_iff {w : World} : surplus w native = 0 ↔
    w.bank native vaultAddr = loadSettleVault w.storage 0 + loadCustody w.storage 0 := by
  rw [surplus, ledgers, assetID_eq_zero.mpr rfl]
  omega

theorem deliverValue_surplus {w w' : World} {caller : Address} {value : ℕ}
    (h : deliverValue w caller value = some w') :
    surplus w' native = surplus w native + value := by
  rw [surplus, deliverValue_storage h, deliverValue_vault h, surplus]
  push_cast
  ring

/-- An exact call that was delivered takes just what it carried. -/
theorem Request.Exact.taken_eq {r : Request} (h : r.Exact) {w : World}
    (hvalue : surplus w native = r.value)
    (hdelivered : FundsNative (selectorOf r.input) (r.input.drop 4) →
      ((argWord (r.input.drop 4) 32).toNat : ℤ) ≤ surplus w native) :
    taken (selectorOf r.input) (r.input.drop 4) w native = r.value := by
  by_cases hfunds : FundsNative (selectorOf r.input) (r.input.drop 4)
  · have hle := hdelivered hfunds
    unfold taken
    rw [if_pos ⟨rfl, hfunds.2⟩]
    split_ifs with hdeposit hseed
    · obtain hzero | ⟨-, -, hvalueLe⟩ | ⟨hselector, -⟩ := h
      · omega
      · omega
      · rw [hdeposit] at hselector
        exact absurd hselector (by decide)
    · exact hvalue
    · exact absurd hfunds.1 (by simp [hdeposit, hseed])
  · rw [taken_eq_zero hfunds, h.value_eq hfunds]
    rfl

/-- A successful exact call keeps every coin attributed. -/
theorem call_attributed {w w' : World} (hw : Attributed w) {depth : ℕ} {r : Request}
    (hr : r.Exact) (henv : ∀ depth token w, ∀ i ∈ env.reactions depth token w, i.Exact)
    {reply : Reply} (h : call hashes env depth w r = .ok (w', reply)) :
    Attributed w' ∧ (FundsNative (selectorOf r.input) (r.input.drop 4) →
      (argWord (r.input.drop 4) 32).toNat ≤ r.value) := by
  obtain ⟨d, blockNumber, w1, hdeliver, hdispatch⟩ := call_dispatch h
  have hcaller := (deliverValue_eq_some hdeliver).1
  have hout : Outside hashes env.host w w1 := deliverValue_outside hw.bounded hdeliver
  have hb1 := hout.bounded hw.bounded
  have hcanon1 := hout.canonical hw.canonical
  have hvalue : surplus w1 native = r.value := by
    rw [deliverValue_surplus hdeliver, hw.surplus_eq, zero_add]
  have hplain : r.value = 0 → Outside hashes env.host w1 w' → w'.bank = w1.bank →
      Attributed w' := by
    intro hzero hout' hbank
    refine ⟨hout'.bounded hb1, hout'.canonical hcanon1, ?_⟩
    rw [surplus, hbank, hout'.ledgers]
    show surplus w1 native = 0
    rw [hvalue, hzero]
    rfl
  have hfr := frameOf_guarded hashes env d blockNumber r
  have hbehind : Behind (frameOf hashes env d blockNumber r) (selectorOf r.input)
      (r.input.drop 4) w1 w' → Attributed w' ∧
        (FundsNative (selectorOf r.input) (r.input.drop 4) →
          (argWord (r.input.drop 4) 32).toNat ≤ r.value) := by
    rintro ⟨-, w2, hoperation, rfl⟩
    have hdelivered : FundsNative (selectorOf r.input) (r.input.drop 4) →
        ((argWord (r.input.drop 4) 32).toNat : ℤ) ≤ surplus w1 native :=
      fun hfunds => hoperation.delivered hfunds
    have hsurplus : surplus w1 native -
        taken (selectorOf r.input) (r.input.drop 4) w1 native = surplus w2 native :=
      hoperation.surplus drift_eq hfr (frameOf_native henv _ _ _) hb1 hcaller hcanon1
    rw [hr.taken_eq hvalue hdelivered, hvalue, sub_self] at hsurplus
    have hbounded := (hoperation.trace hfr hb1).2
    have hcanon2 := hoperation.canonical hfr hb1 hcanon1
    refine ⟨⟨hbounded, ?_, ?_⟩, fun hfunds => ?_⟩
    · exact hcanon2.of_eq fun asset => leave_storage_of_ne w2 (by simp)
    · rw [leave_surplus, ← hsurplus]
    · have hle := hdelivered hfunds
      rw [hvalue] at hle
      exact_mod_cast hle
  by_cases hfunds : FundsNative (selectorOf r.input) (r.input.drop 4)
  · exact hbehind (hfunds.behind hdispatch)
  obtain hview | hadmin | hran := dispatch_cases hdispatch
  · rw [hview] at hplain ⊢
    exact ⟨hplain (hr.value_eq hfunds) (.refl w1) rfl, fun hc => absurd hc hfunds⟩
  · exact ⟨hplain (hr.value_eq hfunds) hadmin.outside hadmin.bank, fun hc => absurd hc hfunds⟩
  · exact hbehind hran

/-- An exact action keeps every coin attributed. -/
theorem exec_attributed {w : World} (hw : Attributed w) {a : Action} (ha : a.Exact) :
    Attributed (exec hashes w a) ∧ DeliveryAttributed hashes w a := by
  have hdelivered : ∀ r, Succeeds hashes w a r →
      FundsNative (selectorOf r.input) (r.input.drop 4) →
        (argWord (r.input.drop 4) 32).toNat ≤ r.value := by
    rintro r ⟨hr, w', reply, hcall⟩
    have hexact : r.Exact := by
      have h := ha.interaction
      rwa [hr] at h
    exact (call_attributed hw hexact ha.reactions hcall).2
  have hattributed : Attributed (exec hashes w a) := by
    by_cases henter : ∃ r, a.interaction = .enter r
    · obtain ⟨r, hr⟩ := henter
      have hexact : r.Exact := by
        have h := ha.interaction
        rwa [hr] at h
      cases hcall : call hashes a.env a.depth w r with
      | error e =>
          rw [exec_refused hr hcall]
          exact hw
      | ok result =>
          have heq : exec hashes w a = result.1 := by
            simp only [exec_eq, hr, interact, hcall]
          rw [heq]
          exact (call_attributed hw hexact ha.reactions hcall).1
    · obtain ⟨hbank, hstorage⟩ := interact_native_of_not_enter (call hashes a.env a.depth)
        (w := w) ha.interaction fun r hr => henter ⟨r, hr⟩
      have hsurplus : surplus (exec hashes w a) native = surplus w native := by
        rw [surplus, exec_eq, hbank, hstorage, surplus]
      refine ⟨(exec_trace hashes hw.bounded a).2, ?_, ?_⟩
      · rw [exec_eq, hstorage]
        exact hw.canonical
      · rw [hsurplus, hw.surplus_eq]
  exact ⟨hattributed, surplus_eq_zero_iff.mp hattributed.surplus_eq, hdelivered⟩

/-- In a run of exact actions, from a vault without coins, every coin is attributed
to the call that carried it. -/
theorem native_delivery (hashes : Hashes) {w₀ : World} (hgenesis : Genesis w₀)
    (hempty : w₀.bank native vaultAddr = 0) (actions : List Action)
    (hexact : ∀ a ∈ actions, a.Exact) :
    Along (exec hashes) (DeliveryAttributed hashes) w₀ actions := by
  have hw : Attributed w₀ := by
    refine ⟨hgenesis.bounded, fun asset _ => ?_, ?_⟩
    · rw [hgenesis.storage_empty]
      rfl
    · rw [surplus_eq_zero_iff, hempty, hgenesis.storage_empty]
      rfl
  clear hgenesis hempty
  induction actions generalizing w₀ with
  | nil => trivial
  | cons a actions ih =>
      obtain ⟨hnext, hgated⟩ := exec_attributed hw (hexact a List.mem_cons_self)
      exact ⟨hgated, ih (fun b hb => hexact b (List.mem_cons_of_mem a hb)) hnext⟩

/-- A native deposit. -/
def sampleDeposit (caller : Address) (value amount : ℕ) : Action :=
  callAt 0 caller value selDeposit (wordBytes [0, BitVec.ofNat 256 amount])

/-- Two deposits that carry what they name. -/
theorem native_delivery_sample :
    DeliveryAttributed sampleHashes (exec sampleHashes fundedWorld (sampleDeposit 0xA11CE 5 5))
      (sampleDeposit 0xB0B 7 7) := by
  have hexact : ∀ a ∈ [sampleDeposit 0xA11CE 5 5, sampleDeposit 0xB0B 7 7], a.Exact := by
    intro a ha
    simp only [List.mem_cons, List.not_mem_nil, or_false] at ha
    obtain rfl | rfl := ha
    · exact ⟨.inr (.inl (by decide)), fun _ _ _ i hi => absurd hi List.not_mem_nil⟩
    · exact ⟨.inr (.inl (by decide)), fun _ _ _ i hi => absurd hi List.not_mem_nil⟩
  exact (native_delivery sampleHashes fundedWorld_genesis rfl _ hexact).2.1

/-- Ten coins left by an over-sent deposit are deposited by another caller, who
carries none, and withdrawn. -/
theorem overpaid_deposit_claimed :
    ¬ DeliveryAttributed sampleHashes fundedWorld (sampleDeposit 0xA11CE 15 5) ∧
    ¬ DeliveryAttributed sampleHashes
      (runFrom sampleHashes fundedWorld [sampleDeposit 0xA11CE 15 5])
      (sampleDeposit 0xB0B 0 10) ∧
    (runFrom sampleHashes fundedWorld
      [sampleDeposit 0xA11CE 15 5, sampleDeposit 0xB0B 0 10,
        callAt 0 0xB0B 0 selWithdraw (wordBytes [0, 10])]).bank native 0xB0B =
      fundedWorld.bank native 0xB0B + 10 := by
  refine ⟨fun h => ?_, fun h => ?_, by decide⟩
  · have hbalance := h.balance
    revert hbalance
    decide
  · have hcall : (call sampleHashes (envAt 0) 1024
        (runFrom sampleHashes fundedWorld [sampleDeposit 0xA11CE 15 5])
        ⟨0xB0B, vaultAddr, 0, 0, natToBytes 4 selDeposit ++ wordBytes [0, 10], 1000000,
          false⟩).isOk = true := by
      decide
    obtain ⟨result, hresult⟩ := exists_of_isOk hcall
    have hle := h.delivered _ ⟨rfl, result.1, result.2, hresult⟩ (by decide)
    revert hle
    decide

end LuxPrecompile.Settle
