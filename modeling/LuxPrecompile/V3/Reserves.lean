import LuxPrecompile.V3.SwapOutcome

/-!
# The custody ledger

The reserve of an asset is the part of the vault's holding that the precompile
answers for.  Tokens move by balance differences and guarded decrements, the native
coin is recognised by the surplus over its reserve.  Whatever is attached to a call
and whoever makes it, the reserve stays within the holding, and it moves by exactly
what the call reports.
-/

namespace LuxPrecompile.V3

open Dex Evm Support

/-! ## What a call reports -/

/-- The part of a pool's amounts that is in one asset. -/
def PoolKey.inAsset (pk : PoolKey) (amounts : Token → ℤ) (asset : Address) : ℤ :=
  (if pk.currency0 = asset then amounts .token0 else 0) +
    if pk.currency1 = asset then amounts .token1 else 0

/-- What an event says was taken in, less what it says was paid out. -/
def Event.net (asset : Address) : Event → ℤ
  | .mint pk _ _ amounts => pk.inAsset (fun i => amounts i) asset
  | .collect pk _ amounts => pk.inAsset (fun i => -amounts i) asset
  | .swap pk _ amounts _ _ _ => pk.inAsset amounts asset
  | .init _ _ _ => 0
  | .burn _ _ _ _ => 0

/-- What a call reports to have taken in, less what it reports to have paid out. -/
def Outcome.net (asset : Address) (out : Outcome) : ℤ :=
  match out.event with
  | some ev => ev.net asset
  | none => 0

/-! ## The vault -/

/-- No token's code takes from the vault of an asset what it was not asked for. -/
def Host.Spares (host : Host) (asset : Address) : Prop :=
  ∀ balance token sender recipient amount balance', token ≠ native →
    host.transferToken balance token sender recipient amount = some balance' →
      balance asset v3Addr ≤
        balance' asset v3Addr + if token = asset ∧ sender = v3Addr then amount else 0

theorem Host.spares_native (host : Host) : host.Spares native := fun _ _ _ _ _ _ htoken h =>
  (host.keepsNative htoken h).trans (Nat.le_add_right _ _)

/-- Balances fit their words, and the reserve of an asset is within the vault's holding. -/
structure Backed (asset : Address) (w : World) : Prop where
  fits : ∀ asset owner, w.balance asset owner < 2 ^ 256
  covered : loadReserve w.storage asset ≤ w.balance asset v3Addr

/-- The reserve of an asset moves by `x`: modulo the size of a word, and exactly where it
is backed and the vault is spared, which keeps it backed. -/
structure Moves (spared : Prop) (asset : Address) (w w' : World) (x : ℤ) : Prop where
  modulo : (loadReserve w'.storage asset : ℤ) ≡ loadReserve w.storage asset + x [ZMOD 2 ^ 256]
  exact : spared → Backed asset w → Backed asset w' ∧
    (loadReserve w'.storage asset : ℤ) = loadReserve w.storage asset + x

section Vault

variable {w w' w'' : World} {host : Host} {asset : Address}

theorem Moves.trans {spared : Prop} {x y : ℤ} (h : Moves spared asset w w' x)
    (h' : Moves spared asset w' w'' y) : Moves spared asset w w'' (x + y) := by
  refine ⟨?_, fun hspares hw => ?_⟩
  · rw [← add_assoc]
    exact h'.modulo.trans (h.modulo.add_right y)
  · obtain ⟨hw', hx⟩ := h.exact hspares hw
    obtain ⟨hw'', hy⟩ := h'.exact hspares hw'
    exact ⟨hw'', by rw [hy, hx, add_assoc]⟩

theorem Moves.still {spared : Prop}
    (hreserve : loadReserve w'.storage asset = loadReserve w.storage asset)
    (hfits : (∀ a o, w.balance a o < 2 ^ 256) → ∀ a o, w'.balance a o < 2 ^ 256)
    (hle : spared → w.balance asset v3Addr ≤ w'.balance asset v3Addr) :
    Moves spared asset w w' 0 := by
  refine ⟨?_, fun hspared hw => ⟨⟨hfits hw.fits, ?_⟩, ?_⟩⟩
  · rw [hreserve, add_zero]
  · rw [hreserve]
    exact hw.covered.trans (hle hspared)
  · rw [hreserve, add_zero]

theorem setBalance_balance (w : World) (asset owner : Address) (v : ℕ) (a o : Address) :
    (w.setBalance asset owner v).balance a o =
      if a = asset ∧ o = owner then v else w.balance a o :=
  w.balance.set_apply asset owner v a o

theorem transferToken_balance {token sender recipient : Address} {amount : ℕ}
    (h : transferToken host w token sender recipient amount = some w') :
    host.transferToken w.balance token sender recipient amount = some w'.balance := by
  obtain ⟨balance, hbalance, rfl⟩ := Option.map_eq_some_iff.mp h
  exact hbalance

theorem loadReserve_storeReserve (db : Storage) (asset a : Address) (v : ℕ) :
    loadReserve (storeReserve db asset v) a =
      if a = asset then v % 2 ^ 256 else loadReserve db a :=
  Reserves.load_store v a

/-- Adding to a reserve what the holding has room for. -/
theorem Moves.addReserve {w1 : World} {added : Address} {amount : ℕ}
    (hstorage : w1.storage = w.storage)
    (hfits : (∀ a o, w.balance a o < 2 ^ 256) → ∀ a o, w1.balance a o < 2 ^ 256)
    (hroom : host.Spares asset → Backed asset w →
      loadReserve w.storage asset + (if added = asset then amount else 0) ≤
        w1.balance asset v3Addr) :
    Moves (host.Spares asset) asset w { w1 with storage := V3.addReserve w1.storage added amount }
      (if added = asset then (amount : ℤ) else 0) := by
  have hreserve : loadReserve (V3.addReserve w1.storage added amount) asset =
      (loadReserve w.storage asset + if added = asset then amount else 0) % 2 ^ 256 := by
    refine (loadReserve_storeReserve w1.storage added asset _).trans ?_
    rw [hstorage]
    by_cases ha : asset = added
    · subst ha
      rw [if_pos rfl, if_pos rfl]
      rfl
    · have hword : loadReserve w.storage asset < 2 ^ 256 := wordToUint_lt _
      rw [if_neg ha, if_neg (Ne.symm ha), add_zero, Nat.mod_eq_of_lt hword]
  have hcast : ((if added = asset then amount else 0 : ℕ) : ℤ) =
      if added = asset then (amount : ℤ) else 0 := by
    push_cast
    rfl
  refine ⟨?_, fun hspares hw => ?_⟩
  · rw [hreserve, ← hcast]
    push_cast
    exact Int.mod_modEq _ _
  · have hle := hroom hspares hw
    have hfits' := hfits hw.fits
    rw [Nat.mod_eq_of_lt (hle.trans_lt (hfits' asset v3Addr))] at hreserve
    refine ⟨⟨hfits', hreserve.trans_le hle⟩, ?_⟩
    rw [hreserve, ← hcast]
    push_cast
    rfl

/-- Taking an asset in moves its reserve by the amount. -/
theorem Moves.pullAsset (asset : Address) {pulled sender : Address} {amount : ℕ}
    (h : pullAsset host w pulled sender amount = .ok w') :
    Moves (host.Spares asset) asset w w' (if pulled = asset then (amount : ℤ) else 0) := by
  unfold V3.pullAsset at h
  split_ifs at h with hzero hnative hvault
  · obtain rfl := Except.ok.inj h
    rw [hzero, Nat.cast_zero, ite_self]
    exact .still rfl id fun _ => le_rfl
  · simp only [bind_eq_ok, Except.ok.injEq] at h
    obtain ⟨_, hpull, rfl⟩ := h
    unfold pullExactNative at hpull
    split_ifs at hpull with hdelta
    refine .addReserve rfl id fun _ hw => ?_
    have hcovered := hw.covered
    split_ifs with hsame
    · subst hsame
      rw [hnative] at hdelta ⊢
      omega
    · exact hcovered
  · simp only [bind_eq_ok, Except.ok.injEq] at h
    obtain ⟨w1, hpull, rfl⟩ := h
    obtain ⟨htransfer, hdelta⟩ := pullExact_ok hpull
    have hbalance := transferToken_balance htransfer
    refine .addReserve (transferToken_storage htransfer) (host.fits hbalance)
      fun hspares hw => ?_
    have hcovered := hw.covered
    split_ifs with hsame
    · subst hsame
      omega
    · have hkept := hspares _ _ _ _ _ _ hnative hbalance
      rw [if_neg fun hc => hsame hc.1] at hkept
      omega

/-- Taking from a reserve what the holding then loses, or keeps. -/
theorem Moves.subReserve {w1 : World} {paid : Address} {amount : ℕ}
    (hle : amount ≤ loadReserve w.storage paid)
    (hstorage : w1.storage = storeReserve w.storage paid (loadReserve w.storage paid - amount))
    (hfits : (∀ a o, w.balance a o < 2 ^ 256) → ∀ a o, w1.balance a o < 2 ^ 256)
    (hroom : host.Spares asset → Backed asset w →
      w.balance asset v3Addr ≤ w1.balance asset v3Addr + if paid = asset then amount else 0) :
    Moves (host.Spares asset) asset w w1 (-if paid = asset then (amount : ℤ) else 0) := by
  have hreserve : (loadReserve w1.storage asset : ℤ) =
      loadReserve w.storage asset + -if paid = asset then (amount : ℤ) else 0 := by
    have hword : loadReserve w.storage paid < 2 ^ 256 := wordToUint_lt _
    rw [hstorage, loadReserve_storeReserve]
    by_cases ha : asset = paid
    · subst ha
      rw [if_pos rfl, if_pos rfl, Nat.mod_eq_of_lt (by omega)]
      omega
    · rw [if_neg ha, if_neg (Ne.symm ha), neg_zero, add_zero]
  refine ⟨hreserve ▸ Int.ModEq.refl _, fun hspares hw => ⟨⟨hfits hw.fits, ?_⟩, hreserve⟩⟩
  have hkept := hroom hspares hw
  have hcovered := hw.covered
  split_ifs at hkept hreserve with hsame
  · omega
  · omega

/-- A native payment moves the amount to the recipient. -/
theorem pushOutNative_balance {recipient : Address} {amount : ℕ}
    (h : pushOutNative w recipient amount = .ok w') :
    ((∀ a o, w.balance a o < 2 ^ 256) → ∀ a o, w'.balance a o < 2 ^ 256) ∧
      ((∀ a o, w.balance a o < 2 ^ 256) →
        w.balance native v3Addr ≤ w'.balance native v3Addr + amount) ∧
      ∀ a, a ≠ native → w'.balance a v3Addr = w.balance a v3Addr := by
  unfold pushOutNative at h
  split_ifs at h with hlarge hshort
  obtain rfl := Except.ok.inj h
  refine ⟨fun hfits a o => ?_, fun hfits => ?_, fun a ha => ?_⟩
  · rw [setBalance_balance]
    split_ifs
    · exact Nat.mod_lt _ (by positivity)
    · rw [setBalance_balance]
      split_ifs
      · exact (Nat.sub_le _ _).trans_lt (hfits native v3Addr)
      · exact hfits a o
  · have hvault := hfits native v3Addr
    rw [setBalance_balance, setBalance_balance]
    by_cases hself : v3Addr = recipient
    · subst hself
      simp only [and_self, if_true]
      rw [Nat.mod_eq_of_lt (by omega)]
      omega
    · rw [if_neg (fun hc => hself hc.2), setBalance_balance, if_pos ⟨rfl, rfl⟩]
      omega
  · rw [setBalance_balance, if_neg (fun hc => ha hc.1), setBalance_balance,
      if_neg (fun hc => ha hc.1)]

/-- Paying an asset out moves its reserve by the amount. -/
theorem Moves.payAsset (asset : Address) {paid recipient : Address} {amount : ℕ}
    (h : payAsset host w paid recipient amount = .ok w') :
    Moves (host.Spares asset) asset w w' (-if paid = asset then (amount : ℤ) else 0) := by
  have hcases := payAsset_storage h
  unfold V3.payAsset at h
  by_cases hzero : amount = 0
  · rw [if_pos hzero] at h
    obtain rfl := Except.ok.inj h
    rw [hzero, Nat.cast_zero, ite_self, neg_zero]
    exact .still rfl id fun _ => le_rfl
  obtain ⟨hle, hstorage⟩ := hcases.resolve_left fun hc => hzero hc.2
  rw [if_neg hzero] at h
  cases hsub : V3.subReserve w.storage paid amount with
  | none => simp [hsub] at h
  | some db =>
      simp only [hsub] at h
      split_ifs at h with hnative hvault
      · obtain ⟨hfits, hroom, hothers⟩ := pushOutNative_balance h
        refine .subReserve hle hstorage hfits fun _ hw => ?_
        subst hnative
        split_ifs with hsame
        · exact hsame ▸ hroom hw.fits
        · exact (hothers asset (Ne.symm hsame)).ge
      · have hbalance := transferToken_balance (pushOut_ok h)
        refine .subReserve hle hstorage (host.fits hbalance) fun hspares _ => ?_
        have hkept := hspares _ _ _ _ _ _ hnative hbalance
        simpa only [and_true] using hkept

end Vault

/-! ## One call -/

theorem inAsset_split (pk : PoolKey) (amounts : Token → ℤ) (asset : Address) (i j : Token)
    (hij : i ≠ j) :
    pk.inAsset amounts asset =
      (if pk.currency i = asset then amounts i else 0) +
        if pk.currency j = asset then amounts j else 0 := by
  unfold PoolKey.inAsset
  cases i with
  | token0 => cases j with
    | token0 => exact absurd rfl hij
    | token1 => rfl
  | token1 => cases j with
    | token0 => exact add_comm _ _
    | token1 => exact absurd rfl hij

theorem swapLoop_totalIn_nonneg {p : SwapParams} {db : Storage} {amountSpecified : ℤ}
    {fuel fuel' : ℕ} {s : SwapState} (hs : Swapping p (swapInit db p.pk amountSpecified))
    (hloop : swapLoop p fuel (swapInit db p.pk amountSpecified) = .ok (s, fuel')) :
    0 ≤ s.totalIn := by
  refine (swapLoop_invariant (P := fun s => 0 ≤ s.totalIn) ?_ fuel hs le_rfl hloop).2
  intro s s' hs htotal hok
  obtain ⟨step, growth, hstepped, haccrued⟩ := swapStep_accrued hok
  have hfee := Moved.fee_nonneg (moved_of_stepped hs.priced hs.withinLimit hstepped)
  rw [haccrued.totalIn]
  omega

theorem Moves.of_local {host : Host} {asset : Address} {w : World} {db : Storage} {pk : PoolKey}
    (h : Local pk w.storage db) : Moves (host.Spares asset) asset w { w with storage := db } 0 := by
  refine .still ?_ id fun _ => le_rfl
  unfold loadReserve
  rw [h.reserve_eq]

/-- Every transition moves the reserves by what it reports. -/
theorem Moves.transition {host : Host} {caller : Address} {w w' : World} {out : Outcome}
    (asset : Address)
    (hpriced : ∀ pk, isInitialized w.storage pk = true →
      Priced (loadSqrtPrice w.storage pk) (loadPoolTick w.storage pk))
    (h : Transition host caller w w' out) :
    Moves (host.Spares asset) asset w w' (out.net asset) := by
  cases h with
  | @init pk price gas tick hnew hlo hhi htick =>
      exact .of_local ((Local.setPool w.storage _).trans (.setPool _ _))
  | @mint pk key amount gas m w1 w2 _ _ _ _ _ hcore hpull0 hpull1 =>
      have hmoves := (Moves.of_local (modifyLiquidity_local hcore)).trans
        ((Moves.pullAsset asset hpull0).trans (.pullAsset asset hpull1))
      rwa [zero_add] at hmoves
  | @burn pk key amount gas m _ _ _ _ _ hcore =>
      exact .of_local ((modifyLiquidity_local hcore).trans (creditPrincipal_local _ key m.amounts))
  | @collect pk key gas requested w1 w2 amounts _ _ hpay0 hpay1 =>
      have hmoves := (Moves.of_local (Local.storePosition w.storage key _)).trans
        ((Moves.payAsset asset hpay0).trans (.payAsset asset hpay1))
      have hnet : (Outcome.plain [uintWord (amounts .token0), uintWord (amounts .token1)] gas
          (some (.collect pk key amounts))).net asset =
          pk.inAsset (fun i => -(amounts i : ℤ)) asset := rfl
      have hsame : pk.inAsset (fun i => -(amounts i : ℤ)) asset =
          (-if pk.currency0 = asset then (amounts .token0 : ℤ) else 0) +
            -if pk.currency1 = asset then (amounts .token1 : ℤ) else 0 := by
        unfold PoolKey.inAsset
        split_ifs <;> ring
      rw [hnet, hsame]
      rwa [zero_add] at hmoves
  | @swap p amountSpecified fuel fuel' gas s w1 w2 hinit hamount hlimit hloop hpull hpay =>
      have hs : Swapping p (swapInit w.storage p.pk amountSpecified) :=
        ⟨hpriced p.pk hinit, withinLimit_of_priceLimitOk hlimit⟩
      have htotal := swapLoop_totalIn_nonneg hs hloop
      have hlocal : Local p.pk w.storage s.storage := swapLoop_local fuel hloop
      have hmoves := (Moves.of_local (hlocal.trans persistSwap_local)).trans
        ((Moves.pullAsset asset hpull).trans (.payAsset asset hpay))
      have hne : p.tokenIn ≠ p.tokenOut := by
        unfold SwapParams.tokenIn SwapParams.tokenOut
        cases p.zeroForOne with
        | true => decide
        | false => decide
      have hnet : p.pk.inAsset (swapAmounts p.zeroForOne s.totalIn s.totalOut) asset =
          (if p.pk.currency p.tokenIn = asset then s.totalIn else 0) +
            -if p.pk.currency p.tokenOut = asset then (s.totalOut : ℤ) else 0 := by
        rw [inAsset_split p.pk _ asset p.tokenIn p.tokenOut hne, swapAmounts_tokenIn,
          swapAmounts_tokenOut]
        split_ifs <;> ring
      rw [zero_add, Int.toNat_of_nonneg htotal, ← hnet] at hmoves
      exact hmoves

/-! ## Every run -/

/-- Delivering the attached value takes nothing from the vault. -/
theorem Moves.deliverValue {host : Host} {asset : Address} {w w' : World} {caller : Address}
    {value : ℕ} (h : deliverValue w caller value = some w') :
    Moves (host.Spares asset) asset w w' 0 := by
  have hstorage := deliverValue_storage h
  unfold V3.deliverValue at h
  simp only at h
  split_ifs at h with hshort hroom
  obtain rfl := Option.some.inj h
  refine .still (by rw [hstorage]) (fun hfits a o => ?_) fun _ => ?_
  · rw [setBalance_balance]
    split_ifs
    · exact hroom
    · rw [setBalance_balance]
      split_ifs
      · exact (Nat.sub_le _ _).trans_lt (hfits _ _)
      · exact hfits _ _
  · rw [setBalance_balance]
    split_ifs with hat
    · rw [setBalance_balance, hat.1]
      by_cases hself : v3Addr = caller
      · rw [if_pos ⟨rfl, hself⟩, ← hself]
        omega
      · rw [if_neg (fun hc => hself hc.2)]
        exact Nat.le_add_right _ _
    · have hother : ¬(asset = native ∧ v3Addr = caller) := fun hc => hat ⟨hc.1, rfl⟩
      rw [setBalance_balance, if_neg hother]

/-- One call moves the reserves by what it reports. -/
theorem Moves.call {w w' : World} {c : Call} {out : Outcome} (asset : Address)
    (hpriced : ∀ pk, isInitialized w.storage pk = true →
      Priced (loadSqrtPrice w.storage pk) (loadPoolTick w.storage pk))
    (h : call w c = some (w', out)) : Moves (c.host.Spares asset) asset w w' (out.net asset) := by
  unfold V3.call at h
  cases hdeliver : V3.deliverValue w c.caller c.value with
  | none => simp [hdeliver] at h
  | some w1 =>
      simp only [hdeliver] at h
      cases hrun : run c.host w1 c.caller c.input c.gas c.readOnly with
      | error e => simp [hrun, Except.toOption] at h
      | ok res =>
          simp only [hrun, Except.toOption, Option.some.injEq] at h
          subst h
          have hdelivered : Moves (c.host.Spares asset) asset w w1 0 := .deliverValue hdeliver
          have hstorage := deliverValue_storage hdeliver
          rcases run_cases hrun with ⟨rfl, ret, gas', rfl⟩ | ⟨w2, htrans, rfl⟩
          · exact hdelivered
          · have hbetween := Moves.transition asset (by
              rw [hstorage]
              exact hpriced) htrans
            have hentered : Moves (c.host.Spares asset) asset w1
                { w1 with storage := { w1.storage with guard := 1 } } 0 :=
              .still rfl id fun _ => le_rfl
            have hleft : Moves (c.host.Spares asset) asset w2
                { w2 with storage := exitGuard w2.storage } 0 := .still rfl id fun _ => le_rfl
            have hmoves := hdelivered.trans (hentered.trans (hbetween.trans hleft))
            rwa [zero_add, zero_add, add_zero] at hmoves

theorem runFrom_append (w : World) (actions : List Action) (a : Action) :
    runFrom w (actions ++ [a]) = exec (runFrom w actions) a := by
  unfold runFrom
  rw [List.foldl_append]
  rfl

theorem reachable_priced {w : World} (hw : Genesis w) (actions : List Action) (pk : PoolKey)
    (hinit : isInitialized (runFrom w actions).1.storage pk = true) :
    Priced (loadSqrtPrice (runFrom w actions).1.storage pk)
      (loadPoolTick (runFrom w actions).1.storage pk) :=
  (reachable_consistent hw actions pk hinit).priced

/-- No action takes from the vault of an asset unasked.  The precompile's native coin it
cannot take. -/
def Action.Spares (asset : Address) : Action → Prop
  | .call c => c.host.Spares asset
  | .credit _ _ _ => True
  | .debit debited owner _ => debited = asset → owner = v3Addr → asset = native

theorem Action.spares_native (a : Action) : a.Spares native := by
  cases a with
  | call c => exact c.host.spares_native
  | credit => trivial
  | debit => exact fun _ _ => rfl

/-- A balance is set to what fits its word. -/
theorem Moves.setBalance {spared : Prop} {asset : Address} {w : World} {changed owner : Address}
    {v : ℕ} (hfits : (∀ a o, w.balance a o < 2 ^ 256) → v < 2 ^ 256)
    (hle : spared → changed = asset → owner = v3Addr → w.balance asset v3Addr ≤ v) :
    Moves spared asset w (w.setBalance changed owner v) 0 := by
  refine .still rfl (fun hbefore a o => ?_) fun hspared => ?_
  · rw [setBalance_balance]
    split_ifs
    · exact hfits hbefore
    · exact hbefore a o
  · rw [setBalance_balance]
    split_ifs with hat
    · exact hle hspared hat.1.symm hat.2.symm
    · exact le_rfl

/-- An action moves the reserves by what it adds to the reports. -/
theorem Moves.exec {w : World} (hw : Genesis w) (actions : List Action) (a : Action)
    (asset : Address) : ∃ x, ((exec (runFrom w actions) a).2.map (Outcome.net asset)).sum =
        ((runFrom w actions).2.map (Outcome.net asset)).sum + x ∧
      Moves (a.Spares asset) asset (runFrom w actions).1 (exec (runFrom w actions) a).1 x := by
  cases a with
  | call c =>
      cases hcall : V3.call (runFrom w actions).1 c with
      | none =>
          simp only [V3.exec, hcall]
          exact ⟨0, (add_zero _).symm, .still rfl id fun _ => le_rfl⟩
      | some res =>
          simp only [V3.exec, hcall]
          refine ⟨res.2.net asset, ?_, .call asset (reachable_priced hw actions) hcall⟩
          rw [List.map_cons, List.sum_cons, add_comm]
  | credit changed owner amount =>
      simp only [V3.exec]
      split_ifs with hroom
      · refine ⟨0, (add_zero _).symm, .setBalance (fun _ => hroom) ?_⟩
        rintro - rfl rfl
        exact Nat.le_add_right _ _
      · exact ⟨0, (add_zero _).symm, .still rfl id fun _ => le_rfl⟩
  | debit changed owner amount =>
      simp only [V3.exec]
      split_ifs with hown
      · exact ⟨0, (add_zero _).symm, .still rfl id fun _ => le_rfl⟩
      · refine ⟨0, (add_zero _).symm, .setBalance (fun hfits => ?_) ?_⟩
        · exact (Nat.sub_le _ _).trans_lt (hfits changed owner)
        · intro hspared hasset howner
          exact absurd ⟨hasset.trans (hspared hasset howner), howner⟩ hown

theorem reserves_modulo {w : World} (hw : Genesis w) (actions : List Action) (asset : Address) :
    (loadReserve (runFrom w actions).1.storage asset : ℤ) ≡
      ((runFrom w actions).2.map (Outcome.net asset)).sum [ZMOD 2 ^ 256] := by
  induction actions using List.reverseRecOn with
  | nil =>
      show (loadReserve w.storage asset : ℤ) ≡ 0 [ZMOD 2 ^ 256]
      rw [hw.storage_empty]
      exact Int.ModEq.refl _
  | append_singleton actions a ih =>
      obtain ⟨x, hsum, hmoves⟩ := Moves.exec hw actions a asset
      rw [runFrom_append, hsum]
      exact hmoves.modulo.trans (ih.add_right x)

theorem reachable_backed {w : World} (hw : Genesis w) {actions : List Action} {asset : Address}
    (hspares : ∀ a ∈ actions, a.Spares asset) :
    Backed asset (runFrom w actions).1 ∧
      (loadReserve (runFrom w actions).1.storage asset : ℤ) =
        ((runFrom w actions).2.map (Outcome.net asset)).sum := by
  induction actions using List.reverseRecOn with
  | nil =>
      have hzero : loadReserve w.storage asset = 0 := by
        rw [hw.storage_empty]
        exact wordToUint_zero
      exact ⟨⟨hw.balance_lt, hzero.trans_le (Nat.zero_le _)⟩, congrArg Nat.cast hzero⟩
  | append_singleton actions a ih =>
      obtain ⟨hbacked, hreserve⟩ := ih fun b hb => hspares b (List.mem_append_left _ hb)
      obtain ⟨x, hsum, hmoves⟩ := Moves.exec hw actions a asset
      obtain ⟨hbacked', hreserve'⟩ := hmoves.exact (hspares a (by simp)) hbacked
      rw [runFrom_append, hsum, ← hreserve]
      exact ⟨hbacked', hreserve'⟩

/-- After every run the reserve of an asset is, modulo the size of a word, the sum of what
the calls reported to have taken in, less what they reported to have paid out, and a call
that succeeds moves it by what it reports.  Where nothing takes from the vault unasked, as
of the native coin nothing can, both are exact and the reserve is within the holding. -/
theorem reserves_backed {w : World} (hw : Genesis w) (actions : List Action) (asset : Address) :
    (loadReserve (runFrom w actions).1.storage asset : ℤ) ≡
        ((runFrom w actions).2.map (Outcome.net asset)).sum [ZMOD 2 ^ 256] ∧
      (∀ c w' out, call (runFrom w actions).1 c = some (w', out) →
        (loadReserve w'.storage asset : ℤ) ≡
          loadReserve (runFrom w actions).1.storage asset + out.net asset [ZMOD 2 ^ 256]) ∧
      (asset = native ∨ (∀ a ∈ actions, a.Spares asset) →
        loadReserve (runFrom w actions).1.storage asset ≤
            (runFrom w actions).1.balance asset v3Addr ∧
          (loadReserve (runFrom w actions).1.storage asset : ℤ) =
            ((runFrom w actions).2.map (Outcome.net asset)).sum ∧
          ∀ c w' out, asset = native ∨ c.host.Spares asset →
            call (runFrom w actions).1 c = some (w', out) →
              (loadReserve w'.storage asset : ℤ) =
                loadReserve (runFrom w actions).1.storage asset + out.net asset) := by
  refine ⟨reserves_modulo hw actions asset, fun c w' out hcall => ?_, fun hspares => ?_⟩
  · exact (Moves.call asset (reachable_priced hw actions) hcall).modulo
  · have hspares' : ∀ a ∈ actions, a.Spares asset := by
      rcases hspares with rfl | hspares
      · exact fun a _ => a.spares_native
      · exact hspares
    obtain ⟨hbacked, hsum⟩ := reachable_backed hw hspares'
    refine ⟨hbacked.covered, hsum, fun c w' out hhost hcall => ?_⟩
    have hhost' : c.host.Spares asset := by
      rcases hhost with rfl | hhost
      · exact c.host.spares_native
      · exact hhost
    exact ((Moves.call asset (reachable_priced hw actions) hcall).exact hhost' hbacked).2

theorem reserves_backed_stopThenDust :
    loadReserve (runFrom fundedWorld stopThenDust).1.storage 1 ≤
        (runFrom fundedWorld stopThenDust).1.balance 1 v3Addr ∧
      (loadReserve (runFrom fundedWorld stopThenDust).1.storage 1 : ℤ) =
        ((runFrom fundedWorld stopThenDust).2.map (Outcome.net 1)).sum := by
  have hplain : plainHost.Spares 1 := fun _ _ _ _ _ _ _ h => plainTransfer_vault h 1
  have hspares : ∀ a ∈ stopThenDust, a.Spares 1 := by
    simp only [stopThenDust, List.forall_mem_cons, plainCall, Action.Spares, hplain, true_and]
    exact List.forall_mem_nil _
  obtain ⟨-, -, hexact⟩ := reserves_backed fundedWorld_genesis stopThenDust 1
  obtain ⟨hcovered, hsum, -⟩ := hexact (.inr hspares)
  exact ⟨hcovered, hsum⟩

end LuxPrecompile.V3
