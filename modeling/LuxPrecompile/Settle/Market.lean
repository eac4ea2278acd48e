import LuxPrecompile.Dex.TickInverse
import LuxPrecompile.Settle.Effects

/-!
# The market registry

Every market record was written once, by an `initialize` call whose arguments passed
all checks; no later call of any kind writes one of its words.  `initialize` is also
given with its writes in place, so that what a refusal leaves in storage is visible
before the host rolls anything back.
-/

namespace LuxPrecompile.Settle

open Dex Evm Support

variable {hashes : Hashes} {host : Host}

/-! ## Records -/

/-- A record that belongs under a pool id, with the key it was registered for. -/
structure Listed (hashes : Hashes) (poolID : Word) (key : PoolKey) (rec' : MarketRecord) :
    Prop where
  id : poolID = key.id hashes
  active : rec'.status = .active
  currencies : rec'.currency0 = key.currency0 ∧ rec'.currency1 = key.currency1
  sorted : rec'.currency0 < rec'.currency1
  fee : rec'.fee = key.fee ∧ rec'.fee ≤ feeMax
  spacing : rec'.tickSpacing = key.tickSpacing ∧ 0 < rec'.tickSpacing ∧
    rec'.tickSpacing ≤ maxTickSpacing
  price : minSqrtRatio ≤ rec'.sqrtPriceX96 ∧ rec'.sqrtPriceX96 < maxSqrtRatio
  tick : getTickAtSqrtRatio rec'.sqrtPriceX96 = some rec'.tick
  tickRange : minTick ≤ rec'.tick ∧ rec'.tick < maxTick

theorem checkMarketKey_ok {key : PoolKey} {price : ℕ} (h : checkMarketKey key price = .ok ()) :
    key.currency0 < key.currency1 ∧ key.fee ≤ feeMax ∧
      (0 < key.tickSpacing ∧ key.tickSpacing ≤ maxTickSpacing) ∧
      minSqrtRatio ≤ price ∧ price < maxSqrtRatio := by
  simp only [checkMarketKey, refuse_eq_ok] at h
  obtain ⟨hsorted, hfee, hspacing, hprice, -⟩ := h
  exact ⟨by simpa [currenciesSorted] using hsorted, by omega, by omega, by omega⟩

theorem newMarket_listed {key : PoolKey} {price : ℕ} {tick : ℤ} (creator : Address)
    (hcheck : checkMarketKey key price = .ok ())
    (htick : getTickAtSqrtRatio price = some tick) :
    Listed hashes (key.id hashes) key (newMarket key price tick creator) := by
  obtain ⟨hsorted, hfee, hspacing, hlo, hhi⟩ := checkMarketKey_ok hcheck
  obtain ⟨t, ht, hmin, hmax, -⟩ := getTickAtSqrtRatio_spec hlo hhi
  have heq : t = tick := by
    rw [ht] at htick
    exact Option.some.inj htick
  rw [heq] at hmin hmax
  exact ⟨rfl, rfl, ⟨rfl, rfl⟩, hsorted, ⟨rfl, hfee⟩, ⟨rfl, hspacing⟩, ⟨hlo, hhi⟩, htick, hmin,
    hmax⟩

theorem Listed.storable {poolID : Word} {key : PoolKey} {rec' : MarketRecord}
    (h : Listed hashes poolID key rec') : rec'.Storable := by
  have hmaxRatio : maxSqrtRatio < 2 ^ 256 := by decide
  have hfee := h.fee.2
  have hspacing := h.spacing.2
  have htick := h.tickRange
  simp only [feeMax, maxTickSpacing, minTick, maxTick] at hfee hspacing htick
  exact ⟨h.active, lt_trans h.price.2 hmaxRatio, by omega, by omega, by omega⟩

/-! ## The registry over a run -/

/-- Under every pool id there is nothing, or one listed record and the entry of its
registration. -/
def Registry (hashes : Hashes) (w : World) : Prop :=
  ∀ poolID, (∀ field, w.storage (.market poolID field) = 0) ∨
    ∃ key rec', Listed hashes poolID key rec' ∧ Entry.registered poolID key rec' ∈ w.journal ∧
      ∀ field, w.storage (.market poolID field) = rec'.word field

/-- A word of a listed record does not change any more. -/
def MarketsKept (w w' : World) : Prop :=
  ∀ poolID, (loadMarket w.storage poolID).status ≠ .none →
    ∀ field, w'.storage (.market poolID field) = w.storage (.market poolID field)

theorem MarketsKept.trans {w w' w'' : World} (h : MarketsKept w w') (h' : MarketsKept w' w'') :
    MarketsKept w w'' := by
  intro poolID hstatus field
  have hload : loadMarket w'.storage poolID = loadMarket w.storage poolID :=
    loadMarket_congr (h poolID hstatus)
  rw [h' poolID (by rwa [hload]) field, h poolID hstatus field]

theorem loadMarket_zero {st : Storage} {poolID : Word}
    (h : ∀ field, st (.market poolID field) = 0) : loadMarket st poolID = MarketRecord.zero := by
  have hempty : loadMarket Storage.empty poolID = MarketRecord.zero := by
    have hstatus : MarketStatus.ofByte (bytesToNat (wordSlice 0 0 1)) = .none := by decide
    simp only [loadMarket, Storage.empty, hstatus, if_true]
  rw [← hempty]
  exact loadMarket_congr h

theorem Registry.listed {w : World} (h : Registry hashes w) {poolID : Word}
    (hstatus : (loadMarket w.storage poolID).status ≠ .none) :
    ∃ key, Listed hashes poolID key (loadMarket w.storage poolID) ∧
      Entry.registered poolID key (loadMarket w.storage poolID) ∈ w.journal := by
  obtain hzero | ⟨key, rec', hlisted, hentry, hwords⟩ := h poolID
  · rw [loadMarket_zero hzero] at hstatus
    exact absurd rfl hstatus
  · rw [loadMarket_of_words hlisted.storable hwords]
    exact ⟨key, hlisted, hentry⟩

/-- Words that stay and entries that are only added keep the record of a pool id. -/
theorem registry_frame {w w' : World} {poolID : Word}
    (hstorage : ∀ field, w'.storage (.market poolID field) = w.storage (.market poolID field))
    (hjournal : ∀ e ∈ w.journal, e ∈ w'.journal)
    (h : (∀ field, w.storage (.market poolID field) = 0) ∨
      ∃ key rec', Listed hashes poolID key rec' ∧
        Entry.registered poolID key rec' ∈ w.journal ∧
        ∀ field, w.storage (.market poolID field) = rec'.word field) :
    (∀ field, w'.storage (.market poolID field) = 0) ∨
      ∃ key rec', Listed hashes poolID key rec' ∧
        Entry.registered poolID key rec' ∈ w'.journal ∧
        ∀ field, w'.storage (.market poolID field) = rec'.word field := by
  obtain hzero | ⟨key, rec', hlisted, hentry, hwords⟩ := h
  · refine .inl fun field => ?_
    rw [hstorage, hzero]
  · refine .inr ⟨key, rec', hlisted, hjournal _ hentry, fun field => ?_⟩
    rw [hstorage, hwords]

theorem AdminStep.registry {w w' : World} (h : AdminStep hashes host w w')
    (hreg : Registry hashes w) : Registry hashes w' ∧ MarketsKept w w' := by
  cases h with
  | @register st key price tick creator hcheck hnew htick hstore =>
      have hlisted : Listed hashes (key.id hashes) key (newMarket key price tick creator) :=
        newMarket_listed creator hcheck htick
      have hother : ∀ poolID, poolID ≠ key.id hashes → ∀ field,
          st (.market poolID field) = w.storage (.market poolID field) := by
        intro poolID hne field
        apply storeMarket_of_ne hstore
        intro field' hc
        exact hne (Slot.market.inj hc).1
      constructor
      · intro poolID
        by_cases hid : poolID = key.id hashes
        · rw [hid]
          exact .inr ⟨key, _, hlisted, List.mem_cons_self, storeMarket_market hstore⟩
        · exact registry_frame (hother poolID hid)
            (fun e he => List.mem_cons_of_mem _ he) (hreg poolID)
      · intro poolID hstatus
        apply hother poolID
        rintro rfl
        exact hstatus hnew
  | @halt slot on caller hslot _ =>
      have hmarket : ∀ poolID field, (w.storage.set slot (if on then flagSet else 0))
          (.market poolID field) = w.storage (.market poolID field) := by
        intro poolID field
        apply Storage.set_of_ne
        rintro rfl
        exact hslot
      exact ⟨fun poolID => registry_frame (hmarket poolID)
        (fun e he => List.mem_cons_of_mem _ he) (hreg poolID),
        fun poolID _ => hmarket poolID⟩

theorem Inner.registry {w w' : World} (h : Inner w w') (hreg : Registry hashes w) :
    Registry hashes w' ∧ MarketsKept w w' := by
  have hmarket : ∀ poolID field, w'.storage (.market poolID field) =
      w.storage (.market poolID field) := fun poolID field => h.storage _ trivial
  obtain ⟨added, -, hjournal⟩ := h.journal
  have hmem : ∀ e ∈ w.journal, e ∈ w'.journal := by
    intro e he
    rw [hjournal]
    exact List.mem_append_right added he
  exact ⟨fun poolID => registry_frame (hmarket poolID) hmem (hreg poolID),
    fun poolID _ => hmarket poolID⟩

theorem Trace.registry {w w' : World} (h : Trace hashes host w w') (hreg : Registry hashes w) :
    Registry hashes w' ∧ MarketsKept w w' := by
  induction h with
  | refl => exact ⟨hreg, fun _ _ _ => rfl⟩
  | tail _ hstep ih =>
      obtain ⟨hreg', hkept⟩ := ih
      cases hstep with
      | admin hadmin =>
          obtain ⟨hreg'', hkept'⟩ := hadmin.registry hreg'
          exact ⟨hreg'', hkept.trans hkept'⟩
      | inner hinner =>
          obtain ⟨hreg'', hkept'⟩ := hinner.registry hreg'
          exact ⟨hreg'', hkept.trans hkept'⟩

theorem runFrom_registry (hashes : Hashes) (actions : List Action) {w : World}
    (hb : w.bank.Bounded) (hreg : Registry hashes w) :
    (runFrom hashes w actions).bank.Bounded ∧ Registry hashes (runFrom hashes w actions) ∧
      MarketsKept w (runFrom hashes w actions) := by
  apply foldl_invariant (P := fun w' : World =>
    w'.bank.Bounded ∧ Registry hashes w' ∧ MarketsKept w w')
  · rintro w' a ⟨hb', hreg', hkept⟩
    obtain ⟨htrace, hbounded⟩ := exec_trace hashes hb' a
    obtain ⟨hreg'', hkept'⟩ := htrace.registry hreg'
    exact ⟨hbounded, hreg'', hkept.trans hkept'⟩
  · exact ⟨hb, hreg, fun _ _ _ => rfl⟩

theorem Genesis.registry {w : World} (h : Genesis w) : Registry hashes w := by
  intro poolID
  refine .inl fun field => ?_
  rw [h.storage_empty]
  rfl

/-! ## Initialization with its writes in place -/

/-- `SetState` on the world as it is. -/
def setState (slot : Slot) (value : Word) : EStateM Error World Unit :=
  modify fun w => w.withStorage (w.storage.set slot value)

/-- A fallible computation that does not touch the world. -/
def check {α : Type} (x : Except Error α) : EStateM Error World α :=
  match x with
  | .ok a => pure a
  | .error e => throw e

/-- `storeMarket`, one `SetState` after the other. -/
def storeMarketInPlace (poolID : Word) (rec' : MarketRecord) : EStateM Error World Unit := do
  setState (.market poolID .packed) rec'.packed
  let price ← check (fillBytes rec'.sqrtPriceX96)
  setState (.market poolID .price) price
  setState (.market poolID .currency0) (addressWord rec'.currency0)
  setState (.market poolID .currency1) (addressWord rec'.currency1)
  setState (.market poolID .creator) (addressWord rec'.creator)

/-- `runSettleInitialize` on the world as it is: what an error leaves behind is
what was written before it. -/
def initializeInPlace (fr : Frame) (data : List UInt8) (gas : ℕ) (readOnly : Bool) :
    EStateM Error World Reply :=
  if readOnly then throw .readOnly
  else do
    let gasLeft ← check (chargeGas Error.outOfGas gas gasPoolCreate)
    if data.length < 192 then throw .shortArguments
    else do
      let key ← check (decodePoolKey (slice data 0 160))
      let sqrtPriceX96 := (argWord data 160).toNat
      check (checkMarketKey key sqrtPriceX96)
      let poolID := key.id fr.hashes
      let w ← get
      if (loadMarket w.storage poolID).status ≠ .none then throw .poolAlreadyInitialized
      else
        match getTickAtSqrtRatio sqrtPriceX96 with
        | none => throw .initSqrtRange
        | some tick => do
            check (admitMarketAssets fr.host key)
            let rec' := newMarket key sqrtPriceX96 tick fr.caller
            storeMarketInPlace poolID rec'
            modify fun w => (emitInitializeEvent w poolID key sqrtPriceX96 tick).record
              (.registered poolID key rec')
            pure ⟨hashBytes (intWord tick), gasLeft⟩

/-- The outcome of a fallible computation on a world: unchanged where it fails. -/
def rolledBack (w : World) : Except Error (World × Reply) → EStateM.Result Error World Reply
  | .ok (w', reply) => .ok reply w'
  | .error e => .error e w

theorem storeMarketInPlace_eq {poolID : Word} {rec' : MarketRecord} {w : World}
    {st : Storage} (h : storeMarket w.storage poolID rec' = .ok st) :
    storeMarketInPlace poolID rec' w = .ok () (w.withStorage st) := by
  obtain ⟨hprice, rfl⟩ := storeMarket_ok h
  simp only [storeMarketInPlace, fillBytes, if_pos hprice, check]
  rfl

theorem storeMarket_total (st : Storage) (poolID : Word) {rec' : MarketRecord}
    (hprice : rec'.sqrtPriceX96 < 2 ^ 256) : ∃ st', storeMarket st poolID rec' = .ok st' := by
  simp only [storeMarket, fillBytes, if_pos hprice]
  exact ⟨_, rfl⟩

theorem newMarket_price_lt (key : PoolKey) (data : List UInt8) (tick : ℤ)
    (creator : Address) :
    (newMarket key (argWord data 160).toNat tick creator).sqrtPriceX96 < 2 ^ 256 :=
  (argWord data 160).isLt

theorem check_bind {α β : Type} (x : Except Error α) (f : α → EStateM Error World β)
    (w : World) :
    (check x >>= f) w = match x with
      | .ok a => f a w
      | .error e => .error e w := by
  cases x with
  | ok a => rfl
  | error e => rfl

theorem get_bind {β : Type} (f : World → EStateM Error World β) (w : World) :
    ((get : EStateM Error World World) >>= f) w = f w w :=
  rfl

theorem rolledBack_bind {α : Type} (w : World) (x : Except Error α)
    (f : α → Except Error (World × Reply)) :
    rolledBack w (x >>= f) = match x with
      | .ok a => rolledBack w (f a)
      | .error e => .error e w := by
  cases x with
  | ok a => rfl
  | error e => rfl

theorem rolledBack_refuse {c : Prop} [Decidable c] (w : World) (e : Error)
    (x : Except Error (World × Reply)) :
    rolledBack w (if c then .error e else x) =
      if c then .error e w else rolledBack w x := by
  split_ifs
  · rfl
  · rfl

/-- The writes come after the last check: in place or not, `initialize` leaves the
same world. -/
theorem initializeInPlace_eq (fr : Frame) (data : List UInt8) (gas : ℕ) (readOnly : Bool)
    (w : World) :
    initializeInPlace fr data gas readOnly w =
      rolledBack w (runSettleInitialize fr w data gas readOnly) := by
  unfold initializeInPlace runSettleInitialize
  by_cases hread : readOnly = true
  · rw [if_pos hread, if_pos hread]
    rfl
  rw [if_neg hread, if_neg hread, check_bind, rolledBack_bind]
  cases chargeGas Error.outOfGas gas gasPoolCreate with
  | error e => rfl
  | ok gasLeft =>
      dsimp only
      rw [rolledBack_refuse]
      by_cases hshort : data.length < 192
      · rw [if_pos hshort, if_pos hshort]
        rfl
      rw [if_neg hshort, if_neg hshort, check_bind, rolledBack_bind]
      cases decodePoolKey (slice data 0 160) with
      | error e => rfl
      | ok key =>
          dsimp only
          rw [check_bind, rolledBack_bind]
          cases checkMarketKey key (argWord data 160).toNat with
          | error e => rfl
          | ok _ =>
              dsimp only
              rw [get_bind, rolledBack_refuse]
              by_cases hstatus : (loadMarket w.storage (key.id fr.hashes)).status ≠ .none
              · rw [if_pos hstatus, if_pos hstatus]
                rfl
              rw [if_neg hstatus, if_neg hstatus]
              cases getTickAtSqrtRatio (argWord data 160).toNat with
              | none => rfl
              | some tick =>
                  dsimp only
                  rw [check_bind, rolledBack_bind]
                  cases admitMarketAssets fr.host key with
                  | error e => rfl
                  | ok _ =>
                      dsimp only
                      obtain ⟨st, hst⟩ := storeMarket_total w.storage (key.id fr.hashes)
                        (newMarket_price_lt key data tick fr.caller)
                      rw [rolledBack_bind, hst]
                      simp only [bind, EStateM.bind, storeMarketInPlace_eq hst]
                      rfl

/-! ## Write once -/

theorem loadMarket_newMarket {key : PoolKey} {price : ℕ} {tick : ℤ} {creator : Address}
    {st st' : Storage} (hcheck : checkMarketKey key price = .ok ())
    (htick : getTickAtSqrtRatio price = some tick)
    (hstore : storeMarket st (key.id hashes) (newMarket key price tick creator) = .ok st') :
    loadMarket st' (key.id hashes) = newMarket key price tick creator := by
  have hlisted : Listed hashes (key.id hashes) key (newMarket key price tick creator) :=
    newMarket_listed creator hcheck htick
  exact loadMarket_storeMarket hlisted.storable hstore

/-- In every reachable state an active record is the one its registration wrote and
passes every check of `initialize`, under the id of its own key; no word of it ever
changes again; and a refused `initialize` has written nothing. -/
theorem market_writeOnce (hashes : Hashes) {w₀ : World} (hgenesis : Genesis w₀)
    (actions later : List Action) :
    (∀ poolID, (loadMarket (runFrom hashes w₀ actions).storage poolID).status = .active →
      (∃ key, Listed hashes poolID key
          (loadMarket (runFrom hashes w₀ actions).storage poolID) ∧
        Entry.registered poolID key (loadMarket (runFrom hashes w₀ actions).storage poolID) ∈
          (runFrom hashes w₀ actions).journal) ∧
      ∀ field, (runFrom hashes w₀ (actions ++ later)).storage (.market poolID field) =
        (runFrom hashes w₀ actions).storage (.market poolID field)) ∧
    (∀ key price tick creator st st', checkMarketKey key price = .ok () →
      getTickAtSqrtRatio price = some tick →
      storeMarket st (key.id hashes) (newMarket key price tick creator) = .ok st' →
        loadMarket st' (key.id hashes) = newMarket key price tick creator) ∧
    (∀ fr w data gas readOnly e, runSettleInitialize fr w data gas readOnly = .error e →
      initializeInPlace fr data gas readOnly w = .error e w) ∧
    (∀ a r e, a.interaction = .enter r → selectorOf r.input = selInitialize →
      call hashes a.env a.depth (runFrom hashes w₀ actions) r = .error e →
        (exec hashes (runFrom hashes w₀ actions) a).storage =
          (runFrom hashes w₀ actions).storage) := by
  obtain ⟨hb, hreg, -⟩ := runFrom_registry hashes actions hgenesis.bounded hgenesis.registry
  refine ⟨?_, ?_, ?_, ?_⟩
  · intro poolID hactive
    have hstatus : (loadMarket (runFrom hashes w₀ actions).storage poolID).status ≠ .none := by
      rw [hactive]
      decide
    refine ⟨hreg.listed hstatus, ?_⟩
    obtain ⟨-, -, hkept⟩ := runFrom_registry hashes later hb hreg
    intro field
    rw [runFrom_append]
    exact hkept poolID hstatus field
  · intro key price tick creator st st' hcheck htick hstore
    exact loadMarket_newMarket hcheck htick hstore
  · intro fr w data gas readOnly e h
    rw [initializeInPlace_eq, h]
    rfl
  · intro a r e hr _ h
    rw [exec_refused hr h]

/-- The sample market, with a negative tick, after its registration and a second
attempt. -/
theorem market_writeOnce_sample :
    (loadMarket (runFrom sampleHashes fundedWorld
      ([sampleInitialize] ++ [sampleInitialize])).storage samplePool).tick = -13864 ∧
    ∃ key, Listed sampleHashes samplePool key (loadMarket (runFrom sampleHashes fundedWorld
      [sampleInitialize]).storage samplePool) := by
  obtain ⟨hactive, -⟩ := market_writeOnce sampleHashes fundedWorld_genesis [sampleInitialize]
    [sampleInitialize]
  obtain ⟨⟨key, hlisted, -⟩, hkept⟩ := hactive samplePool (by decide +kernel)
  refine ⟨?_, key, hlisted⟩
  rw [loadMarket_congr hkept]
  decide +kernel

end LuxPrecompile.Settle
