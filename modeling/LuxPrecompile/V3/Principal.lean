import LuxPrecompile.Support.Sums
import LuxPrecompile.V3.Bookkeeping

/-!
# Principal at a constant price

Mint and burn move the principal of a position, each rounded down by itself.
While no swap moves the price, the exact principal of a unit of liquidity does
not change, so what a position gets back above what it paid is what the
roundings of its mints dropped and those of its burns did not.
-/

namespace LuxPrecompile.V3

open Dex Evm Support

/-! ## The liquidity changes of a trace -/

/-- A change of a position's liquidity, with the principal it moved. -/
structure LiquidityChange where
  key : PositionKey
  amount : ℕ
  amounts : Token → ℕ

/-- The liquidity a call added to a pool. -/
def Outcome.mintIn (pk : PoolKey) (out : Outcome) : Option LiquidityChange :=
  match out.event with
  | some (.mint pool key amount amounts) =>
      if pool = pk then some ⟨key, amount, amounts⟩ else none
  | _ => none

/-- The liquidity a call removed from a pool. -/
def Outcome.burnIn (pk : PoolKey) (out : Outcome) : Option LiquidityChange :=
  match out.event with
  | some (.burn pool key amount amounts) =>
      if pool = pk then some ⟨key, amount, amounts⟩ else none
  | _ => none

/-- Whether a call swapped in a pool. -/
def Outcome.swapIn (pk : PoolKey) (out : Outcome) : Bool :=
  match out.event with
  | some (.swap pool _ _ _ _ _) => decide (pool = pk)
  | _ => false

/-- The mints of a pool in a trace. -/
def mintsOf (pk : PoolKey) (trace : List Outcome) : List LiquidityChange :=
  trace.filterMap (Outcome.mintIn pk)

/-- The burns of a pool in a trace. -/
def burnsOf (pk : PoolKey) (trace : List Outcome) : List LiquidityChange :=
  trace.filterMap (Outcome.burnIn pk)

/-- The trace has no swap of the pool. -/
def NoSwap (pk : PoolKey) (trace : List Outcome) : Prop :=
  ∀ out ∈ trace, out.swapIn pk = false

instance (pk : PoolKey) (trace : List Outcome) : Decidable (NoSwap pk trace) :=
  inferInstanceAs (Decidable (∀ out ∈ trace, out.swapIn pk = false))

/-- No mint of the pool comes after a burn; a trace has its latest call first. -/
def MintsFirst (pk : PoolKey) (trace : List Outcome) : Prop :=
  trace.Pairwise fun later earlier =>
    (later.mintIn pk).isNone ∨ (earlier.burnIn pk).isNone

instance (pk : PoolKey) (trace : List Outcome) : Decidable (MintsFirst pk trace) :=
  inferInstanceAs (Decidable (trace.Pairwise _))

/-- The principal a list of changes moved, in one token. -/
def principal (changes : List LiquidityChange) (i : Token) : ℕ :=
  (changes.map fun c => c.amounts i).sum

/-- The liquidity of one position in a list of changes. -/
def liquidityOf (changes : List LiquidityChange) (key : PositionKey) : ℕ :=
  ((withKey LiquidityChange.key changes key).map LiquidityChange.amount).sum

/-! ## Exact principal -/

/-- The exact principal of one unit of liquidity over a range of prices. -/
def unitPrincipal (price lower upper : ℕ) : Token → ℚ
  | .token0 => 2 ^ 96 * ((upper - clampPrice lower upper price : ℕ) : ℚ) /
      (clampPrice lower upper price * upper)
  | .token1 => ((clampPrice lower upper price - lower : ℕ) : ℚ) / 2 ^ 96

/-- The exact principal of one unit of liquidity of a position. -/
def PositionKey.unit (key : PositionKey) (price : ℕ) (i : Token) : ℚ :=
  unitPrincipal price (sqrtRatio key.tickLower) (sqrtRatio key.tickUpper) i

/-- The exact principal of a change of liquidity. -/
def LiquidityChange.exact (price : ℕ) (i : Token) (c : LiquidityChange) : ℚ :=
  c.amount * c.key.unit price i

/-- The change moved its exact principal, rounded down. -/
def LiquidityChange.RoundedDown (price : ℕ) (c : LiquidityChange) : Prop :=
  ∀ i, (c.amounts i : ℤ) = ⌊c.exact price i⌋

/-- What rounding down the mints of a position kept from the pool. -/
def droppedBy (price : ℕ) (changes : List LiquidityChange) (key : PositionKey)
    (i : Token) : ℚ :=
  dropped ((withKey LiquidityChange.key changes key).map (LiquidityChange.exact price i))

theorem PositionKey.unit_nonneg (key : PositionKey) (price : ℕ) (i : Token) :
    0 ≤ key.unit price i := by
  cases i with
  | token0 => exact div_nonneg (by positivity) (by positivity)
  | token1 => exact div_nonneg (by positivity) (by positivity)

theorem eq_floor_div {r x y : ℕ} (hy : 0 < y) (h : ∀ k, k ≤ r ↔ k * y ≤ x) :
    (r : ℤ) = ⌊(x : ℚ) / y⌋ := by
  have hyq : (0 : ℚ) < y := by exact_mod_cast hy
  symm
  rw [Int.floor_eq_iff, le_div_iff₀ hyq, div_lt_iff₀ hyq]
  have hle := (h r).mp le_rfl
  have hlt : ¬ (r + 1) * y ≤ x := fun hc => absurd ((h (r + 1)).mpr hc) (by omega)
  rw [not_le] at hlt
  constructor
  · exact_mod_cast hle
  · exact_mod_cast hlt

/-- Both principals of a change are the exact ones rounded down. -/
theorem roundedDown_of_amounts {price : ℕ} {key : PositionKey} {amount : ℕ}
    {amounts : Token → ℕ} (hlt : (key.tickLower : ℤ) < key.tickUpper)
    (h : getAmountsForLiquidity price (sqrtRatio key.tickLower) (sqrtRatio key.tickUpper)
      amount = some (amounts .token0, amounts .token1)) :
    LiquidityChange.RoundedDown price ⟨key, amount, amounts⟩ := by
  have hpos := sqrtRatio_pos key.tickLower.2.1 key.tickLower.2.2
  have hle := (sqrtRatio_strictMono key.tickLower.2.1 hlt key.tickUpper.2.2).le
  obtain ⟨h0, h1⟩ := getAmountsForLiquidity_spec hpos hle h
  have hclamp : 0 < clampPrice (sqrtRatio key.tickLower) (sqrtRatio key.tickUpper) price :=
    lt_of_lt_of_le hpos (le_max_left _ _)
  intro i
  cases i with
  | token0 =>
      rw [eq_floor_div (Nat.mul_pos hclamp (by omega)) h0]
      congr 1
      simp only [LiquidityChange.exact, PositionKey.unit, unitPrincipal]
      push_cast
      ring
  | token1 =>
      rw [eq_floor_div (by positivity) h1]
      congr 1
      simp only [LiquidityChange.exact, PositionKey.unit, unitPrincipal]
      push_cast
      ring

/-! ## Changes of one position -/

section Rounding

variable {price : ℕ} {changes : List LiquidityChange}

/-- The principal of one position: what its liquidity is worth, less the whole
units its roundings dropped. -/
theorem principal_withKey (h : ∀ c ∈ changes, c.RoundedDown price) (key : PositionKey)
    (i : Token) :
    (principal (withKey LiquidityChange.key changes key) i : ℤ) +
        ⌊droppedBy price changes key i⌋ =
      ⌊(liquidityOf changes key : ℚ) * key.unit price i⌋ := by
  have hkey : ∀ c ∈ withKey LiquidityChange.key changes key, c.key = key := by
    intro c hc
    simpa using List.of_mem_filter hc
  have hround : ∀ c ∈ withKey LiquidityChange.key changes key, c.RoundedDown price :=
    fun c hc => h c (List.mem_of_mem_filter hc)
  unfold droppedBy liquidityOf
  generalize withKey LiquidityChange.key changes key = entries at hkey hround
  have hexact : (entries.map (LiquidityChange.exact price i)).sum =
      ((entries.map LiquidityChange.amount).sum : ℚ) * key.unit price i := by
    clear hround
    induction entries with
    | nil => simp
    | cons c entries ih =>
        have hrest := ih (fun d hd => hkey d (List.mem_cons_of_mem _ hd))
        have hhead : c.exact price i = c.amount * key.unit price i := by
          rw [LiquidityChange.exact, hkey c List.mem_cons_self]
        simp only [List.map_cons, List.sum_cons, hrest, hhead]
        push_cast
        ring
  have hmoved : (principal entries i : ℤ) =
      ((entries.map (LiquidityChange.exact price i)).map Int.floor).sum := by
    clear hkey hexact
    unfold principal
    induction entries with
    | nil => rfl
    | cons c entries ih =>
        have hrest := ih (fun d hd => hround d (List.mem_cons_of_mem _ hd))
        simp only [List.map_cons, List.sum_cons, Nat.cast_add,
          hround c List.mem_cons_self i, hrest]
  rw [hmoved, ← floor_sum, hexact]

theorem principal_eq_sum (changes : List LiquidityChange) (i : Token) :
    (principal changes i : ℤ) =
      ∑ key, (principal (withKey LiquidityChange.key changes key) i : ℤ) := by
  unfold principal
  rw [sum_by_every_key LiquidityChange.key (fun c => c.amounts i) changes]
  push_cast
  rfl

theorem droppedBy_units_nonneg (price : ℕ) (changes : List LiquidityChange)
    (key : PositionKey) (i : Token) : 0 ≤ ⌊droppedBy price changes key i⌋ :=
  Int.floor_nonneg.mpr (dropped_nonneg _)

theorem droppedBy_units_eq_zero_iff {key : PositionKey} {i : Token} :
    ⌊droppedBy price changes key i⌋ = 0 ↔ droppedBy price changes key i < 1 :=
  floor_dropped_eq_zero_iff _

theorem droppedBy_lt_one_of_single {key : PositionKey} {i : Token}
    (h : (withKey LiquidityChange.key changes key).length ≤ 1) :
    droppedBy price changes key i < 1 := by
  unfold droppedBy dropped
  generalize withKey LiquidityChange.key changes key = entries at h
  match entries, h with
  | [], _ => simp
  | [c], _ => simpa using Int.fract_lt_one (c.exact price i)
  | _ :: _ :: _, h => simp at h

end Rounding

/-! ## Mints against burns -/

section Balance

variable {price : ℕ} {mints burns : List LiquidityChange}

/-- No position burns more liquidity than it minted. -/
def BurnsWithin (mints burns : List LiquidityChange) : Prop :=
  ∀ key, liquidityOf burns key ≤ liquidityOf mints key

theorem withKey_eq_nil {changes : List LiquidityChange} {key : PositionKey}
    (h : ∀ c ∈ changes, c.key ≠ key) : withKey LiquidityChange.key changes key = [] := by
  rw [withKey, List.filter_eq_nil_iff]
  intro c hc
  simpa using h c hc

theorem liquidityOf_eq_zero {changes : List LiquidityChange} {key : PositionKey}
    (h : ∀ c ∈ changes, c.key ≠ key) : liquidityOf changes key = 0 := by
  rw [liquidityOf, withKey_eq_nil h]
  rfl

theorem burnsWithin_iff : BurnsWithin mints burns ↔
    ∀ c ∈ burns, liquidityOf burns c.key ≤ liquidityOf mints c.key := by
  constructor
  · intro h c _
    exact h c.key
  · intro h key
    by_cases hkey : ∃ c ∈ burns, c.key = key
    · obtain ⟨c, hc, rfl⟩ := hkey
      exact h c hc
    · push Not at hkey
      rw [liquidityOf_eq_zero hkey]
      exact Nat.zero_le _

instance : Decidable (BurnsWithin mints burns) :=
  decidable_of_iff _ burnsWithin_iff.symm

/-- Every position burns what it minted, in one burn. -/
def BurnsAtOnce (mints burns : List LiquidityChange) : Prop :=
  ∀ key, (withKey LiquidityChange.key burns key).length ≤ 1 ∧
    liquidityOf burns key = liquidityOf mints key

theorem burnsAtOnce_iff : BurnsAtOnce mints burns ↔ ∀ c ∈ mints ++ burns,
    (withKey LiquidityChange.key burns c.key).length ≤ 1 ∧
      liquidityOf burns c.key = liquidityOf mints c.key := by
  constructor
  · intro h c _
    exact h c.key
  · intro h key
    by_cases hkey : ∃ c ∈ mints ++ burns, c.key = key
    · obtain ⟨c, hc, rfl⟩ := hkey
      exact h c hc
    · push Not at hkey
      have hmints := fun c hc => hkey c (List.mem_append_left burns hc)
      have hburns := fun c hc => hkey c (List.mem_append_right mints hc)
      rw [withKey_eq_nil hburns, liquidityOf_eq_zero hburns, liquidityOf_eq_zero hmints]
      exact ⟨Nat.zero_le _, rfl⟩

instance : Decidable (BurnsAtOnce mints burns) :=
  decidable_of_iff _ burnsAtOnce_iff.symm

/-- The roundings of a position's mints drop less than one unit of each
token. -/
def DropsLittle (price : ℕ) (mints : List LiquidityChange) : Prop :=
  ∀ key i, droppedBy price mints key i < 1

/-- When the mints of each position drop less than a unit, its burns get back at
most what the mints paid. -/
theorem principal_le (hmints : ∀ c ∈ mints, c.RoundedDown price)
    (hburns : ∀ c ∈ burns, c.RoundedDown price) (hwithin : BurnsWithin mints burns)
    (hdrops : DropsLittle price mints) (i : Token) :
    principal burns i ≤ principal mints i := by
  have hkeys : ∀ key, (principal (withKey LiquidityChange.key burns key) i : ℤ) ≤
      principal (withKey LiquidityChange.key mints key) i := by
    intro key
    have hpaid := principal_withKey hmints key i
    have hback := principal_withKey hburns key i
    have hnone := droppedBy_units_eq_zero_iff.mpr (hdrops key i)
    have hunits := droppedBy_units_nonneg price burns key i
    have hworth : ⌊(liquidityOf burns key : ℚ) * key.unit price i⌋ ≤
        ⌊(liquidityOf mints key : ℚ) * key.unit price i⌋ := by
      apply Int.floor_le_floor
      apply mul_le_mul_of_nonneg_right _ (key.unit_nonneg price i)
      exact_mod_cast hwithin key
    omega
  have hsum := Finset.sum_le_sum (s := Finset.univ) fun key _ => hkeys key
  rw [← principal_eq_sum, ← principal_eq_sum] at hsum
  exact_mod_cast hsum

/-- Burning every position at once returns what the mints paid and every whole
unit their roundings dropped. -/
theorem principal_atOnce (hmints : ∀ c ∈ mints, c.RoundedDown price)
    (hburns : ∀ c ∈ burns, c.RoundedDown price) (honce : BurnsAtOnce mints burns)
    (i : Token) :
    (principal burns i : ℤ) =
      principal mints i + ∑ key, ⌊droppedBy price mints key i⌋ := by
  rw [principal_eq_sum burns, principal_eq_sum mints, ← Finset.sum_add_distrib]
  apply Finset.sum_congr rfl
  intro key _
  have hpaid := principal_withKey hmints key i
  have hback := principal_withKey hburns key i
  have hsingle : ⌊droppedBy price burns key i⌋ = 0 :=
    droppedBy_units_eq_zero_iff.mpr (droppedBy_lt_one_of_single (honce key).1)
  rw [(honce key).2] at hback
  omega

/-- Burning every position at once returns more than was paid exactly when the
roundings of some position's mints dropped a whole unit. -/
theorem principal_le_iff (hmints : ∀ c ∈ mints, c.RoundedDown price)
    (hburns : ∀ c ∈ burns, c.RoundedDown price) (honce : BurnsAtOnce mints burns) :
    (∀ i, principal burns i ≤ principal mints i) ↔ DropsLittle price mints := by
  constructor
  · intro hle key i
    apply droppedBy_units_eq_zero_iff.mp
    apply eq_zero_of_sum_le (fun k => droppedBy_units_nonneg price mints k i)
    have htotal := principal_atOnce hmints hburns honce i
    have hi := hle i
    omega
  · intro hdrops
    exact principal_le hmints hburns (fun key => (honce key).2.le) hdrops

end Balance

/-! ## Every run without a swap -/

/-- Along a run without a swap of the pool its price stays, and every change of
liquidity moved its exact principal at that price, rounded down. -/
theorem quiet_run {w : World} {pk : PoolKey} (hinit : isInitialized w.storage pk = true)
    (actions : List Action) (hquiet : NoSwap pk (runFrom w actions).2) :
    (∀ c ∈ mintsOf pk (runFrom w actions).2, c.RoundedDown (loadSqrtPrice w.storage pk)) ∧
      ∀ c ∈ burnsOf pk (runFrom w actions).2,
        c.RoundedDown (loadSqrtPrice w.storage pk) := by
  have hrun := pool_invariant_from pk (w := w)
    (I := fun P trace => NoSwap pk trace → P.sqrtPrice = loadSqrtPrice w.storage pk ∧
      (∀ c ∈ mintsOf pk trace, c.RoundedDown (loadSqrtPrice w.storage pk)) ∧
      ∀ c ∈ burnsOf pk trace, c.RoundedDown (loadSqrtPrice w.storage pk))
    (fun _ => ⟨rfl, by simp [mintsOf], by simp [burnsOf]⟩) ?_ actions hquiet
  · exact hrun.2
  · intro P P' out trace hP hstep hno
    obtain ⟨hprice, hmints, hburns⟩ := hP (fun o ho => hno o (List.mem_cons_of_mem _ ho))
    have hhead := hno out List.mem_cons_self
    cases hstep with
    | idle hevent =>
        have hnone : out.mintIn pk = none ∧ out.burnIn pk = none := by
          unfold Outcome.mintIn Outcome.burnIn
          cases hev : out.event with
          | none => exact ⟨rfl, rfl⟩
          | some ev =>
              have hne := hevent ev hev
              cases ev <;> simp_all [Event.pool]
        simp only [mintsOf, burnsOf, List.filterMap_cons, hnone.1, hnone.2]
        exact ⟨hprice, hmints, hburns⟩
    | init hnew =>
        have hset : loadSqrtPrice w.storage pk ≠ 0 := isInitialized_iff.mp hinit
        exact absurd (hprice.symm.trans hnew) hset
    | mint _ hrange _ _ hmodify hevent =>
        have hround := roundedDown_of_amounts hrange.lower_lt hmodify.amounts_eq
        rw [hprice] at hround
        simp only [mintsOf, burnsOf, List.filterMap_cons, Outcome.mintIn, Outcome.burnIn,
          hevent, if_true]
        refine ⟨?_, List.forall_mem_cons.mpr ⟨hround, hmints⟩, hburns⟩
        rw [hmodify.result]
        exact hprice
    | burn _ hrange _ _ hmodify hevent =>
        have hround := roundedDown_of_amounts hrange.lower_lt hmodify.amounts_eq
        rw [hprice, Int.natAbs_neg] at hround
        simp only [mintsOf, burnsOf, List.filterMap_cons, Outcome.mintIn, Outcome.burnIn,
          hevent, if_true]
        refine ⟨?_, hmints, List.forall_mem_cons.mpr ⟨hround, hburns⟩⟩
        rw [hmodify.result]
        exact hprice
    | collect _ hevent =>
        simp only [mintsOf, burnsOf, List.filterMap_cons, Outcome.mintIn, Outcome.burnIn,
          hevent]
        exact ⟨hprice, hmints, hburns⟩
    | swap _ _ _ _ _ hevent => simp [Outcome.swapIn, hevent] at hhead

/-- In every run of an initialised pool without a swap of it, burns of at most
the minted liquidity return at most the principal paid, when the roundings of
each position's mints drop less than one unit of each token.  When every
position is burned at once, only then. -/
theorem principal_returned (w : World) (pk : PoolKey) (actions : List Action)
    (hinit : isInitialized w.storage pk = true)
    (hquiet : NoSwap pk (runFrom w actions).2) :
    (BurnsWithin (mintsOf pk (runFrom w actions).2) (burnsOf pk (runFrom w actions).2) →
      DropsLittle (loadSqrtPrice w.storage pk) (mintsOf pk (runFrom w actions).2) →
      ∀ i, principal (burnsOf pk (runFrom w actions).2) i ≤
        principal (mintsOf pk (runFrom w actions).2) i) ∧
    (BurnsAtOnce (mintsOf pk (runFrom w actions).2) (burnsOf pk (runFrom w actions).2) →
      ((∀ i, principal (burnsOf pk (runFrom w actions).2) i ≤
        principal (mintsOf pk (runFrom w actions).2) i) ↔
      DropsLittle (loadSqrtPrice w.storage pk) (mintsOf pk (runFrom w actions).2))) := by
  obtain ⟨hmints, hburns⟩ := quiet_run hinit actions hquiet
  exact ⟨principal_le hmints hburns, principal_le_iff hmints hburns⟩

/-- A pool at price one. -/
def evenPool : List Action := [plainCall 7 selInitialize (sixtyPoolWords ++ [2 ^ 96])]

/-- A deposit made in two mints, each too small to cost anything, and burned at
once. -/
def splitDeposit : List Action :=
  [plainCall 7 selMint (sixtyPoolWords ++ [intWord (-60), intWord 60, 300]),
    plainCall 7 selMint (sixtyPoolWords ++ [intWord (-60), intWord 60, 300]),
    plainCall 7 selBurn (sixtyPoolWords ++ [intWord (-60), intWord 60, 600])]

/-- The same deposit made in one mint. -/
def wholeDeposit : List Action :=
  [plainCall 7 selMint (sixtyPoolWords ++ [intWord (-60), intWord 60, 600]),
    plainCall 7 selBurn (sixtyPoolWords ++ [intWord (-60), intWord 60, 600])]

theorem principal_returned_deposits :
    ¬ DropsLittle (loadSqrtPrice (runFrom fundedWorld evenPool).1.storage sixtyPool)
      (mintsOf sixtyPool (runFrom (runFrom fundedWorld evenPool).1 splitDeposit).2) ∧
    DropsLittle (loadSqrtPrice (runFrom fundedWorld evenPool).1.storage sixtyPool)
      (mintsOf sixtyPool (runFrom (runFrom fundedWorld evenPool).1 wholeDeposit).2) := by
  constructor
  · intro hdrops
    have hle := ((principal_returned (runFrom fundedWorld evenPool).1 sixtyPool splitDeposit
      (by decide +kernel) (by decide +kernel)).2 (by decide +kernel)).mpr hdrops .token0
    exact absurd hle (by decide +kernel)
  · refine ((principal_returned (runFrom fundedWorld evenPool).1 sixtyPool wholeDeposit
      (by decide +kernel) (by decide +kernel)).2 (by decide +kernel)).mp ?_
    intro i
    cases i with
    | token0 => decide +kernel
    | token1 => decide +kernel

/-- Two mints of 300 cost nothing, and the burn of 600 is owed one unit of each
token. -/
theorem split_deposit_profits :
    ¬ ∀ (w : World) (before actions : List Action) (pk : PoolKey), Genesis w →
      isInitialized (runFrom w before).1.storage pk = true →
      NoSwap pk (runFrom (runFrom w before).1 actions).2 →
      MintsFirst pk (runFrom (runFrom w before).1 actions).2 →
      BurnsWithin (mintsOf pk (runFrom (runFrom w before).1 actions).2)
        (burnsOf pk (runFrom (runFrom w before).1 actions).2) →
      ∀ i, principal (burnsOf pk (runFrom (runFrom w before).1 actions).2) i ≤
        principal (mintsOf pk (runFrom (runFrom w before).1 actions).2) i := by
  intro h
  have hle := h fundedWorld evenPool splitDeposit sixtyPool fundedWorld_genesis
    (by decide +kernel) (by decide +kernel) (by decide +kernel) (by decide +kernel) .token0
  exact absurd hle (by decide +kernel)

end LuxPrecompile.V3
