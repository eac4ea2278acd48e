import LuxPrecompile.Evm.Halves
import LuxPrecompile.Evm.Store
import LuxPrecompile.Lending.Pool
import LuxPrecompile.Loans.Liquid
import LuxPrecompile.Transmutation.Transmuter

/-!
# Records written through to the state

The engines of `dex/lending.go`, `dex/liquid.go` and `dex/transmuter.go` keep their records
in maps and write two amounts of each to one word of their account.  A fresh engine reads a
record back from that word, with every other field at a fixed value.  It reads the amounts
as they were when they fill their halves of the word, or are zero.
-/

namespace LuxPrecompile.Persistence

open Evm

/-! ## One word a record -/

/-- The records of an engine by their keys, with the words of its account. -/
structure Records (κ α : Type) where
  entries : κ → Option α
  state : Store κ

section Word

variable {κ α : Type}

/-- A fresh engine over the same state. -/
def restart (records : Records κ α) : Records κ α := ⟨fun _ => none, records.state⟩

variable [DecidableEq κ] (records : Records κ α) (key : κ)

/-- A record saved with two of its amounts. -/
def save (amounts : α → ℤ × ℤ) (a : α) : Records κ α where
  entries := Function.update records.entries key (some a)
  state := records.state.set key
    (packHalves (bigBytes (amounts a).1.natAbs) (bigBytes (amounts a).2.natAbs))

/-- A record from the map, or else from the state. -/
def load (ofHalves : ℕ → ℕ → α) : Records κ α × Option α :=
  match records.entries key with
  | some a => (records, some a)
  | none =>
      let data := records.state key
      if data = 0 then (records, none)
      else
        let a := ofHalves (highHalf data) (lowHalf data)
        ({ records with entries := Function.update records.entries key (some a) }, some a)

end Word

/-- An amount that a half reads as: zero, or one of sixteen bytes. -/
def FillsHalf (amount : ℤ) : Prop := amount = 0 ∨ 2 ^ 120 ≤ amount ∧ amount < 2 ^ 128

theorem copied_natAbs_eq_iff (amount : ℤ) :
    (copied 16 amount.natAbs : ℤ) = amount ↔ FillsHalf amount := by
  rcases lt_or_ge amount 0 with hneg | hnonneg
  · refine iff_of_false ?_ ?_
    · omega
    · rintro (rfl | ⟨hlow, -⟩)
      · exact absurd hneg (lt_irrefl 0)
      · have hpow : (0 : ℤ) < 2 ^ 120 := by positivity
        omega
  · obtain ⟨n, rfl⟩ := Int.eq_ofNat_of_zero_le hnonneg
    rw [Int.natAbs_natCast, Nat.cast_inj, copied_eq_iff, bigBytes_length_eq_iff (by norm_num),
      FillsHalf]
    norm_num

section Word

variable {κ α : Type} [DecidableEq κ] (records : Records κ α) (key : κ)

/-- What a fresh engine reads of a record. -/
theorem load_restart_save (amounts : α → ℤ × ℤ) (ofHalves : ℕ → ℕ → α) (a : α) :
    (load (restart (save records key amounts a)) key ofHalves).2 =
      if (amounts a).1 = 0 ∧ (amounts a).2 = 0 then none
      else some (ofHalves (copied 16 (amounts a).1.natAbs) (copied 16 (amounts a).2.natAbs)) := by
  have hzero : ∀ amount : ℤ, bytesToNat (copyBytes 16 (bigBytes amount.natAbs)) = 0 ↔
      amount = 0 := by
    intro amount
    exact (copied_eq_zero_iff (by norm_num)).trans Int.natAbs_eq_zero
  simp only [load, restart, save, Store.set_self, packHalves_eq_zero_iff, hzero,
    highHalf_packHalves, lowHalf_packHalves, copied]
  split_ifs
  · rfl
  · rfl

theorem load_restart_save_eq_iff (amounts : α → ℤ × ℤ) (ofHalves : ℕ → ℕ → α) (a : α) :
    (load (restart (save records key amounts a)) key ofHalves).2 = some a ↔
      ¬ ((amounts a).1 = 0 ∧ (amounts a).2 = 0) ∧
        ofHalves (copied 16 (amounts a).1.natAbs) (copied 16 (amounts a).2.natAbs) = a := by
  rw [load_restart_save]
  split_ifs with hzero
  · simp [hzero]
  · simp [hzero]

end Word

/-! ## Lending -/

/-- A position with the fields that only its record has. -/
structure StoredPosition extends Lending.LendingPosition where
  owner : Address
  asset : Address
  lastUpdateBlock : UInt64
deriving DecidableEq

/-- A reserve with the fields that only its record has. -/
structure StoredReserve extends Lending.Reserve where
  asset : Address
  supplyIndex : ℤ
deriving DecidableEq

def savePosition (positions : Records (Address × Address) StoredPosition)
    (key : Address × Address) (position : StoredPosition) :
    Records (Address × Address) StoredPosition :=
  save positions key (fun p => (p.supplyShares, p.borrowAmount)) position

def getPosition (positions : Records (Address × Address) StoredPosition)
    (key : Address × Address) : Records (Address × Address) StoredPosition ×
      Option StoredPosition :=
  load positions key fun supplyShares borrowAmount =>
    { owner := 0
      asset := 0
      supplyShares := supplyShares
      borrowAmount := borrowAmount
      borrowIndex := Lending.ray
      lastUpdateBlock := 0 }

def saveReserve (reserves : Records Address StoredReserve) (reserve : StoredReserve) :
    Records Address StoredReserve :=
  save reserves reserve.asset (fun r => (r.totalSupply, r.totalBorrows)) reserve

/-- `GetReserve`, which reads the map only. -/
def getReserve (reserves : Records Address StoredReserve) (asset : Address) :
    Option StoredReserve := reserves.entries asset

/-- A position that a fresh pool reads as it was. -/
structure StoredPosition.Survives (position : StoredPosition) : Prop where
  present : ¬ (position.supplyShares = 0 ∧ position.borrowAmount = 0)
  supplyShares : FillsHalf position.supplyShares
  borrowAmount : FillsHalf position.borrowAmount
  owner : position.owner = 0
  asset : position.asset = 0
  borrowIndex : position.borrowIndex = Lending.ray
  lastUpdateBlock : position.lastUpdateBlock = 0

theorem getPosition_eq_iff (positions : Records (Address × Address) StoredPosition)
    (key : Address × Address) (position : StoredPosition) :
    (getPosition (restart (savePosition positions key position)) key).2 = some position ↔
      position.Survives := by
  rw [getPosition, savePosition, load_restart_save_eq_iff]
  obtain ⟨⟨supplyShares, borrowAmount, borrowIndex⟩, owner, asset, lastUpdateBlock⟩ := position
  simp only [StoredPosition.mk.injEq, Lending.LendingPosition.mk.injEq, copied_natAbs_eq_iff]
  constructor
  · rintro ⟨hpresent, ⟨hsupply, hborrow, rfl⟩, rfl, rfl, rfl⟩
    exact ⟨hpresent, hsupply, hborrow, rfl, rfl, rfl, rfl⟩
  · rintro ⟨hpresent, hsupply, hborrow, rfl, rfl, rfl, rfl⟩
    exact ⟨hpresent, ⟨hsupply, hborrow, rfl⟩, rfl, rfl, rfl⟩

/-! ## Loans -/

/-- An account with the fields that only its record has. -/
structure StoredAccount extends Loans.LiquidAccount where
  owner : Address
  yieldToken : Address
deriving DecidableEq

def saveAccount (accounts : Records (Address × Address) StoredAccount)
    (key : Address × Address) (acc : StoredAccount) : Records (Address × Address) StoredAccount :=
  save accounts key (fun a => (a.collateral, a.debt)) acc

def getAccount (accounts : Records (Address × Address) StoredAccount)
    (key : Address × Address) : Records (Address × Address) StoredAccount ×
      Option StoredAccount :=
  load accounts key fun collateral debt =>
    { owner := 0
      yieldToken := 0
      collateral := collateral
      debt := debt
      lastHarvestBlock := 0
      accruedYield := 0 }

/-- An account that a fresh engine reads as it was. -/
structure StoredAccount.Survives (acc : StoredAccount) : Prop where
  present : ¬ (acc.collateral = 0 ∧ acc.debt = 0)
  collateral : FillsHalf acc.collateral
  debt : FillsHalf acc.debt
  owner : acc.owner = 0
  yieldToken : acc.yieldToken = 0
  lastHarvestBlock : acc.lastHarvestBlock = 0
  accruedYield : acc.accruedYield = 0

theorem getAccount_eq_iff (accounts : Records (Address × Address) StoredAccount)
    (key : Address × Address) (acc : StoredAccount) :
    (getAccount (restart (saveAccount accounts key acc)) key).2 = some acc ↔ acc.Survives := by
  rw [getAccount, saveAccount, load_restart_save_eq_iff]
  obtain ⟨⟨collateral, debt, lastHarvestBlock, accruedYield⟩, owner, yieldToken⟩ := acc
  simp only [StoredAccount.mk.injEq, Loans.LiquidAccount.mk.injEq, copied_natAbs_eq_iff]
  constructor
  · rintro ⟨hpresent, ⟨hcollateral, hdebt, rfl, rfl⟩, rfl, rfl⟩
    exact ⟨hpresent, hcollateral, hdebt, rfl, rfl, rfl, rfl⟩
  · rintro ⟨hpresent, hcollateral, hdebt, rfl, rfl, rfl, rfl⟩
    exact ⟨hpresent, ⟨hcollateral, hdebt, rfl, rfl⟩, rfl, rfl⟩

/-! ## Transmutation -/

/-- A stake with the fields that only its record has. -/
structure StoredStake extends Transmutation.TransmuterStake where
  owner : Address
  liquidToken : Address
deriving DecidableEq

/-- The state of a liquid token with the fields that only its record has. -/
structure StoredState extends Transmutation.LiquidFXState where
  liquidToken : Address
  underlyingAsset : Address
deriving DecidableEq

def saveStake (stakes : Records (Address × Address) StoredStake) (key : Address × Address)
    (stake : StoredStake) : Records (Address × Address) StoredStake :=
  save stakes key (fun s => (s.stakedAmount, s.unclaimedAmount)) stake

def getStake (stakes : Records (Address × Address) StoredStake) (key : Address × Address) :
    Records (Address × Address) StoredStake × Option StoredStake :=
  load stakes key fun stakedAmount unclaimedAmount =>
    { owner := 0
      liquidToken := 0
      stakedAmount := stakedAmount
      unclaimedAmount := unclaimedAmount
      lastUpdateIndex := Transmutation.q96 }

def saveState (states : Records Address StoredState) (state : StoredState) :
    Records Address StoredState :=
  save states state.liquidToken (fun s => (s.exchangeBuffer, s.totalStaked)) state

/-- `GetLiquidFXState`, which reads the map only. -/
def getLiquidFXState (states : Records Address StoredState) (liquidToken : Address) :
    Option StoredState := states.entries liquidToken

/-- A stake that a fresh transmuter reads as it was. -/
structure StoredStake.Survives (stake : StoredStake) : Prop where
  present : ¬ (stake.stakedAmount = 0 ∧ stake.unclaimedAmount = 0)
  stakedAmount : FillsHalf stake.stakedAmount
  unclaimedAmount : FillsHalf stake.unclaimedAmount
  owner : stake.owner = 0
  liquidToken : stake.liquidToken = 0
  lastUpdateIndex : stake.lastUpdateIndex = Transmutation.q96

theorem getStake_eq_iff (stakes : Records (Address × Address) StoredStake)
    (key : Address × Address) (stake : StoredStake) :
    (getStake (restart (saveStake stakes key stake)) key).2 = some stake ↔ stake.Survives := by
  rw [getStake, saveStake, load_restart_save_eq_iff]
  obtain ⟨⟨stakedAmount, unclaimedAmount, lastUpdateIndex⟩, owner, liquidToken⟩ := stake
  simp only [StoredStake.mk.injEq, Transmutation.TransmuterStake.mk.injEq, copied_natAbs_eq_iff]
  constructor
  · rintro ⟨hpresent, ⟨hstaked, hunclaimed, rfl⟩, rfl, rfl⟩
    exact ⟨hpresent, hstaked, hunclaimed, rfl, rfl, rfl⟩
  · rintro ⟨hpresent, hstaked, hunclaimed, rfl, rfl, rfl⟩
    exact ⟨hpresent, ⟨hstaked, hunclaimed, rfl⟩, rfl, rfl⟩

/-! ## The round trip -/

/-- A fresh engine reads a position, an account or a stake as it was exactly when the two
amounts fill their halves and every other field has the value the reader gives it, and it
reads no reserve and no state of a liquid token at all. -/
theorem persistence_iff (key : Address × Address)
    (positions : Records (Address × Address) StoredPosition) (position : StoredPosition)
    (reserves : Records Address StoredReserve) (reserve : StoredReserve)
    (accounts : Records (Address × Address) StoredAccount) (acc : StoredAccount)
    (stakes : Records (Address × Address) StoredStake) (stake : StoredStake)
    (states : Records Address StoredState) (state : StoredState) :
    ((getPosition (restart (savePosition positions key position)) key).2 = some position ↔
        position.Survives) ∧
      getReserve (restart (saveReserve reserves reserve)) reserve.asset = none ∧
      ((getAccount (restart (saveAccount accounts key acc)) key).2 = some acc ↔ acc.Survives) ∧
      ((getStake (restart (saveStake stakes key stake)) key).2 = some stake ↔ stake.Survives) ∧
      getLiquidFXState (restart (saveState states state)) state.liquidToken = none :=
  ⟨getPosition_eq_iff positions key position, rfl, getAccount_eq_iff accounts key acc,
    getStake_eq_iff stakes key stake, rfl⟩

/-- A position of a thousand shares. -/
def samplePosition : StoredPosition where
  owner := 1
  asset := 2
  supplyShares := 1000
  borrowAmount := 0
  borrowIndex := Lending.ray
  lastUpdateBlock := 7

/-- The two bytes of a thousand become the leading ones of sixteen. -/
theorem short_amount_shifted :
    ¬ ∀ (positions : Records (Address × Address) StoredPosition) (key : Address × Address)
      (position : StoredPosition),
      (getPosition (restart (savePosition positions key position)) key).2 = some position := by
  intro hsame
  have hposition := hsame ⟨fun _ => none, fun _ => 0⟩ (1, 2) samplePosition
  have hshares : (getPosition (restart (savePosition ⟨fun _ => none, fun _ => 0⟩ (1, 2)
      samplePosition)) (1, 2)).2.map (fun p => p.supplyShares) = some (1000 * 2 ^ 112) := by
    decide
  rw [hposition] at hshares
  exact absurd hshares (by decide)

end LuxPrecompile.Persistence
