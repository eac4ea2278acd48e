import LuxPrecompile.Lending.Solvency

/-!
# The debt of the reserve

An accrual adds its interest to the total and raises the index by the interest per unit of
the total at the first rate.  At the first rate that is the factor the total grows by.  At
any later one the index falls behind by the interest on the interest, so the debts of the
users fall behind the total.
-/

namespace LuxPrecompile.Lending.Debt

open Evm Support

/-! ## Runs -/

/-- A call on the pool: an operation, or an accrual alone. -/
inductive Call
  | operate (block : UInt64) (op : Op)
  | accrueInterest (block : UInt64)
deriving DecidableEq

namespace Call

def block : Call → UInt64
  | .operate block _ => block
  | .accrueInterest block => block

/-- The operations of a call: its own and the accrual it begins with. -/
def operations : Call → ℕ
  | .operate _ _ => 2
  | .accrueInterest _ => 1

/-- A call gets to its accrual. -/
def Accrues (lp : LendingPool) : Call → Prop
  | .operate _ op => op.Accrues lp
  | .accrueInterest _ => True

end Call

/-- The pool with the number of operations it has seen. -/
structure Ledger where
  lp : LendingPool
  operations : ℕ

def perform (lp : LendingPool) : Call → LendingPool
  | .operate block op => (operate lp block op).1
  | .accrueInterest block => accrueInterest lp block

/-- The pool after a call. -/
def record (l : Ledger) (call : Call) : Ledger :=
  ⟨perform l.lp call, l.operations + call.operations⟩

/-! ## The property -/

/-- What a position owes at an index. -/
def share (index : ℤ) (position : LendingPosition) : ℚ :=
  position.borrowAmount * index / position.borrowIndex

/-- What the users owe at the index of the pool. -/
def owed (lp : LendingPool) : ℚ :=
  ∑ user, (lp.positions user).elim 0 (share lp.reserve.borrowIndex)

/-- The part of `TotalBorrows` that no user owes. -/
def drift (lp : LendingPool) : ℚ := lp.reserve.totalBorrows - owed lp

/-- `TotalBorrows` is what the users owe, up to a unit for each operation. -/
def Balanced (l : Ledger) : Prop := |drift l.lp| ≤ l.operations

/-- The index follows an interest to within a unit.  It does at the first rate, up to what
its own rounding costs, and later when the interest on the interest so far, what the
rounding costs and the interest on `n` units are together less than a unit. -/
def IndexFollows (reserve : Reserve) (n : ℕ) (interest : ℤ) : Prop :=
  interest = 0 ∨
    0 < interest ∧
      (reserve.borrowIndex = ray ∧ interest * ray % reserve.totalBorrows < ray ∨
        ray < reserve.borrowIndex ∧
          interest * (reserve.borrowIndex - ray) + interest * ray % reserve.totalBorrows +
            n * interest * ray / reserve.totalBorrows ≤ reserve.borrowIndex)

/-- The index follows the interest that a call accrues. -/
def Follows (l : Ledger) (call : Call) : Prop :=
  call.Accrues l.lp → ∀ model interest, interestDue l.lp call.block = some (model, interest) →
    IndexFollows l.lp.reserve l.operations interest

/-! ## One position -/

/-- A position whose index the pool's has not fallen below. -/
structure Indexed (index : ℤ) (position : LendingPosition) : Prop where
  amount : 0 ≤ position.borrowAmount
  low : ray ≤ position.borrowIndex
  high : position.borrowIndex ≤ index

theorem share_nonneg {index : ℤ} {position : LendingPosition} (h : Indexed index position) :
    0 ≤ share index position := by
  have hindex : 0 ≤ index := ray_pos.le.trans (h.low.trans h.high)
  have hlow : 0 ≤ position.borrowIndex := ray_pos.le.trans h.low
  have hamount := h.amount
  rw [share]
  positivity

theorem share_at {index amount shares : ℤ} (h : ray ≤ index) :
    share index ⟨shares, amount, index⟩ = amount := by
  have hne : (index : ℚ) ≠ 0 := by
    exact_mod_cast (ray_pos.trans_le h).ne'
  rw [share, mul_div_assoc, div_self hne, mul_one]

theorem Indexed.mono {index index' : ℤ} {position : LendingPosition} (h : Indexed index position)
    (hle : index ≤ index') : Indexed index' position :=
  ⟨h.amount, h.low, h.high.trans hle⟩

theorem ediv_bounds (a : ℤ) {b : ℤ} (hb : 0 < b) :
    ((a / b : ℤ) : ℚ) ≤ a / b ∧ (a : ℚ) / b < (a / b : ℤ) + 1 := by
  have hpos : (0 : ℚ) < b := by exact_mod_cast hb
  have hle : a / b * b ≤ a := Int.ediv_mul_le a hb.ne'
  have hlt : a < (a / b + 1) * b := Int.lt_ediv_add_one_mul_self a hb
  constructor
  · rw [le_div_iff₀ hpos]
    exact_mod_cast hle
  · rw [div_lt_iff₀ hpos]
    exact_mod_cast hlt

/-- An update costs less than a unit, and nothing at the index of the position. -/
theorem updateUserBorrow_share {position : LendingPosition} {reserve : Reserve}
    (h : Indexed reserve.borrowIndex position) :
    Indexed reserve.borrowIndex (updateUserBorrow position reserve) ∧
      share reserve.borrowIndex (updateUserBorrow position reserve) =
        (updateUserBorrow position reserve).borrowAmount ∧
      0 ≤ share reserve.borrowIndex position - (updateUserBorrow position reserve).borrowAmount ∧
      share reserve.borrowIndex position - (updateUserBorrow position reserve).borrowAmount ≤ 1 ∧
      (reserve.borrowIndex = ray →
        share reserve.borrowIndex position =
          (updateUserBorrow position reserve).borrowAmount) := by
  have hpos : 0 < position.borrowIndex := ray_pos.trans_le h.low
  rw [updateUserBorrow]
  by_cases hzero : position.borrowAmount = 0
  · have hshare : share reserve.borrowIndex position = position.borrowAmount := by
      rw [share, hzero, Int.cast_zero, zero_mul, zero_div]
    rw [if_pos hzero, hshare, sub_self]
    exact ⟨h, rfl, le_rfl, zero_le_one, fun _ => rfl⟩
  · rw [if_neg hzero]
    by_cases hsame : position.borrowIndex = 0 ∨ reserve.borrowIndex = position.borrowIndex
    · have hindex := hsame.resolve_left hpos.ne'
      have hshare : share reserve.borrowIndex position = position.borrowAmount := by
        rw [hindex, share_at h.low]
      rw [if_pos hsame, hshare, sub_self]
      exact ⟨h, rfl, le_rfl, zero_le_one, fun _ => rfl⟩
    · rw [if_neg hsame]
      have hindexNonneg : 0 ≤ reserve.borrowIndex := hpos.le.trans h.high
      have hfloor := ediv_bounds (position.borrowAmount * reserve.borrowIndex) hpos
      rw [Int.cast_mul, ← share] at hfloor
      dsimp only
      refine ⟨⟨Int.ediv_nonneg (mul_nonneg h.amount hindexNonneg) hpos.le, h.low.trans h.high,
        le_rfl⟩, ?_, ?_, ?_, ?_⟩
      · exact share_at (h.low.trans h.high)
      · linarith [hfloor.1]
      · linarith [hfloor.2]
      · intro hfirst
        have heq : reserve.borrowIndex = position.borrowIndex :=
          le_antisymm (hfirst.le.trans h.low) h.high
        exact absurd (.inr heq) hsame

/-! ## What the pool keeps -/

/-- The users owe the total but for a unit of each operation, and all of it at the first
rate. -/
structure Tracks (n : ℕ) (lp : LendingPool) : Prop where
  index : ray ≤ lp.reserve.borrowIndex
  positions : ∀ user position, lp.positions user = some position →
    Indexed lp.reserve.borrowIndex position
  nonneg : 0 ≤ drift lp
  bound : drift lp ≤ n
  first : lp.reserve.borrowIndex = ray → drift lp = 0

theorem Tracks.mono {n m : ℕ} {lp : LendingPool} (h : Tracks n lp) (hle : n ≤ m) :
    Tracks m lp :=
  ⟨h.index, h.positions, h.nonneg, h.bound.trans (by exact_mod_cast hle), h.first⟩

theorem Tracks.balanced {l : Ledger} (h : Tracks l.operations l.lp) : Balanced l := by
  rw [Balanced, abs_of_nonneg h.nonneg]
  exact h.bound

theorem newReserve_tracks (balances : Address → Word) (block : UInt64)
    (collateralFactor liquidationBonus : ℤ) (rateModel : Option InterestRateModel) :
    Tracks 0 (newReserve balances block collateralFactor liquidationBonus rateModel) := by
  have howed : owed (newReserve balances block collateralFactor liquidationBonus rateModel) = 0 :=
    Finset.sum_const_zero
  have hdrift :
      drift (newReserve balances block collateralFactor liquidationBonus rateModel) = 0 := by
    rw [drift, howed, sub_zero]
    exact Int.cast_zero
  refine ⟨le_rfl, fun user position h => ?_, hdrift.ge, ?_, fun _ => hdrift⟩
  · cases h
  · rw [hdrift, Nat.cast_zero]

theorem Tracks.owed_nonneg {n : ℕ} {lp : LendingPool} (h : Tracks n lp) : 0 ≤ owed lp := by
  apply Finset.sum_nonneg
  intro user _
  cases hposition : lp.positions user with
  | none => exact le_rfl
  | some position => exact share_nonneg (h.positions user position hposition)

theorem Tracks.totalBorrows_nonneg {n : ℕ} {lp : LendingPool} (h : Tracks n lp) :
    0 ≤ lp.reserve.totalBorrows := by
  have howed := h.owed_nonneg
  have hdrift := h.nonneg
  rw [drift] at hdrift
  have htotal : (0 : ℚ) ≤ lp.reserve.totalBorrows := by linarith
  exact_mod_cast htotal

/-! ## One position changes -/

/-- The total and the debt of a user change, and the difference is at most a unit. -/
theorem Tracks.move {n : ℕ} {lp lp' : LendingPool} (h : Tracks n lp) {user : Address}
    {position : LendingPosition} (loss : ℚ)
    (hpositions : lp'.positions = Function.update lp.positions user (some position))
    (hindex : lp'.reserve.borrowIndex = lp.reserve.borrowIndex)
    (hposition : Indexed lp.reserve.borrowIndex position)
    (htotal : (lp'.reserve.totalBorrows : ℚ) +
        (lp.positions user).elim 0 (share lp.reserve.borrowIndex) =
      lp.reserve.totalBorrows + share lp.reserve.borrowIndex position + loss)
    (hnonneg : 0 ≤ loss) (hle : loss ≤ 1) (hfirst : lp.reserve.borrowIndex = ray → loss = 0) :
    Tracks (n + 1) lp' := by
  have hself : (lp'.positions user).elim 0 (share lp.reserve.borrowIndex) =
      share lp.reserve.borrowIndex position := by
    rw [hpositions, Function.update_self, Option.elim_some]
  have howed : owed lp' + (lp.positions user).elim 0 (share lp.reserve.borrowIndex) =
      owed lp + share lp.reserve.borrowIndex position := by
    rw [owed, owed, hindex, ← hself]
    apply sum_add_of_eq_off user
    intro u hu
    rw [hpositions, Function.update_of_ne hu]
  have hdrift : drift lp' = drift lp + loss := by
    rw [drift, drift]
    linarith
  refine ⟨hindex ▸ h.index, ?_, ?_, ?_, ?_⟩
  · intro u p hp
    rw [hindex]
    rw [hpositions, update_eq_some] at hp
    obtain ⟨-, rfl⟩ | ⟨-, hp⟩ := hp
    · exact hposition
    · exact h.positions u p hp
  · linarith [h.nonneg]
  · push_cast
    linarith [h.bound]
  · intro hray
    rw [hindex] at hray
    rw [hdrift, h.first hray, hfirst hray, add_zero]

/-! ## Accruals -/

theorem owed_mul_index {lp lp' : LendingPool} (hpositions : lp'.positions = lp.positions) :
    owed lp' * lp.reserve.borrowIndex = owed lp * lp'.reserve.borrowIndex := by
  rw [owed, owed, Finset.sum_mul, Finset.sum_mul, hpositions]
  apply Finset.sum_congr rfl
  intro user _
  cases lp.positions user with
  | none => simp
  | some position =>
      simp only [Option.elim_some, share]
      ring

/-- What an accrual adds to the drift: the interest on the interest so far, the rounding of
the index, and the interest on the drift. -/
theorem drift_accrue {lp lp' : LendingPool} {interest : ℤ}
    (hpositions : lp'.positions = lp.positions)
    (hindex : lp'.reserve.borrowIndex =
      lp.reserve.borrowIndex + interest * ray / lp.reserve.totalBorrows)
    (htotal : lp'.reserve.totalBorrows = lp.reserve.totalBorrows + interest) :
    (drift lp' - drift lp) * lp.reserve.borrowIndex =
      ((interest * (lp.reserve.borrowIndex - ray) +
        interest * ray % lp.reserve.totalBorrows : ℤ) : ℚ) +
        drift lp * (interest * ray / lp.reserve.totalBorrows : ℤ) := by
  have howed := owed_mul_index hpositions
  have hsplit := Int.mul_ediv_add_emod (interest * ray) lp.reserve.totalBorrows
  have hsplit' : (lp.reserve.totalBorrows : ℚ) *
        (interest * ray / lp.reserve.totalBorrows : ℤ) +
      (interest * ray % lp.reserve.totalBorrows : ℤ) = interest * ray := by
    exact_mod_cast hsplit
  rw [hindex] at howed
  rw [drift, drift, htotal]
  push_cast at howed ⊢
  linear_combination -howed - hsplit'

theorem totalBorrows_ne_zero_of_due {lp : LendingPool} {block : UInt64}
    {due : InterestRateModel × ℤ} (h : interestDue lp block = some due) :
    lp.reserve.totalBorrows ≠ 0 := by
  intro hzero
  rw [interestDue, if_pos hzero, ite_self] at h
  cases h

theorem Tracks.rise {n : ℕ} {lp lp' : LendingPool} (h : Tracks n lp)
    (hpositions : lp'.positions = lp.positions)
    (hindex : lp.reserve.borrowIndex ≤ lp'.reserve.borrowIndex)
    (hgain : 0 ≤ drift lp' - drift lp) (hunit : drift lp' - drift lp ≤ 1)
    (hfirst : lp'.reserve.borrowIndex = ray → drift lp' = 0) : Tracks (n + 1) lp' := by
  refine ⟨h.index.trans hindex, ?_, ?_, ?_, hfirst⟩
  · intro user position hposition
    rw [hpositions] at hposition
    exact (h.positions user position hposition).mono hindex
  · linarith [h.nonneg]
  · push_cast
    linarith [h.bound]

theorem carry_le {n : ℕ} {d : ℚ} {interest total : ℤ} (hinterest : 0 ≤ interest * ray)
    (htotal : 0 < total) (hd : d ≤ n) :
    d * (interest * ray / total : ℤ) ≤ (n * interest * ray / total : ℤ) := by
  have hincrease : 0 ≤ interest * ray / total := Int.ediv_nonneg hinterest htotal.le
  have hunits : n * (interest * ray / total) ≤ n * interest * ray / total := by
    rw [Int.le_ediv_iff_mul_le htotal, mul_assoc, mul_assoc]
    exact mul_le_mul_of_nonneg_left (Int.ediv_mul_le _ htotal.ne') (Int.natCast_nonneg n)
  calc d * (interest * ray / total : ℤ)
      ≤ n * (interest * ray / total : ℤ) :=
        mul_le_mul_of_nonneg_right hd (by exact_mod_cast hincrease)
    _ ≤ (n * interest * ray / total : ℤ) := by exact_mod_cast hunits

section Interest

variable {n : ℕ} {reserve : Reserve} {interest : ℤ} (h : IndexFollows reserve n interest)
  (hindex : ray ≤ reserve.borrowIndex) (htotal : 0 < reserve.totalBorrows)

include h

theorem IndexFollows.nonneg : 0 ≤ interest := by
  rcases h with rfl | ⟨hpos, -⟩
  · exact le_rfl
  · exact hpos.le

include htotal

theorem IndexFollows.increase_nonneg : 0 ≤ interest * ray / reserve.totalBorrows :=
  Int.ediv_nonneg (mul_nonneg h.nonneg ray_pos.le) htotal.le

include hindex

/-- An interest that is not zero leaves the first rate. -/
theorem IndexFollows.eq_zero
    (hsame : reserve.borrowIndex + interest * ray / reserve.totalBorrows = ray) :
    interest = 0 := by
  rcases h with hzero | ⟨hinterest, ⟨-, hless⟩ | ⟨hhigh, -⟩⟩
  · exact hzero
  · have hincrease : interest * ray / reserve.totalBorrows = 0 :=
      le_antisymm (by omega)
        (Int.ediv_nonneg (mul_nonneg hinterest.le ray_pos.le) htotal.le)
    have hsplit := Int.mul_ediv_add_emod (interest * ray) reserve.totalBorrows
    rw [hincrease, mul_zero, zero_add] at hsplit
    rw [hsplit] at hless
    have hone : ray ≤ interest * ray := le_mul_of_one_le_left ray_pos.le hinterest
    omega
  · have hincrease : 0 ≤ interest * ray / reserve.totalBorrows :=
      Int.ediv_nonneg (mul_nonneg hinterest.le ray_pos.le) htotal.le
    omega

/-- What the index misses of the interest on the debts and on a drift of `d`. -/
theorem IndexFollows.missed_bounds {d : ℚ} (hnonneg : 0 ≤ d) (hd : d ≤ n)
    (hfirst : reserve.borrowIndex = ray → d = 0) :
    0 ≤ ((interest * (reserve.borrowIndex - ray) +
        interest * ray % reserve.totalBorrows : ℤ) : ℚ) +
        d * (interest * ray / reserve.totalBorrows : ℤ) ∧
      ((interest * (reserve.borrowIndex - ray) +
        interest * ray % reserve.totalBorrows : ℤ) : ℚ) +
        d * (interest * ray / reserve.totalBorrows : ℤ) ≤ reserve.borrowIndex := by
  have hinterest := h.nonneg
  constructor
  · have hcarry : 0 ≤ d * (interest * ray / reserve.totalBorrows : ℤ) :=
      mul_nonneg hnonneg (by exact_mod_cast h.increase_nonneg htotal)
    have hmissed : 0 ≤ interest * (reserve.borrowIndex - ray) +
        interest * ray % reserve.totalBorrows :=
      add_nonneg (mul_nonneg hinterest (sub_nonneg.mpr hindex))
        (Int.emod_nonneg _ htotal.ne')
    have hmissed' : (0 : ℚ) ≤ (interest * (reserve.borrowIndex - ray) +
        interest * ray % reserve.totalBorrows : ℤ) := by
      exact_mod_cast hmissed
    linarith
  · rcases h with rfl | ⟨-, ⟨hray, hless⟩ | ⟨-, hless⟩⟩
    · simp only [zero_mul, Int.zero_ediv, Int.zero_emod, add_zero, Int.cast_zero, mul_zero]
      exact_mod_cast ray_pos.le.trans hindex
    · rw [hfirst hray, zero_mul, add_zero, hray, sub_self, mul_zero, zero_add]
      exact_mod_cast hless.le
    · have hunits := carry_le (mul_nonneg hinterest ray_pos.le) htotal hd
      have hsum : ((interest * (reserve.borrowIndex - ray) +
            interest * ray % reserve.totalBorrows : ℤ) : ℚ) +
          (n * interest * ray / reserve.totalBorrows : ℤ) ≤ reserve.borrowIndex := by
        exact_mod_cast hless
      linarith

end Interest

/-- An interest that the index follows is a debt of the users but for a unit. -/
theorem Tracks.follow {n : ℕ} {lp lp' : LendingPool} (h : Tracks n lp) {interest : ℤ}
    (hpositions : lp'.positions = lp.positions) (hborrows : lp.reserve.totalBorrows ≠ 0)
    (hindex : lp'.reserve.borrowIndex =
      lp.reserve.borrowIndex + interest * ray / lp.reserve.totalBorrows)
    (htotal : lp'.reserve.totalBorrows = lp.reserve.totalBorrows + interest)
    (hfollows : IndexFollows lp.reserve n interest) : Tracks (n + 1) lp' := by
  have htotalPos : 0 < lp.reserve.totalBorrows :=
    lt_of_le_of_ne h.totalBorrows_nonneg (Ne.symm hborrows)
  have hpos : (0 : ℚ) < lp.reserve.borrowIndex := by exact_mod_cast ray_pos.trans_le h.index
  have hdrift := drift_accrue hpositions hindex htotal
  obtain ⟨hgain, hunit⟩ := hfollows.missed_bounds h.index htotalPos h.nonneg h.bound h.first
  rw [← hdrift] at hgain hunit
  have hincrease := hfollows.increase_nonneg htotalPos
  refine h.rise hpositions (by rw [hindex]; omega) (nonneg_of_mul_nonneg_left hgain hpos)
    (le_of_mul_le_mul_right (by rwa [one_mul]) hpos) fun hray => ?_
  rw [hindex] at hray
  have hzero := hfollows.eq_zero h.index htotalPos hray
  have hlow := h.index
  have hfirst : lp.reserve.borrowIndex = ray := by omega
  rw [hzero, hfirst, h.first hfirst] at hdrift
  simpa [ray_pos.ne'] using hdrift

theorem Tracks.accrue {n : ℕ} {lp : LendingPool} (h : Tracks n lp) {block : UInt64}
    (hfollows : ∀ model interest, interestDue lp block = some (model, interest) →
      IndexFollows lp.reserve n interest) : Tracks (n + 1) (accrueInterest lp block) := by
  rw [accrueInterest]
  split_ifs with hblock
  · exact h.mono (Nat.le_succ n)
  · cases hdue : interestDue lp block with
    | none =>
        exact Tracks.mono (n := n) ⟨h.index, h.positions, h.nonneg, h.bound, h.first⟩
          (Nat.le_succ n)
    | some due =>
        obtain ⟨model, interest⟩ := due
        exact h.follow rfl (totalBorrows_ne_zero_of_due hdue) rfl rfl (hfollows _ _ hdue)

/-! ## Operations -/

section Operations

variable {n : ℕ} {lp : LendingPool} {block : UInt64} {user : Address}

theorem Tracks.shares (h : Tracks n lp) {lp' : LendingPool} {position : LendingPosition}
    (hpositions : lp'.positions = Function.update lp.positions user (some position))
    (hindex : lp'.reserve.borrowIndex = lp.reserve.borrowIndex)
    (htotal : lp'.reserve.totalBorrows = lp.reserve.totalBorrows)
    (hposition : Indexed lp.reserve.borrowIndex position)
    (hdebt : (lp.positions user).elim 0 (share lp.reserve.borrowIndex) =
      share lp.reserve.borrowIndex position) : Tracks (n + 1) lp' :=
  h.move 0 hpositions hindex hposition (by rw [htotal, hdebt, add_zero]) le_rfl
    zero_le_one fun _ => rfl

/-- A position is brought up to date, and an amount is added to it and to the total. -/
theorem Tracks.update (h : Tracks n lp) {lp' : LendingPool} {position position' : LendingPosition}
    (amount : ℤ) (hposition : lp.positions user = some position)
    (hpositions : lp'.positions = Function.update lp.positions user (some position'))
    (hindex : lp'.reserve.borrowIndex = lp.reserve.borrowIndex)
    (htotal : lp'.reserve.totalBorrows = lp.reserve.totalBorrows + amount)
    (hindexed : Indexed lp.reserve.borrowIndex position')
    (hshare : share lp.reserve.borrowIndex position' =
      (updateUserBorrow position lp.reserve).borrowAmount + amount) : Tracks (n + 1) lp' := by
  obtain ⟨-, -, hnonneg, hle, hfirst⟩ :=
    updateUserBorrow_share (h.positions user position hposition)
  refine h.move _ hpositions hindex hindexed ?_ hnonneg hle fun hray => ?_
  · rw [hposition, Option.elim_some, hshare, htotal]
    push_cast
    ring
  · rw [hfirst hray, sub_self]

theorem supply_tracks (h : Tracks n lp) {amount : ℤ}
    (hfollows : Follows ⟨lp, n⟩ (.operate block (.supply user amount))) :
    Tracks (n + 2) (supply lp block user amount).1 := by
  rw [supply]
  split_ifs with hfrozen hamount hcap
  · exact h.mono (Nat.le_add_right n 2)
  · exact h.mono (Nat.le_add_right n 2)
  · exact h.mono (Nat.le_add_right n 2)
  · have htracks : Tracks (n + 1) (Lending.accrueInterest lp block) :=
      h.accrue (hfollows (Op.accrues_supply user hfrozen hamount hcap))
    dsimp only
    generalize Lending.accrueInterest lp block = lp' at htracks
    refine htracks.shares rfl rfl rfl ?_ ?_
    · cases hposition : lp'.positions user with
      | none => exact ⟨le_rfl, htracks.index, le_rfl⟩
      | some position =>
          have hindexed := htracks.positions user position hposition
          exact ⟨hindexed.amount, hindexed.low, hindexed.high⟩
    · cases hposition : lp'.positions user with
      | none => simp [share]
      | some position => rfl

theorem withdraw_tracks (h : Tracks n lp) {shareAmount : ℤ}
    (hfollows : Follows ⟨lp, n⟩ (.operate block (.withdraw user shareAmount))) :
    Tracks (n + 2) (withdraw lp block user shareAmount).1 := by
  have hstay := h.mono (Nat.le_add_right n 2)
  rw [withdraw]
  by_cases hactive : lp.reserve.isActive = false
  · rw [if_pos hactive]
    exact hstay
  rw [if_neg hactive]
  cases hposition : lp.positions user with
  | none => exact hstay
  | some position =>
      dsimp only
      by_cases hshares : position.supplyShares = 0
      · rw [if_pos hshares]
        exact hstay
      rw [if_neg hshares]
      have htracks : Tracks (n + 1) (accrueInterest lp block) := h.accrue (hfollows
        ⟨Bool.eq_true_of_not_eq_false hactive, position, hposition, hshares⟩)
      have hsame := accrueInterest_positions lp block
      generalize accrueInterest lp block = lp' at htracks hsame
      rw [← hsame] at hposition
      have hindexed := htracks.positions user position hposition
      generalize (if position.supplyShares < shareAmount then position.supplyShares
        else shareAmount) = withdrawShares
      split_ifs with hunhealthy hliquidity
      · exact htracks.mono (Nat.le_succ _)
      · exact htracks.mono (Nat.le_succ _)
      · refine htracks.shares rfl rfl rfl ⟨hindexed.amount, hindexed.low, hindexed.high⟩ ?_
        rw [hposition]
        rfl

theorem borrow_tracks (h : Tracks n lp) {amount : ℤ}
    (hfollows : Follows ⟨lp, n⟩ (.operate block (.borrow user amount))) :
    Tracks (n + 2) (borrow lp block user amount).1 := by
  have hstay := h.mono (Nat.le_add_right n 2)
  rw [borrow]
  split_ifs with hdisabled hamount hcap
  · exact hstay
  · exact hstay
  · exact hstay
  · have htracks : Tracks (n + 1) (Lending.accrueInterest lp block) :=
      h.accrue (hfollows (Op.accrues_borrow user hdisabled hamount hcap))
    dsimp only
    generalize Lending.accrueInterest lp block = lp' at htracks
    cases hposition : lp'.positions user with
    | none => exact htracks.mono (Nat.le_succ _)
    | some position =>
        have hindexed := htracks.positions user position hposition
        obtain ⟨hupdated, hshare, -⟩ := updateUserBorrow_share hindexed
        have hadded : 0 ≤ (updateUserBorrow position lp'.reserve).borrowAmount + amount :=
          add_nonneg hupdated.amount (not_le.mp hamount).le
        have hrefused : Tracks (n + 2)
            (lp'.savePosition user (updateUserBorrow position lp'.reserve)) :=
          htracks.update 0 hposition rfl rfl (add_zero _).symm hupdated
            (by rw [hshare, Int.cast_zero, add_zero])
        dsimp only
        split_ifs with hmax hliquidity
        · exact hrefused
        · exact hrefused
        · refine htracks.update amount hposition (Function.update_idem _ _ _) rfl rfl
            ⟨hadded, htracks.index, le_rfl⟩ ?_
          rw [← Int.cast_add]
          exact share_at htracks.index

theorem repay_tracks (h : Tracks n lp) {amount : ℤ}
    (hfollows : Follows ⟨lp, n⟩ (.operate block (.repay user amount))) :
    Tracks (n + 2) (repay lp block user amount).1 := by
  have hstay := h.mono (Nat.le_add_right n 2)
  rw [repay]
  cases hposition : lp.positions user with
  | none => exact hstay
  | some position =>
      dsimp only
      by_cases hdebt : position.borrowAmount = 0
      · rw [if_pos hdebt]
        exact hstay
      rw [if_neg hdebt]
      have htracks : Tracks (n + 1) (accrueInterest lp block) :=
        h.accrue (hfollows ⟨position, hposition, hdebt⟩)
      have hsame := accrueInterest_positions lp block
      generalize accrueInterest lp block = lp' at htracks hsame
      rw [← hsame] at hposition
      have hindexed := htracks.positions user position hposition
      obtain ⟨hupdated, -⟩ := updateUserBorrow_share hindexed
      generalize hrepay : (if (updateUserBorrow position lp'.reserve).borrowAmount < amount then
        (updateUserBorrow position lp'.reserve).borrowAmount else amount) = repayAmount
      have hleft : 0 ≤ (updateUserBorrow position lp'.reserve).borrowAmount - repayAmount := by
        rw [← hrepay]
        split_ifs
        · omega
        · omega
      refine htracks.update (-repayAmount) hposition rfl rfl (sub_eq_add_neg _ _)
        ⟨hleft, htracks.index, le_rfl⟩ ?_
      rw [← Int.cast_add, ← sub_eq_add_neg]
      exact share_at htracks.index

end Operations

/-! ## The identity -/

theorem record_tracks {l : Ledger} {call : Call} (h : Tracks l.operations l.lp)
    (hfollows : Follows l call) :
    Tracks (record l call).operations (record l call).lp := by
  cases call with
  | operate block op =>
      cases op with
      | supply user amount => exact supply_tracks h hfollows
      | withdraw user shareAmount => exact withdraw_tracks h hfollows
      | borrow user amount => exact borrow_tracks h hfollows
      | repay user amount => exact repay_tracks h hfollows
  | accrueInterest block => exact h.accrue (hfollows trivial)

/-- As long as the index follows the interest, the total is what the users owe. -/
theorem debt_identity (balances : Address → Word) (block : UInt64)
    (collateralFactor liquidationBonus : ℤ) (rateModel : Option InterestRateModel)
    (calls : List Call)
    (hfollows : Along record Follows
      ⟨newReserve balances block collateralFactor liquidationBonus rateModel, 0⟩ calls) :
    Balanced (calls.foldl record
      ⟨newReserve balances block collateralFactor liquidationBonus rateModel, 0⟩) := by
  apply Tracks.balanced
  exact Along.invariant (I := fun l : Ledger => Tracks l.operations l.lp)
    (fun _ _ => record_tracks) calls
    (newReserve_tracks balances block collateralFactor liquidationBonus rateModel) hfollows

/-! ## Sample runs -/

instance (reserve : Reserve) (n : ℕ) (interest : ℤ) :
    Decidable (IndexFollows reserve n interest) :=
  inferInstanceAs (Decidable (interest = 0 ∨ _ ∧ (_ ∨ _)))

theorem follows_of_due {l : Ledger} {call : Call} (model : InterestRateModel) (interest : ℤ)
    (hdue : interestDue l.lp call.block = some (model, interest))
    (h : IndexFollows l.lp.reserve l.operations interest) : Follows l call := by
  intro _ model' interest' hdue'
  rw [hdue] at hdue'
  rw [← (Prod.mk.inj (Option.some.inj hdue')).2]
  exact h

theorem follows_of_none {l : Ledger} {call : Call} (hdue : interestDue l.lp call.block = none) :
    Follows l call := by
  intro _ model interest hdue'
  rw [hdue] at hdue'
  cases hdue'

/-- The reserve of the samples, with the default rates. -/
def samplePool : LendingPool :=
  newReserve (fun _ => 5000) 1 (75 * ray / 100) (5 * ray / 100) (some defaultInterestRateModel)

/-- A loan of seven hundred units that accrues twice. -/
def smallLoan : List Call :=
  [.operate 1 (.supply 1 1000), .operate 1 (.borrow 1 700), .accrueInterest 15768001,
    .accrueInterest 23652001, .operate 23652001 (.repay 1 5)]

theorem debt_identity_small :
    Balanced (smallLoan.foldl record ⟨samplePool, 0⟩) ∧
      (smallLoan.foldl record ⟨samplePool, 0⟩).lp.reserve.totalBorrows = 724 :=
  ⟨debt_identity (fun _ => 5000) 1 (75 * ray / 100) (5 * ray / 100)
      (some defaultInterestRateModel) smallLoan
      ⟨follows_of_none (by decide), follows_of_none (by decide),
        follows_of_due defaultInterestRateModel 19 (by decide)
          (by decide),
        follows_of_due defaultInterestRateModel 10 (by decide)
          (by decide),
        follows_of_none (by decide), trivial⟩,
    by decide⟩

/-- The user whose position a call is about. -/
def Call.user : Call → Option Address
  | .operate _ op => some op.user
  | .accrueInterest _ => none

theorem perform_positions_of_ne (lp : LendingPool) (call : Call) {user : Address}
    (h : call.user ≠ some user) : (perform lp call).positions user = lp.positions user := by
  cases call with
  | operate block op =>
      exact operate_positions_of_ne lp block op fun hu => h (congrArg some hu.symm)
  | accrueInterest block => exact congrFun (accrueInterest_positions lp block) user

/-- Half of a supply of a thousand, borrowed for two years. -/
def yearlyAccruals : List Call :=
  [.operate 1 (.supply 1 (1000 * ray)), .operate 1 (.borrow 1 (500 * ray)),
    .accrueInterest 15768001, .accrueInterest 31536001]

/-- The second year's interest on the first year's is in the total and in no debt. -/
theorem second_accrual_drifts :
    ¬ ∀ (balances : Address → Word) (block : UInt64) (collateralFactor liquidationBonus : ℤ)
      (rateModel : Option InterestRateModel) (calls : List Call),
      Balanced (calls.foldl record
        ⟨newReserve balances block collateralFactor liquidationBonus rateModel, 0⟩) := by
  intro hbalanced
  have hfinal := hbalanced (fun _ => 5000) 1 (75 * ray / 100) (5 * ray / 100)
    (some defaultInterestRateModel) yearlyAccruals
  have hnone : ∀ user : Address, user ≠ 1 →
      (yearlyAccruals.foldl record ⟨samplePool, 0⟩).lp.positions user = none := by
    intro user huser
    have husers : ∀ call ∈ yearlyAccruals, call.user = some 1 ∨ call.user = none := by
      decide
    refine foldl_invariant_mem (P := fun l : Ledger => l.lp.positions user = none) yearlyAccruals
      (fun l call hcall hl => (perform_positions_of_ne l.lp call ?_).trans hl) rfl
    rcases husers call hcall with hone | hno
    · rw [hone]
      exact fun heq => huser (Option.some.inj heq).symm
    · rw [hno]
      exact fun heq => by cases heq
  have hposition : (yearlyAccruals.foldl record ⟨samplePool, 0⟩).lp.positions 1 =
      some ⟨1000 * ray, 500 * ray, ray⟩ := by decide
  have htotals : ((yearlyAccruals.foldl record ⟨samplePool, 0⟩).lp.reserve.totalBorrows,
      (yearlyAccruals.foldl record ⟨samplePool, 0⟩).lp.reserve.borrowIndex) =
        (520414414407532117957, 1040420420406927999) := by decide
  change Balanced (yearlyAccruals.foldl record ⟨samplePool, 0⟩) at hfinal
  have hoperations : (yearlyAccruals.foldl record ⟨samplePool, 0⟩).operations = 6 := rfl
  generalize yearlyAccruals.foldl record ⟨samplePool, 0⟩ = final at *
  obtain ⟨htotal, hindex⟩ := Prod.mk.inj htotals
  have howed : owed final.lp = 500 * 1040420420406927999 := by
    rw [owed, Finset.sum_eq_single 1 (fun user _ huser => by rw [hnone user huser]; rfl)
      (fun hmem => absurd (Finset.mem_univ _) hmem), hposition, hindex]
    norm_num [share, ray]
  rw [Balanced, drift, howed, htotal, hoperations] at hfinal
  norm_num at hfinal

end LuxPrecompile.Lending.Debt
