import LuxPrecompile.StableSwap.Swap

/-!
# Deposits

What `addLiquidity` mints follows two runs of `computeD`.  A deposit lowers the invariant in
no run when every stop of the old pool is at or below every stop of the new one; where a
dust deposit leaves a stop of the old pool above one of the new pool, the paths of the two
searches decide, and the invariant can fall.  Redeeming the mint follows the same two stops.
-/

namespace LuxPrecompile.StableSwap

open Evm Support

/-! ## Minting -/

/-- Amounts that can be deposited: one for each coin, none negative. -/
structure Amounts (p : Pool) where
  values : List ℤ
  length_eq : values.length = p.coins
  nonneg : ∀ a ∈ values, 0 ≤ a

/-- The pool after a deposit. -/
def Pool.after (p : Pool) (amounts : Amounts p) : Pool where
  balances := List.zipWith (· + ·) p.balances amounts.values
  amp := p.amp
  nonneg := by
    intro z hz
    obtain ⟨k, hk, rfl⟩ := List.mem_iff_getElem.mp hz
    rw [List.getElem_zipWith]
    exact add_nonneg (p.nonneg _ (List.getElem_mem _)) (amounts.nonneg _ (List.getElem_mem _))
  two_le := by
    rw [List.length_zipWith, amounts.length_eq]
    simpa [Pool.coins] using p.two_le
  amp_pos := p.amp_pos

section Mint

variable {p : Pool} {amounts : Amounts p} {d0 d1 totalSupply mint : ℤ}

@[simp]
theorem after_coins : (p.after amounts).coins = p.coins := by
  rw [Pool.coins, Pool.after, List.length_zipWith, amounts.length_eq]
  simp [Pool.coins]

theorem after_zero (h : ∀ a ∈ amounts.values, a = 0) : (p.after amounts).balances = p.balances := by
  rw [Pool.after]
  apply List.ext_getElem
  · rw [List.length_zipWith, amounts.length_eq]
    simp [Pool.coins]
  · intro k hk hk'
    rw [List.getElem_zipWith, h _ (List.getElem_mem _), add_zero]

/-- What a mint is made of. -/
theorem mintFor_ok
    (h : mintFor amounts.values p.balances p.amp p.coins totalSupply = .ok mint) :
    ∃ d0 d1, computeD p.balances p.amp p.coins = .ok d0 ∧
      computeD (p.after amounts).balances p.amp p.coins = .ok d1 ∧
      ((totalSupply = 0 ∧ mint = d1) ∨
        (totalSupply ≠ 0 ∧ d0 ≠ 0 ∧ mint = totalSupply * (d1 - d0) / d0)) := by
  simp only [mintFor, bind_eq_ok] at h
  obtain ⟨d0, hd0, d1, hd1, h⟩ := h
  refine ⟨d0, d1, hd0, hd1, ?_⟩
  split_ifs at h with hsupply hzero
  · cases h
    exact .inl ⟨hsupply, rfl⟩
  · exact .inr ⟨hsupply, hzero, (div_ok h).2⟩

/-- No search before the deposit stops above one after it; or nothing is deposited. -/
def Rises (p : Pool) (amounts : Amounts p) : Prop :=
  (∀ a ∈ amounts.values, a = 0) ∨
    ∀ d0 d1, Stop p d0 → Stop (p.after amounts) d1 → d0 ≤ d1

/-- Something is deposited, and every search before it stops above every one after it. -/
def Sinks (p : Pool) (amounts : Amounts p) : Prop :=
  (∃ a ∈ amounts.values, a ≠ 0) ∧ ∀ d0 d1, Stop p d0 → Stop (p.after amounts) d1 → d1 < d0

theorem computeD_after (h : computeD (p.after amounts).balances p.amp p.coins = .ok d1) :
    computeD (p.after amounts).balances (p.after amounts).amp (p.after amounts).coins =
      .ok d1 := by
  rw [after_coins]
  exact h

theorem computeD_after_stop
    (h : computeD (p.after amounts).balances p.amp p.coins = .ok d1) :
    Stop (p.after amounts) d1 := computeD_stop (computeD_after h)

theorem invariant_le (hrises : Rises p amounts)
    (h0 : computeD p.balances p.amp p.coins = .ok d0)
    (h1 : computeD (p.after amounts).balances p.amp p.coins = .ok d1) : d0 ≤ d1 := by
  obtain hnothing | hstops := hrises
  · rw [after_zero hnothing, h0, Except.ok.injEq] at h1
    exact h1.le
  · exact hstops d0 d1 (computeD_stop h0) (computeD_after_stop h1)

theorem rises_iff (hold : Settled p) (hnew : Settled (p.after amounts))
    (h0 : computeD p.balances p.amp p.coins = .ok d0)
    (h1 : computeD (p.after amounts).balances p.amp p.coins = .ok d1) :
    d0 ≤ d1 ↔ Rises p amounts := by
  refine ⟨fun hle => .inr fun e0 e1 he0 he1 => ?_, fun hrises => invariant_le hrises h0 h1⟩
  rw [hold e0 d0 he0 (computeD_stop h0), hnew e1 d1 he1 (computeD_after_stop h1)]
  exact hle

theorem mint_nonneg (hsupply : 0 ≤ totalSupply) (hle : d0 ≤ d1)
    (h0 : computeD p.balances p.amp p.coins = .ok d0)
    (h1 : computeD (p.after amounts).balances p.amp p.coins = .ok d1)
    (h : mintFor amounts.values p.balances p.amp p.coins totalSupply = .ok mint) : 0 ≤ mint := by
  obtain ⟨e0, e1, he0, he1, hmint⟩ := mintFor_ok h
  obtain rfl : e0 = d0 := Except.ok.inj (he0.symm.trans h0)
  obtain rfl : e1 = d1 := Except.ok.inj (he1.symm.trans h1)
  obtain ⟨-, rfl⟩ | ⟨-, -, rfl⟩ := hmint
  · exact (computeD_after_stop h1).nonneg
  · exact Int.ediv_nonneg (Int.mul_nonneg hsupply (by omega)) (computeD_stop h0).nonneg

/-! ## Redeeming the mint -/

/-- Redeeming the minted shares pays no more of any coin than was deposited. -/
def Redeems (p : Pool) (amounts : Amounts p) (totalSupply mint : ℤ) : Prop :=
  ∀ (k : ℕ) (x a y : ℤ), p.balances[k]? = some x → amounts.values[k]? = some a →
    div ((x + a) * mint) (totalSupply + mint) = .ok y → y ≤ a

/-- The shares for an invariant that goes from `l` to `u` redeem less than one unit more of
every coin than was deposited. -/
def Fair (p : Pool) (amounts : Amounts p) (totalSupply l u : ℤ) : Prop :=
  ∀ (k : ℕ) (x a : ℤ), p.balances[k]? = some x → amounts.values[k]? = some a →
    (x - 1) * (totalSupply * (u - l) / l) < (a + 1) * totalSupply

/-- The shares are fair wherever the two searches stop, or nothing is deposited; without a
supply the pool is empty. -/
def Redeemable (p : Pool) (amounts : Amounts p) (totalSupply : ℤ) : Prop :=
  if totalSupply = 0 then ∀ x ∈ p.balances, x = 0
  else (∀ a ∈ amounts.values, a = 0) ∨
    ∀ l u, Stop p l → Stop (p.after amounts) u → Fair p amounts totalSupply l u

/-- Something is deposited, and the shares are fair nowhere the two searches stop; without a
supply the pool is not empty. -/
def Unredeemable (p : Pool) (amounts : Amounts p) (totalSupply : ℤ) : Prop :=
  if totalSupply = 0 then ∃ x ∈ p.balances, x ≠ 0
  else (∃ a ∈ amounts.values, a ≠ 0) ∧
    ∀ l u, Stop p l → Stop (p.after amounts) u → ¬Fair p amounts totalSupply l u

theorem redeemed_le_iff {x a y : ℤ} (htotal : 0 < totalSupply + mint)
    (h : div ((x + a) * mint) (totalSupply + mint) = .ok y) :
    y ≤ a ↔ (x - 1) * mint < (a + 1) * totalSupply := by
  obtain ⟨-, rfl⟩ := div_ok h
  rw [← Int.lt_add_one_iff, Int.ediv_lt_iff_lt_mul htotal]
  constructor
  · intro hlt
    linarith
  · intro hlt
    linarith

/-- Shares that can be redeemed leave some supply. -/
theorem total_pos (hsupply : 0 ≤ totalSupply)
    (h : mintFor amounts.values p.balances p.amp p.coins totalSupply = .ok mint)
    (hne : totalSupply + mint ≠ 0) : 0 < totalSupply + mint := by
  obtain ⟨d0, d1, h0, h1, hmint⟩ := mintFor_ok h
  have hd0 := (computeD_stop h0).nonneg
  have hd1 := (computeD_after_stop h1).nonneg
  obtain ⟨hzero, rfl⟩ | ⟨-, hd0ne, hmint⟩ := hmint
  · omega
  · have hlow : -totalSupply ≤ mint := by
      rw [hmint, Int.le_ediv_iff_mul_le (by omega)]
      have hscaled := Int.mul_nonneg hsupply hd1
      linarith
    omega

/-- With a supply, redeeming the mint is fair exactly when its shares are. -/
theorem redeems_iff_fair (hsupply : 0 < totalSupply)
    (h0 : computeD p.balances p.amp p.coins = .ok d0)
    (h1 : computeD (p.after amounts).balances p.amp p.coins = .ok d1)
    (h : mintFor amounts.values p.balances p.amp p.coins totalSupply = .ok mint) :
    Redeems p amounts totalSupply mint ↔ Fair p amounts totalSupply d0 d1 := by
  have hmint : d0 ≠ 0 ∧ mint = totalSupply * (d1 - d0) / d0 := by
    obtain ⟨e0, e1, he0, he1, ⟨hzero, -⟩ | ⟨-, hne, hmint⟩⟩ := mintFor_ok h
    · omega
    · obtain rfl : e0 = d0 := Except.ok.inj (he0.symm.trans h0)
      obtain rfl : e1 = d1 := Except.ok.inj (he1.symm.trans h1)
      exact ⟨hne, hmint⟩
  obtain ⟨hd0, rfl⟩ := hmint
  have hpos : ∀ x ∈ p.balances, 0 < x := by
    obtain hempty | hpos := computeD_pos h0
    · exact absurd ((computeD_stop h0).empty hempty) hd0
    · exact hpos
  constructor
  · intro hredeems k x a hx ha
    have hx1 := hpos x (List.mem_of_getElem? hx)
    have ha0 := amounts.nonneg a (List.mem_of_getElem? ha)
    rcases le_or_gt (totalSupply * (d1 - d0) / d0) 0 with hle | hgt
    · have hleft := mul_nonpos_of_nonneg_of_nonpos (show 0 ≤ x - 1 by omega) hle
      have hright : 0 < (a + 1) * totalSupply := Int.mul_pos (by omega) hsupply
      omega
    · have htotal : 0 < totalSupply + totalSupply * (d1 - d0) / d0 := by omega
      have hy := div_eq_ok (x := (x + a) * (totalSupply * (d1 - d0) / d0)) htotal.ne'
      exact (redeemed_le_iff htotal hy).mp (hredeems k x a _ hx ha hy)
  · intro hfair k x a y hx ha hy
    have htotal := total_pos hsupply.le h (div_ok hy).1
    exact (redeemed_le_iff htotal hy).mpr (hfair k x a hx ha)

/-- Without a supply, redeeming the mint pays every balance out. -/
theorem redeems_iff_empty
    (h : mintFor amounts.values p.balances p.amp p.coins 0 = .ok mint) :
    Redeems p amounts 0 mint ↔ ∀ x ∈ p.balances, x = 0 := by
  obtain ⟨d0, d1, h0, h1, ⟨-, rfl⟩ | ⟨hne, -⟩⟩ := mintFor_ok h
  swap
  · exact absurd rfl hne
  constructor
  · intro hredeems x hx
    by_contra hx0
    obtain ⟨k, hk, rfl⟩ := List.mem_iff_getElem.mp hx
    have hka : k < amounts.values.length := by
      rw [amounts.length_eq]
      exact hk
    have hxpos : 0 < p.balances[k] := lt_of_le_of_ne (p.nonneg _ hx) (Ne.symm hx0)
    have hd1 : mint ≠ 0 := by
      rintro rfl
      obtain hempty | hpos := computeD_pos (computeD_after h1)
      · have hentry : p.balances[k] + amounts.values[k] = 0 := by
          apply hempty
          rw [Pool.after]
          apply List.mem_iff_getElem.mpr
          refine ⟨k, ?_, List.getElem_zipWith⟩
          rw [List.length_zipWith]
          omega
        have ha0 := amounts.nonneg _ (List.getElem_mem hka)
        omega
      · have htwo := (p.after amounts).two_le
        have hsum : 0 < (p.after amounts).balances.sum :=
          List.sum_pos _ hpos (List.ne_nil_of_length_pos (by omega))
        have hone := (computeD_nonneg (computeD_after h1)).2 hsum
        omega
    have hy : div ((p.balances[k] + amounts.values[k]) * mint) (0 + mint) =
        .ok (p.balances[k] + amounts.values[k]) := by
      rw [zero_add, div_eq_ok hd1, Int.mul_ediv_cancel _ hd1]
    have hle := hredeems k _ _ _ (List.getElem?_eq_getElem hk) (List.getElem?_eq_getElem hka) hy
    omega
  · intro hempty k x a y hx ha hy
    obtain ⟨hne, rfl⟩ := div_ok hy
    rw [zero_add] at hne
    rw [hempty x (List.mem_of_getElem? hx), zero_add, zero_add, Int.mul_ediv_cancel _ hne]

theorem fair_zero (hsupply : 0 < totalSupply) (hnothing : ∀ a ∈ amounts.values, a = 0) (l : ℤ) :
    Fair p amounts totalSupply l l := by
  intro k x a _ ha
  rw [sub_self, mul_zero, Int.zero_ediv, mul_zero, hnothing a (List.mem_of_getElem? ha)]
  omega

theorem Redeemable.redeems (hredeemable : Redeemable p amounts totalSupply)
    (hsupply : 0 ≤ totalSupply)
    (h : mintFor amounts.values p.balances p.amp p.coins totalSupply = .ok mint) :
    Redeems p amounts totalSupply mint := by
  obtain ⟨d0, d1, h0, h1, -⟩ := mintFor_ok h
  rw [Redeemable] at hredeemable
  split_ifs at hredeemable with hzero
  · subst hzero
    exact (redeems_iff_empty h).mpr hredeemable
  · have hpositive : 0 < totalSupply := by omega
    rw [redeems_iff_fair hpositive h0 h1 h]
    obtain hnothing | hfair := hredeemable
    · rw [after_zero hnothing, h0, Except.ok.injEq] at h1
      rw [← h1]
      exact fair_zero hpositive hnothing d0
    · exact hfair d0 d1 (computeD_stop h0) (computeD_after_stop h1)

theorem Unredeemable.not_redeems (hunredeemable : Unredeemable p amounts totalSupply)
    (hsupply : 0 ≤ totalSupply)
    (h : mintFor amounts.values p.balances p.amp p.coins totalSupply = .ok mint) :
    ¬Redeems p amounts totalSupply mint := by
  obtain ⟨d0, d1, h0, h1, -⟩ := mintFor_ok h
  rw [Unredeemable] at hunredeemable
  split_ifs at hunredeemable with hzero
  · subst hzero
    rw [redeems_iff_empty h]
    push Not
    exact hunredeemable
  · rw [redeems_iff_fair (by omega) h0 h1 h]
    exact hunredeemable.2 d0 d1 (computeD_stop h0) (computeD_after_stop h1)

theorem redeems_iff (hsupply : 0 ≤ totalSupply) (hold : Settled p)
    (hnew : Settled (p.after amounts))
    (h : mintFor amounts.values p.balances p.amp p.coins totalSupply = .ok mint) :
    Redeems p amounts totalSupply mint ↔ Redeemable p amounts totalSupply := by
  refine ⟨fun hredeems => ?_, fun hredeemable => hredeemable.redeems hsupply h⟩
  obtain ⟨d0, d1, h0, h1, -⟩ := mintFor_ok h
  rw [Redeemable]
  split_ifs with hzero
  · subst hzero
    exact (redeems_iff_empty h).mp hredeems
  · refine .inr fun l u hl hu => ?_
    rw [hold l d0 hl (computeD_stop h0), hnew u d1 hu (computeD_after_stop h1)]
    exact (redeems_iff_fair (by omega) h0 h1 h).mp hredeems

end Mint

/-- Two coins of which one is three times the other, and a tenth more of both. -/
def tiltedPool : Pool :=
  { evenPool with balances := [3000, 1000], nonneg := by decide, two_le := by decide }

def tiltedDeposit : Amounts tiltedPool := ⟨[300, 100], rfl, by decide⟩

theorem tiltedPool_stop {d : ℤ} (h : Stop tiltedPool d) : d = 3993 := by
  have hmem := h.mem_stopsFrom (m := 3993) (n := 2) (by decide) (by decide) (by decide)
  have hstops : stopsFrom tiltedPool 3993 2 = [3993, 3993] := by decide
  rw [hstops] at hmem
  simpa using hmem

theorem tiltedDeposit_stop {d : ℤ} (h : Stop (tiltedPool.after tiltedDeposit) d) : d = 4392 := by
  have hmem := h.mem_stopsFrom (m := 4392) (n := 2) (by decide) (by decide) (by decide)
  have hstops : stopsFrom (tiltedPool.after tiltedDeposit) 4392 2 = [4392, 4392] := by decide
  rw [hstops] at hmem
  simpa using hmem

/-- A pool of two coins far from balance. -/
def shallowPool : Pool := ⟨[43, 1], 1, by decide, by decide, by decide⟩

def shallowDeposit : Amounts shallowPool := ⟨[1, 0], rfl, by decide⟩

end LuxPrecompile.StableSwap
