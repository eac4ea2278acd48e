import LuxPrecompile.StableSwap.Deposit
import LuxPrecompile.Support.Chunks

/-!
# The words of an answer

Every answer of the precompile is written by `padTo32`, which keeps the low 32 bytes of a
magnitude.  A word is the integer computed for it exactly when that integer is neither
negative nor `2 ^ 256` or more.  A quote always is such an integer, and a redeemed share is
one exactly when the product with its balance is small enough; an invariant and a mint
follow the values at which the searches of `computeD` can stop.
-/

namespace LuxPrecompile.StableSwap

open Evm Support

/-! ## Reading the calls -/

/-- The pool of a call, its words from the given offsets on. -/
structure PoolReads (data : List UInt8) (ampAt balancesAt : ℕ) (p : Pool) : Prop where
  coins : uint32At data 0 = .ok p.coins
  amp : wordAt data ampAt = .ok p.amp
  balances : wordsAt data balancesAt p.coins = .ok p.balances

/-- What `addLiquidity` reads. -/
structure DepositReads (data : List UInt8) (p : Pool) (amounts : Amounts p) (totalSupply : ℤ) :
    Prop where
  pool : PoolReads data 4 (68 + p.coins * 32) p
  amounts : wordsAt data 68 p.coins = .ok amounts.values
  supply : wordAt data 36 = .ok totalSupply
  supply_nonneg : 0 ≤ totalSupply

/-- What `removeLiquidity` reads. -/
structure RemovalReads (data : List UInt8) (balances : List ℤ) (lpAmount totalSupply : ℤ) :
    Prop where
  balances_nonneg : ∀ x ∈ balances, 0 ≤ x
  coins : uint32At data 0 = .ok balances.length
  words : wordsAt data 68 balances.length = .ok balances
  lp : wordAt data 4 = .ok lpAmount
  lp_nonneg : 0 ≤ lpAmount
  supply : wordAt data 36 = .ok totalSupply
  supply_pos : 0 < totalSupply

section Reading

variable {data out : List UInt8} {gas left : ℕ}

theorem wordAt_nonneg {i : ℕ} {x : ℤ} (h : wordAt data i = .ok x) : 0 ≤ x := by
  rw [wordAt] at h
  cases hcut : cut data i (i + 32) with
  | error e =>
      rw [hcut] at h
      cases h
  | ok b =>
      rw [hcut] at h
      cases h
      exact Int.natCast_nonneg _

theorem readAmp_word {i : ℕ} {b : List UInt8} {amp : ℤ} (hb : cut data i (i + 32) = .ok b)
    (h : readAmp b = .ok amp) : wordAt data i = .ok amp := by
  unfold readAmp at h
  dsimp only at h
  split_ifs at h
  rw [wordAt, hb]
  exact h

theorem wordsAt_ok {n off : ℕ} {xs : List ℤ} (h : wordsAt data off n = .ok xs)
    (hroom : off + n * 32 ≤ data.length) : xs.length = n ∧ ∀ x ∈ xs, 0 ≤ x := by
  obtain ⟨ys, hys, hlength, hbound⟩ := wordsAt_eq_ok hroom
  rw [hys, Except.ok.injEq] at h
  rw [← h]
  exact ⟨hlength, fun x hx => (hbound x hx).1⟩

theorem getD_ok (h : getD data gas = .ok (out, left)) :
    ∃ p d, PoolReads data 4 36 p ∧ computeD p.balances p.amp p.coins = .ok d ∧
      out = padTo32 d := by
  simp only [getD, refuse_eq_ok, bind_eq_ok, Except.ok.injEq, Prod.mk.injEq] at h
  obtain ⟨-, n, hn, b, hb, amp, hamp, hcount, -, gas', -, balances, hbalances, d, hd, rfl, -⟩ := h
  push Not at hcount
  have hread := leaving_ok hbalances
  obtain ⟨hlength, hnonneg⟩ := wordsAt_ok hread hcount.2
  have hword := readAmp_word (leaving_ok hb) (leaving_ok hamp)
  subst hlength
  let p : Pool := ⟨balances, amp, hnonneg, hcount.1, readAmp_ok (leaving_ok hamp)⟩
  exact ⟨p, d, ⟨leaving_ok hn, hword, hread⟩, leaving_ok hd, rfl⟩

theorem addLiquidity_ok (h : addLiquidity data gas = .ok (out, left)) :
    ∃ p amounts totalSupply mint, DepositReads data p amounts totalSupply ∧
      mintFor amounts.values p.balances p.amp p.coins totalSupply = .ok mint ∧
      out = padTo32 mint := by
  simp only [addLiquidity, refuse_eq_ok, bind_eq_ok, Except.ok.injEq, Prod.mk.injEq] at h
  obtain ⟨-, n, hn, b, hb, amp, hamp, totalSupply, hsupply, hcount, -, gas', -, amounts, hamounts,
    balances, hbalances, mint, hmint, rfl, -⟩ := h
  push Not at hcount
  have hread := leaving_ok hbalances
  obtain ⟨hlength, hnonneg⟩ := wordsAt_ok hread (by omega)
  obtain ⟨hamountsLength, hamountsNonneg⟩ := wordsAt_ok (leaving_ok hamounts) (by omega)
  have hword := readAmp_word (leaving_ok hb) (leaving_ok hamp)
  subst hlength
  let p : Pool := ⟨balances, amp, hnonneg, hcount.1, readAmp_ok (leaving_ok hamp)⟩
  let a : Amounts p := ⟨amounts, hamountsLength, hamountsNonneg⟩
  exact ⟨p, a, totalSupply, mint, ⟨⟨leaving_ok hn, hword, hread⟩, leaving_ok hamounts,
    leaving_ok hsupply, wordAt_nonneg (leaving_ok hsupply)⟩, leaving_ok hmint, rfl⟩

theorem shares_ok {lpAmount totalSupply : ℤ} (hsupply : totalSupply ≠ 0) {xs : List ℤ}
    (h : shares lpAmount totalSupply xs = .ok out) :
    out = (xs.map fun x => padTo32 (x * lpAmount / totalSupply)).flatten := by
  induction xs generalizing out with
  | nil =>
      cases h
      rfl
  | cons x xs ih =>
      simp only [shares, bind_eq_ok, div_eq_ok hsupply, Except.ok.injEq] at h
      obtain ⟨amt, rfl, rest, hrest, rfl⟩ := h
      rw [List.map_cons, List.flatten_cons, ih hrest]

theorem removeLiquidity_ok (h : removeLiquidity data gas = .ok (out, left)) :
    ∃ balances lpAmount totalSupply, RemovalReads data balances lpAmount totalSupply ∧
      out = (balances.map fun x => padTo32 (x * lpAmount / totalSupply)).flatten := by
  simp only [removeLiquidity, refuse_eq_ok, bind_eq_ok, Except.ok.injEq, Prod.mk.injEq] at h
  obtain ⟨-, n, hn, lpAmount, hlp, totalSupply, hsupply, hcount, -, hzero, balances, hbalances,
    result, hresult, rfl, -⟩ := h
  push Not at hcount
  have hread := leaving_ok hbalances
  obtain ⟨hlength, hnonneg⟩ := wordsAt_ok hread hcount.2
  have hsupplyNonneg := wordAt_nonneg (leaving_ok hsupply)
  subst hlength
  exact ⟨balances, lpAmount, totalSupply, ⟨hnonneg, leaving_ok hn, hread, leaving_ok hlp,
    wordAt_nonneg (leaving_ok hlp), leaving_ok hsupply, by omega⟩,
    shares_ok hzero (leaving_ok hresult)⟩

end Reading

/-! ## Exact words -/

/-- The words of an answer, read as unsigned integers, are the given ones. -/
def ExactWords (out : List UInt8) (values : List ℤ) : Prop :=
  out.length = 32 * values.length ∧
    ∀ k v, values[k]? = some v → (bytesToNat (slice out (32 * k) (32 * k + 32)) : ℤ) = v

@[simp]
theorem padTo32_length (x : ℤ) : (padTo32 x).length = 32 := natToBytes_length _ _

theorem padTo32_exact_iff {x : ℤ} : (bytesToNat (padTo32 x) : ℤ) = x ↔ 0 ≤ x ∧ x < 2 ^ 256 := by
  constructor
  · intro h
    have hlt := bytesToNat_lt (padTo32 x)
    rw [padTo32, natToBytes_length] at hlt
    rw [padTo32] at h
    have hcast : (bytesToNat (natToBytes 32 x.natAbs) : ℤ) < 2 ^ 256 := by
      exact_mod_cast hlt.trans_eq (by norm_num)
    omega
  · exact fun h => bytesToNat_padTo32 h.1 h.2

/-- Words written by `padTo32` are exact when every integer fits. -/
theorem exactWords_iff (values : List ℤ) :
    ExactWords (values.map padTo32).flatten values ↔ ∀ v ∈ values, 0 ≤ v ∧ v < 2 ^ 256 := by
  have hword : ∀ k v, values[k]? = some v →
      slice (values.map padTo32).flatten (32 * k) (32 * k + 32) = padTo32 v := by
    intro k v hk
    have hchunk := drop_flatMap_of_length padTo32_length values k
    rw [List.flatMap_def, List.flatMap_def] at hchunk
    obtain ⟨hlt, hget⟩ := List.getElem?_eq_some_iff.mp hk
    rw [slice, hchunk, List.drop_eq_getElem_cons hlt, hget, List.map_cons, List.flatten_cons,
      Nat.add_sub_cancel_left, List.take_append_of_le_length (padTo32_length v).ge,
      List.take_of_length_le (padTo32_length v).le]
  have hlength : (values.map padTo32).flatten.length = 32 * values.length := by
    rw [← List.flatMap_def]
    exact length_flatMap_of_length padTo32_length values
  constructor
  · rintro ⟨-, hexact⟩ v hv
    obtain ⟨k, hk⟩ := List.getElem?_of_mem hv
    have hvalue := hexact k v hk
    rw [hword k v hk] at hvalue
    exact padTo32_exact_iff.mp hvalue
  · refine fun h => ⟨hlength, fun k v hk => ?_⟩
    rw [hword k v hk]
    exact padTo32_exact_iff.mpr (h v (List.mem_of_getElem? hk))

/-! ## What fits -/

/-- The searches of the pool stop below `2 ^ 256`. -/
def FitsD (p : Pool) : Prop := ∀ d, Stop p d → d < 2 ^ 256

/-- The searches of the pool stop at `2 ^ 256` or above. -/
def OverflowsD (p : Pool) : Prop := ∀ d, Stop p d → 2 ^ 256 ≤ d

/-- The mint for an invariant that goes from `l` to `u` is neither negative nor `2 ^ 256` or
more. -/
def InWord (totalSupply l u : ℤ) : Prop := l ≤ u ∧ totalSupply * (u - l) < 2 ^ 256 * l

/-- The mint fits a word wherever the searches stop: a first one is the new invariant, and a
later one follows both; or nothing is deposited. -/
def MintFits (p : Pool) (amounts : Amounts p) (totalSupply : ℤ) : Prop :=
  if totalSupply = 0 then FitsD (p.after amounts)
  else (∀ a ∈ amounts.values, a = 0) ∨
    ∀ l u, Stop p l → Stop (p.after amounts) u → 0 < l → InWord totalSupply l u

/-- Something is deposited, and the mint fits a word nowhere the searches stop. -/
def MintOverflows (p : Pool) (amounts : Amounts p) (totalSupply : ℤ) : Prop :=
  if totalSupply = 0 then OverflowsD (p.after amounts)
  else (∃ a ∈ amounts.values, a ≠ 0) ∧
    ∀ l u, Stop p l → Stop (p.after amounts) u → 0 < l → ¬InWord totalSupply l u

/-! ## Calls -/

/-- The four calls, with what they read. -/
inductive Call
  | getDy (p : Pool) (i j : ℕ) (dx : ℤ)
  | addLiquidity (p : Pool) (amounts : Amounts p) (totalSupply : ℤ)
  | removeLiquidity (balances : List ℤ) (lpAmount totalSupply : ℤ)
  | getD (p : Pool)

namespace Call

/-- The call an input describes. -/
inductive ReadFrom : List UInt8 → Call → Prop
  | getDy {data : List UInt8} {p : Pool} {i j : ℕ} {dx : ℤ} (h : Reads data p i j dx) :
      ReadFrom (0x01 :: data) (.getDy p i j dx)
  | addLiquidity {data : List UInt8} {p : Pool} {amounts : Amounts p} {totalSupply : ℤ}
      (h : DepositReads data p amounts totalSupply) :
      ReadFrom (0x02 :: data) (.addLiquidity p amounts totalSupply)
  | removeLiquidity {data : List UInt8} {balances : List ℤ} {lpAmount totalSupply : ℤ}
      (h : RemovalReads data balances lpAmount totalSupply) :
      ReadFrom (0x03 :: data) (.removeLiquidity balances lpAmount totalSupply)
  | getD {data : List UInt8} {p : Pool} (h : PoolReads data 4 36 p) :
      ReadFrom (0x04 :: data) (.getD p)

/-- The integers the call computes, one for each word of its answer. -/
def values : Call → Except Error (List ℤ)
  | getDy p i j dx => (quote p.balances p.amp p.coins i j dx).map ([·])
  | addLiquidity p amounts totalSupply =>
      (mintFor amounts.values p.balances p.amp p.coins totalSupply).map ([·])
  | removeLiquidity balances lpAmount totalSupply =>
      .ok (balances.map fun x => x * lpAmount / totalSupply)
  | getD p => (computeD p.balances p.amp p.coins).map ([·])

/-- The integers of the call fit their words wherever its searches stop. -/
def Fits : Call → Prop
  | getDy _ _ _ _ => True
  | addLiquidity p amounts totalSupply => MintFits p amounts totalSupply
  | removeLiquidity balances lpAmount totalSupply =>
      ∀ x ∈ balances, x * lpAmount < 2 ^ 256 * totalSupply
  | getD p => FitsD p

/-- Some integer of the call does not fit its word, wherever its searches stop. -/
def Overflows : Call → Prop
  | getDy _ _ _ _ => False
  | addLiquidity p amounts totalSupply => MintOverflows p amounts totalSupply
  | removeLiquidity balances lpAmount totalSupply =>
      ∃ x ∈ balances, 2 ^ 256 * totalSupply ≤ x * lpAmount
  | getD p => OverflowsD p

/-- The searches a result of the call is made of can stop at one value only. -/
def SettledSearches : Call → Prop
  | getDy _ _ _ _ => True
  | addLiquidity p amounts _ => Settled p ∧ Settled (p.after amounts)
  | removeLiquidity _ _ _ => True
  | getD p => Settled p

end Call

section Ranges

variable {p : Pool} {amounts : Amounts p} {totalSupply mint d dx dy lpAmount : ℤ} {i j : ℕ}

theorem quote_range (hi : i < p.coins) (hj : j < p.coins) (hdx : 0 ≤ dx)
    (hbound : ∀ x ∈ p.balances, x < 2 ^ 256)
    (h : quote p.balances p.amp p.coins i j dx = .ok dy) : 0 ≤ dy ∧ dy < 2 ^ 256 := by
  obtain ⟨d, y, hd, hy, hkept, hdy⟩ := quote_ok hi hj h
  have hx := p.nonneg _ (List.getElem_mem hi)
  have hbal := p.nonneg _ (List.getElem_mem hj)
  have hlt := hbound _ (List.getElem_mem hj)
  obtain ⟨b, c, -, hc, -, hroot⟩ := computeY_ok (p.deposit i hx hdx).nonneg p.amp_pos.le
    (computeD_nonneg hd).1 hy
  have hy0 : 0 ≤ y := by
    exact_mod_cast (positiveRoot_nonneg hc).trans hroot
  omega

theorem fitsD_iff (hsettled : Settled p) (h : computeD p.balances p.amp p.coins = .ok d) :
    d < 2 ^ 256 ↔ FitsD p := by
  refine ⟨fun hlt e he => ?_, fun hfits => hfits d (computeD_stop h)⟩
  rw [hsettled e d he (computeD_stop h)]
  exact hlt

/-- Two balances of `2 ^ 255 - 1` fit. -/
example : FitsD ⟨[2 ^ 255 - 1, 2 ^ 255 - 1], 1, by decide, by decide, by decide⟩ := by
  intro d hd
  have hmem := hd.mem_stopsFrom (m := 2 ^ 256 - 2) (n := 2) (by decide) (by decide) (by decide)
  have hstops : stopsFrom ⟨[2 ^ 255 - 1, 2 ^ 255 - 1], 1, by decide, by decide, by decide⟩
      (2 ^ 256 - 2) 2 = [2 ^ 256 - 2, 2 ^ 256 - 2] := by decide
  rw [hstops] at hmem
  obtain rfl : d = 2 ^ 256 - 2 := by simpa using hmem
  norm_num

theorem mint_range_iff {l u : ℤ} (hl : 0 < l) (hsupply : 0 < totalSupply) :
    (0 ≤ totalSupply * (u - l) / l ∧ totalSupply * (u - l) / l < 2 ^ 256) ↔
      InWord totalSupply l u := by
  rw [Int.ediv_lt_iff_lt_mul hl, Int.le_ediv_iff_mul_le hl, zero_mul, InWord]
  refine and_congr_left fun _ => ⟨fun h => ?_, fun h => Int.mul_nonneg hsupply.le (by omega)⟩
  have hgap := nonneg_of_mul_nonneg_right h hsupply
  omega

/-- What a mint is made of, at the stops of its two searches. -/
theorem mintFor_stops
    (h : mintFor amounts.values p.balances p.amp p.coins totalSupply = .ok mint) :
    ∃ l u, Stop p l ∧ Stop (p.after amounts) u ∧ (∀ e, Settled p → Stop p e → e = l) ∧
      (∀ e, Settled (p.after amounts) → Stop (p.after amounts) e → e = u) ∧
      ((totalSupply = 0 ∧ mint = u) ∨
        (totalSupply ≠ 0 ∧ 0 < l ∧ mint = totalSupply * (u - l) / l)) ∧
      ((∀ a ∈ amounts.values, a = 0) → l = u) := by
  obtain ⟨d0, d1, h0, h1, hmint⟩ := mintFor_ok h
  have hl := computeD_stop h0
  have hu := computeD_after_stop h1
  have hd0 := hl.nonneg
  refine ⟨d0, d1, hl, hu, fun e hold he => hold e d0 he hl, fun e hnew he => hnew e d1 he hu,
    hmint.imp_right fun ⟨hne, hd0ne, hmint⟩ => ⟨hne, by omega, hmint⟩, fun hnothing => ?_⟩
  rw [after_zero hnothing, h0, Except.ok.injEq] at h1
  exact h1

theorem MintFits.range (hfits : MintFits p amounts totalSupply) (hsupply : 0 ≤ totalSupply)
    (h : mintFor amounts.values p.balances p.amp p.coins totalSupply = .ok mint) :
    0 ≤ mint ∧ mint < 2 ^ 256 := by
  obtain ⟨l, u, hl, hu, -, -, ⟨hzero, rfl⟩ | ⟨hne, hlpos, rfl⟩, hnothing⟩ := mintFor_stops h
  · rw [MintFits, if_pos hzero] at hfits
    exact ⟨hu.nonneg, hfits _ hu⟩
  · rw [MintFits, if_neg hne] at hfits
    rw [mint_range_iff hlpos (by omega)]
    obtain hzero | hwords := hfits
    · rw [hnothing hzero, InWord, sub_self, mul_zero]
      have hupos := hnothing hzero ▸ hlpos
      exact ⟨le_rfl, Int.mul_pos (by norm_num) hupos⟩
    · exact hwords l u hl hu hlpos

theorem MintOverflows.not_range (hover : MintOverflows p amounts totalSupply)
    (hsupply : 0 ≤ totalSupply)
    (h : mintFor amounts.values p.balances p.amp p.coins totalSupply = .ok mint) :
    ¬(0 ≤ mint ∧ mint < 2 ^ 256) := by
  obtain ⟨l, u, hl, hu, -, -, ⟨hzero, rfl⟩ | ⟨hne, hlpos, rfl⟩, -⟩ := mintFor_stops h
  · rw [MintOverflows, if_pos hzero] at hover
    have hle := hover _ hu
    omega
  · rw [MintOverflows, if_neg hne] at hover
    rw [mint_range_iff hlpos (by omega)]
    exact hover.2 l u hl hu hlpos

theorem mintFits_iff (hold : Settled p) (hnew : Settled (p.after amounts))
    (hsupply : 0 ≤ totalSupply)
    (h : mintFor amounts.values p.balances p.amp p.coins totalSupply = .ok mint) :
    (0 ≤ mint ∧ mint < 2 ^ 256) ↔ MintFits p amounts totalSupply := by
  refine ⟨fun hrange => ?_, fun hfits => hfits.range hsupply h⟩
  obtain ⟨l, u, -, -, huniqueOld, huniqueNew, ⟨hzero, rfl⟩ | ⟨hne, hlpos, rfl⟩, -⟩ :=
    mintFor_stops h
  · rw [MintFits, if_pos hzero]
    intro e he
    rw [huniqueNew e hnew he]
    exact hrange.2
  · rw [MintFits, if_neg hne]
    refine .inr fun e e' he he' _ => ?_
    rw [huniqueOld e hold he, huniqueNew e' hnew he']
    exact (mint_range_iff hlpos (by omega)).mp hrange

end Ranges

/-! ## The call data fixes what is read -/

section Unique

variable {data : List UInt8}

theorem Pool.eq_of_fields {p q : Pool} (hbalances : p.balances = q.balances)
    (hamp : p.amp = q.amp) : p = q := by
  cases p
  cases q
  cases hbalances
  cases hamp
  rfl

theorem Amounts.eq_of_values {p : Pool} {amounts amounts' : Amounts p}
    (h : amounts.values = amounts'.values) : amounts = amounts' := by
  cases amounts
  cases amounts'
  cases h
  rfl

theorem PoolReads.unique {ampAt balancesAt balancesAt' : ℕ} {p q : Pool}
    (h : PoolReads data ampAt balancesAt p) (h' : PoolReads data ampAt balancesAt' q)
    (hoffset : p.coins = q.coins → balancesAt = balancesAt') : p = q := by
  have hcoins : p.coins = q.coins := Except.ok.inj (h.coins.symm.trans h'.coins)
  have hbalances := h.balances
  rw [hcoins, hoffset hcoins, h'.balances] at hbalances
  exact Pool.eq_of_fields (Except.ok.inj hbalances).symm
    (Except.ok.inj (h.amp.symm.trans h'.amp))

theorem RemovalReads.unique {balances balances' : List ℤ}
    {lpAmount lpAmount' totalSupply totalSupply' : ℤ}
    (h : RemovalReads data balances lpAmount totalSupply)
    (h' : RemovalReads data balances' lpAmount' totalSupply') :
    balances = balances' ∧ lpAmount = lpAmount' ∧ totalSupply = totalSupply' := by
  have hcoins : balances.length = balances'.length :=
    Except.ok.inj (h.coins.symm.trans h'.coins)
  have hwords := h.words
  rw [hcoins, h'.words] at hwords
  exact ⟨(Except.ok.inj hwords).symm, Except.ok.inj (h.lp.symm.trans h'.lp),
    Except.ok.inj (h.supply.symm.trans h'.supply)⟩

/-- An input describes one call. -/
theorem Call.ReadFrom.unique {input : List UInt8} {call call' : Call}
    (h : call.ReadFrom input) (h' : call'.ReadFrom input) : call = call' := by
  cases h with
  | getDy hreads =>
      cases h' with
      | getDy hreads' =>
          obtain ⟨rfl, rfl, rfl, hamp, hbalances⟩ := hreads.unique hreads'
          rw [Pool.eq_of_fields hbalances hamp]
  | addLiquidity hreads =>
      cases h' with
      | @addLiquidity _ q amounts' _ hreads' =>
          obtain rfl : q = _ :=
            hreads'.pool.unique hreads.pool fun hcoins => by rw [hcoins]
          have hvalues := Except.ok.inj (hreads.amounts.symm.trans hreads'.amounts)
          obtain rfl := Except.ok.inj (hreads.supply.symm.trans hreads'.supply)
          rw [Amounts.eq_of_values hvalues]
  | removeLiquidity hreads =>
      cases h' with
      | removeLiquidity hreads' =>
          obtain ⟨rfl, rfl, rfl⟩ := hreads.unique hreads'
          rfl
  | getD hreads =>
      cases h' with
      | getD hreads' => rw [hreads.unique hreads' fun _ => rfl]

end Unique

/-! ## Answers -/

theorem exactWords_single (v : ℤ) : ExactWords (padTo32 v) [v] ↔ 0 ≤ v ∧ v < 2 ^ 256 := by
  have h := exactWords_iff [v]
  rwa [List.map_singleton, List.flatten_singleton, List.forall_mem_singleton] at h

section Answers

variable {data out : List UInt8} {gas left : ℕ}

/-- What the answer to a call says of the integers computed for it. -/
structure Answers (call : Call) (out : List UInt8) (values : List ℤ) : Prop where
  computed : call.values = .ok values
  exact : call.Fits → ExactWords out values
  wrong : call.Overflows → ¬ExactWords out values
  settled : call.SettledSearches → (ExactWords out values ↔ call.Fits)

theorem getDy_answers (h : getDy data gas = .ok (out, left)) :
    ∃ call values, call.ReadFrom (0x01 :: data) ∧ Answers call out values := by
  obtain ⟨p, i, j, dx, dy, hreads, hi, hj, -, hdx, hbound, hquote, hout⟩ := getDy_ok h
  rw [hout]
  have hexact := (exactWords_single dy).mpr (quote_range hi hj hdx hbound hquote)
  refine ⟨.getDy p i j dx, [dy], .getDy hreads, ?_⟩
  constructor
  · rw [Call.values, hquote]
    rfl
  · exact fun _ => hexact
  · exact fun hover => hover.elim
  · exact fun _ => iff_of_true hexact trivial

theorem addLiquidity_answers (h : addLiquidity data gas = .ok (out, left)) :
    ∃ call values, call.ReadFrom (0x02 :: data) ∧ Answers call out values := by
  obtain ⟨p, amounts, totalSupply, mint, hreads, hmint, hout⟩ := addLiquidity_ok h
  rw [hout]
  have hsupply := hreads.supply_nonneg
  refine ⟨.addLiquidity p amounts totalSupply, [mint], .addLiquidity hreads, ?_⟩
  constructor
  · rw [Call.values, hmint]
    rfl
  · exact fun hfits => (exactWords_single mint).mpr (MintFits.range hfits hsupply hmint)
  · rw [exactWords_single]
    exact fun hover => MintOverflows.not_range hover hsupply hmint
  · rw [exactWords_single]
    exact fun hsettled => mintFits_iff hsettled.1 hsettled.2 hsupply hmint

theorem removeLiquidity_answers (h : removeLiquidity data gas = .ok (out, left)) :
    ∃ call values, call.ReadFrom (0x03 :: data) ∧ Answers call out values := by
  obtain ⟨balances, lpAmount, totalSupply, hreads, rfl⟩ := removeLiquidity_ok h
  have hwords := exactWords_iff (balances.map fun x => x * lpAmount / totalSupply)
  rw [List.map_map, List.forall_mem_map] at hwords
  have hiff : (∀ x ∈ balances, 0 ≤ x * lpAmount / totalSupply ∧
      x * lpAmount / totalSupply < 2 ^ 256) ↔
        ∀ x ∈ balances, x * lpAmount < 2 ^ 256 * totalSupply := by
    refine forall₂_congr fun x hx => ?_
    rw [Int.ediv_lt_iff_lt_mul hreads.supply_pos]
    refine and_iff_right (Int.ediv_nonneg ?_ hreads.supply_pos.le)
    exact Int.mul_nonneg (hreads.balances_nonneg x hx) hreads.lp_nonneg
  rw [hiff] at hwords
  refine ⟨.removeLiquidity balances lpAmount totalSupply, _, .removeLiquidity hreads, rfl,
    hwords.mpr, ?_, fun _ => hwords⟩
  rintro ⟨x, hx, hover⟩ hexact
  have hlt := hwords.mp hexact x hx
  omega

theorem getD_answers (h : getD data gas = .ok (out, left)) :
    ∃ call values, call.ReadFrom (0x04 :: data) ∧ Answers call out values := by
  obtain ⟨p, d, hreads, hd, hout⟩ := getD_ok h
  rw [hout]
  have hstop := computeD_stop hd
  have hword : ExactWords (padTo32 d) [d] ↔ d < 2 ^ 256 := by
    rw [exactWords_single]
    exact and_iff_right hstop.nonneg
  refine ⟨.getD p, [d], .getD hreads, ?_⟩
  constructor
  · rw [Call.values, hd]
    rfl
  · exact fun hfits => hword.mpr (hfits d hstop)
  · intro hover
    have hle := hover d hstop
    rw [hword]
    omega
  · exact fun hsettled => hword.trans (fitsD_iff hsettled hd)

end Answers

/-- Call data that redeems `lpAmount` of `totalSupply` shares. -/
def removalData (lpAmount totalSupply : ℕ) (balances : List ℕ) : List UInt8 :=
  0x03 :: (natToBytes 4 balances.length ++ natToBytes 32 lpAmount ++ natToBytes 32 totalSupply ++
    balances.flatMap (natToBytes 32))

/-- Call data that deposits into a pool with a supply. -/
def depositData (amp totalSupply : ℕ) (amounts balances : List ℕ) : List UInt8 :=
  0x02 :: (natToBytes 4 balances.length ++ natToBytes 32 amp ++ natToBytes 32 totalSupply ++
    amounts.flatMap (natToBytes 32) ++ balances.flatMap (natToBytes 32))

end LuxPrecompile.StableSwap
