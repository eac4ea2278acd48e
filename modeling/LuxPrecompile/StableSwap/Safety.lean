import LuxPrecompile.StableSwap.Solvers

/-!
# No call data makes the pool panic

Every slice an entry point cuts lies inside the call data, every index inside its
balances, and every divisor is positive, so what fails fails with an error of its own.
-/

namespace LuxPrecompile.StableSwap

open Evm Support

/-- The call returned or failed with an error, and did not panic. -/
def NoPanic {α : Type} (x : Except (Error × ℕ) α) : Prop := ∀ gas, x ≠ .error (.panic, gas)

section Outcomes

variable {α β : Type}

theorem noPanic_ok (a : α) : NoPanic (.ok a : Except (Error × ℕ) α) := by
  intro gas h
  cases h

theorem noPanic_error {e : Error} (gas : ℕ) (he : e ≠ .panic) :
    NoPanic (.error (e, gas) : Except (Error × ℕ) α) := by
  intro gas' h
  cases h
  exact he rfl

theorem NoPanic.bind {x : Except (Error × ℕ) α} {f : α → Except (Error × ℕ) β}
    (hx : NoPanic x) (hf : ∀ a, x = .ok a → NoPanic (f a)) : NoPanic (x >>= f) := by
  cases x with
  | error e =>
      intro gas h
      have he : (Except.error e : Except (Error × ℕ) β) = .error (.panic, gas) := h
      cases he
      exact hx gas rfl
  | ok a => exact hf a rfl

theorem NoPanic.of_read {x : Except Error α} {a : α} {gas : ℕ}
    {f : α → Except (Error × ℕ) β} (hx : x = .ok a) (hf : NoPanic (f a)) :
    NoPanic (leaving gas x >>= f) := by
  rw [hx]
  exact hf

theorem noPanic_leaving {x : Except Error α} (gas : ℕ) (h : x ≠ .error .panic) :
    NoPanic (leaving gas x) := by
  cases x with
  | error e => exact noPanic_error gas fun he => h (by rw [he])
  | ok a => exact noPanic_ok a

theorem leaving_ok {x : Except Error α} {gas : ℕ} {a : α} (h : leaving gas x = .ok a) :
    x = .ok a := by
  cases x with
  | error e => cases h
  | ok b =>
      cases h
      rfl

theorem noPanic_deductGas (supplied required : ℕ) : NoPanic (deductGas supplied required) := by
  rw [deductGas, chargeGas]
  split_ifs
  · exact noPanic_error _ (by decide)
  · exact noPanic_ok _

end Outcomes

/-! ## Reading the call data -/

section Reading

variable {data : List UInt8}

theorem cut_eq_ok {i j : ℕ} (h : j ≤ data.length) : cut data i j = .ok (slice data i j) :=
  if_pos h

theorem uint32At_eq_ok {i : ℕ} (h : i + 4 ≤ data.length) :
    uint32At data i = .ok (bytesToNat (slice data i (i + 4))) := by
  rw [uint32At, cut_eq_ok h]
  rfl

theorem wordAt_eq_ok {i : ℕ} (h : i + 32 ≤ data.length) :
    wordAt data i = .ok (bytesToNat (slice data i (i + 32)) : ℤ) := by
  rw [wordAt, cut_eq_ok h]
  rfl

/-- Words that lie inside the call data are read, as unsigned words. -/
theorem wordsAt_eq_ok {n : ℕ} {off : ℕ} (h : off + n * 32 ≤ data.length) :
    ∃ xs, wordsAt data off n = .ok xs ∧ xs.length = n ∧ ∀ x ∈ xs, 0 ≤ x ∧ x < 2 ^ 256 := by
  induction n generalizing off with
  | zero => exact ⟨[], rfl, rfl, fun x hx => absurd hx List.not_mem_nil⟩
  | succ n ih =>
      obtain ⟨xs, hxs, hlength, hbound⟩ := ih (show off + 32 + n * 32 ≤ data.length by omega)
      refine ⟨(bytesToNat (slice data off (off + 32)) : ℤ) :: xs, ?_, by simp [hlength], ?_⟩
      · rw [wordsAt, wordAt_eq_ok (by omega), hxs]
        rfl
      · intro x hx
        rcases List.mem_cons.mp hx with rfl | hx
        · have hlt := bytesToNat_lt (slice data off (off + 32))
          have hslice : (slice data off (off + 32)).length = 32 := by
            rw [slice, List.length_take, List.length_drop]
            omega
          rw [hslice] at hlt
          refine ⟨Int.natCast_nonneg _, ?_⟩
          have hcast : ((bytesToNat (slice data off (off + 32)) : ℕ) : ℤ) < ((256 ^ 32 : ℕ) : ℤ) :=
            Int.ofNat_lt.mpr hlt
          norm_num at hcast ⊢
          exact hcast
        · exact hbound x hx

theorem readAmp_ne_panic (b : List UInt8) : readAmp b ≠ .error .panic := by
  unfold readAmp
  dsimp only
  split_ifs
  · exact fun h => nomatch h
  · exact fun h => nomatch h

theorem readAmp_ok {b : List UInt8} {amp : ℤ} (h : readAmp b = .ok amp) : 0 < amp := by
  unfold readAmp at h
  dsimp only at h
  split_ifs at h with hle
  cases h
  exact not_le.mp hle

theorem entry_eq_ok {xs : List ℤ} {k : ℕ} (h : k < xs.length) : entry xs k = .ok xs[k] := by
  rw [entry, List.getElem?_eq_getElem h]

end Reading

/-! ## The arithmetic of the entry points -/

theorem computeD_ne_panic (p : Pool) : computeD p.balances p.amp p.coins ≠ .error .panic := by
  intro h
  rcases computeD_error h with he | he <;> cases he

theorem computeY_ne_panic (p : Pool) (j : ℕ) (d : ℤ) :
    computeY p.balances p.amp p.coins j d ≠ .error .panic := by
  intro h
  rcases computeY_error h with he | he <;> cases he

/-- The pool after a deposit of `dx` of token `i`. -/
def Pool.deposit (p : Pool) (i : ℕ) {x dx : ℤ} (hx : 0 ≤ x) (hdx : 0 ≤ dx) : Pool where
  balances := p.balances.set i (x + dx)
  amp := p.amp
  nonneg := by
    intro z hz
    rcases List.mem_or_eq_of_mem_set hz with hz | rfl
    · exact p.nonneg z hz
    · omega
  two_le := by
    rw [List.length_set]
    exact p.two_le
  amp_pos := p.amp_pos

theorem quote_ne_panic (p : Pool) {i j : ℕ} {dx : ℤ} (hi : i < p.coins) (hj : j < p.coins)
    (hdx : 0 ≤ dx) : quote p.balances p.amp p.coins i j dx ≠ .error .panic := by
  rw [quote, entry_eq_ok hi, entry_eq_ok hj]
  have hx : 0 ≤ p.balances[i] := p.nonneg _ (List.getElem_mem hi)
  cases hd : computeD p.balances p.amp p.coins with
  | error e =>
      intro h
      cases h
      exact computeD_ne_panic p hd
  | ok d =>
      have hcoins : (p.deposit i hx hdx).coins = p.coins := List.length_set
      have hy := computeY_ne_panic (p.deposit i hx hdx) j d
      rw [hcoins] at hy
      simp only [bind, Except.bind]
      cases hsolve : computeY (p.balances.set i (p.balances[i] + dx)) p.amp p.coins j d with
      | error e =>
          intro h
          cases h
          exact hy hsolve
      | ok y => exact fun h => nomatch h

theorem mintFor_ne_panic (p q : Pool) (totalSupply : ℤ) {amounts : List ℤ}
    (hq : q.balances = List.zipWith (· + ·) p.balances amounts) (hamp : q.amp = p.amp)
    (hcoins : q.coins = p.coins) :
    mintFor amounts p.balances p.amp p.coins totalSupply ≠ .error .panic := by
  have hafter := computeD_ne_panic q
  rw [hq, hamp, hcoins] at hafter
  rw [mintFor]
  cases hd : computeD p.balances p.amp p.coins with
  | error e =>
      intro h
      cases h
      exact computeD_ne_panic p hd
  | ok d0 =>
      simp only [bind, Except.bind]
      cases hd1 : computeD (List.zipWith (· + ·) p.balances amounts) p.amp p.coins with
      | error e =>
          intro h
          cases h
          exact hafter hd1
      | ok d1 =>
          dsimp only
          split_ifs with hsupply hd0
          · exact fun h => nomatch h
          · exact fun h => nomatch h
          · rw [div_eq_ok hd0]
            exact fun h => nomatch h

theorem shares_ne_panic {lpAmount totalSupply : ℤ} (h : totalSupply ≠ 0) (xs : List ℤ) :
    ∃ out, shares lpAmount totalSupply xs = .ok out := by
  induction xs with
  | nil => exact ⟨[], rfl⟩
  | cons x xs ih =>
      obtain ⟨out, hout⟩ := ih
      refine ⟨padTo32 (x * lpAmount / totalSupply) ++ out, ?_⟩
      rw [shares, div_eq_ok h, hout]
      rfl

/-! ## The entry points -/

section EntryPoints

variable (data : List UInt8) (gas : ℕ)

theorem getDy_noPanic : NoPanic (getDy data gas) := by
  rw [getDy]
  split_ifs with hlength
  · exact noPanic_error _ (by decide)
  rw [not_lt] at hlength
  refine NoPanic.of_read (uint32At_eq_ok (by omega)) ?_
  refine NoPanic.of_read (uint32At_eq_ok (by omega)) ?_
  refine NoPanic.of_read (wordAt_eq_ok (by omega)) ?_
  refine NoPanic.of_read (uint32At_eq_ok (by omega)) ?_
  refine NoPanic.of_read (cut_eq_ok (by omega)) ?_
  refine (noPanic_leaving _ (readAmp_ne_panic _)).bind fun amp hamp => ?_
  split_ifs with hn hmax hindex
  · exact noPanic_error _ (by decide)
  · exact noPanic_error _ (by decide)
  · exact noPanic_error _ (by decide)
  refine (noPanic_deductGas _ _).bind fun gas' _ => ?_
  push Not at hn hindex
  obtain ⟨balances, hread, hcount, hbound⟩ := wordsAt_eq_ok hn.2
  rw [← hcount] at hn hindex ⊢
  refine NoPanic.of_read (hcount ▸ hread) ?_
  let p : Pool := ⟨balances, amp, fun x hx => (hbound x hx).1, hn.1, readAmp_ok (leaving_ok hamp)⟩
  exact (noPanic_leaving _ (quote_ne_panic p hindex.1 hindex.2.1 (Int.natCast_nonneg _))).bind
    fun dy _ => noPanic_ok _

theorem addLiquidity_noPanic : NoPanic (addLiquidity data gas) := by
  rw [addLiquidity]
  split_ifs with hlength
  · exact noPanic_error _ (by decide)
  rw [not_lt] at hlength
  refine NoPanic.of_read (uint32At_eq_ok (by omega)) ?_
  refine NoPanic.of_read (cut_eq_ok (by omega)) ?_
  refine (noPanic_leaving _ (readAmp_ne_panic _)).bind fun amp hamp => ?_
  refine NoPanic.of_read (wordAt_eq_ok (by omega)) ?_
  split_ifs with hn hmax
  · exact noPanic_error _ (by decide)
  · exact noPanic_error _ (by decide)
  refine (noPanic_deductGas _ _).bind fun gas' _ => ?_
  push Not at hn
  generalize bytesToNat (slice data 0 (0 + 4)) = n at hn hmax ⊢
  have hroom : 68 + n * 32 + n * 32 ≤ data.length := by omega
  obtain ⟨amounts, hamounts, hxlength, hxbound⟩ :=
    wordsAt_eq_ok (show 68 + n * 32 ≤ data.length by omega)
  obtain ⟨balances, hbalances, hcoins, hybound⟩ := wordsAt_eq_ok hroom
  have hamp0 := readAmp_ok (leaving_ok hamp)
  rw [← hcoins] at hn hxlength ⊢
  refine NoPanic.of_read (hcoins ▸ hamounts) (NoPanic.of_read (hcoins ▸ hbalances) ?_)
  let p : Pool := ⟨balances, amp, fun x hx => (hybound x hx).1, hn.1, hamp0⟩
  have hsums : ∀ z ∈ List.zipWith (· + ·) balances amounts, 0 ≤ z := by
    intro z hz
    obtain ⟨i, hi, rfl⟩ := List.mem_iff_getElem.mp hz
    rw [List.getElem_zipWith]
    rw [List.length_zipWith] at hi
    have hx := (hybound _ (List.getElem_mem (show i < balances.length by omega))).1
    have hy := (hxbound _ (List.getElem_mem (show i < amounts.length by omega))).1
    omega
  have hcount : (List.zipWith (· + ·) balances amounts).length = balances.length := by
    rw [List.length_zipWith]
    omega
  let q : Pool := ⟨List.zipWith (· + ·) balances amounts, amp, hsums, by omega, hamp0⟩
  exact (noPanic_leaving _ (mintFor_ne_panic p q _ rfl rfl hcount)).bind fun mint _ =>
    noPanic_ok _

theorem removeLiquidity_noPanic : NoPanic (removeLiquidity data gas) := by
  rw [removeLiquidity]
  split_ifs with hlength
  · exact noPanic_error _ (by decide)
  rw [not_lt] at hlength
  refine NoPanic.of_read (uint32At_eq_ok (by omega)) ?_
  refine NoPanic.of_read (wordAt_eq_ok (by omega)) ?_
  refine NoPanic.of_read (wordAt_eq_ok (by omega)) ?_
  split_ifs with hn hmax hsupply
  · exact noPanic_error _ (by decide)
  · exact noPanic_error _ (by decide)
  · exact noPanic_error _ (by decide)
  push Not at hn
  obtain ⟨balances, hread, -, -⟩ := wordsAt_eq_ok hn.2
  obtain ⟨out, hout⟩ := shares_ne_panic hsupply balances
  exact NoPanic.of_read hread (NoPanic.of_read hout (noPanic_ok _))

theorem getD_noPanic : NoPanic (getD data gas) := by
  rw [getD]
  split_ifs with hlength
  · exact noPanic_error _ (by decide)
  rw [not_lt] at hlength
  refine NoPanic.of_read (uint32At_eq_ok (by omega)) ?_
  refine NoPanic.of_read (cut_eq_ok (by omega)) ?_
  refine (noPanic_leaving _ (readAmp_ne_panic _)).bind fun amp hamp => ?_
  split_ifs with hn hmax
  · exact noPanic_error _ (by decide)
  · exact noPanic_error _ (by decide)
  refine (noPanic_deductGas _ _).bind fun gas' _ => ?_
  push Not at hn
  obtain ⟨balances, hread, hcount, hbound⟩ := wordsAt_eq_ok hn.2
  rw [← hcount] at hn ⊢
  refine NoPanic.of_read (hcount ▸ hread) ?_
  let p : Pool := ⟨balances, amp, fun x hx => (hbound x hx).1, hn.1, readAmp_ok (leaving_ok hamp)⟩
  exact (noPanic_leaving _ (computeD_ne_panic p)).bind fun d _ => noPanic_ok _

theorem run_noPanic (input : List UInt8) : NoPanic (run input gas) := by
  rw [run]
  refine (noPanic_deductGas _ _).bind fun gas' _ => ?_
  cases input with
  | nil => exact noPanic_error _ (by decide)
  | cons op data =>
      dsimp only
      split
      · exact getDy_noPanic data gas'
      · exact addLiquidity_noPanic data gas'
      · exact removeLiquidity_noPanic data gas'
      · exact getD_noPanic data gas'
      · exact noPanic_error _ (by decide)

end EntryPoints

/-- No call data makes an entry point panic: every call returns a result or an error.  In
the solvers, over every pool the entry points can hand them, each round of `computeD`
starts from an iterate of at least 1 and divides by a positive number, and so does each
round of `computeY`. -/
theorem stableSwap_never_panics :
    (∀ data gas, NoPanic (getDy data gas) ∧ NoPanic (addLiquidity data gas) ∧
      NoPanic (removeLiquidity data gas) ∧ NoPanic (getD data gas) ∧ NoPanic (run data gas)) ∧
    (∀ (p : Pool), 0 < p.balances.sum → ∀ d,
      AtHead (nextD p.balances p.ann p.coins p.balances.sum) Close p.balances.sum d →
        1 ≤ d ∧ ∀ dP, curveProduct p.balances p.coins d = .ok dP →
          0 < denomD p.ann p.coins d dP) ∧
    (∀ (p : Pool) (j : ℕ), j < p.coins → ∀ d, 0 ≤ d → ∀ b c,
      coefficients p.balances p.amp p.coins j d = .ok (b, c) → ∀ y,
        AtHead (nextY b c d) Close d y → 0 < denomY b d y) := by
  refine ⟨fun data gas => ⟨getDy_noPanic data gas, addLiquidity_noPanic data gas,
    removeLiquidity_noPanic data gas, getD_noPanic data gas, run_noPanic gas data⟩, ?_, ?_⟩
  · intro p hsum d hd
    have hpos := atHead_pos hsum hd
    refine ⟨hpos, fun dP hdP => denomD_pos hpos ?_⟩
    have hcoins := p.coins_ge
    exact (curveProduct_spec (by omega) (by omega) p.nonneg hdP).1
  · intro p j hj d hd b c hco y hy
    obtain ⟨hc, hb⟩ := coefficients_pos hj hd hco
    exact denomY_pos hb hc hd hy

/-- An unbalanced pool of two coins. -/
def samplePool : Pool := ⟨[35, 1], 2, by decide, by decide, by decide⟩

/-- The first round of each solver on that pool. -/
theorem stableSwap_never_panics_sample :
    NoPanic (getD [0, 0, 0, 2] 6000) ∧ 0 < denomD 4 2 36 324 ∧ 0 < denomY 6 23 23 :=
  ⟨(stableSwap_never_panics.1 [0, 0, 0, 2] 6000).2.2.2.1,
    (stableSwap_never_panics.2.1 samplePool (by decide) 36 .start).2 324 (by decide),
    stableSwap_never_panics.2.2 samplePool 0 (by decide) 23 (by decide) 6 759 (by decide)
      23 .start⟩

end LuxPrecompile.StableSwap
