import Mathlib.NumberTheory.LucasPrimality
import Mathlib.Tactic

/-!
# Certificates of primality

A number is prime if some base has the order of a group of units of that many elements.  The
order is checked at the prime factors of the number less one, and these are certified in turn
or found prime by trial division.
-/

namespace LuxPrecompile.Support.Primality

/-- The power of a base modulo `n`, by squaring, for exponents of `bits` bits. -/
def powMod (n base : ℕ) : ℕ → ℕ → ℕ
  | 0, _ => 1 % n
  | bits + 1, e =>
      let root := powMod n base bits (e / 2)
      if e % 2 = 0 then root * root % n else root * root % n * base % n

theorem powMod_cast (n base : ℕ) :
    ∀ {bits e : ℕ}, e < 2 ^ bits → (powMod n base bits e : ZMod n) = base ^ e := by
  intro bits
  induction bits with
  | zero =>
      intro e he
      obtain rfl : e = 0 := by simpa using he
      simp [powMod]
  | succ bits ih =>
      intro e he
      have hhalf := ih (show e / 2 < 2 ^ bits by rw [pow_succ] at he; omega)
      have hsplit : e = e / 2 + e / 2 + e % 2 := by omega
      rw [powMod]
      rcases Nat.mod_two_eq_zero_or_one e with heven | hodd
      · rw [if_pos heven]
        conv_rhs => rw [hsplit, heven, add_zero, pow_add, ← hhalf]
        simp
      · rw [if_neg (by omega)]
        conv_rhs => rw [hsplit, hodd, pow_succ, pow_add, ← hhalf]
        simp

theorem pow_eq_one_iff_powMod {n base bits e : ℕ} (hn : 2 ≤ n) (he : e < 2 ^ bits) :
    (base : ZMod n) ^ e = 1 ↔ powMod n base bits e % n = 1 := by
  have hcast : ((1 : ℕ) : ZMod n) = 1 := Nat.cast_one
  rw [← powMod_cast n base he, ← hcast, ZMod.natCast_eq_natCast_iff',
    Nat.mod_eq_of_lt (show 1 < n by omega)]

/-- A small number without a divisor but one and itself. -/
def trial (q : ℕ) : Bool :=
  decide (2 ≤ q) && decide (q < 10000) &&
    (List.range 100).all fun d => decide (d < 2) || decide (d = q) || decide (q % d ≠ 0)

theorem prime_of_trial {q : ℕ} (h : trial q = true) : q.Prime := by
  simp only [trial, Bool.and_eq_true, decide_eq_true_eq, List.all_eq_true, List.mem_range,
    Bool.or_eq_true] at h
  obtain ⟨⟨htwo, hsmall⟩, hdivisors⟩ := h
  have hprime := Nat.minFac_prime (show q ≠ 1 by omega)
  by_contra hq
  have hsq := Nat.minFac_sq_le_self (by omega) hq
  have hlow := hprime.two_le
  have hlt : q.minFac < 100 := by nlinarith
  rcases hdivisors q.minFac hlt with (hone | hself) | hrest
  · omega
  · exact hq (hself ▸ hprime)
  · exact hrest (Nat.mod_eq_zero_of_dvd q.minFac_dvd)

/-- A number with a base, and the prime factors of the number less one with their
exponents. -/
structure Entry where
  prime : ℕ
  base : ℕ
  factors : List (ℕ × ℕ)

/-- The value of the power of an entry's base. -/
def Entry.power (e : Entry) (k : ℕ) : ℕ :=
  powMod e.prime e.base ((e.prime - 1).log2 + 1) k % e.prime

/-- The base of an entry has the order that it has for a prime. -/
def Entry.hasOrder (e : Entry) : Bool :=
  decide (2 ≤ e.prime) && decide ((e.factors.map fun f => f.1 ^ f.2).prod = e.prime - 1) &&
    decide (e.power (e.prime - 1) = 1) &&
      e.factors.all fun f => decide (e.power ((e.prime - 1) / f.1) ≠ 1)

/-- Every entry has its order, and its factors are numbers of the entries that follow or
small. -/
def certified : List Entry → Bool
  | [] => true
  | e :: rest =>
      (e.hasOrder && e.factors.all fun f =>
        rest.any (fun later => decide (later.prime = f.1)) || trial f.1) && certified rest

theorem Entry.prime_of_hasOrder {e : Entry} (h : e.hasOrder = true)
    (hfactors : ∀ f ∈ e.factors, f.1.Prime) : e.prime.Prime := by
  simp only [Entry.hasOrder, Bool.and_eq_true, decide_eq_true_eq, List.all_eq_true] at h
  obtain ⟨⟨⟨htwo, hproduct⟩, hfull⟩, hproper⟩ := h
  have hone (k : ℕ) (hk : k ≤ e.prime - 1) :
      (e.base : ZMod e.prime) ^ k = 1 ↔ e.power k = 1 :=
    pow_eq_one_iff_powMod htwo (lt_of_le_of_lt hk Nat.lt_log2_self)
  refine lucas_primality e.prime e.base ((hone _ le_rfl).mpr hfull) fun q hq hdvd hpow => ?_
  have hmem : ∃ f ∈ e.factors, q = f.1 := by
    rw [← hproduct, hq.prime.dvd_prod_iff] at hdvd
    obtain ⟨x, hx, hqx⟩ := hdvd
    obtain ⟨f, hf, rfl⟩ := List.mem_map.mp hx
    exact ⟨f, hf, (Nat.prime_dvd_prime_iff_eq hq (hfactors f hf)).mp (hq.dvd_of_dvd_pow hqx)⟩
  obtain ⟨f, hf, rfl⟩ := hmem
  exact hproper f hf ((hone _ (Nat.div_le_self _ _)).mp hpow)

/-- The numbers of a certificate are prime. -/
theorem prime_of_certified {entries : List Entry} (h : certified entries = true) :
    ∀ e ∈ entries, e.prime.Prime := by
  induction entries with
  | nil => exact fun e he => absurd he List.not_mem_nil
  | cons e rest ih =>
      simp only [certified, Bool.and_eq_true, List.all_eq_true, Bool.or_eq_true, List.any_eq_true,
        decide_eq_true_eq] at h
      obtain ⟨⟨horder, hfactors⟩, hrest⟩ := h
      refine List.forall_mem_cons.mpr ⟨e.prime_of_hasOrder horder fun f hf => ?_, ih hrest⟩
      rcases hfactors f hf with ⟨later, hlater, heq⟩ | hsmall
      · rw [← heq]
        exact ih hrest later hlater
      · exact prime_of_trial hsmall

end LuxPrecompile.Support.Primality
