import Mathlib.Algebra.QuadraticAlgebra.Basic
import Mathlib.NumberTheory.LucasPrimality
import Mathlib.Tactic

/-!
# The Goldilocks field

The field operations of `zk/stark.go` on 64-bit words, for `p = 2^64 - 2^32 + 1`, and
its quadratic extension by a root of seven.  A word below `p` stands for one element of
the field; the operations are compared with those of `ZMod p` and of its quadratic
algebra.
-/

namespace LuxPrecompile.Zk

def goldilocksModulus : UInt64 := 0xFFFFFFFF00000001

namespace GoldilocksField

/-- `mul64`: the high and the low half of a product. -/
def mul64 (a b : UInt64) : UInt64 × UInt64 :=
  let product := a.toNat * b.toNat
  (UInt64.ofNat (product >>> 64), UInt64.ofNat product)

def reduce128 (hi lo : UInt64) : UInt64 :=
  UInt64.ofNat ((hi.toNat <<< 64 + lo.toNat) % goldilocksModulus.toNat)

/-- `Add`, with the wrapped sum detected after the fact. -/
def add (a b : UInt64) : UInt64 :=
  let sum := a + b
  if sum < a ∨ goldilocksModulus ≤ sum then sum - goldilocksModulus else sum

def sub (a b : UInt64) : UInt64 :=
  if b ≤ a then a - b else goldilocksModulus - (b - a)

def mul (a b : UInt64) : UInt64 := reduce128 (mul64 a b).1 (mul64 a b).2

/-- The loop of `Exp`.  The exponent loses a bit a round, so a loop over a 64-bit exponent
ends within 64 rounds. -/
def expLoop : ℕ → UInt64 → UInt64 → UInt64 → UInt64
  | 0, result, _, _ => result
  | rounds + 1, result, base, e =>
      if e = 0 then result
      else
        expLoop rounds (if e &&& 1 = 1 then mul result base else result) (mul base base)
          (e >>> 1)

def exp (base e : UInt64) : UInt64 := expLoop 64 1 base e

def inv (a : UInt64) : UInt64 := if a = 0 then 0 else exp a (goldilocksModulus - 2)

end GoldilocksField

open GoldilocksField

/-- `ExtensionField`: `a + b * X` with `X ^ 2 = 7`. -/
structure ExtensionField where
  a : UInt64
  b : UInt64
deriving DecidableEq

def extMul (x y : ExtensionField) : ExtensionField where
  a := add (mul x.a y.a) (mul 7 (mul x.b y.b))
  b := add (mul x.a y.b) (mul x.b y.a)

def extInv (x : ExtensionField) : ExtensionField :=
  let denom := sub (mul x.a x.a) (mul 7 (mul x.b x.b))
  let denomInv := inv denom
  ⟨mul x.a denomInv, sub 0 (mul x.b denomInv)⟩

/-! ## The field the words stand for -/

/-- The number `p`. -/
def goldilocks : ℕ := 18446744069414584321

@[simp]
theorem goldilocksModulus_toNat : goldilocksModulus.toNat = goldilocks := rfl

/-- Seven generates the units modulo `p`, whose number has six small prime factors. -/
theorem goldilocks_prime : goldilocks.Prime := by
  show Nat.Prime 18446744069414584321
  apply lucas_primality _ (7 : ZMod 18446744069414584321)
  · reduce_mod_char
  · intro q hq hdvd
    have hfactors : 18446744069414584321 - 1 = 2 ^ 32 * 3 * 5 * 17 * 257 * 65537 := by
      norm_num
    have heq : ∀ r, r.Prime → q ∣ r → q = r := fun r hr h =>
      (Nat.prime_dvd_prime_iff_eq hq hr).mp h
    have hmem : q = 2 ∨ q = 3 ∨ q = 5 ∨ q = 17 ∨ q = 257 ∨ q = 65537 := by
      rw [hfactors] at hdvd
      simp only [hq.dvd_mul] at hdvd
      rcases hdvd with ((((h | h) | h) | h) | h) | h
      · have := heq 2 Nat.prime_two (hq.dvd_of_dvd_pow h)
        omega
      · have := heq 3 Nat.prime_three h
        omega
      · have := heq 5 Nat.prime_five h
        omega
      · have := heq 17 (by norm_num) h
        omega
      · have := heq 257 (by norm_num) h
        omega
      · have := heq 65537 (by norm_num) h
        omega
    rcases hmem with rfl | rfl | rfl | rfl | rfl | rfl
    all_goals
      norm_num only
      reduce_mod_char
      decide

instance fact_goldilocks_prime : Fact goldilocks.Prime := ⟨goldilocks_prime⟩

/-- The field with `p` elements. -/
abbrev Goldilocks := ZMod goldilocks

/-- By Euler's criterion. -/
theorem seven_not_square (r : Goldilocks) : r ^ 2 ≠ 7 := by
  intro hr
  have hne : r ≠ 0 := by
    rintro rfl
    have hseven : (7 : Goldilocks) ≠ 0 := by decide
    exact hseven (by rw [← hr]; ring)
  have hfermat : r ^ (goldilocks - 1) = 1 := ZMod.pow_card_sub_one_eq_one hne
  have hhalf : goldilocks - 1 = 2 * 9223372034707292160 := by norm_num [goldilocks]
  have heuler : (7 : ZMod 18446744069414584321) ^ 9223372034707292160 = -1 := by
    reduce_mod_char
  rw [hhalf, pow_mul, hr] at hfermat
  have hone : (-1 : Goldilocks) = 1 := heuler.symm.trans hfermat
  exact absurd hone (by decide)

instance fact_seven_not_square : Fact (∀ r : Goldilocks, r ^ 2 ≠ 7 + 0 * r) :=
  ⟨fun r => by simpa using seven_not_square r⟩

/-- The quadratic extension. -/
abbrev GoldilocksExtension := QuadraticAlgebra Goldilocks 7 0

/-- A word below `p`. -/
def Canonical (a : UInt64) : Prop := a.toNat < goldilocks

instance decidable_canonical (a : UInt64) : Decidable (Canonical a) :=
  inferInstanceAs (Decidable (a.toNat < goldilocks))

/-- The element of the field a word stands for. -/
def toField (a : UInt64) : Goldilocks := a.toNat

/-- The word is the canonical representative of an element. -/
structure Represents (a : UInt64) (z : Goldilocks) : Prop where
  canonical : Canonical a
  value : toField a = z

theorem Canonical.represents {a : UInt64} (h : Canonical a) : Represents a (toField a) :=
  ⟨h, rfl⟩

theorem Represents.unique {a b : UInt64} {z : Goldilocks} (ha : Represents a z)
    (hb : Represents b z) : a = b := by
  have hcast : ((a.toNat : ℕ) : Goldilocks) = (b.toNat : ℕ) := ha.value.trans hb.value.symm
  rw [ZMod.natCast_eq_natCast_iff'] at hcast
  apply UInt64.toNat_inj.mp
  rwa [Nat.mod_eq_of_lt ha.canonical, Nat.mod_eq_of_lt hb.canonical] at hcast

theorem represents_zero : Represents 0 0 := ⟨by decide, Nat.cast_zero⟩

theorem represents_one : Represents 1 1 := ⟨by decide, Nat.cast_one⟩

/-! ## Words -/

namespace Represents

variable {a b : UInt64} {x y : Goldilocks}

theorem add (ha : Represents a x) (hb : Represents b y) : Represents (add a b) (x + y) := by
  have hltA : a.toNat < 18446744069414584321 := ha.canonical
  have hltB : b.toNat < 18446744069414584321 := hb.canonical
  have hmod : goldilocksModulus.toNat = 18446744069414584321 := rfl
  have hsum : (GoldilocksField.add a b).toNat =
      if goldilocks ≤ a.toNat + b.toNat then a.toNat + b.toNat - goldilocks
      else a.toNat + b.toNat := by
    unfold GoldilocksField.add
    simp only [UInt64.lt_iff_toNat_lt, UInt64.le_iff_toNat_le, UInt64.toNat_add, hmod]
    rw [show goldilocks = 18446744069414584321 from rfl]
    split_ifs with hwrap hlarge hlarge
    · rw [UInt64.toNat_sub, UInt64.toNat_add, hmod]
      omega
    · omega
    · omega
    · rw [UInt64.toNat_add]
      omega
  have hcast : ((a.toNat + b.toNat : ℕ) : Goldilocks) = x + y := by
    rw [Nat.cast_add]
    exact congrArg₂ (· + ·) ha.value hb.value
  constructor
  · rw [Canonical, hsum]
    unfold goldilocks
    split_ifs <;> omega
  · rw [toField, hsum]
    split_ifs with hlarge
    · rw [Nat.cast_sub hlarge, hcast, ZMod.natCast_self, sub_zero]
    · exact hcast

theorem sub (ha : Represents a x) (hb : Represents b y) : Represents (sub a b) (x - y) := by
  have hltA : a.toNat < 18446744069414584321 := ha.canonical
  have hltB : b.toNat < 18446744069414584321 := hb.canonical
  have hmod : goldilocksModulus.toNat = 18446744069414584321 := rfl
  have hsum : (GoldilocksField.sub a b).toNat =
      if b.toNat ≤ a.toNat then a.toNat - b.toNat else goldilocks - (b.toNat - a.toNat) := by
    unfold GoldilocksField.sub
    simp only [UInt64.le_iff_toNat_le]
    split_ifs with hle
    · rw [UInt64.toNat_sub]
      omega
    · rw [UInt64.toNat_sub, UInt64.toNat_sub, hmod, show goldilocks = 18446744069414584321 from rfl]
      omega
  have hx : ((a.toNat : ℕ) : Goldilocks) = x := ha.value
  have hy : ((b.toNat : ℕ) : Goldilocks) = y := hb.value
  constructor
  · rw [Canonical, hsum]
    unfold goldilocks
    split_ifs <;> omega
  · rw [toField, hsum]
    split_ifs with hle
    · rw [Nat.cast_sub hle, hx, hy]
    · have hsmall : b.toNat - a.toNat ≤ goldilocks := by
        unfold goldilocks
        omega
      rw [Nat.cast_sub hsmall, Nat.cast_sub (by omega), hx, hy, ZMod.natCast_self]
      ring

end Represents

/-- The product of any two words is reduced. -/
theorem represents_mul (a b : UInt64) : Represents (mul a b) (toField a * toField b) := by
  have hlt := Nat.mod_lt (a.toNat * b.toNat) goldilocks_prime.pos
  have hproduct : a.toNat * b.toNat < 2 ^ 64 * 2 ^ 64 :=
    Nat.mul_lt_mul'' a.toNat_lt b.toNat_lt
  have hmul : (mul a b).toNat = a.toNat * b.toNat % goldilocks := by
    have hhalves : (mul64 a b).1.toNat <<< 64 + (mul64 a b).2.toNat =
        a.toNat * b.toNat := by
      simp only [mul64, UInt64.toNat_ofNat', Nat.shiftRight_eq_div_pow, Nat.shiftLeft_eq]
      omega
    rw [mul, reduce128, hhalves, goldilocksModulus_toNat, UInt64.toNat_ofNat']
    apply Nat.mod_eq_of_lt
    unfold goldilocks at hlt ⊢
    omega
  constructor
  · rw [Canonical, hmul]
    exact hlt
  · rw [toField, hmul, ZMod.natCast_mod, Nat.cast_mul]
    rfl

theorem Represents.mul {a b : UInt64} {x y : Goldilocks} (ha : Represents a x)
    (hb : Represents b y) : Represents (mul a b) (x * y) := by
  rw [← ha.value, ← hb.value]
  exact represents_mul a b

theorem lowBit_eq_one_iff (e : UInt64) : e &&& 1 = 1 ↔ e.toNat % 2 = 1 := by
  rw [← UInt64.toNat_inj, UInt64.toNat_and, UInt64.toNat_one, Nat.and_one_is_mod]

/-- Square-and-multiply: the result times the power that is left. -/
theorem represents_expLoop (rounds : ℕ) {result base e : UInt64} {r b : Goldilocks}
    (he : e.toNat < 2 ^ rounds) (hresult : Represents result r) (hbase : toField base = b) :
    Represents (expLoop rounds result base e) (r * b ^ e.toNat) := by
  induction rounds generalizing result base e r b with
  | zero =>
      have hzero : e.toNat = 0 := by omega
      rw [hzero, pow_zero, mul_one]
      exact hresult
  | succ rounds ih =>
      unfold expLoop
      by_cases hdone : e = 0
      · rw [if_pos hdone, hdone, UInt64.toNat_zero, pow_zero, mul_one]
        exact hresult
      rw [if_neg hdone]
      have hshift : (e >>> 1).toNat = e.toNat / 2 := by
        rw [UInt64.toNat_shiftRight]
        exact Nat.shiftRight_eq_div_pow _ _
      have hsquare : toField (mul base base) = b ^ 2 := by
        rw [(represents_mul base base).value, hbase, sq]
      have hlt : (e >>> 1).toNat < 2 ^ rounds := by
        rw [hshift]
        omega
      by_cases hodd : e &&& 1 = 1
      · have hmod := (lowBit_eq_one_iff e).mp hodd
        have hpower : r * b ^ e.toNat = r * b * (b ^ 2) ^ (e >>> 1).toNat := by
          have hsplit : e.toNat = 1 + 2 * (e.toNat / 2) := by omega
          rw [hshift, ← pow_mul, mul_assoc, ← pow_succ', add_comm (2 * _), ← hsplit]
        rw [if_pos hodd, hpower]
        apply ih hlt _ hsquare
        rw [← hresult.value, ← hbase]
        exact represents_mul result base
      · have hmod : e.toNat % 2 ≠ 1 := fun h => hodd ((lowBit_eq_one_iff e).mpr h)
        have hpower : r * b ^ e.toNat = r * (b ^ 2) ^ (e >>> 1).toNat := by
          have hsplit : e.toNat = 2 * (e.toNat / 2) := by omega
          rw [hshift, ← pow_mul, ← hsplit]
        rw [if_neg hodd, hpower]
        exact ih hlt hresult hsquare

theorem represents_exp (base e : UInt64) : Represents (exp base e) (toField base ^ e.toNat) := by
  have hexp := represents_expLoop 64 e.toNat_lt represents_one (rfl : toField base = _)
  rwa [one_mul] at hexp

/-- By Fermat's little theorem; zero is its own inverse. -/
theorem Represents.inv {a : UInt64} {x : Goldilocks} (ha : Represents a x) :
    Represents (inv a) x⁻¹ := by
  unfold GoldilocksField.inv
  by_cases hzero : a = 0
  · have hx : x = 0 := by
      rw [← ha.value, hzero]
      exact represents_zero.value
    rw [if_pos hzero, hx, inv_zero]
    exact represents_zero
  · rw [if_neg hzero]
    have hx : x ≠ 0 := by
      rintro rfl
      exact hzero (ha.unique represents_zero)
    have hpower : x ^ (goldilocksModulus - 2).toNat = x⁻¹ := by
      have hfermat : x ^ (goldilocks - 1) = 1 := ZMod.pow_card_sub_one_eq_one hx
      apply eq_inv_of_mul_eq_one_left
      rw [← pow_succ]
      exact hfermat
    have hexp := represents_exp a (goldilocksModulus - 2)
    rwa [ha.value, hpower] at hexp

/-! ## The extension -/

/-- The pair of words is the canonical representative of an element of the extension. -/
structure ExtRepresents (x : ExtensionField) (z : GoldilocksExtension) : Prop where
  re : Represents x.a z.re
  im : Represents x.b z.im

theorem ExtRepresents.unique {x y : ExtensionField} {z : GoldilocksExtension}
    (hx : ExtRepresents x z) (hy : ExtRepresents y z) : x = y := by
  obtain ⟨a, b⟩ := x
  obtain ⟨c, d⟩ := y
  rw [ExtensionField.mk.injEq]
  exact ⟨hx.re.unique hy.re, hx.im.unique hy.im⟩

theorem represents_seven : Represents 7 7 := ⟨by decide, rfl⟩

namespace ExtRepresents

variable {x y : ExtensionField} {z w : GoldilocksExtension}

theorem mul (hx : ExtRepresents x z) (hy : ExtRepresents y w) :
    ExtRepresents (extMul x y) (z * w) := by
  constructor
  · have hre := (hx.re.mul hy.re).add (represents_seven.mul (hx.im.mul hy.im))
    rw [QuadraticAlgebra.re_mul, mul_assoc]
    exact hre
  · have him := (hx.re.mul hy.im).add (hx.im.mul hy.re)
    rw [QuadraticAlgebra.im_mul, zero_mul, zero_mul, add_zero]
    exact him

/-- The inverse is the conjugate over the norm. -/
theorem inv (hx : ExtRepresents x z) : ExtRepresents (extInv x) z⁻¹ := by
  have hnorm : z.norm = z.re * z.re - 7 * (z.im * z.im) := by
    rw [QuadraticAlgebra.norm_def]
    ring
  have hdenom := ((hx.re.mul hx.re).sub (represents_seven.mul (hx.im.mul hx.im))).inv
  rw [← hnorm] at hdenom
  constructor
  · have hre : z⁻¹.re = z.re * z.norm⁻¹ := by
      simp [QuadraticAlgebra.inv_def, mul_comm]
    rw [hre]
    exact hx.re.mul hdenom
  · have him : z⁻¹.im = 0 - z.im * z.norm⁻¹ := by
      simp [QuadraticAlgebra.inv_def, mul_comm]
    rw [him]
    exact represents_zero.sub (hx.im.mul hdenom)

end ExtRepresents

/-- The one of the extension. -/
def ExtensionField.one : ExtensionField := ⟨1, 0⟩

theorem extRepresents_one : ExtRepresents ExtensionField.one 1 :=
  ⟨represents_one, represents_zero⟩

/-- On canonical words the operations return the canonical representatives of the field's
results, for every exponent, and the inverses are inverses. -/
theorem goldilocks_operations :
    (∀ a b, Canonical a → Canonical b →
      Represents (add a b) (toField a + toField b) ∧
      Represents (sub a b) (toField a - toField b) ∧
      Represents (mul a b) (toField a * toField b)) ∧
    (∀ a e, Canonical a → Represents (exp a e) (toField a ^ e.toNat)) ∧
    (∀ a, Canonical a → a ≠ 0 → mul a (inv a) = 1) ∧
    ∀ x : ExtensionField, Canonical x.a → Canonical x.b → x ≠ ⟨0, 0⟩ →
      extMul x (extInv x) = ExtensionField.one := by
  refine ⟨fun a b ha hb => ?_, fun a e _ => represents_exp a e, fun a ha hne => ?_,
    fun x ha hb hne => ?_⟩
  · exact ⟨ha.represents.add hb.represents, ha.represents.sub hb.represents,
      represents_mul a b⟩
  · have hnonzero : toField a ≠ 0 := fun hzero =>
      hne (Represents.unique ⟨ha, hzero⟩ represents_zero)
    have hproduct := ha.represents.mul ha.represents.inv
    rw [mul_inv_cancel₀ hnonzero] at hproduct
    exact hproduct.unique represents_one
  · obtain ⟨z, hz⟩ : ∃ z : GoldilocksExtension, ExtRepresents x z :=
      ⟨⟨toField x.a, toField x.b⟩, ha.represents, hb.represents⟩
    have hnonzero : z ≠ 0 := by
      rintro rfl
      exact hne (hz.unique ⟨represents_zero, represents_zero⟩)
    have hproduct := hz.mul hz.inv
    rw [mul_inv_cancel₀ hnonzero] at hproduct
    exact hproduct.unique extRepresents_one

end LuxPrecompile.Zk
