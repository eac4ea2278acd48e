import Mathlib.Analysis.MeanInequalities
import Mathlib.Analysis.Real.Sqrt
import Mathlib.Tactic

/-!
# Searches by iteration

A loop that replaces a value by the next one until the two are close, for a bounded
number of rounds, with what holds at the head of every round and of every value it
assigns, and the values at which it can stop, whatever its path.  Then the arithmetic of
two such searches: Newton's method for a quadratic with a division rounded up, and for a
power curve with divisions rounded down.
-/

namespace LuxPrecompile.Support

section Seek

variable {α ε : Type} (step : α → Except ε α) (near : α → α → Prop) [DecidableRel near]
  (giveUp : ε)

/-- Replace `x` by `step x` until the two are near, for at most `fuel` rounds. -/
def seek : ℕ → α → Except ε α
  | 0, _ => .error giveUp
  | fuel + 1, x =>
      match step x with
      | .error e => .error e
      | .ok x' => if near x' x then .ok x' else seek fuel x'

/-- The values the search assigns, in order; its start is not among them. -/
def iterates : ℕ → α → List α
  | 0, _ => []
  | fuel + 1, x =>
      match step x with
      | .error _ => []
      | .ok x' => x' :: if near x' x then [] else iterates fuel x'

/-- The values at the head of a round of the search from `x`. -/
inductive AtHead (x : α) : α → Prop
  | start : AtHead x x
  | next {v v' : α} : AtHead x v → step v = .ok v' → ¬near v' v → AtHead x v'

/-- Where a search whose rounds start from values in `I` can stop: the next value of one of
them, and near it. -/
def StopsAt (I : α → Prop) (y : α) : Prop := ∃ v, I v ∧ step v = .ok y ∧ near y v

variable {step near giveUp}

omit [DecidableRel near] in
theorem AtHead.invariant {I : α → Prop} {x v : α} (h : AtHead step near x v) (hstart : I x)
    (hstep : ∀ v v', I v → step v = .ok v' → ¬near v' v → I v') : I v := by
  induction h with
  | start => exact hstart
  | next _ hv hnear ih => exact hstep _ _ ih hv hnear

omit [DecidableRel near] in
theorem AtHead.of_next {x x' v : α} (hx : step x = .ok x') (hnear : ¬near x' x)
    (h : AtHead step near x' v) : AtHead step near x v := by
  induction h with
  | start => exact .next .start hx hnear
  | next _ hv hfar ih => exact .next ih hv hfar

/-- The result of a search is the next value of some round, and near it. -/
theorem seek_near {fuel : ℕ} {x y : α} (h : seek step near giveUp fuel x = .ok y) :
    ∃ v, AtHead step near x v ∧ step v = .ok y ∧ near y v := by
  induction fuel generalizing x with
  | zero => cases h
  | succ fuel ih =>
      rw [seek] at h
      cases hx : step x with
      | error e =>
          rw [hx] at h
          cases h
      | ok x' =>
          rw [hx] at h
          dsimp only at h
          split_ifs at h with hnear
          · cases h
            exact ⟨x, .start, hx, hnear⟩
          · obtain ⟨v, hv, hy⟩ := ih h
            exact ⟨v, hv.of_next hx hnear, hy⟩

theorem seek_ok {fuel : ℕ} {x y : α} (h : seek step near giveUp fuel x = .ok y) :
    ∃ v, AtHead step near x v ∧ step v = .ok y := by
  obtain ⟨v, hv, hy, -⟩ := seek_near h
  exact ⟨v, hv, hy⟩

theorem seek_stopsAt {I : α → Prop} {fuel : ℕ} {x y : α} (hstart : I x)
    (hstep : ∀ v v', I v → step v = .ok v' → ¬near v' v → I v')
    (h : seek step near giveUp fuel x = .ok y) : StopsAt step near I y := by
  obtain ⟨v, hv, hy, hnear⟩ := seek_near h
  exact ⟨v, hv.invariant hstart hstep, hy, hnear⟩

/-- A search fails in one of its rounds, or by running out of rounds. -/
theorem seek_error {fuel : ℕ} {x : α} {e : ε} (h : seek step near giveUp fuel x = .error e) :
    e = giveUp ∨ ∃ v, AtHead step near x v ∧ step v = .error e := by
  induction fuel generalizing x with
  | zero =>
      cases h
      exact .inl rfl
  | succ fuel ih =>
      rw [seek] at h
      cases hx : step x with
      | error e' =>
          rw [hx] at h
          cases h
          exact .inr ⟨x, .start, hx⟩
      | ok x' =>
          rw [hx] at h
          dsimp only at h
          split_ifs at h with hnear
          rcases ih h with he | ⟨v, hv, hstep⟩
          · exact .inl he
          · exact .inr ⟨v, hv.of_next hx hnear, hstep⟩

/-- Every value the search assigns is the next value of some round. -/
theorem mem_iterates {fuel : ℕ} {x y : α} (h : y ∈ iterates step near fuel x) :
    ∃ v, AtHead step near x v ∧ step v = .ok y := by
  induction fuel generalizing x with
  | zero => cases h
  | succ fuel ih =>
      rw [iterates] at h
      cases hx : step x with
      | error e =>
          rw [hx] at h
          cases h
      | ok x' =>
          rw [hx] at h
          rcases List.mem_cons.mp h with rfl | hmem
          · exact ⟨x, .start, hx⟩
          · split_ifs at hmem with hnear
            · cases hmem
            · obtain ⟨v, hv, hy⟩ := ih hmem
              exact ⟨v, hv.of_next hx hnear, hy⟩

/-- A search returns the last value it assigned. -/
theorem seek_getLast {fuel : ℕ} {x y : α} (h : seek step near giveUp fuel x = .ok y) :
    (iterates step near fuel x).getLast? = some y := by
  induction fuel generalizing x with
  | zero => cases h
  | succ fuel ih =>
      rw [seek] at h
      rw [iterates]
      cases hx : step x with
      | error e =>
          rw [hx] at h
          cases h
      | ok x' =>
          rw [hx] at h
          dsimp only at h ⊢
          split_ifs at h ⊢ with hnear
          · cases h
            rfl
          · rw [List.getLast?_cons, ih h]
            rfl

/-- Where every round from a good value descends to a good value, the values assigned
from a good start descend from it. -/
theorem iterates_descend [Preorder α] (I : α → Prop) (fuel : ℕ) {x : α} (hx : I x)
    (hstep : ∀ v v', I v → step v = .ok v' → I v' ∧ v' ≤ v) :
    (∀ v ∈ iterates step near fuel x, v ≤ x) ∧
      (iterates step near fuel x).Pairwise (· ≥ ·) := by
  induction fuel generalizing x with
  | zero => exact ⟨fun v hv => absurd hv List.not_mem_nil, List.Pairwise.nil⟩
  | succ fuel ih =>
      rw [iterates]
      cases hnext : step x with
      | error e => exact ⟨fun v hv => absurd hv List.not_mem_nil, List.Pairwise.nil⟩
      | ok x' =>
          obtain ⟨hgood, hle⟩ := hstep x x' hx hnext
          obtain ⟨hbelow, hpair⟩ := ih hgood
          dsimp only
          split_ifs with hnear
          · exact ⟨fun v hv => (List.mem_singleton.mp hv) ▸ hle, List.pairwise_singleton _ _⟩
          · refine ⟨fun v hv => ?_, List.Pairwise.cons hbelow hpair⟩
            rcases List.mem_cons.mp hv with rfl | hmem
            · exact hle
            · exact (hbelow v hmem).trans hle

end Seek

/-! ## A quadratic, rounded up -/

section Quadratic

variable {e c y y' : ℤ}

/-- A value at or above the Newton step for `y² + e * y = c` overshoots the root by the
square of the step. -/
theorem newton_quadratic (h : y * y + c ≤ y' * (2 * y + e)) :
    (y' - y) * (y' - y) ≤ y' * y' + e * y' - c := by
  linarith

theorem newton_quadratic_descends (hroot : c ≤ y * y + e * y) (hslope : 0 < 2 * y + e)
    (h : (y' - 1) * (2 * y + e) < y * y + c) : y' ≤ y := by
  by_contra hlt
  have hle : y * (2 * y + e) ≤ (y' - 1) * (2 * y + e) :=
    Int.mul_le_mul_of_nonneg_right (by omega) hslope.le
  linarith

/-- The positive root of `y² + e * y = c`. -/
noncomputable def positiveRoot (e c : ℤ) : ℝ := (-e + √((e ^ 2 + 4 * c : ℤ) : ℝ)) / (2 : ℕ)

theorem positiveRoot_eq (e c : ℤ) :
    positiveRoot e c = (-e + √((e : ℝ) ^ 2 + 4 * c)) / 2 := by
  rw [positiveRoot]
  push_cast
  rfl

/-- Whole numbers on the rising branch are at or above the root when the quadratic is. -/
theorem positiveRoot_le (hslope : 0 ≤ 2 * y + e) (h : c ≤ y * y + e * y) :
    positiveRoot e c ≤ y := by
  have hreal : (c : ℝ) ≤ y * y + e * y := by exact_mod_cast h
  have hs : (0 : ℝ) ≤ 2 * y + e := by exact_mod_cast hslope
  have hsqrt : √((e : ℝ) ^ 2 + 4 * c) ≤ 2 * y + e := by
    rw [Real.sqrt_le_left hs]
    nlinarith
  rw [positiveRoot_eq]
  linarith

/-- The quadratic is at or above `c` from its root on. -/
theorem le_of_positiveRoot_le (hc : 0 ≤ c) (h : positiveRoot e c ≤ y) : c ≤ y * y + e * y := by
  have hc' : (0 : ℝ) ≤ c := by exact_mod_cast hc
  have hdisc : (0 : ℝ) ≤ (e : ℝ) ^ 2 + 4 * c := by positivity
  have hsqrt : √((e : ℝ) ^ 2 + 4 * c) ≤ 2 * y + e := by
    rw [positiveRoot_eq] at h
    linarith
  have hs : (0 : ℝ) ≤ 2 * y + e := (Real.sqrt_nonneg _).trans hsqrt
  rw [Real.sqrt_le_left hs] at hsqrt
  have hreal : (c : ℝ) ≤ y * y + e * y := by nlinarith
  exact_mod_cast hreal

end Quadratic

/-! ## A power curve, rounded down -/

/-- Bernoulli's inequality between two magnitudes. -/
theorem mul_pow_le_add_pow {a b : ℤ} (ha : 0 ≤ a) (hb : 0 < b) (n : ℕ) :
    (n + 1) * b ^ n * a ≤ a ^ (n + 1) + n * b ^ (n + 1) := by
  have hb' : (0 : ℚ) < b := by exact_mod_cast hb
  have hratio : (0 : ℚ) ≤ a / b := div_nonneg (by exact_mod_cast ha) hb'.le
  have h := one_add_mul_le_pow (show (-2 : ℚ) ≤ a / b - 1 by linarith) (n + 1)
  rw [add_sub_cancel, div_pow] at h
  have hpow : (0 : ℚ) < (b : ℚ) ^ (n + 1) := by positivity
  have hmul := mul_le_mul_of_nonneg_right h hpow.le
  rw [div_mul_cancel₀ _ hpow.ne'] at hmul
  have hleft : (1 + ((n + 1 : ℕ) : ℚ) * (a / b - 1)) * (b : ℚ) ^ (n + 1) =
      (n + 1) * b ^ n * a - n * b ^ (n + 1) := by
    push_cast
    field_simp
    ring
  rw [hleft] at hmul
  have hq : ((n : ℚ) + 1) * b ^ n * a ≤ a ^ (n + 1) + n * b ^ (n + 1) := by linarith
  exact_mod_cast hq

/-- The product of a list, scaled by its length, is at most the power of its sum. -/
theorem pow_length_mul_prod_le {xs : List ℤ} (h : ∀ x ∈ xs, 0 ≤ x) :
    (xs.length : ℤ) ^ xs.length * xs.prod ≤ xs.sum ^ xs.length := by
  rcases Nat.eq_zero_or_pos xs.length with hzero | hlength
  · rw [List.eq_nil_of_length_eq_zero hzero]
    simp
  · have hcount : (0 : ℝ) < xs.length := by exact_mod_cast hlength
    have hentry : ∀ i : Fin xs.length, (0 : ℝ) ≤ (xs[i] : ℤ) := fun i =>
      Int.cast_nonneg (h _ (List.getElem_mem i.isLt))
    have hmean := Real.geom_mean_le_arith_mean Finset.univ (fun _ : Fin xs.length => (1 : ℝ))
      (fun i => ((xs[i] : ℤ) : ℝ)) (fun _ _ => zero_le_one) (by simpa using hlength)
      fun i _ => hentry i
    simp only [Real.rpow_one, one_mul, Finset.sum_const, Finset.card_univ, Fintype.card_fin,
      nsmul_eq_mul, mul_one] at hmean
    have hprod : ∏ i : Fin xs.length, ((xs[i] : ℤ) : ℝ) = ((xs.prod : ℤ) : ℝ) := by
      rw [← Int.cast_prod]
      exact congrArg _ (Fin.prod_univ_getElem xs)
    have hsum : ∑ i : Fin xs.length, ((xs[i] : ℤ) : ℝ) = ((xs.sum : ℤ) : ℝ) := by
      rw [← Int.cast_sum]
      exact congrArg _ (Fin.sum_univ_getElem xs)
    have hprod0 : (0 : ℝ) ≤ ((xs.prod : ℤ) : ℝ) := by
      rw [← hprod]
      exact Finset.prod_nonneg fun i _ => hentry i
    rw [hprod, hsum] at hmean
    have hpower := pow_le_pow_left₀ (Real.rpow_nonneg hprod0 _) hmean xs.length
    rw [Real.rpow_inv_natCast_pow hprod0 hlength.ne', div_pow, le_div_iff₀ (pow_pos hcount _)]
      at hpower
    have hreal : (xs.length : ℝ) ^ xs.length * ((xs.prod : ℤ) : ℝ) ≤
        ((xs.sum : ℤ) : ℝ) ^ xs.length := by
      rw [mul_comm]
      exact hpower
    exact_mod_cast hreal

end LuxPrecompile.Support
