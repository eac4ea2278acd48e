import Mathlib.Algebra.BigOperators.Group.Finset.Basic
import Mathlib.Algebra.Order.BigOperators.Group.Finset
import Mathlib.Data.Fintype.BigOperators
import Mathlib.Tactic

/-!
# Weighted half-open ranges

A finite family of ranges `[lo k, hi k)` of integers, each with a weight.  The
weight active at a point changes only at the ends of ranges: passing a single
boundary upward adds the net weight of that boundary.  These sums are the
specification of any ledger that keeps the boundaries instead of the ranges.
-/

namespace LuxPrecompile.Support

/-- Boundary `b` lies between two points, so that going from one to the other
enters or leaves the ranges that start or end there. -/
def Between (t t' b : ℤ) : Prop := t' < b ∧ b ≤ t ∨ t < b ∧ b ≤ t'

section Ranges

variable {K : Type} [Fintype K] (lo hi : K → ℤ) (w : K → ℤ)

/-- The weight of the ranges around a point. -/
def activeAt (t : ℤ) : ℤ := ∑ k, if lo k ≤ t ∧ t < hi k then w k else 0

/-- The weight of the ranges that start or end at a boundary. -/
def grossAt (b : ℤ) : ℤ := ∑ k, if lo k = b ∨ hi k = b then w k else 0

/-- The weight that starts at a boundary, less the weight that ends there. -/
def netAt (b : ℤ) : ℤ :=
  (∑ k, if lo k = b then w k else 0) - ∑ k, if hi k = b then w k else 0

/-- The weight of all ranges. -/
def totalWeight : ℤ := ∑ k, w k

variable {lo hi w}

@[simp]
theorem activeAt_zero (t : ℤ) : activeAt lo hi (fun _ => 0) t = 0 := by
  simp [activeAt]

/-! ## Moving the point -/

/-- No boundary of a weighted range is passed: the active weight stays. -/
theorem activeAt_eq_of_quiet {t t' : ℤ}
    (h : ∀ k, w k ≠ 0 → ¬Between t t' (lo k) ∧ ¬Between t t' (hi k)) :
    activeAt lo hi w t' = activeAt lo hi w t := by
  apply Finset.sum_congr rfl
  intro k _
  by_cases hw : w k = 0
  · simp [hw]
  · obtain ⟨hlo, hhi⟩ := h k hw
    unfold Between at hlo hhi
    have hiff : (lo k ≤ t' ∧ t' < hi k) ↔ (lo k ≤ t ∧ t < hi k) := by omega
    simp only [hiff]

/-- Exactly the boundary `b` is passed upward: its net weight is added. -/
theorem activeAt_cross {t t' b : ℤ} (hb : t < b ∧ b ≤ t')
    (hvalid : ∀ k, w k ≠ 0 → lo k < hi k)
    (h : ∀ k, w k ≠ 0 → (Between t t' (lo k) → lo k = b) ∧
      (Between t t' (hi k) → hi k = b)) :
    activeAt lo hi w t' = activeAt lo hi w t + netAt lo hi w b := by
  unfold activeAt netAt
  rw [← Finset.sum_sub_distrib, ← Finset.sum_add_distrib]
  apply Finset.sum_congr rfl
  intro k _
  by_cases hw : w k = 0
  · simp [hw]
  · obtain ⟨hlo, hhi⟩ := h k hw
    have hlt := hvalid k hw
    unfold Between at hlo hhi
    split_ifs <;> omega

/-! ## Changing one weight -/

/-- The weights after one of them changed. -/
def addWeight [DecidableEq K] (w : K → ℤ) (key : K) (d : ℤ) : K → ℤ :=
  Function.update w key (w key + d)

/-- A sum of selected weights changes by the change if the key is selected. -/
theorem sum_addWeight [DecidableEq K] (key : K) (d : ℤ) (p : K → Prop)
    [DecidablePred p] :
    (∑ k, if p k then addWeight w key d k else 0) =
      (∑ k, if p k then w k else 0) + if p key then d else 0 := by
  have hsplit : ∀ k, (if p k then addWeight w key d k else 0) =
      (if p k then w k else 0) + if k = key then (if p key then d else 0) else 0 := by
    intro k
    unfold addWeight
    by_cases hk : k = key
    · subst hk
      by_cases hp : p k <;> simp [hp]
    · simp [hk]
  rw [Finset.sum_congr rfl (fun k _ => hsplit k), Finset.sum_add_distrib,
    Finset.sum_ite_eq']
  simp

variable [DecidableEq K] (key : K) (d : ℤ)

theorem activeAt_addWeight (t : ℤ) :
    activeAt lo hi (addWeight w key d) t =
      activeAt lo hi w t + if lo key ≤ t ∧ t < hi key then d else 0 :=
  sum_addWeight key d _

theorem grossAt_addWeight (b : ℤ) :
    grossAt lo hi (addWeight w key d) b =
      grossAt lo hi w b + if lo key = b ∨ hi key = b then d else 0 :=
  sum_addWeight key d _

theorem netAt_addWeight (b : ℤ) :
    netAt lo hi (addWeight w key d) b =
      netAt lo hi w b + (if lo key = b then d else 0) - if hi key = b then d else 0 := by
  unfold netAt
  rw [sum_addWeight key d, sum_addWeight key d]
  ring

theorem totalWeight_addWeight :
    totalWeight (addWeight w key d) = totalWeight w + d := by
  have h := sum_addWeight (w := w) key d (fun _ => True)
  simpa [totalWeight] using h

/-! ## Bounds -/

omit [DecidableEq K]

/-- A selected sum of non-negative weights is non-negative and at most the
total. -/
theorem sum_selected_nonneg (hw : ∀ k, 0 ≤ w k) (p : K → Prop) [DecidablePred p] :
    0 ≤ ∑ k, if p k then w k else 0 := by
  apply Finset.sum_nonneg
  intro k _
  split_ifs
  · exact hw k
  · exact le_rfl

theorem sum_selected_le (hw : ∀ k, 0 ≤ w k) (p : K → Prop) [DecidablePred p] :
    (∑ k, if p k then w k else 0) ≤ totalWeight w := by
  apply Finset.sum_le_sum
  intro k _
  split_ifs
  · exact le_rfl
  · exact hw k

theorem activeAt_nonneg (lo hi : K → ℤ) (hw : ∀ k, 0 ≤ w k) (t : ℤ) :
    0 ≤ activeAt lo hi w t :=
  sum_selected_nonneg hw _

theorem grossAt_nonneg (lo hi : K → ℤ) (hw : ∀ k, 0 ≤ w k) (b : ℤ) :
    0 ≤ grossAt lo hi w b :=
  sum_selected_nonneg hw _

theorem activeAt_le (lo hi : K → ℤ) (hw : ∀ k, 0 ≤ w k) (t : ℤ) :
    activeAt lo hi w t ≤ totalWeight w :=
  sum_selected_le hw _

/-- The active weight contains the weight of every active range. -/
theorem le_activeAt (hw : ∀ k, 0 ≤ w k) {t : ℤ} {k : K} (hin : lo k ≤ t ∧ t < hi k) :
    w k ≤ activeAt lo hi w t := by
  have hle : (if lo k ≤ t ∧ t < hi k then w k else 0) ≤ activeAt lo hi w t := by
    refine Finset.single_le_sum (f := fun j => if lo j ≤ t ∧ t < hi j then w j else 0)
      (fun j _ => ?_) (Finset.mem_univ k)
    split_ifs
    · exact hw j
    · exact le_rfl
  rwa [if_pos hin] at hle

theorem grossAt_le (lo hi : K → ℤ) (hw : ∀ k, 0 ≤ w k) (b : ℤ) :
    grossAt lo hi w b ≤ totalWeight w :=
  sum_selected_le hw _

theorem netAt_bounds (lo hi : K → ℤ) (hw : ∀ k, 0 ≤ w k) (b : ℤ) :
    -totalWeight w ≤ netAt lo hi w b ∧ netAt lo hi w b ≤ totalWeight w := by
  unfold netAt
  have h1 := sum_selected_le hw (fun k => lo k = b)
  have h2 := sum_selected_le hw (fun k => hi k = b)
  have h3 := sum_selected_nonneg hw (fun k => lo k = b)
  have h4 := sum_selected_nonneg hw (fun k => hi k = b)
  constructor <;> linarith

/-- A boundary without gross weight is the end of no weighted range. -/
theorem eq_zero_of_grossAt (hw : ∀ k, 0 ≤ w k) {b : ℤ} (h : grossAt lo hi w b = 0)
    {k : K} (hk : lo k = b ∨ hi k = b) : w k = 0 := by
  have hterm : ∀ j ∈ Finset.univ, 0 ≤ (if lo j = b ∨ hi j = b then w j else 0) := by
    intro j _
    split_ifs
    · exact hw j
    · exact le_rfl
  have := (Finset.sum_eq_zero_iff_of_nonneg hterm).mp h k (Finset.mem_univ k)
  simpa [hk] using this

/-- A boundary without gross weight has no net weight. -/
theorem netAt_eq_zero (hw : ∀ k, 0 ≤ w k) {b : ℤ} (h : grossAt lo hi w b = 0) :
    netAt lo hi w b = 0 := by
  have hlo : (∑ k, if lo k = b then w k else 0) = 0 := by
    apply Finset.sum_eq_zero
    intro k _
    split_ifs with hk
    · exact eq_zero_of_grossAt hw h (Or.inl hk)
    · rfl
  have hhi : (∑ k, if hi k = b then w k else 0) = 0 := by
    apply Finset.sum_eq_zero
    intro k _
    split_ifs with hk
    · exact eq_zero_of_grossAt hw h (Or.inr hk)
    · rfl
  rw [netAt, hlo, hhi, sub_zero]

theorem grossAt_pos (hw : ∀ k, 0 ≤ w k) {b : ℤ} {k : K} (hk : lo k = b ∨ hi k = b)
    (hpos : w k ≠ 0) : 0 < grossAt lo hi w b := by
  rcases (grossAt_nonneg lo hi hw b).eq_or_lt with h | h
  · exact absurd (eq_zero_of_grossAt hw h.symm hk) hpos
  · exact h

end Ranges

end LuxPrecompile.Support
