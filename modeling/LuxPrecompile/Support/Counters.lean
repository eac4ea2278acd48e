import LuxPrecompile.Support.Ranges

/-!
# Counters kept outside boundaries

A total grows at a moving point.  Every boundary keeps the growth on its far
side, so the growth inside a range is a difference of two boundaries.  Only
differences over time mean anything: what a boundary starts with is arbitrary,
and the values may live in any group, so they may wrap around.
-/

namespace LuxPrecompile.Support

/-- A total, the growth outside every boundary, and the point that grows. -/
structure Counters (G : Type) where
  total : G
  outside : ℤ → G
  point : ℤ

namespace Counters

variable {G : Type} [AddCommGroup G] (c : Counters G)

/-- The growth below a boundary. -/
def below (b : ℤ) : G := if b ≤ c.point then c.outside b else c.total - c.outside b

/-- The growth above a boundary. -/
def above (b : ℤ) : G := if c.point < b then c.outside b else c.total - c.outside b

/-- The growth inside a range. -/
def inside (lo hi : ℤ) : G := c.total - c.below lo - c.above hi

theorem above_eq (b : ℤ) : c.above b = c.total - c.below b := by
  unfold above below
  by_cases hb : c.point < b
  · rw [if_pos hb, if_neg (by omega)]
    abel
  · rw [if_neg hb, if_pos (by omega)]

theorem inside_eq (lo hi : ℤ) : c.inside lo hi = c.below hi - c.below lo := by
  rw [inside, above_eq]
  abel

theorem inside_congr {c d : Counters G} {lo hi : ℤ} (hlo : d.below lo = c.below lo)
    (hhi : d.below hi = c.below hi) : d.inside lo hi = c.inside lo hi := by
  rw [inside_eq, inside_eq, hlo, hhi]

/-! ## Growing -/

/-- The point grows. -/
def grow (g : G) : Counters G := { c with total := c.total + g }

theorem below_grow (g : G) (b : ℤ) :
    (c.grow g).below b = c.below b + if c.point < b then g else 0 := by
  unfold below grow
  by_cases hb : b ≤ c.point
  · rw [if_pos hb, if_pos hb, if_neg (by omega), add_zero]
  · rw [if_neg hb, if_neg hb, if_pos (by omega), sub_add_eq_add_sub]

/-- A range grows when the point is inside it. -/
theorem inside_grow (g : G) {lo hi : ℤ} (h : lo < hi) :
    (c.grow g).inside lo hi =
      c.inside lo hi + if lo ≤ c.point ∧ c.point < hi then g else 0 := by
  rw [inside_eq, inside_eq, below_grow, below_grow]
  by_cases hhi : c.point < hi
  · by_cases hlo : c.point < lo
    · rw [if_pos hhi, if_pos hlo, if_neg (by omega)]
      abel
    · rw [if_pos hhi, if_neg hlo, if_pos (by omega)]
      abel
  · rw [if_neg hhi, if_neg (by omega), if_neg (by omega)]
    abel

/-! ## Moving the point -/

/-- The point moves. -/
def moveTo (p : ℤ) : Counters G := { c with point := p }

theorem below_moveTo {p b : ℤ} (h : ¬ Between c.point p b) :
    (c.moveTo p).below b = c.below b := by
  unfold Between at h
  have hside : b ≤ p ↔ b ≤ c.point := by omega
  simp only [below, moveTo, hside]

/-- A boundary is turned over: what was outside is inside. -/
def cross (b : ℤ) : Counters G :=
  { c with outside := Function.update c.outside b (c.total - c.outside b) }

theorem below_cross_of_ne {b b' : ℤ} (h : b' ≠ b) : (c.cross b).below b' = c.below b' := by
  simp only [below, cross, Function.update_of_ne h]

theorem below_cross_self {p b : ℤ} (h : Between c.point p b) :
    ((c.cross b).moveTo p).below b = c.below b := by
  unfold Between at h
  simp only [below, cross, moveTo, Function.update_self]
  by_cases hb : b ≤ c.point
  · rw [if_pos hb, if_neg (by omega)]
    abel
  · rw [if_neg hb, if_pos (by omega)]

theorem below_pass {p b b' : ℤ} (hpassed : Between c.point p b)
    (honly : Between c.point p b' → b' = b) :
    ((c.cross b).moveTo p).below b' = c.below b' := by
  by_cases hb : b' = b
  · rw [hb, below_cross_self c hpassed]
  · have hquiet : ¬ Between (c.cross b).point p b' := fun hc => hb (honly hc)
    rw [below_moveTo _ hquiet, below_cross_of_ne c hb]

end Counters

end LuxPrecompile.Support
