import Mathlib.Algebra.BigOperators.Group.Finset.Basic
import Mathlib.Algebra.BigOperators.Ring.Finset
import Mathlib.Algebra.Order.BigOperators.Group.Finset
import Mathlib.Tactic

/-!
# Exchange along a curve

A grid cuts an ordered line of prices into cells, each with a depth.  Moving
between two prices exchanges, in every cell passed, its depth times the change of
a potential, one potential for each side of the exchange.  Where the exchange
rate falls along the way, going there and back cannot gain, whatever is lost to
rounding and however much shallower the curve is on the way back.

A family whose members each hold a multiple of a potential, taken at the price kept inside
an interval of their own, changes over a move that ends no interval as if the members
around the move were the only ones.
-/

namespace LuxPrecompile.Support

variable {α K : Type} [LinearOrder α] [Field K]

/-- A price moved to the nearer end of an interval when it lies outside. -/
def clamp (lo hi x : α) : α := max lo (min x hi)

theorem clamp_mem {lo hi : α} (h : lo ≤ hi) (x : α) : lo ≤ clamp lo hi x ∧ clamp lo hi x ≤ hi :=
  ⟨le_max_left _ _, max_le h (min_le_right _ _)⟩

theorem clamp_mono (lo hi : α) {x y : α} (h : x ≤ y) : clamp lo hi x ≤ clamp lo hi y :=
  max_le_max le_rfl (min_le_min h le_rfl)

theorem clamp_eq_lo {lo hi x : α} (h : x ≤ lo) : clamp lo hi x = lo :=
  max_eq_left ((min_le_left _ _).trans h)

theorem clamp_eq_hi {lo hi x : α} (hle : lo ≤ hi) (h : hi ≤ x) : clamp lo hi x = hi := by
  rw [clamp, min_eq_right h, max_eq_right hle]

/-- Clamping to a divided interval. -/
theorem map_clamp_split {lo mid hi : α} (h1 : lo ≤ mid) (h2 : mid ≤ hi) (φ : α → K) (x : α) :
    φ (clamp lo hi x) = φ (clamp lo mid x) + φ (clamp mid hi x) - φ mid := by
  rcases le_total x mid with hx | hx
  · have hleft : clamp lo hi x = clamp lo mid x := by
      rw [clamp, clamp, min_eq_left hx, min_eq_left (hx.trans h2)]
    rw [hleft, clamp_eq_lo hx]
    ring
  · have hright : clamp lo hi x = clamp mid hi x := by
      have hmin : mid ≤ min x hi := le_min hx h2
      rw [clamp, clamp, max_eq_right hmin, max_eq_right (h1.trans hmin)]
    rw [hright, clamp_eq_hi h1 hx]
    ring

/-! ## Amounts -/

/-- The first cells of a grid of prices. -/
structure Grid (α : Type) [LinearOrder α] where
  mark : ℕ → α
  size : ℕ
  mono : ∀ n < size, mark n ≤ mark (n + 1)

namespace Grid

variable (g : Grid α)

/-- What moving through one cell, inside an interval, changes a potential by. -/
def change (φ : α → K) (lo hi : α) (n : ℕ) : K :=
  φ (clamp lo hi (g.mark (n + 1))) - φ (clamp lo hi (g.mark n))

/-- What moving through an interval exchanges. -/
def amount (φ : α → K) (depth : ℕ → K) (lo hi : α) : K :=
  ∑ n ∈ Finset.range g.size, depth n * g.change φ lo hi n

variable {g} {φ ψ : α → K} {depth depth' : ℕ → K} {lo mid hi : α}

theorem amount_split (h1 : lo ≤ mid) (h2 : mid ≤ hi) :
    g.amount φ depth lo hi = g.amount φ depth lo mid + g.amount φ depth mid hi := by
  unfold amount
  rw [← Finset.sum_add_distrib]
  apply Finset.sum_congr rfl
  intro n _
  unfold change
  rw [map_clamp_split h1 h2 φ, map_clamp_split h1 h2 φ]
  ring

/-- Where every cell that meets the interval has one depth, the amount is the
depth times the change of the potential. -/
theorem amount_of_const {d : K} (hle : lo ≤ hi) (hlo : g.mark 0 ≤ lo)
    (hhi : hi ≤ g.mark g.size)
    (hconst : ∀ n < g.size, g.mark n < hi → lo < g.mark (n + 1) → depth n = d) :
    g.amount φ depth lo hi = d * (φ hi - φ lo) := by
  have hterm : ∀ n ∈ Finset.range g.size,
      depth n * g.change φ lo hi n = d * g.change φ lo hi n := by
    intro n hn
    have hn := Finset.mem_range.mp hn
    have hstep := g.mono n hn
    by_cases hbelow : g.mark n < hi
    · by_cases habove : lo < g.mark (n + 1)
      · rw [hconst n hn hbelow habove]
      · have hsame : g.change φ lo hi n = 0 := by
          rw [change, clamp_eq_lo (not_lt.mp habove),
            clamp_eq_lo (hstep.trans (not_lt.mp habove)), sub_self]
        rw [hsame, mul_zero, mul_zero]
    · have hsame : g.change φ lo hi n = 0 := by
        rw [change, clamp_eq_hi hle (not_lt.mp hbelow),
          clamp_eq_hi hle ((not_lt.mp hbelow).trans hstep), sub_self]
      rw [hsame, mul_zero, mul_zero]
  calc g.amount φ depth lo hi = ∑ n ∈ Finset.range g.size, d * g.change φ lo hi n :=
        Finset.sum_congr rfl hterm
    _ = d * (φ (clamp lo hi (g.mark g.size)) - φ (clamp lo hi (g.mark 0))) := by
        rw [← Finset.mul_sum]
        unfold change
        rw [Finset.sum_range_sub fun n => φ (clamp lo hi (g.mark n))]
    _ = d * (φ hi - φ lo) := by rw [clamp_eq_hi hle hhi, clamp_eq_lo hlo]

theorem amount_sub (φ : α → K) (depth depth' : ℕ → K) (lo hi : α) :
    g.amount φ (fun n => depth n - depth' n) lo hi =
      g.amount φ depth lo hi - g.amount φ depth' lo hi := by
  unfold amount
  rw [← Finset.sum_sub_distrib]
  apply Finset.sum_congr rfl
  intro n _
  ring

/-! ## Amounts in either direction -/

variable (g) in
/-- What moving from one price to another exchanges, in either direction. -/
def between (φ : α → K) (depth : ℕ → K) (p q : α) : K :=
  g.amount φ depth (min p q) (max p q)

theorem between_comm (φ : α → K) (depth : ℕ → K) (p q : α) :
    g.between φ depth p q = g.between φ depth q p := by
  rw [between, between, min_comm, max_comm]

theorem between_of_le {p q : α} (h : p ≤ q) :
    g.between φ depth p q = g.amount φ depth p q := by
  rw [between, min_eq_left h, max_eq_right h]

theorem between_self (φ : α → K) (depth : ℕ → K) (p : α) : g.between φ depth p p = 0 := by
  have hsame : ∀ x, clamp p p x = p :=
    fun x => le_antisymm (clamp_mem le_rfl x).2 (clamp_mem le_rfl x).1
  simp [between, amount, change, hsame]

theorem between_sub (φ : α → K) (depth depth' : ℕ → K) (p q : α) :
    g.between φ (fun n => depth n - depth' n) p q =
      g.between φ depth p q - g.between φ depth' p q :=
  amount_sub φ depth depth' _ _

theorem between_split {p q r : α} (h : p ≤ q ∧ q ≤ r ∨ r ≤ q ∧ q ≤ p) :
    g.between φ depth p r = g.between φ depth p q + g.between φ depth q r := by
  rcases h with ⟨h1, h2⟩ | ⟨h1, h2⟩
  · rw [between_of_le (h1.trans h2), between_of_le h1, between_of_le h2, amount_split h1 h2]
  · rw [between_comm φ depth p r, between_comm φ depth p q, between_comm φ depth q r,
      between_of_le (h1.trans h2), between_of_le h1, between_of_le h2, amount_split h1 h2,
      add_comm]

/-! ## Rates -/

section Rates

variable [LinearOrder K] [IsStrictOrderedRing K]

/-- Rates that compare along an interval give amounts that compare. -/
theorem amount_rate {j k : K} (hdepth : ∀ n, 0 ≤ depth n) (hle : lo ≤ hi)
    (hrate : ∀ x y, lo ≤ x → x ≤ y → y ≤ hi → j * (φ y - φ x) ≤ k * (ψ y - ψ x)) :
    j * g.amount φ depth lo hi ≤ k * g.amount ψ depth lo hi := by
  unfold amount
  rw [Finset.mul_sum, Finset.mul_sum]
  apply Finset.sum_le_sum
  intro n hn
  have hcell := hrate _ _ (clamp_mem hle (g.mark n)).1
    (clamp_mono lo hi (g.mono n (Finset.mem_range.mp hn))) (clamp_mem hle (g.mark (n + 1))).2
  have hscaled := mul_le_mul_of_nonneg_left hcell (hdepth n)
  unfold change
  linarith

theorem amount_nonneg (hdepth : ∀ n, 0 ≤ depth n) (hle : lo ≤ hi)
    (hφ : ∀ x y, lo ≤ x → x ≤ y → y ≤ hi → φ x ≤ φ y) : 0 ≤ g.amount φ depth lo hi := by
  have h := amount_rate (g := g) (φ := φ) (ψ := φ) (j := 0) (k := 1) hdepth hle
    (fun x y hx hxy hy => by linarith [hφ x y hx hxy hy])
  linarith

theorem between_rate {j k : K} {p q : α} (hdepth : ∀ n, 0 ≤ depth n)
    (hrate : ∀ x y, min p q ≤ x → x ≤ y → y ≤ max p q →
      j * (φ y - φ x) ≤ k * (ψ y - ψ x)) :
    j * g.between φ depth p q ≤ k * g.between ψ depth p q :=
  amount_rate hdepth min_le_max hrate

theorem between_nonneg {p q : α} (hdepth : ∀ n, 0 ≤ depth n)
    (hφ : ∀ x y, min p q ≤ x → x ≤ y → y ≤ max p q → φ x ≤ φ y) :
    0 ≤ g.between φ depth p q :=
  amount_nonneg hdepth min_le_max hφ

/-- How two potentials compare around the price where a round trip starts: toward
the price it turns at, `φ` changes at least `rate` times as fast as `ψ`; on the
other side, at most. -/
structure Pivot (φ ψ : α → K) (rate : K) (start turn stop : α) : Prop where
  rate_nonneg : 0 ≤ rate
  mono : ∀ x y, min turn (min start stop) ≤ x → x ≤ y → φ x ≤ φ y
  near : ∀ x y, min start turn ≤ x → x ≤ y → y ≤ max start turn →
    rate * (ψ y - ψ x) ≤ φ y - φ x
  far : ∀ x y, min start stop ≤ x → x ≤ y → y ≤ max start stop →
    (turn ≤ start ∧ start ≤ stop ∨ stop ≤ start ∧ start ≤ turn) →
    φ y - φ x ≤ rate * (ψ y - ψ x)

/-- A round trip on a curve that is no deeper on the way back returns at most
what was paid: all that was got on the way out is spent on the way back. -/
theorem returned_le_paid {start turn stop : α} {rate paid got spent returned : K}
    (hpivot : Pivot φ ψ rate start turn stop) (hdepth : ∀ n, 0 ≤ depth' n)
    (hshallow : ∀ n, depth' n ≤ depth n)
    (hside : turn ≤ start ∧ turn ≤ stop ∨ start ≤ turn ∧ stop ≤ turn)
    (hpaid : g.between φ depth start turn ≤ paid)
    (hgot : got ≤ g.between ψ depth start turn)
    (hspent : g.between ψ depth' turn stop ≤ spent) (hwhole : spent ≤ got)
    (hreturned : returned ≤ g.between φ depth' turn stop) : returned ≤ paid := by
  have hlost : ∀ n, 0 ≤ depth n - depth' n := fun n => sub_nonneg.mpr (hshallow n)
  have hmono : ∀ p q, (∀ r, r = p ∨ r = q → r = start ∨ r = turn ∨ r = stop) →
      ∀ x y, min p q ≤ x → x ≤ y → y ≤ max p q → φ x ≤ φ y := by
    intro p q hpq x y hx hxy _
    refine hpivot.mono x y (le_trans ?_ hx) hxy
    rcases hpq p (Or.inl rfl) with rfl | rfl | rfl <;>
      rcases hpq q (Or.inr rfl) with rfl | rfl | rfl <;> simp
  have hnear := between_rate (g := g) (p := start) (q := turn) (j := rate) (k := 1) hlost
    (fun x y hx hxy hy => by rw [one_mul]; exact hpivot.near x y hx hxy hy)
  have hless := between_nonneg (g := g) hlost (hmono start turn (by simp))
  rw [between_sub, between_sub, one_mul] at hnear
  rw [between_sub] at hless
  by_cases hpast : turn ≤ start ∧ start ≤ stop ∨ stop ≤ start ∧ start ≤ turn
  · have hsplit : ∀ χ : α → K, g.between χ depth' turn stop =
        g.between χ depth' start turn + g.between χ depth' start stop := by
      intro χ
      rw [between_split hpast, between_comm χ depth' turn start]
    have hfar := between_rate (g := g) (j := 1) (k := rate) hdepth
      (fun x y hx hxy hy => by rw [one_mul]; exact hpivot.far x y hx hxy hy hpast)
    rw [hsplit] at hspent hreturned
    have hbeyond : g.between ψ depth' start stop ≤
        g.between ψ depth start turn - g.between ψ depth' start turn := by linarith
    have hscaled := mul_le_mul_of_nonneg_left hbeyond hpivot.rate_nonneg
    linarith
  · have hback : turn ≤ stop ∧ stop ≤ start ∨ start ≤ stop ∧ stop ≤ turn := by
      rcases hside with ⟨h1, h2⟩ | ⟨h1, h2⟩
      · exact Or.inl ⟨h2, le_of_not_ge fun h => hpast (Or.inl ⟨h1, h⟩)⟩
      · exact Or.inr ⟨le_of_not_ge fun h => hpast (Or.inr ⟨h, h1⟩), h2⟩
    have hrest := between_nonneg (g := g) hdepth (hmono stop start (by simp))
    have hsplit : g.between φ depth' start turn =
        g.between φ depth' turn stop + g.between φ depth' stop start := by
      rw [between_comm φ depth' start turn, between_split hback]
    linarith

end Rates

end Grid

/-! ## Amounts held over intervals -/

section Clamps

variable {X : Type} [LinearOrder X] {lower upper x y : X}

theorem clamp_of_mem (hlower : lower ≤ x) (hupper : x ≤ upper) : clamp lower upper x = x := by
  rw [clamp, min_eq_left hupper, max_eq_right hlower]

/-- The interval lies around a move. -/
def Around (lower upper x y : X) : Prop := lower ≤ min x y ∧ max x y ≤ upper

/-- The interval lies beside a move. -/
def Beside (lower upper x y : X) : Prop := max x y ≤ lower ∨ upper ≤ min x y

theorem Around.clamp_left (h : Around lower upper x y) : clamp lower upper x = x :=
  clamp_of_mem (h.1.trans (min_le_left _ _)) ((le_max_left _ _).trans h.2)

theorem Around.clamp_right (h : Around lower upper x y) : clamp lower upper y = y :=
  clamp_of_mem (h.1.trans (min_le_right _ _)) ((le_max_right _ _).trans h.2)

theorem Beside.clamp_eq (h : Beside lower upper x y) (hle : lower ≤ upper) :
    clamp lower upper y = clamp lower upper x := by
  rcases h with h | h
  · rw [clamp_eq_lo ((le_max_left _ _).trans h), clamp_eq_lo ((le_max_right _ _).trans h)]
  · rw [clamp_eq_hi hle (h.trans (min_le_left _ _)),
      clamp_eq_hi hle (h.trans (min_le_right _ _))]

/-- A move that ends no interval changes the total by the weight around it. -/
theorem sum_clamp_move {K R : Type} [Fintype K] [CommRing R] (φ : X → R) (lower upper : K → X)
    (weight : K → R) (active : K → Prop) [DecidablePred active]
    (hle : ∀ k, weight k ≠ 0 → lower k ≤ upper k)
    (hin : ∀ k, weight k ≠ 0 → active k → Around (lower k) (upper k) x y)
    (hout : ∀ k, weight k ≠ 0 → ¬ active k → Beside (lower k) (upper k) x y) :
    ∑ k, weight k * φ (clamp (lower k) (upper k) y) =
      ∑ k, weight k * φ (clamp (lower k) (upper k) x) +
        (∑ k, if active k then weight k else 0) * (φ y - φ x) := by
  rw [Finset.sum_mul, ← Finset.sum_add_distrib]
  apply Finset.sum_congr rfl
  intro k _
  by_cases hzero : weight k = 0
  · simp [hzero]
  · by_cases hk : active k
    · have haround := hin k hzero hk
      rw [haround.clamp_left, haround.clamp_right, if_pos hk]
      ring
    · rw [(hout k hzero hk).clamp_eq (hle k hzero), if_neg hk, zero_mul, add_zero]

end Clamps

end LuxPrecompile.Support
