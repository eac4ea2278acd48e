import Mathlib.Data.Nat.Notation
import Mathlib.Tactic

/-!
# Causal maps of sequences

A map of sequences is causal when a position of its result depends on the
positions up to it and on no later one.  Causal maps compose, and a map that
works position by position is causal.
-/

namespace LuxPrecompile.Support

variable {α β γ δ : Type*}

/-- Two sequences agree up to a position. -/
def AgreeUpTo (i : ℕ) (x y : ℕ → α) : Prop := ∀ j ≤ i, x j = y j

theorem AgreeUpTo.mono {i j : ℕ} {x y : ℕ → α} (h : AgreeUpTo i x y) (hj : j ≤ i) :
    AgreeUpTo j x y :=
  fun k hk => h k (hk.trans hj)

/-- What stands at a position depends on the positions up to it only. -/
def Causal (f : (ℕ → α) → ℕ → β) : Prop := ∀ i x y, AgreeUpTo i x y → f x i = f y i

namespace Causal

variable {f : (ℕ → α) → ℕ → β} {g : (ℕ → α) → ℕ → γ}

theorem agree (hf : Causal f) {i : ℕ} {x y : ℕ → α} (h : AgreeUpTo i x y) :
    AgreeUpTo i (f x) (f y) :=
  fun j hj => hf j x y (h.mono hj)

protected theorem id : Causal (fun x : ℕ → α => x) := fun i _ _ h => h i (le_refl i)

theorem comp {f : (ℕ → β) → ℕ → γ} {g : (ℕ → α) → ℕ → β} (hf : Causal f) (hg : Causal g) :
    Causal fun x => f (g x) :=
  fun i _ _ h => hf i _ _ (hg.agree h)

theorem map (op : β → γ) (hf : Causal f) : Causal fun x i => op (f x i) :=
  fun i x y h => congrArg op (hf i x y h)

theorem map₂ (op : β → γ → δ) (hf : Causal f) (hg : Causal g) :
    Causal fun x i => op (f x i) (g x i) :=
  fun i x y h => congrArg₂ op (hf i x y h) (hg i x y h)

theorem iterate {layer : ℕ → (ℕ → α) → ℕ → α} (hlayer : ∀ l, Causal (layer l)) (n : ℕ) :
    Causal fun x => (List.range n).foldl (fun x l => layer l x) x := by
  induction n with
  | zero => exact Causal.id
  | succ n ih =>
      simp only [List.range_succ, List.foldl_append, List.foldl_cons, List.foldl_nil]
      exact (hlayer n).comp ih

end Causal

end LuxPrecompile.Support
