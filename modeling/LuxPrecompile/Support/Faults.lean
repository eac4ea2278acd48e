import LuxPrecompile.Support.Runs

/-!
# Computations that may panic

A fallible computation of a language with partial operations gives no value for one of two
reasons: it is refused with an error of its own, or an operation panics.  Partial operations
are written with `demand`; a computation without any is embedded by `ofExcept` or `ofOption`.

A computation avoids an error when it does not end in it.  A sequence of steps avoids it
when each of them does from the states the ones before lead to.
-/

namespace LuxPrecompile.Support

/-- Why a computation gives no value. -/
inductive Fault (ε : Type)
  | refused (why : ε)
  | panic
deriving DecidableEq, Repr

/-- A computation that may be refused or panic. -/
abbrev Checked (ε α : Type) := Except (Fault ε) α

namespace Checked

variable {ε α β : Type}

/-- What a partial operation needs. -/
def demand (c : Prop) [Decidable c] : Checked ε Unit := if c then .ok () else .error .panic

def ofExcept : Except ε α → Checked ε α
  | .error why => .error (.refused why)
  | .ok a => .ok a

def ofOption (why : ε) : Option α → Checked ε α
  | none => .error (.refused why)
  | some a => .ok a

/-- The slice from `i` up to `j`. -/
def cut (l : List α) (i j : ℕ) : Checked ε (List α) := do
  demand (i ≤ j ∧ j ≤ l.length)
  .ok ((l.drop i).take (j - i))

/-- The element at `i`. -/
def item (l : List α) (i : ℕ) : Checked ε α :=
  match l[i]? with
  | none => .error .panic
  | some a => .ok a

@[simp]
theorem ok_bind (a : α) (f : α → Checked ε β) : (.ok a >>= f : Checked ε β) = f a := rfl

@[simp]
theorem error_bind (e : Fault ε) (f : α → Checked ε β) :
    (.error e >>= f : Checked ε β) = .error e := rfl

@[simp]
theorem ofExcept_ok (a : α) : ofExcept (.ok a : Except ε α) = .ok a := rfl

@[simp]
theorem ofExcept_error (why : ε) :
    ofExcept (.error why : Except ε α) = .error (.refused why) := rfl

theorem demand_of {c : Prop} [Decidable c] (h : c) : (demand c : Checked ε Unit) = .ok () :=
  if_pos h

theorem cut_of_le {l : List α} {i j : ℕ} (hij : i ≤ j) (hj : j ≤ l.length) :
    (cut l i j : Checked ε (List α)) = .ok ((l.drop i).take (j - i)) := by
  rw [cut, demand_of ⟨hij, hj⟩]
  rfl

theorem item_of_getElem {l : List α} {i : ℕ} {a : α} (h : l[i]? = some a) :
    (item l i : Checked ε α) = .ok a := by
  rw [item, h]

/-- A division. -/
def div (a b : ℤ) : Checked ε ℤ := do
  demand (b ≠ 0)
  .ok (a / b)

theorem div_of_ne {a b : ℤ} (hb : b ≠ 0) : (div a b : Checked ε ℤ) = .ok (a / b) := by
  rw [div, demand_of hb]
  rfl

theorem ofOption_bind (why : ε) (x : Option α) (f : α → Option β) :
    ofOption why (x >>= f) = ofOption why x >>= fun a => ofOption why (f a) := by
  rcases x with _ | a
  · rfl
  · rfl

theorem ofOption_ne_panic (why : ε) (x : Option α) : ofOption why x ≠ .error .panic := by
  rcases x with _ | a
  · simp [ofOption]
  · simp [ofOption]

theorem bind_eq_panic {x : Checked ε α} {f : α → Checked ε β} :
    (x >>= f) = .error .panic ↔ x = .error .panic ∨ ∃ a, x = .ok a ∧ f a = .error .panic :=
  bind_eq_error

theorem demand_eq_panic {c : Prop} [Decidable c] :
    (demand c : Checked ε Unit) = .error .panic ↔ ¬ c := by
  by_cases h : c
  · simp [demand, h]
  · simp [demand, h]

end Checked

/-! ## Errors a computation never gives -/

/-- The computation does not end in the error. -/
def Avoids {ε α : Type} (e : ε) (x : Except ε α) : Prop := x ≠ .error e

section Avoiding

variable {ε α β : Type} {e e' : ε}

theorem avoids_ok (a : α) : Avoids e (.ok a) := by
  intro h
  cases h

theorem avoids_error (h : e' ≠ e) : Avoids e (.error e' : Except ε α) := by
  intro heq
  exact h (Except.error.inj heq)

theorem avoids_bind {x : Except ε α} {f : α → Except ε β} (hx : Avoids e x)
    (hf : ∀ a, x = .ok a → Avoids e (f a)) : Avoids e (x >>= f) := by
  intro h
  rcases bind_eq_error.mp h with herror | ⟨a, ha, herror⟩
  · exact hx herror
  · exact hf a ha herror

theorem avoids_ite {c : Prop} [Decidable c] {x y : Except ε α} (hx : c → Avoids e x)
    (hy : ¬ c → Avoids e y) : Avoids e (if c then x else y) := by
  by_cases hc : c
  · rw [if_pos hc]
    exact hx hc
  · rw [if_neg hc]
    exact hy hc

end Avoiding

end LuxPrecompile.Support
