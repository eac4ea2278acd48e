import Mathlib.Data.List.Basic
import Mathlib.Tactic

/-!
# Runs of a transition system

General facts about systems whose step is a function of a state and an action,
and about fallible computations that are peeled apart step by step.
-/

namespace LuxPrecompile.Support

theorem bind_eq_ok {ε α β : Type} {x : Except ε α} {f : α → Except ε β} {b : β} :
    (x >>= f) = .ok b ↔ ∃ a, x = .ok a ∧ f a = .ok b := by
  cases x with
  | error e => simp [bind, Except.bind]
  | ok a => simp [bind, Except.bind]

theorem bind_eq_error {ε α β : Type} {x : Except ε α} {f : α → Except ε β} {e : ε} :
    (x >>= f) = .error e ↔ x = .error e ∨ ∃ a, x = .ok a ∧ f a = .error e := by
  cases x with
  | error e' => simp [bind, Except.bind]
  | ok a => simp [bind, Except.bind]

theorem map_eq_ok {ε α β : Type} {f : α → β} {x : Except ε α} {b : β} :
    f <$> x = .ok b ↔ ∃ a, x = .ok a ∧ f a = b := by
  cases x with
  | error e => simp [Functor.map, Except.map]
  | ok a => simp [Functor.map, Except.map]

theorem mapError_eq_ok {ε ε' α : Type} {f : ε → ε'} {x : Except ε α} {a : α} :
    x.mapError f = .ok a ↔ x = .ok a := by
  cases x with
  | error e => simp [Except.mapError]
  | ok b => simp [Except.mapError]

theorem refuse_eq_ok {ε α : Type} {c : Prop} [Decidable c] {e : ε} {x : Except ε α} {a : α} :
    (if c then .error e else x) = .ok a ↔ ¬ c ∧ x = .ok a := by
  by_cases hc : c
  · simp [hc]
  · simp [hc]

theorem exists_of_isOk {ε α : Type} {x : Except ε α} (h : x.isOk = true) : ∃ a, x = .ok a := by
  cases x with
  | error e => cases h
  | ok a => exact ⟨a, rfl⟩

/-- The error of a failed computation. -/
def errorOf {ε α : Type} : Except ε α → Option ε
  | .error e => some e
  | .ok _ => none

theorem errorOf_eq_some {ε α : Type} {x : Except ε α} {e : ε} :
    errorOf x = some e ↔ x = .error e := by
  cases x with
  | error e' => simp [errorOf]
  | ok a => simp [errorOf]

section Positions

variable {α : Type} {a : α} {l : List α}

/-- What holds of every entry of a list at its position. -/
theorem forall_getElem?_cons {P : ℕ → α → Prop} :
    (∀ k x, (a :: l)[k]? = some x → P k x) ↔
      P 0 a ∧ ∀ k x, l[k]? = some x → P (k + 1) x := by
  constructor
  · exact fun h => ⟨h 0 a rfl, fun k x hk => h (k + 1) x hk⟩
  · rintro ⟨hfirst, hrest⟩ k x hk
    cases k with
    | zero =>
        obtain rfl := Option.some.inj hk
        exact hfirst
    | succ k => exact hrest k x hk

/-- The first entry that `Q` holds of, after entries that `P` holds of. -/
theorem exists_first_cons {P Q : ℕ → α → Prop} :
    (∃ k x, (a :: l)[k]? = some x ∧ Q k x ∧ ∀ j < k, ∀ y, (a :: l)[j]? = some y → P j y) ↔
      Q 0 a ∨ P 0 a ∧ ∃ k x, l[k]? = some x ∧ Q (k + 1) x ∧
        ∀ j < k, ∀ y, l[j]? = some y → P (j + 1) y := by
  constructor
  · rintro ⟨k, x, hk, hx, hbefore⟩
    cases k with
    | zero =>
        obtain rfl := Option.some.inj hk
        exact .inl hx
    | succ k =>
        exact .inr ⟨hbefore 0 k.succ_pos a rfl, k, x, hk, hx, fun j hj y hy =>
          hbefore (j + 1) (Nat.succ_lt_succ hj) y hy⟩
  · rintro (hx | ⟨hfirst, k, x, hk, hx, hbefore⟩)
    · exact ⟨0, a, rfl, hx, fun j hj => absurd hj j.not_lt_zero⟩
    · refine ⟨k + 1, x, hk, hx, fun j hj y hy => ?_⟩
      cases j with
      | zero =>
          obtain rfl := Option.some.inj hy
          exact hfirst
      | succ j => exact hbefore j (Nat.lt_of_succ_lt_succ hj) y hy

end Positions

section Relational

variable {ε α β γ δ : Type}

/-- Two fallible computations that fail alike or succeed with related results. -/
inductive Related (R : α → β → Prop) : Except ε α → Except ε β → Prop
  | ok {a : α} {b : β} (h : R a b) : Related R (.ok a) (.ok b)
  | error (e : ε) : Related R (.error e) (.error e)

theorem Related.bind {R : α → β → Prop} {S : γ → δ → Prop} {x : Except ε α} {y : Except ε β}
    {f : α → Except ε γ} {g : β → Except ε δ} (hx : Related R x y)
    (hf : ∀ a b, x = .ok a → R a b → Related S (f a) (g b)) :
    Related S (x >>= f) (y >>= g) := by
  cases hx with
  | ok h => exact hf _ _ rfl h
  | error e => exact .error e

theorem Related.bind_same {S : γ → δ → Prop} (x : Except ε α) {f : α → Except ε γ}
    {g : α → Except ε δ} (hf : ∀ a, x = .ok a → Related S (f a) (g a)) :
    Related S (x >>= f) (x >>= g) := by
  cases x with
  | error e => exact .error e
  | ok a => exact hf a rfl

theorem Related.refuse {R : α → β → Prop} {c : Prop} [Decidable c] (e : ε) {x : Except ε α}
    {y : Except ε β} (h : Related R x y) :
    Related R (if c then .error e else x) (if c then .error e else y) := by
  split_ifs
  · exact .error e
  · exact h

end Relational

section Invariants

variable {σ α : Type} {step : σ → α → σ}

theorem foldl_invariant {P : σ → Prop} (hstep : ∀ s a, P s → P (step s a)) :
    ∀ (actions : List α) {s : σ}, P s → P (actions.foldl step s)
  | [], _, hs => hs
  | a :: actions, s, hs => foldl_invariant hstep actions (hstep s a hs)

theorem foldl_invariant_mem {P : σ → Prop} :
    ∀ (actions : List α) {s : σ}, (∀ s, ∀ a ∈ actions, P s → P (step s a)) → P s →
      P (actions.foldl step s)
  | [], _, _, hs => hs
  | a :: actions, s, hstep, hs =>
      foldl_invariant_mem actions
        (fun s b hb => hstep s b (List.mem_cons_of_mem a hb))
        (hstep s a List.mem_cons_self hs)

/-- Every action of a run satisfies `P` in the state it finds. -/
def Along (step : σ → α → σ) (P : σ → α → Prop) : σ → List α → Prop
  | _, [] => True
  | s, a :: actions => P s a ∧ Along step P (step s a) actions

theorem Along.imp_of_invariant {I : σ → Prop} {P Q : σ → α → Prop}
    (hstep : ∀ s a, I s → P s a → I (step s a)) (himp : ∀ s a, I s → P s a → Q s a) :
    ∀ (actions : List α) {s : σ}, I s → Along step P s actions → Along step Q s actions
  | [], _, _, _ => trivial
  | a :: actions, s, hs, h =>
      ⟨himp s a hs h.1,
        Along.imp_of_invariant hstep himp actions (hstep s a hs h.1) h.2⟩

theorem Along.invariant {I : σ → Prop} {P : σ → α → Prop}
    (hstep : ∀ s a, I s → P s a → I (step s a)) :
    ∀ (actions : List α) {s : σ}, I s → Along step P s actions → I (actions.foldl step s)
  | [], _, hs, _ => hs
  | a :: actions, s, hs, h => Along.invariant hstep actions (hstep s a hs h.1) h.2

theorem Along.and {P Q : σ → α → Prop} :
    ∀ {actions : List α} {s : σ}, Along step P s actions → Along step Q s actions →
      Along step (fun s a => P s a ∧ Q s a) s actions
  | [], _, _, _ => trivial
  | _ :: _, _, hP, hQ => ⟨⟨hP.1, hQ.1⟩, hP.2.and hQ.2⟩

theorem along_append {P : σ → α → Prop} {later : List α} :
    ∀ {earlier : List α} {s : σ}, Along step P s (earlier ++ later) ↔
      Along step P s earlier ∧ Along step P (earlier.foldl step s) later
  | [], _ => by simp [Along]
  | a :: earlier, s => by simp [Along, along_append, and_assoc]

theorem along_forall_iff {P : α → Prop} :
    ∀ {actions : List α} {s : σ}, Along step (fun _ a => P a) s actions ↔ ∀ a ∈ actions, P a
  | [], _ => by simp [Along]
  | a :: actions, s => by simp [Along, along_forall_iff]

end Invariants

end LuxPrecompile.Support
