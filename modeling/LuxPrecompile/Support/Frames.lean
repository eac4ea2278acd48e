import Mathlib.Data.List.Basic
import Mathlib.Tactic

/-!
# Runs inside frames

Actions on a state run inside frames that return or are undone.  What every action keeps holds
after every run, in the state and in the states that the open frames would go back to.
-/

namespace LuxPrecompile.Support

/-- An action, or a frame that opens, returns or is undone. -/
inductive FrameEvent (α : Type)
  | act (a : α)
  | enter
  | leave
  | revert

/-- A state with the states that the open frames started from, innermost first. -/
structure Framed (σ : Type) where
  current : σ
  snapshots : List σ

namespace Framed

variable {σ α : Type} (act : σ → α → σ)

/-- One event.  A frame is undone by going back to the state it started from. -/
def step (s : Framed σ) : FrameEvent α → Framed σ
  | .act a => { s with current := act s.current a }
  | .enter => { s with snapshots := s.current :: s.snapshots }
  | .leave => { s with snapshots := s.snapshots.tail }
  | .revert =>
      match s.snapshots with
      | [] => s
      | snapshot :: rest => ⟨snapshot, rest⟩

/-- A sequence of events from a state without open frames. -/
def run (s : σ) (events : List (FrameEvent α)) : Framed σ := events.foldl (step act) ⟨s, []⟩

/-- The state and the snapshots all have a property. -/
def All (P : σ → Prop) (s : Framed σ) : Prop := P s.current ∧ ∀ t ∈ s.snapshots, P t

variable {act} {P : σ → Prop}

/-- What actions keep, one event keeps. -/
theorem All.step (hact : ∀ s a, P s → P (act s a)) {s : Framed σ} (h : s.All P)
    (e : FrameEvent α) : (s.step act e).All P := by
  obtain ⟨hcurrent, hsnapshots⟩ := h
  cases e with
  | act a => exact ⟨hact _ a hcurrent, hsnapshots⟩
  | enter =>
      refine ⟨hcurrent, fun t ht => ?_⟩
      rcases List.mem_cons.mp ht with rfl | ht
      · exact hcurrent
      · exact hsnapshots t ht
  | leave => exact ⟨hcurrent, fun t ht => hsnapshots t (List.mem_of_mem_tail ht)⟩
  | revert =>
      obtain ⟨current, snapshots⟩ := s
      rcases snapshots with _ | ⟨snapshot, rest⟩
      · exact ⟨hcurrent, hsnapshots⟩
      · exact ⟨hsnapshots snapshot List.mem_cons_self,
          fun t ht => hsnapshots t (List.mem_cons_of_mem snapshot ht)⟩

theorem current_of_kept (hact : ∀ s a, P s → P (act s a)) {s : σ} (hs : P s)
    (events : List (FrameEvent α)) : P (run act s events).current := by
  have hall : ∀ t : Framed σ, t.All P → (events.foldl (Framed.step act) t).All P := by
    induction events with
    | nil => exact fun t ht => ht
    | cons e events ih => exact fun t ht => ih _ (ht.step hact e)
  exact (hall ⟨s, []⟩ ⟨hs, fun t ht => absurd ht List.not_mem_nil⟩).1

end Framed

end LuxPrecompile.Support
