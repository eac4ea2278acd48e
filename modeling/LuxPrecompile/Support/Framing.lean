import Mathlib.Data.List.Basic
import Mathlib.Data.Set.Function
import Mathlib.Tactic

/-!
# Codes that show where they end

A code of strings is self-delimiting if what is written can be told from what follows it.
Such codes can be written one after another: a pair or a list of values is read back from the
string, although no boundary is written down.
-/

namespace LuxPrecompile.Support.Framing

variable {α β γ : Type}

/-- What is written of a value of the set can be told from what follows. -/
def SelfDelimiting (code : α → List γ) (s : Set α) : Prop :=
  ∀ a ∈ s, ∀ b ∈ s, ∀ rest rest', code a ++ rest = code b ++ rest' → a = b ∧ rest = rest'

theorem selfDelimiting_of_width {code : α → List γ} {s : Set α} {w : ℕ}
    (hinj : Set.InjOn code s) (hwidth : ∀ a, (code a).length = w) : SelfDelimiting code s := by
  intro a ha b hb rest rest' h
  obtain ⟨hcode, hrest⟩ := List.append_inj h ((hwidth a).trans (hwidth b).symm)
  exact ⟨hinj ha hb hcode, hrest⟩

theorem selfDelimiting_framed {size : ℕ → List γ} {bound w : ℕ}
    (hinj : Set.InjOn size {n | n < bound}) (hwidth : ∀ n, (size n).length = w) :
    SelfDelimiting (fun b : List γ => size b.length ++ b) {b | b.length < bound} := by
  intro a ha b hb rest rest' h
  simp only [List.append_assoc] at h
  obtain ⟨hsize, hrest⟩ := List.append_inj h ((hwidth _).trans (hwidth _).symm)
  exact List.append_inj hrest (hinj ha hb hsize)

/-- Lists of values are told apart by what is written of the values one after another. -/
theorem SelfDelimiting.flatMap_inj {code : α → List γ} {s : Set α} (h : SelfDelimiting code s)
    (hne : ∀ a, code a ≠ []) :
    ∀ {l l' : List α}, (∀ a ∈ l, a ∈ s) → (∀ a ∈ l', a ∈ s) →
      l.flatMap code = l'.flatMap code → l = l' := by
  intro l
  induction l with
  | nil =>
      intro l' _ _ heq
      rcases l' with _ | ⟨b, l'⟩
      · rfl
      · rw [List.flatMap_nil, List.flatMap_cons] at heq
        exact absurd (List.append_eq_nil_iff.mp heq.symm).1 (hne b)
  | cons a l ih =>
      intro l' hl hl' heq
      rcases l' with _ | ⟨b, l'⟩
      · rw [List.flatMap_nil, List.flatMap_cons] at heq
        exact absurd (List.append_eq_nil_iff.mp heq).1 (hne a)
      · obtain ⟨ha, hl⟩ := List.forall_mem_cons.mp hl
        obtain ⟨hb, hl'⟩ := List.forall_mem_cons.mp hl'
        rw [List.flatMap_cons, List.flatMap_cons] at heq
        obtain ⟨hab, hrest⟩ := h a ha b hb _ _ heq
        rw [hab, ih hl hl' hrest]

end LuxPrecompile.Support.Framing
