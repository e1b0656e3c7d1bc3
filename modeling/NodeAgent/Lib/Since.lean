import Mathlib

/-!
# What has held since some point of a history

A history is a list, the last event at its end. `Since P Q` is the operator of that name of
past-time temporal logic: some event was as `P` says, given what came before it, and all later ones
are as `Q` says.
-/

namespace Lib

variable {α : Type*}

/-- `P` holds of some element, given those before it, and `Q` of all that came later. -/
def Since (P : List α → α → Prop) (Q : α → Prop) (l : List α) : Prop :=
  ∃ pre a post, l = pre ++ a :: post ∧ P pre a ∧ ∀ b ∈ post, Q b

variable {P : List α → α → Prop} {Q : α → Prop} {l : List α} {b : α}

@[simp] theorem not_since_nil : ¬ Since P Q [] := by
  rintro ⟨pre, a, post, heq, -⟩
  simp at heq

/-- The fixed-point law: the last event is the point, or it is one of the later ones. -/
theorem since_snoc : Since P Q (l ++ [b]) ↔ P l b ∨ (Since P Q l ∧ Q b) := by
  constructor
  · rintro ⟨pre, a, post, heq, hP, hQ⟩
    rcases List.eq_nil_or_concat post with rfl | ⟨post, c, rfl⟩
    · obtain ⟨rfl, hlast⟩ := List.append_inj' heq rfl
      cases hlast
      exact .inl hP
    · rw [List.concat_eq_append] at heq hQ
      rw [← List.cons_append, ← List.append_assoc] at heq
      obtain ⟨rfl, hlast⟩ := List.append_inj' heq rfl
      cases hlast
      exact .inr ⟨⟨pre, a, post, rfl, hP, fun c hc => hQ c (List.mem_append_left _ hc)⟩,
        hQ b (by simp)⟩
  · rintro (hP | ⟨⟨pre, a, post, rfl, hP, hQ⟩, hb⟩)
    · exact ⟨l, b, [], rfl, hP, by simp⟩
    · refine ⟨pre, a, post ++ [b], by simp, hP, fun c hc => ?_⟩
      rcases List.mem_append.mp hc with hc | hc
      · exact hQ c hc
      · rw [List.mem_singleton.mp hc]
        exact hb

end Lib
