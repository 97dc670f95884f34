/-
**What holds since a step.**

* `Since begins ends` — at some step of a history something began, and at no later step has it ended;
  both are told by the steps before and the step itself.
* `since_concat` — one more step begins it, or has not ended what held.
* `iff_since` — what steps begin and end in this way holds exactly since a step that began it.
-/

import Mathlib.Data.List.Induction

namespace Histories

variable {ι : Type} {begins ends : List ι → ι → Prop} {inputs : List ι} {input : ι}

/-- It began at a step, and no later step has ended it. -/
def Since (begins ends : List ι → ι → Prop) (inputs : List ι) : Prop :=
  ∃ before input later, inputs = before ++ input :: later ∧ begins before input ∧
    ∀ part next rest, later = part ++ next :: rest → ¬ ends (before ++ input :: part) next

theorem not_since_nil : ¬ Since begins ends [] := by
  rintro ⟨before, input, later, split, -⟩
  cases before <;> cases split

theorem since_concat : Since begins ends (inputs ++ [input]) ↔
    begins inputs input ∨ Since begins ends inputs ∧ ¬ ends inputs input := by
  constructor
  · rintro ⟨before, first, later, split, began, lasts⟩
    rcases List.eq_nil_or_concat later with rfl | ⟨later, last, rfl⟩
    · obtain ⟨rfl, same⟩ := List.append_inj' split rfl
      obtain rfl := (List.cons.inj same).1
      exact Or.inl began
    · rw [List.concat_eq_append] at split lasts
      rw [← List.cons_append, ← List.append_assoc] at split
      obtain ⟨rfl, same⟩ := List.append_inj' split rfl
      obtain rfl := (List.cons.inj same).1
      refine Or.inr ⟨⟨before, first, later, rfl, began, fun part next rest within => ?_⟩,
        lasts later input [] rfl⟩
      apply lasts part next (rest ++ [input])
      rw [within, List.append_assoc]
      rfl
  · rintro (began | ⟨⟨before, first, later, rfl, began, lasts⟩, goes⟩)
    · refine ⟨inputs, input, [], rfl, began, fun part next rest within => ?_⟩
      exact absurd within (by simp)
    · refine ⟨before, first, later ++ [input], by rw [List.append_assoc]; rfl, began, ?_⟩
      intro part next rest within
      rcases List.eq_nil_or_concat rest with rfl | ⟨rest, last, rfl⟩
      · obtain ⟨rfl, same⟩ := List.append_inj' within rfl
        obtain rfl := (List.cons.inj same).1
        exact goes
      · rw [List.concat_eq_append, ← List.cons_append, ← List.append_assoc] at within
        exact lasts part next rest (List.append_inj' within rfl).1

/-- **What steps begin and end holds since a step that began it.** -/
theorem iff_since {P : List ι → Prop} (start : ¬ P [])
    (step : ∀ inputs input, P (inputs ++ [input]) ↔ begins inputs input ∨ P inputs ∧ ¬ ends inputs input) :
    P inputs ↔ Since begins ends inputs := by
  induction inputs using List.reverseRecOn with
  | nil => exact iff_of_false start not_since_nil
  | append_singleton inputs input ih => rw [step, since_concat, ih]

end Histories
