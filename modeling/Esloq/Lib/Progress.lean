/-
**Runs that come to an end.**

A measure that falls with every step, until it is zero, is zero after as many steps as it says.

* `after_reaches` — the measure is zero after a run that is long enough, whatever its inputs are, if
  each of them meets a condition; the invariant that makes the measure fall is carried along.
* `after_falls` — after a shorter run it has fallen by the length of the run.
-/

import Esloq.Lib.Prefixes

namespace Prefixes

variable {σ α : Type} {step : α → σ → σ} {measure : σ → Nat} {P : σ → Prop} {Meets : α → Prop}

/-- What the steps of a run that makes progress do: they keep the invariant, and the measure falls. -/
structure Approaches (step : α → σ → σ) (P : σ → Prop) (Meets : α → Prop) (measure : σ → Nat) : Prop where
  keeps : ∀ input state, P state → P (step input state)
  falls : ∀ input state, P state → Meets input → measure (step input state) ≤ measure state - 1

/-- A run takes at least one off for each of its steps. -/
theorem after_falls (progress : Approaches step P Meets measure) (inputs : List α) {state : σ}
    (start : P state) (meets : ∀ input ∈ inputs, Meets input) :
    measure (After step inputs state) ≤ measure state - inputs.length := by
  induction inputs generalizing state with
  | nil => exact Nat.le_refl _
  | cons input inputs later =>
      have first := progress.falls input state start (meets input List.mem_cons_self)
      have others := later (progress.keeps input state start)
        fun other member => meets other (List.mem_cons_of_mem input member)
      rw [after_cons, List.length_cons]
      omega

/-- A run that is long enough comes to the end. -/
theorem after_reaches (progress : Approaches step P Meets measure) (inputs : List α) {state : σ}
    (start : P state) (meets : ∀ input ∈ inputs, Meets input) (long : measure state ≤ inputs.length) :
    measure (After step inputs state) = 0 := by
  have fallen := after_falls progress inputs start meets
  omega

end Prefixes
