/-
**What holds after every beginning of a run.**

* `After` — the state after a list of inputs; `after_holds` is the induction over it.
* `grown_iff` — what some steps bring about, and none undoes, holds after a run exactly if it held
  before it or a step of the run has brought it about.
* `kept_iff` — a property that some steps break holds after every beginning of a run exactly if no
  step of the run is one of them; `kept_iff_of_allowed` is the same for runs of some inputs only.
-/

import Mathlib.Data.List.Infix

namespace Prefixes

variable {σ α : Type} (step : α → σ → σ)

/-- The state after a list of inputs. -/
def After (inputs : List α) (state : σ) : σ := inputs.foldl (fun state input => step input state) state

@[simp] theorem after_nil (state : σ) : After step [] state = state := rfl

@[simp] theorem after_cons (input : α) (inputs : List α) (state : σ) :
    After step (input :: inputs) state = After step inputs (step input state) := rfl

theorem after_append (first second : List α) (state : σ) :
    After step (first ++ second) state = After step second (After step first state) :=
  List.foldl_append

/-- What every step keeps holds after a run. -/
theorem after_holds (P : σ → Prop) (keeps : ∀ input state, P state → P (step input state))
    (inputs : List α) {state : σ} (start : P state) : P (After step inputs state) := by
  induction inputs generalizing state with
  | nil => exact start
  | cons input inputs later => exact later (keeps input state start)

/-- A statement about every step of a run, of the first and of the others. -/
theorem forall_steps_cons (P : α → σ → Prop) (input : α) (inputs : List α) (state : σ) :
    (∀ done next, done ++ [next] <+: input :: inputs → P next (After step done state)) ↔
      P input state ∧
        ∀ done next, done ++ [next] <+: inputs → P next (After step done (step input state)) := by
  constructor
  · refine fun every => ⟨every [] input ⟨inputs, rfl⟩, fun done next front => ?_⟩
    exact every (input :: done) next (List.cons_prefix_cons.mpr ⟨rfl, front⟩)
  · rintro ⟨first, others⟩ done next front
    cases done with
    | nil =>
        obtain ⟨rfl, -⟩ := List.cons_prefix_cons.mp front
        exact first
    | cons other done =>
        obtain ⟨rfl, later⟩ := List.cons_prefix_cons.mp front
        exact others done next later

/-- Whether every step of a run meets a condition can be tested. -/
instance decidableSteps (P : α → σ → Prop) [∀ input state, Decidable (P input state)] :
    (inputs : List α) → (state : σ) →
      Decidable (∀ done next, done ++ [next] <+: inputs → P next (After step done state))
  | [], _ => isTrue fun done next front => by simp at front
  | input :: inputs, state =>
      have := decidableSteps P inputs (step input state)
      decidable_of_iff _ (forall_steps_cons step P input inputs state).symm

/-- What every step that meets a condition keeps holds after a run of such steps. -/
theorem after_holds_of (P : σ → Prop) (Meets : α → σ → Prop)
    (keeps : ∀ input state, P state → Meets input state → P (step input state))
    (inputs : List α) {state : σ} (start : P state)
    (meets : ∀ done next, done ++ [next] <+: inputs → Meets next (After step done state)) :
    P (After step inputs state) := by
  induction inputs generalizing state with
  | nil => exact start
  | cons input inputs later =>
      obtain ⟨first, others⟩ := (forall_steps_cons step Meets input inputs state).mp meets
      exact later (keeps input state start first) others

/-- A statement about some step of a run, the first or another. -/
theorem exists_steps_cons {P : α → σ → Prop} {input : α} {inputs : List α} {state : σ} :
    (∃ done next, done ++ [next] <+: input :: inputs ∧ P next (After step done state)) ↔
      P input state ∨
        ∃ done next, done ++ [next] <+: inputs ∧ P next (After step done (step input state)) := by
  have every := forall_steps_cons step (fun next state => ¬ P next state) input inputs state
  rw [← not_iff_not, not_or]
  simpa only [not_exists, not_and] using every

/-- A statement about every beginning of a run. -/
theorem forall_prefixes_cons (P : σ → Prop) {input : α} {inputs : List α} {state : σ} :
    (∀ done, done <+: input :: inputs → P (After step done state)) ↔
      P state ∧ ∀ done, done <+: inputs → P (After step done (step input state)) := by
  constructor
  · refine fun every => ⟨every [] (List.nil_prefix), fun done front => ?_⟩
    exact every (input :: done) (List.cons_prefix_cons.mpr ⟨rfl, front⟩)
  · rintro ⟨first, others⟩ done front
    cases done with
    | nil => exact first
    | cons other done =>
        obtain ⟨rfl, later⟩ := List.cons_prefix_cons.mp front
        exact others done later

/-- **What no step undoes holds exactly if it held before the run or a step has brought it about.** -/
theorem grown_iff {P : σ → Prop} {Brings : α → σ → Prop}
    (local' : ∀ input state, P (step input state) ↔ P state ∨ Brings input state)
    (inputs : List α) (state : σ) :
    P (After step inputs state) ↔ P state ∨
      ∃ done next, done ++ [next] <+: inputs ∧ Brings next (After step done state) := by
  induction inputs generalizing state with
  | nil => simp
  | cons input inputs later =>
      rw [after_cons, later, local', or_assoc, exists_steps_cons]

/-- `kept_iff` for runs of the inputs that are allowed. -/
theorem kept_iff_of_allowed {P : σ → Prop} (Allowed : α → Prop) {Breaks : α → σ → Prop}
    (local' : ∀ input state, Allowed input → P state → (P (step input state) ↔ ¬ Breaks input state))
    (inputs : List α) (allowed : ∀ input ∈ inputs, Allowed input) {state : σ} (start : P state) :
    (∀ done, done <+: inputs → P (After step done state)) ↔
      ∀ done next, done ++ [next] <+: inputs → ¬ Breaks next (After step done state) := by
  induction inputs generalizing state with
  | nil => simp [start]
  | cons input inputs later =>
      have others : ∀ other ∈ inputs, Allowed other :=
        fun other member => allowed other (List.mem_cons_of_mem input member)
      rw [forall_prefixes_cons, forall_steps_cons step fun next state => ¬ Breaks next state,
        ← local' input state (allowed input List.mem_cons_self) start]
      constructor
      · rintro ⟨-, every⟩
        have first := every [] List.nil_prefix
        exact ⟨first, (later others first).mp every⟩
      · rintro ⟨first, every⟩
        exact ⟨start, (later others first).mpr every⟩

/-- **A property holds after every beginning of a run exactly if no step of it breaks the property.** -/
theorem kept_iff {P : σ → Prop} {Breaks : α → σ → Prop}
    (local' : ∀ input state, P state → (P (step input state) ↔ ¬ Breaks input state))
    (inputs : List α) {state : σ} (start : P state) :
    (∀ done, done <+: inputs → P (After step done state)) ↔
      ∀ done next, done ++ [next] <+: inputs → ¬ Breaks next (After step done state) :=
  kept_iff_of_allowed step (fun _ => True) (fun input state _ => local' input state) inputs
    (fun _ _ => trivial) start

end Prefixes
