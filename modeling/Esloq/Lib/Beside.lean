/-
**Two machines side by side, in any interleaving.**

* `beside left right` — a step of either machine, which leaves the state of the other.
* `lefts`, `rights` — what each of them contributes to a trace.
* `view_run` — what is seen of a run through a part of a machine is a run of that part.
* `lefts_run`, `rights_run` — each side of a run is a run of that machine alone, so what holds of
  every run of a machine holds of its side.
* `run_inl`, `run_inr` — a run of inputs for one machine only.
* `rights_run_eq` — beside a machine without faults, no input of the right machine is left out.
-/

import Esloq.Lib.Machine

namespace Machine

variable {ι₁ ι₂ σ₁ σ₂ ε₁ ε₂ φ₁ φ₂ : Type}

/-- A turn of the left machine. -/
def Turn.inLeft (turn : Turn σ₁ ε₁ φ₁) (other : σ₂) : Turn (σ₁ × σ₂) (ε₁ ⊕ ε₂) (φ₁ ⊕ φ₂) :=
  ⟨(turn.state, other), turn.events.map .inl, turn.fault.map .inl⟩

/-- A turn of the right machine. -/
def Turn.inRight (turn : Turn σ₂ ε₂ φ₂) (other : σ₁) : Turn (σ₁ × σ₂) (ε₁ ⊕ ε₂) (φ₁ ⊕ φ₂) :=
  ⟨(other, turn.state), turn.events.map .inr, turn.fault.map .inr⟩

@[simp] theorem Turn.inLeft_emit (state : σ₁) (events : List ε₁) (other : σ₂) :
    ((Turn.emit state events : Turn σ₁ ε₁ φ₁).inLeft other :
      Turn (σ₁ × σ₂) (ε₁ ⊕ ε₂) (φ₁ ⊕ φ₂)) = .emit (state, other) (events.map .inl) := rfl

@[simp] theorem Turn.inRight_emit (state : σ₂) (events : List ε₂) (other : σ₁) :
    ((Turn.emit state events : Turn σ₂ ε₂ φ₂).inRight other :
      Turn (σ₁ × σ₂) (ε₁ ⊕ ε₂) (φ₁ ⊕ φ₂)) = .emit (other, state) (events.map .inr) := rfl

/-- An input of either machine. -/
def beside (left : ι₁ → σ₁ → Turn σ₁ ε₁ φ₁) (right : ι₂ → σ₂ → Turn σ₂ ε₂ φ₂) :
    ι₁ ⊕ ι₂ → σ₁ × σ₂ → Turn (σ₁ × σ₂) (ε₁ ⊕ ε₂) (φ₁ ⊕ φ₂)
  | .inl input, state => (left input state.1).inLeft state.2
  | .inr input, state => (right input state.2).inRight state.1

/-- The events of the left machine. -/
def lefts (trace : List (ε₁ ⊕ ε₂)) : List ε₁ := trace.filterMap Sum.getLeft?

/-- The events of the right machine. -/
def rights (trace : List (ε₁ ⊕ ε₂)) : List ε₂ := trace.filterMap Sum.getRight?

@[simp] theorem lefts_append (first second : List (ε₁ ⊕ ε₂)) :
    lefts (first ++ second) = lefts first ++ lefts second := List.filterMap_append

@[simp] theorem rights_append (first second : List (ε₁ ⊕ ε₂)) :
    rights (first ++ second) = rights first ++ rights second := List.filterMap_append

@[simp] theorem lefts_inl (events : List ε₁) : lefts (events.map (.inl : ε₁ → ε₁ ⊕ ε₂)) = events := by
  simp [lefts, List.filterMap_map, Function.comp_def]

@[simp] theorem lefts_inr (events : List ε₂) : lefts (events.map (.inr : ε₂ → ε₁ ⊕ ε₂)) = [] := by
  simp [lefts, List.filterMap_map, Function.comp_def]

@[simp] theorem rights_inl (events : List ε₁) : rights (events.map (.inl : ε₁ → ε₁ ⊕ ε₂)) = [] := by
  simp [rights, List.filterMap_map, Function.comp_def]

@[simp] theorem rights_inr (events : List ε₂) :
    rights (events.map (.inr : ε₂ → ε₁ ⊕ ε₂)) = events := by
  simp [rights, List.filterMap_map, Function.comp_def]

theorem mem_lefts {trace : List (ε₁ ⊕ ε₂)} {event : ε₁} :
    event ∈ lefts trace ↔ .inl event ∈ trace := by
  simp [lefts]

theorem mem_rights {trace : List (ε₁ ⊕ ε₂)} {event : ε₂} :
    event ∈ rights trace ↔ .inr event ∈ trace := by
  simp [rights]

/-- A property of the left side, read at an event of the whole trace. -/
theorem Always.at_left {P : List ε₁ → ε₁ → Prop} {trace past rest : List (ε₁ ⊕ ε₂)} {event : ε₁}
    (always : Always P (lefts trace)) (split : trace = past ++ .inl event :: rest) :
    P (lefts past) event := by
  have here : lefts trace = lefts past ++ event :: lefts rest := by
    rw [split, lefts_append]
    rfl
  exact always.at here

/-- A property of the right side, read at an event of the whole trace. -/
theorem Always.at_right {P : List ε₂ → ε₂ → Prop} {trace past rest : List (ε₁ ⊕ ε₂)} {event : ε₂}
    (always : Always P (rights trace)) (split : trace = past ++ .inr event :: rest) :
    P (rights past) event := by
  have here : rights trace = rights past ++ event :: rights rest := by
    rw [split, rights_append]
    rfl
  exact always.at here

section Part

variable {ι σ ε φ ι' σ' ε' φ' : Type} {step : ι → σ → Turn σ ε φ} {part : ι' → σ' → Turn σ' ε' φ'}

/-- A part of a machine: every step is a step of the part, seen through `side` and `view`, or leaves it
as it is. What is seen of a run is then a run of the part. -/
theorem view_run (side : σ → σ') (view : ε → Option ε')
    (each : ∀ input state,
      (∃ own, (step input state).events.filterMap view = (part own (side state)).events ∧
        side (step input state).state = (part own (side state)).state ∧
        ((step input state).fault = none → (part own (side state)).fault = none)) ∨
      ((step input state).events.filterMap view = [] ∧
        side (step input state).state = side state)) (inputs : List ι) (state : σ) :
    ∃ done, (run step inputs state).events.filterMap view = (run part done (side state)).events := by
  induction inputs generalizing state with
  | nil => exact ⟨[], rfl⟩
  | cons input rest ih =>
      rw [run_cons]
      rcases each input state with ⟨own, seen, moved, ok⟩ | ⟨seen, still⟩
      · cases faulted : (step input state).fault with
        | some fault =>
            refine ⟨[own], ?_⟩
            rw [run_single, Turn.andThen_of_fault faulted]
            exact seen
        | none =>
            obtain ⟨done, same⟩ := ih (step input state).state
            refine ⟨own :: done, ?_⟩
            rw [moved] at same
            rw [run_cons, Turn.andThen_of_ok faulted, Turn.andThen_of_ok (ok faulted),
              List.filterMap_append]
            exact congrArg₂ _ seen same
      · cases faulted : (step input state).fault with
        | some fault =>
            refine ⟨[], ?_⟩
            rw [Turn.andThen_of_fault faulted]
            exact seen
        | none =>
            obtain ⟨done, same⟩ := ih (step input state).state
            refine ⟨done, ?_⟩
            rw [still] at same
            rw [Turn.andThen_of_ok faulted, List.filterMap_append, seen]
            exact same

end Part

section Run

variable (left : ι₁ → σ₁ → Turn σ₁ ε₁ φ₁) (right : ι₂ → σ₂ → Turn σ₂ ε₂ φ₂)

/-- The left side of a run is a run of the left machine. -/
theorem lefts_run (inputs : List (ι₁ ⊕ ι₂)) (state : σ₁ × σ₂) :
    ∃ done, lefts (run (beside left right) inputs state).events =
      (run left done state.1).events := by
  refine view_run Prod.fst Sum.getLeft? (fun input state => ?_) inputs state
  rcases input with input | input
  · exact Or.inl ⟨input, lefts_inl _, rfl, Option.map_eq_none_iff.mp⟩
  · exact Or.inr ⟨lefts_inr _, rfl⟩

/-- The right side of a run is a run of the right machine. -/
theorem rights_run (inputs : List (ι₁ ⊕ ι₂)) (state : σ₁ × σ₂) :
    ∃ done, rights (run (beside left right) inputs state).events =
      (run right done state.2).events := by
  refine view_run Prod.snd Sum.getRight? (fun input state => ?_) inputs state
  rcases input with input | input
  · exact Or.inr ⟨rights_inl _, rfl⟩
  · exact Or.inl ⟨input, rights_inr _, rfl, Option.map_eq_none_iff.mp⟩

/-- Inputs for the left machine only. -/
theorem run_inl (inputs : List ι₁) (first : σ₁) (second : σ₂) :
    run (beside left right) (inputs.map .inl) (first, second) =
      (run left inputs first).inLeft second := by
  induction inputs generalizing first with
  | nil => rfl
  | cons input rest ih =>
      rw [List.map_cons, run_cons, run_cons]
      rcases turn : left input first with ⟨state, events, _ | fault⟩
      · simp [beside, turn, Turn.andThen, Turn.inLeft, ih]
      · simp [beside, turn, Turn.andThen, Turn.inLeft]

/-- Inputs for the right machine only. -/
theorem run_inr (inputs : List ι₂) (first : σ₁) (second : σ₂) :
    run (beside left right) (inputs.map .inr) (first, second) =
      (run right inputs second).inRight first := by
  induction inputs generalizing second with
  | nil => rfl
  | cons input rest ih =>
      rw [List.map_cons, run_cons, run_cons]
      rcases turn : right input second with ⟨state, events, _ | fault⟩
      · simp [beside, turn, Turn.andThen, Turn.inRight, ih]
      · simp [beside, turn, Turn.andThen, Turn.inRight]

end Run

section Faultless

variable (left : ι₁ → σ₁ → Turn σ₁ ε₁ Empty) (right : ι₂ → σ₂ → Turn σ₂ ε₂ φ₂)

/-- Beside a machine without faults, the right side of a run is the run of all its inputs. -/
theorem rights_run_eq (inputs : List (ι₁ ⊕ ι₂)) (state : σ₁ × σ₂) :
    rights (run (beside left right) inputs state).events =
        (run right (rights inputs) state.2).events ∧
      (run (beside left right) inputs state).state.2 = (run right (rights inputs) state.2).state ∧
      (run (beside left right) inputs state).fault =
        (run right (rights inputs) state.2).fault.map .inr := by
  induction inputs generalizing state with
  | nil => exact ⟨rfl, rfl, rfl⟩
  | cons input rest ih =>
      rw [run_cons]
      rcases input with input | input
      · have ok : (beside left right (.inl input) state).fault = none := by
          rcases turn : left input state.1 with ⟨after, events, _ | fault⟩
          · rw [beside, turn]
            rfl
          · exact fault.elim
        rw [Turn.andThen_of_ok ok, rights_append]
        have silent : rights (beside left right (.inl input) state).events = [] := rights_inl _
        rw [silent, List.nil_append]
        exact ih _
      · have own : rights (.inr input :: rest) = input :: rights rest := rfl
        rw [own, run_cons]
        rcases turn : right input state.2 with ⟨after, events, _ | fault⟩
        · have ok : (beside left right (.inr input) state).fault = none := by
            rw [beside, turn]
            rfl
          have later := ih (state.1, after)
          have step : (beside left right (.inr input) state).state = (state.1, after) := by
            rw [beside, turn]
            rfl
          have emits : rights (beside left right (.inr input) state).events = events := by
            rw [beside, turn]
            exact rights_inr _
          rw [Turn.andThen_of_ok ok, Turn.andThen_of_ok rfl, rights_append, emits, step]
          exact ⟨congrArg (events ++ ·) later.1, later.2⟩
        · rw [beside, turn]
          exact ⟨rights_inr _, rfl, rfl⟩

end Faultless

end Machine
