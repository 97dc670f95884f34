/-
**Machines that emit events and may fault, and the properties of their runs.**

* `Turn` — what one step leaves: the next state, the events in order, and a fault if the step went
  out of bounds. `Turn.andThen` sequences two turns and stops at the first fault; it is associative
  with unit `Turn.pure`.
* `run step inputs` — the turns of a list of inputs, one after the other (`run_append`); it faults with the
  first step that faults (`fault_run_iff`).
* `latest step observe inputs` — the last thing that the steps of a run show (`latest_concat`).
* `Turn.Emits` — every event of a turn has a property.
* `Always P trace` — `P past event` holds of every event together with the events before it.
  `always_append` splits it, so it is inherited by every initial part of a trace, and where `P` is a
  relation with every earlier event it is `List.Pairwise` (`always_iff_pairwise`).
* `Turn.Holds`, `Sound` — what a part of a step does for a relation between the trace so far and the
  state; `Sound.andThen` sequences two parts, and `Sound.run` is the induction over a run.
-/

import Mathlib.Data.List.Induction
import Mathlib.Data.List.Pairwise

namespace Machine

/-- What a step leaves behind. -/
structure Turn (σ ε φ : Type) where
  state : σ
  events : List ε
  fault : Option φ

namespace Turn

variable {σ ε φ : Type}

/-- A turn that emits nothing. -/
def pure (state : σ) : Turn σ ε φ := ⟨state, [], none⟩

/-- A turn that emits some events and goes on. -/
def emit (state : σ) (events : List ε) : Turn σ ε φ := ⟨state, events, none⟩

/-- Go on from where a turn ended, unless it faulted. -/
def andThen (first : Turn σ ε φ) (next : σ → Turn σ ε φ) : Turn σ ε φ :=
  match first.fault with
  | some fault => ⟨first.state, first.events, some fault⟩
  | none =>
      let second := next first.state
      ⟨second.state, first.events ++ second.events, second.fault⟩

@[simp] theorem pure_andThen (state : σ) (next : σ → Turn σ ε φ) :
    (pure state).andThen next = next state := rfl

@[simp] theorem emit_andThen (state : σ) (events : List ε) (next : σ → Turn σ ε φ) :
    (emit state events).andThen next =
      ⟨(next state).state, events ++ (next state).events, (next state).fault⟩ := rfl

@[simp] theorem faulted_andThen (state : σ) (events : List ε) (fault : φ)
    (next : σ → Turn σ ε φ) :
    (⟨state, events, some fault⟩ : Turn σ ε φ).andThen next = ⟨state, events, some fault⟩ := rfl

theorem andThen_of_ok {first : Turn σ ε φ} (ok : first.fault = none) (next : σ → Turn σ ε φ) :
    first.andThen next = ⟨(next first.state).state, first.events ++ (next first.state).events,
      (next first.state).fault⟩ := by
  unfold andThen
  rw [ok]

theorem andThen_of_fault {first : Turn σ ε φ} {fault : φ} (faulted : first.fault = some fault)
    (next : σ → Turn σ ε φ) : first.andThen next = first := by
  obtain ⟨state, events, found⟩ := first
  cases faulted
  rfl

theorem andThen_pure (first : Turn σ ε φ) : first.andThen .pure = first := by
  obtain ⟨state, events, _ | fault⟩ := first
  · simp [andThen, Turn.pure]
  · rfl

theorem andThen_assoc (first : Turn σ ε φ) (second third : σ → Turn σ ε φ) :
    (first.andThen second).andThen third =
      first.andThen fun state => (second state).andThen third := by
  obtain ⟨state, events, _ | fault⟩ := first
  · rcases split : second state with ⟨middle, later, _ | fault⟩ <;> simp [andThen, split]
  · rfl

/-- The events of the first part come first. -/
theorem events_andThen (first : Turn σ ε φ) (next : σ → Turn σ ε φ) :
    (first.andThen next).events =
      first.events ++ if first.fault = none then (next first.state).events else [] := by
  obtain ⟨state, events, _ | fault⟩ := first
  · rfl
  · exact (List.append_nil _).symm

theorem prefix_andThen (first : Turn σ ε φ) (next : σ → Turn σ ε φ) :
    first.events <+: (first.andThen next).events := by
  rw [events_andThen]
  exact List.prefix_append _ _

/-- The second part ran only if the first did not fault. -/
theorem ok_of_andThen {first : Turn σ ε φ} {next : σ → Turn σ ε φ}
    (ok : (first.andThen next).fault = none) :
    first.fault = none ∧ (next first.state).fault = none := by
  obtain ⟨state, events, _ | fault⟩ := first
  · exact ⟨rfl, ok⟩
  · cases ok

end Turn

/-! ### Runs -/

section Run

variable {ι σ ε φ : Type} (step : ι → σ → Turn σ ε φ)

/-- The turns of a list of inputs, up to the first fault. -/
def run : List ι → σ → Turn σ ε φ
  | [], state => .pure state
  | input :: rest, state => (step input state).andThen (run rest)

@[simp] theorem run_nil (state : σ) : run step [] state = .pure state := rfl

theorem run_cons (input : ι) (rest : List ι) (state : σ) :
    run step (input :: rest) state = (step input state).andThen (run step rest) := rfl

theorem run_single (input : ι) (state : σ) : run step [input] state = step input state :=
  Turn.andThen_pure _

theorem run_append (first second : List ι) (state : σ) :
    run step (first ++ second) state = (run step first state).andThen (run step second) := by
  induction first generalizing state with
  | nil => rfl
  | cons input rest ih =>
      rw [List.cons_append, run_cons, run_cons, Turn.andThen_assoc]
      exact congrArg _ (funext ih)

/-- A run faults with the first step that faults. -/
theorem fault_run_iff {inputs : List ι} {state : σ} {fault : φ} :
    (run step inputs state).fault = some fault ↔ ∃ before input rest, inputs = before ++ input :: rest ∧
      (run step before state).fault = none ∧
        (step input (run step before state).state).fault = some fault := by
  induction inputs using List.reverseRecOn with
  | nil =>
      refine iff_of_false nofun ?_
      rintro ⟨before, input, rest, split, -⟩
      cases before <;> cases split
  | append_singleton inputs last ih =>
      have earlier : (∃ before input rest, inputs ++ [last] = before ++ input :: rest ∧
          (run step before state).fault = none ∧
            (step input (run step before state).state).fault = some fault) ↔
          (run step inputs state).fault = some fault ∨
            (run step inputs state).fault = none ∧
              (step last (run step inputs state).state).fault = some fault := by
        rw [ih]
        constructor
        · rintro ⟨before, input, rest, split, ok, faulted⟩
          rcases List.eq_nil_or_concat rest with rfl | ⟨rest, final, rfl⟩
          · obtain ⟨rfl, same⟩ := List.append_inj' split rfl
            obtain rfl := (List.cons.inj same).1
            exact Or.inr ⟨ok, faulted⟩
          · rw [List.concat_eq_append, ← List.cons_append, ← List.append_assoc] at split
            exact Or.inl ⟨before, input, rest, (List.append_inj' split rfl).1, ok, faulted⟩
        · rintro (⟨before, input, rest, rfl, found⟩ | found)
          · exact ⟨before, input, rest ++ [last], by rw [List.append_assoc]; rfl, found⟩
          · exact ⟨inputs, last, [], rfl, found⟩
      rw [earlier, run_append]
      cases found : (run step inputs state).fault with
      | none =>
          rw [Turn.andThen_of_ok found, run_single]
          exact ⟨fun faulted => Or.inr ⟨rfl, faulted⟩, fun faulted => faulted.resolve_left nofun |>.2⟩
      | some other =>
          rw [Turn.andThen_of_fault found, found]
          exact ⟨Or.inl, fun faulted => faulted.resolve_right nofun⟩

theorem none_of_empty : ∀ fault : Option Empty, fault = none
  | none => rfl

/-- The last step of a machine that cannot fault. -/
theorem run_concat (step : ι → σ → Turn σ ε Empty) (inputs : List ι) (input : ι) (state : σ) :
    run step (inputs ++ [input]) state =
      ⟨(step input (run step inputs state).state).state, (run step inputs state).events ++
        (step input (run step inputs state).state).events, none⟩ := by
  rw [run_append, Turn.andThen_of_ok (none_of_empty _), run_single]
  exact congrArg _ (none_of_empty _)

/-- The last thing that can be observed in a run, if a step shows something. -/
def latest {β : Type} (observe : ι → σ → Option β) : List ι → σ → Option β
  | [], _ => none
  | input :: rest, state => (latest observe rest (step input state).state).or (observe input state)

theorem latest_concat {β : Type} (step : ι → σ → Turn σ ε Empty) (observe : ι → σ → Option β)
    (inputs : List ι) (input : ι) (state : σ) :
    latest step observe (inputs ++ [input]) state =
      (observe input (run step inputs state).state).or (latest step observe inputs state) := by
  induction inputs generalizing state with
  | nil => exact (Option.or_none ..).symm
  | cons first rest ih =>
      rw [List.cons_append, latest, latest, ih, Option.or_assoc, run_cons,
        Turn.andThen_of_ok (none_of_empty _)]

end Run

/-! ### Properties of every event of a turn -/

section Emits

variable {ι σ ε φ : Type} {P : ε → Prop}

/-- Every event of a turn has a property. -/
def Turn.Emits (P : ε → Prop) (turn : Turn σ ε φ) : Prop := ∀ event ∈ turn.events, P event

theorem Turn.Emits.silent {state : σ} {fault : Option φ} :
    (⟨state, [], fault⟩ : Turn σ ε φ).Emits P := nofun

theorem Turn.Emits.single {state : σ} {event : ε} (has : P event) :
    (Turn.emit state [event] : Turn σ ε φ).Emits P := fun other member => by
  rw [List.mem_singleton.mp member]
  exact has

theorem Turn.Emits.andThen {first : Turn σ ε φ} {next : σ → Turn σ ε φ} (emitsFirst : first.Emits P)
    (emitsNext : ∀ state, (next state).Emits P) : (first.andThen next).Emits P := by
  intro event member
  rw [Turn.events_andThen, List.mem_append] at member
  rcases member with early | late
  · exact emitsFirst event early
  · by_cases ok : first.fault = none
    · rw [if_pos ok] at late
      exact emitsNext _ event late
    · rw [if_neg ok] at late
      cases late

theorem Turn.Emits.run {step : ι → σ → Turn σ ε φ} {inputs : List ι}
    (emits : ∀ input ∈ inputs, ∀ state, (step input state).Emits P) (state : σ) :
    (run step inputs state).Emits P := by
  induction inputs generalizing state with
  | nil => exact .silent
  | cons input rest ih =>
      rw [run_cons]
      refine .andThen (emits input List.mem_cons_self state) fun state => ?_
      exact ih (fun other member => emits other (List.mem_cons_of_mem input member)) state

end Emits

/-! ### Properties of every event of a trace -/

section Always

variable {ε : Type}

/-- Every event of `trace` satisfies `P`, given what came before it after `past`. -/
def AlwaysFrom (P : List ε → ε → Prop) : List ε → List ε → Prop
  | _, [] => True
  | past, event :: rest => P past event ∧ AlwaysFrom P (past ++ [event]) rest

/-- Every event of `trace` satisfies `P`, given the events before it. -/
def Always (P : List ε → ε → Prop) (trace : List ε) : Prop := AlwaysFrom P [] trace

instance decidableAlwaysFrom (P : List ε → ε → Prop) [∀ past event, Decidable (P past event)] :
    ∀ past trace, Decidable (AlwaysFrom P past trace)
  | _, [] => .isTrue trivial
  | past, event :: rest =>
      have := decidableAlwaysFrom P (past ++ [event]) rest
      inferInstanceAs (Decidable (P past event ∧ AlwaysFrom P (past ++ [event]) rest))

instance decidableAlways (P : List ε → ε → Prop) [∀ past event, Decidable (P past event)]
    (trace : List ε) : Decidable (Always P trace) :=
  inferInstanceAs (Decidable (AlwaysFrom P [] trace))

@[simp] theorem alwaysFrom_nil (P : List ε → ε → Prop) (past : List ε) :
    AlwaysFrom P past [] := trivial

@[simp] theorem alwaysFrom_cons (P : List ε → ε → Prop) (past rest : List ε) (event : ε) :
    AlwaysFrom P past (event :: rest) ↔ P past event ∧ AlwaysFrom P (past ++ [event]) rest := Iff.rfl

theorem alwaysFrom_append (P : List ε → ε → Prop) : ∀ past first second : List ε,
    AlwaysFrom P past (first ++ second) ↔
      AlwaysFrom P past first ∧ AlwaysFrom P (past ++ first) second
  | past, [], second => by simp
  | past, event :: rest, second => by
      rw [List.cons_append, alwaysFrom_cons, alwaysFrom_cons,
        alwaysFrom_append P (past ++ [event]) rest second, List.append_assoc, and_assoc]
      rfl

@[simp] theorem always_nil (P : List ε → ε → Prop) : Always P [] := trivial

theorem always_append (P : List ε → ε → Prop) (first second : List ε) :
    Always P (first ++ second) ↔ Always P first ∧ AlwaysFrom P first second :=
  alwaysFrom_append P [] first second

/-- `Always` read at one event. -/
theorem Always.at {P : List ε → ε → Prop} {trace past rest : List ε} {event : ε}
    (always : Always P trace) (split : trace = past ++ event :: rest) : P past event := by
  subst split
  exact ((always_append P _ _).mp always).2.1

theorem alwaysFrom_mono {P Q : List ε → ε → Prop} (weaker : ∀ past event, P past event → Q past event) :
    ∀ {past trace : List ε}, AlwaysFrom P past trace → AlwaysFrom Q past trace
  | _, [], _ => trivial
  | _, _ :: _, holds => ⟨weaker _ _ holds.1, alwaysFrom_mono weaker holds.2⟩

/-- A property of events alone, whatever came before. -/
theorem alwaysFrom_forall {P : ε → Prop} : ∀ {past trace : List ε},
    AlwaysFrom (fun _ => P) past trace ↔ ∀ event ∈ trace, P event
  | _, [] => by simp
  | past, event :: rest => by
      rw [alwaysFrom_cons, List.forall_mem_cons, alwaysFrom_forall]

/-- `Always` read at every event. -/
theorem always_iff_splits {P : List ε → ε → Prop} {trace : List ε} :
    Always P trace ↔ ∀ past event rest, trace = past ++ event :: rest → P past event := by
  refine ⟨fun always past event rest split => always.at split, fun every => ?_⟩
  induction trace using List.reverseRecOn with
  | nil => trivial
  | append_singleton trace event ih =>
      rw [always_append, alwaysFrom_cons]
      refine ⟨ih fun past other rest split => ?_, every trace event [] rfl, trivial⟩
      exact every past other (rest ++ [event]) (by rw [split, List.append_assoc, List.cons_append])

/-- What holds at every event of a trace with one more. -/
theorem forall_splits_concat {P : List ε → ε → Prop} {trace : List ε} {event : ε} :
    (∀ past other rest, trace ++ [event] = past ++ other :: rest → P past other) ↔
      (∀ past other rest, trace = past ++ other :: rest → P past other) ∧ P trace event := by
  rw [← always_iff_splits, ← always_iff_splits, always_append, alwaysFrom_cons]
  exact and_congr_right fun _ => and_iff_left trivial

/-- A relation between events and all later ones. -/
theorem always_iff_pairwise {R : ε → ε → Prop} {trace : List ε} :
    Always (fun past event => ∀ earlier ∈ past, R earlier event) trace ↔ trace.Pairwise R := by
  induction trace using List.reverseRecOn with
  | nil => exact iff_of_true trivial List.Pairwise.nil
  | append_singleton trace event ih =>
      rw [always_append, ih, alwaysFrom_cons, List.pairwise_append]
      simp

/-- Of two events of a trace that is ordered one comes first, or they are the same. -/
theorem pairwise_total {R : ε → ε → Prop} {trace : List ε} (ordered : trace.Pairwise R)
    {first second : ε} (memberFirst : first ∈ trace) (memberSecond : second ∈ trace) :
    first = second ∨ R first second ∨ R second first := by
  by_contra neither
  rw [not_or] at neither
  have apart : trace.Pairwise fun first second => R first second ∨ R second first :=
    ordered.imp Or.inl
  have symmetric : Std.Symm fun first second => R first second ∨ R second first :=
    ⟨fun _ _ => Or.symm⟩
  exact neither.2 (apart.forall memberFirst memberSecond neither.1)

section Runs

variable {ι σ φ : Type} {P : List ε → ε → Prop}

theorem alwaysFrom_andThen {past : List ε} {first : Turn σ ε φ} {next : σ → Turn σ ε φ}
    (early : AlwaysFrom P past first.events)
    (late : AlwaysFrom P (past ++ first.events) (next first.state).events) :
    AlwaysFrom P past (first.andThen next).events := by
  rw [Turn.events_andThen, alwaysFrom_append]
  refine ⟨early, ?_⟩
  by_cases ok : first.fault = none
  · rw [if_pos ok]
    exact late
  · rw [if_neg ok]
    trivial

/-- What holds of the events of every step after a past that stays good holds of those of a run. -/
theorem alwaysFrom_run (Good : List ε → Prop) (grows : ∀ past more, Good past → Good (past ++ more))
    {step : ι → σ → Turn σ ε φ}
    (each : ∀ input state past, Good past → AlwaysFrom P past (step input state).events)
    (inputs : List ι) (state : σ) {past : List ε} (good : Good past) :
    AlwaysFrom P past (run step inputs state).events := by
  induction inputs generalizing state past with
  | nil => trivial
  | cons input inputs later =>
      rw [run_cons]
      exact alwaysFrom_andThen (each input state past good) (later _ (grows past _ good))

end Runs

end Always

/-! ### Rules for turns -/

section Rules

variable {ι σ ε φ : Type}

/-- What holds of a turn after a trace: its events satisfy `Emit`, it leaves `Inv` unless it faults,
and a trace that ends in its fault satisfies `Stop`. -/
structure Turn.Holds (Inv : List ε → σ → Prop) (Emit : List ε → ε → Prop)
    (Stop : List ε → φ → Prop) (past : List ε) (turn : Turn σ ε φ) : Prop where
  emits : AlwaysFrom Emit past turn.events
  keeps : turn.fault = none → Inv (past ++ turn.events) turn.state
  stops : ∀ fault, turn.fault = some fault → Stop (past ++ turn.events) fault

/-- A part of a step whose turn holds wherever `Inv` does. -/
def Sound (Inv : List ε → σ → Prop) (Emit : List ε → ε → Prop) (Stop : List ε → φ → Prop)
    (part : σ → Turn σ ε φ) : Prop :=
  ∀ past state, Inv past state → (part state).Holds Inv Emit Stop past

variable {Inv : List ε → σ → Prop} {Emit : List ε → ε → Prop} {Stop : List ε → φ → Prop}

/-- A turn without a fault. -/
theorem Turn.Holds.emit {past events : List ε} {state : σ} (emits : AlwaysFrom Emit past events)
    (keeps : Inv (past ++ events) state) :
    (Turn.emit state events : Turn σ ε φ).Holds Inv Emit Stop past where
  emits := emits
  keeps _ := keeps
  stops _ faulted := by cases faulted

theorem Turn.Holds.pure {past : List ε} {state : σ} (related : Inv past state) :
    (Turn.pure state : Turn σ ε φ).Holds Inv Emit Stop past :=
  .emit trivial (by rwa [List.append_nil])

theorem Turn.Holds.andThen {past : List ε} {first : Turn σ ε φ} {next : σ → Turn σ ε φ}
    (holds : first.Holds Inv Emit Stop past) (sound : Sound Inv Emit Stop next) :
    (first.andThen next).Holds Inv Emit Stop past := by
  cases here : first.fault with
  | some fault =>
      rw [Turn.andThen_of_fault here]
      exact holds
  | none =>
      have later := sound _ _ (holds.keeps here)
      rw [Turn.andThen_of_ok here]
      refine ⟨(alwaysFrom_append _ _ _ _).mpr ⟨holds.emits, later.emits⟩, ?_, ?_⟩
      · rw [← List.append_assoc]
        exact later.keeps
      · rw [← List.append_assoc]
        exact later.stops

theorem Sound.andThen {first next : σ → Turn σ ε φ} (soundFirst : Sound Inv Emit Stop first)
    (soundNext : Sound Inv Emit Stop next) :
    Sound Inv Emit Stop fun state => (first state).andThen next :=
  fun past state related => (soundFirst past state related).andThen soundNext

/-- **The rule for runs.** What is sound of every step of a run is sound of the run. -/
theorem Sound.run {step : ι → σ → Turn σ ε φ} : ∀ {inputs : List ι},
    (∀ input ∈ inputs, Sound Inv Emit Stop (step input)) →
    Sound Inv Emit Stop (Machine.run step inputs)
  | [], _ => fun _ _ related => .pure related
  | input :: _, sound => (sound input List.mem_cons_self).andThen
      (Sound.run fun other member => sound other (List.mem_cons_of_mem input member))

end Rules

end Machine
