/-
**Runnables that are posted with a delay.**

* `Handler` — the runnables that wait, each with the milliseconds left; `due` are those that run when one
  passes, `elapse` are the others.
* `Posting` — a machine with such a handler: some steps post a runnable, some clear the handler, and some
  are a millisecond.
* `mem_handler_iff` — what waits after a run was posted less than the delay ago, and not cleared since.
* `mem_ran_iff` — what has run was posted the delay before, and not cleared in between; `ran_subperm` — it
  runs no more often than it is posted.
-/

import Mathlib.Data.List.Induction
import Mathlib.Data.List.Perm.Subperm

namespace Timers

variable {σ ι α : Type}

/-- The runnables that wait, with the milliseconds until they run. -/
abbrev Handler (α : Type) := List (ℕ × α)

/-- What runs when a millisecond passes. -/
def due (handler : Handler α) : List α := (handler.filter fun post => post.1 = 1).map Prod.snd

/-- What still waits then. -/
def elapse (handler : Handler α) : Handler α :=
  (handler.filter fun post => post.1 ≠ 1).map fun post => (post.1 - 1, post.2)

theorem mem_due {handler : Handler α} {runnable : α} : runnable ∈ due handler ↔ (1, runnable) ∈ handler := by
  unfold due
  simp

theorem mem_elapse {handler : Handler α} {left : ℕ} {runnable : α} (positive : ∀ post ∈ handler, 0 < post.1) :
    (left, runnable) ∈ elapse handler ↔ 0 < left ∧ (left + 1, runnable) ∈ handler := by
  unfold elapse
  rw [List.mem_map]
  constructor
  · rintro ⟨⟨before, other⟩, waits, same⟩
    obtain ⟨inside, late⟩ := List.mem_filter.mp waits
    obtain ⟨rfl, rfl⟩ := Prod.mk.inj same
    have some' : 0 < before := positive _ inside
    have late : before ≠ 1 := of_decide_eq_true late
    have back : before - 1 + 1 = before := by omega
    exact ⟨by omega, back ▸ inside⟩
  · rintro ⟨some', inside⟩
    refine ⟨(left + 1, runnable), List.mem_filter.mpr ⟨inside, ?_⟩, rfl⟩
    exact decide_eq_true (by show left + 1 ≠ 1; omega)

/-- A machine with a handler. -/
structure Posting (σ ι α : Type) where
  step : ι → σ → σ
  handler : σ → Handler α
  /-- What a step posts. -/
  posts : ι → σ → Option α
  /-- Whether it clears the handler first. -/
  clears : ι → Bool
  /-- Whether it is a millisecond. -/
  elapses : ι → Bool
  delay : ℕ
  positive : 0 < delay
  handler_step : ∀ input state, handler (step input state) =
    (if clears input then [] else if elapses input then elapse (handler state) else handler state) ++
      ((posts input state).map fun runnable => (delay, runnable)).toList

namespace Posting

variable (machine : Posting σ ι α)

/-- The state after a list of inputs. -/
def after (inputs : List ι) (state : σ) : σ :=
  inputs.foldl (fun state input => machine.step input state) state

/-- The milliseconds that pass. -/
def elapsed (inputs : List ι) : ℕ := inputs.countP machine.elapses

/-- A runnable was posted in a run, and not cleared since; so many milliseconds have passed. -/
def Waits (inputs : List ι) (state : σ) (runnable : α) (ago : ℕ) : Prop :=
  ∃ before input since, inputs = before ++ input :: since ∧
    machine.posts input (machine.after before state) = some runnable ∧
    (∀ later ∈ since, machine.clears later = false) ∧ machine.elapsed since = ago

variable {machine} {state : σ} {runnable : α} {inputs : List ι} {input : ι} {ago left : ℕ}

theorem after_concat : machine.after (inputs ++ [input]) state = machine.step input (machine.after inputs state) := by
  unfold after
  rw [List.foldl_append]
  rfl

theorem elapsed_concat :
    machine.elapsed (inputs ++ [input]) = machine.elapsed inputs + (machine.elapses input).toNat := by
  unfold elapsed
  rw [List.countP_append, List.countP_singleton]
  cases machine.elapses input <;> rfl

/-- The last step of a run has posted the runnable, or it waited before and the step has not cleared it. -/
theorem waits_concat : machine.Waits (inputs ++ [input]) state runnable ago ↔
    (machine.posts input (machine.after inputs state) = some runnable ∧ ago = 0) ∨
      machine.clears input = false ∧ ∃ before, machine.Waits inputs state runnable before ∧
        ago = before + (machine.elapses input).toNat := by
  constructor
  · rintro ⟨before, first, since, split, posted, calm, rfl⟩
    rcases List.eq_nil_or_concat since with rfl | ⟨since, last, rfl⟩
    · obtain ⟨rfl, rfl⟩ := List.append_inj' split rfl |>.imp id fun same => List.cons.inj same |>.1
      exact Or.inl ⟨posted, rfl⟩
    · rw [List.concat_eq_append] at calm split ⊢
      rw [← List.cons_append, ← List.append_assoc] at split
      obtain ⟨rfl, same⟩ := List.append_inj' split rfl
      obtain rfl := (List.cons.inj same).1
      refine Or.inr ⟨calm input (List.mem_append_right _ (List.mem_singleton_self _)), machine.elapsed since, ?_,
        elapsed_concat⟩
      exact ⟨before, first, since, rfl, posted, fun later member => calm later (List.mem_append_left _ member), rfl⟩
  · rintro (⟨posted, rfl⟩ | ⟨kept, _, ⟨before, first, since, rfl, posted, calm, rfl⟩, rfl⟩)
    · exact ⟨inputs, input, [], rfl, posted, nofun, rfl⟩
    · refine ⟨before, first, since ++ [input], by rw [List.append_assoc]; rfl, posted, fun later member => ?_,
        elapsed_concat⟩
      rcases List.mem_append.mp member with old | last
      · exact calm later old
      · rwa [List.mem_singleton.mp last]

/-- What a step leaves in the handler. -/
theorem mem_handler_step (positive : ∀ post ∈ machine.handler state, 0 < post.1) :
    (left, runnable) ∈ machine.handler (machine.step input state) ↔
      (machine.posts input state = some runnable ∧ left = machine.delay) ∨
        machine.clears input = false ∧ 0 < left ∧
          (left + (machine.elapses input).toNat, runnable) ∈ machine.handler state := by
  have posted : (left, runnable) ∈ ((machine.posts input state).map fun other => (machine.delay, other)).toList ↔
      machine.posts input state = some runnable ∧ left = machine.delay := by
    cases machine.posts input state with
    | none => simp
    | some other => simp [and_comm, eq_comm]
  rw [machine.handler_step, List.mem_append, posted, or_comm]
  refine or_congr_right ?_
  cases machine.clears input with
  | true => simp
  | false =>
      cases machine.elapses input with
      | true => exact (mem_elapse positive).trans (and_iff_right rfl).symm
      | false => exact ⟨fun inside => ⟨rfl, positive _ inside, inside⟩, fun ⟨_, _, inside⟩ => inside⟩

/-- **What waits after a run was posted less than the delay ago and not cleared since.** -/
theorem mem_handler_iff (start : machine.handler state = []) :
    (left, runnable) ∈ machine.handler (machine.after inputs state) ↔
      0 < left ∧ ∃ ago, machine.Waits inputs state runnable ago ∧ ago + left = machine.delay := by
  induction inputs using List.reverseRecOn generalizing left runnable with
  | nil =>
      show (left, runnable) ∈ machine.handler state ↔ _
      rw [start]
      refine iff_of_false List.not_mem_nil ?_
      rintro ⟨-, _, ⟨before, input, since, none', -⟩, -⟩
      cases before <;> cases none'
  | append_singleton inputs input later =>
      have positive : ∀ post ∈ machine.handler (machine.after inputs state), 0 < post.1 :=
        fun post inside => (later.mp inside).1
      rw [after_concat, mem_handler_step positive, later]
      constructor
      · rintro (⟨posted, rfl⟩ | ⟨kept, some', -, ago, waits, sum⟩)
        · exact ⟨machine.positive, 0, waits_concat.mpr (Or.inl ⟨posted, rfl⟩), Nat.zero_add _⟩
        · refine ⟨some', _, waits_concat.mpr (Or.inr ⟨kept, ago, waits, rfl⟩), ?_⟩
          omega
      · rintro ⟨some', ago, waits, sum⟩
        rcases waits_concat.mp waits with ⟨posted, rfl⟩ | ⟨kept, before, waited, rfl⟩
        · refine Or.inl ⟨posted, ?_⟩
          omega
        · refine Or.inr ⟨kept, some', ?_, before, waited, ?_⟩
          · omega
          · omega

/-- **What is due was posted exactly the delay ago**, the millisecond that passes now included. -/
theorem mem_due_iff (start : machine.handler state = []) :
    runnable ∈ due (machine.handler (machine.after inputs state)) ↔
      ∃ ago, machine.Waits inputs state runnable ago ∧ ago + 1 = machine.delay := by
  rw [mem_due, mem_handler_iff start]
  exact and_iff_right Nat.one_pos

variable (machine) in
/-- The runnables that a run posts. -/
def posted : List ι → σ → List α
  | [], _ => []
  | input :: inputs, state => (machine.posts input state).toList ++ posted inputs (machine.step input state)

variable (machine) in
/-- The runnables that run at a step. -/
def runs (input : ι) (state : σ) : List α :=
  if machine.clears input = false ∧ machine.elapses input = true then due (machine.handler state) else []

variable (machine) in
/-- The runnables that a run has run. -/
def ran : List ι → σ → List α
  | [], _ => []
  | input :: inputs, state => machine.runs input state ++ ran inputs (machine.step input state)

theorem ran_concat : machine.ran (inputs ++ [input]) state =
    machine.ran inputs state ++ machine.runs input (machine.after inputs state) := by
  induction inputs generalizing state with
  | nil => exact List.append_nil _
  | cons first inputs later =>
      show machine.runs first state ++ machine.ran (inputs ++ [input]) (machine.step first state) = _
      rw [later, ← List.append_assoc]
      rfl

/-- What runs at a step was posted exactly the delay ago, with the millisecond of the step. -/
theorem mem_runs_iff (start : machine.handler state = []) :
    runnable ∈ machine.runs input (machine.after inputs state) ↔
      machine.clears input = false ∧ machine.elapses input = true ∧
        ∃ ago, machine.Waits inputs state runnable ago ∧ ago + 1 = machine.delay := by
  unfold runs
  by_cases runs : machine.clears input = false ∧ machine.elapses input = true
  · rw [if_pos runs, mem_due_iff start, ← and_assoc]
    exact (and_iff_right runs).symm
  · rw [if_neg runs]
    exact iff_of_false List.not_mem_nil fun ⟨kept, passes, _⟩ => runs ⟨kept, passes⟩

/-- **What has run was posted, and the delay has passed without its being cleared.** -/
theorem mem_ran_iff (start : machine.handler state = []) :
    runnable ∈ machine.ran inputs state ↔
      ∃ done, done <+: inputs ∧ machine.Waits done state runnable machine.delay := by
  have positive := machine.positive
  induction inputs using List.reverseRecOn with
  | nil =>
      refine iff_of_false List.not_mem_nil ?_
      rintro ⟨done, front, before, input, since, split, -⟩
      rw [List.prefix_nil.mp front] at split
      cases before <;> cases split
  | append_singleton inputs input later =>
      have last : machine.Waits (inputs ++ [input]) state runnable machine.delay ↔
          machine.Waits inputs state runnable machine.delay ∧ machine.clears input = false ∧
              machine.elapses input = false ∨
            runnable ∈ machine.runs input (machine.after inputs state) := by
        rw [waits_concat, mem_runs_iff start]
        constructor
        · rintro (⟨-, none'⟩ | ⟨kept, ago, waits, sum⟩)
          · omega
          · cases passes : machine.elapses input with
            | false =>
                rw [passes] at sum
                exact Or.inl ⟨sum ▸ waits, kept, rfl⟩
            | true =>
                rw [passes] at sum
                exact Or.inr ⟨kept, rfl, ago, waits, sum.symm⟩
        · rintro (⟨waits, kept, passes⟩ | ⟨kept, passes, ago, waits, sum⟩)
          · exact Or.inr ⟨kept, _, waits, by rw [passes]; rfl⟩
          · exact Or.inr ⟨kept, ago, waits, by rw [passes, ← sum]; rfl⟩
      rw [ran_concat, List.mem_append]
      refine (or_congr_left later).trans ⟨?_, ?_⟩
      · rintro (⟨done, front, waits⟩ | now)
        · exact ⟨done, front.trans (List.prefix_append inputs [input]), waits⟩
        · exact ⟨_, List.prefix_rfl, last.mpr (Or.inr now)⟩
      · rintro ⟨done, front, waits⟩
        rcases List.prefix_concat_iff.mp front with rfl | earlier
        · rcases last.mp waits with ⟨before, -⟩ | now
          · exact Or.inl ⟨inputs, List.prefix_rfl, before⟩
          · exact Or.inr now
        · exact Or.inl ⟨done, earlier, waits⟩

/-- A step loses runnables, or runs them, and adds what it posts. -/
theorem runs_subperm (input : ι) (state : σ) :
    List.Subperm (machine.runs input state ++ (machine.handler (machine.step input state)).map Prod.snd)
      ((machine.handler state).map Prod.snd ++ (machine.posts input state).toList) := by
  have tags : ((machine.posts input state).map fun runnable => (machine.delay, runnable)).toList.map Prod.snd =
      (machine.posts input state).toList := by
    cases machine.posts input state <;> rfl
  rw [machine.handler_step, List.map_append, tags, ← List.append_assoc]
  refine List.Subperm.append ?_ (List.Subperm.refl _)
  unfold runs
  cases machine.clears input with
  | true => exact List.nil_subperm
  | false =>
      cases machine.elapses input with
      | false => exact List.Subperm.refl _
      | true =>
          have tags : (elapse (machine.handler state)).map Prod.snd =
              ((machine.handler state).filter fun post => post.1 ≠ 1).map Prod.snd := by
            unfold elapse
            rw [List.map_map]
            rfl
          show List.Subperm (due (machine.handler state) ++ (elapse (machine.handler state)).map Prod.snd) _
          rw [tags, due, ← List.map_append]
          have parts := List.filter_append_perm (fun post : ℕ × α => decide (post.1 = 1)) (machine.handler state)
          simpa using (parts.map Prod.snd).subperm

/-- **A runnable runs no more often than it is posted.** -/
theorem ran_subperm (inputs : List ι) (state : σ) :
    List.Subperm (machine.ran inputs state)
      ((machine.handler state).map Prod.snd ++ machine.posted inputs state) := by
  induction inputs generalizing state with
  | nil => exact List.nil_subperm
  | cons input inputs later =>
      have first := machine.runs_subperm input state
      have others := later (machine.step input state)
      have rest : List.Subperm (machine.ran (input :: inputs) state)
          (machine.runs input state ++ (machine.handler (machine.step input state)).map Prod.snd ++
            machine.posted inputs (machine.step input state)) := by
        rw [List.append_assoc]
        exact (List.subperm_append_left _).mpr others
      refine rest.trans ?_
      show List.Subperm _ (_ ++ (_ ++ _))
      rw [← List.append_assoc]
      exact (List.subperm_append_right _).mpr first

end Posting

end Timers
