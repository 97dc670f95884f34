/-
**The button presses, one access to `request` at a time (`button.c`, `main`).**

`request` carries a press from `PCINT1_vect` to the main loop. The loop reads it up to twice, runs the
motor for up to ten seconds and then stores -1; the interrupt falls between any two of these.

* `PressStep.step` — an interrupt, the next step of the loop, or a `soft_reset`.
* `processButton_of_steps` — without interrupts the steps of a pass are `processButton`.
* `LastPressWins` — the last thing that happened is a start in the direction of the last press.
* `PressStep.Loses` — a press that the store of -1, a start or a reset takes away.
* `last_press_wins_iff` — the last press wins in every idle state of a run exactly if the loop leaves no
  rotation, and makes no reset, with a press lost in it.
-/

import Esloq.Lib.Prefixes
import Esloq.Firmware.Loop

namespace Esloq

open Prefixes

/-! ### The loop and the interrupt -/

/-- What the main loop does next; what it does before the first read does not touch `request`. -/
inductive LoopPoint
  /-- The read of `if (request == ROTATE_CW)`. -/
  | testCw
  /-- The read of `else if (request == ROTATE_CCW)`. -/
  | testCcw
  /-- The call of `rotate_motor_cw` or `rotate_motor_ccw`. -/
  | rotate (direction : Rotation)
  /-- `request = -1`, after the motor has run. -/
  | clear (direction : Rotation)
  deriving DecidableEq

/-- The loop has decided to rotate and has not stored -1 yet. -/
def LoopPoint.rotating : LoopPoint → Bool
  | .testCw | .testCcw => false
  | .rotate _ | .clear _ => true

/-- A press that the interrupt routine has recorded, and a rotation that the loop has started for one. -/
inductive PressEvent
  | pressed (direction : Rotation)
  | started (direction : Rotation)
  deriving DecidableEq

/-- `request` (absent: -1), where the main loop is, and what has happened. -/
structure ButtonLoop where
  request : Option Rotation
  point : LoopPoint
  events : List PressEvent
  deriving DecidableEq

/-- An interrupt with the levels of the two pins, a step of the main loop, or a `soft_reset` in it. -/
inductive PressStep
  | interrupt (pinc1 pinc2 : Bool)
  | loop
  | softReset
  deriving DecidableEq

/-- `PCINT1_vect`: the direction it stores, if any. A pressed button pulls its pin low. -/
def pcint1Vect (pinc1 pinc2 : Bool) : Option Rotation :=
  if !pinc1 then some .cw
  else if !pinc2 then some .ccw
  else none

namespace ButtonLoop

/-- After `main` has enabled the interrupts. -/
def start : ButtonLoop := ⟨none, .testCw, []⟩

/-- What an interrupt leaves. -/
def press (direction : Option Rotation) (s : ButtonLoop) : ButtonLoop :=
  match direction with
  | some direction => { s with request := some direction, events := s.events ++ [.pressed direction] }
  | none => s

/-- The next step of the main loop. -/
def loop (s : ButtonLoop) : ButtonLoop :=
  match s.point with
  | .testCw => { s with point := if s.request = some .cw then .rotate .cw else .testCcw }
  | .testCcw => { s with point := if s.request = some .ccw then .rotate .ccw else .testCw }
  | .rotate direction => { s with point := .clear direction, events := s.events ++ [.started direction] }
  | .clear _ => { s with request := none, point := .testCw }

/-- The loop calls `soft_reset` only before its first read. -/
def softReset (s : ButtonLoop) : ButtonLoop :=
  if s.point = .testCw then { s with request := none } else s

/-- Nothing rotates for a button, and `request` is -1. -/
def Idle (s : ButtonLoop) : Prop := s.point.rotating = false ∧ s.request = none

end ButtonLoop

/-- One step. -/
def PressStep.step (step : PressStep) (s : ButtonLoop) : ButtonLoop :=
  match step with
  | .interrupt pinc1 pinc2 => s.press (pcint1Vect pinc1 pinc2)
  | .loop => s.loop
  | .softReset => s.softReset

/-- The most recent press. -/
def lastPressed (events : List PressEvent) : Option Rotation :=
  (events.filterMap fun
    | .pressed direction => some direction
    | .started _ => none).getLast?

/-- The most recent rotation is in the direction of the most recent press, and started after it. -/
def LastPressWins (events : List PressEvent) : Prop :=
  ∀ direction, lastPressed events = some direction → events.getLast? = some (.started direction)

/-- The loop wipes out the press: it comes while the motor runs; or it came after the decision for the
other direction, which starts now; or the loop resets while it waits. -/
def PressStep.Loses (step : PressStep) (s : ButtonLoop) : Prop :=
  match step, s.point with
  | .interrupt pinc1 pinc2, .clear _ => pcint1Vect pinc1 pinc2 ≠ none
  | .loop, .rotate direction => s.request ≠ some direction
  | .softReset, .testCw => s.request ≠ none
  | _, _ => False

/-! ### A pass without interrupts -/

/-- The steps of a pass, with no interrupt between them, are the end of the loop body. -/
theorem processButton_of_steps (press : Option Rotation) (l : Lock) :
    ∃ (count : Nat) (starts : List Rotation),
      After PressStep.step (List.replicate count .loop) ⟨press.or l.request, .testCw, []⟩ =
        ⟨none, .testCw, starts.map .started⟩ ∧
      processButton press l = .emit { l with request := none } (starts.map (.rotate .button)) := by
  unfold processButton
  cases waiting : press.or l.request with
  | none =>
      refine ⟨2, [], rfl, ?_⟩
      have unset : l.request = none := (Option.or_eq_none_iff.mp waiting).2
      show Machine.Turn.pure l = .pure { l with request := none }
      rw [← unset]
  | some direction =>
      cases direction with
      | cw => exact ⟨3, [.cw], rfl, rfl⟩
      | ccw => exact ⟨4, [.ccw], rfl, rfl⟩

/-! ### What happened last -/

section Events

variable {events : List PressEvent} {direction other : Rotation}

theorem lastPressed_pressed : lastPressed (events ++ [.pressed direction]) = some direction := by
  unfold lastPressed
  rw [List.filterMap_append]
  exact List.getLast?_concat

theorem lastPressed_started : lastPressed (events ++ [.started direction]) = lastPressed events := by
  unfold lastPressed
  rw [List.filterMap_append]
  exact congrArg List.getLast? (List.append_nil _)

/-- A press that nothing follows does not win. -/
theorem not_wins_pressed : ¬ LastPressWins (events ++ [.pressed direction]) := by
  intro wins
  have last := wins direction lastPressed_pressed
  rw [List.getLast?_concat] at last
  cases last

/-- A start serves the last press exactly if it is in its direction. -/
theorem wins_started_iff (pressed : lastPressed events = some other) :
    LastPressWins (events ++ [.started direction]) ↔ direction = other := by
  constructor
  · intro wins
    have last := wins other (lastPressed_started.trans pressed)
    rw [List.getLast?_concat] at last
    exact PressEvent.started.inj (Option.some.inj last)
  · rintro rfl found latest
    rw [lastPressed_started, pressed] at latest
    rw [List.getLast?_concat, Option.some.inj latest]

end Events

/-! ### What a step keeps -/

variable {s : ButtonLoop}

/-- What `request` says of the last press, and what the loop has read of it. -/
structure Waits (s : ButtonLoop) : Prop where
  latest : ∀ direction, s.request = some direction → lastPressed s.events = some direction
  decided : s.point.rotating = true → s.request ≠ none
  waiting : (∀ direction, s.point ≠ .clear direction) → s.request ≠ none → ¬ LastPressWins s.events

/-- The last press wins, or it waits to be served. -/
structure Served (s : ButtonLoop) : Prop where
  none : s.request = none → LastPressWins s.events
  clear : ∀ direction, s.point = .clear direction → s.request = some direction ∧ LastPressWins s.events

/-- The last press does not win, and the loop has served it or is about to think so. -/
structure Lost (s : ButtonLoop) : Prop where
  fails : ¬ LastPressWins s.events
  done : s.Idle ∨ ∃ direction, s.point = .clear direction

/-- Nothing waits. -/
theorem waits_unset (events : List PressEvent) : Waits ⟨none, .testCw, events⟩ := by
  refine ⟨fun _ found => ?_, fun rotating => ?_, fun _ there => absurd rfl there⟩
  · cases found
  · cases rotating

theorem press_waits (direction : Option Rotation) (waits : Waits s) : Waits (s.press direction) := by
  cases direction with
  | none => exact waits
  | some direction =>
      refine ⟨fun other latest => ?_, fun _ => Option.some_ne_none direction, fun _ _ => not_wins_pressed⟩
      exact lastPressed_pressed.trans latest

/-- A test that finds no request leads on to the other test. -/
theorem request_of_test {request : Option Rotation} {direction : Rotation} {other : LoopPoint}
    (idle : other.rotating = false)
    (rotating : (if request = some direction then .rotate direction else other).rotating = true) :
    request ≠ none := by
  intro unset
  rw [unset, if_neg (Option.some_ne_none direction).symm, idle] at rotating
  cases rotating

theorem test_ne_clear {request : Option Rotation} {direction cleared : Rotation} {other : LoopPoint}
    (open' : other ≠ .clear cleared) :
    (if request = some direction then .rotate direction else other) ≠ LoopPoint.clear cleared := by
  split
  · exact fun same => by cases same
  · exact open'

theorem loop_waits (waits : Waits s) : Waits s.loop := by
  obtain ⟨latest, decided, waiting⟩ := waits
  obtain ⟨request, point, events⟩ := s
  have open' : ∀ next : LoopPoint, (∀ direction, point ≠ .clear direction) →
      (next.rotating = true → request ≠ none) → Waits ⟨request, next, events⟩ :=
    fun next before decided => ⟨latest, decided, fun _ => waiting before⟩
  unfold ButtonLoop.loop
  cases point with
  | testCw | testCcw =>
      exact open' _ (fun _ same => by cases same) fun rotating => request_of_test rfl rotating
  | rotate direction =>
      refine ⟨fun other found => lastPressed_started.trans (latest other found), fun _ => decided rfl, ?_⟩
      exact fun outside => absurd rfl (outside direction)
  | clear direction => exact waits_unset events

theorem softReset_waits (waits : Waits s) : Waits s.softReset := by
  obtain ⟨request, point, events⟩ := s
  unfold ButtonLoop.softReset
  by_cases first : point = .testCw
  · rw [if_pos first, first]
    exact waits_unset events
  · rwa [if_neg first]

theorem waits_step (step : PressStep) (s : ButtonLoop) (waits : Waits s) : Waits (step.step s) := by
  cases step with
  | interrupt pinc1 pinc2 => exact press_waits (pcint1Vect pinc1 pinc2) waits
  | loop => exact loop_waits waits
  | softReset => exact softReset_waits waits

/-- A step that does not lose a press leaves the last one served or waiting. -/
theorem served_step (step : PressStep) (waits : Waits s) (served : Served s) (kept : ¬ step.Loses s) :
    Served (step.step s) := by
  obtain ⟨none', clear⟩ := served
  obtain ⟨latest, decided, -⟩ := waits
  obtain ⟨request, point, events⟩ := s
  cases step with
  | interrupt pinc1 pinc2 =>
      simp only [PressStep.step]
      cases pressed : pcint1Vect pinc1 pinc2 with
      | none => exact ⟨none', clear⟩
      | some direction =>
          refine ⟨fun found => absurd found (Option.some_ne_none direction), fun other at' => ?_⟩
          have running : point = .clear other := at'
          subst running
          refine absurd ?_ kept
          exact fun none' => by cases pressed.symm.trans none'
  | loop =>
      simp only [PressStep.step, ButtonLoop.loop]
      cases point with
      | testCw | testCcw =>
          refine ⟨none', fun direction at' => absurd at' (test_ne_clear fun same => ?_)⟩
          cases same
      | rotate direction =>
          have same : request = some direction := not_not.mp kept
          refine ⟨fun found => absurd found (decided rfl), fun other at' => ?_⟩
          cases at'
          exact ⟨same, (wins_started_iff (latest direction same)).mpr rfl⟩
      | clear direction =>
          exact ⟨fun _ => (clear direction rfl).2, fun other at' => by cases at'⟩
  | softReset =>
      simp only [PressStep.step, ButtonLoop.softReset]
      by_cases first : point = .testCw
      · subst first
        rw [if_pos rfl]
        have unset : request = none := not_not.mp kept
        exact ⟨fun _ => none' unset, fun other at' => by cases at'⟩
      · rw [if_neg first]
        exact ⟨none', clear⟩

/-- A step that loses a press leaves it lost. -/
theorem lost_of_loses (step : PressStep) (waits : Waits s) (loses : step.Loses s) : Lost (step.step s) := by
  obtain ⟨latest, decided, waiting⟩ := waits
  obtain ⟨request, point, events⟩ := s
  cases step with
  | interrupt pinc1 pinc2 =>
      simp only [PressStep.step]
      cases point with
      | testCw | testCcw | rotate direction => exact absurd loses not_false
      | clear direction =>
          obtain ⟨pressed, found⟩ := Option.ne_none_iff_exists'.mp loses
          rw [found]
          exact ⟨not_wins_pressed, Or.inr ⟨direction, rfl⟩⟩
  | loop =>
      cases point with
      | testCw | testCcw | clear direction => exact absurd loses not_false
      | rotate direction =>
          obtain ⟨pressed, rfl⟩ := Option.ne_none_iff_exists'.mp (decided rfl)
          refine ⟨fun wins => loses ?_, Or.inr ⟨direction, rfl⟩⟩
          rw [(wins_started_iff (latest pressed rfl)).mp wins]
  | softReset =>
      cases point with
      | testCcw | rotate direction | clear direction => exact absurd loses not_false
      | testCw =>
          exact ⟨waiting (fun _ same => by cases same) loses, Or.inl ⟨rfl, rfl⟩⟩

/-- A lost press stays lost until the loop is idle. -/
theorem lost_step (step : PressStep) (lost : Lost s) {direction : Rotation}
    (running : s.point = .clear direction) : Lost (step.step s) := by
  obtain ⟨request, point, events⟩ := s
  obtain rfl : point = .clear direction := running
  cases step with
  | interrupt pinc1 pinc2 =>
      simp only [PressStep.step]
      cases pcint1Vect pinc1 pinc2 with
      | none => exact lost
      | some pressed => exact ⟨not_wins_pressed, Or.inr ⟨direction, rfl⟩⟩
  | loop => exact ⟨lost.fails, Or.inl ⟨rfl, rfl⟩⟩
  | softReset => exact lost

/-! ### Whole runs -/

/-- Once the loop has left the rotation, it has been idle with the press lost. -/
theorem lost_run (rest : List PressStep) (lost : Lost s)
    (left : (After PressStep.step rest s).point.rotating = false) :
    ∃ front, front <+: rest ∧ (After PressStep.step front s).Idle ∧
      ¬ LastPressWins (After PressStep.step front s).events := by
  induction rest generalizing s with
  | nil =>
      refine ⟨[], List.nil_prefix, ?_, lost.fails⟩
      rcases lost.done with idle | ⟨direction, running⟩
      · exact idle
      · rw [After, List.foldl_nil, running] at left
        cases left
  | cons step rest later =>
      rcases lost.done with idle | ⟨direction, running⟩
      · exact ⟨[], List.nil_prefix, idle, lost.fails⟩
      · obtain ⟨front, inside, found⟩ := later (lost_step step lost running) left
        exact ⟨step :: front, List.cons_prefix_cons.mpr ⟨rfl, inside⟩, found⟩

theorem waits_run (steps : List PressStep) : Waits (After PressStep.step steps .start) :=
  after_holds PressStep.step Waits waits_step steps (waits_unset [])

/-- **The last press wins whenever the loop is idle, exactly if no press is lost in a rotation that the loop
leaves, or in a reset.** -/
theorem last_press_wins_iff (steps : List PressStep) :
    (∀ done, done <+: steps → (After PressStep.step done .start).Idle →
        LastPressWins (After PressStep.step done .start).events) ↔
      ∀ done next rest, done ++ next :: rest <+: steps →
        next.Loses (After PressStep.step done .start) →
        (After PressStep.step (done ++ next :: rest) .start).point.rotating = true := by
  constructor
  · intro wins done next rest inside loses
    by_contra left
    have lost := lost_of_loses next (waits_run done) loses
    have whole := after_append PressStep.step done (next :: rest) .start
    rw [whole, after_cons] at left
    obtain ⟨front, before, idle, fails⟩ := lost_run rest lost (Bool.eq_false_of_not_eq_true left)
    have front' := after_append PressStep.step done (next :: front) .start
    rw [after_cons] at front'
    rw [← front'] at idle fails
    refine fails (wins _ (List.IsPrefix.trans ?_ inside) idle)
    exact (List.prefix_append_right_inj done).mpr (List.cons_prefix_cons.mpr ⟨rfl, before⟩)
  · intro kept done inside idle
    have served : Waits (After PressStep.step done .start) ∧ Served (After PressStep.step done .start) := by
      refine after_holds_of PressStep.step (fun s => Waits s ∧ Served s) (fun next s => ¬ next.Loses s)
        (fun next s held safe => ?_) done ?_ fun front next split loses => ?_
      · exact ⟨waits_step next s held.1, served_step next held.1 held.2 safe⟩
      · refine ⟨waits_run [], fun _ direction found => ?_, fun direction at' => by cases at'⟩
        cases found
      · obtain ⟨rest, rfl⟩ := split
        rw [List.append_assoc] at inside idle
        have rotating := kept front next rest inside loses
        exact Bool.false_ne_true (idle.1.symm.trans rotating)
    exact served.2.none idle.2

/-- The door is locked at the button, and unlocked at the button while the motor runs. -/
def pressedDuringRotation : List PressStep :=
  [.interrupt false true, .loop, .loop, .interrupt true false, .loop]

/-- The second press is lost. -/
theorem second_press_lost :
    ¬ ∀ steps : List PressStep, (After PressStep.step steps .start).Idle →
      LastPressWins (After PressStep.step steps .start).events := by
  intro wins
  have last := wins pressedDuringRotation ⟨rfl, rfl⟩ .ccw rfl
  cases last

end Esloq
