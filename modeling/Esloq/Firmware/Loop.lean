/-
**The main loop (`main`, `ble_process_packet`, `soft_reset`).**

One input is one pass of `while (1)`: what the battery monitor says, what `ble_process_packet`
finds, whether a button was pressed, and whether the supply or a reset cut the pass short. `loopBody`
is that pass and `mainRun` the passes of a list of inputs.

* `loopBody_cases` — a pass is whole or cut.
* `loopBody_sound` — a property of `fsm_process`, of a packet and of a reset is one of the pass,
  wherever the pass is cut; `Sound.run` makes it one of every run.
-/

import Esloq.Firmware.Process

namespace Esloq

open Machine

/-- What `ble_process_packet` finds: nothing within the timeout, a message, or an error. -/
inductive Received
  | timeout
  | msg (msg : BgapiMsg)
  | error
  deriving DecidableEq

/-- One pass of the main loop: what the code cannot choose. -/
structure Iteration where
  /-- What `battery_monitor_alert` returns. -/
  lowBattery : Bool
  packet : Received
  /-- A button press, stored by the interrupt routine before the request is looked at. -/
  press : Option Rotation
  /-- The number of effects after which a power cycle or a watchdog reset ends the pass. -/
  cut : Option Nat
  deriving DecidableEq

/-- The rotation a button asks for, at the end of the loop. -/
def processButton (press : Option Rotation) (l : Lock) : LockTurn :=
  match press.or l.request with
  | some direction => .emit { l with request := none } [.rotate .button direction]
  | none => .pure l

/-- `ble_process_packet` and the rest of the loop; an error is a `soft_reset`. -/
def processPacket (packet : Received) (press : Option Rotation) (l : Lock) : LockTurn :=
  match packet with
  | .timeout => processButton press l
  | .msg msg => (bleHandler msg l).andThen (processButton press)
  | .error => .emit (powerUp l) [.softReset]

/-- A pass that ends after some of its effects: the EEPROM keeps what was written. -/
def resetAfter (l : Lock) (done : List Effect) : LockTurn :=
  .emit (powerUp (writeBack l done)) (done ++ [.softReset])

/-- The body of `while (1)` up to its end. -/
def wholeBody (box : Secretbox) (it : Iteration) (l : Lock) : LockTurn :=
  (fsmProcess box it.lowBattery l).andThen (processPacket it.packet it.press)

/-- The body of `while (1)`. A pass can be cut anywhere before it ends, or at its end. -/
def loopBody (box : Secretbox) (it : Iteration) (l : Lock) : LockTurn :=
  let whole := wholeBody box it l
  match it.cut with
  | none => whole
  | some count =>
      if whole.fault = none ∨ count < whole.events.length then
        resetAfter l (whole.events.take count)
      else whole

/-- The passes of the main loop after each other, up to the first access outside an array. -/
def mainRun (box : Secretbox) (its : List Iteration) (l : Lock) : LockTurn :=
  run (loopBody box) its l

/-! ### What holds of a pass -/

/-- A pass runs to its end, or it is cut where it had not faulted. -/
theorem loopBody_cases (box : Secretbox) (it : Iteration) (l : Lock) :
    loopBody box it l = wholeBody box it l ∨
      ∃ done rest, (wholeBody box it l).events = done ++ rest ∧
        ((wholeBody box it l).fault = none ∨ rest ≠ []) ∧ loopBody box it l = resetAfter l done := by
  cases cut : it.cut with
  | none =>
      left
      simp only [loopBody, cut]
  | some count =>
      by_cases inside : (wholeBody box it l).fault = none ∨ count < (wholeBody box it l).events.length
      · right
        refine ⟨_, _, (List.take_append_drop count _).symm, inside.imp id fun less => ?_, ?_⟩
        · exact fun nothing => absurd (List.drop_eq_nil_iff.mp nothing) (by omega)
        · simp only [loopBody, cut, if_pos inside]
      · left
        simp only [loopBody, cut, if_neg inside]

section Sound

variable {Inv : List Effect → Lock → Prop} {Emit : List Effect → Effect → Prop}
  {Stop : List Effect → Fault → Prop} {box : Secretbox}

/-- A property of the parts of a pass, and of a reset after any beginning of it, is one of the
pass. -/
theorem loopBody_sound
    (fsm : ∀ lowBattery, Sound Inv Emit Stop (fsmProcess box lowBattery))
    (packet : ∀ received press, Sound Inv Emit Stop (processPacket received press))
    (reset : ∀ done past l, Inv past l → AlwaysFrom Emit past done →
      AlwaysFrom Emit past (done ++ [.softReset]) ∧
        Inv (past ++ (done ++ [.softReset])) (powerUp (writeBack l done)))
    (it : Iteration) : Sound Inv Emit Stop (loopBody box it) := by
  have whole : Sound Inv Emit Stop (wholeBody box it) :=
    (fsm it.lowBattery).andThen (packet it.packet it.press)
  intro past l related
  have every := whole past l related
  rcases loopBody_cases box it l with same | ⟨done, rest, split, -, same⟩
  · rw [same]
    exact every
  · have begun := every.emits
    rw [split, alwaysFrom_append] at begun
    obtain ⟨emits, keeps⟩ := reset done past l related begun.1
    rw [same]
    exact .emit emits keeps

end Sound

end Esloq
