/-
**Sleeping until the Bluetooth module calls (`power_down`, `INT0_vect`).**

The module pulls the wake-up pin low when it has something to send. A low level is an interrupt, and the
routine disables it; it must not be served between the test of the pin and `sleep_cpu`, or the lock sleeps
on while the module waits.

* `Mcu.tick` — one instruction, or one interrupt: none is served with `cli`, nor directly after `sei` or
  after another interrupt.
* `Mcu.Expected` — the invariant, one line for each statement of `power_down`.
* `power_down_wakes` — whatever interrupts fall into it, the processor never sleeps with the wake-up pin
  disabled, so from every state of every run `power_down` returns once the pin stays low, with all that it
  turned off turned on again.
-/

import Esloq.Lib.Progress

namespace Esloq

open Prefixes

/-! ### The statements and the interrupts -/

/-- The next statement of `power_down`. -/
inductive PowerPoint
  | uartNotReadyToReceive
  | bleSleep
  | batteryMonitorDisable
  | cli
  /-- `if (PIND & (1<<PIND2))`. -/
  | testPin
  | wakeupPinEnable
  | sleepEnable
  | sei
  | sleepCpu
  /-- The processor has stopped in `sleep_cpu`. -/
  | asleep
  | sleepDisable
  /-- `sei` behind the block. -/
  | seiBehind
  | batteryMonitorEnable
  | bleWakeup
  | uartReadyToReceive
  | returned
  deriving DecidableEq

/-- The registers that `power_down` uses. -/
structure Mcu where
  point : PowerPoint
  /-- The bit `I` of `SREG`. -/
  interrupts : Bool
  /-- After `sei` and after an interrupt routine the next instruction comes before any interrupt. -/
  shadow : Bool
  /-- `INT0` in `EIMSK`. -/
  wakeupPin : Bool
  /-- `SE`; without it `sleep_cpu` does nothing. -/
  sleepEnabled : Bool
  /-- `PINC4`: high, not ready to receive. -/
  rts : Bool
  /-- `PINC3`: high, the module is kept awake. -/
  bleAwake : Bool
  batteryMonitor : Bool
  deriving DecidableEq

/-- What comes from outside: whether the wake-up pin is low, and whether another interrupt waits. The routines
of the others touch none of these registers. -/
structure Tick where
  low : Bool
  other : Bool
  deriving DecidableEq

namespace Mcu

/-- The next statement. -/
def statement (low : Bool) (m : Mcu) : Mcu :=
  match m.point with
  | .uartNotReadyToReceive => { m with rts := true, point := .bleSleep }
  | .bleSleep => { m with bleAwake := false, point := .batteryMonitorDisable }
  | .batteryMonitorDisable => { m with batteryMonitor := false, point := .cli }
  | .cli => { m with interrupts := false, point := .testPin }
  | .testPin => { m with point := if low then .seiBehind else .wakeupPinEnable }
  | .wakeupPinEnable => { m with wakeupPin := true, point := .sleepEnable }
  | .sleepEnable => { m with sleepEnabled := true, point := .sei }
  | .sei => { m with interrupts := true, shadow := true, point := .sleepCpu }
  | .sleepCpu => { m with point := if m.sleepEnabled then .asleep else .sleepDisable }
  | .asleep => m
  | .sleepDisable => { m with sleepEnabled := false, point := .seiBehind }
  | .seiBehind => { m with interrupts := true, shadow := true, point := .batteryMonitorEnable }
  | .batteryMonitorEnable => { m with batteryMonitor := true, point := .bleWakeup }
  | .bleWakeup => { m with bleAwake := true, point := .uartReadyToReceive }
  | .uartReadyToReceive => { m with rts := false, point := .returned }
  | .returned => m

/-- After an interrupt the processor goes on behind `sleep_cpu`, or where it was. -/
def awake (m : Mcu) : Mcu :=
  { m with shadow := true, point := if m.point = .asleep then .sleepDisable else m.point }

/-- `INT0_vect`: `wakeup_pin_disable`. -/
def int0Vect (m : Mcu) : Mcu := { m with wakeupPin := false }

/-- An interrupt can be served. -/
def serves (m : Mcu) : Bool := m.interrupts && !m.shadow

/-- The next thing that happens; an interrupt that waits comes before the next statement. -/
def tick (t : Tick) (m : Mcu) : Mcu :=
  if m.serves && m.wakeupPin && t.low then m.int0Vect.awake
  else if m.serves && t.other then m.awake
  else { m with shadow := false }.statement t.low

/-- A call of `power_down` by the main loop, which runs with interrupts enabled. -/
structure Called (m : Mcu) : Prop where
  point : m.point = .uartNotReadyToReceive
  interrupts : m.interrupts = true
  sleepEnabled : m.sleepEnabled = false

/-! ### The invariant -/

/-- What is turned off for the time of the sleep. -/
def Quiet (m : Mcu) : Prop := m.rts = true ∧ m.bleAwake = false ∧ m.batteryMonitor = false

/-- What holds before each statement. -/
def Expected (m : Mcu) : Prop :=
  match m.point with
  | .uartNotReadyToReceive => m.interrupts = true ∧ m.sleepEnabled = false
  | .bleSleep => m.interrupts = true ∧ m.sleepEnabled = false ∧ m.rts = true
  | .batteryMonitorDisable =>
      m.interrupts = true ∧ m.sleepEnabled = false ∧ m.rts = true ∧ m.bleAwake = false
  | .cli => m.interrupts = true ∧ m.sleepEnabled = false ∧ m.Quiet
  | .testPin | .wakeupPinEnable => m.interrupts = false ∧ m.sleepEnabled = false ∧ m.Quiet
  | .sleepEnable => m.interrupts = false ∧ m.wakeupPin = true ∧ m.sleepEnabled = false ∧ m.Quiet
  | .sei => m.interrupts = false ∧ m.wakeupPin = true ∧ m.sleepEnabled = true ∧ m.Quiet
  -- The shadow of `sei` covers `sleep_cpu`: what waits is served after the processor has stopped.
  | .sleepCpu => m.shadow = true ∧ m.interrupts = true ∧ m.wakeupPin = true ∧ m.sleepEnabled = true ∧ m.Quiet
  | .asleep => m.shadow = false ∧ m.interrupts = true ∧ m.wakeupPin = true ∧ m.sleepEnabled = true ∧ m.Quiet
  | .sleepDisable => m.interrupts = true ∧ m.Quiet
  | .seiBehind => m.sleepEnabled = false ∧ m.Quiet
  | .batteryMonitorEnable => m.interrupts = true ∧ m.sleepEnabled = false ∧ m.Quiet
  | .bleWakeup =>
      m.interrupts = true ∧ m.sleepEnabled = false ∧ m.rts = true ∧ m.batteryMonitor = true
  | .uartReadyToReceive =>
      m.interrupts = true ∧ m.sleepEnabled = false ∧ m.bleAwake = true ∧ m.batteryMonitor = true
  | .returned => m.interrupts = true ∧ m.sleepEnabled = false ∧ m.rts = false ∧ m.bleAwake = true ∧
      m.batteryMonitor = true

theorem Called.expected {m : Mcu} (called : m.Called) : m.Expected := by
  unfold Expected
  rw [called.point]
  exact ⟨called.interrupts, called.sleepEnabled⟩

/-- The next statement keeps the invariant. -/
theorem expected_statement (low : Bool) {m : Mcu} (expected : m.Expected) :
    ({ m with shadow := false }.statement low).Expected := by
  obtain ⟨point, interrupts, shadow, wakeupPin, sleepEnabled, rts, bleAwake, batteryMonitor⟩ := m
  cases point with
  | testPin => cases low <;> simp_all [statement, Expected, Quiet]
  | _ => simp_all [statement, Expected, Quiet]

theorem serves_iff {m : Mcu} : m.serves = true ↔ m.interrupts = true ∧ m.shadow = false := by
  simp [serves]

/-- Where an interrupt is served, nothing depends on the wake-up pin, and the sleep ends. -/
theorem expected_awake (wakeupPin : Bool) {m : Mcu} (expected : m.Expected) (served : m.serves = true) :
    ({ m with wakeupPin := wakeupPin }.awake).Expected := by
  obtain ⟨unmasked, behind⟩ := serves_iff.mp served
  obtain ⟨point, interrupts, shadow, pin, sleepEnabled, rts, bleAwake, batteryMonitor⟩ := m
  cases point <;> simp_all [awake, Expected, Quiet]

/-- What a tick is: an interrupt routine and the end of the sleep, or the next statement. -/
theorem tick_cases (t : Tick) (m : Mcu) :
    (m.serves = true ∧ ∃ wakeupPin, m.tick t = { m with wakeupPin := wakeupPin }.awake) ∨
      (m.serves = true → (m.wakeupPin && t.low) = false) ∧
        m.tick t = { m with shadow := false }.statement t.low := by
  unfold tick
  by_cases called : (m.serves && m.wakeupPin && t.low) = true
  · rw [if_pos called]
    have served : m.serves = true := by
      rw [Bool.and_assoc] at called
      exact (Bool.and_eq_true_iff.mp called).1
    exact Or.inl ⟨served, false, rfl⟩
  · rw [if_neg called]
    by_cases other : (m.serves && t.other) = true
    · rw [if_pos other]
      exact Or.inl ⟨(Bool.and_eq_true_iff.mp other).1, m.wakeupPin, rfl⟩
    · rw [if_neg other]
      refine Or.inr ⟨fun served => ?_, rfl⟩
      rw [served, Bool.true_and] at called
      exact Bool.eq_false_iff.mpr called

theorem expected_tick (t : Tick) {m : Mcu} (expected : m.Expected) : (m.tick t).Expected := by
  rcases tick_cases t m with ⟨served, wakeupPin, same⟩ | ⟨-, same⟩
  · rw [same]
    exact expected_awake wakeupPin expected served
  · rw [same]
    exact expected_statement t.low expected

/-! ### Coming back -/

/-- The statements that are left. -/
def left : PowerPoint → Nat
  | .uartNotReadyToReceive => 15
  | .bleSleep => 14
  | .batteryMonitorDisable => 13
  | .cli => 12
  | .testPin => 11
  | .wakeupPinEnable => 10
  | .sleepEnable => 9
  | .sei => 8
  | .sleepCpu => 7
  | .asleep => 6
  | .sleepDisable => 5
  | .seiBehind => 4
  | .batteryMonitorEnable => 3
  | .bleWakeup => 2
  | .uartReadyToReceive => 1
  | .returned => 0

/-- The ticks that are left: before each statement there is at most one interrupt. -/
def remaining (m : Mcu) : Nat :=
  if m.point = .returned then 0 else 2 * left m.point + (if m.shadow then 0 else 1)

theorem left_le (point : PowerPoint) : left point ≤ 15 := by
  cases point <;> decide

theorem left_eq_zero {point : PowerPoint} (none' : left point = 0) : point = .returned := by
  cases point with
  | returned => rfl
  | _ => cases none'

theorem remaining_le (m : Mcu) : m.remaining ≤ 31 := by
  have most := left_le m.point
  have shadow : (if m.shadow then 0 else 1) ≤ 1 := by
    cases m.shadow <;> decide
  unfold remaining
  by_cases ended : m.point = .returned
  · rw [if_pos ended]
    exact Nat.zero_le 31
  · rw [if_neg ended]
    omega

theorem remaining_eq_zero {m : Mcu} (none' : m.remaining = 0) : m.point = .returned := by
  unfold remaining at none'
  by_contra going
  rw [if_neg going] at none'
  exact going (left_eq_zero (by omega))

/-- While the pin is low, every tick takes one off: what sleeps is woken. -/
theorem remaining_tick (t : Tick) {m : Mcu} (expected : m.Expected) (low : t.low = true) :
    (m.tick t).remaining ≤ m.remaining - 1 := by
  rcases tick_cases t m with ⟨served, wakeupPin, same⟩ | ⟨unarmed, same⟩
  · obtain ⟨-, behind⟩ := serves_iff.mp served
    rw [same]
    obtain ⟨point, interrupts, shadow, pin, sleepEnabled, rts, bleAwake, batteryMonitor⟩ := m
    cases point <;> simp_all [awake, remaining, left]
  · rw [same]
    obtain ⟨point, interrupts, shadow, wakeupPin, sleepEnabled, rts, bleAwake, batteryMonitor⟩ := m
    cases point with
    | asleep => simp_all [serves, Expected]
    | _ => cases shadow <;> simp_all [statement, remaining, left, Expected]

theorem progresses : Approaches tick Expected (fun t : Tick => t.low = true) remaining where
  keeps t _ expected := expected_tick t expected
  falls t _ expected low := remaining_tick t expected low

/-- What a call leaves: all that was turned off is turned on again, and the next `sleep_cpu` is disarmed. -/
structure Restored (m : Mcu) : Prop where
  interrupts : m.interrupts = true
  sleepEnabled : m.sleepEnabled = false
  rts : m.rts = false
  bleAwake : m.bleAwake = true
  batteryMonitor : m.batteryMonitor = true

/-- The processor sleeps only where the pin can wake it, with the sleep bit set and all else turned off, and
comes back once the pin stays low. -/
structure Wakes (m : Mcu) : Prop where
  asleep : m.point = .asleep →
    m.serves = true ∧ m.wakeupPin = true ∧ m.sleepEnabled = true ∧ m.Quiet
  returned : m.point = .returned → m.Restored
  returns : ∀ ticks : List Tick, (∀ t ∈ ticks, t.low = true) → 31 ≤ ticks.length →
    (After tick ticks m).point = .returned

end Mcu

/-- **No call of the module is lost**: in every state of every run of `power_down`. -/
theorem power_down_wakes (m : Mcu) (called : m.Called) (ticks : List Tick) :
    (After Mcu.tick ticks m).Wakes := by
  have expected : (After Mcu.tick ticks m).Expected :=
    after_holds Mcu.tick Mcu.Expected (fun t _ => Mcu.expected_tick t) ticks called.expected
  generalize After Mcu.tick ticks m = now at expected
  refine ⟨fun sleeps => ?_, fun done => ?_, fun later low long => ?_⟩
  · unfold Mcu.Expected at expected
    rw [sleeps] at expected
    obtain ⟨shadow, interrupts, wakeupPin, sleepEnabled, quiet⟩ := expected
    exact ⟨Mcu.serves_iff.mpr ⟨interrupts, shadow⟩, wakeupPin, sleepEnabled, quiet⟩
  · unfold Mcu.Expected at expected
    rw [done] at expected
    obtain ⟨interrupts, sleepEnabled, rts, bleAwake, batteryMonitor⟩ := expected
    exact ⟨interrupts, sleepEnabled, rts, bleAwake, batteryMonitor⟩
  · exact Mcu.remaining_eq_zero
      (after_reaches Mcu.progresses later expected low (now.remaining_le.trans long))

/-- The registers when `main` calls `power_down` for the first time. -/
def firstCall : Mcu := ⟨.uartNotReadyToReceive, true, false, false, false, false, true, true⟩

/-- The pin goes low after it has been tested. -/
theorem power_down_wakes_firstCall :
    (After Mcu.tick (List.replicate 5 ⟨false, false⟩ ++ List.replicate 4 ⟨true, false⟩) firstCall).point =
        .asleep ∧
      (After Mcu.tick (List.replicate 5 ⟨false, false⟩ ++ List.replicate 4 ⟨true, false⟩) firstCall).Wakes :=
  ⟨by decide, power_down_wakes firstCall ⟨rfl, rfl, rfl⟩ _⟩

end Esloq
