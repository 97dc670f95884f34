/-
**Turning the bolt (`motor_control.c`, `dc_motor.c`, `timer.c`).**

A rotation drives one of the two motor pins until the current sense reports a jam or the timer has
overflown often enough. `TIMER0_OVF_vect` counts the overflows and falls between any two statements, but
not into `timer_get_8bit_ovf`, which reads its two bytes with interrupts disabled. The stores to the
counter are whole: the timer has been reset just before.

* `Motor.tick` — one statement of a rotation, or the next call while none is running.
* `Motor.Expected` — the invariant, one line for each statement: the pins, and how often the timer has
  overflown there at most.
* `motor_safe` — in every state of every sequence of rotations at most one pin is high, and that of the
  rotation's direction; nothing is driven between rotations; no rotation outlasts 1228 overflows, ten
  seconds; and with a jam it ends within 411 statements, most of which are the start-up delay.
-/

import Esloq.Firmware.Lock
import Esloq.Lib.Progress

namespace Esloq

open Prefixes

/-! ### The statements -/

/-- `MOTOR_TIMER_THRESHOLD`: ten seconds, in overflows of a timer that counts to 256 every 256 clocks. -/
def motorTimerThreshold : Nat := 8000000 / 256 / 256 * 10000 / 1000 - 1

/-- The next statement of `motor_ctrl_rotate_cw` or `motor_ctrl_rotate_ccw`. -/
inductive MotorPoint
  /-- No rotation is running. -/
  | idle
  /-- The other pin goes low, then the direction's goes high. -/
  | stopOther
  | turn
  /-- `timer_8bit_start`. -/
  | startClock
  | clearOvf
  | enableOvf
  /-- `_delay_ms(400)`, one millisecond a time; an overflow takes eight. -/
  | delay (ms : Nat)
  | enableCurrentSense
  /-- `bit_is_set(PINB,0)`. -/
  | testAlert
  /-- `timer_get_8bit_ovf`. -/
  | cli
  | loadLow
  | loadHigh (low : UInt8)
  | sei (copy : UInt16)
  /-- `< MOTOR_TIMER_THRESHOLD`. -/
  | compare (copy : UInt16)
  | stopClock
  | disableCurrentSense
  | halt
  deriving DecidableEq

/-- The registers and variables of the motor and its timer. -/
structure Motor where
  point : MotorPoint
  direction : Rotation
  m1 : Bool
  m2 : Bool
  currentSense : Bool
  clock : Bool
  /-- `TOIE0`, which nothing clears. -/
  ovfInterrupts : Bool
  /-- The bit `I` of `SREG`. -/
  interrupts : Bool
  /-- `timer_8bit_ovf`. -/
  ovf : UInt16
  /-- The overflows that have been counted since the rotation was called. -/
  overflows : Nat
  deriving DecidableEq

/-- What comes from outside: the alert pin, whether the timer has overflown, and the next rotation. -/
structure MotorTick where
  alert : Bool
  overflow : Bool
  call : Option Rotation
  deriving DecidableEq

/-- The two bytes of a word. -/
def lowByte (word : UInt16) : UInt8 := UInt8.ofNat (word.toNat % 256)

def highByte (word : UInt16) : UInt8 := UInt8.ofNat (word.toNat / 256)

def wordOf (low high : UInt8) : UInt16 := UInt16.ofNat (256 * high.toNat + low.toNat)

namespace Motor

/-- After `motor_ctrl_init`. -/
def start : Motor := ⟨.idle, .cw, false, false, false, false, false, true, 0, 0⟩

/-- `TIMER0_OVF_vect`, where the interrupt is enabled. -/
def timer0OvfVect (m : Motor) : Motor :=
  if m.ovfInterrupts && m.interrupts then { m with ovf := m.ovf + 1, overflows := m.overflows + 1 } else m

/-- The next statement. The alert pin is low when the motor is jammed. -/
def statement (t : MotorTick) (m : Motor) : Motor :=
  match m.point with
  | .idle =>
      match t.call with
      | some direction => { m with direction := direction, point := .stopOther, overflows := 0 }
      | none => m
  | .stopOther =>
      match m.direction with
      | .cw => { m with m2 := false, point := .turn }
      | .ccw => { m with m1 := false, point := .turn }
  | .turn =>
      match m.direction with
      | .cw => { m with m1 := true, point := .startClock }
      | .ccw => { m with m2 := true, point := .startClock }
  | .startClock => { m with clock := true, point := .clearOvf }
  | .clearOvf => { m with ovf := 0, point := .enableOvf }
  | .enableOvf => { m with ovfInterrupts := true, point := .delay 400 }
  | .delay 0 => { m with point := .enableCurrentSense }
  | .delay (ms + 1) => { m with point := .delay ms }
  | .enableCurrentSense => { m with currentSense := true, point := .testAlert }
  | .testAlert => { m with point := if t.alert then .cli else .stopClock }
  | .cli => { m with interrupts := false, point := .loadLow }
  | .loadLow => { m with point := .loadHigh (lowByte m.ovf) }
  | .loadHigh low => { m with point := .sei (wordOf low (highByte m.ovf)) }
  | .sei copy => { m with interrupts := true, point := .compare copy }
  | .compare copy => { m with point := if copy.toNat < motorTimerThreshold then .testAlert else .stopClock }
  | .stopClock => { m with clock := false, point := .disableCurrentSense }
  | .disableCurrentSense => { m with currentSense := false, point := .halt }
  | .halt => { m with m1 := false, m2 := false, point := .idle }

/-- An interrupt, if there is one, and the next statement. -/
def tick (t : MotorTick) (m : Motor) : Motor :=
  (if t.overflow then m.timer0OvfVect else m).statement t

/-! ### The pins -/

/-- Nothing is driven. -/
def Off (m : Motor) : Prop := m.m1 = false ∧ m.m2 = false

/-- The pin of the direction is high, and only that one. -/
def Driven (m : Motor) : Prop := m.m1 = decide (m.direction = .cw) ∧ m.m2 = decide (m.direction = .ccw)

/-- What the pins are before each statement. -/
def Pins (m : Motor) : Prop :=
  match m.point with
  | .idle | .stopOther => m.Off ∧ m.currentSense = false ∧ m.clock = false
  | .turn => m.Off
  | .halt => m.Driven ∧ m.currentSense = false ∧ m.clock = false
  | .disableCurrentSense => m.Driven ∧ m.clock = false
  | _ => m.Driven

theorem pins_isr {m : Motor} (pins : m.Pins) : m.timer0OvfVect.Pins := by
  unfold timer0OvfVect
  split
  case isTrue => exact pins
  case isFalse => exact pins

theorem pins_statement (t : MotorTick) {m : Motor} (pins : m.Pins) : (m.statement t).Pins := by
  obtain ⟨point, direction, m1, m2, currentSense, clock, ovfInterrupts, interrupts, ovf, overflows⟩ := m
  cases point with
  | idle =>
      cases called : t.call with
      | none => simpa [statement, called] using pins
      | some direction => simpa [statement, called, Pins, Off] using pins
  | stopOther => cases direction <;> simp_all [statement, Pins, Off]
  | turn => cases direction <;> simp_all [statement, Pins, Off, Driven]
  | delay ms => cases ms <;> exact pins
  | testAlert => cases alert : t.alert <;> simp_all [statement, Pins, Driven]
  | compare copy =>
      by_cases early : copy.toNat < motorTimerThreshold
      · simp only [statement, if_pos early]
        exact pins
      · simp only [statement, if_neg early]
        exact pins
  | _ => simp_all [statement, Pins, Driven, Off]

/-! ### The counter -/

/-- What is known of the counter before each statement, or with `late` being 1 behind an interrupt. -/
def Times (late : Nat) (m : Motor) : Prop :=
  match m.point with
  | .idle => m.interrupts = true
  | .stopOther => m.interrupts = true ∧ m.overflows ≤ late
  | .turn => m.interrupts = true ∧ m.overflows ≤ 1 + late
  | .startClock => m.interrupts = true ∧ m.overflows ≤ 2 + late
  | .clearOvf => m.interrupts = true ∧ m.overflows ≤ 3 + late
  | .enableOvf => m.interrupts = true ∧ m.ovf.toNat ≤ late ∧ m.overflows ≤ m.ovf.toNat + 4
  | .delay ms => m.interrupts = true ∧ ms ≤ 400 ∧ m.ovf.toNat + ms ≤ 401 + late ∧
      m.overflows ≤ m.ovf.toNat + 4
  | .enableCurrentSense =>
      m.interrupts = true ∧ m.ovf.toNat ≤ 402 + late ∧ m.overflows ≤ m.ovf.toNat + 4
  | .testAlert => m.interrupts = true ∧ m.ovf.toNat ≤ 1219 + late ∧ m.overflows ≤ m.ovf.toNat + 4
  | .cli => m.interrupts = true ∧ m.ovf.toNat ≤ 1220 + late ∧ m.overflows ≤ m.ovf.toNat + 4
  -- From here to `sei` no interrupt is served: the two bytes are of one value.
  | .loadLow => m.interrupts = false ∧ m.ovf.toNat ≤ 1221 ∧ m.overflows ≤ m.ovf.toNat + 4
  | .loadHigh low => m.interrupts = false ∧ low = lowByte m.ovf ∧ m.ovf.toNat ≤ 1221 ∧
      m.overflows ≤ m.ovf.toNat + 4
  | .sei copy => m.interrupts = false ∧ copy = m.ovf ∧ m.ovf.toNat ≤ 1221 ∧ m.overflows ≤ m.ovf.toNat + 4
  | .compare copy => m.interrupts = true ∧ m.ovf.toNat ≤ copy.toNat + late ∧ copy.toNat ≤ 1221 ∧
      m.overflows ≤ m.ovf.toNat + 4
  | .stopClock => m.interrupts = true ∧ m.ovf.toNat ≤ 1222 + late ∧ m.overflows ≤ m.ovf.toNat + 4
  | .disableCurrentSense =>
      m.interrupts = true ∧ m.ovf.toNat ≤ 1223 + late ∧ m.overflows ≤ m.ovf.toNat + 4
  | .halt => m.interrupts = true ∧ m.ovf.toNat ≤ 1224 + late ∧ m.overflows ≤ m.ovf.toNat + 4

theorem wordOf_bytes (word : UInt16) : wordOf (lowByte word) (highByte word) = word := by
  have small := word.toNat_lt
  have high : word.toNat / 256 < 256 := Nat.div_lt_of_lt_mul small
  unfold wordOf lowByte highByte
  rw [UInt8.toNat_ofNat', UInt8.toNat_ofNat', Nat.mod_mod, Nat.mod_eq_of_lt high, Nat.div_add_mod]
  exact UInt16.ofNat_toNat

/-- The counter is far from wrapping around. -/
theorem toNat_succ {ovf : UInt16} {bound : Nat} (small : ovf.toNat ≤ bound) (far : bound < 65535) :
    (ovf + 1).toNat = ovf.toNat + 1 := by
  rw [UInt16.toNat_add]
  exact Nat.mod_eq_of_lt (by show ovf.toNat + 1 < 65536; omega)

theorem times_mono {m : Motor} (times : m.Times 0) : m.Times 1 := by
  obtain ⟨point, direction, m1, m2, currentSense, clock, ovfInterrupts, interrupts, ovf, overflows⟩ := m
  cases point with
  | idle | loadLow | loadHigh low | sei copy => exact times
  | _ =>
      simp only [Times] at times ⊢
      exact ⟨times.1, by omega⟩

/-- Behind an interrupt the counter is one higher. -/
theorem times_isr {m : Motor} (times : m.Times 0) : m.timer0OvfVect.Times 1 := by
  have later := times_mono times
  obtain ⟨point, direction, m1, m2, currentSense, clock, ovfInterrupts, interrupts, ovf, overflows⟩ := m
  by_cases served : (ovfInterrupts && interrupts) = true
  · have unmasked : interrupts = true := (Bool.and_eq_true_iff.mp served).2
    simp only [timer0OvfVect, if_pos served]
    cases point with
    | loadLow | loadHigh low | sei copy => exact absurd times.1 (by simp [unmasked])
    | idle => exact unmasked
    | stopOther | turn | startClock | clearOvf => exact ⟨unmasked, Nat.succ_le_succ times.2⟩
    | _ =>
        simp only [Times] at times ⊢
        have far := @toNat_succ ovf 1224 (by omega) (by decide)
        exact ⟨unmasked, by omega⟩
  · simp only [timer0OvfVect, if_neg served]
    exact later

/-- A statement leaves what is known before the next. -/
theorem times_statement (t : MotorTick) {m : Motor} (times : m.Times 1) : (m.statement t).Times 0 := by
  obtain ⟨point, direction, m1, m2, currentSense, clock, ovfInterrupts, interrupts, ovf, overflows⟩ := m
  cases point with
  | idle =>
      cases called : t.call with
      | none =>
          simp only [statement, called]
          exact times
      | some direction =>
          simp only [statement, called]
          exact ⟨times, Nat.le_refl 0⟩
  | stopOther => cases direction <;> exact times
  | turn => cases direction <;> exact times
  | startClock => exact times
  | clearOvf => exact ⟨times.1, Nat.le_refl 0, times.2⟩
  | enableOvf =>
      obtain ⟨unmasked, few, counted⟩ := times
      exact ⟨unmasked, Nat.le_refl 400, Nat.add_le_add_right few 400, counted⟩
  | delay ms =>
      obtain ⟨unmasked, short, few, counted⟩ := times
      cases ms with
      | zero => exact ⟨unmasked, few, counted⟩
      | succ ms =>
          have left : ovf.toNat + (ms + 1) ≤ 402 := few
          exact ⟨unmasked, Nat.le_of_succ_le short, Nat.le_of_succ_le_succ left, counted⟩
  | enableCurrentSense =>
      obtain ⟨unmasked, few, counted⟩ := times
      exact ⟨unmasked, few.trans (by decide), counted⟩
  | testAlert =>
      obtain ⟨unmasked, few, counted⟩ := times
      cases alert : t.alert with
      | false =>
          simp only [statement, alert]
          exact ⟨unmasked, few.trans (by decide), counted⟩
      | true =>
          simp only [statement, alert, if_true]
          exact ⟨unmasked, few, counted⟩
  | cli => exact ⟨rfl, times.2⟩
  | loadLow => exact ⟨times.1, rfl, times.2⟩
  | loadHigh low =>
      obtain ⟨masked, loaded, few⟩ := times
      have same : wordOf low (highByte ovf) = ovf :=
        (congrArg (wordOf · (highByte ovf)) loaded).trans (wordOf_bytes ovf)
      exact ⟨masked, same, few⟩
  | sei copy =>
      obtain ⟨-, rfl, few⟩ := times
      exact ⟨rfl, Nat.le_refl _, few⟩
  | compare copy =>
      obtain ⟨unmasked, same, few, counted⟩ := times
      by_cases early : copy.toNat < motorTimerThreshold
      · simp only [statement, if_pos early]
        exact ⟨unmasked, same.trans early, counted⟩
      · simp only [statement, if_neg early]
        exact ⟨unmasked, same.trans (Nat.succ_le_succ few), counted⟩
  | stopClock | disableCurrentSense => exact times
  | halt => exact times.1

/-! ### The end of a rotation -/

/-- The statements that are left when the motor is jammed. -/
def left : MotorPoint → Nat
  | .idle => 0
  | .halt => 1
  | .disableCurrentSense => 2
  | .stopClock => 3
  | .testAlert => 4
  | .enableCurrentSense => 5
  | .compare _ => 5
  | .sei _ => 6
  | .loadHigh _ => 7
  | .loadLow => 8
  | .cli => 9
  | .delay ms => ms + 6
  | .enableOvf => 407
  | .clearOvf => 408
  | .startClock => 409
  | .turn => 410
  | .stopOther => 411

theorem left_le {m : Motor} (times : m.Times 0) : left m.point ≤ 411 := by
  obtain ⟨point, direction, m1, m2, currentSense, clock, ovfInterrupts, interrupts, ovf, overflows⟩ := m
  cases point with
  | delay ms =>
      have short : ms ≤ 400 := times.2.1
      exact Nat.add_le_add_right short 11 |>.trans' (Nat.add_le_add_left (by decide) ms)
  | _ => exact of_decide_eq_true rfl

theorem left_eq_zero {point : MotorPoint} (none' : left point = 0) : point = .idle := by
  cases point <;> cases none'
  rfl

/-- A jam, and nobody calls for another rotation. -/
def Jammed (t : MotorTick) : Prop := t.alert = false ∧ t.call = none

theorem left_tick (t : MotorTick) (m : Motor) (jammed : Jammed t) : left (m.tick t).point ≤ left m.point - 1 := by
  obtain ⟨alert, call⟩ := jammed
  have isr : (if t.overflow then m.timer0OvfVect else m).point = m.point := by
    unfold timer0OvfVect
    split
    · split <;> rfl
    · rfl
  unfold tick
  rw [← isr]
  generalize (if t.overflow then m.timer0OvfVect else m) = m'
  obtain ⟨point, direction, m1, m2, currentSense, clock, ovfInterrupts, interrupts, ovf, overflows⟩ := m'
  cases point with
  | idle => simp [statement, call, left]
  | stopOther => cases direction <;> exact Nat.le_refl _
  | turn => cases direction <;> exact Nat.le_refl _
  | delay ms => cases ms <;> exact Nat.le_refl _
  | testAlert => simp [statement, alert, left]
  | compare copy =>
      by_cases early : copy.toNat < motorTimerThreshold
      · simp only [statement, if_pos early]
        exact Nat.le_refl _
      · simp only [statement, if_neg early]
        exact Nat.le_succ 3
  | _ => exact Nat.le_refl _

/-! ### Every sequence of rotations -/

/-- What holds before each statement. -/
structure Expected (m : Motor) : Prop where
  pins : m.Pins
  times : m.Times 0

theorem expected_tick (t : MotorTick) {m : Motor} (expected : m.Expected) : (m.tick t).Expected := by
  obtain ⟨pins, times⟩ := expected
  unfold tick
  by_cases overflown : t.overflow = true
  · rw [if_pos overflown]
    exact ⟨pins_statement t (pins_isr pins), times_statement t (times_isr times)⟩
  · rw [if_neg overflown]
    exact ⟨pins_statement t pins, times_statement t (times_mono times)⟩

theorem progresses : Approaches tick Expected Jammed (fun m => left m.point) where
  keeps t _ expected := expected_tick t expected
  falls t m _ jammed := left_tick t m jammed

/-- What is safe about the motor. -/
structure Safe (m : Motor) : Prop where
  /-- A high pin is that of the direction, so the two are never high together. -/
  cw : m.m1 = true → m.direction = .cw
  ccw : m.m2 = true → m.direction = .ccw
  /-- Between rotations nothing is driven, measured or counted. -/
  rests : m.point = .idle → m.Off ∧ m.currentSense = false ∧ m.clock = false
  /-- A rotation ends after ten seconds: the threshold, and what falls into its last statements. -/
  ends : m.point ≠ .idle → m.overflows ≤ motorTimerThreshold + 9
  /-- It ends at a jam that lasts. -/
  jams : ∀ ticks : List MotorTick, (∀ t ∈ ticks, Jammed t) → 411 ≤ ticks.length →
    (After tick ticks m).point = .idle

theorem off_or_driven {m : Motor} (pins : m.Pins) : m.Off ∨ m.Driven := by
  unfold Pins at pins
  split at pins
  · exact Or.inl pins.1
  · exact Or.inl pins.1
  · exact Or.inl pins
  · exact Or.inr pins.1
  · exact Or.inr pins.1
  · exact Or.inr pins

theorem Times.overflows_le {m : Motor} (times : m.Times 0) (running : m.point ≠ .idle) :
    m.overflows ≤ 1228 := by
  unfold Times at times
  split at times <;> first | contradiction | omega

end Motor

/-- **The motor is safe in every state of every sequence of rotations**, whatever the timer and the alert pin
do. -/
theorem motor_safe (ticks : List MotorTick) : (After Motor.tick ticks Motor.start).Safe := by
  have expected : (After Motor.tick ticks Motor.start).Expected :=
    after_holds Motor.tick Motor.Expected (fun t _ => Motor.expected_tick t) ticks
      ⟨⟨⟨rfl, rfl⟩, rfl, rfl⟩, rfl⟩
  generalize After Motor.tick ticks Motor.start = m at expected
  have pins := Motor.off_or_driven expected.pins
  refine ⟨fun high => ?_, fun high => ?_, fun idle => ?_, expected.times.overflows_le, ?_⟩
  · rcases pins with ⟨low, -⟩ | ⟨own, -⟩
    · exact absurd (low.symm.trans high) (by decide)
    · exact of_decide_eq_true (own.symm.trans high)
  · rcases pins with ⟨-, low⟩ | ⟨-, own⟩
    · exact absurd (low.symm.trans high) (by decide)
    · exact of_decide_eq_true (own.symm.trans high)
  · have rests := expected.pins
    unfold Motor.Pins at rests
    rwa [idle] at rests
  · intro later jammed long
    have most : Motor.left m.point ≤ 411 := Motor.left_le expected.times
    exact Motor.left_eq_zero (after_reaches Motor.progresses later expected jammed (most.trans long))

end Esloq
