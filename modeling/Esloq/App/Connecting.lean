/-
**When a lock counts as not found (`BluetoothService.java`).**

A call of `connect` for another lock than before, or after the GATT client was closed, makes a new client
and posts a runnable that gives up after 7000 ms; a client that is there is only told to connect again. A
change of the connection that succeeds and `onUnbind` take all runnables back.

* `BluetoothService.step` — a call of the service, a callback of the stack, or a millisecond.
* `Unanswered` — an attempt is so many milliseconds old, and nothing has taken its runnable back.
* `device_not_found_iff` — in every run the attempts that end with `ACTION_DEVICE_NOT_FOUND` are those that
  stay unanswered for 7000 ms, and each of them ends so once.
-/

import Esloq.Lib.Machine
import Esloq.Lib.Timers

namespace Esloq

open Machine Timers

/-! ### The service -/

/-- What the stack answers to a call of `connect`. -/
structure Radio where
  /-- `getRemoteDevice` gives a device. -/
  device : Bool
  /-- `connectGatt` gives a client. -/
  client : Bool
  /-- `BluetoothGatt.connect` starts. -/
  reconnects : Bool
  deriving DecidableEq

/-- The intents about the connection; the last one with the attempt that has failed. -/
inductive ConnectionIntent
  | error
  | connected
  | disconnected
  | deviceNotFound (attempt : ℕ)
  deriving DecidableEq

/-- What the service does. -/
inductive ConnectingEvent
  | broadcast (intent : ConnectionIntent)
  | returns (value : Bool)
  | connectGatt (address : String)
  | reconnect
  | disconnect
  | discoverServices
  | close
  | nullPointer
  deriving DecidableEq

/-- The calls of the service and of its callback. -/
inductive ConnectingInput
  /-- `initialize`, with whether there are a manager and an adapter. -/
  | initialise (manager adapter : Bool)
  | connect (address : Option String) (radio : Radio)
  | disconnect
  | onConnectionStateChange (status newState : Int)
  | onUnbind
  | millisecond
  deriving DecidableEq

/-- `BluetoothService`. -/
structure BluetoothService where
  /-- `mBluetoothManager` is set. -/
  bluetoothManager : Bool
  /-- `mBluetoothAdapter` is set. -/
  bluetoothAdapter : Bool
  bluetoothDeviceAddress : Option String
  /-- `bluetoothGatt` is set. -/
  bluetoothGatt : Bool
  /-- How many clients there have been. -/
  attempts : ℕ
  handler : Handler ℕ
  deriving DecidableEq

/-- What a call leaves. -/
abbrev ConnectingTurn := Turn BluetoothService ConnectingEvent Empty

/-- `CONNECT_PERIOD_MS`. -/
def connectPeriodMs : ℕ := 7000

/-- `BluetoothGatt.GATT_SUCCESS`. -/
def gattSuccess : Int := 0

/-- `BluetoothProfile.STATE_CONNECTED`. -/
def stateConnected : Int := 2

/-- `BluetoothProfile.STATE_DISCONNECTED`. -/
def stateDisconnected : Int := 0

namespace BluetoothService

/-- The service when it is created. -/
def created : BluetoothService := ⟨false, false, none, false, 0, []⟩

variable (service : BluetoothService)

def initialise (manager adapter : Bool) : ConnectingTurn :=
  if service.bluetoothManager || manager then
    .emit { service with bluetoothManager := true, bluetoothAdapter := adapter } [.returns adapter]
  else .emit service [.returns false]

/-- What `disconnect` tells the client. -/
def disconnectEvents : List ConnectingEvent :=
  if service.bluetoothAdapter && service.bluetoothGatt then [.disconnect] else []

/-- `postDelayed`, in `connect`. -/
def postGivingUp (service : BluetoothService) : BluetoothService :=
  { service with
    attempts := service.attempts + 1
    handler := service.handler ++ [(connectPeriodMs, service.attempts)] }

/-- `connect`. -/
def connect (address : Option String) (radio : Radio) : ConnectingTurn :=
  match address with
  | none => .emit service [.returns false]
  | some address =>
      if service.bluetoothAdapter then
        if service.bluetoothDeviceAddress = some address ∧ service.bluetoothGatt = true then
          .emit service [.reconnect, .returns radio.reconnects]
        else if radio.device then
          let service := { service with bluetoothGatt := radio.client }
          let service := if radio.client then service.postGivingUp else service
          .emit { service with bluetoothDeviceAddress := some address } [.connectGatt address, .returns true]
        else .emit service [.returns false]
      else .emit service [.returns false]

/-- `onConnectionStateChange`. -/
def onConnectionStateChange (status newState : Int) : ConnectingTurn :=
  if status = gattSuccess then
    let service := { service with handler := [] }
    if newState = stateConnected then
      if service.bluetoothGatt then .emit service [.discoverServices, .broadcast .connected]
      else .emit service [.nullPointer]
    else if newState = stateDisconnected then .emit service [.broadcast .disconnected]
    else .pure service
  else .emit service [.broadcast .error]

/-- `onUnbind`, with `close`. -/
def onUnbind : ConnectingTurn :=
  let service := { service with handler := [] }
  if service.bluetoothGatt then .emit { service with bluetoothGatt := false } [.close] else .pure service

/-- The runnable of an attempt. -/
def giveUp (attempt : ℕ) : List ConnectingEvent :=
  service.disconnectEvents ++ [.broadcast (.deviceNotFound attempt)]

/-- A millisecond passes. -/
def millisecond : ConnectingTurn :=
  .emit { service with handler := elapse service.handler } ((due service.handler).flatMap service.giveUp)

/-- One call of the service. -/
def step (input : ConnectingInput) (service : BluetoothService) : ConnectingTurn :=
  match input with
  | .initialise manager adapter => service.initialise manager adapter
  | .connect address radio => service.connect address radio
  | .disconnect => .emit service service.disconnectEvents
  | .onConnectionStateChange status newState => service.onConnectionStateChange status newState
  | .onUnbind => service.onUnbind
  | .millisecond => service.millisecond

end BluetoothService

/-! ### Attempts -/

/-- A call of `connect` makes a new client. -/
def BluetoothService.Attempts (service : BluetoothService) (address : Option String) (radio : Radio) : Prop :=
  service.bluetoothAdapter = true ∧ address ≠ none ∧
    ¬(service.bluetoothDeviceAddress = address ∧ service.bluetoothGatt = true) ∧
    radio.device = true ∧ radio.client = true

instance (service : BluetoothService) (address : Option String) (radio : Radio) :
    Decidable (service.Attempts address radio) := inferInstanceAs (Decidable (_ ∧ _ ∧ ¬(_ ∧ _) ∧ _ ∧ _))

namespace ConnectingInput

/-- The input takes the runnables back. -/
def settles : ConnectingInput → Bool
  | .onConnectionStateChange status _ => status = gattSuccess
  | .onUnbind => true
  | _ => false

/-- The attempt that the input begins. -/
def attempt (input : ConnectingInput) (service : BluetoothService) : Option ℕ :=
  match input with
  | .connect address radio => if service.Attempts address radio then some service.attempts else none
  | _ => none

end ConnectingInput

/-- The service after some calls. -/
def serviceAfter (inputs : List ConnectingInput) : BluetoothService :=
  (run BluetoothService.step inputs .created).state

/-- The attempt with a number is so old and nothing has settled it. -/
def Unanswered (inputs : List ConnectingInput) (number ago : ℕ) : Prop :=
  ∃ before address radio since, inputs = before ++ .connect address radio :: since ∧
    (serviceAfter before).Attempts address radio ∧ (serviceAfter before).attempts = number ∧
    (∀ input ∈ since, input.settles = false) ∧ since.count .millisecond = ago

/-- The attempt that an event reports as failed. -/
def ConnectingEvent.notFound : ConnectingEvent → Option ℕ
  | .broadcast (.deviceNotFound attempt) => some attempt
  | _ => none

namespace BluetoothService

variable (service : BluetoothService) (input : ConnectingInput)

/-- An attempt is posted; another call of `connect` posts nothing. -/
theorem connect_cases (address : Option String) (radio : Radio) :
    let service' := (service.connect address radio).state
    (service.Attempts address radio ∧ service'.attempts = service.attempts + 1 ∧
        service'.handler = service.handler ++ [(connectPeriodMs, service.attempts)]) ∨
      ¬ service.Attempts address radio ∧ service'.attempts = service.attempts ∧
        service'.handler = service.handler := by
  unfold connect Attempts
  cases address with
  | none => exact Or.inr ⟨fun new => new.2.1 rfl, rfl, rfl⟩
  | some address =>
      by_cases adapter : service.bluetoothAdapter = true
      · by_cases there : service.bluetoothDeviceAddress = some address ∧ service.bluetoothGatt = true
        · simp only [adapter, if_pos there]
          exact Or.inr ⟨fun new => new.2.2.1 there, rfl, rfl⟩
        · by_cases device : radio.device = true
          · by_cases client : radio.client = true
            · simp only [adapter, if_neg there, device, client, if_true]
              exact Or.inl ⟨⟨trivial, Option.some_ne_none address, there, trivial, trivial⟩, rfl, rfl⟩
            · simp only [adapter, if_neg there, device, if_neg client, if_true]
              exact Or.inr ⟨fun new => client new.2.2.2.2, rfl, rfl⟩
          · simp only [adapter, if_neg there, if_neg device, if_true]
            exact Or.inr ⟨fun new => device new.2.2.2.1, rfl, rfl⟩
      · simp only [if_neg adapter]
        exact Or.inr ⟨fun new => adapter new.1, rfl, rfl⟩

/-- Another call than an attempt leaves the number of attempts, and keeps the handler unless it clears it. -/
theorem step_cases (other : ∀ address radio, input ≠ .connect address radio) :
    let service' := (step input service).state
    service'.attempts = service.attempts ∧ service'.handler =
      if input.settles then [] else if input = .millisecond then elapse service.handler else service.handler := by
  cases input with
  | initialise manager adapter =>
      show (service.initialise manager adapter).state.attempts = _ ∧
        (service.initialise manager adapter).state.handler = _
      unfold initialise
      split <;> exact ⟨rfl, rfl⟩
  | connect address radio => exact absurd rfl (other address radio)
  | disconnect | millisecond => exact ⟨rfl, rfl⟩
  | onConnectionStateChange status newState =>
      show (service.onConnectionStateChange status newState).state.attempts = _ ∧
        (service.onConnectionStateChange status newState).state.handler =
          if decide (status = gattSuccess) then [] else service.handler
      unfold onConnectionStateChange
      by_cases success : status = gattSuccess
      · simp only [success, if_true, decide_true]
        split
        · split <;> exact ⟨rfl, rfl⟩
        · split <;> exact ⟨rfl, rfl⟩
      · simp only [success, if_false, decide_false]
        exact ⟨rfl, rfl⟩
  | onUnbind =>
      show service.onUnbind.state.attempts = _ ∧ service.onUnbind.state.handler = []
      unfold onUnbind
      cases service.bluetoothGatt <;> exact ⟨rfl, rfl⟩

theorem attempt_of_other (other : ∀ address radio, input ≠ .connect address radio) :
    input.attempt service = none := by
  cases input with
  | connect address radio => exact absurd rfl (other address radio)
  | _ => rfl

/-- What a call does to the handler and to the number of attempts. -/
theorem step_state :
    let service' := (step input service).state
    service'.handler = (if input.settles then [] else if input = .millisecond then elapse service.handler
        else service.handler) ++
          ((input.attempt service).map fun attempt => (connectPeriodMs, attempt)).toList ∧
      service'.attempts = service.attempts + (input.attempt service).toList.length := by
  by_cases call : ∃ address radio, input = .connect address radio
  · obtain ⟨address, radio, rfl⟩ := call
    rcases service.connect_cases address radio with ⟨new, attempts, handler⟩ | ⟨old, attempts, handler⟩
    · have posts : ConnectingInput.attempt (.connect address radio) service = some service.attempts := if_pos new
      rw [posts]
      exact ⟨handler, attempts⟩
    · have posts : ConnectingInput.attempt (.connect address radio) service = none := if_neg old
      rw [posts]
      exact ⟨handler.trans (List.append_nil _).symm, attempts⟩
  · have other : ∀ address radio, input ≠ .connect address radio :=
      fun address radio same => call ⟨address, radio, same⟩
    obtain ⟨attempts, handler⟩ := service.step_cases input other
    rw [service.attempt_of_other input other]
    exact ⟨handler.trans (List.append_nil _).symm, attempts⟩

end BluetoothService

/-! ### The attempts that fail -/

/-- The service as a machine with a handler. -/
def givingUp : Posting BluetoothService ConnectingInput ℕ where
  step input service := (BluetoothService.step input service).state
  handler := BluetoothService.handler
  posts := ConnectingInput.attempt
  clears := ConnectingInput.settles
  elapses input := input = .millisecond
  delay := connectPeriodMs
  positive := by decide
  handler_step input service := by
    simpa using (service.step_state input).1

theorem after_givingUp (inputs : List ConnectingInput) : givingUp.after inputs .created = serviceAfter inputs := by
  induction inputs using List.reverseRecOn with
  | nil => rfl
  | append_singleton inputs input later =>
      rw [Posting.after_concat, later]
      unfold serviceAfter
      rw [run_concat]
      rfl

theorem attempt_eq_some_iff {input : ConnectingInput} {service : BluetoothService} {number : ℕ} :
    input.attempt service = some number ↔ ∃ address radio, input = .connect address radio ∧
      service.Attempts address radio ∧ service.attempts = number := by
  constructor
  · intro begins
    cases input with
    | connect address radio =>
        obtain ⟨new, same⟩ := Option.ite_none_right_eq_some.mp begins
        exact ⟨address, radio, rfl, new, Option.some.inj same⟩
    | _ => cases begins
  · rintro ⟨address, radio, rfl, new, rfl⟩
    exact if_pos new

theorem waits_iff_unanswered (inputs : List ConnectingInput) (number ago : ℕ) :
    givingUp.Waits inputs .created number ago ↔ Unanswered inputs number ago := by
  have passed (since : List ConnectingInput) : givingUp.elapsed since = since.count .millisecond := by
    refine List.countP_congr fun input _ => ?_
    show decide (input = .millisecond) = true ↔ (input == .millisecond) = true
    rw [decide_eq_true_iff, beq_iff_eq]
  unfold Posting.Waits Unanswered
  constructor
  · rintro ⟨before, input, since, rfl, begins, calm, ago⟩
    rw [after_givingUp] at begins
    obtain ⟨address, radio, rfl, new, attempt⟩ := attempt_eq_some_iff.mp begins
    exact ⟨before, address, radio, since, rfl, new, attempt, calm, passed since ▸ ago⟩
  · rintro ⟨before, address, radio, since, rfl, new, attempt, calm, ago⟩
    refine ⟨before, _, since, rfl, ?_, calm, (passed since).trans ago⟩
    rw [after_givingUp]
    exact attempt_eq_some_iff.mpr ⟨address, radio, rfl, new, attempt⟩

namespace BluetoothService

variable (service : BluetoothService) (input : ConnectingInput)

theorem notFound_disconnectEvents : service.disconnectEvents.filterMap ConnectingEvent.notFound = [] := by
  unfold disconnectEvents
  split <;> rfl

/-- A call reports the attempts whose runnables run. -/
theorem notFound_step : (step input service).events.filterMap ConnectingEvent.notFound =
    givingUp.runs input service := by
  cases input with
  | millisecond =>
      have each (attempt : ℕ) : (service.giveUp attempt).filterMap ConnectingEvent.notFound = [attempt] := by
        unfold giveUp
        rw [List.filterMap_append, notFound_disconnectEvents]
        rfl
      show ((due service.handler).flatMap service.giveUp).filterMap ConnectingEvent.notFound = due service.handler
      rw [List.filterMap_flatMap]
      simp only [each]
      exact List.flatMap_singleton' _
  | disconnect => exact service.notFound_disconnectEvents
  | initialise manager adapter =>
      show (service.initialise manager adapter).events.filterMap _ = []
      unfold initialise
      split <;> rfl
  | connect address radio =>
      show (service.connect address radio).events.filterMap _ = []
      unfold connect
      repeat' split
      all_goals rfl
  | onConnectionStateChange status newState =>
      have none' : givingUp.runs (.onConnectionStateChange status newState) service = [] :=
        if_neg fun runs => Bool.false_ne_true runs.2
      rw [none']
      show (service.onConnectionStateChange status newState).events.filterMap _ = []
      unfold onConnectionStateChange
      dsimp only
      repeat' split
      all_goals rfl
  | onUnbind =>
      show service.onUnbind.events.filterMap _ = []
      unfold onUnbind
      cases service.bluetoothGatt <;> rfl

end BluetoothService

/-- The attempts that fail are those whose runnables run. -/
theorem notFound_run (inputs : List ConnectingInput) :
    (run BluetoothService.step inputs .created).events.filterMap ConnectingEvent.notFound =
      givingUp.ran inputs .created := by
  induction inputs using List.reverseRecOn with
  | nil => rfl
  | append_singleton inputs input later =>
      rw [run_concat, List.filterMap_append, later, Posting.ran_concat, BluetoothService.notFound_step,
        after_givingUp]
      rfl

/-- Attempts have different numbers. -/
theorem nodup_posted (inputs : List ConnectingInput) (service : BluetoothService) :
    (givingUp.posted inputs service).Nodup ∧ ∀ number ∈ givingUp.posted inputs service, service.attempts ≤ number := by
  induction inputs generalizing service with
  | nil => exact ⟨List.nodup_nil, nofun⟩
  | cons input inputs later =>
      obtain ⟨distinct, above⟩ := later (BluetoothService.step input service).state
      have attempts := (service.step_state input).2
      show ((input.attempt service).toList ++ _).Nodup ∧ ∀ number ∈ (input.attempt service).toList ++ _, _
      cases begins : input.attempt service with
      | none =>
          rw [begins] at attempts
          refine ⟨distinct, fun number member => ?_⟩
          exact Nat.le_trans (Nat.le_of_eq attempts.symm) (above number member)
      | some number =>
          obtain ⟨-, -, -, -, rfl⟩ := attempt_eq_some_iff.mp begins
          rw [begins] at attempts
          have later' : ∀ number ∈ givingUp.posted inputs (BluetoothService.step input service).state,
              service.attempts < number := fun number member =>
            Nat.le_trans (Nat.le_of_eq attempts.symm) (above number member)
          refine ⟨List.nodup_cons.mpr ⟨fun member => Nat.lt_irrefl _ (later' _ member), distinct⟩, ?_⟩
          refine List.forall_mem_cons.mpr ⟨Nat.le_refl _, fun number member => ?_⟩
          exact Nat.le_of_lt (later' number member)

/-- **The lock is reported as not found for exactly the attempts that nothing settles within 7000 ms**, once
for each. -/
theorem device_not_found_iff (inputs : List ConnectingInput) :
    let failed := (run BluetoothService.step inputs .created).events.filterMap ConnectingEvent.notFound
    failed.Nodup ∧ ∀ number, number ∈ failed ↔ ∃ done, done <+: inputs ∧ Unanswered done number 7000 := by
  intro failed
  have ran : failed = givingUp.ran inputs .created := notFound_run inputs
  constructor
  · obtain ⟨part, perm, sub⟩ := givingUp.ran_subperm inputs .created
    rw [ran]
    exact perm.nodup_iff.mp ((nodup_posted inputs .created).1.sublist sub)
  · intro number
    rw [ran, Posting.mem_ran_iff rfl]
    simp only [waits_iff_unanswered]
    rfl

end Esloq
