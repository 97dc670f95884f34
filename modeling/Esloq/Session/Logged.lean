/-
**The log posts and the rotations (`LockPresenter.java`, `LockControllerImpl.java`,
`process_request_msg`).**

A press calls the controller, which sends a request to the lock, and right after it adds the log entry, which
is posted as soon as there is an ID token; whether the lock turns is decided meanwhile, by the lock. The page
with its Bluetooth service runs beside the lock, over a network that delivers, drops and injects what it
likes, through as many sessions as there are keys and tickets.

* `LockApp.step` — an event of the page with the calls it makes, a callback of the service, or a token.
* `Logged` — the rotations that serve requests of the app are those its posts stand for, in order.
* `CarriedOut` — a press whose entry is posted, and whose request arrives where the lock waits for it, before
  the next press.
* `requests_served` — in a run of such presses the lock serves every request, in order; `served_nodup`
  says that it serves none twice.
* `log_records_rotations` — in every state of such a run the log records what the lock did, but for the last
  press.
-/

import Esloq.App.Buttons
import Esloq.App.Orientation
import Esloq.Lib.Adjacent
import Esloq.Session.InStep
import Mathlib.Data.List.TakeWhile

namespace Esloq

open Machine Adjacent

/-! ### The page and its service -/

/-- What a press finds: the local database, and whether a user is signed in. -/
structure Lookups where
  db : LocalDatabase
  signedIn : Bool

/-- A log entry for the server. The post has no `clockwise`; it is what the repository has answered to the
press. -/
structure LogPost where
  lockMac : String
  lockState : Bool
  clockwise : Bool
  deriving DecidableEq

/-- The page of a lock, bound to the Bluetooth service, and the entries that wait for an ID token, which are
numbered. `ended` says that an exception of a press has ended the app. -/
structure LockApp where
  page : LockPage
  service : App
  count : Nat
  tasks : List (Nat × LogPost)
  ended : Bool
  deriving DecidableEq

/-- No exception has ended the app. -/
def LockApp.running (app : LockApp) : Bool := !app.ended && app.page.error.isNone

/-- What can be observed of them. -/
inductive LockAppEvent
  | service (event : AppEvent)
  /-- `postToServer`: a log entry is posted. -/
  | post (entry : LogPost)
  deriving DecidableEq

/-- What reaches the service but the calls of the page. -/
inductive Callback
  /-- `Cryptography.setSessionKey`, with the key of a reply of the server. -/
  | sessionKey (key : Key)
  | notified (value : List UInt8)
  | descriptorWritten
  deriving DecidableEq

inductive LockAppInput
  | page (input : PageInput) (lookups : Lookups)
  | service (callback : Callback)
  /-- The task for an ID token completes. -/
  | onComplete (number : Nat) (successful : Bool)

/-- What a call of the page leaves. -/
abbrev CallTurn := Turn LockApp LockAppEvent JavaError

/-- The controller has the service send a request; without one it has thrown an exception. -/
def sendRequest (box : Secretbox) (request : Option LockRequestCode) (app : LockApp) : CallTurn :=
  match request with
  | some request =>
      let turn := appStep box request.input app.service
      .emit { app with service := turn.state } (turn.events.map .service)
  | none => ⟨app, [], some .illegalArgument⟩

/-- `addLog` asks for an ID token. `locksClockwise` has answered, or the press would have ended before. -/
def ServerDataServiceApiImpl.addLog (lookups : Lookups) (lockMac : String) (lockState : Bool)
    (app : LockApp) : CallTurn :=
  if lookups.signedIn then
    let clockwise := (LocalDataServiceApi.locksClockwise lookups.db lockMac).getD false
    .pure { app with
      count := app.count + 1
      tasks := app.tasks ++ [(app.count, ⟨lockMac.toLower, lockState, clockwise⟩)] }
  else ⟨app, [], some .illegalState⟩

/-- The listener of the task: an entry is posted if there is a token. -/
def ServerDataServiceApiImpl.onComplete (number : Nat) (successful : Bool) (app : LockApp) :
    Turn LockApp LockAppEvent Empty :=
  match app.tasks.lookup number with
  | none => .pure app
  | some entry =>
      let app := { app with tasks := app.tasks.filter (·.1 ≠ number) }
      if successful then .emit app [.post entry] else .pure app

/-- What a call of the page does to the service and the log. -/
def LockCall.perform (box : Secretbox) (lockMac : String) (lookups : Lookups) :
    LockCall → LockApp → CallTurn
  | .lock, app => sendRequest box (LockControllerImpl.lock lookups.db lockMac) app
  | .unlock, app => sendRequest box (LockControllerImpl.unlock lookups.db lockMac) app
  | .addLog lockMac lockState, app => ServerDataServiceApiImpl.addLog lookups lockMac lockState app
  | _, app => .pure app

/-- The calls an event of the page makes. -/
def LockPage.newCalls (lockMac : String) (input : PageInput) (page : LockPage) : List LockCall :=
  (input.respond lockMac page.view).events

/-- A callback of the service. -/
def Callback.run (box : Secretbox) : Callback → App → AppTurn
  | .sessionKey key, service => .pure (service.setSessionKey key)
  | .notified value, service => service.handleMessage box value
  | .descriptorWritten, service => .pure service.onDescriptorWrite

/-- An event of the page, with what its calls do, a callback of the service, or a token. -/
def LockApp.step (box : Secretbox) (lockMac : String) (input : LockAppInput) (app : LockApp) :
    Turn LockApp LockAppEvent Empty :=
  if app.running then
    match input with
    | .page input lookups =>
        let turn := run (LockCall.perform box lockMac lookups) (app.page.newCalls lockMac input) app
        .emit { turn.state with page := app.page.step lockMac input, ended := turn.fault.isSome } turn.events
    | .service callback =>
        let turn := callback.run box app.service
        .emit { app with service := turn.state } (turn.events.map .service)
    | .onComplete number successful => ServerDataServiceApiImpl.onComplete number successful app
  else .pure app

/-- The app beside the lock. -/
def appBesideLock (box : Secretbox) (lockMac : String) :
    LockAppInput ⊕ Iteration → LockApp × Lock →
      Turn (LockApp × Lock) (LockAppEvent ⊕ Effect) (Empty ⊕ Fault) :=
  beside (LockApp.step box lockMac) (loopBody box)

/-! ### Posts, requests and rotations -/

/-- The rotation a log entry stands for. -/
def turnFor (lockState clockwise : Bool) : Rotation := if lockState = clockwise then .cw else .ccw

/-- The rotation a post stands for. -/
def LockAppEvent.posted : LockAppEvent → Option Rotation
  | .post entry => some (turnFor entry.lockState entry.clockwise)
  | _ => none

/-- A request that is encrypted, with the rotation it asks for. -/
def LockAppEvent.requested : LockAppEvent → Option ((Key × Bytes 41) × Rotation)
  | .service (.encrypted key _ nonce m c) =>
      (requestedRotation m).map fun direction => ((key, message nonce c), direction)
  | _ => none

/-- The value an event writes to the characteristic of the lock. -/
def LockAppEvent.value : LockAppEvent → Option (List UInt8)
  | .service (.writes value) => some value
  | _ => none

/-- The rotations the posts of a trace stand for. -/
def posts (trace : List (LockAppEvent ⊕ Effect)) : List Rotation :=
  (lefts trace).filterMap LockAppEvent.posted

/-- The requests the app encrypts in a trace. -/
def requests (trace : List (LockAppEvent ⊕ Effect)) : List ((Key × Bytes 41) × Rotation) :=
  (lefts trace).filterMap LockAppEvent.requested

/-- A rotation directly after the request it serves. -/
def Effect.serves : Effect → Effect → Option ((Key × Bytes 41) × Rotation)
  | .requestDecrypted key msg _, .rotate .remote direction => some ((key, msg), direction)
  | _, _ => none

/-- The rotations the lock executes for the app's requests. -/
def rotations (trace : List (LockAppEvent ⊕ Effect)) : List Rotation :=
  ((pairs Effect.serves (rights trace)).filter fun served =>
    (requests trace).any fun request => decide (request.1 = served.1)).map Prod.snd

/-- The rotations for the app's requests are those its posts stand for, in order. -/
def Logged (trace : List (LockAppEvent ⊕ Effect)) : Prop := rotations trace = posts trace

instance (trace : List (LockAppEvent ⊕ Effect)) : Decidable (Logged trace) :=
  inferInstanceAs (Decidable (rotations trace = posts trace))

/-! ### Presses that are carried out -/

/-- What a press of a button asks for. -/
def PageInput.wants : PageInput → Option Bool
  | .pressLock => some true
  | .pressUnlock => some false
  | _ => none

/-- An input that is a press of a button. -/
def isPress : LockAppInput ⊕ Iteration → Bool
  | .inl (.page input _) => input.wants.isSome
  | _ => false

/-- The inputs before the next press. -/
def untilPress (inputs : List (LockAppInput ⊕ Iteration)) : List (LockAppInput ⊕ Iteration) :=
  inputs.takeWhile fun input => !isPress input

/-- A press of a button that is enabled, for a lock that is in the database. -/
structure LockApp.Sends (app : LockApp) (lockMac : String) (press : PageInput) (lookups : Lookups) :
    Prop where
  wants : press.wants.isSome = true
  running : app.running = true
  enabled : app.page.view.lockButtons = true
  found : (LocalDataServiceApi.locksClockwise lookups.db lockMac).isSome = true

/-- The lock waits for the request the app encrypts next. -/
structure Expects (service : App) (l : Lock) : Prop where
  waiting : l.state = .requestW
  empty : l.msgBuf.len = 0
  sameKey : l.sessionKey = service.sessionKey
  below : nonceValue l.sessionNonce < nonceValue (App.incrementByteArray service.sessionNonce)

/-- The passes bring the values of a press to a lock that expects them, and the next pass is not cut off
before the motor turns. -/
def Arriving (box : Secretbox) (values : List (List UInt8)) (service : App) (l : Lock)
    (its : List Iteration) : Prop :=
  ∃ early carry acting others, its = early ++ (carry ++ acting :: others) ∧
    (mainRun box early l).fault = none ∧ Expects service (mainRun box early l).state ∧
    (∀ value ∈ values, Delivers value carry) ∧ ∀ count, acting.cut = some count → 3 ≤ count

/-- The first completion of a task among some inputs gives a token, while the app runs and before a write past
`msg_buf`. -/
def Completing (box : Secretbox) (lockMac : String) (number : Nat) (inputs : List (LockAppInput ⊕ Iteration))
    (state : LockApp × Lock) : Prop :=
  ∃ early late, inputs = early ++ .inl (.onComplete number true) :: late ∧
    (∀ successful, .inl (.onComplete number successful) ∉ early) ∧
    (run (appBesideLock box lockMac) early state).fault = none ∧
    (run (appBesideLock box lockMac) early state).state.1.running = true

/-- The entry of a press is posted, and its request reaches the lock, before the next press. -/
structure CarriedOut (box : Secretbox) (lockMac : String) (input : PageInput) (lookups : Lookups)
    (state : LockApp × Lock) (later : List (LockAppInput ⊕ Iteration)) : Prop where
  signedIn : lookups.signedIn = true
  token : Completing box lockMac state.1.count (untilPress later)
    (appBesideLock box lockMac (.inl (.page input lookups)) state).state
  reaches : Arriving box
    ((LockApp.step box lockMac (.page input lookups) state.1).events.filterMap LockAppEvent.value)
    state.1.service state.2 (rights (untilPress later))

/-- Every press that sends a request is carried out, from the state before it. -/
def AllCarriedOut (box : Secretbox) (lockMac : String) :
    List (LockAppInput ⊕ Iteration) → LockApp × Lock → Prop
  | [], _ => True
  | input :: later, state =>
      (∀ press lookups, input = .inl (.page press lookups) → state.1.Sends lockMac press lookups →
          CarriedOut box lockMac press lookups state later) ∧
        ((appBesideLock box lockMac input state).fault = none →
          AllCarriedOut box lockMac later (appBesideLock box lockMac input state).state)

/-! ### Events without a request -/

/-- A call that sends a request or posts an entry. -/
def LockCall.acts : LockCall → Bool
  | .lock | .unlock | .addLog .. => true
  | _ => false

section Idle

variable (view : LockView) (around : Surroundings)

theorem idle_initializationError :
    (LockPresenter.initializationError view).Emits (LockCall.acts · = false) := by
  simp [Turn.Emits, LockPresenter.initializationError, LockCall.acts]

theorem idle_hasBluetooth (enabled : Bool) :
    (LockPresenter.hasBluetooth enabled view).Emits (LockCall.acts · = false) := by
  unfold LockPresenter.hasBluetooth
  split
  · exact .silent
  · exact .single rfl

theorem idle_onConnectToLock :
    (LockControllerImpl.onConnectToLock around view).Emits (LockCall.acts · = false) := by
  unfold LockControllerImpl.onConnectToLock
  split
  · refine .andThen .silent fun view => ?_
    split
    · exact .single rfl
    · simp [Turn.Emits, LockCall.acts]
  · exact .silent

theorem idle_onReceive (broadcast : Broadcast) :
    (LockControllerImpl.onReceive view broadcast).Emits (LockCall.acts · = false) := by
  cases broadcast with
  | connectivityAction isOnline around =>
      refine .andThen .silent fun view => ?_
      split
      · exact idle_onConnectToLock view around
      · exact .silent
  | bluetoothOff => exact idle_hasBluetooth view false
  | bluetoothOn around =>
      exact (idle_hasBluetooth view true).andThen fun view => idle_onConnectToLock view around
  | disconnected around => exact idle_onConnectToLock view around
  | error => exact idle_initializationError view
  | ticketRcvSuccess | unlocked | locked | invalidRequest => exact .silent
  | ticketRcvSuccessLowBat => exact .andThen .silent fun view => .single rfl
  | communicationReady => exact .single rfl
  | deviceNotFound =>
      simp [Turn.Emits, LockControllerImpl.onReceive, LockPresenter.deviceNotFound, Turn.emit,
        LockCall.acts]

/-- Only a press sends a request or posts an entry. -/
theorem idle_respond (lockMac : String) {input : PageInput} (other : input.wants = none) :
    (input.respond lockMac view).Emits (LockCall.acts · = false) := by
  cases input with
  | pressLock | pressUnlock => cases other
  | receive broadcast => exact idle_onReceive view broadcast
  | serviceConnected initialized bluetoothEnabled isOnline around =>
      refine .andThen ?_ fun view => (idle_hasBluetooth view bluetoothEnabled).andThen fun view =>
        .andThen .silent fun view => idle_onConnectToLock view around
      split
      · exact .silent
      · exact idle_initializationError view
  | serviceDisconnected => exact .silent
  | result success =>
      simp only [PageInput.respond, LockControllerImpl.onResult]
      split
      · exact .single rfl
      · exact idle_initializationError view

end Idle

/-- An event that neither encrypts a request nor posts an entry. -/
def LockAppEvent.Plain (event : LockAppEvent) : Prop := event.requested = none ∧ event.posted = none

section Plain

variable (box : Secretbox)

/-- The service encrypts nothing on its own. -/
theorem plain_callback (callback : Callback) (service : App) :
    ∀ event ∈ (callback.run box service).events, (LockAppEvent.service event).Plain := by
  cases callback with
  | sessionKey | descriptorWritten => exact Turn.Emits.silent
  | notified value =>
      intro event member
      have shown : (∃ exception, event = .threw exception) ∨ (∃ action, event = .broadcast action) ∨
          ∃ key msg rsp, event = .accepted key msg rsp := by
        rcases service.handleMessage_cases box value with ⟨msg, same⟩ | ⟨incoming, events, same, throws⟩
        · rw [Callback.run, same] at member
          rcases App.processMessage_cases box { service with incoming := some [] } msg with
            ⟨-, rejected⟩ | ⟨-, ⟨-, exception, rejected⟩ | ⟨rsp, code, -, -, accepted⟩⟩
          · rw [rejected] at member
            exact Or.inl ⟨_, List.mem_singleton.mp member⟩
          · rw [rejected] at member
            exact Or.inl ⟨_, List.mem_singleton.mp member⟩
          · rw [accepted] at member
            rcases List.mem_append.mp member with isAccepted | isBroadcast
            · exact Or.inr (Or.inr ⟨_, _, _, List.mem_singleton.mp isAccepted⟩)
            · obtain ⟨action, -, broadcasts⟩ :=
                Option.map_eq_some_iff.mp (Option.mem_toList.mp isBroadcast)
              exact Or.inr (Or.inl ⟨action, broadcasts.symm⟩)
        · rw [Callback.run, same] at member
          exact Or.inl (throws event member)
      rcases shown with ⟨exception, rfl⟩ | ⟨action, rfl⟩ | ⟨key, msg, rsp, rfl⟩
      all_goals exact ⟨rfl, rfl⟩

/-- Calls that do not act leave the app. -/
theorem run_idle (lockMac : String) (lookups : Lookups) (app : LockApp) : ∀ {calls : List LockCall},
    (∀ call ∈ calls, call.acts = false) →
      run (LockCall.perform box lockMac lookups) calls app = .pure app
  | [], _ => rfl
  | call :: calls, idle => by
      have first : call.perform box lockMac lookups app = .pure app := by
        have none := idle call List.mem_cons_self
        cases call with
        | lock | unlock | addLog => cases none
        | _ => rfl
      rw [run_cons, first, Turn.pure_andThen]
      exact run_idle lockMac lookups app fun call member => idle call (List.mem_cons_of_mem _ member)

/-- A press for a lock that is not in the database throws before it does anything. -/
theorem run_missing (lockMac : String) {lookups : Lookups}
    (missing : LocalDataServiceApi.locksClockwise lookups.db lockMac = none) {call : LockCall}
    (asks : call = .lock ∨ call = .unlock) (rest : List LockCall) (app : LockApp) :
    run (LockCall.perform box lockMac lookups) (call :: rest) app = ⟨app, [], some .illegalArgument⟩ := by
  have throws : call.perform box lockMac lookups app = ⟨app, [], some .illegalArgument⟩ := by
    rcases asks with rfl | rfl
    · rw [LockCall.perform, LockControllerImpl.lock, missing]
      rfl
    · rw [LockCall.perform, LockControllerImpl.unlock, missing]
      rfl
  rw [run_cons, throws, Turn.faulted_andThen]

/-- Nothing but a press of an enabled button sends a request or adds an entry. -/
theorem run_calls (lockMac : String) {press : PageInput} {lookups : Lookups} {app : LockApp}
    (running : app.running = true) (other : ¬ app.Sends lockMac press lookups) :
    ∃ fault, run (LockCall.perform box lockMac lookups) (app.page.newCalls lockMac press) app =
      ⟨app, [], fault⟩ := by
  by_cases idle : press.wants = none
  · exact ⟨none, run_idle box lockMac lookups app (idle_respond app.page.view lockMac idle)⟩
  · by_cases enabled : app.page.view.lockButtons = true
    · cases found : LocalDataServiceApi.locksClockwise lookups.db lockMac with
      | some clockwise =>
          exact absurd ⟨Option.isSome_iff_ne_none.mpr idle, running, enabled, by rw [found]; rfl⟩ other
      | none =>
          unfold LockPage.newCalls
          cases press with
          | pressLock | pressUnlock =>
              rw [PageInput.respond, if_pos enabled]
              exact ⟨_, run_missing box lockMac found (by simp) _ _⟩
          | _ => exact absurd rfl idle
    · unfold LockPage.newCalls
      cases press with
      | pressLock | pressUnlock =>
          rw [PageInput.respond, if_neg enabled]
          exact ⟨none, rfl⟩
      | _ => exact absurd rfl idle

/-- What is neither a press that sends a request nor the end of a task leaves the tasks. -/
theorem plain_step (lockMac : String) {input : LockAppInput} {app : LockApp}
    (other : ∀ press lookups, input = .page press lookups → ¬ app.Sends lockMac press lookups)
    (apart : ∀ number successful, input = .onComplete number successful → app.tasks.lookup number = none) :
    (LockApp.step box lockMac input app).Emits LockAppEvent.Plain ∧
      (LockApp.step box lockMac input app).state.tasks = app.tasks := by
  unfold LockApp.step
  split
  · rename_i running
    cases input with
    | page press lookups =>
        obtain ⟨fault, quiet⟩ := run_calls box lockMac running (other press lookups rfl)
        dsimp only
        rw [quiet]
        exact ⟨.silent, rfl⟩
    | service callback =>
        refine ⟨fun event member => ?_, rfl⟩
        obtain ⟨own, among, rfl⟩ := List.mem_map.mp member
        exact plain_callback box callback app.service own among
    | onComplete number successful =>
        dsimp only
        rw [ServerDataServiceApiImpl.onComplete, apart number successful rfl]
        exact ⟨.silent, rfl⟩
  · exact ⟨.silent, rfl⟩

/-- Nothing but a press encrypts a request. -/
theorem unasked_step (lockMac : String) {input : LockAppInput} {app : LockApp}
    (other : ∀ press lookups, input = .page press lookups → ¬ app.Sends lockMac press lookups) :
    (LockApp.step box lockMac input app).Emits (LockAppEvent.requested · = none) := by
  cases input with
  | onComplete number successful =>
      rw [LockApp.step, ServerDataServiceApiImpl.onComplete]
      split
      · split
        · exact .silent
        · cases successful
          · exact .silent
          · exact .single rfl
      · exact .silent
  | page | service => exact fun event member => ((plain_step box lockMac other nofun).1 event member).1

end Plain

/-! ### A press -/

theorem requestedRotation_code (direction : Rotation) :
    requestedRotation direction.code = some direction := by
  cases direction <;> rfl

/-- The request the service sends for a rotation. -/
def Rotation.request : Rotation → LockRequestCode
  | .ccw => .rotateCounterClockwise
  | .cw => .rotateClockwise

theorem Rotation.request_byte (direction : Rotation) : direction.request.byte = direction.code := by
  cases direction <;> rfl

theorem LockControllerImpl.lock_eq {db : LocalDatabase} {lockMac : String} {clockwise : Bool}
    (found : LocalDataServiceApi.locksClockwise db lockMac = some clockwise) :
    lock db lockMac = some (turnFor true clockwise).request := by
  rw [lock, found]
  cases clockwise <;> rfl

theorem LockControllerImpl.unlock_eq {db : LocalDatabase} {lockMac : String} {clockwise : Bool}
    (found : LocalDataServiceApi.locksClockwise db lockMac = some clockwise) :
    unlock db lockMac = some (turnFor false clockwise).request := by
  rw [unlock, found]
  cases clockwise <;> rfl

/-- The events of the service when it sends a request. -/
def asking (service : App) (direction : Rotation) (c : Bytes 17) : List LockAppEvent :=
  [.service (.sends service.sessionNonce direction.code),
    .service (.encrypted service.sessionKey service.sessionNonce service.incremented.sessionNonce
      direction.code c),
    .service (.writes (message service.incremented.sessionNonce c).toList)]

theorem requested_asking (service : App) (direction : Rotation) (c : Bytes 17) :
    (asking service direction c).filterMap LockAppEvent.requested =
      [((service.sessionKey, message service.incremented.sessionNonce c), direction)] := by
  cases direction <;> rfl

/-- A press sends the request for its rotation and adds its entry, if a user is signed in. -/
theorem press_step {box : Secretbox} (contract : box.Contract) {lockMac : String} {press : PageInput}
    {lookups : Lookups} {app : LockApp} (sends : app.Sends lockMac press lookups) :
    ∃ lockState clockwise c after, sealPadded box (oneByte (turnFor lockState clockwise).code)
        app.service.incremented.sessionNonce app.service.sessionKey = some c ∧
      LockApp.step box lockMac (.page press lookups) app =
        .emit after (asking app.service (turnFor lockState clockwise) c) ∧
      (lookups.signedIn = true →
        after.tasks = app.tasks ++ [(app.count, ⟨lockMac.toLower, lockState, clockwise⟩)]) := by
  obtain ⟨wants, running, enabled, found⟩ := sends
  obtain ⟨lockState, wants⟩ := Option.isSome_iff_exists.mp wants
  obtain ⟨clockwise, found⟩ := Option.isSome_iff_exists.mp found
  obtain ⟨c, sealed, asks⟩ := app_asks contract app.service (turnFor lockState clockwise).request
  rw [Rotation.request_byte] at sealed asks
  have calls : app.page.newCalls lockMac press =
      [if lockState then .lock else .unlock, .addLog lockMac lockState] := by
    unfold LockPage.newCalls
    cases press with
    | pressLock | pressUnlock =>
        cases wants
        rw [PageInput.respond, enabled]
        rfl
    | _ => cases wants
  have first : LockCall.perform box lockMac lookups (if lockState then .lock else .unlock) app =
      sendRequest box (some (turnFor lockState clockwise).request) app := by
    cases lockState
    · exact congrArg (sendRequest box · app) (LockControllerImpl.unlock_eq found)
    · exact congrArg (sendRequest box · app) (LockControllerImpl.lock_eq found)
  have sent : sendRequest box (some (turnFor lockState clockwise).request) app =
      .emit { app with service := app.service.incremented }
        (asking app.service (turnFor lockState clockwise) c) := by
    rw [sendRequest, asks]
    rfl
  rw [LockApp.step, if_pos running]
  dsimp only
  rw [calls, run_cons, first, sent, Turn.emit_andThen, run_single, LockCall.perform,
    ServerDataServiceApiImpl.addLog, found]
  cases lookups.signedIn with
  | false => exact ⟨lockState, clockwise, c, _, sealed, by rw [if_neg Bool.false_ne_true, List.append_nil],
      nofun⟩
  | true => exact ⟨lockState, clockwise, c, _, sealed, by rw [if_pos rfl, Turn.pure, List.append_nil],
      fun _ => rfl⟩

/-! ### A request that is served -/

/-- The lock reads a fresh request and turns the motor, before anything else. -/
theorem fsmProcess_serves {box : Secretbox} (lowBattery : Bool) {l : Lock} {msg : Bytes 41}
    {direction : Rotation} (waiting : l.state = .request) (buffered : bufferedRequest l = msg)
    (fresh : nonceValue l.sessionNonce < nonceValue (messageNonce msg))
    (opens : messageByte box l.sessionKey msg = some direction.code) :
    [.requestMsg msg, .requestDecrypted l.sessionKey msg direction.code, .rotate .remote direction] <+:
      (fsmProcess box lowBattery l).events := by
  subst buffered
  rw [← isValidSessionNonce_iff] at fresh
  have served := processRequestMsg_of_opens box l fresh opens
  rw [requestedRotation_code] at served
  rw [fsmProcess_of_request box lowBattery waiting, served]
  exact (effects_respond box _ .requestW _ _).trans (Turn.prefix_andThen _ _)

/-- So does the pass, unless it is cut off before. -/
theorem loopBody_serves {box : Secretbox} {it : Iteration} {l : Lock} {msg : Bytes 41}
    {direction : Rotation} (waiting : l.state = .request) (buffered : bufferedRequest l = msg)
    (fresh : nonceValue l.sessionNonce < nonceValue (messageNonce msg))
    (opens : messageByte box l.sessionKey msg = some direction.code)
    (late : ∀ count, it.cut = some count → 3 ≤ count) :
    [.requestMsg msg, .requestDecrypted l.sessionKey msg direction.code, .rotate .remote direction] <+:
      (loopBody box it l).events := by
  have whole := (fsmProcess_serves it.lowBattery waiting buffered fresh opens).trans
    (Turn.prefix_andThen _ (processPacket it.packet it.press))
  unfold loopBody
  cases cut : it.cut with
  | none => exact whole
  | some count =>
      dsimp only
      split
      · refine List.IsPrefix.trans ?_ (List.prefix_append _ _)
        exact List.prefix_take_iff.mpr ⟨whole, late count cut⟩
      · exact whole

/-- A request that reaches the lock where it is expected is served. -/
theorem served_of_arriving {box : Secretbox} {values : List (List UInt8)} {service : App} {l : Lock}
    {its : List Iteration} (reaches : Arriving box values service l its) {msg : Bytes 41}
    {direction : Rotation} (value : msg.toList ∈ values)
    (nonce : messageNonce msg = App.incrementByteArray service.sessionNonce)
    (opens : messageByte box service.sessionKey msg = some direction.code) :
    [((service.sessionKey, msg), direction)].Sublist
      (pairs Effect.serves (mainRun box its l).events) := by
  obtain ⟨early, carry, acting, others, rfl, ok, expects, delivers, late⟩ := reaches
  obtain ⟨l₁, events₁, run₁, receives₁, state₁, content₁⟩ := deliver_run box (delivers _ value)
    (by rw [expects.waiting, List.Vector.toList_length]; rfl) expects.empty
  have key : l₁.sessionKey = service.sessionKey := receives₁.sessionKey.trans expects.sameKey
  have below := expects.below
  rw [← nonce, ← receives₁.sessionNonce] at below
  rw [← key] at opens
  obtain ⟨after, split⟩ := loopBody_serves state₁ (bufferedRequest_of_content content₁) below opens late
  obtain ⟨later, more⟩ := Turn.prefix_andThen (loopBody box acting l₁) (mainRun box others)
  have served : pairs Effect.serves
      (.requestDecrypted l₁.sessionKey msg direction.code :: .rotate .remote direction ::
        (after ++ later)) = ((l₁.sessionKey, msg), direction) ::
      pairs Effect.serves (.rotate .remote direction :: (after ++ later)) := pairs_front _ rfl _
  have events : (mainRun box (early ++ (carry ++ acting :: others)) l).events =
      (mainRun box early l).events ++ (events₁ ++ ([.requestMsg msg] ++
        (.requestDecrypted l₁.sessionKey msg direction.code :: .rotate .remote direction ::
          (after ++ later)))) := by
    rw [mainRun_append, Turn.andThen_of_ok ok, mainRun_append, run₁, Turn.emit_andThen]
    show _ ++ (events₁ ++ (run (loopBody box) (acting :: others) l₁).events) = _
    rw [run_cons]
    show _ ++ (events₁ ++ ((loopBody box acting l₁).andThen (mainRun box others)).events) = _
    rw [← more, ← split]
    simp only [List.cons_append, List.nil_append]
  rw [← key, events, ← List.append_assoc, ← List.append_assoc]
  refine List.Sublist.trans ?_ (pairs_append_sublist Effect.serves _ _)
  rw [served]
  exact (List.singleton_sublist.mpr List.mem_cons_self).trans (List.sublist_append_right _ _)

/-! ### Runs -/

@[simp] theorem posts_append (first second : List (LockAppEvent ⊕ Effect)) :
    posts (first ++ second) = posts first ++ posts second := by
  simp [posts]

@[simp] theorem requests_append (first second : List (LockAppEvent ⊕ Effect)) :
    requests (first ++ second) = requests first ++ requests second := by
  simp [requests]

/-- An event that is plain or the lock's. -/
def PlainAt (event : LockAppEvent ⊕ Effect) : Prop := ∀ own, event = .inl own → own.Plain

theorem plain_trace {trace : List (LockAppEvent ⊕ Effect)} (plain : ∀ event ∈ trace, PlainAt event) :
    requests trace = [] ∧ posts trace = [] := by
  have every : ∀ own ∈ lefts trace, own.Plain := fun own member =>
    plain (.inl own) (mem_lefts.mp member) own rfl
  exact ⟨List.filterMap_eq_nil_iff.mpr fun own member => (every own member).1,
    List.filterMap_eq_nil_iff.mpr fun own member => (every own member).2⟩

/-- The lock serves the requests of a trace in order, and its posts stand for them. -/
structure Accounted (trace : List (LockAppEvent ⊕ Effect)) : Prop where
  served : (requests trace).Sublist (pairs Effect.serves (rights trace))
  posted : posts trace = (requests trace).map Prod.snd

theorem accounted_of_plain {trace : List (LockAppEvent ⊕ Effect)}
    (plain : ∀ event ∈ trace, PlainAt event) : Accounted trace := by
  obtain ⟨noRequests, noPosts⟩ := plain_trace plain
  refine ⟨?_, ?_⟩
  · rw [noRequests]
    exact List.nil_sublist _
  · rw [noRequests, noPosts]
    rfl

theorem Accounted.append {first second : List (LockAppEvent ⊕ Effect)}
    (early : Accounted first) (late : Accounted second) : Accounted (first ++ second) where
  served := by
    rw [requests_append, rights_append]
    exact (early.served.append late.served).trans (pairs_append_sublist _ _ _)
  posted := by
    rw [requests_append, posts_append, List.map_append, early.posted, late.posted]

theorem Accounted.andThen {σ φ : Type} {first : Turn σ (LockAppEvent ⊕ Effect) φ}
    {next : σ → Turn σ (LockAppEvent ⊕ Effect) φ} (early : Accounted first.events)
    (late : first.fault = none → Accounted (next first.state).events) :
    Accounted (first.andThen next).events := by
  rw [Turn.events_andThen]
  by_cases ok : first.fault = none
  · rw [if_pos ok]
    exact early.append (late ok)
  · rw [if_neg ok, List.append_nil]
    exact early

section Runs

variable {box : Secretbox} {lockMac : String}

/-- An input that is neither a press that sends a request nor the end of a task. -/
theorem plain_input {input : LockAppInput ⊕ Iteration} {state : LockApp × Lock}
    (other : ∀ press lookups, input = .inl (.page press lookups) →
      ¬ state.1.Sends lockMac press lookups)
    (apart : ∀ number successful, input = .inl (.onComplete number successful) →
      state.1.tasks.lookup number = none) :
    (appBesideLock box lockMac input state).Emits PlainAt ∧
      (appBesideLock box lockMac input state).state.1.tasks = state.1.tasks := by
  cases input with
  | inl input =>
      obtain ⟨plain, same⟩ := plain_step box lockMac
        (fun press lookups same => other press lookups (congrArg Sum.inl same))
        (fun number successful same => apart number successful (congrArg Sum.inl same))
      refine ⟨?_, same⟩
      rintro event member own rfl
      obtain ⟨_, among, same⟩ := List.mem_map.mp member
      cases same
      exact plain own among
  | inr it =>
      refine ⟨?_, rfl⟩
      rintro event member own rfl
      obtain ⟨_, -, same⟩ := List.mem_map.mp member
      cases same

/-- A press that sends a request is a press. -/
theorem not_sends {input : LockAppInput ⊕ Iteration} (other : isPress input = false) (app : LockApp)
    (press : PageInput) (lookups : Lookups) (same : input = .inl (.page press lookups)) :
    ¬ app.Sends lockMac press lookups := by
  subst same
  exact fun sends => Bool.false_ne_true (other.symm.trans sends.wants)

/-- Without a press and the end of a task nothing is asked or posted, and the tasks wait. -/
theorem plain_run : ∀ {inputs : List (LockAppInput ⊕ Iteration)} {state : LockApp × Lock},
    (∀ input ∈ inputs, isPress input = false) →
    (∀ number successful, .inl (.onComplete number successful) ∈ inputs →
      state.1.tasks.lookup number = none) →
    (run (appBesideLock box lockMac) inputs state).Emits PlainAt ∧
      (run (appBesideLock box lockMac) inputs state).state.1.tasks = state.1.tasks
  | [], _, _, _ => ⟨.silent, rfl⟩
  | input :: inputs, state, quiet, apart => by
      obtain ⟨plain, same⟩ := @plain_input box lockMac input state
        (not_sends (quiet input List.mem_cons_self) state.1)
        fun number successful own => apart number successful (own ▸ List.mem_cons_self)
      obtain ⟨plain', same'⟩ := @plain_run inputs (appBesideLock box lockMac input state).state
        (fun input member => quiet input (List.mem_cons_of_mem _ member)) (by
          rw [same]
          exact fun number successful member => apart number successful (List.mem_cons_of_mem _ member))
      rw [run_cons]
      by_cases ok : (appBesideLock box lockMac input state).fault = none
      · rw [Turn.andThen_of_ok ok]
        refine ⟨fun event member => ?_, same'.trans same⟩
        exact (List.mem_append.mp member).elim (plain event) (plain' event)
      · obtain ⟨fault, faulted⟩ := Option.ne_none_iff_exists'.mp ok
        rw [Turn.andThen_of_fault faulted]
        exact ⟨plain, same⟩

/-- Without a press no request is encrypted. -/
theorem unasked_run {inputs : List (LockAppInput ⊕ Iteration)}
    (quiet : ∀ input ∈ inputs, isPress input = false) (state : LockApp × Lock) :
    requests (run (appBesideLock box lockMac) inputs state).events = [] := by
  have unasked : (run (appBesideLock box lockMac) inputs state).Emits
      fun event => ∀ own, event = .inl own → own.requested = none := by
    refine Turn.Emits.run (fun input member state => ?_) state
    rintro event among own rfl
    cases input with
    | inl input =>
        obtain ⟨_, among, same⟩ := List.mem_map.mp among
        cases same
        refine unasked_step box lockMac (fun press lookups same => ?_) own among
        exact not_sends (quiet _ member) state.1 press lookups (congrArg Sum.inl same)
    | inr it =>
        obtain ⟨_, -, same⟩ := List.mem_map.mp among
        cases same
  exact List.filterMap_eq_nil_iff.mpr fun own member => unasked _ (mem_lefts.mp member) own rfl

theorem not_press_of_untilPress (later : List (LockAppInput ⊕ Iteration)) :
    ∀ input ∈ untilPress later, isPress input = false := by
  intro input member
  simpa using List.mem_takeWhile_imp member

/-- The token for the only entry that waits. -/
theorem token_step {app : LockApp} {number : Nat} {entry : LogPost} (running : app.running = true)
    (only : app.tasks = [(number, entry)]) :
    LockApp.step box lockMac (.onComplete number true) app = .emit { app with tasks := [] } [.post entry] := by
  have found : app.tasks.lookup number = some entry := by
    rw [only, List.lookup_cons_self]
  have rest : app.tasks.filter (·.1 ≠ number) = [] := by
    rw [only, List.filter_cons_of_neg (by simp)]
    rfl
  rw [LockApp.step, if_pos running]
  show ServerDataServiceApiImpl.onComplete number true app = _
  rw [ServerDataServiceApiImpl.onComplete, found]
  dsimp only
  rw [rest, if_pos rfl]

/-- The only entry that waits is posted before the next press. -/
theorem completing_run {inputs : List (LockAppInput ⊕ Iteration)} {state : LockApp × Lock} {number : Nat}
    {entry : LogPost} (quiet : ∀ input ∈ inputs, isPress input = false)
    (only : state.1.tasks = [(number, entry)]) (token : Completing box lockMac number inputs state) :
    posts (run (appBesideLock box lockMac) inputs state).events =
        [turnFor entry.lockState entry.clockwise] ∧
      (run (appBesideLock box lockMac) inputs state).state.1.tasks = [] := by
  obtain ⟨early, late, rfl, first, ok, running⟩ := token
  obtain ⟨plain, same⟩ := @plain_run box lockMac early state
    (fun input member => quiet input (List.mem_append_left _ member)) fun other successful member => by
      have apart : (other == number) = false := by
        refine beq_false_of_ne ?_
        rintro rfl
        exact first successful member
      rw [only, List.lookup_cons, apart]
      rfl
  obtain ⟨plain', same'⟩ := @plain_run box lockMac late
    ({ (run (appBesideLock box lockMac) early state).state.1 with tasks := [] },
      (run (appBesideLock box lockMac) early state).state.2)
    (fun input member => quiet input (List.mem_append_right _ (List.mem_cons_of_mem _ member)))
    (fun _ _ _ => rfl)
  have posted : appBesideLock box lockMac (.inl (.onComplete number true))
      (run (appBesideLock box lockMac) early state).state = _ :=
    congrArg (Turn.inLeft · _) (token_step running (same.trans only))
  rw [run_append, Turn.andThen_of_ok ok, run_cons, posted, Turn.inLeft_emit, Turn.emit_andThen]
  refine ⟨?_, same'⟩
  rw [posts_append, posts_append, (plain_trace plain).2, (plain_trace plain').2]
  rfl

/-- **A press that is carried out**: one request, one post of its rotation, and the lock serves it. -/
theorem press_accounted (contract : box.Contract) {press : PageInput} {lookups : Lookups}
    {app : LockApp} {l : Lock} {later : List (LockAppInput ⊕ Iteration)}
    (sends : app.Sends lockMac press lookups) (idle : app.tasks = [])
    (carried : CarriedOut box lockMac press lookups (app, l) later) :
    Accounted (run (appBesideLock box lockMac) (.inl (.page press lookups) :: untilPress later)
        (app, l)).events ∧
      (run (appBesideLock box lockMac) (.inl (.page press lookups) :: untilPress later)
        (app, l)).state.1.tasks = [] := by
  obtain ⟨lockState, clockwise, c, after, sealed, step, adds⟩ := press_step contract sends
  have reaches : Arriving box ((LockApp.step box lockMac (.page press lookups) app).events.filterMap
      LockAppEvent.value) app.service l (rights (untilPress later)) := carried.reaches
  rw [step] at reaches
  have first : appBesideLock box lockMac (.inl (.page press lookups)) (app, l) =
      .emit (after, l) ((asking app.service (turnFor lockState clockwise) c).map .inl) := by
    rw [appBesideLock, beside, step, Turn.inLeft_emit]
  have only := adds carried.signedIn
  rw [idle, List.nil_append] at only
  have token : Completing box lockMac app.count (untilPress later) (after, l) := by
    have token := carried.token
    rwa [first] at token
  obtain ⟨posted, done⟩ := completing_run (not_press_of_untilPress later) only token
  have noRequests := @unasked_run box lockMac _ (not_press_of_untilPress later) (after, l)
  obtain ⟨passes, -, -⟩ := rights_run_eq (LockApp.step box lockMac) (loopBody box) (untilPress later)
    (after, l)
  rw [run_cons, first, Turn.emit_andThen]
  have requested : ∀ events, requests (List.map Sum.inl (asking app.service
      (turnFor lockState clockwise) c) ++ events) =
      ((app.service.sessionKey, message app.service.incremented.sessionNonce c),
        turnFor lockState clockwise) :: requests events := by
    intro events
    rw [requests_append, requests, lefts_inl, requested_asking]
    rfl
  refine ⟨⟨?_, ?_⟩, done⟩
  · rw [requested, noRequests, rights_append, rights_inl, List.nil_append]
    show List.Sublist _ (pairs Effect.serves (rights (run (beside _ _) _ _).events))
    rw [passes]
    refine served_of_arriving reaches ?_ (messageNonce_message _ _) (messageByte_of_sealed contract sealed)
    simp [LockAppEvent.value, asking, Turn.emit]
  · rw [requested, noRequests, posts_append, posted, posts, lefts_inl]
    rfl

theorem AllCarriedOut.later {first second : List (LockAppInput ⊕ Iteration)} {state : LockApp × Lock}
    (carried : AllCarriedOut box lockMac (first ++ second) state)
    (ok : (run (appBesideLock box lockMac) first state).fault = none) :
    AllCarriedOut box lockMac second (run (appBesideLock box lockMac) first state).state := by
  induction first generalizing state with
  | nil => exact carried
  | cons input first ih =>
      rw [run_cons] at ok ⊢
      obtain ⟨here, rest⟩ := Turn.ok_of_andThen ok
      rw [Turn.andThen_of_ok here]
      exact ih (carried.2 here) rest

/-- **Every request is served, in order, and the posts stand for the requests.** -/
theorem requests_served (contract : box.Contract) :
    ∀ (inputs : List (LockAppInput ⊕ Iteration)) (state : LockApp × Lock), state.1.tasks = [] →
      AllCarriedOut box lockMac inputs state →
      Accounted (run (appBesideLock box lockMac) inputs state).events
  | [], _, _, _ => accounted_of_plain fun event member => by cases member
  | input :: later, state, idle, carried => by
      by_cases asks : ∃ press lookups, input = .inl (.page press lookups) ∧
          state.1.Sends lockMac press lookups
      · -- the inputs up to the next press are accounted for together
        obtain ⟨press, lookups, rfl, sends⟩ := asks
        obtain ⟨app, l⟩ := state
        obtain ⟨first, done⟩ := press_accounted contract sends idle (carried.1 press lookups rfl sends)
        have split : .inl (.page press lookups) :: later =
            (.inl (.page press lookups) :: untilPress later) ++
              later.dropWhile fun input => !isPress input := by
          rw [List.cons_append, untilPress, List.takeWhile_append_dropWhile]
        rw [split] at carried ⊢
        rw [run_append]
        exact first.andThen fun ok => requests_served contract _ _ done (carried.later ok)
      · obtain ⟨plain, same⟩ := @plain_input box lockMac input state
          (fun press lookups same sends => asks ⟨press, lookups, same, sends⟩)
          (fun _ _ _ => by rw [idle]; rfl)
        rw [run_cons]
        exact (accounted_of_plain plain).andThen fun ok =>
          requests_served contract later _ (same.trans idle) (carried.2 ok)
termination_by inputs => inputs.length
decreasing_by
  · exact Nat.lt_succ_of_le (List.length_dropWhile_le _ _)
  · exact Nat.lt_succ_self _

/-! ### The log -/

section Log

variable {masterNonce : Nonce} {masterKey : Key} {issued : Bytes 72 → Prop}

/-- No request is served twice. -/
theorem served_nodup {trace : List Effect} (permitted : Always (Permitted box masterNonce masterKey) trace)
    (ideal : IdealTickets box masterKey issued trace) :
    ((pairs Effect.serves trace).map Prod.fst).Nodup := by
  have named : ∀ first second served, Effect.serves first second = some served →
      first.actedRequest = some served.1 := by
    intro first second served serves
    unfold Effect.serves at serves
    split at serves
    · cases serves
      rfl
    · cases serves
  exact (map_pairs_sublist Effect.serves named trace).nodup (actedRequests_nodup permitted ideal)

/-- Where the lock serves the requests in order and none twice, the log records what it did. -/
theorem logged_of_accounted {trace : List (LockAppEvent ⊕ Effect)} (accounted : Accounted trace)
    (nodup : ((pairs Effect.serves (rights trace)).map Prod.fst).Nodup) : Logged trace := by
  rw [Logged, rotations, filter_key_eq accounted.served nodup ?_, accounted.posted]
  intro served _
  rw [List.any_eq_true, List.mem_map]
  simp only [decide_eq_true_iff]

end Log

end Runs

/-- The events of the app beside a lock that is switched on. -/
def appTrace (box : Secretbox) (lockMac : String) (masterNonce : Nonce) (masterKey : Key)
    (app : LockApp) (inputs : List (LockAppInput ⊕ Iteration)) : List (LockAppEvent ⊕ Effect) :=
  (run (appBesideLock box lockMac) inputs (app, bootLock masterNonce masterKey)).events

section Traces

variable {box : Secretbox} {lockMac : String} {masterNonce : Nonce} {masterKey : Key}
  {issued : Bytes 72 → Prop} {app : LockApp}

theorem logged_of_carriedOut (contract : box.Contract) {inputs : List (LockAppInput ⊕ Iteration)}
    (ideal : IdealTickets box masterKey issued
      (rights (appTrace box lockMac masterNonce masterKey app inputs)))
    (idle : app.tasks = []) (carried : AllCarriedOut box lockMac inputs (app, bootLock masterNonce masterKey)) :
    Logged (appTrace box lockMac masterNonce masterKey app inputs) := by
  obtain ⟨passes, -, -⟩ := rights_run_eq (LockApp.step box lockMac) (loopBody box) inputs
    (app, bootLock masterNonce masterKey)
  have permitted : Always (Permitted box masterNonce masterKey)
      (rights (appTrace box lockMac masterNonce masterKey app inputs)) := by
    show Always _ (rights (run (beside _ _) _ _).events)
    rw [passes]
    exact (mainRun_permitted box masterNonce masterKey (rights inputs)).emits
  exact logged_of_accounted (requests_served contract inputs _ idle carried) (served_nodup permitted ideal)

/-! ### Every state of a run -/

theorem appTrace_append (first second : List (LockAppInput ⊕ Iteration)) :
    ∃ later, appTrace box lockMac masterNonce masterKey app (first ++ second) =
        appTrace box lockMac masterNonce masterKey app first ++ later ∧
      ((∀ input ∈ second, isPress input = false) → requests later = []) := by
  rw [appTrace, run_append, Turn.events_andThen]
  refine ⟨_, rfl, fun quiet => ?_⟩
  split
  · exact unasked_run quiet _
  · rfl

/-- What happens later undoes no rotation. -/
theorem rotations_mono {trace later : List (LockAppEvent ⊕ Effect)}
    (same : requests (trace ++ later) = requests trace) :
    rotations trace <+: rotations (trace ++ later) := by
  rw [rotations, rotations, same, rights_append]
  exact ((pairs_mono Effect.serves _ _).filter _).map _

theorem rotations_length_le (trace later : List (LockAppEvent ⊕ Effect)) :
    (rotations trace).length ≤ (rotations (trace ++ later)).length := by
  rw [rotations, rotations, List.length_map, List.length_map, rights_append, requests_append]
  refine List.Sublist.length_le (List.Sublist.trans ?_
    ((pairs_mono Effect.serves _ _).sublist.filter _))
  refine List.monotone_filter_right _ fun served member => ?_
  rw [List.any_append, member, Bool.true_or]

/-- A press asks for at most one rotation, and nothing else asks for any. -/
theorem requests_length_le (contract : box.Contract) (input : LockAppInput ⊕ Iteration)
    (state : LockApp × Lock) : (requests (appBesideLock box lockMac input state).events).length ≤
      if isPress input then 1 else 0 := by
  by_cases asks : ∃ press lookups, input = .inl (.page press lookups) ∧
      state.1.Sends lockMac press lookups
  · obtain ⟨press, lookups, rfl, sends⟩ := asks
    obtain ⟨lockState, clockwise, c, after, -, step, -⟩ := press_step contract sends
    have isAPress : isPress (.inl (.page press lookups)) = true := sends.wants
    rw [if_pos isAPress, appBesideLock, beside, step, Turn.inLeft_emit, requests]
    show (List.filterMap _ (lefts (List.map Sum.inl _))).length ≤ 1
    rw [lefts_inl, requested_asking]
    exact Nat.le_refl 1
  · have unasked : (appBesideLock box lockMac input state).Emits
        fun event => ∀ own, event = .inl own → own.requested = none := by
      rintro event among own rfl
      cases input with
      | inl input =>
          obtain ⟨_, among, same⟩ := List.mem_map.mp among
          cases same
          refine unasked_step box lockMac (fun press lookups same sends => ?_) own among
          exact asks ⟨press, lookups, congrArg Sum.inl same, sends⟩
      | inr it =>
          obtain ⟨_, -, same⟩ := List.mem_map.mp among
          cases same
    rw [requests, List.filterMap_eq_nil_iff.mpr fun own member => unasked _ (mem_lefts.mp member) own rfl]
    exact Nat.zero_le _

theorem appTrace_concat (contract : box.Contract) (done : List (LockAppInput ⊕ Iteration))
    (input : LockAppInput ⊕ Iteration) :
    ∃ later, appTrace box lockMac masterNonce masterKey app (done ++ [input]) =
        appTrace box lockMac masterNonce masterKey app done ++ later ∧
      (requests later).length ≤ if isPress input then 1 else 0 := by
  rw [appTrace, run_append, Turn.events_andThen, run_single]
  refine ⟨_, rfl, ?_⟩
  split
  · exact requests_length_le contract input _
  · exact Nat.zero_le _

theorem untilPress_cons {input : LockAppInput ⊕ Iteration} (other : isPress input = false)
    (later : List (LockAppInput ⊕ Iteration)) : untilPress (input :: later) = input :: untilPress later :=
  List.takeWhile_cons_of_pos (by rw [other]; rfl)

theorem untilPress_press {input : LockAppInput ⊕ Iteration} (press : isPress input = true)
    (later : List (LockAppInput ⊕ Iteration)) : untilPress (input :: later) = [] :=
  List.takeWhile_cons_of_neg (by rw [press]; decide)

theorem untilPress_append_untilPress (first second : List (LockAppInput ⊕ Iteration)) :
    untilPress (first ++ untilPress second) = untilPress (first ++ second) := by
  induction first with
  | nil => exact List.takeWhile_idem
  | cons input first ih =>
      cases press : isPress input with
      | false =>
          rw [List.cons_append, List.cons_append, untilPress_cons press, untilPress_cons press, ih]
      | true =>
          rw [List.cons_append, List.cons_append, untilPress_press press, untilPress_press press]

/-- Before its first press a run has nothing to carry out. -/
theorem AllCarriedOut.of_quiet {first second : List (LockAppInput ⊕ Iteration)}
    (quiet : ∀ input ∈ first, isPress input = false) {state : LockApp × Lock}
    (carried : AllCarriedOut box lockMac second (run (appBesideLock box lockMac) first state).state) :
    AllCarriedOut box lockMac (first ++ second) state := by
  induction first generalizing state with
  | nil => exact carried
  | cons input first ih =>
      refine ⟨fun press lookups same sends => ?_, fun ok => ?_⟩
      · exact absurd sends (not_sends (quiet input List.mem_cons_self) state.1 press lookups same)
      · rw [run_cons, Turn.andThen_of_ok ok] at carried
        exact ih (fun other member => quiet other (List.mem_cons_of_mem input member)) carried

theorem allCarriedOut_of_quiet {inputs : List (LockAppInput ⊕ Iteration)}
    (quiet : ∀ input ∈ inputs, isPress input = false) (state : LockApp × Lock) :
    AllCarriedOut box lockMac inputs state := by
  rw [← List.append_nil inputs]
  exact .of_quiet quiet trivial

/-- Up to the next press a run is as it was. -/
theorem AllCarriedOut.untilPress {first second : List (LockAppInput ⊕ Iteration)}
    {state : LockApp × Lock} (carried : AllCarriedOut box lockMac (first ++ second) state) :
    AllCarriedOut box lockMac (first ++ untilPress second) state := by
  induction first generalizing state with
  | nil => exact allCarriedOut_of_quiet (not_press_of_untilPress second) state
  | cons input first ih =>
      refine ⟨fun press lookups same sends => ?_, fun ok => ih (carried.2 ok)⟩
      obtain ⟨signedIn, token, reaches⟩ := carried.1 press lookups same sends
      have before : Esloq.untilPress (first.append (Esloq.untilPress second)) =
          Esloq.untilPress (first.append second) := untilPress_append_untilPress first second
      refine ⟨signedIn, ?_, ?_⟩
      · rw [before]
        exact token
      · rw [before]
        exact reaches

theorem IdealTickets.front {first second : List Effect}
    (ideal : IdealTickets box masterKey issued (first ++ second)) :
    IdealTickets box masterKey issued first where
  tickets msg key member := ideal.tickets msg key (List.mem_append_left second member)
  distinctKeys := ideal.distinctKeys

section States

variable {done more : List (LockAppInput ⊕ Iteration)}

theorem idealTickets_front (ideal : IdealTickets box masterKey issued
      (rights (appTrace box lockMac masterNonce masterKey app (done ++ more)))) :
    IdealTickets box masterKey issued
      (rights (appTrace box lockMac masterNonce masterKey app done)) := by
  obtain ⟨later, split, -⟩ := @appTrace_append box lockMac masterNonce masterKey app done more
  rw [split, rights_append] at ideal
  exact ideal.front

/-- Before a press, the log records what the lock has done, and every request. -/
theorem logged_before_press (contract : box.Contract) (ideal : IdealTickets box masterKey issued
      (rights (appTrace box lockMac masterNonce masterKey app (done ++ more)))) (idle : app.tasks = [])
    (carried : AllCarriedOut box lockMac (done ++ more) (app, bootLock masterNonce masterKey))
    (next : untilPress more = []) :
    Logged (appTrace box lockMac masterNonce masterKey app done) ∧
      posts (appTrace box lockMac masterNonce masterKey app done) =
        (requests (appTrace box lockMac masterNonce masterKey app done)).map Prod.snd := by
  have whole := carried.untilPress
  rw [next, List.append_nil] at whole
  exact ⟨logged_of_carriedOut contract (idealTickets_front ideal) idle whole,
    (requests_served contract done _ idle whole).posted⟩

/-- In every state the rotations and the posts are the first of those that the requests ask for. -/
theorem front_of_requests (contract : box.Contract) (ideal : IdealTickets box masterKey issued
      (rights (appTrace box lockMac masterNonce masterKey app (done ++ more)))) (idle : app.tasks = [])
    (carried : AllCarriedOut box lockMac (done ++ more) (app, bootLock masterNonce masterKey)) :
    rotations (appTrace box lockMac masterNonce masterKey app done) <+:
        (requests (appTrace box lockMac masterNonce masterKey app done)).map Prod.snd ∧
      posts (appTrace box lockMac masterNonce masterKey app done) <+:
        (requests (appTrace box lockMac masterNonce masterKey app done)).map Prod.snd := by
  obtain ⟨later, split, quiet⟩ := @appTrace_append box lockMac masterNonce masterKey app done
    (untilPress more)
  have noRequests := quiet (not_press_of_untilPress more)
  have rest : (done ++ untilPress more) ++ more.dropWhile (fun input => !isPress input) =
      done ++ more := by
    rw [List.append_assoc, untilPress, List.takeWhile_append_dropWhile]
  rw [← rest] at ideal
  have logged := logged_of_carriedOut contract (idealTickets_front ideal) idle carried.untilPress
  have posted := (requests_served contract _ _ idle carried.untilPress).posted
  change posts (appTrace box lockMac masterNonce masterKey app (done ++ untilPress more)) =
    (requests (appTrace box lockMac masterNonce masterKey app (done ++ untilPress more))).map _ at posted
  have same : requests (appTrace box lockMac masterNonce masterKey app (done ++ untilPress more)) =
      requests (appTrace box lockMac masterNonce masterKey app done) := by
    rw [split, requests_append, noRequests, List.append_nil]
  rw [same] at posted
  rw [← posted]
  constructor
  · rw [← logged, split]
    rw [split] at same
    exact rotations_mono same
  · rw [split, posts_append]
    exact List.prefix_append _ _

/-- In every state at most one request is without its rotation, and at most one without its post. -/
theorem requests_length_le_succ (contract : box.Contract) (idle : app.tasks = []) :
    ∀ {done more : List (LockAppInput ⊕ Iteration)}, IdealTickets box masterKey issued
        (rights (appTrace box lockMac masterNonce masterKey app (done ++ more))) →
      AllCarriedOut box lockMac (done ++ more) (app, bootLock masterNonce masterKey) →
      (requests (appTrace box lockMac masterNonce masterKey app done)).length ≤
          (rotations (appTrace box lockMac masterNonce masterKey app done)).length + 1 ∧
        (requests (appTrace box lockMac masterNonce masterKey app done)).length ≤
          (posts (appTrace box lockMac masterNonce masterKey app done)).length + 1 := by
  intro done
  induction done using List.reverseRecOn with
  | nil => exact fun _ _ => ⟨Nat.zero_le _, Nat.zero_le _⟩
  | append_singleton done input ih =>
      intro more ideal carried
      rw [List.append_assoc, List.singleton_append] at ideal carried
      obtain ⟨later, split, few⟩ := @appTrace_concat box lockMac masterNonce masterKey app contract done
        input
      have grows := rotations_length_le (appTrace box lockMac masterNonce masterKey app done) later
      rw [split, requests_append, posts_append, List.length_append, List.length_append]
      cases press : isPress input with
      | false =>
          obtain ⟨turned, posted⟩ := ih ideal carried
          rw [press, if_neg Bool.false_ne_true] at few
          omega
      | true =>
          obtain ⟨logged, posted⟩ :=
            logged_before_press contract ideal idle carried (untilPress_press press more)
          have turned := congrArg List.length logged
          have posted := congrArg List.length posted
          rw [List.length_map] at posted
          rw [press, if_pos rfl] at few
          omega

end States

/-- A list whose front is shorter by at most one. -/
theorem eq_or_eq_dropLast {α : Type} {front whole : List α} (begins : front <+: whole)
    (few : whole.length ≤ front.length + 1) : front = whole ∨ front = whole.dropLast := by
  obtain ⟨missing, rfl⟩ := begins
  rw [List.length_append] at few
  cases missing with
  | nil => exact Or.inl (List.append_nil front).symm
  | cons last others =>
      rw [List.length_cons] at few
      obtain rfl : others = [] := List.length_eq_zero_iff.mp (by omega)
      exact Or.inr List.dropLast_concat.symm

/-- **The log records what the lock did.** For every run of the app, with no entry waiting at first, beside a
lock that is switched on, through any number of sessions, whatever the network does and up to the first write
past `msg_buf`, in which every press that sends a request is carried out: the rotations the lock executes for
the app's requests are those the posts stand for, one to one and in order, and in every state on the way this
is so, or the last post is without its rotation, or the last rotation without its post. -/
theorem log_records_rotations (box : Secretbox) (contract : box.Contract) (lockMac : String)
    (masterNonce : Nonce) (masterKey : Key) (issued : Bytes 72 → Prop) (app : LockApp)
    (idle : app.tasks = []) (inputs : List (LockAppInput ⊕ Iteration))
    (ideal : IdealTickets box masterKey issued
      (rights (appTrace box lockMac masterNonce masterKey app inputs)))
    (carried : AllCarriedOut box lockMac inputs (app, bootLock masterNonce masterKey)) :
    Logged (appTrace box lockMac masterNonce masterKey app inputs) ∧
      ∀ done, done <+: inputs → Logged (appTrace box lockMac masterNonce masterKey app done) ∨
        rotations (appTrace box lockMac masterNonce masterKey app done) =
          (posts (appTrace box lockMac masterNonce masterKey app done)).dropLast ∨
        posts (appTrace box lockMac masterNonce masterKey app done) =
          (rotations (appTrace box lockMac masterNonce masterKey app done)).dropLast := by
  refine ⟨logged_of_carriedOut contract ideal idle carried, ?_⟩
  rintro done ⟨more, rfl⟩
  obtain ⟨turned, posted⟩ := front_of_requests contract ideal idle carried
  obtain ⟨fewTurned, fewPosted⟩ := requests_length_le_succ contract idle ideal carried
  rcases List.prefix_or_prefix_of_prefix turned posted with behind | behind
  · have few := posted.length_le
    rw [List.length_map] at few
    rcases eq_or_eq_dropLast behind (few.trans fewTurned) with same | last
    · exact Or.inl same
    · exact Or.inr (Or.inl last)
  · have few := turned.length_le
    rw [List.length_map] at few
    rcases eq_or_eq_dropLast behind (few.trans fewPosted) with same | last
    · exact Or.inl same.symm
    · exact Or.inr (Or.inr last)

end Traces

/-! ### A press to evaluate -/

/-- The page has been opened. -/
def sampleLockApp : LockApp := ⟨LockPage.opened, sampleApp, 0, [], false⟩

/-- The lock is in the database and locks clockwise, and a user is signed in. -/
def sampleLookups : Lookups where
  db := LocalDatabase.empty.insertLock ⟨"00:07:80:00:00:01", none, true⟩
  signedIn := true

/-- An event of the page. -/
def onPage (input : PageInput) : LockAppInput ⊕ Iteration := .inl (.page input sampleLookups)

/-- The phone connects, the lock accepts a ticket, and the app hears of it. -/
def sampleReady : List (LockAppInput ⊕ Iteration) :=
  [onPage (.serviceConnected true true true ⟨true, true⟩), onPage (.receive .communicationReady),
    .inl (.service (.sessionKey sampleSessionKey)), onPage (.result true)] ++
  (pass (.evtConnectionStatus 5) :: packets (sampleTicket 1).toList ++ [quietPass]).map .inr ++
  ([0, 20, 40].map fun offset =>
    .inl (.service (.notified (((sampleMessage 1 4).toList.drop offset).take 20)))) ++
  [onPage (.receive .ticketRcvSuccess)]

/-- There is a token for the first entry. -/
def sampleToken : LockAppInput ⊕ Iteration := .inl (.onComplete 0 true)

/-- The request to lock arrives, and its entry is posted. -/
def sampleTurning : List (LockAppInput ⊕ Iteration) :=
  (packets (sampleMessage 2 1).toList ++ [quietPass]).map .inr ++ [sampleToken]

/-- The entry is posted, nothing of the request arrives, and the connection ends. -/
def sampleLostRequest : List (LockAppInput ⊕ Iteration) :=
  [sampleToken, .inr (pass .evtConnectionDisconnected), .inr quietPass,
    onPage (.receive (.disconnected ⟨true, true⟩))]

/-- The events of a run under the sample keys. -/
def sampleEvents (inputs : List (LockAppInput ⊕ Iteration)) : List (LockAppEvent ⊕ Effect) :=
  appTrace keyTag "00:07:80:00:00:01" zeroNonce sampleMasterKey sampleLockApp inputs

theorem idealTickets_sample {inputs : List (LockAppInput ⊕ Iteration)}
    (tickets : acceptedTickets (rights (sampleEvents inputs)) = [(sampleTicket 1, sampleSessionKey)]) :
    IdealTickets keyTag sampleMasterKey (· = sampleTicket 1) (rights (sampleEvents inputs)) where
  tickets msg key accepted := by
    rw [← mem_acceptedTickets, tickets, List.mem_singleton] at accepted
    exact congrArg Prod.fst accepted
  distinctKeys _ _ _ first second _ _ := first.trans second.symm

/-- The log records the rotation of a press that is carried out. -/
theorem log_records_sample_rotation :
    let trace := sampleEvents (sampleReady ++ onPage .pressLock :: sampleTurning)
    posts trace = [.cw] ∧ Logged trace := by
  have reaches : Arriving keyTag [(sampleMessage 2 1).toList]
      (run (appBesideLock keyTag "00:07:80:00:00:01") sampleReady
        (sampleLockApp, bootLock zeroNonce sampleMasterKey)).state.1.service
      (run (appBesideLock keyTag "00:07:80:00:00:01") sampleReady
        (sampleLockApp, bootLock zeroNonce sampleMasterKey)).state.2
      (rights (untilPress sampleTurning)) := by
    refine ⟨[], packets (sampleMessage 2 1).toList, quietPass, [], by decide +kernel, rfl,
      ⟨by decide +kernel, by decide +kernel, by decide +kernel, by decide +kernel⟩, ?_,
      fun count cut => by cases cut⟩
    intro value member
    rw [List.mem_singleton.mp member]
    exact ⟨by decide +kernel, by decide +kernel, (packets (sampleMessage 2 1).toList).take 2,
      pass (.evtAttributesValue cLockReceive ((sampleMessage 2 1).toList.drop 40)),
      by decide +kernel, by decide +kernel⟩
  have written : (LockApp.step keyTag "00:07:80:00:00:01" (.page .pressLock sampleLookups)
      (run (appBesideLock keyTag "00:07:80:00:00:01") sampleReady
        (sampleLockApp, bootLock zeroNonce sampleMasterKey)).state.1).events.filterMap
          LockAppEvent.value = [(sampleMessage 2 1).toList] := by decide +kernel
  refine ⟨by decide +kernel, (log_records_rotations keyTag keyTag_contract "00:07:80:00:00:01"
    zeroNonce sampleMasterKey (· = sampleTicket 1) sampleLockApp rfl
    (sampleReady ++ onPage .pressLock :: sampleTurning) (idealTickets_sample (by decide +kernel))
    (.of_quiet (by decide +kernel) ⟨?_, fun _ => allCarriedOut_of_quiet (by decide +kernel) _⟩)).1⟩
  rintro press lookups same -
  cases same
  refine ⟨rfl, ?_, ?_⟩
  · have first : (run (appBesideLock keyTag "00:07:80:00:00:01") sampleReady
        (sampleLockApp, bootLock zeroNonce sampleMasterKey)).state.1.count = 0 := by decide +kernel
    rw [first]
    refine ⟨(packets (sampleMessage 2 1).toList ++ [quietPass]).map .inr, [], rfl, fun _ member => ?_,
      by decide +kernel, by decide +kernel⟩
    obtain ⟨_, -, same⟩ := List.mem_map.mp member
    cases same
  · rw [written]
    exact reaches

/-- **A press whose request is lost is logged all the same.** -/
theorem lost_request_logged :
    ¬ ∀ (box : Secretbox) (lockMac : String) (masterNonce : Nonce) (masterKey : Key)
      (issued : Bytes 72 → Prop) (app : LockApp) (inputs : List (LockAppInput ⊕ Iteration)),
      box.Contract → app.tasks = [] → IdealTickets box masterKey issued
        (rights (appTrace box lockMac masterNonce masterKey app inputs)) →
      Logged (appTrace box lockMac masterNonce masterKey app inputs) := by
  intro recorded
  have logged := recorded keyTag "00:07:80:00:00:01" zeroNonce sampleMasterKey (· = sampleTicket 1)
    sampleLockApp (sampleReady ++ onPage .pressLock :: sampleLostRequest) keyTag_contract rfl
    (idealTickets_sample (by decide +kernel))
  have posted : posts (sampleEvents (sampleReady ++ onPage .pressLock :: sampleLostRequest)) = [.cw] := by
    decide +kernel
  have turned : rotations (sampleEvents (sampleReady ++ onPage .pressLock :: sampleLostRequest)) = [] := by
    decide +kernel
  have same := turned.symm.trans (logged.trans posted)
  cases same

end Esloq
