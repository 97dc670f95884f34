/-
**When the lock buttons are enabled (`LockPresenter.java`, `LockControllerImpl.java`).**

The controller turns what it is told into calls of its listener, the presenter, which sets the state of
the buttons. Beside the page the model keeps the session the broadcasts tell of: whether the ticket of
the current connection has been accepted, and whether a request is outstanding.

* `LockPresenter`, `LockControllerImpl` — the callbacks, each with what it does to the view and what it
  calls.
* `LockPage.step` — an event reaches the controller, or an enabled button is pressed.
* `PageInput.Breaks` — a disconnection while the buttons are enabled, an answer without an accepted
  ticket, an accepted ticket while a request is outstanding.
* `live_only_when_idle_iff` — for every order of events the buttons are live only in an idle session
  exactly if no event of the order is such a one.
-/

import Esloq.Lib.Machine
import Esloq.Lib.Prefixes

namespace Esloq

open Machine Prefixes

/-! ### The page -/

/-- What the presenter sets on the view. -/
structure LockView where
  lockButtons : Bool
  progressIndicator : Bool
  networkSnackbar : Bool
  deriving DecidableEq

/-- The other calls of the presenter and the controller. -/
inductive LockCall
  | showLockList
  | showDeviceNotFound
  | showEnableBluetooth
  | showLowBatteryWarning
  | connect
  | lock
  | unlock
  | requestSessionKey
  | sendTicket
  | addLog (lockMac : String) (lockState : Bool)
  | log (text : String)
  deriving DecidableEq

/-- The exceptions that end the app. -/
inductive LockError
  | initialization
  | cannotConnect
  | connectionLost
  | invalidRequest
  deriving DecidableEq

/-- What a callback leaves of the view, what it calls, and the exception it throws. -/
abbrev PageTurn := Turn LockView LockCall LockError

/-! ### `LockPresenter` -/

namespace LockPresenter

def initializationError (view : LockView) : PageTurn :=
  ⟨view, [.showLockList, .log "Initialization error."], some .initialization⟩

def deviceNotFound (view : LockView) : PageTurn :=
  .emit { view with progressIndicator := false } [.showDeviceNotFound, .log "Device not found."]

def hasNetwork (isOnline : Bool) (view : LockView) : PageTurn :=
  let view := if isOnline then view else { view with progressIndicator := false, lockButtons := false }
  .pure { view with networkSnackbar := !isOnline }

def hasBluetooth (bluetoothEnabled : Bool) (view : LockView) : PageTurn :=
  if bluetoothEnabled then .pure view
  else .emit { view with progressIndicator := false, lockButtons := false } [.showEnableBluetooth]

/-- The lines that disable the buttons are commented out. -/
def onConnecting (view : LockView) : PageTurn :=
  .pure { view with progressIndicator := true }

def lockReady (view : LockView) : PageTurn :=
  .pure { view with progressIndicator := false, lockButtons := true }

def onLock (lockMac : String) (view : LockView) : PageTurn :=
  .emit { view with lockButtons := false } [.lock, .addLog lockMac true]

def onUnlock (lockMac : String) (view : LockView) : PageTurn :=
  .emit { view with lockButtons := false } [.unlock, .addLog lockMac false]

def onLocked (view : LockView) : PageTurn := .pure { view with lockButtons := true }

def onUnlocked (view : LockView) : PageTurn := .pure { view with lockButtons := true }

def lowBattery (view : LockView) : PageTurn := .emit view [.showLowBatteryWarning]

end LockPresenter

/-! ### `LockControllerImpl` -/

/-- What `onConnectToLock` finds: network and Bluetooth, and whether a connection can be initiated. -/
structure Surroundings where
  reachable : Bool
  connects : Bool
  deriving DecidableEq

/-- A broadcast the receiver is registered for. -/
inductive Broadcast
  | connectivityAction (isOnline : Bool) (around : Surroundings)
  | bluetoothOff
  | bluetoothOn (around : Surroundings)
  | error
  | disconnected (around : Surroundings)
  | ticketRcvSuccess
  | ticketRcvSuccessLowBat
  | unlocked
  | locked
  | invalidRequest
  | communicationReady
  | deviceNotFound
  deriving DecidableEq

namespace LockControllerImpl

def onConnectToLock (around : Surroundings) (view : LockView) : PageTurn :=
  if around.reachable then
    (LockPresenter.onConnecting view).andThen fun view =>
      if around.connects then .emit view [.connect] else ⟨view, [.connect], some .cannotConnect⟩
  else .pure view

def onServiceConnected (initialized bluetoothEnabled isOnline : Bool) (around : Surroundings)
    (view : LockView) : PageTurn :=
  (if initialized then .pure view else LockPresenter.initializationError view : PageTurn).andThen
    fun view => (LockPresenter.hasBluetooth bluetoothEnabled view).andThen
      fun view => (LockPresenter.hasNetwork isOnline view).andThen (onConnectToLock around)

def onServiceDisconnected (view : LockView) : PageTurn := ⟨view, [], some .connectionLost⟩

def onReceive (view : LockView) : Broadcast → PageTurn
  | .connectivityAction isOnline around =>
      (LockPresenter.hasNetwork isOnline view).andThen fun view =>
        if isOnline then onConnectToLock around view else .pure view
  | .bluetoothOff => LockPresenter.hasBluetooth false view
  | .bluetoothOn around => (LockPresenter.hasBluetooth true view).andThen (onConnectToLock around)
  | .error => LockPresenter.initializationError view
  | .disconnected around => onConnectToLock around view
  | .ticketRcvSuccess => LockPresenter.lockReady view
  | .ticketRcvSuccessLowBat => (LockPresenter.lockReady view).andThen LockPresenter.lowBattery
  | .unlocked => LockPresenter.onUnlocked view
  | .locked => LockPresenter.onLocked view
  | .invalidRequest => ⟨view, [], some .invalidRequest⟩
  | .communicationReady => .emit view [.requestSessionKey]
  | .deviceNotFound => LockPresenter.deviceNotFound view

/-- The callback of `requestSessionKey`. -/
def onResult (success : Bool) (view : LockView) : PageTurn :=
  if success then .emit view [.sendTicket] else LockPresenter.initializationError view

end LockControllerImpl

/-! ### Events -/

/-- What happens while the page is open. -/
inductive PageInput
  | serviceConnected (initialized bluetoothEnabled isOnline : Bool) (around : Surroundings)
  | serviceDisconnected
  | receive (broadcast : Broadcast)
  | result (success : Bool)
  | pressLock
  | pressUnlock
  deriving DecidableEq

/-- What an event does; a button that is not enabled cannot be pressed. -/
def PageInput.respond (lockMac : String) (view : LockView) : PageInput → PageTurn
  | .serviceConnected initialized bluetoothEnabled isOnline around =>
      LockControllerImpl.onServiceConnected initialized bluetoothEnabled isOnline around view
  | .serviceDisconnected => LockControllerImpl.onServiceDisconnected view
  | .receive broadcast => LockControllerImpl.onReceive view broadcast
  | .result success => LockControllerImpl.onResult success view
  | .pressLock => if view.lockButtons then LockPresenter.onLock lockMac view else .pure view
  | .pressUnlock => if view.lockButtons then LockPresenter.onUnlock lockMac view else .pure view

/-- What the events tell of the current connection. -/
structure LockSession where
  /-- Its ticket has been accepted, and it has not been disconnected since. -/
  accepted : Bool
  /-- A request has been sent over it and not been answered. -/
  outstanding : Bool
  deriving DecidableEq

/-- The session after an event; `pressed` says whether the buttons can be pressed. -/
def LockSession.after (session : LockSession) (pressed : Bool) : PageInput → LockSession
  | .receive .ticketRcvSuccess | .receive .ticketRcvSuccessLowBat => { session with accepted := true }
  | .receive (.disconnected _) => ⟨false, false⟩
  | .receive .locked | .receive .unlocked | .receive .invalidRequest =>
      { session with outstanding := false }
  | .pressLock | .pressUnlock =>
      if pressed then { session with outstanding := true } else session
  | _ => session

/-- The page of a lock, with the calls made so far. -/
structure LockPage where
  view : LockView
  calls : List LockCall
  error : Option LockError
  session : LockSession
  deriving DecidableEq

namespace LockPage

/-- The page after `onBindService`. -/
def opened : LockPage := ⟨⟨false, true, false⟩, [], none, ⟨false, false⟩⟩

/-- An event; an exception has ended the app. -/
def step (lockMac : String) (input : PageInput) (page : LockPage) : LockPage :=
  if page.error.isSome then page
  else
    let turn := input.respond lockMac page.view
    { view := turn.state
      calls := page.calls ++ turn.events
      error := turn.fault
      session := page.session.after page.view.lockButtons input }

/-- The lock buttons are live only in an idle session. -/
def LiveOnlyWhenIdle (page : LockPage) : Prop :=
  page.view.lockButtons = true → page.session.accepted = true ∧ page.session.outstanding = false

end LockPage

/-- The events after which the buttons are live in no idle session. -/
def PageInput.Breaks (input : PageInput) (page : LockPage) : Prop :=
  page.error = none ∧
    match input with
    | .receive (.disconnected _) => page.view.lockButtons = true
    | .receive .locked | .receive .unlocked => page.session.accepted = false
    | .receive .ticketRcvSuccess | .receive .ticketRcvSuccessLowBat =>
        page.session.outstanding = true
    | _ => False

/-! ### What the callbacks do to the buttons -/

section Buttons

variable (view : LockView) (around : Surroundings)

@[simp] theorem LockPresenter.hasNetwork_lockButtons (isOnline : Bool) :
    (LockPresenter.hasNetwork isOnline view).state.lockButtons = (isOnline && view.lockButtons) := by
  unfold LockPresenter.hasNetwork
  by_cases online : isOnline = true
  · rw [online]
    rfl
  · rw [eq_false_of_ne_true online]
    rfl

@[simp] theorem LockPresenter.hasBluetooth_lockButtons (bluetoothEnabled : Bool) :
    (LockPresenter.hasBluetooth bluetoothEnabled view).state.lockButtons =
      (bluetoothEnabled && view.lockButtons) := by
  unfold LockPresenter.hasBluetooth
  by_cases enabled : bluetoothEnabled = true
  · rw [enabled]
    rfl
  · rw [eq_false_of_ne_true enabled]
    rfl

/-- Connecting again leaves the buttons as they are. -/
@[simp] theorem LockControllerImpl.onConnectToLock_lockButtons :
    (LockControllerImpl.onConnectToLock around view).state.lockButtons = view.lockButtons := by
  unfold LockControllerImpl.onConnectToLock
  by_cases reachable : around.reachable = true
  · rw [if_pos reachable]
    by_cases connects : around.connects = true
    · simp [LockPresenter.onConnecting, connects, Turn.emit]
    · simp [LockPresenter.onConnecting, connects]
  · rw [if_neg reachable]
    rfl

theorem LockPresenter.hasNetwork_fault (isOnline : Bool) :
    (LockPresenter.hasNetwork isOnline view).fault = none := by
  unfold LockPresenter.hasNetwork
  rfl

theorem LockPresenter.hasBluetooth_fault (bluetoothEnabled : Bool) :
    (LockPresenter.hasBluetooth bluetoothEnabled view).fault = none := by
  unfold LockPresenter.hasBluetooth
  by_cases enabled : bluetoothEnabled = true
  · rw [if_pos enabled]
    rfl
  · rw [if_neg enabled]
    rfl

/-- Binding to the service enables no button. -/
theorem LockControllerImpl.onServiceConnected_lockButtons
    {initialized bluetoothEnabled isOnline : Bool}
    (enabled : (LockControllerImpl.onServiceConnected initialized bluetoothEnabled isOnline around
      view).state.lockButtons = true) : view.lockButtons = true := by
  unfold LockControllerImpl.onServiceConnected at enabled
  by_cases ready : initialized = true
  · rw [if_pos ready, Turn.pure_andThen,
      Turn.andThen_of_ok (LockPresenter.hasBluetooth_fault view bluetoothEnabled)] at enabled
    dsimp only at enabled
    rw [Turn.andThen_of_ok (LockPresenter.hasNetwork_fault _ isOnline)] at enabled
    simp only [LockControllerImpl.onConnectToLock_lockButtons, LockPresenter.hasNetwork_lockButtons,
      LockPresenter.hasBluetooth_lockButtons, Bool.and_eq_true] at enabled
    exact enabled.2.2
  · rw [if_neg ready] at enabled
    exact enabled

/-- A change of the network enables no button. -/
theorem LockControllerImpl.connectivityAction_lockButtons {isOnline : Bool}
    (enabled : (LockControllerImpl.onReceive view
      (.connectivityAction isOnline around)).state.lockButtons = true) : view.lockButtons = true := by
  unfold LockControllerImpl.onReceive at enabled
  dsimp only at enabled
  rw [Turn.andThen_of_ok (LockPresenter.hasNetwork_fault view isOnline)] at enabled
  by_cases online : isOnline = true
  · simpa [online] using enabled
  · simp [online, Turn.pure] at enabled

end Buttons

/-! ### Steps and runs -/

/-- An event after which the session is as before, and that enables no button. -/
theorem LockPage.live_of_same {view : LockView} {page : LockPage} {calls : List LockCall}
    {error : Option LockError} (live : page.LiveOnlyWhenIdle)
    (disables : view.lockButtons = true → page.view.lockButtons = true) :
    LockPage.LiveOnlyWhenIdle ⟨view, calls, error, page.session⟩ :=
  fun enabled => live (disables enabled)

/-- A button that is pressed is disabled. -/
theorem PageInput.press_lockButtons (lockMac : String) (view : LockView) {input : PageInput}
    (press : input = .pressLock ∨ input = .pressUnlock) :
    (input.respond lockMac view).state.lockButtons = false := by
  rcases press with rfl | rfl
  · unfold PageInput.respond
    by_cases enabled : view.lockButtons = true
    · simp [enabled, LockPresenter.onLock, Turn.emit]
    · simp [enabled, Turn.pure]
  · unfold PageInput.respond
    by_cases enabled : view.lockButtons = true
    · simp [enabled, LockPresenter.onUnlock, Turn.emit]
    · simp [enabled, Turn.pure]

/-- Whether the buttons are live only in an idle session after an event. -/
theorem LockPage.step_live_iff (lockMac : String) (input : PageInput) (page : LockPage)
    (live : page.LiveOnlyWhenIdle) :
    (page.step lockMac input).LiveOnlyWhenIdle ↔ ¬ input.Breaks page := by
  unfold LockPage.step PageInput.Breaks
  by_cases ended : page.error.isSome = true
  · rw [if_pos ended]
    have dead : page.error ≠ none := Option.isSome_iff_ne_none.mp ended
    exact iff_of_true live fun breaks => dead breaks.1
  have running : page.error = none := by simpa using ended
  rw [if_neg ended]
  simp only [running, true_and]
  have quiet {view : LockView} {calls : List LockCall} {error : Option LockError}
      (disables : view.lockButtons = true → page.view.lockButtons = true) :
      LockPage.LiveOnlyWhenIdle ⟨view, calls, error, page.session⟩ ↔ ¬ False :=
    iff_of_true (live_of_same live disables) not_false
  cases input with
  | serviceConnected initialized bluetoothEnabled isOnline around =>
      exact quiet (LockControllerImpl.onServiceConnected_lockButtons page.view around)
  | serviceDisconnected => exact quiet id
  | result success =>
      refine quiet ?_
      cases success <;> exact id
  | pressLock | pressUnlock =>
      refine iff_of_true (fun enabled => ?_) not_false
      rw [PageInput.press_lockButtons lockMac page.view] at enabled
      · cases enabled
      · simp
  | receive broadcast =>
      cases broadcast with
      | connectivityAction isOnline around =>
          exact quiet (LockControllerImpl.connectivityAction_lockButtons page.view around)
      | bluetoothOff => exact quiet nofun
      | bluetoothOn around =>
          refine quiet fun enabled => ?_
          have connected := LockControllerImpl.onConnectToLock_lockButtons page.view around
          exact connected.symm.trans enabled
      | error | communicationReady | deviceNotFound => exact quiet id
      | invalidRequest =>
          refine iff_of_true (fun enabled => ?_) not_false
          exact ⟨(live enabled).1, rfl⟩
      | disconnected around =>
          have same := LockControllerImpl.onConnectToLock_lockButtons page.view around
          constructor
          · intro after enabled
            exact Bool.false_ne_true (after (same.trans enabled)).1
          · intro disabled enabled
            exact absurd (same.symm.trans enabled) disabled
      | ticketRcvSuccess | ticketRcvSuccessLowBat =>
          constructor
          · intro after outstanding
            have idle : page.session.outstanding = false := (after rfl).2
            rw [outstanding] at idle
            cases idle
          · intro idle _
            exact ⟨rfl, eq_false_of_ne_true idle⟩
      | unlocked | locked =>
          constructor
          · intro after rejected
            have accepted : page.session.accepted = true := (after rfl).1
            rw [rejected] at accepted
            cases accepted
          · intro accepted _
            exact ⟨eq_true_of_ne_false accepted, rfl⟩

/-- **The lock buttons are live only in an idle session, exactly in the orders of events without a
disconnection while they are enabled, an answer while no ticket is accepted, or an accepted ticket while
a request is outstanding.** -/
theorem live_only_when_idle_iff (lockMac : String) (inputs : List PageInput) :
    (∀ done, done <+: inputs →
      (After (LockPage.step lockMac) done LockPage.opened).LiveOnlyWhenIdle) ↔
    ∀ done next, done ++ [next] <+: inputs →
      ¬ next.Breaks (After (LockPage.step lockMac) done LockPage.opened) :=
  kept_iff (LockPage.step lockMac) (LockPage.step_live_iff lockMac) inputs
    fun enabled => absurd enabled Bool.false_ne_true

/-- A ticket is accepted, and the lock ends the connection. -/
def endedConnection : List PageInput :=
  [.serviceConnected true true true ⟨true, true⟩, .receive .communicationReady, .result true,
    .receive .ticketRcvSuccess, .receive (.disconnected ⟨true, true⟩)]

/-- **After a disconnection the buttons are still enabled**, and a request is sent outside a
session. -/
theorem live_after_disconnection :
    ¬ (After (LockPage.step "00:07:80:00:00:01") endedConnection LockPage.opened).LiveOnlyWhenIdle ∧
      .lock ∈ (After (LockPage.step "00:07:80:00:00:01") (endedConnection ++ [.pressLock])
        LockPage.opened).calls := by
  refine ⟨fun live => ?_, by decide⟩
  exact absurd (live rfl).1 Bool.false_ne_true

end Esloq
