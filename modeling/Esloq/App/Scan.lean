/-
**Looking for locks (`ScanActivity.java`, `ScanPresenter.java`).**

A scan begins when the activity is resumed and from the menu. It ends from the menu, with a pause, when a
lock is chosen, and by a runnable that is posted for 1000 ms. Only a pause takes runnables back, so that
of an earlier scan can end a later one; and once Bluetooth is off there is no scanner to stop.

* `ScanActivity.step` — a call of the activity, a result of the scanner, or a millisecond.
* `settled` — what a step leaves where it throws nothing (`step_settled`).
* `Aged` — a scan began so many milliseconds ago, and no pause came since.
* `scans` — for every run: when the activity is scanning, which locks it lists, and when it crashes.
-/

import Esloq.Lib.Machine
import Esloq.Lib.Since
import Esloq.Lib.Timers
import Mathlib.Data.List.Nodup

namespace Esloq

open Machine Timers Histories

/-! ### The activity -/

/-- What the activity does. -/
inductive ScanEvent
  | startScan
  | stopScan
  | requestLocationPermission
  | showEnableBluetooth
  | showAddLock (mac : String)
  | showLockList
  deriving DecidableEq

/-- What it throws. -/
inductive ScanException
  /-- `getBluetoothLeScanner` has returned `null`. -/
  | nullPointer
  | indexOutOfBounds
  deriving DecidableEq

/-- The calls of the activity and of its callbacks. -/
inductive ScanInput
  /-- `onResume`, with whether the location may be used. -/
  | onResume (permitted : Bool)
  | onPause
  /-- `onOptionsItemSelected` with `menu_scan`. -/
  | menuScan
  | menuStop
  | onViewClicked (position : ℕ)
  /-- `onScanResult`, with the address of the device. -/
  | onScanResult (device : String)
  | onActivityResult (ok : Bool)
  | onRequestPermissionsResult (granted : Bool)
  /-- Bluetooth is turned on or off. -/
  | bluetooth (enabled : Bool)
  | millisecond
  deriving DecidableEq

/-- `ScanActivity`, and whether Bluetooth is enabled. -/
@[ext] structure ScanActivity where
  bluetooth : Bool
  scanning : Bool
  progressIndicator : Bool
  scannedDevices : List String
  handler : Handler Unit
  deriving DecidableEq

/-- What a call leaves. -/
abbrev ScanTurn := Turn ScanActivity ScanEvent ScanException

/-- `SCAN_PERIOD_MS`. -/
def scanPeriodMs : ℕ := 1000

namespace ScanActivity

/-- The activity when it is created. -/
def created (bluetooth : Bool) : ScanActivity := ⟨bluetooth, false, false, [], []⟩

variable (activity : ScanActivity)

def setProgressIndicator (active : Bool) : ScanActivity := { activity with progressIndicator := active }

/-- `startScan`. -/
def startScan : ScanTurn :=
  if activity.bluetooth then
    .emit { activity with
      scannedDevices := []
      handler := activity.handler ++ [(scanPeriodMs, ())]
      scanning := true } [.startScan]
  else .emit activity [.showEnableBluetooth]

/-- `stopScan`; no scanner is there while Bluetooth is off. -/
def stopScan : ScanTurn :=
  if activity.scanning then
    let activity := { activity with scanning := false }
    if activity.bluetooth then .emit activity [.stopScan] else ⟨activity, [], some .nullPointer⟩
  else .pure activity

/-- `ScanPresenter.onStartScan`. -/
def onStartScan : ScanTurn := (activity.setProgressIndicator true).startScan

/-- `ScanPresenter.onStopScan`. -/
def onStopScan : ScanTurn := activity.stopScan.andThen fun activity => .pure (activity.setProgressIndicator false)

def onResume (permitted : Bool) : ScanTurn :=
  if permitted then activity.onStartScan else .emit activity [.requestLocationPermission]

def onPause : ScanTurn :=
  activity.onStopScan.andThen fun activity => .pure { activity with handler := [], scannedDevices := [] }

/-- `ScanAdapter.addDevice`. -/
def addDevice (device : String) : ScanActivity :=
  if device ∈ activity.scannedDevices then activity
  else { activity with scannedDevices := activity.scannedDevices ++ [device] }

def onViewClicked (position : ℕ) : ScanTurn :=
  match activity.scannedDevices[position]? with
  | none => ⟨activity, [], some .indexOutOfBounds⟩
  | some device =>
      (if activity.scanning then activity.onStopScan else .pure activity).andThen fun activity =>
        .emit activity [.showAddLock device]

/-- `onActivityResult` and `onRequestPermissionsResult`. -/
def onResult (ok : Bool) : ScanTurn := if ok then .pure activity else .emit activity [.showLockList]

/-- A millisecond passes; each runnable that is due stops the scan. -/
def millisecond : ScanTurn :=
  run (fun _ activity => activity.onStopScan) (due activity.handler)
    { activity with handler := elapse activity.handler }

/-- One call of the activity. -/
def step (input : ScanInput) (activity : ScanActivity) : ScanTurn :=
  match input with
  | .onResume permitted => activity.onResume permitted
  | .onPause => activity.onPause
  | .menuScan => activity.onStartScan
  | .menuStop => activity.onStopScan
  | .onViewClicked position => activity.onViewClicked position
  | .onScanResult device => .pure (activity.addDevice device)
  | .onActivityResult ok => activity.onResult ok
  | .onRequestPermissionsResult granted => activity.onResult granted
  | .bluetooth enabled => .pure { activity with bluetooth := enabled }
  | .millisecond => activity.millisecond

end ScanActivity

/-! ### What a step leaves -/

namespace ScanInput

/-- The input asks for a scan. -/
def starts : ScanInput → Bool
  | .onResume permitted => permitted
  | .menuScan => true
  | _ => false

/-- A scan begins. -/
def begins (input : ScanInput) (activity : ScanActivity) : Bool := input.starts && activity.bluetooth

/-- The input stops a scan: the menu, a pause, or a lock that is chosen. -/
def stops (input : ScanInput) (activity : ScanActivity) : Bool :=
  match input with
  | .onPause => true
  | .menuStop => true
  | .onViewClicked position => position < activity.scannedDevices.length
  | _ => false

/-- A runnable stops a scan. -/
def expires (input : ScanInput) (activity : ScanActivity) : Bool :=
  decide (input = .millisecond) && !(due activity.handler).isEmpty

/-- The input, or a runnable, stops a scan. -/
def ends (input : ScanInput) (activity : ScanActivity) : Bool := input.stops activity || input.expires activity

/-- The list is cleared. -/
def clears (input : ScanInput) (activity : ScanActivity) : Bool :=
  decide (input = .onPause) || input.begins activity

end ScanInput

namespace ScanActivity

variable (activity : ScanActivity)

/-- What a step leaves where it throws nothing. -/
def settled (input : ScanInput) (activity : ScanActivity) : ScanActivity where
  bluetooth :=
    match input with
    | .bluetooth enabled => enabled
    | _ => activity.bluetooth
  scanning := input.begins activity || activity.scanning && !input.ends activity
  progressIndicator :=
    input.starts || activity.progressIndicator && !(match input with
      | .onViewClicked _ => input.stops activity && activity.scanning
      | _ => input.ends activity)
  scannedDevices :=
    match input with
    | .onScanResult device =>
        if device ∈ activity.scannedDevices then activity.scannedDevices else activity.scannedDevices ++ [device]
    | _ => if input.clears activity then [] else activity.scannedDevices
  handler :=
    (if input = .onPause then [] else if input = .millisecond then elapse activity.handler else activity.handler) ++
      if input.begins activity then [(scanPeriodMs, ())] else []

/-- A step that stops the scan throws, where it has begun and Bluetooth is off now, or it leaves an activity. -/
def Stops (activity : ScanActivity) (turn : ScanTurn) (left : ScanActivity) : Prop :=
  (activity.scanning = true ∧ activity.bluetooth = false ∧ turn.fault = some .nullPointer) ∨
    (activity.scanning = true → activity.bluetooth = true) ∧ turn.fault = none ∧ turn.state = left

/-- The activity after its scan is stopped. -/
def stopped : ScanActivity := { activity with scanning := false, progressIndicator := false }

theorem onStopScan_stops : activity.Stops activity.onStopScan activity.stopped := by
  obtain ⟨bluetooth, scanning, progressIndicator, scannedDevices, handler⟩ := activity
  cases scanning with
  | false => exact Or.inr ⟨nofun, rfl, rfl⟩
  | true =>
      cases bluetooth with
      | false => exact Or.inl ⟨rfl, rfl, rfl⟩
      | true => exact Or.inr ⟨fun _ => rfl, rfl, rfl⟩

variable {activity}

/-- What follows where nothing is thrown. -/
theorem Stops.andThen {turn : ScanTurn} {left left' : ScanActivity} (stops : activity.Stops turn left)
    {next : ScanActivity → ScanTurn} (ok : (next left).fault = none) (leaves : (next left).state = left') :
    activity.Stops (turn.andThen next) left' := by
  rcases stops with ⟨scanning, off, thrown⟩ | ⟨enabled, none', rfl⟩
  · rw [Turn.andThen_of_fault thrown]
    exact Or.inl ⟨scanning, off, thrown⟩
  · rw [Turn.andThen_of_ok none']
    exact Or.inr ⟨enabled, ok, leaves⟩

/-- Several runnables are as good as one. -/
theorem stops_run : ∀ {posts : List Unit}, posts ≠ [] →
    activity.Stops (run (fun _ activity => activity.onStopScan) posts activity) activity.stopped
  | [], some' => absurd rfl some'
  | _ :: posts, _ => by
      rw [run_cons]
      have again : ∀ later : List Unit,
          (run (fun _ activity => activity.onStopScan) later activity.stopped : ScanTurn) =
            .pure activity.stopped := by
        intro later
        induction later with
        | nil => rfl
        | cons _ later ih => exact ih
      exact activity.onStopScan_stops.andThen (by rw [again]; rfl) (by rw [again]; rfl)

variable (activity)

/-- A scan begins, or the user is asked to enable Bluetooth. -/
theorem onStartScan_settled :
    activity.onStartScan.fault = none ∧ activity.onStartScan.state = settled .menuScan activity := by
  unfold onStartScan startScan setProgressIndicator
  by_cases enabled : activity.bluetooth = true
  · rw [if_pos enabled]
    simp [settled, ScanInput.begins, ScanInput.starts, ScanInput.clears, enabled, Turn.emit]
  · rw [if_neg enabled]
    simp [settled, ScanInput.begins, ScanInput.starts, ScanInput.ends, ScanInput.stops, ScanInput.expires,
      ScanInput.clears, enabled, Turn.emit]

/-- A lock is chosen, and its scan stopped. -/
theorem onViewClicked_stops {position : ℕ} (listed : position < activity.scannedDevices.length) :
    activity.Stops (activity.onViewClicked position) (settled (.onViewClicked position) activity) := by
  have stops : (ScanInput.onViewClicked position).stops activity = true := decide_eq_true listed
  have ends : (ScanInput.onViewClicked position).ends activity = true := by
    rw [ScanInput.ends, stops, Bool.true_or]
  unfold onViewClicked
  rw [List.getElem?_eq_getElem listed]
  cases scanning : activity.scanning with
  | true =>
      refine activity.onStopScan_stops.andThen rfl ?_
      simp [settled, stopped, ScanInput.begins, ScanInput.starts, ScanInput.clears, ends, stops, scanning,
        Turn.emit]
  | false =>
      refine Or.inr ⟨fun scans => absurd (scanning.symm.trans scans) Bool.false_ne_true, rfl, ?_⟩
      show activity = settled (.onViewClicked position) activity
      apply ScanActivity.ext <;>
        simp [settled, ScanInput.begins, ScanInput.starts, ScanInput.clears, ends, scanning]

/-- The runnables that are due stop a scan. -/
theorem millisecond_stops (some' : due activity.handler ≠ []) :
    activity.Stops activity.millisecond (settled .millisecond activity) := by
  have ends : ScanInput.millisecond.ends activity = true := by
    simp [ScanInput.ends, ScanInput.stops, ScanInput.expires, some']
  have leaves : ({ activity with handler := elapse activity.handler } : ScanActivity).stopped =
      settled .millisecond activity := by
    simp [stopped, settled, ScanInput.begins, ScanInput.starts, ScanInput.clears, ends]
  rw [← leaves]
  exact @stops_run { activity with handler := elapse activity.handler } _ some'

/-- Another step than these throws nothing. -/
theorem step_settled_of_goes {input : ScanInput} (goes : input.ends activity = false)
    (row : ∀ position, input ≠ .onViewClicked position) :
    (step input activity).fault = none ∧ (step input activity).state = settled input activity := by
  cases input with
  | onPause | menuStop => cases goes
  | onViewClicked position => exact absurd rfl (row position)
  | menuScan => exact activity.onStartScan_settled
  | onResume permitted =>
      cases permitted with
      | true => exact activity.onStartScan_settled
      | false =>
          simp [step, onResume, settled, goes, ScanInput.begins, ScanInput.starts, ScanInput.clears, Turn.emit]
  | onScanResult device =>
      refine ⟨rfl, ?_⟩
      simp only [step, addDevice, Turn.pure]
      split <;> simp [settled, ScanInput.begins, ScanInput.starts, *]
  | onActivityResult ok | onRequestPermissionsResult ok =>
      cases ok <;>
        simp [step, onResult, settled, goes, ScanInput.begins, ScanInput.starts, ScanInput.clears, Turn.emit,
          Turn.pure]
  | bluetooth enabled =>
      simp [step, settled, goes, ScanInput.begins, ScanInput.starts, ScanInput.clears, Turn.pure]
  | millisecond =>
      have none' : due activity.handler = [] := by
        simpa [ScanInput.ends, ScanInput.stops, ScanInput.expires] using goes
      simp [step, millisecond, none', settled, goes, ScanInput.begins, ScanInput.starts, ScanInput.clears,
        Turn.pure]

/-- **What one step does**: it stops a scan, or a row is chosen that is not listed, or it throws nothing. -/
theorem step_cases (input : ScanInput) :
    (input.ends activity = true ∧ activity.Stops (step input activity) (settled input activity)) ∨
      (input.ends activity = false ∧ (step input activity).fault = some .indexOutOfBounds) ∨
        input.ends activity = false ∧ (step input activity).fault = none ∧
          (step input activity).state = settled input activity := by
  by_cases ends : input.ends activity = true
  · refine Or.inl ⟨ends, ?_⟩
    cases input with
    | onPause =>
        refine activity.onStopScan_stops.andThen rfl ?_
        simp [settled, stopped, ends, ScanInput.begins, ScanInput.starts, ScanInput.clears, Turn.pure]
    | menuStop =>
        have leaves : activity.stopped = settled .menuStop activity := by
          simp [settled, stopped, ends, ScanInput.begins, ScanInput.starts, ScanInput.clears]
        exact leaves ▸ activity.onStopScan_stops
    | onViewClicked position =>
        apply onViewClicked_stops
        simpa [ScanInput.ends, ScanInput.stops, ScanInput.expires] using ends
    | millisecond =>
        apply millisecond_stops
        simpa [ScanInput.ends, ScanInput.stops, ScanInput.expires] using ends
    | _ => simp [ScanInput.ends, ScanInput.stops, ScanInput.expires] at ends
  · have goes : input.ends activity = false := Bool.eq_false_iff.mpr ends
    by_cases row : ∃ position, input = .onViewClicked position
    · obtain ⟨position, rfl⟩ := row
      have unlisted : activity.scannedDevices.length ≤ position := by
        simpa [ScanInput.ends, ScanInput.stops, ScanInput.expires] using goes
      refine Or.inr (Or.inl ⟨goes, ?_⟩)
      show (activity.onViewClicked position).fault = _
      unfold onViewClicked
      rw [List.getElem?_eq_none unlisted]
    · exact Or.inr (Or.inr ⟨goes, activity.step_settled_of_goes goes fun position same => row ⟨position, same⟩⟩)

/-- Where a step throws nothing it leaves what is settled. -/
theorem step_settled {input : ScanInput} (ok : (step input activity).fault = none) :
    (step input activity).state = settled input activity := by
  rcases activity.step_cases input with ⟨-, ⟨-, -, thrown⟩ | ⟨-, -, leaves⟩⟩ | ⟨-, thrown⟩ | ⟨-, -, leaves⟩
  · cases thrown.symm.trans ok
  · exact leaves
  · cases thrown.symm.trans ok
  · exact leaves

/-- A step throws the null pointer exactly if it stops a scan with Bluetooth off. -/
theorem step_nullPointer_iff {input : ScanInput} : (step input activity).fault = some .nullPointer ↔
    input.ends activity = true ∧ activity.scanning = true ∧ activity.bluetooth = false := by
  rcases activity.step_cases input with ⟨ends, ⟨scanning, off, thrown⟩ | ⟨on, ok, -⟩⟩ | ⟨goes, thrown⟩ | ⟨goes, ok, -⟩
  · exact iff_of_true thrown ⟨ends, scanning, off⟩
  · rw [ok]
    exact iff_of_false nofun fun ⟨_, scanning, off⟩ => Bool.false_ne_true (off.symm.trans (on scanning))
  · rw [thrown]
    exact iff_of_false nofun fun ⟨ends, _⟩ => Bool.false_ne_true (goes.symm.trans ends)
  · rw [ok]
    exact iff_of_false nofun fun ⟨ends, _⟩ => Bool.false_ne_true (goes.symm.trans ends)

end ScanActivity

/-! ### Histories -/

/-- The activity as a machine with a handler. -/
def looking : Posting ScanActivity ScanInput Unit where
  step := ScanActivity.settled
  handler := ScanActivity.handler
  posts input activity := if input.begins activity then some () else none
  clears input := input = .onPause
  elapses input := input = .millisecond
  delay := scanPeriodMs
  positive := by decide
  handler_step input activity := by
    show (if input = .onPause then [] else _) ++ _ = _
    cases input.begins activity <;> simp

section History

variable (bluetooth : Bool)

/-- The activity after a history in which nothing is thrown. -/
def scanAfter (inputs : List ScanInput) : ScanActivity := looking.after inputs (.created bluetooth)

/-- A scan begins with this step. -/
def ScanBegins (before : List ScanInput) (input : ScanInput) : Prop :=
  input.begins (scanAfter bluetooth before) = true

/-- A scan began so many milliseconds ago, and no pause came since. -/
def Aged (inputs : List ScanInput) (ago : ℕ) : Prop :=
  ∃ before input since, inputs = before ++ input :: since ∧ ScanBegins bluetooth before input ∧
    .onPause ∉ since ∧ since.count .millisecond = ago

/-- The scan ends with this step: it is stopped, or some scan becomes 1000 ms old. -/
def ScanEnds (before : List ScanInput) (input : ScanInput) : Prop :=
  input.stops (scanAfter bluetooth before) = true ∨ input = .millisecond ∧ Aged bluetooth before 999

/-- The list is cleared with this step. -/
def ListCleared (before : List ScanInput) (input : ScanInput) : Prop :=
  input = .onPause ∨ ScanBegins bluetooth before input

variable {bluetooth} {inputs : List ScanInput} {input : ScanInput}

theorem scanAfter_concat : scanAfter bluetooth (inputs ++ [input]) =
    ScanActivity.settled input (scanAfter bluetooth inputs) :=
  Posting.after_concat

theorem waits_iff_aged {ago : ℕ} :
    looking.Waits inputs (.created bluetooth) () ago ↔ Aged bluetooth inputs ago := by
  have passed (since : List ScanInput) : looking.elapsed since = since.count .millisecond := by
    refine List.countP_congr fun input _ => ?_
    show decide (input = .millisecond) = true ↔ (input == .millisecond) = true
    rw [decide_eq_true_iff, beq_iff_eq]
  have calm (since : List ScanInput) : (∀ later ∈ since, looking.clears later = false) ↔ .onPause ∉ since := by
    constructor
    · intro kept member
      exact absurd (kept .onPause member) (by decide)
    · intro absent later member
      exact decide_eq_false fun same => absent (same ▸ member)
  have posts (before : List ScanInput) (input : ScanInput) :
      looking.posts input (looking.after before (.created bluetooth)) = some () ↔
        ScanBegins bluetooth before input :=
    Option.ite_none_right_eq_some.trans (and_iff_left rfl)
  unfold Posting.Waits Aged
  simp only [posts, calm, passed]

/-- A runnable is due exactly when some scan becomes 1000 ms old. -/
theorem ends_iff : input.ends (scanAfter bluetooth inputs) = true ↔ ScanEnds bluetooth inputs input := by
  have fired : (due (scanAfter bluetooth inputs).handler).isEmpty = false ↔ Aged bluetooth inputs 999 := by
    have due_iff := @Posting.mem_due_iff _ _ _ looking (.created bluetooth) () inputs rfl
    simp only [waits_iff_aged] at due_iff
    constructor
    · intro some'
      obtain ⟨⟨⟩, member⟩ := List.exists_mem_of_ne_nil _ (List.isEmpty_eq_false_iff.mp some')
      obtain ⟨ago, aged, sum⟩ := due_iff.mp member
      exact Nat.succ.inj sum ▸ aged
    · intro aged
      exact List.isEmpty_eq_false_iff.mpr (List.ne_nil_of_mem (due_iff.mpr ⟨999, aged, rfl⟩))
  unfold ScanInput.ends ScanInput.expires ScanEnds
  rw [Bool.or_eq_true, Bool.and_eq_true, decide_eq_true_iff, Bool.not_eq_true', fired]

theorem scanning_iff : (scanAfter bluetooth inputs).scanning = true ↔
    Since (ScanBegins bluetooth) (ScanEnds bluetooth) inputs := by
  refine iff_since (P := fun inputs => (scanAfter bluetooth inputs).scanning = true) nofun ?_
  intro inputs input
  rw [scanAfter_concat, ← ends_iff, Bool.not_eq_true]
  show (_ || _ && !_) = true ↔ _
  rw [Bool.or_eq_true, Bool.and_eq_true, Bool.not_eq_true']
  rfl

/-- While it scans the indicator is shown. -/
theorem indicator_of_scanning (scanning : (scanAfter bluetooth inputs).scanning = true) :
    (scanAfter bluetooth inputs).progressIndicator = true := by
  induction inputs using List.reverseRecOn with
  | nil => cases scanning
  | append_singleton inputs input ih =>
      rw [scanAfter_concat] at scanning ⊢
      rcases Bool.or_eq_true_iff.mp scanning with begins | goes
      · have starts : input.starts = true := (Bool.and_eq_true_iff.mp begins).1
        show (input.starts || _) = true
        rw [starts, Bool.true_or]
      · obtain ⟨scans, goes⟩ := Bool.and_eq_true_iff.mp goes
        have goes : input.ends (scanAfter bluetooth inputs) = false := Bool.not_eq_true' _ |>.mp goes
        have stays : input.stops (scanAfter bluetooth inputs) = false := (Bool.or_eq_false_iff.mp goes).1
        show (input.starts || _ && !_) = true
        rw [ih scans, Bool.true_and]
        cases input <;> simp [goes, stays]

/-- What a step does to the list. -/
theorem scannedDevices_settled (activity : ScanActivity) :
    (ScanActivity.settled input activity).scannedDevices =
      match input with
      | .onScanResult device => (activity.addDevice device).scannedDevices
      | _ => if input.clears activity then [] else activity.scannedDevices := by
  cases input with
  | onScanResult device =>
      show (if device ∈ activity.scannedDevices then _ else _) = (activity.addDevice device).scannedDevices
      unfold ScanActivity.addDevice
      split <;> rfl
  | _ => rfl

theorem mem_addDevice {activity : ScanActivity} {device other : String} :
    other ∈ (activity.addDevice device).scannedDevices ↔ other = device ∨ other ∈ activity.scannedDevices := by
  unfold ScanActivity.addDevice
  by_cases listed : device ∈ activity.scannedDevices
  · rw [if_pos listed]
    exact ⟨Or.inr, fun either => either.elim (fun same => same ▸ listed) id⟩
  · rw [if_neg listed, List.mem_append, List.mem_singleton, or_comm]

theorem clears_iff : input.clears (scanAfter bluetooth inputs) = true ↔ ListCleared bluetooth inputs input := by
  rw [ScanInput.clears, Bool.or_eq_true, decide_eq_true_iff]
  rfl

/-- A lock is listed since a result, until the list is cleared. -/
theorem listed_iff {device : String} : device ∈ (scanAfter bluetooth inputs).scannedDevices ↔
    Since (fun _ input => input = .onScanResult device) (ListCleared bluetooth) inputs := by
  refine iff_since (P := fun inputs => device ∈ (scanAfter bluetooth inputs).scannedDevices) List.not_mem_nil ?_
  intro inputs input
  rw [scanAfter_concat, scannedDevices_settled, ← clears_iff]
  cases input with
  | onScanResult other =>
      have stays : (ScanInput.onScanResult other).clears (scanAfter bluetooth inputs) = false := rfl
      rw [stays, mem_addDevice, ScanInput.onScanResult.injEq]
      exact or_congr eq_comm (and_iff_left Bool.false_ne_true).symm
  | _ =>
      dsimp only
      split
      · rename_i cleared
        exact iff_of_false List.not_mem_nil fun either =>
          either.elim nofun fun stays => stays.2 cleared
      · rename_i stays
        exact ⟨fun member => Or.inr ⟨member, stays⟩, fun either => either.elim nofun And.left⟩

theorem nodup_scannedDevices : (scanAfter bluetooth inputs).scannedDevices.Nodup := by
  induction inputs using List.reverseRecOn with
  | nil => exact List.nodup_nil
  | append_singleton inputs input ih =>
      rw [scanAfter_concat, scannedDevices_settled]
      cases input with
      | onScanResult device =>
          show (ScanActivity.addDevice _ _).scannedDevices.Nodup
          unfold ScanActivity.addDevice
          split
          · exact ih
          · rename_i fresh
            show (_ ++ [device]).Nodup
            rw [← List.concat_eq_append]
            exact List.Nodup.concat fresh ih
      | _ =>
          dsimp only
          split
          · exact List.nodup_nil
          · exact ih

end History

/-! ### Runs -/

/-- A run that throws nothing leaves what is settled. -/
theorem state_scanRun {bluetooth : Bool} {inputs : List ScanInput}
    (ok : (run ScanActivity.step inputs (.created bluetooth)).fault = none) :
    (run ScanActivity.step inputs (.created bluetooth)).state = scanAfter bluetooth inputs := by
  induction inputs using List.reverseRecOn with
  | nil => rfl
  | append_singleton inputs input ih =>
      rw [run_append] at ok ⊢
      obtain ⟨first, last⟩ := Turn.ok_of_andThen ok
      rw [Turn.andThen_of_ok first]
      rw [run_single] at last ⊢
      show (ScanActivity.step input (run ScanActivity.step inputs (.created bluetooth)).state).state = _
      rw [ScanActivity.step_settled _ last, ih first, scanAfter_concat]

/-- What holds of a run of the activity. -/
structure Scans (bluetooth : Bool) (inputs : List ScanInput) (turn : ScanTurn) : Prop where
  /-- It is scanning since a scan began, until one is stopped or becomes 1000 ms old. -/
  scanning : turn.fault = none →
    (turn.state.scanning = true ↔ Since (ScanBegins bluetooth) (ScanEnds bluetooth) inputs)
  indicator : turn.fault = none → turn.state.scanning = true → turn.state.progressIndicator = true
  /-- It lists what was found since the list was cleared, once each. -/
  listed : turn.fault = none → ∀ device, device ∈ turn.state.scannedDevices ↔
    Since (fun _ input => input = .onScanResult device) (ListCleared bluetooth) inputs
  once : turn.fault = none → turn.state.scannedDevices.Nodup
  /-- It crashes where a scan ends after Bluetooth was turned off. -/
  crashes : turn.fault = some .nullPointer ↔ ∃ before input rest, inputs = before ++ input :: rest ∧
    (run ScanActivity.step before (.created bluetooth)).fault = none ∧
      Since (ScanBegins bluetooth) (ScanEnds bluetooth) before ∧ ScanEnds bluetooth before input ∧
        (run ScanActivity.step before (.created bluetooth)).state.bluetooth = false

/-- **A scan ends when some scan becomes 1000 ms old, and crashes if Bluetooth is off by then**, in every
run. -/
theorem scans (bluetooth : Bool) (inputs : List ScanInput) :
    Scans bluetooth inputs (run ScanActivity.step inputs (.created bluetooth)) where
  scanning ok := by
    rw [state_scanRun ok]
    exact scanning_iff
  indicator ok scanning := by
    rw [state_scanRun ok] at scanning ⊢
    exact indicator_of_scanning scanning
  listed ok device := by
    rw [state_scanRun ok]
    exact listed_iff
  once ok := by
    rw [state_scanRun ok]
    exact nodup_scannedDevices
  crashes := by
    rw [fault_run_iff]
    refine exists_congr fun before => exists_congr fun input => exists_congr fun rest =>
      and_congr_right fun _ => and_congr_right fun ok => ?_
    rw [ScanActivity.step_nullPointer_iff, state_scanRun ok, ends_iff, scanning_iff]
    exact and_left_comm

-- The runnable of a scan that was stopped after 600 ms ends the next one after 400 ms.
example : (run ScanActivity.step ([.onResume true] ++ List.replicate 600 .millisecond ++
    [.menuStop, .menuScan] ++ List.replicate 400 .millisecond) (.created true)).events =
      [.startScan, .stopScan, .startScan, .stopScan] := by
  decide +kernel

end Esloq
