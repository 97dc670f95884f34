/-
**The responses of the lock reach the app whole and in order (`main.c`, `BluetoothService.java`).**

A response of 41 bytes leaves the lock as three writes of 20, 20 and 1 bytes. The first is made by the
message processor, each next one by the handler of `rsp_attributes_write`, which cannot tell to which
write it belongs. The Bluetooth module executes the writes in order, notifies the app of each and
answers it some time later; a notification carries the written bytes or the whole value of 20 bytes.

* `Link` — the lock, the module's queue, its notifications under way, the number of writes it has not
  answered, and the app. `Link.step` is one step of any of them.
* `Link.Resting`, `Link.Sending` — the invariant. Between two responses nothing is under way, and late
  answers find all sections sent; while one is sent, its sections are those assembled, those under way
  and those in the queue.
* `transport_intact` — what the app has assembled is a beginning of what the lock has answered, short
  of at most the last response, and of none once everything has been executed, delivered and answered.
-/

import Esloq.Firmware.Reassembly
import Esloq.Session.Joint

namespace Esloq

open Machine

/-! ### The link -/

/-- The responses the lock encrypts. -/
def responses (effects : List Effect) : List (List UInt8) :=
  effects.filterMap fun
    | .encrypted _ _ nonce _ c => some (message nonce c).toList
    | _ => none

/-- The message that `handleMessage` assembles with a notification. -/
def App.completed (app : App) (value : List UInt8) : Option (List UInt8) :=
  app.incoming.bind fun incoming =>
    let put := if incoming.length = 40 then incoming ++ value.take 1 else incoming ++ value
    if put.length = 41 then some put else none

/-- A connection between the lock and the app. -/
structure Link where
  lock : Lock
  app : App
  /-- Writes that the module has not executed. -/
  queue : List (List UInt8)
  /-- Notifications on their way to the app. -/
  air : List (List UInt8)
  /-- The number of executed writes that the module has not answered. -/
  unanswered : Nat
  /-- What the lock has answered since the connection. -/
  answered : List (List UInt8)
  /-- What `handleMessage` has assembled since then. -/
  assembled : List (List UInt8)
  deriving DecidableEq

/-- A notification carries the written bytes, or a value of 20 bytes that starts with them. -/
def Carries (written notification : List UInt8) : Prop :=
  notification = written ∨ notification.length = 20 ∧ written <+: notification

instance (written notification : List UInt8) : Decidable (Carries written notification) :=
  inferInstanceAs (Decidable (_ ∨ _ ∧ _))

/-- A step of one of the parties. A pass of the main loop is `fsm` followed by `packet`. -/
inductive Move
  | fsm (lowBattery : Bool)
  | packet (received : Received) (press : Option Rotation)
  /-- The module executes a write and notifies the app. -/
  | execute (notification : List UInt8)
  /-- A notification reaches the app. -/
  | notify
  /-- The app encrypts a request. -/
  | request (clockwise : Bool)
  deriving DecidableEq

/-- What the module may tell the lock: an answer with result 0 to a write it has executed, a write of
the peer if that has received a whole response to whatever the lock has answered, and any other
message. -/
def Link.mayReceive (link : Link) : Received → Bool
  | .timeout => true
  | .error => false
  | .msg (.rspAttributesWrite result) => result = 0 && 0 < link.unanswered
  | .msg (.evtAttributesValue handle _) =>
      handle ≠ cLockReceive || link.assembled.length = link.answered.length
  | .msg _ => true

/-- The lock after a part of a pass, with its writes in the module's queue. -/
def Link.locked (link : Link) (turn : LockTurn) : Option Link :=
  match turn.fault with
  | some _ => none
  | none => some { link with
      lock := turn.state
      queue := link.queue ++ transmitted turn.events
      answered := link.answered ++ responses turn.events }

/-- A step, if it can be taken. -/
def Link.step (box : Secretbox) (move : Move) (link : Link) : Option Link :=
  match move with
  | .fsm lowBattery => link.locked (fsmProcess box lowBattery link.lock)
  | .packet received press =>
      if link.mayReceive received then
        match received with
        | .msg (.rspAttributesWrite _) =>
            { link with unanswered := link.unanswered - 1 }.locked
              (processPacket received press link.lock)
        | _ => link.locked (processPacket received press link.lock)
      else none
  | .execute notification =>
      match link.queue with
      | [] => none
      | written :: queue =>
          if Carries written notification then some { link with
            queue := queue
            air := link.air ++ [notification]
            unanswered := link.unanswered + 1 }
          else none
  | .notify =>
      match link.air with
      | [] => none
      | notification :: air => some { link with
          air := air
          app := (link.app.handleMessage box notification).state
          assembled := link.assembled ++ (link.app.completed notification).toList }
  | .request clockwise =>
      let code := if clockwise then LockRequestCode.rotateClockwise else .rotateCounterClockwise
      some { link with app := (link.app.sendEncryptedMessage box code.byte).state }

/-- Steps after each other. -/
def Link.run (box : Secretbox) (moves : List Move) (link : Link) : Option Link :=
  moves.foldlM (fun link move => link.step box move) link

/-- A connection on which nothing has been answered: the app's buffer is empty, and no write is under
way, or all sections of an earlier response have been sent. -/
structure Link.Fresh (link : Link) : Prop where
  queue : link.queue = []
  air : link.air = []
  answered : link.answered = []
  assembled : link.assembled = []
  incoming : link.app.incoming = some []
  late : link.unanswered = 0 ∨ 2 ≤ link.lock.attWriteBuffer.sectionSent.toNat

/-! ### What the parts do to the response -/

theorem responses_append (first second : List Effect) :
    responses (first ++ second) = responses first ++ responses second := List.filterMap_append

/-- Effects that neither transmit nor encrypt. -/
structure Quiet (events : List Effect) : Prop where
  transmitted : transmitted events = []
  responses : responses events = []

theorem quiet_nil : Quiet [] := ⟨rfl, rfl⟩

/-- What the shared end of the processors does to the response, in a call that adds nothing else. -/
theorem respond_answers {box : Secretbox} {m : UInt8} {l : Lock} {effects : List Effect}
    (quiet : Quiet effects) {after : UInt8 → Lock → LockTurn}
    (served : after 0 = .pure)
    (failed : ∀ l, ∃ l' events, after 3 l = .emit l' events ∧ l'.attWriteBuffer = l.attWriteBuffer ∧
      Quiet events)
    (ok : ((respond box .requestW m l effects).2.andThen
      (after (respond box .requestW m l effects).1)).fault = none) :
    let turn := (respond box .requestW m l effects).2.andThen
      (after (respond box .requestW m l effects).1)
    (turn.state.attWriteBuffer = l.attWriteBuffer ∧ Quiet turn.events) ∨
    ∃ rsp : Bytes 41, turn.state.attWriteBuffer = ⟨0, rsp⟩ ∧ turn.state.state = .requestW ∧
      transmitted turn.events = [(rsp.slice 0 20 (by decide)).toList] ∧
      responses turn.events = [rsp.toList] := by
  intro turn
  rcases respond_cases box l .requestW m effects with
    ⟨-, same⟩ | ⟨next, -, same | ⟨c, -, same⟩⟩
  · rw [same] at ok
    cases ok
  · left
    obtain ⟨l', events, fails, kept, quiet'⟩ := failed { l with sessionNonce := next }
    simp only [turn, same, fails, Turn.emit_andThen]
    refine ⟨kept, ?_, ?_⟩
    · rw [Turn.emit, transmitted_append, transmitted_append, quiet.transmitted, quiet'.transmitted]
      rfl
    · rw [Turn.emit, responses_append, responses_append, quiet.responses, quiet'.responses]
      rfl
  · right
    simp only [turn, same, served, Turn.andThen_pure]
    refine ⟨message next c, rfl, rfl, ?_, ?_⟩
    · rw [Turn.emit, transmitted_append, quiet.transmitted]
      rfl
    · rw [Turn.emit, responses_append, quiet.responses]
      rfl

/-- `fsm_process` answers a message, or leaves the response as it is. -/
theorem fsmProcess_answers (box : Secretbox) (lowBattery : Bool) (l : Lock)
    (ok : (fsmProcess box lowBattery l).fault = none) :
    ((fsmProcess box lowBattery l).state.attWriteBuffer = l.attWriteBuffer ∧
      Quiet (fsmProcess box lowBattery l).events) ∨
    ∃ rsp : Bytes 41, (fsmProcess box lowBattery l).state.attWriteBuffer = ⟨0, rsp⟩ ∧
      (fsmProcess box lowBattery l).state.state = .requestW ∧
      transmitted (fsmProcess box lowBattery l).events = [(rsp.slice 0 20 (by decide)).toList] ∧
      responses (fsmProcess box lowBattery l).events = [rsp.toList] := by
  cases state : l.state with
  | ticket =>
      rw [fsmProcess_of_ticket box lowBattery state] at ok ⊢
      rcases processTicketMsg_cases box lowBattery l with
        ⟨-, same⟩ | ⟨-, ⟨-, same⟩ | ⟨key, -, same⟩⟩
      · rw [same]
        exact Or.inl ⟨rfl, rfl, rfl⟩
      · rw [same]
        exact Or.inl ⟨rfl, rfl, rfl⟩
      · rw [same] at ok ⊢
        exact respond_answers (l := ticketAccepted l key) ⟨rfl, rfl⟩ rfl
          (fun l => ⟨_, _, rfl, rfl, rfl, rfl⟩) ok
  | request =>
      rw [fsmProcess_of_request box lowBattery state] at ok ⊢
      rcases processRequestMsg_cases box l with
        ⟨-, same⟩ | ⟨-, ⟨-, same⟩ | ⟨request, -, same⟩⟩
      · rw [same]
        exact Or.inl ⟨rfl, rfl, rfl⟩
      · rw [same]
        exact Or.inl ⟨rfl, rfl, rfl⟩
      · rw [same] at ok ⊢
        have quiet : Quiet ([.requestMsg (bufferedRequest l),
            .requestDecrypted l.sessionKey (bufferedRequest l) request] ++
              ((requestedRotation request).map (Effect.rotate .remote)).toList) := by
          cases requestedRotation request <;> exact ⟨rfl, rfl⟩
        exact respond_answers quiet rfl (fun l => ⟨_, _, rfl, rfl, rfl, rfl⟩) ok
  | _ =>
      left
      rw [fsmProcess, state]
      exact ⟨rfl, rfl, rfl⟩

/-- Away from a complete message it stays away from one, and is quiet. -/
theorem fsmProcess_quiet (box : Secretbox) (lowBattery : Bool) {l : Lock}
    (noTicket : l.state ≠ .ticket) (noRequest : l.state ≠ .request) :
    ∃ l' events, fsmProcess box lowBattery l = .emit l' events ∧ Quiet events ∧
      l'.attWriteBuffer = l.attWriteBuffer ∧ l'.state ≠ .ticket ∧ l'.state ≠ .request := by
  cases state : l.state with
  | ticket => exact absurd state noTicket
  | request => exact absurd state noRequest
  | bleBoot | systemAddressGet | advParamSet | advDataSet | advSrDataSet | disconnected =>
      rw [fsmProcess, state]
      exact ⟨_, _, rfl, ⟨rfl, rfl⟩, rfl, by simp, by simp⟩
  | _ =>
      rw [fsmProcess, state]
      exact ⟨l, [], rfl, quiet_nil, rfl, noTicket, noRequest⟩

/-- Only an answer moves the response on. -/
theorem bleHandler_quiet {msg : BgapiMsg} (other : ∀ result, msg ≠ .rspAttributesWrite result)
    (l : Lock) : (bleHandler msg l).state.attWriteBuffer = l.attWriteBuffer ∧
      Quiet (bleHandler msg l).events := by
  cases msg with
  | rspAttributesWrite result => exact absurd rfl (other result)
  | evtAttributesValue handle value =>
      rw [bleHandler, bleEvtAttributesValue]
      split
      · split
        · exact ⟨rfl, rfl, rfl⟩
        · exact ⟨rfl, rfl, rfl⟩
      · exact ⟨rfl, quiet_nil⟩
  | rspGapSetAdvData =>
      rw [bleHandler, bleRspGapSetAdvData]
      split
      · exact ⟨rfl, quiet_nil⟩
      · split
        · exact ⟨rfl, quiet_nil⟩
        · exact ⟨rfl, quiet_nil⟩
  | evtConnectionStatus flags =>
      rw [bleHandler, bleEvtConnectionStatus]
      split
      · exact ⟨rfl, quiet_nil⟩
      · exact ⟨rfl, quiet_nil⟩
  | _ => exact ⟨rfl, quiet_nil⟩

/-- An answer does nothing once all sections are sent, and else sends one more. -/
theorem bleHandler_answer (l : Lock) :
    (2 ≤ l.attWriteBuffer.sectionSent.toNat ∧ bleHandler (.rspAttributesWrite 0) l = .pure l) ∨
    (l.attWriteBuffer.sectionSent.toNat < 2 ∧ ∃ written,
      bleHandler (.rspAttributesWrite 0) l = .emit
        { l with attWriteBuffer :=
            { l.attWriteBuffer with sectionSent := l.attWriteBuffer.sectionSent + 1 } }
        [.cmd (.attributesWrite cLockTransmit 0 written)]) := by
  rw [bleHandler, bleRspAttributesWrite, if_neg (by decide)]
  by_cases first : l.attWriteBuffer.sectionSent = 0
  · right
    rw [if_pos first]
    exact ⟨by rw [first]; decide, _, rfl⟩
  · by_cases second : l.attWriteBuffer.sectionSent = 1
    · right
      rw [if_neg first, if_pos second]
      exact ⟨by rw [second]; decide, _, rfl⟩
    · left
      rw [if_neg first, if_neg second]
      have notZero : l.attWriteBuffer.sectionSent.toNat ≠ 0 := fun same =>
        first (UInt8.toNat_inj.mp same)
      have notOne : l.attWriteBuffer.sectionSent.toNat ≠ 1 := fun same =>
        second (UInt8.toNat_inj.mp same)
      exact ⟨by omega, rfl⟩

theorem State.incomplete_of_resting {state : State} (resting : state.resting = true) :
    state ≠ .ticket ∧ state ≠ .request := by
  constructor
  · rintro rfl
    cases resting
  · rintro rfl
    cases resting

/-- Only a write of the peer completes a message. -/
theorem bleHandler_incomplete {msg : BgapiMsg}
    (silent : ∀ value, msg ≠ .evtAttributesValue cLockReceive value) {l : Lock}
    (noTicket : l.state ≠ .ticket) (noRequest : l.state ≠ .request) :
    (bleHandler msg l).state.state ≠ .ticket ∧ (bleHandler msg l).state.state ≠ .request := by
  rcases bleHandler_cases msg l with ⟨value, same⟩ | ⟨l', events, handled, kept, -⟩
  · exact absurd same (silent value)
  · rw [handled]
    show l'.state ≠ .ticket ∧ l'.state ≠ .request
    rcases kept.state with same | resting
    · rw [same]
      exact ⟨noTicket, noRequest⟩
    · exact State.incomplete_of_resting resting

/-! ### What a notification does to the app -/

theorem App.processMessage_incoming (box : Secretbox) (msg : Bytes 41) (app : App) :
    (app.processMessage box msg).state.incoming = app.incoming := by
  rcases app.processMessage_cases box msg with
    ⟨-, same⟩ | ⟨-, ⟨-, exception, same⟩ | ⟨rsp, code, -, -, same⟩⟩
  all_goals
    rw [same]
    rfl

/-- A section that does not complete the message. -/
theorem App.notify_early (box : Secretbox) {app : App} {bytes section' : List UInt8}
    (incoming : app.incoming = some bytes) (short : bytes.length + section'.length ≤ 40)
    (nonempty : section' ≠ []) :
    app.completed section' = none ∧
      (app.handleMessage box section').state.incoming = some (bytes ++ section') := by
  have positive : 0 < section'.length := List.length_pos_iff.mpr nonempty
  refine ⟨?_, ?_⟩
  · rw [completed, incoming, Option.bind_some]
    simp only [if_neg (show ¬ bytes.length = 40 by omega), List.length_append]
    exact if_neg (by omega)
  · rw [handleMessage_early box incoming short nonempty]
    rfl

/-- The section that completes it. -/
theorem App.notify_last (box : Secretbox) {app : App} {bytes rest : List UInt8} {byte : UInt8}
    {msg : Bytes 41} (incoming : app.incoming = some bytes) (whole : bytes ++ [byte] = msg.toList) :
    app.completed (byte :: rest) = some msg.toList ∧
      (app.handleMessage box (byte :: rest)).state.incoming = some [] := by
  have sized : bytes.length = 40 := by
    have length := congrArg List.length whole
    rw [List.length_append, List.length_singleton, List.Vector.toList_length] at length
    omega
  refine ⟨?_, ?_⟩
  · rw [completed, incoming, Option.bind_some]
    simp only [if_pos sized, List.take_succ_cons, List.take_zero, whole, List.Vector.toList_length,
      if_true]
  · rw [handleMessage_last box incoming whole, processMessage_incoming]

/-! ### The invariant -/

/-- Nothing is under way: whatever the lock has answered has been assembled, and answers that come late
find all sections sent. -/
structure Link.Resting (link : Link) : Prop where
  queue : link.queue = []
  air : link.air = []
  answered : link.answered = link.assembled
  incoming : link.app.incoming = some []
  late : link.unanswered = 0 ∨ 2 ≤ link.lock.attWriteBuffer.sectionSent.toNat

/-- A response is under way: of the sections that have been sent some are in the app's buffer, some on
their way and the others in the queue. As long as a section is missing an answer is due. -/
structure Link.Sending (link : Link) (arrived flying : List (List UInt8)) : Prop where
  answered : link.answered = link.assembled ++ [link.lock.attWriteBuffer.data.toList]
  sent : link.lock.attWriteBuffer.sent = arrived ++ (flying ++ link.queue)
  carried : List.Forall₂ Carries flying link.air
  incoming : link.app.incoming = some arrived.flatten
  missing : arrived.length ≤ 2
  due : link.lock.attWriteBuffer.sectionSent.toNat < 2 → link.queue ≠ [] ∨ 0 < link.unanswered
  noTicket : link.lock.state ≠ .ticket
  noRequest : link.lock.state ≠ .request

/-- The invariant of a connection. -/
inductive Link.Intact (link : Link) : Prop
  | resting (resting : link.Resting)
  | sending (arrived flying : List (List UInt8)) (sending : link.Sending arrived flying)

theorem Link.Fresh.resting {link : Link} (fresh : link.Fresh) : link.Resting :=
  ⟨fresh.queue, fresh.air, fresh.answered.trans fresh.assembled.symm, fresh.incoming, fresh.late⟩

theorem Link.locked_some {link link' : Link} {turn : LockTurn}
    (taken : link.locked turn = some link') :
    turn.fault = none ∧ link' = { link with
      lock := turn.state
      queue := link.queue ++ Esloq.transmitted turn.events
      answered := link.answered ++ responses turn.events } := by
  unfold locked at taken
  split at taken
  · cases taken
  · rename_i ok
    cases taken
    exact ⟨ok, rfl⟩

section Steps

variable {box : Secretbox} {link link' : Link}

/-- Without a message to process `fsm_process` leaves everything as it is; a response starts with its
first section. -/
theorem intact_fsm {lowBattery : Bool} (intact : link.Intact)
    (taken : link.step box (.fsm lowBattery) = some link') : link'.Intact := by
  obtain ⟨ok, rfl⟩ := Link.locked_some taken
  cases intact with
  | resting resting =>
      rcases fsmProcess_answers box lowBattery link.lock ok with
        ⟨kept, quiet⟩ | ⟨rsp, buffer, state, transmits, responds⟩
      · refine .resting ⟨?_, resting.air, ?_, resting.incoming, ?_⟩
        · rw [quiet.transmitted, resting.queue]
          rfl
        · rw [quiet.responses, List.append_nil, resting.answered]
        · show _ ∨ 2 ≤ (fsmProcess box lowBattery link.lock).state.attWriteBuffer.sectionSent.toNat
          rw [kept]
          exact resting.late
      · refine .sending [] [] ⟨?_, ?_, ?_, resting.incoming, Nat.zero_le 2, fun _ => Or.inl ?_, ?_, ?_⟩
        · rw [buffer, responds, resting.answered]
        · rw [buffer, transmits, resting.queue]
          rfl
        · rw [resting.air]
          exact .nil
        · rw [transmits]
          simp
        · simp [state]
        · simp [state]
  | sending arrived flying sending =>
      obtain ⟨l', events, fsm, quiet, kept, noTicket, noRequest⟩ :=
        fsmProcess_quiet box lowBattery sending.noTicket sending.noRequest
      rw [fsm, Turn.emit, quiet.transmitted, quiet.responses, List.append_nil, List.append_nil]
      refine .sending arrived flying ⟨?_, ?_, sending.carried, sending.incoming, sending.missing, ?_,
        noTicket, noRequest⟩
      · rw [kept]
        exact sending.answered
      · rw [kept]
        exact sending.sent
      · rw [kept]
        exact sending.due

/-- A message that is no answer leaves the response; while one is under way the peer does not write. -/
theorem intact_quiet {turn : LockTurn} (intact : link.Intact)
    (kept : turn.state.attWriteBuffer = link.lock.attWriteBuffer) (quiet : Quiet turn.events)
    (incomplete : link.assembled.length ≠ link.answered.length → link.lock.state ≠ .ticket →
      link.lock.state ≠ .request → turn.state.state ≠ .ticket ∧ turn.state.state ≠ .request)
    (taken : link.locked turn = some link') : link'.Intact := by
  obtain ⟨ok, rfl⟩ := Link.locked_some taken
  rw [quiet.transmitted, quiet.responses, List.append_nil, List.append_nil]
  cases intact with
  | resting resting =>
      refine .resting ⟨resting.queue, resting.air, resting.answered, resting.incoming, ?_⟩
      show _ ∨ 2 ≤ turn.state.attWriteBuffer.sectionSent.toNat
      rw [kept]
      exact resting.late
  | sending arrived flying sending =>
      have waiting : link.assembled.length ≠ link.answered.length := by
        rw [sending.answered, List.length_append]
        exact Nat.ne_of_lt (Nat.lt_succ_self _)
      obtain ⟨noTicket, noRequest⟩ := incomplete waiting sending.noTicket sending.noRequest
      refine .sending arrived flying ⟨?_, ?_, sending.carried, sending.incoming, sending.missing, ?_,
        noTicket, noRequest⟩
      · rw [kept]
        exact sending.answered
      · rw [kept]
        exact sending.sent
      · rw [kept]
        exact sending.due

/-- A button changes nothing of the connection. -/
theorem processButton_quiet (press : Option Rotation) (l : Lock) :
    ∃ request events, processButton press l = .emit { l with request := request } events ∧
      Quiet events := by
  unfold processButton
  split
  · exact ⟨none, _, rfl, rfl, rfl⟩
  · exact ⟨l.request, [], rfl, quiet_nil⟩

/-- An answer that comes late finds all sections sent; any other one sends the next section. -/
theorem intact_answer {press : Option Rotation} (intact : link.Intact) (due : 0 < link.unanswered)
    (taken : { link with unanswered := link.unanswered - 1 }.locked
      (processPacket (.msg (.rspAttributesWrite 0)) press link.lock) = some link') :
    link'.Intact := by
  obtain ⟨-, rfl⟩ := Link.locked_some taken
  rcases bleHandler_answer link.lock with ⟨all, same⟩ | ⟨some', written, same⟩
  · obtain ⟨request, events, button, quiet⟩ := processButton_quiet press link.lock
    rw [processPacket, same, Turn.pure_andThen, button, Turn.emit, quiet.transmitted, quiet.responses,
      List.append_nil, List.append_nil]
    cases intact with
    | resting resting =>
        exact .resting ⟨resting.queue, resting.air, resting.answered, resting.incoming, Or.inr all⟩
    | sending arrived flying sending =>
        exact .sending arrived flying ⟨sending.answered, sending.sent, sending.carried,
          sending.incoming, sending.missing, fun missing => absurd all (Nat.not_le_of_lt missing),
          sending.noTicket, sending.noRequest⟩
  · cases intact with
    | resting resting =>
        rcases resting.late with none' | all
        · rw [none'] at due
          cases due
        · exact absurd all (Nat.not_le_of_lt some')
    | sending arrived flying sending =>
        have sent := bleHandler_sent (.rspAttributesWrite 0) link.lock
        obtain ⟨request, events, button, quiet⟩ := processButton_quiet press
          { link.lock with attWriteBuffer :=
            { link.lock.attWriteBuffer with
              sectionSent := link.lock.attWriteBuffer.sectionSent + 1 } }
        rw [same, Turn.emit] at sent
        rw [processPacket, same, Turn.emit_andThen, button, Turn.emit, transmitted_append,
          responses_append, quiet.transmitted, quiet.responses, List.append_nil, List.append_nil]
        refine .sending arrived flying ⟨?_, ?_, sending.carried, sending.incoming, sending.missing,
          fun _ => Or.inl ?_, sending.noTicket, sending.noRequest⟩
        · show link.answered ++ [] = _
          rw [List.append_nil]
          exact sending.answered
        · show _ = arrived ++ (flying ++ (link.queue ++ _))
          rw [← List.append_assoc flying, ← List.append_assoc arrived, ← sending.sent]
          exact sent
        · simp [Esloq.transmitted]

/-- A message from the module. -/
theorem intact_packet {received : Received} {press : Option Rotation} (intact : link.Intact)
    (taken : link.step box (.packet received press) = some link') : link'.Intact := by
  simp only [Link.step] at taken
  split at taken
  case isFalse => cases taken
  rename_i may
  cases received with
  | timeout =>
      obtain ⟨request, events, button, quiet⟩ := processButton_quiet press link.lock
      rw [processPacket, button] at taken
      exact intact_quiet intact rfl quiet (fun _ noTicket noRequest => ⟨noTicket, noRequest⟩) taken
  | error => cases may
  | msg msg =>
      by_cases answer : ∃ result, msg = .rspAttributesWrite result
      · obtain ⟨result, rfl⟩ := answer
        rw [Link.mayReceive, Bool.and_eq_true, decide_eq_true_eq, decide_eq_true_eq] at may
        obtain ⟨rfl, due⟩ := may
        exact intact_answer intact due taken
      · have other : ∀ result, msg ≠ .rspAttributesWrite result :=
          fun result same => answer ⟨result, same⟩
        have taken' : link.locked (processPacket (.msg msg) press link.lock) = some link' := by
          cases msg with
          | rspAttributesWrite result => exact absurd rfl (other result)
          | _ => exact taken
        obtain ⟨ok, -⟩ := Link.locked_some taken'
        obtain ⟨okHandler, -⟩ := Turn.ok_of_andThen ok
        obtain ⟨kept, quiet⟩ := bleHandler_quiet other link.lock
        obtain ⟨request, events, button, quiet'⟩ :=
          processButton_quiet press (bleHandler msg link.lock).state
        have whole : processPacket (.msg msg) press link.lock =
            .emit { (bleHandler msg link.lock).state with request := request }
              ((bleHandler msg link.lock).events ++ events) := by
          rw [processPacket, Turn.andThen_of_ok okHandler, button]
          rfl
        have kept' : (processPacket (.msg msg) press link.lock).state.attWriteBuffer =
            link.lock.attWriteBuffer := by
          rw [whole]
          exact kept
        have quiet'' : Quiet (processPacket (.msg msg) press link.lock).events := by
          rw [whole]
          refine ⟨?_, ?_⟩
          · rw [Turn.emit, transmitted_append, quiet.transmitted, quiet'.transmitted]
            rfl
          · rw [Turn.emit, responses_append, quiet.responses, quiet'.responses]
            rfl
        refine intact_quiet intact kept' quiet'' (fun waiting noTicket noRequest => ?_) taken'
        rw [whole]
        refine bleHandler_incomplete (fun value isWrite => ?_) noTicket noRequest
        subst isWrite
        simp [Link.mayReceive, waiting] at may

/-- A write is executed. -/
theorem intact_execute {notification : List UInt8} (intact : link.Intact)
    (taken : link.step box (.execute notification) = some link') : link'.Intact := by
  cases intact with
  | resting resting =>
      simp only [Link.step, resting.queue] at taken
      cases taken
  | sending arrived flying sending =>
      simp only [Link.step] at taken
      split at taken
      case h_1 => cases taken
      rename_i written queue first
      split at taken
      case isFalse => cases taken
      rename_i carries
      cases taken
      refine .sending arrived (flying ++ [written]) ⟨sending.answered, ?_, ?_, sending.incoming,
        sending.missing, fun _ => Or.inr (Nat.succ_pos _), sending.noTicket, sending.noRequest⟩
      · show _ = arrived ++ (flying ++ [written] ++ queue)
        rw [sending.sent, first, List.append_assoc flying]
        rfl
      · exact List.rel_append sending.carried (.cons carries .nil)

/-- The sections of a response are its bytes: two of 20 bytes and one of a single byte. -/
theorem sections_eq (rsp : Bytes 41) : ∃ first second last,
    sections rsp = [first, second, [last]] ∧ first.length = 20 ∧ second.length = 20 ∧
      first ++ second ++ [last] = rsp.toList := by
  have sized := List.Vector.toList_length rsp
  have one : ((rsp.toList.drop 40).take 1).length = 1 := by
    rw [List.length_take, List.length_drop, sized]
    rfl
  obtain ⟨last, single⟩ := List.length_eq_one_iff.mp one
  refine ⟨(rsp.toList.drop 0).take 20, (rsp.toList.drop 20).take 20, last, ?_, ?_, ?_, ?_⟩
  · rw [← single]
    rfl
  · rw [List.length_take, List.length_drop, sized]
    rfl
  · rw [List.length_take, List.length_drop, sized]
    rfl
  · have rest : (rsp.toList.drop 40).take 1 = rsp.toList.drop 40 :=
      List.take_of_length_le (by rw [List.length_drop, sized])
    have middle : rsp.toList.drop 20 =
        (rsp.toList.drop 20).take 20 ++ (rsp.toList.drop 20).drop 20 :=
      (List.take_append_drop _ _).symm
    rw [List.drop_drop] at middle
    rw [← single, rest, List.drop_zero, List.append_assoc, ← middle, List.take_append_drop]

/-- A notification that carries a section of 20 bytes is that section. -/
theorem eq_of_carries {written notification : List UInt8} (carries : Carries written notification)
    (full : written.length = 20) : notification = written := by
  rcases carries with same | ⟨sized, front⟩
  · exact same
  · exact (front.eq_of_length (full.trans sized.symm)).symm

/-- A section of 20 bytes reaches the app. -/
theorem intact_early {arrived rest air : List (List UInt8)} {written notification : List UInt8}
    (sending : link.Sending arrived (written :: rest)) (first : link.air = notification :: air)
    (short : arrived.flatten.length ≤ 20) (few : arrived.length ≤ 1) (full : written.length = 20) :
    Link.Sending { link with
      air := air
      app := (link.app.handleMessage box notification).state
      assembled := link.assembled ++ (link.app.completed notification).toList }
      (arrived ++ [written]) rest := by
  have carried := sending.carried
  rw [first, List.forall₂_cons] at carried
  obtain ⟨carries, others⟩ := carried
  rw [eq_of_carries carries full]
  have fits : arrived.flatten.length + written.length ≤ 40 := by omega
  obtain ⟨none', filled⟩ := App.notify_early box sending.incoming fits
    (List.ne_nil_of_length_pos (by omega))
  rw [none', Option.toList_none, List.append_nil]
  refine ⟨sending.answered, ?_, others, ?_, ?_, sending.due, sending.noTicket, sending.noRequest⟩
  · rw [sending.sent, List.append_assoc]
    rfl
  · rw [filled, List.flatten_append, List.flatten_singleton]
  · rw [List.length_append, List.length_singleton]
    omega

/-- The section that flies next is the one after those that have arrived. -/
theorem next_section {arrived rest : List (List UInt8)} {written : List UInt8}
    (sending : link.Sending arrived (written :: rest)) :
    ∃ later, sections link.lock.attWriteBuffer.data = arrived ++ written :: later := by
  have front : arrived ++ (written :: rest ++ link.queue) <+:
      sections link.lock.attWriteBuffer.data := by
    rw [← sending.sent, AttributesWriteBuffer.sent]
    exact List.take_prefix _ _
  obtain ⟨unsent, all⟩ := front
  exact ⟨rest ++ link.queue ++ unsent, by rw [← all]; simp⟩

/-- The last byte reaches the app. -/
theorem intact_last {a b notification : List UInt8} {c : UInt8} {rest air : List (List UInt8)}
    (sending : link.Sending [a, b] ([c] :: rest)) (first : link.air = notification :: air)
    (split : sections link.lock.attWriteBuffer.data = [a, b, [c]])
    (whole : a ++ b ++ [c] = link.lock.attWriteBuffer.data.toList) :
    Link.Resting { link with
      air := air
      app := (link.app.handleMessage box notification).state
      assembled := link.assembled ++ (link.app.completed notification).toList } := by
  have carried := sending.carried
  rw [first, List.forall₂_cons] at carried
  obtain ⟨carries, others⟩ := carried
  -- nothing comes after the third section
  have sent := sending.sent
  rw [AttributesWriteBuffer.sent, split] at sent
  have count := congrArg List.length sent
  simp only [List.length_take, List.length_append, List.length_cons, List.length_nil] at count
  have noQueue : link.queue = [] := List.eq_nil_of_length_eq_zero (by omega)
  have noRest : rest = [] := List.eq_nil_of_length_eq_zero (by omega)
  have noAir : air = [] := by
    rw [noRest] at others
    cases others
    rfl
  obtain ⟨more, rfl⟩ : ∃ more, notification = c :: more := by
    rcases carries with same | ⟨-, front⟩
    · exact ⟨[], same⟩
    · obtain ⟨more, same⟩ := front
      exact ⟨more, same.symm⟩
  have incoming : link.app.incoming = some (a ++ b) := by
    rw [sending.incoming]
    simp
  obtain ⟨last, emptied⟩ : link.app.completed (c :: more) = _ ∧ _ :=
    App.notify_last box incoming whole
  refine ⟨noQueue, noAir, ?_, emptied, Or.inr ?_⟩
  · show link.answered = link.assembled ++ (link.app.completed (c :: more)).toList
    rw [sending.answered, last]
    rfl
  · show 2 ≤ link.lock.attWriteBuffer.sectionSent.toNat
    omega

/-- A notification reaches the app. -/
theorem intact_notify (intact : link.Intact) (taken : link.step box .notify = some link') :
    link'.Intact := by
  cases intact with
  | resting resting =>
      simp only [Link.step, resting.air] at taken
      cases taken
  | sending arrived flying sending =>
      simp only [Link.step] at taken
      split at taken
      case h_1 => cases taken
      rename_i notification air first
      cases taken
      obtain ⟨written, rest, rfl⟩ : ∃ written rest, flying = written :: rest := by
        have carried := sending.carried
        rw [first] at carried
        cases carried with
        | cons head tail => exact ⟨_, _, rfl⟩
      obtain ⟨a, b, c, split, sizedA, sizedB, whole⟩ := sections_eq link.lock.attWriteBuffer.data
      obtain ⟨later, sections⟩ := next_section sending
      rw [split] at sections
      -- which section it is: as many as have arrived come before it
      rcases arrived with _ | ⟨x, _ | ⟨y, _ | ⟨z, more⟩⟩⟩
      · cases sections
        exact .sending _ _ (intact_early sending first (Nat.zero_le _) (Nat.zero_le _) sizedA)
      · cases sections
        exact .sending _ _ (intact_early sending first (by simp [sizedA]) (le_refl _) sizedB)
      · cases sections
        exact .resting (intact_last sending first split whole)
      · exact absurd sending.missing (by simp)

/-- A request leaves the app's buffer. -/
theorem intact_request {clockwise : Bool} (intact : link.Intact)
    (taken : link.step box (.request clockwise) = some link') : link'.Intact := by
  simp only [Link.step] at taken
  cases taken
  generalize (if clockwise then LockRequestCode.rotateClockwise
    else .rotateCounterClockwise).byte = code
  have kept : (link.app.sendEncryptedMessage box code).state.incoming = link.app.incoming := by
    rcases link.app.sendEncryptedMessage_cases box code with ⟨-, value, same⟩ | ⟨c, -, same⟩
    all_goals
      rw [same]
      rfl
  cases intact with
  | resting resting =>
      exact .resting ⟨resting.queue, resting.air, resting.answered, kept.trans resting.incoming,
        resting.late⟩
  | sending arrived flying sending =>
      exact .sending arrived flying ⟨sending.answered, sending.sent, sending.carried,
        kept.trans sending.incoming, sending.missing, sending.due, sending.noTicket,
        sending.noRequest⟩

/-- Every step keeps the invariant. -/
theorem intact_step {move : Move} (intact : link.Intact)
    (taken : link.step box move = some link') : link'.Intact := by
  cases move with
  | fsm lowBattery => exact intact_fsm intact taken
  | packet received press => exact intact_packet intact taken
  | execute notification => exact intact_execute intact taken
  | notify => exact intact_notify intact taken
  | request clockwise => exact intact_request intact taken

/-- A run keeps the invariant. -/
theorem intact_run {moves : List Move} (intact : link.Intact)
    (runs : link.run box moves = some link') : link'.Intact := by
  induction moves generalizing link with
  | nil =>
      cases runs
      exact intact
  | cons move moves continues =>
      rw [Link.run, List.foldlM_cons, Option.bind_eq_bind, Option.bind_eq_some_iff] at runs
      obtain ⟨next, taken, rest⟩ := runs
      exact continues (intact_step intact taken) rest

/-- At most the last response is not assembled, and that only while its sections are under way. -/
theorem Link.Intact.assembles (intact : link.Intact) :
    link.assembled <+: link.answered ∧ link.answered.length ≤ link.assembled.length + 1 ∧
      (link.queue = [] → link.air = [] → link.unanswered = 0 → link.assembled = link.answered) := by
  cases intact with
  | resting resting =>
      rw [resting.answered]
      exact ⟨List.prefix_rfl, Nat.le_succ _, fun _ _ _ => rfl⟩
  | sending arrived flying sending =>
      rw [sending.answered]
      refine ⟨List.prefix_append _ _, by rw [List.length_append, List.length_singleton], ?_⟩
      intro noQueue noAir noAnswer
      -- no answer is due, so all three sections have been sent, and only two can have arrived
      have all : 2 ≤ link.lock.attWriteBuffer.sectionSent.toNat := by
        by_contra some'
        rcases sending.due (Nat.lt_of_not_le some') with queued | due
        · exact queued noQueue
        · exact due.ne' noAnswer
      have carried := sending.carried
      rw [noAir, List.forall₂_nil_right_iff] at carried
      have sent := congrArg List.length sending.sent
      rw [carried, noQueue, List.append_nil, List.append_nil, AttributesWriteBuffer.sent,
        List.length_take] at sent
      have three : (sections link.lock.attWriteBuffer.data).length = 3 := rfl
      have missing := sending.missing
      omega

end Steps

/-! ### The result -/

/-- A whole pass of the main loop is its two parts after each other. -/
theorem wholeBody_steps {box : Secretbox} {link link' : Link} {it : Iteration}
    (runs : link.run box [.fsm it.lowBattery, .packet it.packet it.press] = some link') :
    (wholeBody box it link.lock).fault = none ∧ link'.lock = (wholeBody box it link.lock).state ∧
      link'.queue = link.queue ++ transmitted (wholeBody box it link.lock).events ∧
      link'.answered = link.answered ++ responses (wholeBody box it link.lock).events := by
  rw [Link.run, List.foldlM_cons, Option.bind_eq_bind, Option.bind_eq_some_iff] at runs
  obtain ⟨between, taken, rest⟩ := runs
  rw [List.foldlM_cons, Option.bind_eq_bind, Option.bind_eq_some_iff] at rest
  obtain ⟨after, taken', same⟩ := rest
  cases same
  obtain ⟨ok, rfl⟩ := Link.locked_some taken
  obtain ⟨start, taken', kept⟩ : ∃ start : Link,
      start.locked (processPacket it.packet it.press
        (fsmProcess box it.lowBattery link.lock).state) = some link' ∧
      start.queue = link.queue ++ transmitted (fsmProcess box it.lowBattery link.lock).events ∧
      start.answered = link.answered ++ responses (fsmProcess box it.lowBattery link.lock).events := by
    simp only [Link.step] at taken'
    split at taken'
    case isFalse => cases taken'
    split at taken'
    · exact ⟨_, taken', rfl, rfl⟩
    · exact ⟨_, taken', rfl, rfl⟩
  obtain ⟨ok', rfl⟩ := Link.locked_some taken'
  rw [wholeBody, Turn.andThen_of_ok ok]
  refine ⟨ok', rfl, ?_, ?_⟩
  · rw [transmitted_append, ← List.append_assoc, ← kept.1]
  · rw [responses_append, ← List.append_assoc, ← kept.2]

/-- **The app assembles exactly what the lock answers, in order.** -/
theorem transport_intact (box : Secretbox) {link : Link} (fresh : link.Fresh) (moves : List Move)
    {link' : Link} (runs : link.run box moves = some link') :
    link'.assembled <+: link'.answered ∧ link'.answered.length ≤ link'.assembled.length + 1 ∧
      (link'.queue = [] → link'.air = [] → link'.unanswered = 0 →
        link'.assembled = link'.answered) :=
  (intact_run (.resting fresh.resting) runs).assembles

/-- A lock and an app that have just been connected. -/
def sampleLink : Link := ⟨connectedLock, sampleApp, [], [], 0, [], []⟩

/-- A message of the peer reaches the lock, which processes it. -/
def delivered (message : List UInt8) : List Move :=
  (packets message).map (fun it => .packet it.packet it.press) ++ [.fsm false]

/-- The answer of the module to a write. -/
def answer : Move := .packet (.msg (.rspAttributesWrite 0)) none

/-- The lock answers a ticket and a request. The last write of the first response is answered when the
second one has been started, and its notification carries a whole value. -/
def lateMoves : List Move :=
  delivered (sampleTicket 1).toList ++
  [.execute (((sampleMessage 1 4).toList.drop 0).take 20), answer,
    .execute (((sampleMessage 1 4).toList.drop 20).take 20), answer,
    .execute ((sampleMessage 1 4).toList.drop 40 ++ ((sampleMessage 1 4).toList.drop 21).take 19),
    .notify, .notify, .notify, .request true] ++
  delivered (sampleMessage 2 1).toList ++
  [answer, .execute (((sampleMessage 3 1).toList.drop 0).take 20),
    .execute (((sampleMessage 3 1).toList.drop 20).take 20), answer, answer, .notify,
    .execute ((sampleMessage 3 1).toList.drop 40), .notify, answer, .notify]

theorem transport_intact_late : ∃ link', sampleLink.run keyTag lateMoves = some link' ∧
    link'.assembled.length = 2 ∧ link'.assembled = link'.answered := by
  have ends : (sampleLink.run keyTag lateMoves).any fun link =>
      link.queue = [] && link.air = [] && link.unanswered = 0 && link.assembled.length = 2 := by
    decide +kernel
  rw [Option.any_eq_true] at ends
  obtain ⟨link', runs, finished⟩ := ends
  simp only [Bool.and_eq_true, decide_eq_true_eq] at finished
  obtain ⟨⟨⟨queue, air⟩, answered⟩, two⟩ := finished
  have fresh : sampleLink.Fresh := ⟨rfl, rfl, rfl, rfl, rfl, Or.inl rfl⟩
  exact ⟨link', runs, two, (transport_intact keyTag fresh lateMoves runs).2.2 queue air answered⟩

end Esloq
