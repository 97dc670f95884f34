/-
**Visits: tickets, sessions and disconnects one after the other (`getlockticket`,
`process_ticket_msg`, `process_request_msg`, `sendEncryptedMessage`).**

In a visit the server issues a ticket, some app connects to the lock and sends it, asks for rotations,
and leaves. `stays_in_step` is about the session of one visit; here a row of the server and a lock go
from visit to visit, and each may be the visit of another app.

* `Rotates` — what passes do to the EEPROM, and the rotations they perform for an app; `run_rotates`
  is for passes that begin with no complete message.
* `Visit.turn`, `Visit.InOrder` — a visit, and what its messages must arrive like.
* `Settled` — between visits the lock is idle, and its EEPROM is not above the row.
* `visit_served` — a visit from settled to settled; `visits_served` is the induction.
-/

import Esloq.Session.InStep
import Esloq.Server.Honour

namespace Esloq

open Machine

/-! ### What passes do for an app -/

/-- The rotations for an app, in the order in which the motor performs them. -/
def remoteRotations (effects : List Effect) : List Rotation :=
  effects.filterMap fun
    | .rotate .remote direction => some direction
    | _ => none

theorem remoteRotations_append (first second : List Effect) :
    remoteRotations (first ++ second) = remoteRotations first ++ remoteRotations second :=
  List.filterMap_append

/-- The rotation a call of the app asks for. -/
def LockRequestCode.rotation : LockRequestCode → Rotation
  | .rotateClockwise => .cw
  | .rotateCounterClockwise => .ccw

theorem requestedRotation_byte (request : LockRequestCode) :
    requestedRotation request.byte = some request.rotation := by
  cases request <;> rfl

/-- The EEPROM stays as it is, and these rotations are performed for the app. -/
structure Rotates (l l' : Lock) (events : List Effect) (rotations : List Rotation) : Prop where
  masterNonce : l'.masterNonceEeprom = l.masterNonceEeprom
  masterKey : l'.masterKeyEeprom = l.masterKeyEeprom
  remote : remoteRotations events = rotations

/-- The same of a turn. -/
abbrev LockTurn.Rotates (turn : LockTurn) (l : Lock) (rotations : List Rotation) : Prop :=
  Esloq.Rotates l turn.state turn.events rotations

theorem Rotates.refl (l : Lock) : Rotates l l [] [] := ⟨rfl, rfl, rfl⟩

theorem Rotates.trans {first second third : Lock} {events later' : List Effect}
    {rotations rotations' : List Rotation} (earlier : Rotates first second events rotations)
    (later : Rotates second third later' rotations') :
    Rotates first third (events ++ later') (rotations ++ rotations') where
  masterNonce := later.masterNonce.trans earlier.masterNonce
  masterKey := later.masterKey.trans earlier.masterKey
  remote := by rw [remoteRotations_append, earlier.remote, later.remote]

/-- What follows performs nothing, wherever it begins. -/
theorem Rotates.andThen {l : Lock} {turn : LockTurn} {rotations : List Rotation} {next : Lock → LockTurn}
    (here : turn.Rotates l rotations) (later : (next turn.state).Rotates turn.state []) :
    LockTurn.Rotates (turn.andThen next) l rotations := by
  cases faulted : turn.fault with
  | none =>
      rw [Turn.andThen_of_ok faulted]
      have both := here.trans later
      rwa [List.append_nil] at both
  | some fault =>
      rw [Turn.andThen_of_fault faulted]
      exact here

section Parts

variable (box : Secretbox) {l : Lock}

theorem processPacket_rotates (received : Received) (press : Option Rotation) (l : Lock) :
    (processPacket received press l).Rotates l [] := by
  have button : ∀ l : Lock, (processButton press l).Rotates l [] := by
    intro l
    unfold processButton
    split
    · exact ⟨rfl, rfl, rfl⟩
    · exact .refl l
  cases received with
  | timeout => exact button l
  | error => exact ⟨rfl, rfl, rfl⟩
  | msg msg =>
      have kept := bleHandler_untouched msg l
      refine Rotates.andThen ⟨kept.masterNonce, kept.masterKey, ?_⟩ (button _)
      refine List.filterMap_eq_nil_iff.mpr fun effect member => ?_
      rcases bleHandler_event member with ⟨command, rfl⟩ | ⟨value, rfl⟩ <;> rfl

/-- Where no message is complete, `fsm_process` performs nothing. -/
theorem fsmProcess_rotates (lowBattery : Bool) (noTicket : l.state ≠ .ticket)
    (noRequest : l.state ≠ .request) : (fsmProcess box lowBattery l).Rotates l [] := by
  rcases fsmProcess_cases box lowBattery l with
    ⟨ticket, -⟩ | ⟨request, -⟩ | ⟨-, same⟩ | ⟨-, state, command, -, same⟩ | ⟨-, -, -, same⟩
  · exact absurd ticket noTicket
  · exact absurd request noRequest
  · rw [same]
    exact ⟨rfl, rfl, rfl⟩
  · rw [same]
    exact ⟨rfl, rfl, rfl⟩
  · rw [same]
    exact .refl l

theorem respond_rotates (state : State) (m : UInt8) (l : Lock) (effects : List Effect) :
    (respond box state m l effects).2.Rotates l (remoteRotations effects) := by
  rcases respond_cases box l state m effects with ⟨-, same⟩ | ⟨next, -, same | ⟨c, -, same⟩⟩
  · rw [same]
    exact ⟨rfl, rfl, rfl⟩
  · rw [same]
    refine ⟨rfl, rfl, ?_⟩
    exact (remoteRotations_append effects _).trans (List.append_nil _)
  · rw [same]
    refine ⟨rfl, rfl, ?_⟩
    exact (remoteRotations_append effects _).trans (List.append_nil _)

/-- A ticket with a fresh nonce raises the EEPROM to it. -/
theorem ticket_rotates (lowBattery : Bool) (waiting : l.state = .ticket)
    (fresh : isValidTicketNonce (ticketNonce l.msgBuf.data) l.masterNonceEeprom = true) :
    (fsmProcess box lowBattery l).Rotates
      { l with masterNonceEeprom := ticketNonce l.msgBuf.data } [] := by
  have after : ∀ code l, (afterTicketMsg code l).Rotates l [] := by
    intro code l
    unfold afterTicketMsg
    split
    · exact ⟨rfl, rfl, rfl⟩
    · exact .refl l
  rw [fsmProcess_of_ticket box lowBattery waiting]
  refine Rotates.andThen ?_ (after _ _)
  rcases processTicketMsg_cases box lowBattery l with
    ⟨invalid, -⟩ | ⟨-, ⟨-, same⟩ | ⟨key, -, same⟩⟩
  · rw [fresh] at invalid
    cases invalid
  · rw [same]
    exact ⟨rfl, rfl, rfl⟩
  · rw [same]
    obtain ⟨nonce, masterKey, remote⟩ := respond_rotates box .requestW (ticketRsp lowBattery)
      (ticketAccepted l key) [.ticketMsg l.msgBuf.data, .eepromUpdate (ticketNonce l.msgBuf.data),
        .ticketAccepted l.msgBuf.data key]
    exact ⟨nonce, masterKey, remote⟩

/-- A request that is fresh and opens is performed. -/
theorem request_rotates (lowBattery : Bool) {request : LockRequestCode} (waiting : l.state = .request)
    (fresh : isValidSessionNonce (messageNonce (bufferedRequest l)) l.sessionNonce = true)
    (opens : messageByte box l.sessionKey (bufferedRequest l) = some request.byte) :
    (fsmProcess box lowBattery l).Rotates l [request.rotation] := by
  have after : ∀ code l, (afterRequestMsg code l).Rotates l [] := by
    intro code l
    unfold afterRequestMsg
    split
    · exact ⟨rfl, rfl, rfl⟩
    · exact .refl l
  rw [fsmProcess_of_request box lowBattery waiting, processRequestMsg_of_opens box l fresh opens,
    requestedRotation_byte]
  refine Rotates.andThen ?_ (after _ _)
  obtain ⟨nonce, masterKey, remote⟩ := respond_rotates box .requestW (rspCode request.byte)
    { l with state := .requestW, sessionNonce := messageNonce (bufferedRequest l) }
    ([.requestMsg (bufferedRequest l),
        .requestDecrypted l.sessionKey (bufferedRequest l) request.byte] ++
      ((some request.rotation).map (Effect.rotate .remote)).toList)
  exact ⟨nonce, masterKey, remote⟩

end Parts

/-! ### Runs of passes -/

/-- No message is complete, so `fsm_process` calls no processor. -/
def Lock.Vacant (l : Lock) : Prop := l.state ≠ .ticket ∧ l.state ≠ .request

theorem vacant_of_resting {l : Lock} (resting : l.state.resting = true) : l.Vacant := by
  constructor
  all_goals
    intro state
    rw [state] at resting
    cases resting

theorem vacant_of_awaits {l : Lock} {awaited : Nat × State} (awaits : l.state.awaits = some awaited) :
    l.Vacant := by
  constructor
  all_goals
    intro state
    rw [state] at awaits
    cases awaits

section Runs

variable (box : Secretbox)

/-- Passes that all begin with no complete message perform nothing. -/
theorem run_rotates : ∀ {its : List Iteration} {l : Lock}, (∀ it ∈ its, it.cut = none) →
    (∀ done, done <+: its → done.length < its.length → (mainRun box done l).state.Vacant) →
    (mainRun box its l).Rotates l []
  | [], l, _, _ => .refl l
  | it :: its, l, whole, vacant => by
      obtain ⟨noTicket, noRequest⟩ := vacant [] List.nil_prefix (Nat.succ_pos _)
      have pass : (loopBody box it l).Rotates l [] := by
        rw [loopBody_of_whole box (whole it List.mem_cons_self)]
        exact .andThen (fsmProcess_rotates box it.lowBattery noTicket noRequest)
          (processPacket_rotates it.packet it.press _)
      rw [mainRun, run_cons]
      cases faulted : (loopBody box it l).fault with
      | some fault =>
          rw [Turn.andThen_of_fault faulted]
          exact pass
      | none =>
          refine pass.andThen (run_rotates (fun other member =>
            whole other (List.mem_cons_of_mem it member)) fun done prefix' shorter => ?_)
          have later := vacant (it :: done) (List.cons_prefix_cons.mpr ⟨rfl, prefix'⟩)
            (Nat.succ_lt_succ shorter)
          rwa [mainRun, run_cons, Turn.andThen_of_ok faulted] at later

theorem whole_of_silent {it : Iteration} (silent : it.silent = true) : it.cut = none :=
  (Iteration.silent_packet silent).1

theorem whole_of_steady {it : Iteration} (steady : it.steady = true) : it.cut = none :=
  (Iteration.steady_packet steady).1

/-- Before a connection nothing is performed. -/
theorem connects_rotates {its : List Iteration} {l : Lock} (connects : Connects its) (idle : Idle l) :
    (mainRun box its l).Rotates l [] := by
  refine run_rotates box (fun it member => whole_of_silent (connects.silent it member))
    fun done prefix' _ => ?_
  obtain ⟨l', events, run, -, idle'⟩ := silent_run box done
    (fun it member => connects.silent it (prefix'.subset member)) idle
  rw [run]
  exact vacant_of_resting idle'.resting

/-- Nor while a message is written, up to the pass that completes it. -/
theorem fills_rotates {before : List Iteration} {last : Iteration} {l : Lock} {total : Nat}
    {complete : State} (steady : ∀ it ∈ before, it.steady = true) (whole : last.cut = none)
    (awaits : l.state.awaits = some (total, complete)) (empty : l.msgBuf.len = 0)
    (less : (written before).length < total) :
    (mainRun box (before ++ [last]) l).Rotates l [] := by
  refine run_rotates box (fun it member => ?_) fun done prefix' shorter => ?_
  · rcases List.mem_append.mp member with earlier | isLast
    · exact whole_of_steady (steady it earlier)
    · rw [List.mem_singleton.mp isLast]
      exact whole
  · have within : done <+: before := by
      rcases List.prefix_concat_iff.mp prefix' with rfl | within
      · exact absurd rfl (Nat.ne_of_lt shorter)
      · exact within
    obtain ⟨rest, rfl⟩ := within
    have atMost : (written done).length ≤ (written (done ++ rest)).length := by
      rw [written, written, List.flatMap_append, List.length_append]
      exact Nat.le_add_right _ _
    obtain ⟨l', events, run, -, -, -, state⟩ := fill_run box done
      (fun it member => steady it (List.mem_append_left _ member)) awaits
      (by rw [MsgBuffer.content_of_empty empty, List.length_nil]; omega) (by rw [empty]; decide)
    rw [run]
    exact vacant_of_awaits (state ▸ awaits)

theorem delivers_rotates {message : List UInt8} {its : List Iteration} {l : Lock} {complete : State}
    (delivers : Delivers message its) (awaits : l.state.awaits = some (message.length, complete))
    (empty : l.msgBuf.len = 0) : (mainRun box its l).Rotates l [] := by
  obtain ⟨steady, writes, before, last, rfl, ends⟩ := delivers
  have split : written (before ++ [last]) = written before ++ last.written := by simp [written]
  have positive : 0 < last.written.length := List.length_pos_iff.mpr ends
  have total : (written before).length + last.written.length = message.length := by
    rw [← writes, split, List.length_append]
  exact fills_rotates box (fun it member => steady it (List.mem_append_left _ member))
    (whole_of_steady (steady last (by simp))) awaits empty (by omega)

/-- Where `fsm_process` begins an answer, nothing but what it performs is performed. -/
theorem answers_rotates {it : Iteration} {its : List Iteration} {l l₁ first : Lock}
    {events₁ : List Effect} {rotations : List Rotation} (answers : Answers (it :: its))
    (begins : fsmProcess box it.lowBattery l = .emit l₁ events₁) (state₁ : l₁.state = .requestW)
    (empty₁ : l₁.msgBuf.len = 0) (performs : Rotates first l₁ events₁ rotations) :
    (mainRun box (it :: its) l).Rotates first rotations := by
  have whole := whole_of_steady (answers.steady it List.mem_cons_self)
  have pass : (loopBody box it l).Rotates first rotations := by
    rw [loopBody_of_whole box whole, wholeBody, begins]
    exact Rotates.andThen (show LockTurn.Rotates (.emit l₁ events₁) first rotations from performs)
      (processPacket_rotates it.packet it.press l₁)
  rw [mainRun, run_cons]
  cases faulted : (loopBody box it l).fault with
  | some fault =>
      rw [Turn.andThen_of_fault faulted]
      exact pass
  | none =>
      refine pass.andThen (run_rotates box (fun other member =>
        whole_of_steady (answers.steady other (List.mem_cons_of_mem it member)))
        fun done prefix' _ => ?_)
      -- before each later pass the lock waits for the next request
      have answered : Answers (it :: done) := by
        obtain ⟨rest, rfl⟩ := prefix'
        refine ⟨fun other member => answers.steady other ?_, ?_⟩
        · rw [← List.cons_append]
          exact List.mem_append_left _ member
        · have nothing := answers.nothing
          rw [← List.cons_append, written, List.flatMap_append] at nothing
          exact (List.append_eq_nil_iff.mp nothing).1
      obtain ⟨l', events, run, -, state, -⟩ := answer_run box answered begins state₁ empty₁
      rw [mainRun, run_cons, Turn.andThen_of_ok faulted] at run
      have reached := congrArg Turn.state run
      show (mainRun box done (loopBody box it l).state).state.Vacant
      rw [mainRun]
      rw [show (Machine.run (loopBody box) done (loopBody box it l).state).state = l' from reached]
      constructor <;> rw [state] <;> decide

end Runs

/-! ### Visits -/

/-- One use of a lock. Before it tickets may be issued that are never sent. The reply with its own ticket
arrives at some app, whatever this app has done before. -/
structure Visit where
  /-- The session keys of the tickets that are never sent. -/
  unsent : List Key
  sessionKey : Key
  app : App
  connection : List Iteration
  delivery : List Iteration
  opening : Opening
  rounds : List Round
  parting : List Iteration
  goodbye : Iteration

/-- Passes of the lock while the app does nothing. -/
def lockPasses (box : Secretbox) (its : List Iteration) (state : App × Lock) :
    Turn (App × Lock) (AppEvent ⊕ Effect) (Empty ⊕ Fault) :=
  run (beside (appStep box) (loopBody box)) (its.map .inr) state

/-- Rounds one after the other. -/
def roundsTurn (box : Secretbox) : List Round → App × Lock →
    Turn (App × Lock) (AppEvent ⊕ Effect) (Empty ⊕ Fault)
  | [], state => .pure state
  | round :: rest, state => (round.turn box state).andThen (roundsTurn box rest)

namespace Visit

variable (box : Secretbox) (visit : Visit) (row : EsloqRow) (l : Lock)

/-- The row the visit's own ticket is issued for. -/
def waitingRow : EsloqRow :=
  visit.unsent.foldl (fun row sessionKey => (getlockticket box sessionKey row).1) row

/-- The ticket of the visit. -/
def ticket : Option (Bytes 72) := (getlockticket box visit.sessionKey (visit.waitingRow box row)).2

/-- The row after the visit. -/
def servedRow : EsloqRow := (getlockticket box visit.sessionKey (visit.waitingRow box row)).1

/-- The app has stored the session key of the reply, and the lock has received the ticket. -/
def received : App × Lock :=
  ((visit.app.setSessionKey visit.sessionKey).onDescriptorWrite,
    (mainRun box (visit.connection ++ visit.delivery) l).state)

/-- The ticket has been answered. -/
def opened : Turn (App × Lock) (AppEvent ⊕ Effect) (Empty ⊕ Fault) :=
  visit.opening.turn box (visit.received box l)

/-- From the ticket on: it is answered, the rounds follow, and the app leaves. -/
def session (state : App × Lock) : Turn (App × Lock) (AppEvent ⊕ Effect) (Empty ⊕ Fault) :=
  (visit.opening.turn box state).andThen fun state =>
    (roundsTurn box visit.rounds state).andThen
      (lockPasses box (visit.parting ++ [visit.goodbye]))

/-- The turn of a visit. -/
def turn : Turn (App × Lock) (AppEvent ⊕ Effect) (Empty ⊕ Fault) :=
  (lockPasses box (visit.connection ++ visit.delivery)
    ((visit.app.setSessionKey visit.sessionKey).onDescriptorWrite, l)).andThen (visit.session box)

/-- Every message of the visit is delivered, once and completely, and a disconnect ends it. -/
structure InOrder : Prop where
  connects : Connects visit.connection
  delivers : ∀ ticket, visit.ticket box row = some ticket → Delivers ticket.toList visit.delivery
  opens : visit.opening.InOrder box (visit.received box l)
  few : visit.rounds.length < 2 ^ 160
  rounds : AllInOrder box visit.rounds (visit.opened box l).state
  parts : Answers visit.parting
  whole : visit.goodbye.cut = none
  disconnects : visit.goodbye.packet = .msg .evtConnectionDisconnected

/-- The visit's ticket is honoured, both sides agree on every request and answer, the motor performs
what the app asks for and nothing else for it, and the lock remembers the ticket. -/
structure Served : Prop where
  ok : (visit.turn box l).fault = none
  opened : Opened visit.sessionKey (visit.opened box l)
  agreed : AllAgreed box visit.sessionKey visit.rounds (visit.opened box l).state
  rotates : remoteRotations (rights (visit.turn box l).events) =
    visit.rounds.map fun round => round.request.rotation
  remembered : nonceValue (visit.turn box l).state.2.masterNonceEeprom = (visit.servedRow box row).nonce

end Visit

/-- Between visits the lock is idle, has the key of the row, and has seen no ticket beyond it. -/
structure Settled (row : EsloqRow) (l : Lock) : Prop where
  idle : Idle l
  own : l.masterKeyEeprom = row.key
  behind : nonceValue l.masterNonceEeprom ≤ row.nonce

/-- The visits are in order, each from where the one before it ended. -/
def VisitsInOrder (box : Secretbox) : List Visit → EsloqRow → Lock → Prop
  | [], _, _ => True
  | visit :: rest, row, l => visit.InOrder box row l ∧
      VisitsInOrder box rest (visit.servedRow box row) (visit.turn box l).state.2

/-- Every visit is served, from where the one before it ended. -/
def VisitsServed (box : Secretbox) : List Visit → EsloqRow → Lock → Prop
  | [], _, _ => True
  | visit :: rest, row, l => visit.Served box row l ∧
      VisitsServed box rest (visit.servedRow box row) (visit.turn box l).state.2

/-- The tickets issued for some visits. -/
def ticketsIssued (visits : List Visit) : Nat := (visits.map fun visit => visit.unsent.length + 1).sum

section Row

variable (box : Secretbox) (visit : Visit) (row : EsloqRow)

/-- Tickets that are never sent raise the nonce of the row only. -/
theorem waitingRow_eq (visit : Visit) (row : EsloqRow) :
    visit.waitingRow box row = { row with nonce := row.nonce + visit.unsent.length } := by
  rw [Visit.waitingRow]
  induction visit.unsent generalizing row with
  | nil => rfl
  | cons sessionKey rest ih =>
      rw [List.foldl_cons, ih, List.length_cons, getlockticket, EsloqRow.raise]
      have same : row.nonce + 1 + rest.length = row.nonce + (rest.length + 1) := by omega
      exact congrArg (fun nonce => { row with nonce := nonce }) same

theorem servedRow_eq :
    visit.servedRow box row = { row with nonce := row.nonce + visit.unsent.length + 1 } := by
  rw [Visit.servedRow, waitingRow_eq]
  rfl

/-- Below 2^192 the visit has its ticket. -/
theorem ticket_issued {box : Secretbox} (contract : box.Contract) {visit : Visit} {row : EsloqRow}
    (room : row.nonce + visit.unsent.length + 1 < 2 ^ 192) :
    ∃ ticket, visit.ticket box row = some ticket ∧
      nonceValue (ticketNonce ticket) = (visit.servedRow box row).nonce ∧
      ticketKey box row.key ticket = some visit.sessionKey := by
  have fits : (visit.waitingRow box row).nonce + [visit.sessionKey].length < 2 ^ 192 := by
    rw [waitingRow_eq]
    exact room
  obtain ⟨ticket, issued⟩ := issueTickets_total contract fits (Nat.zero_lt_succ [].length)
  rw [issueTickets, List.getElem?_cons_zero, Option.some.injEq, Prod.mk.injEq] at issued
  obtain ⟨nonce, opens⟩ := ticketOf_spec contract issued.1
  refine ⟨ticket, issued.1, nonce, ?_⟩
  rw [waitingRow_eq] at opens
  exact opens

end Row

/-! ### The parts of a visit -/

/-- What the lock does in a part of a visit, beside the app. -/
structure Proceeds (turn : Turn (App × Lock) (AppEvent ⊕ Effect) (Empty ⊕ Fault)) (l : Lock)
    (rotations : List Rotation) : Prop where
  ok : turn.fault = none
  rotates : Rotates l turn.state.2 (rights turn.events) rotations

theorem Proceeds.andThen {first : Turn (App × Lock) (AppEvent ⊕ Effect) (Empty ⊕ Fault)}
    {next : App × Lock → Turn (App × Lock) (AppEvent ⊕ Effect) (Empty ⊕ Fault)} {l : Lock}
    {rotations rotations' : List Rotation} (here : Proceeds first l rotations)
    (later : Proceeds (next first.state) first.state.2 rotations') :
    Proceeds (first.andThen next) l (rotations ++ rotations') := by
  rw [Turn.andThen_of_ok here.ok]
  refine ⟨later.ok, ?_⟩
  rw [rights_append]
  exact here.rotates.trans later.rotates

section Visit

variable {box : Secretbox}

theorem lockPasses_eq (its : List Iteration) (app : App) (l : Lock) :
    lockPasses box its (app, l) = (mainRun box its l).inRight app := run_inr _ _ its app l

theorem proceeds_lockPasses {its : List Iteration} {state : App × Lock} {rotations : List Rotation}
    (ok : (mainRun box its state.2).fault = none)
    (rotates : (mainRun box its state.2).Rotates state.2 rotations) :
    Proceeds (lockPasses box its state) state.2 rotations := by
  rw [lockPasses_eq, Turn.inRight, ok]
  refine ⟨rfl, ?_⟩
  rw [rights_inr]
  exact rotates

/-- The lock's side of the answer to a ticket. -/
theorem opening_rotates (contract : box.Contract) {opening : Opening} {app : App} {l : Lock}
    {sessionKey : Key} (waiting : l.state = .ticket)
    (fresh : isValidTicketNonce (ticketNonce l.msgBuf.data) l.masterNonceEeprom = true)
    (opens : ticketKey box l.masterKeyEeprom l.msgBuf.data = some sessionKey)
    (inOrder : opening.InOrder box (app, l)) :
    Rotates { l with masterNonceEeprom := ticketNonce l.msgBuf.data }
      (opening.turn box (app, l)).state.2 (rights (opening.turn box (app, l)).events) [] := by
  obtain ⟨events, state, -⟩ := rights_run_eq (appStep box) (loopBody box)
    (opening.inputs box (app, l)) (app, l)
  have passes : rights (opening.inputs box (app, l)) = opening.answering := by
    rw [Opening.inputs, rights_append, rights_inr, rights_inl, List.append_nil]
  rw [passes] at events state
  rw [Opening.turn, events, state]
  obtain ⟨one, raised, -⟩ := spells_zeroNonce.lock (by decide)
  obtain ⟨answers, complete⟩ := inOrder
  cases answering : opening.answering with
  | nil =>
      rw [answering] at complete
      exact absurd (show 0 = 3 from complete) (by decide)
  | cons it its =>
      rw [answering] at answers
      obtain ⟨l₁, events₁, c, begins, -⟩ :=
        ticket_begins contract it.lowBattery waiting fresh opens raised
      have performs := ticket_rotates box it.lowBattery waiting fresh
      rw [begins.turn] at performs
      exact answers_rotates box answers begins.turn begins.state begins.empty performs

/-- The lock's side of a round: the motor performs what is asked for. -/
theorem round_rotates (contract : box.Contract) {sessionKey : Key} {done : Nat} {round : Round}
    {state : App × Lock} (inStep : InStep sessionKey done state) (inOrder : round.InOrder box state)
    (room : 2 * done + 3 < 128 ^ 24) :
    Rotates state.2 (round.turn box state).state.2 (rights (round.turn box state).events)
      [round.request.rotation] := by
  obtain ⟨app, l⟩ := state
  obtain ⟨rfl, lockKey, same, spells, listening, waiting, empty, sent⟩ := inStep
  dsimp only at lockKey same spells waiting empty
  rw [← same] at spells
  obtain ⟨events, reached, -⟩ := rights_run_eq (appStep box) (loopBody box)
    (round.inputs box (app, l)) (app, l)
  have passes : rights (round.inputs box (app, l)) = round.carry ++ round.answering := by
    rw [Round.inputs, rights_append, rights_append, rights_inl, rights_inr, rights_inl,
      List.append_nil, List.nil_append]
  rw [passes] at events reached
  rw [Round.turn, events, reached]
  -- the app asks, and the request arrives
  obtain ⟨spellsAsked, above⟩ := spells.app (by omega)
  obtain ⟨c, sealed, asks⟩ := app_asks contract app round.request
  have asked := inOrder.asked
  rw [asks] at asked
  have delivers := asked _ (List.mem_singleton.mpr rfl)
  have awaits : l.state.awaits =
      some ((message app.incremented.sessionNonce c).toList.length, .request) := by
    rw [waiting, List.Vector.toList_length]
    rfl
  obtain ⟨l₁, events₁, run₁, receives₁, state₁, content₁⟩ := deliver_run box delivers awaits empty
  have carried := delivers_rotates box delivers awaits empty
  rw [run₁] at carried
  have split := mainRun_append box round.carry round.answering l
  rw [run₁, Turn.emit_andThen] at split
  show Rotates l (mainRun box (round.carry ++ round.answering) l).state
    (mainRun box (round.carry ++ round.answering) l).events _
  rw [split]
  refine carried.trans ?_
  -- the lock answers
  obtain ⟨answered, raised, -⟩ := spellsAsked.lock (by omega)
  have opens := messageByte_of_sealed contract sealed
  have buffered := bufferedRequest_of_content content₁
  have fresh : nonceValue l₁.sessionNonce < nonceValue app.incremented.sessionNonce := by
    rw [receives₁.sessionNonce, ← same]
    exact above
  have key : l₁.sessionKey = app.sessionKey := receives₁.sessionKey.trans lockKey
  rw [← key] at opens
  cases answering : round.answering with
  | nil =>
      have complete := inOrder.complete
      have silent : transmitted events₁ = [] := by
        have atMost := sent_length_le l₁.attWriteBuffer
        rw [receives₁.sent, List.length_append, sent] at atMost
        exact List.length_eq_zero_iff.mp (by omega)
      rw [Round.lockTurn, split, answering, transmitted_append, silent] at complete
      exact absurd (show 0 = 3 from complete) (by decide)
  | cons it its =>
      have answers := inOrder.answers
      rw [answering] at answers
      obtain ⟨l₂, events₂, c', begins, -⟩ := request_begins contract it.lowBattery state₁ buffered
        (by rw [messageNonce_message]; exact fresh) opens
        (by rw [messageNonce_message]; exact raised)
      have performs := request_rotates box it.lowBattery state₁
        (by rw [isValidSessionNonce_iff, buffered, messageNonce_message]; exact fresh)
        (by rw [buffered]; exact opens)
      rw [begins.turn] at performs
      exact answers_rotates box answers begins.turn begins.state begins.empty performs

/-- Rounds one after the other, from in step to in step. -/
theorem rounds_in_step (contract : box.Contract) {sessionKey : Key} :
    ∀ {rounds : List Round} {done : Nat} {state : App × Lock}, InStep sessionKey done state →
      AllInOrder box rounds state → 2 * (done + rounds.length) + 1 < 128 ^ 24 →
      InStep sessionKey (done + rounds.length) (roundsTurn box rounds state).state ∧
        Proceeds (roundsTurn box rounds state) state.2
          (rounds.map fun round => round.request.rotation)
  | [], _, state, inStep, _, _ => ⟨inStep, rfl, .refl state.2⟩
  | round :: rest, done, state, inStep, inOrder, room => by
      rw [List.length_cons] at room
      obtain ⟨agreed, later⟩ := round_in_step contract inStep inOrder.1 (by omega)
      have here := round_rotates contract inStep inOrder.1 (by omega)
      obtain ⟨last, proceeds⟩ := rounds_in_step contract later inOrder.2 (by omega)
      refine ⟨?_, Proceeds.andThen ⟨agreed.ok, here⟩ proceeds⟩
      have count : done + (rest.length + 1) = done + 1 + rest.length := by omega
      rw [roundsTurn, Turn.andThen_of_ok agreed.ok, List.length_cons, count]
      exact last

/-- The ticket arrives on a fresh connection. -/
theorem ticket_arrives {visit : Visit} {row : EsloqRow} {l : Lock} {ticket : Bytes 72}
    (idle : Idle l) (inOrder : visit.InOrder box row l) (issued : visit.ticket box row = some ticket) :
    (mainRun box (visit.connection ++ visit.delivery) l).fault = none ∧
      (visit.received box l).2.state = .ticket ∧ (visit.received box l).2.msgBuf.data = ticket ∧
      (mainRun box (visit.connection ++ visit.delivery) l).Rotates l [] := by
  obtain ⟨l₁, events₁, run₁, -, state₁, empty₁⟩ := connect_run box inOrder.connects idle
  have delivers := inOrder.delivers ticket issued
  have awaits : l₁.state.awaits = some (ticket.toList.length, .ticket) := by
    rw [state₁, List.Vector.toList_length]
    rfl
  obtain ⟨l₂, events₂, run₂, -, state₂, content⟩ := deliver_run box delivers awaits empty₁
  have connected := connects_rotates box inOrder.connects idle
  have carried := delivers_rotates box delivers awaits empty₁
  have whole : mainRun box (visit.connection ++ visit.delivery) l = .emit l₂ (events₁ ++ events₂) := by
    rw [mainRun_append, run₁, Turn.emit_andThen, run₂]
    rfl
  rw [run₁] at connected
  rw [run₂] at carried
  rw [Visit.received, whole]
  exact ⟨rfl, state₂, data_of_content content, connected.trans carried⟩

/-- The app leaves, and the lock is idle. -/
theorem goodbye_idle {visit : Visit} {row : EsloqRow} {first l : Lock}
    (inOrder : visit.InOrder box row first) (waiting : l.state = .requestW) (empty : l.msgBuf.len = 0) :
    (mainRun box (visit.parting ++ [visit.goodbye]) l).fault = none ∧
      Idle (mainRun box (visit.parting ++ [visit.goodbye]) l).state ∧
      (mainRun box (visit.parting ++ [visit.goodbye]) l).Rotates l [] := by
  obtain ⟨steady, nothing⟩ := inOrder.parts
  have awaits : l.state.awaits = some (41, .request) := by rw [waiting]; rfl
  obtain ⟨l', events, run, -, -, -, state⟩ := fill_run box visit.parting steady awaits
    (by rw [MsgBuffer.content_of_empty empty, nothing]; decide) (by rw [empty]; decide)
  have ok : (loopBody box visit.goodbye l').fault = none := by
    obtain ⟨request, pressed, button, -⟩ :=
      processButton_spec visit.goodbye.press { l' with state := .disconnected }
    rw [loopBody_of_whole box inOrder.whole, wholeBody,
      fsmProcess_awaits box visit.goodbye.lowBattery (state ▸ awaits), Turn.pure_andThen,
      inOrder.disconnects, processPacket, bleHandler, bleEvtConnectionDisconnected,
      Turn.pure_andThen, button]
    rfl
  have last : mainRun box [visit.goodbye] = loopBody box visit.goodbye :=
    funext fun l => run_single _ visit.goodbye l
  have whole : mainRun box (visit.parting ++ [visit.goodbye]) l =
      (Turn.emit l' events).andThen (loopBody box visit.goodbye) := by
    rw [mainRun_append, run, last]
  refine ⟨?_, ?_, fills_rotates box steady inOrder.whole awaits empty (by rw [nothing]; decide)⟩
  · rw [whole, Turn.emit_andThen]
    exact ok
  · rw [whole, Turn.emit_andThen]
    exact idle_of_disconnect inOrder.whole inOrder.disconnects ok

/-- **A visit from settled to settled.** -/
theorem visit_served (contract : box.Contract) {visit : Visit} {row : EsloqRow} {l : Lock}
    (settled : Settled row l) (room : row.nonce + visit.unsent.length + 1 < 2 ^ 192)
    (inOrder : visit.InOrder box row l) :
    visit.Served box row l ∧ Settled (visit.servedRow box row) (visit.turn box l).state.2 := by
  obtain ⟨ticket, issued, nonce, opens⟩ := ticket_issued contract room
  obtain ⟨ok₁, waiting, data, rotates₁⟩ := ticket_arrives settled.idle inOrder issued
  -- the ticket is beyond all that the lock has seen
  have key₁ : (visit.received box l).2.masterKeyEeprom = row.key :=
    rotates₁.masterKey.trans settled.own
  rw [← data, ← key₁] at opens
  have beyond : isValidTicketNonce (ticketNonce (visit.received box l).2.msgBuf.data)
      (visit.received box l).2.masterNonceEeprom = true := by
    have kept : (visit.received box l).2.masterNonceEeprom = l.masterNonceEeprom :=
      rotates₁.masterNonce
    rw [isValidTicketNonce_iff, kept, data, nonce, servedRow_eq]
    have behind := settled.behind
    show nonceValue l.masterNonceEeprom < row.nonce + visit.unsent.length + 1
    omega
  obtain ⟨opened, inStep⟩ := opening_in_step contract visit.app waiting beyond opens inOrder.opens
  have rotates₂ := opening_rotates contract waiting beyond opens inOrder.opens
  -- the rounds
  have few := inOrder.few
  have enough : 2 * (0 + visit.rounds.length) + 1 < 128 ^ 24 :=
    calc 2 * (0 + visit.rounds.length) + 1 < 2 * 2 ^ 160 + 1 := by omega
      _ < 128 ^ 24 := by norm_num
  obtain ⟨last, asked⟩ := rounds_in_step contract inStep inOrder.rounds enough
  obtain ⟨ok₄, idle, rotates₄⟩ := goodbye_idle inOrder last.waiting last.empty
  -- the visit as a whole
  have left := asked.andThen (proceeds_lockPasses ok₄ rotates₄)
  have session : Proceeds (visit.session box (visit.received box l)) _ _ :=
    Proceeds.andThen ⟨opened.ok, rotates₂⟩ left
  have arrival : Proceeds (lockPasses box (visit.connection ++ visit.delivery)
      ((visit.app.setSessionKey visit.sessionKey).onDescriptorWrite, l)) l _ :=
    proceeds_lockPasses ok₁ rotates₁
  have reached : (lockPasses box (visit.connection ++ visit.delivery)
      ((visit.app.setSessionKey visit.sessionKey).onDescriptorWrite, l)).state =
      visit.received box l := congrArg Turn.state (lockPasses_eq _ _ l)
  have turn : visit.turn box l = _ := Turn.andThen_of_ok arrival.ok (visit.session box)
  rw [reached] at turn
  have ends : (visit.session box (visit.received box l)).state.2 =
      (mainRun box (visit.parting ++ [visit.goodbye])
        (roundsTurn box visit.rounds (visit.opened box l).state).state.2).state := by
    have opened' : (visit.opening.turn box (visit.received box l)).fault = none := opened.ok
    have asked' : (roundsTurn box visit.rounds
      (visit.opening.turn box (visit.received box l)).state).fault = none := asked.ok
    rw [Visit.session, Turn.andThen_of_ok opened', Turn.andThen_of_ok asked']
    exact congrArg (fun turn : Turn _ _ _ => turn.state.2) (lockPasses_eq _ _ _)
  have ok : (visit.turn box l).fault = none := by
    rw [turn]
    exact session.ok
  have state : (visit.turn box l).state = (visit.session box (visit.received box l)).state := by
    rw [turn]
  have remembered : nonceValue (visit.turn box l).state.2.masterNonceEeprom =
      (visit.servedRow box row).nonce := by
    rw [state, session.rotates.masterNonce, ← nonce, ← data]
  have performed : remoteRotations (rights (visit.turn box l).events) =
      visit.rounds.map fun round => round.request.rotation := by
    rw [turn, rights_append, remoteRotations_append, arrival.rotates.remote, session.rotates.remote]
    simp
  refine ⟨⟨ok, opened, all_agreed contract inStep inOrder.rounds enough, performed, remembered⟩, ?_, ?_,
    remembered.le⟩
  · rw [state, ends]
    exact idle
  · rw [state, session.rotates.masterKey]
    exact key₁.trans (by rw [servedRow_eq])

/-- **Any number of visits.** A lock between two visits has the key of its row, and its EEPROM is not
above the row's nonce. Then come visits by any apps, with tickets issued in between that are never sent;
fewer than `2 ^ 192` tickets are issued in all, and fewer than `2 ^ 160` requests made in a visit. If
every message of a visit is delivered once and in order, then every visit is served. -/
theorem visits_served (contract : box.Contract) : ∀ (visits : List Visit) (row : EsloqRow) (l : Lock),
    Settled row l → row.nonce + ticketsIssued visits < 2 ^ 192 → VisitsInOrder box visits row l →
    VisitsServed box visits row l
  | [], _, _, _, _, _ => trivial
  | visit :: rest, row, l, settled, room, inOrder => by
      have issued : ticketsIssued (visit :: rest) = visit.unsent.length + 1 + ticketsIssued rest := rfl
      obtain ⟨served, later⟩ := visit_served contract settled (by omega) inOrder.1
      refine ⟨served, visits_served contract rest _ _ later ?_ inOrder.2⟩
      rw [servedRow_eq]
      show row.nonce + visit.unsent.length + 1 + ticketsIssued rest < 2 ^ 192
      omega

end Visit

/-! ### Two visits -/

/-- A visit to lock, with the ticket of this number. -/
def sampleVisit (number : Nat) (unsent : List Key) (app : App) : Visit where
  unsent := unsent
  sessionKey := sampleSessionKey
  app := app
  connection := sampleConnection
  delivery := packets (sampleTicket number).toList
  opening := sampleFirst
  rounds := [sampleRound]
  parting := [quietPass]
  goodbye := sampleGoodbye

/-- One ticket is never sent, and the second is used. -/
def firstVisit : Visit := sampleVisit 2 [sampleMasterKey] sampleApp

/-- The visit of an app that has had another session before. -/
def secondVisit : Visit := sampleVisit 3 [] ⟨sampleMasterKey, nonceOf 9, none⟩

theorem answers_sample : Answers sampleAnswering := ⟨by decide, rfl⟩

theorem answers_quiet : Answers [quietPass] := ⟨by decide, rfl⟩

/-- The request of the sample round arrives. -/
theorem sampleRound_inOrder {state : App × Lock}
    (asked : valuesWritten (appStep keyTag sampleRound.request.input state.1).events =
      [(sampleMessage 2 1).toList])
    (answered : (transmitted (sampleRound.lockTurn keyTag state).events).length = 3) :
    sampleRound.InOrder keyTag state where
  asked value member := by
    rw [asked, List.mem_singleton] at member
    rw [member]
    exact ⟨by decide +kernel, by decide +kernel, (packets (sampleMessage 2 1).toList).take 2,
      pass (.evtAttributesValue cLockReceive ((sampleMessage 2 1).toList.drop 40)),
      by decide +kernel, by decide +kernel⟩
  answers := answers_sample
  complete := answered

theorem sampleVisit_inOrder {number : Nat} {unsent : List Key} {app : App} {row : EsloqRow} {l : Lock}
    (issued : (sampleVisit number unsent app).ticket keyTag row = some (sampleTicket number))
    (delivers : Delivers (sampleTicket number).toList (packets (sampleTicket number).toList))
    (opens : (transmitted (mainRun keyTag sampleAnswering
      ((sampleVisit number unsent app).received keyTag l).2).events).length = 3)
    (rounds : sampleRound.InOrder keyTag ((sampleVisit number unsent app).opened keyTag l).state) :
    (sampleVisit number unsent app).InOrder keyTag row l where
  connects := sample_connects
  delivers ticket same := by
    have isTicket : sampleTicket number = ticket := Option.some.inj (issued.symm.trans same)
    rw [isTicket] at delivers
    dsimp only [sampleVisit]
    rw [isTicket]
    exact delivers
  opens := ⟨answers_sample, opens⟩
  few := Nat.one_lt_two_pow (by decide)
  rounds := ⟨rounds, trivial⟩
  parts := answers_quiet
  whole := rfl
  disconnects := rfl

/-- A new lock is visited twice. -/
theorem visits_served_twice :
    VisitsServed keyTag [firstVisit, secondVisit] newRow (bootLock zeroNonce newRow.key) := by
  have delivers : ∀ number, number = 2 ∨ number = 3 →
      Delivers (sampleTicket number).toList (packets (sampleTicket number).toList) := by
    rintro number (rfl | rfl)
    all_goals
      refine ⟨by decide +kernel, by decide +kernel, _, _, (List.dropLast_append_getLast ?_).symm, ?_⟩
      all_goals decide +kernel
  refine visits_served keyTag_contract _ newRow _ ⟨⟨rfl, Or.inr rfl⟩, rfl, ?_⟩ ?_
    ⟨?_, ?_, trivial⟩
  · decide +kernel
  · decide +kernel
  · exact sampleVisit_inOrder (by decide +kernel) (delivers 2 (Or.inl rfl)) (by decide +kernel)
      (sampleRound_inOrder (by decide +kernel) (by decide +kernel))
  · exact sampleVisit_inOrder (by decide +kernel) (delivers 3 (Or.inr rfl)) (by decide +kernel)
      (sampleRound_inOrder (by decide +kernel) (by decide +kernel))

end Esloq
