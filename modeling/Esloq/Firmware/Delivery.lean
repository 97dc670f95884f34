/-
**How a message reaches its processor: connections, packets and the receive buffer.**

* `Iteration.silent`, `Iteration.steady` — passes without a write to `c_lock_receive`, and passes that
  keep a connection and may carry a packet of a message.
* `silent_run`, `connect_run` — from a disconnect (or power-up) on, silent passes empty the buffer
  and a connection status event leads to `CONNECTED` with the EEPROM and the session kept.
* `fill_run` — steady passes append what they write to the buffer.
* `deliver_run` — a message split in any way is complete with its last packet, and then stands in the
  buffer while the state machine is in `TICKET` or `REQUEST`.
* `answer_run` — a response that `fsm_process` begins is sent section by section, and nothing else is
  sent before it is complete.
-/

import Esloq.Firmware.Loop

namespace Esloq

open Machine

/-! ### Passes -/

/-- The bytes a pass writes to `c_lock_receive`. -/
def Iteration.written (it : Iteration) : List UInt8 :=
  match it.packet with
  | .msg (.evtAttributesValue handle value) => if handle = cLockReceive then value else []
  | _ => []

/-- A whole pass without an error and without a write to `c_lock_receive`. -/
def Iteration.silent (it : Iteration) : Bool :=
  it.cut.isNone &&
    match it.packet with
    | .timeout => true
    | .msg (.evtAttributesValue handle _) => handle ≠ cLockReceive
    | .msg _ => true
    | .error => false

/-- A whole pass that keeps the connection; a write carries at least a byte. -/
def Iteration.steady (it : Iteration) : Bool :=
  it.cut.isNone &&
    match it.packet with
    | .timeout => true
    | .msg (.evtAttributesValue handle value) => handle ≠ cLockReceive || value ≠ []
    | .msg (.rspAttributesWrite _) | .msg .evtHardwareIoPortStatus | .msg .stub => true
    | .msg (.evtConnectionStatus flags) => flags &&& 5 = 0
    | _ => false

theorem loopBody_of_whole (box : Secretbox) {it : Iteration} (whole : it.cut = none) (l : Lock) :
    loopBody box it l = wholeBody box it l := by
  simp only [loopBody, whole]

/-- The values written to `c_lock_transmit`, in order. -/
def transmitted (effects : List Effect) : List (List UInt8) :=
  effects.filterMap fun
    | .cmd (.attributesWrite handle _ value) => if handle = cLockTransmit then some value else none
    | _ => none

theorem transmitted_append (first second : List Effect) :
    transmitted (first ++ second) = transmitted first ++ transmitted second := List.filterMap_append

/-- The end of a pass changes the stored request only, and transmits nothing. -/
theorem processButton_spec (press : Option Rotation) (l : Lock) :
    ∃ request events, processButton press l = .emit { l with request := request } events ∧
      transmitted events = [] := by
  unfold processButton
  split
  · exact ⟨none, _, rfl, rfl⟩
  · exact ⟨l.request, [], rfl, rfl⟩

/-! ### Silence -/

/-- The lock between two connections: nothing is expected, and the buffer is or is about to be
empty. -/
structure Idle (l : Lock) : Prop where
  resting : l.state.resting = true
  empty : l.state = .disconnected ∨ l.msgBuf.len = 0

/-- Between connections `fsm_process` advertises and empties the buffer. -/
theorem fsmProcess_idle (box : Secretbox) (lowBattery : Bool) {l : Lock} (idle : Idle l) :
    ∃ l' events, fsmProcess box lowBattery l = .emit l' events ∧ Untouched l l' ∧
      l'.state.resting = true ∧ l'.msgBuf.len = 0 := by
  obtain ⟨resting, empty⟩ := idle
  rcases fsmProcess_cases box lowBattery l with
    ⟨waiting, -⟩ | ⟨waiting, -⟩ | ⟨-, same⟩ | ⟨other, state, command, rests, same⟩ |
      ⟨other, -, -, same⟩
  · rw [waiting] at resting
    cases resting
  · rw [waiting] at resting
    cases resting
  · exact ⟨_, _, same, ⟨rfl, rfl, rfl, rfl, fun entered => by cases entered⟩, rfl, rfl⟩
  · refine ⟨_, _, same, ⟨rfl, rfl, rfl, rfl, fun entered => ?_⟩, rests, empty.resolve_left other⟩
    have inside : state.inSession = true := entered
    rw [State.inSession_of_resting rests] at inside
    cases inside
  · exact ⟨l, [], same, .refl l, resting, empty.resolve_left other⟩

/-- What a silent pass receives. -/
theorem Iteration.silent_packet {it : Iteration} (silent : it.silent = true) :
    it.cut = none ∧ (it.packet = .timeout ∨
      ∃ msg, it.packet = .msg msg ∧ ∀ value, msg ≠ .evtAttributesValue cLockReceive value) := by
  obtain ⟨lowBattery, packet, press, cut⟩ := it
  simp only [Iteration.silent, Bool.and_eq_true, Option.isNone_iff_eq_none] at silent
  refine ⟨silent.1, ?_⟩
  cases packet with
  | timeout => exact Or.inl rfl
  | error => simp at silent
  | msg msg =>
      refine Or.inr ⟨msg, rfl, ?_⟩
      rintro value rfl
      simp at silent

/-- A silent pass between connections stays between connections, or begins one with an empty
buffer. -/
theorem silent_pass (box : Secretbox) {it : Iteration} (silent : it.silent = true) {l : Lock}
    (idle : Idle l) :
    ∃ l' events, loopBody box it l = .emit l' events ∧ Untouched l l' ∧ Idle l' ∧
      (∀ flags, it.packet = .msg (.evtConnectionStatus flags) → flags &&& 5 ≠ 0 →
        l'.state = .connected) := by
  obtain ⟨whole, packet⟩ := Iteration.silent_packet silent
  obtain ⟨l₁, events₁, fsm, same₁, resting₁, empty₁⟩ := fsmProcess_idle box it.lowBattery idle
  rw [loopBody_of_whole box whole, wholeBody, fsm, Turn.emit_andThen]
  rcases packet with timeout | ⟨msg, packet, other⟩
  · rw [timeout, processPacket]
    obtain ⟨request, events, button, -⟩ := processButton_spec it.press l₁
    rw [button]
    refine ⟨_, _, rfl, same₁.trans ⟨rfl, rfl, rfl, rfl, id⟩, ⟨resting₁, Or.inr empty₁⟩, ?_⟩
    intro flags isStatus
    cases isStatus
  · obtain ⟨value, isWrite⟩ | ⟨l₂, events₂, handled, kept, -⟩ := bleHandler_cases msg l₁
    · exact absurd isWrite (other value)
    obtain ⟨request, events, button, -⟩ := processButton_spec it.press l₂
    have resting₂ : l₂.state.resting = true := kept.state.elim (fun same => same ▸ resting₁) id
    have empty₂ : l₂.msgBuf.len = 0 := by rw [kept.msgBuf, empty₁]
    rw [packet, processPacket, handled, Turn.emit_andThen, button]
    refine ⟨_, _, rfl, (same₁.trans kept.untouched).trans ⟨rfl, rfl, rfl, rfl, id⟩,
      ⟨resting₂, Or.inr empty₂⟩, ?_⟩
    intro flags isStatus connects
    cases isStatus
    rw [bleHandler, bleEvtConnectionStatus, if_pos connects] at handled
    exact congrArg (fun turn : LockTurn => turn.state.state) handled.symm

theorem mainRun_cons_emit {box : Secretbox} {it : Iteration} {its : List Iteration} {l l' : Lock}
    {events : List Effect} (pass : loopBody box it l = .emit l' events) :
    mainRun box (it :: its) l = ⟨(mainRun box its l').state, events ++ (mainRun box its l').events,
      (mainRun box its l').fault⟩ := by
  rw [mainRun, run_cons, pass, Turn.emit_andThen]
  rfl

theorem mainRun_append (box : Secretbox) (first second : List Iteration) (l : Lock) :
    mainRun box (first ++ second) l = (mainRun box first l).andThen (mainRun box second) :=
  run_append _ _ _ _

theorem silent_run (box : Secretbox) : ∀ (its : List Iteration) {l : Lock},
    (∀ it ∈ its, it.silent = true) → Idle l →
    ∃ l' events, mainRun box its l = .emit l' events ∧ Untouched l l' ∧ Idle l'
  | [], l, _, idle => ⟨l, [], rfl, .refl l, idle⟩
  | it :: its, l, silent, idle => by
      obtain ⟨l₁, events₁, pass, same₁, idle₁, -⟩ :=
        silent_pass box (silent it List.mem_cons_self) idle
      obtain ⟨l', events', rest, same', idle'⟩ := silent_run box its
        (fun other member => silent other (List.mem_cons_of_mem it member)) idle₁
      refine ⟨l', events₁ ++ events', ?_, same₁.trans same', idle'⟩
      rw [mainRun_cons_emit pass, rest]
      rfl

/-- Silent passes the last of which reports a connection. -/
structure Connects (its : List Iteration) : Prop where
  silent : ∀ it ∈ its, it.silent = true
  connected : ∃ idle conn flags, its = idle ++ [conn] ∧
    conn.packet = .msg (.evtConnectionStatus flags) ∧ flags &&& 5 ≠ 0

/-- **A fresh connection** starts in `CONNECTED` with an empty buffer. -/
theorem connect_run (box : Secretbox) {its : List Iteration} {l : Lock} (connects : Connects its)
    (idle : Idle l) :
    ∃ l' events, mainRun box its l = .emit l' events ∧ Untouched l l' ∧ l'.state = .connected ∧
      l'.msgBuf.len = 0 := by
  obtain ⟨silent, before, conn, flags, rfl, packet, status⟩ := connects
  obtain ⟨l₁, events₁, run₁, same₁, idle₁⟩ := silent_run box before
    (fun it member => silent it (List.mem_append_left _ member)) idle
  obtain ⟨l', events', pass, same', idle', connected⟩ :=
    silent_pass box (silent conn (by simp)) idle₁
  have inConnection := connected flags packet status
  refine ⟨l', events₁ ++ events', ?_, same₁.trans same', inConnection,
    idle'.empty.resolve_left (by rw [inConnection]; decide)⟩
  rw [mainRun_append, run₁, Turn.emit_andThen, mainRun_cons_emit pass]
  simp [mainRun, Turn.emit, Turn.pure]

/-- A disconnect ends every connection, whatever the pass has processed before. -/
theorem idle_of_disconnect {box : Secretbox} {it : Iteration} {l : Lock} (whole : it.cut = none)
    (packet : it.packet = .msg .evtConnectionDisconnected)
    (ok : (loopBody box it l).fault = none) : Idle (loopBody box it l).state := by
  rw [loopBody_of_whole box whole, wholeBody] at ok ⊢
  obtain ⟨here, -⟩ := Turn.ok_of_andThen ok
  rw [Turn.andThen_of_ok here, packet, processPacket]
  obtain ⟨request, events, button, -⟩ := processButton_spec it.press
    { (fsmProcess box it.lowBattery l).state with state := .disconnected }
  refine ⟨?_, Or.inl ?_⟩
  · simp only [bleHandler, bleEvtConnectionDisconnected, Turn.pure_andThen, button]
    rfl
  · simp only [bleHandler, bleEvtConnectionDisconnected, Turn.pure_andThen, button]
    rfl

/-! ### Packets -/

/-- The bytes received since the buffer was emptied. -/
def MsgBuffer.content (buffer : MsgBuffer) : List UInt8 := buffer.data.toList.take buffer.len.toNat

theorem MsgBuffer.length_content {buffer : MsgBuffer} (inside : buffer.len.toNat ≤ 72) :
    buffer.content.length = buffer.len.toNat := by
  rw [MsgBuffer.content, List.length_take, List.Vector.toList_length]
  omega

theorem MsgBuffer.content_of_empty {buffer : MsgBuffer} (empty : buffer.len = 0) :
    buffer.content = [] := by
  rw [MsgBuffer.content, empty]
  rfl

/-- The length a state waits for, and the state a message of that length leads to. -/
def State.awaits : State → Option (Nat × State)
  | .connected => some (72, .ticket)
  | .requestW => some (41, .request)
  | _ => none

theorem State.awaits_le {state complete : State} {total : Nat}
    (awaits : state.awaits = some (total, complete)) : total ≤ 72 := by
  cases state <;> cases awaits <;> decide

/-- The sections of the response that have been sent. -/
def AttributesWriteBuffer.sent (buffer : AttributesWriteBuffer) : List (List UInt8) :=
  (sections buffer.data).take (buffer.sectionSent.toNat + 1)

/-- What the lock keeps while a message arrives, and what it transmits meanwhile. -/
structure Receives (l l' : Lock) (events : List Effect) : Prop where
  masterNonce : l'.masterNonceEeprom = l.masterNonceEeprom
  masterKey : l'.masterKeyEeprom = l.masterKeyEeprom
  sessionNonce : l'.sessionNonce = l.sessionNonce
  sessionKey : l'.sessionKey = l.sessionKey
  response : l'.attWriteBuffer.data = l.attWriteBuffer.data
  sent : l'.attWriteBuffer.sent = l.attWriteBuffer.sent ++ transmitted events

theorem Receives.refl (l : Lock) : Receives l l [] :=
  ⟨rfl, rfl, rfl, rfl, rfl, (List.append_nil _).symm⟩

theorem Receives.trans {first second third : Lock} {events later' : List Effect}
    (earlier : Receives first second events) (later : Receives second third later') :
    Receives first third (events ++ later') :=
  ⟨later.masterNonce.trans earlier.masterNonce, later.masterKey.trans earlier.masterKey,
    later.sessionNonce.trans earlier.sessionNonce, later.sessionKey.trans earlier.sessionKey,
    later.response.trans earlier.response,
    by rw [later.sent, earlier.sent, transmitted_append, List.append_assoc]⟩

/-- Every message but `rsp_attributes_write` leaves the outgoing response, and that one sends the next
section of it. -/
theorem bleHandler_sent (msg : BgapiMsg) (l : Lock) :
    (bleHandler msg l).state.attWriteBuffer.sent =
      l.attWriteBuffer.sent ++ transmitted (bleHandler msg l).events := by
  have same : ∀ l' : Lock, l'.attWriteBuffer = l.attWriteBuffer →
      l'.attWriteBuffer.sent = l.attWriteBuffer.sent ++ transmitted [] := by
    intro l' kept
    rw [kept]
    exact (List.append_nil _).symm
  cases msg with
  | rspAttributesWrite result =>
      simp only [bleHandler, bleRspAttributesWrite]
      split
      · exact same l rfl
      · split
        · rename_i first
          simp only [Turn.emit, AttributesWriteBuffer.sent, first]
          rfl
        · split
          · rename_i second
            simp only [Turn.emit, AttributesWriteBuffer.sent, second]
            rfl
          · exact same l rfl
  | evtAttributesValue handle value =>
      rw [bleHandler, bleEvtAttributesValue]
      split
      · split
        · exact same _ rfl
        · exact same _ rfl
      · exact same l rfl
  | rspGapSetAdvData =>
      rw [bleHandler, bleRspGapSetAdvData]
      split
      · exact same _ rfl
      · split
        · exact same _ rfl
        · exact same l rfl
  | evtConnectionStatus flags =>
      rw [bleHandler, bleEvtConnectionStatus]
      split
      · exact same _ rfl
      · exact same l rfl
  | _ => exact same _ rfl

/-- A write that fits is appended, and completes a message of the awaited length. -/
theorem bleEvtAttributesValue_spec {l : Lock} {total : Nat} {complete : State}
    {value : List UInt8} (awaits : l.state.awaits = some (total, complete)) (fits : l.msgBuf.content.length + value.length ≤ total)
    (inside : l.msgBuf.len.toNat ≤ 72) :
    ∃ l', bleEvtAttributesValue cLockReceive value l = .emit l' [.received value] ∧
      Receives l l' [.received value] ∧
      l'.msgBuf.content = l.msgBuf.content ++ value ∧ l'.msgBuf.len.toNat ≤ 72 ∧
      l'.state =
        if l.msgBuf.content.length + value.length = total then complete else l.state := by
  have atMost := State.awaits_le awaits
  rw [MsgBuffer.length_content inside] at fits ⊢
  have room : l.msgBuf.len.toNat + value.length ≤ 72 := fits.trans atMost
  have sum : (l.msgBuf.len + UInt8.ofNat value.length).toNat =
      l.msgBuf.len.toNat + value.length := by
    rw [UInt8.toNat_add, UInt8.toNat_ofNat']
    omega
  refine ⟨_, bleEvtAttributesValue_of_fits room,
    ⟨rfl, rfl, rfl, rfl, rfl, (List.append_nil _).symm⟩, ?_, ?_, ?_⟩
  · show List.take (l.msgBuf.len + UInt8.ofNat value.length).toNat
      (l.msgBuf.data.splice l.msgBuf.len.toNat value room).toList = _
    rw [sum]
    exact Bytes.take_splice _ _ _ room
  · show (l.msgBuf.len + UInt8.ofNat value.length).toNat ≤ 72
    omega
  · show afterReceive l.state (l.msgBuf.len + UInt8.ofNat value.length) = _
    have reads : ∀ n : UInt8, l.msgBuf.len + UInt8.ofNat value.length = n ↔
        l.msgBuf.len.toNat + value.length = n.toNat := by
      intro n
      rw [← UInt8.toNat_inj, sum]
    unfold afterReceive
    cases state : l.state with
    | connected =>
        rw [state] at awaits
        cases awaits
        simp [reads]
    | requestW =>
        rw [state] at awaits
        cases awaits
        simp [reads]
    | _ =>
        rw [state] at awaits
        cases awaits

/-- A state that awaits a message does nothing in `fsm_process`. -/
theorem fsmProcess_awaits (box : Secretbox) (lowBattery : Bool) {l : Lock} {awaited : Nat × State}
    (awaits : l.state.awaits = some awaited) : fsmProcess box lowBattery l = .pure l := by
  cases state : l.state with
  | connected | requestW => rw [fsmProcess, state]
  | _ =>
      rw [state] at awaits
      cases awaits

/-- What a steady pass receives: a packet of a message, or nothing that concerns it. -/
theorem Iteration.steady_packet {it : Iteration} (steady : it.steady = true) :
    it.cut = none ∧
      ((it.written = [] ∧ (it.packet = .timeout ∨ ∃ msg, it.packet = .msg msg ∧
          ∀ l : Lock, ∃ l' events, bleHandler msg l = .emit l' events ∧ Receives l l' events ∧
            l'.msgBuf = l.msgBuf ∧ l'.state = l.state)) ∨
        it.written ≠ [] ∧ it.packet = .msg (.evtAttributesValue cLockReceive it.written)) := by
  obtain ⟨lowBattery, packet, press, cut⟩ := it
  rw [Iteration.steady, Bool.and_eq_true, Option.isNone_iff_eq_none] at steady
  refine ⟨steady.1, ?_⟩
  have keeps : ∀ msg : BgapiMsg, (∀ value, msg ≠ .evtAttributesValue cLockReceive value) →
      (∀ l : Lock, (bleHandler msg l).state.state = l.state) →
      ∀ l : Lock, ∃ l' events, bleHandler msg l = .emit l' events ∧ Receives l l' events ∧
        l'.msgBuf = l.msgBuf ∧ l'.state = l.state := by
    intro msg silent stays l
    obtain ⟨value, isWrite⟩ | ⟨l', events, handled, kept, -⟩ := bleHandler_cases msg l
    · exact absurd isWrite (silent value)
    · have same := stays l
      have sent := bleHandler_sent msg l
      rw [handled] at same sent
      exact ⟨l', events, handled, ⟨kept.masterNonce, kept.masterKey, kept.sessionNonce,
        kept.sessionKey, kept.response, sent⟩, kept.msgBuf, same⟩
  cases packet with
  | timeout => exact Or.inl ⟨rfl, Or.inl rfl⟩
  | error => simp at steady
  | msg msg =>
      cases msg with
      | evtHardwareIoPortStatus | stub =>
          exact Or.inl ⟨rfl, Or.inr ⟨_, rfl, keeps _ (fun _ same => by cases same) fun _ => rfl⟩⟩
      | rspAttributesWrite result =>
          refine Or.inl ⟨rfl, Or.inr ⟨_, rfl, keeps _ (fun _ same => by cases same) fun l => ?_⟩⟩
          simp only [bleHandler, bleRspAttributesWrite]
          split
          · rfl
          · split
            · rfl
            · split <;> rfl
      | evtConnectionStatus flags =>
          have same : ¬ flags &&& 5 ≠ 0 := by simpa using steady.2
          refine Or.inl ⟨rfl, Or.inr ⟨_, rfl, keeps _ (fun _ same => by cases same) fun l => ?_⟩⟩
          rw [bleHandler, bleEvtConnectionStatus, if_neg same]
          rfl
      | evtAttributesValue handle value =>
          by_cases receive : handle = cLockReceive
          · subst receive
            refine Or.inr ⟨?_, ?_⟩
            · simpa [Iteration.written] using steady.2
            · simp [Iteration.written]
          · refine Or.inl ⟨by simp [Iteration.written, receive], Or.inr ⟨_, rfl, keeps _ ?_ ?_⟩⟩
            · intro other same
              cases same
              exact receive rfl
            · intro l
              rw [bleHandler, bleEvtAttributesValue, if_neg receive]
              rfl
      | _ => simp at steady

/-- What the packet of a steady pass adds to a message that is not complete. -/
theorem steady_received {it : Iteration} (steady : it.steady = true) {l : Lock} {total : Nat}
    {complete : State} (awaits : l.state.awaits = some (total, complete))
    (started : l.msgBuf.content.length < total)
    (fits : l.msgBuf.content.length + it.written.length ≤ total)
    (inside : l.msgBuf.len.toNat ≤ 72) :
    ∃ l' events, processPacket it.packet it.press l = .emit l' events ∧ Receives l l' events ∧
      l'.msgBuf.content = l.msgBuf.content ++ it.written ∧ l'.msgBuf.len.toNat ≤ 72 ∧
      l'.state =
        if l.msgBuf.content.length + it.written.length = total then complete else l.state := by
  have pressed : ∀ (l : Lock) request {events : List Effect}, transmitted events = [] →
      Receives l { l with request := request } events := fun l _ _ quiet =>
    ⟨rfl, rfl, rfl, rfl, rfl, by rw [quiet, List.append_nil]⟩
  rcases (Iteration.steady_packet steady).2 with
    ⟨nothing, timeout | ⟨msg, packet, keeps⟩⟩ | ⟨-, packet⟩
  · obtain ⟨request, events, button, quiet⟩ := processButton_spec it.press l
    rw [timeout, processPacket, button, nothing, List.append_nil, List.length_nil, Nat.add_zero,
      if_neg (by omega)]
    exact ⟨_, _, rfl, pressed l request quiet, rfl, inside, rfl⟩
  · obtain ⟨l₁, events₁, handled, receives, buffer, state⟩ := keeps l
    obtain ⟨request, events, button, quiet⟩ := processButton_spec it.press l₁
    rw [packet, processPacket, handled, Turn.emit_andThen, button, nothing, List.append_nil,
      List.length_nil, Nat.add_zero, if_neg (by omega)]
    refine ⟨_, _, rfl, receives.trans (pressed l₁ request quiet), ?_, ?_, state⟩
    · exact congrArg MsgBuffer.content buffer
    · show l₁.msgBuf.len.toNat ≤ 72
      rwa [buffer]
  · obtain ⟨l₁, handled, receives, content, inside₁, state⟩ :=
      bleEvtAttributesValue_spec awaits fits inside
    obtain ⟨request, events, button, quiet⟩ := processButton_spec it.press l₁
    rw [packet, processPacket, bleHandler, handled, Turn.emit_andThen, button]
    exact ⟨_, _, rfl, receives.trans (pressed l₁ request quiet), content, inside₁, state⟩

/-- So does the pass, since `fsm_process` does nothing. -/
theorem steady_pass (box : Secretbox) {it : Iteration} (steady : it.steady = true) {l : Lock}
    {total : Nat} {complete : State} (awaits : l.state.awaits = some (total, complete))
    (started : l.msgBuf.content.length < total)
    (fits : l.msgBuf.content.length + it.written.length ≤ total)
    (inside : l.msgBuf.len.toNat ≤ 72) :
    ∃ l' events, loopBody box it l = .emit l' events ∧ Receives l l' events ∧
      l'.msgBuf.content = l.msgBuf.content ++ it.written ∧ l'.msgBuf.len.toNat ≤ 72 ∧
      l'.state =
        if l.msgBuf.content.length + it.written.length = total then complete else l.state := by
  rw [loopBody_of_whole box (Iteration.steady_packet steady).1, wholeBody,
    fsmProcess_awaits box it.lowBattery awaits, Turn.pure_andThen]
  exact steady_received steady awaits started fits inside

/-- The bytes passes write to `c_lock_receive`, in order. -/
def written (its : List Iteration) : List UInt8 := its.flatMap Iteration.written

/-- Steady passes that write less than the awaited message. -/
theorem fill_run (box : Secretbox) {total : Nat} {complete : State} :
    ∀ (its : List Iteration) {l : Lock}, (∀ it ∈ its, it.steady = true) →
      l.state.awaits = some (total, complete) →
      l.msgBuf.content.length + (written its).length < total → l.msgBuf.len.toNat ≤ 72 →
      ∃ l' events, mainRun box its l = .emit l' events ∧ Receives l l' events ∧
        l'.msgBuf.content = l.msgBuf.content ++ written its ∧ l'.msgBuf.len.toNat ≤ 72 ∧
        l'.state = l.state
  | [], l, _, _, _, inside => ⟨l, [], rfl, .refl l, (List.append_nil _).symm, inside, rfl⟩
  | it :: its, l, steady, awaits, less, inside => by
      have here : written (it :: its) = it.written ++ written its := rfl
      rw [here, List.length_append] at less
      obtain ⟨l₁, events₁, pass, receives₁, content₁, inside₁, state₁⟩ :=
        steady_pass box (steady it List.mem_cons_self) awaits (by omega) (by omega) inside
      rw [if_neg (by omega)] at state₁
      obtain ⟨l', events', rest, receives', content', inside', state'⟩ :=
        fill_run box its
          (fun other member => steady other (List.mem_cons_of_mem it member))
          (by rw [state₁, awaits]) (by rw [content₁, List.length_append]; omega) inside₁
      refine ⟨l', events₁ ++ events', ?_, receives₁.trans receives', ?_, inside',
        state'.trans state₁⟩
      · rw [mainRun_cons_emit pass, rest]
        rfl
      · rw [content', content₁, here, List.append_assoc]

/-- Steady passes that write a message, the last one its last packet. -/
structure Delivers (message : List UInt8) (its : List Iteration) : Prop where
  steady : ∀ it ∈ its, it.steady = true
  writes : written its = message
  ends : ∃ before last, its = before ++ [last] ∧ last.written ≠ []

/-- **A message split in any way is complete with its last packet.** -/
theorem deliver_run (box : Secretbox) {message : List UInt8} {its : List Iteration} {l : Lock}
    {complete : State} (delivers : Delivers message its)
    (awaits : l.state.awaits = some (message.length, complete)) (empty : l.msgBuf.len = 0) :
    ∃ l' events, mainRun box its l = .emit l' events ∧ Receives l l' events ∧
      l'.state = complete ∧ l'.msgBuf.content = message := by
  obtain ⟨steady, writes, before, last, rfl, ends⟩ := delivers
  have split : written (before ++ [last]) = written before ++ last.written := by
    simp [written]
  have nothing := MsgBuffer.content_of_empty empty
  have positive : 0 < last.written.length := List.length_pos_iff.mpr ends
  have total : (written before).length + last.written.length = message.length := by
    rw [← writes, split, List.length_append]
  obtain ⟨l₁, events₁, run₁, receives₁, content₁, inside₁, state₁⟩ :=
    fill_run box before (fun it member => steady it (List.mem_append_left _ member)) awaits
      (by rw [nothing, List.length_nil]; omega) (by rw [empty]; decide)
  rw [nothing, List.nil_append] at content₁
  obtain ⟨l', events', pass, receives', content', -, state'⟩ :=
    steady_pass box (steady last (by simp)) (by rw [state₁, awaits]) (by rw [content₁]; omega)
      (by rw [content₁]; omega) inside₁
  refine ⟨l', events₁ ++ events', ?_, receives₁.trans receives', ?_, ?_⟩
  · rw [mainRun_append, run₁, Turn.emit_andThen, mainRun_cons_emit pass]
    simp [mainRun, Turn.emit, Turn.pure]
  · rw [state', if_pos (by rw [content₁, total])]
  · rw [content', content₁, ← split, writes]

/-- Steady passes in which no packet of a message arrives. -/
structure Answers (its : List Iteration) : Prop where
  steady : ∀ it ∈ its, it.steady = true
  nothing : written its = []

/-- **A response that `fsm_process` begins is sent section by section.** -/
theorem answer_run (box : Secretbox) {it : Iteration} {its : List Iteration} {l l₁ : Lock}
    {events₁ : List Effect} (answers : Answers (it :: its))
    (begins : fsmProcess box it.lowBattery l = .emit l₁ events₁) (state₁ : l₁.state = .requestW)
    (empty₁ : l₁.msgBuf.len = 0) :
    ∃ l' events, mainRun box (it :: its) l = .emit l' (events₁ ++ events) ∧
      Receives l₁ l' events ∧ l'.state = .requestW ∧ l'.msgBuf.len = 0 := by
  have steady := answers.steady it List.mem_cons_self
  have here : it.written ++ written its = [] := answers.nothing
  obtain ⟨noPacket, noPackets⟩ := List.append_eq_nil_iff.mp here
  have content₁ := MsgBuffer.content_of_empty empty₁
  have awaits₁ : l₁.state.awaits = some (41, .request) := by rw [state₁]; rfl
  obtain ⟨l₂, events₂, received, receives₂, content₂, inside₂, state₂⟩ :=
    steady_received steady awaits₁ (by rw [content₁]; decide) (by rw [content₁, noPacket]; decide)
      (by rw [empty₁]; decide)
  rw [content₁, noPacket, if_neg (by decide)] at state₂
  rw [content₁, noPacket, List.append_nil] at content₂
  obtain ⟨l', events', rest, receives', content', inside', state'⟩ := fill_run box its
    (fun other member => answers.steady other (List.mem_cons_of_mem it member))
    (by rw [state₂, awaits₁]) (by rw [content₂, noPackets]; decide) inside₂
  rw [content₂, noPackets, List.append_nil] at content'
  refine ⟨l', events₂ ++ events', ?_, receives₂.trans receives', ?_, ?_⟩
  · have pass : loopBody box it l = .emit l₂ (events₁ ++ events₂) := by
      rw [loopBody_of_whole box (Iteration.steady_packet steady).1, wholeBody, begins,
        Turn.emit_andThen, received]
      rfl
    rw [mainRun_cons_emit pass, rest, ← List.append_assoc]
    rfl
  · rw [state', state₂, state₁]
  · have length := MsgBuffer.length_content inside'
    rw [content', List.length_nil] at length
    exact UInt8.toNat_inj.mp length.symm

/-- A complete ticket is the whole buffer. -/
theorem data_of_content {buffer : MsgBuffer} {msg : Bytes 72} (content : buffer.content = msg.toList) :
    buffer.data = msg := by
  have sized := congrArg List.length content
  rw [MsgBuffer.content, List.length_take, List.Vector.toList_length, List.Vector.toList_length] at sized
  apply Bytes.ext
  rw [← content, MsgBuffer.content,
    List.take_of_length_le (by rw [List.Vector.toList_length]; omega)]

/-- A complete request is what the processor reads of the buffer. -/
theorem bufferedRequest_of_content {l : Lock} {msg : Bytes 41}
    (content : l.msgBuf.content = msg.toList) : bufferedRequest l = msg := by
  have sized := congrArg List.length content
  rw [MsgBuffer.content, List.length_take, List.Vector.toList_length, List.Vector.toList_length] at sized
  apply Bytes.ext
  have len : l.msgBuf.len.toNat = 41 := by omega
  rw [← content, MsgBuffer.content, len]
  rfl

/-! ### A session to evaluate -/

/-- A pass in which a message arrives. -/
def pass (msg : BgapiMsg) : Iteration := ⟨false, .msg msg, none, none⟩

/-- A pass in which nothing arrives. -/
def quietPass : Iteration := ⟨false, .timeout, none, none⟩

/-- The passes that write a message of at most 80 bytes in packets of 20. -/
def packets (message : List UInt8) : List Iteration :=
  (([0, 20, 40, 60].map fun offset => (message.drop offset).take 20).filter (· ≠ [])).map
    fun packet => pass (.evtAttributesValue cLockReceive packet)

/-- The master key of the lock that is evaluated. -/
def sampleMasterKey : Key := List.Vector.replicate 32 7

/-- The session key of the ticket that is evaluated. -/
def sampleSessionKey : Key := List.Vector.replicate 32 9

/-- The ticket with a nonce that seals a session key under the master key with `keyTag`. -/
def sampleTicket (number : Nat) : Bytes 72 :=
  ticketMessage (nonceOf number) ((List.Vector.replicate 16 7 : Bytes 16) ++ sampleSessionKey)

/-- The request or response with a nonce that seals a byte under the session key with `keyTag`. -/
def sampleMessage (number : Nat) (byte : UInt8) : Bytes 41 :=
  message (nonceOf number) ((List.Vector.replicate 16 9 : Bytes 16) ++ oneByte byte)

example : ticketKey keyTag sampleMasterKey (sampleTicket 1) = some sampleSessionKey := by
  decide +kernel

end Esloq
