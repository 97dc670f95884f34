/-
**An accepted session lasts while no message overwrites the state (`main.c`).**

* `Iteration.linked` — a pass on an established link: neither a disconnect nor a boot of the module
  arrives, and nothing resets the lock.
* `BgapiMsg.keepsSession` — the messages whose handlers leave a session alone;
  `bleHandler_inSession_iff` says that these are exactly the ones.
* `arrived` — the bytes written to `c_lock_receive` since the buffer was last emptied.
* `Alive` — the invariant of a session: the state machine waits for a request or has one of 41 bytes,
  and the buffer holds what has arrived.
* `session_survives` — in a run all of whose messages keep the session every complete request is
  served by the next pass.
* `session_dropped` — a connection status event with a flag of `0101` in the middle of a session drops
  it.
-/

import Esloq.Firmware.Reassembly

namespace Esloq

open Machine

/-! ### Passes on an established link -/

/-- A pass in which the link stays up and the lock is not reset. -/
def Iteration.linked (it : Iteration) : Bool :=
  it.cut.isNone &&
    match it.packet with
    | .error | .msg .evtConnectionDisconnected | .msg .evtSystemBoot => false
    | _ => true

/-- The messages whose handlers do not overwrite the state of a session. -/
def BgapiMsg.keepsSession : BgapiMsg → Bool
  | .rspSystemAddressGet _ | .rspGapSetAdvParameters | .rspGapSetMode => false
  | .evtSystemBoot | .evtConnectionDisconnected => false
  | .evtConnectionStatus flags => flags &&& 5 = 0
  | .rspGapSetAdvData | .rspAttributesWrite _ | .evtHardwareIoPortStatus
  | .evtAttributesValue _ _ | .stub => true

/-- A pass whose message, if there is one, keeps the session. -/
def Iteration.keepsSession (it : Iteration) : Bool :=
  match it.packet with
  | .msg msg => msg.keepsSession
  | _ => true

/-- A handler keeps a session exactly if its message does. -/
theorem bleHandler_inSession_iff (msg : BgapiMsg) {l : Lock} (inside : l.state.inSession = true) :
    (bleHandler msg l).state.state.inSession = true ↔ msg.keepsSession = true := by
  cases msg with
  | rspSystemAddressGet address => exact iff_of_false Bool.false_ne_true Bool.false_ne_true
  | rspGapSetAdvParameters | rspGapSetMode | evtSystemBoot | evtConnectionDisconnected =>
      exact iff_of_false Bool.false_ne_true Bool.false_ne_true
  | evtHardwareIoPortStatus | stub => exact iff_of_true inside rfl
  | rspGapSetAdvData =>
      refine iff_of_true ?_ rfl
      have setup : ∀ state : State, state.inSession = false → l.state ≠ state := by
        rintro state outside same
        rw [same, outside] at inside
        cases inside
      rw [bleHandler, bleRspGapSetAdvData, if_neg (setup _ rfl), if_neg (setup _ rfl)]
      exact inside
  | rspAttributesWrite result =>
      refine iff_of_true ?_ rfl
      simp only [bleHandler, bleRspAttributesWrite]
      split
      · exact inside
      · split
        · exact inside
        · split <;> exact inside
  | evtConnectionStatus flags =>
      rw [bleHandler, bleEvtConnectionStatus]
      by_cases connects : flags &&& 5 = 0
      · rw [if_neg (not_not.mpr connects)]
        exact iff_of_true inside (decide_eq_true connects)
      · rw [if_pos connects]
        exact iff_of_false Bool.false_ne_true (by simpa [BgapiMsg.keepsSession] using connects)
  | evtAttributesValue handle value =>
      refine iff_of_true ?_ rfl
      have after : ∀ len : UInt8, (afterReceive l.state len).inSession = true := by
        intro len
        unfold afterReceive
        split
        · rename_i connected
          rw [connected.1] at inside
          cases inside
        · split
          · rfl
          · exact inside
      rw [bleHandler, bleEvtAttributesValue]
      split
      · split
        · exact after _
        · exact inside
      · exact inside

/-! ### What has arrived -/

/-- One effect more. -/
def arrivedStep (bytes : List UInt8) : Effect → List UInt8
  | .received value => bytes ++ value
  | .resetMsgBuffer => []
  | _ => bytes

/-- The bytes written to `c_lock_receive` since the buffer was last emptied. -/
def arrived (trace : List Effect) : List UInt8 := trace.foldl arrivedStep []

theorem arrived_append (first second : List Effect) :
    arrived (first ++ second) = second.foldl arrivedStep (arrived first) := List.foldl_append

/-- Emptying the buffer forgets what came before. -/
theorem arrived_reset (past before after : List Effect) :
    arrived (past ++ (before ++ .resetMsgBuffer :: after)) = arrived after := by
  rw [arrived_append, List.foldl_append, List.foldl_cons]
  rfl

/-- Plain effects leave what has arrived. -/
theorem foldl_arrivedStep_of_plain {bytes : List UInt8} : ∀ {events : List Effect},
    (∀ effect ∈ events, effect.plain = true) → events.foldl arrivedStep bytes = bytes
  | [], _ => rfl
  | effect :: rest, plain => by
      have here := plain effect List.mem_cons_self
      have later : rest.foldl arrivedStep bytes = bytes := foldl_arrivedStep_of_plain
        fun other member => plain other (List.mem_cons_of_mem effect member)
      cases effect with
      | received | resetMsgBuffer | ticketMsg | requestMsg => cases here
      | _ => exact later

/-- A call that hands a message over empties the buffer. -/
theorem HandOver.arrived {message : Effect} {past events : List Effect}
    (handOver : HandOver message events) : Esloq.arrived (past ++ events) = [] := by
  obtain ⟨before, after, rfl, -, plain⟩ := handOver.shape
  have split : past ++ message :: (before ++ .resetMsgBuffer :: after) =
      past ++ ((message :: before) ++ .resetMsgBuffer :: after) := rfl
  rw [split, arrived_reset]
  exact foldl_arrivedStep_of_plain plain

/-! ### The invariant of a session -/

/-- A session under a key: the state says whether a request is complete, and the buffer holds what has
arrived. -/
structure Alive (key : Key) (past : List Effect) (l : Lock) : Prop where
  state : (l.state = .requestW ∧ l.msgBuf.len ≠ 41) ∨ (l.state = .request ∧ l.msgBuf.len = 41)
  inside : l.msgBuf.len.toNat ≤ 72
  content : l.msgBuf.content = arrived past
  sessionKey : l.sessionKey = key

theorem Alive.inSession {key : Key} {past : List Effect} {l : Lock} (alive : Alive key past l) :
    l.state.inSession = true := by
  rcases alive.state with ⟨waits, -⟩ | ⟨complete, -⟩
  · rw [waits]
    rfl
  · rw [complete]
    rfl

/-- A session whose buffer has just been emptied. -/
theorem alive_of_empty {key : Key} {past : List Effect} {l : Lock} (waits : l.state = .requestW)
    (empty : l.msgBuf.len = 0) (nothing : arrived past = []) (sessionKey : l.sessionKey = key) :
    Alive key past l where
  state := Or.inl ⟨waits, by rw [empty]; decide⟩
  inside := by rw [empty]; decide
  content := (MsgBuffer.content_of_empty empty).trans nothing.symm
  sessionKey := sessionKey

section Sound

variable (key : Key)

/-- `fsm_process` serves a complete request, and the session goes on. -/
theorem fsmProcess_alive (box : Secretbox) (lowBattery : Bool) {past : List Effect} {l : Lock}
    (alive : Alive key past l) (ok : (fsmProcess box lowBattery l).fault = none) :
    Alive key (past ++ (fsmProcess box lowBattery l).events) (fsmProcess box lowBattery l).state := by
  rcases alive.state with ⟨waits, -⟩ | ⟨complete, -⟩
  · rw [fsmProcess, waits, Turn.pure, List.append_nil]
    exact alive
  · rcases fsmProcess_request box lowBattery complete with
      ⟨-, l', events, fsm, handOver, waits, empty, sessionKey⟩ | ⟨-, l', events, fsm, -⟩
    · rw [fsm]
      exact alive_of_empty waits empty handOver.arrived (sessionKey.trans alive.sessionKey)
    · rw [fsm] at ok
      cases ok

/-- After it the state machine waits. -/
theorem waits_of_ok (box : Secretbox) (lowBattery : Bool) {past : List Effect} {l : Lock}
    (alive : Alive key past l) (ok : (fsmProcess box lowBattery l).fault = none) :
    (fsmProcess box lowBattery l).state.state = .requestW := by
  rcases alive.state with ⟨waits, -⟩ | ⟨complete, -⟩
  · rw [fsmProcess, waits]
    exact waits
  · rcases fsmProcess_request box lowBattery complete with
      ⟨-, l', events, fsm, -, waits, -⟩ | ⟨-, l', events, fsm, -⟩
    · rw [fsm]
      exact waits
    · rw [fsm] at ok
      cases ok

/-- A write is appended to what has arrived, and completes a request of 41 bytes. -/
theorem alive_write {past : List Effect} {l : Lock} (alive : Alive key past l)
    (waits : l.state = .requestW) {value : List UInt8}
    (fits : l.msgBuf.len.toNat + value.length ≤ 72) :
    Alive key (past ++ (bleEvtAttributesValue cLockReceive value l).events)
      (bleEvtAttributesValue cLockReceive value l).state := by
  have sum : (l.msgBuf.len + UInt8.ofNat value.length).toNat =
      l.msgBuf.len.toNat + value.length := by
    rw [UInt8.toNat_add, UInt8.toNat_ofNat']
    omega
  rw [bleEvtAttributesValue_of_fits fits]
  refine ⟨?_, ?_, ?_, alive.sessionKey⟩
  · show (afterReceive l.state (l.msgBuf.len + UInt8.ofNat value.length) = _ ∧ _) ∨
      (afterReceive l.state (l.msgBuf.len + UInt8.ofNat value.length) = _ ∧ _)
    rw [waits, afterReceive, if_neg (by simp)]
    by_cases complete : l.msgBuf.len + UInt8.ofNat value.length = 41
    · exact Or.inr ⟨if_pos ⟨rfl, complete⟩, complete⟩
    · exact Or.inl ⟨if_neg (fun both => complete both.2), complete⟩
  · show (l.msgBuf.len + UInt8.ofNat value.length).toNat ≤ 72
    omega
  · show List.take (l.msgBuf.len + UInt8.ofNat value.length).toNat
      (l.msgBuf.data.splice l.msgBuf.len.toNat value fits).toList = _
    rw [sum, arrived_append, ← alive.content]
    exact Bytes.take_splice _ _ _ fits

/-- So does a message that keeps the session. -/
theorem bleHandler_alive {msg : BgapiMsg} (keeps : msg.keepsSession = true) {past : List Effect}
    {l : Lock} (alive : Alive key past l) (waits : l.state = .requestW)
    (ok : (bleHandler msg l).fault = none) :
    Alive key (past ++ (bleHandler msg l).events) (bleHandler msg l).state := by
  have inSession := (bleHandler_inSession_iff msg alive.inSession).mpr keeps
  rcases bleHandler_cases msg l with ⟨value, rfl⟩ | ⟨l', events, handled, kept, commands⟩
  · by_cases fits : l.msgBuf.len.toNat + value.length ≤ 72
    · exact alive_write key alive waits fits
    · rw [bleHandler, bleEvtAttributesValue_of_overrun fits] at ok
      cases ok
  · rw [handled] at inSession ⊢
    have same : l'.state = l.state := by
      refine kept.state.resolve_right fun resting => ?_
      have outside := State.inSession_of_resting resting
      rw [show l'.state.inSession = true from inSession] at outside
      cases outside
    have plain : ∀ effect ∈ events, effect.plain = true := by
      intro effect member
      obtain ⟨command, rfl⟩ := commands effect member
      rfl
    refine ⟨?_, ?_, ?_, kept.sessionKey.trans alive.sessionKey⟩
    · show (l'.state = _ ∧ l'.msgBuf.len ≠ _) ∨ (l'.state = _ ∧ l'.msgBuf.len = _)
      rw [same, kept.msgBuf]
      exact alive.state
    · show l'.msgBuf.len.toNat ≤ 72
      rw [kept.msgBuf]
      exact alive.inside
    · show l'.msgBuf.content = arrived (past ++ events)
      rw [kept.msgBuf, alive.content, arrived_append, foldl_arrivedStep_of_plain plain]

/-- And a button. -/
theorem processButton_alive {past : List Effect} {l : Lock} (alive : Alive key past l)
    (press : Option Rotation) :
    Alive key (past ++ (processButton press l).events) (processButton press l).state := by
  unfold processButton
  split
  · refine ⟨alive.state, alive.inside, ?_, alive.sessionKey⟩
    rw [Turn.emit, arrived_append]
    exact alive.content
  · rw [Turn.pure, List.append_nil]
    exact alive

/-- A packet of an established link whose message keeps the session. -/
theorem processPacket_alive {it : Iteration} (linked : it.linked = true)
    (keeps : it.keepsSession = true) {past : List Effect} {l : Lock} (alive : Alive key past l)
    (waits : l.state = .requestW) (ok : (processPacket it.packet it.press l).fault = none) :
    Alive key (past ++ (processPacket it.packet it.press l).events)
      (processPacket it.packet it.press l).state := by
  obtain ⟨lowBattery, packet, press, cut⟩ := it
  cases packet with
  | timeout => exact processButton_alive key alive press
  | error => simp [Iteration.linked] at linked
  | msg msg =>
      simp only [processPacket] at ok ⊢
      obtain ⟨okHandler, -⟩ := Turn.ok_of_andThen ok
      have handled := bleHandler_alive key keeps alive waits okHandler
      rw [Turn.andThen_of_ok okHandler, ← List.append_assoc]
      exact processButton_alive key handled press

theorem whole_of_linked {it : Iteration} (linked : it.linked = true) : it.cut = none := by
  rw [Iteration.linked, Bool.and_eq_true, Option.isNone_iff_eq_none] at linked
  exact linked.1

/-- **A pass on an established link whose message keeps the session keeps the session.** -/
theorem loopBody_alive (box : Secretbox) {it : Iteration} (linked : it.linked = true)
    (keeps : it.keepsSession = true) {past : List Effect} {l : Lock} (alive : Alive key past l)
    (ok : (loopBody box it l).fault = none) :
    Alive key (past ++ (loopBody box it l).events) (loopBody box it l).state := by
  rw [loopBody_of_whole box (whole_of_linked linked), wholeBody] at ok ⊢
  obtain ⟨okFsm, okPacket⟩ := Turn.ok_of_andThen ok
  rw [Turn.andThen_of_ok okFsm, ← List.append_assoc]
  exact processPacket_alive key linked keeps (fsmProcess_alive key box it.lowBattery alive okFsm)
    (waits_of_ok key box it.lowBattery alive okFsm) okPacket

theorem mainRun_alive (box : Secretbox) : ∀ (its : List Iteration) {past : List Effect} {l : Lock},
    (∀ it ∈ its, it.linked = true ∧ it.keepsSession = true) → Alive key past l →
    (mainRun box its l).fault = none →
    Alive key (past ++ (mainRun box its l).events) (mainRun box its l).state
  | [], past, l, _, alive, _ => by
      rw [mainRun, run_nil, Turn.pure, List.append_nil]
      exact alive
  | it :: its, past, l, steady, alive, ok => by
      rw [mainRun, run_cons] at ok ⊢
      obtain ⟨okHere, okRest⟩ := Turn.ok_of_andThen ok
      obtain ⟨linked, keeps⟩ := steady it List.mem_cons_self
      have alive₁ := loopBody_alive key box linked keeps alive okHere
      rw [Turn.andThen_of_ok okHere, ← List.append_assoc]
      exact mainRun_alive box its (fun other member => steady other (List.mem_cons_of_mem it member))
        alive₁ okRest

end Sound

/-! ### From the ticket on -/

/-- An accepted ticket begins a session under the key it carries. -/
theorem alive_of_accepted (box : Secretbox) (lowBattery : Bool) {l : Lock}
    (complete : l.state = .ticket) (accepted : (processTicketMsg box lowBattery l).1 = 0) :
    ∃ key, ticketKey box l.masterKeyEeprom l.msgBuf.data = some key ∧
      (fsmProcess box lowBattery l).fault = none ∧
      (fsmProcess box lowBattery l).state.state = .requestW ∧
      Alive key (fsmProcess box lowBattery l).events (fsmProcess box lowBattery l).state := by
  rw [fsmProcess_of_ticket box lowBattery complete]
  rcases processTicketMsg_cases box lowBattery l with
    ⟨-, same⟩ | ⟨-, ⟨-, same⟩ | ⟨key, opens, same⟩⟩
  · rw [same] at accepted
    have one : (1 : UInt8) = 0 := accepted
    exact absurd one (by decide)
  · rw [same] at accepted
    have two : (2 : UInt8) = 0 := accepted
    exact absurd two (by decide)
  · refine ⟨key, opens, ?_⟩
    rw [same] at accepted ⊢
    obtain ⟨next, -, responds | ⟨c, -, responds⟩⟩ := respond_ticket_cases box lowBattery l key
    · rw [responds] at accepted
      have three : (3 : UInt8) = 0 := accepted
      exact absurd three (by decide)
    · rw [responds]
      exact ⟨rfl, rfl, alive_of_empty rfl rfl rfl rfl⟩

/-- What the firmware does with a request that authenticates, before it answers. -/
def served (key : Key) (msg : Bytes 41) (request : UInt8) : List Effect :=
  [.requestMsg msg, .requestDecrypted key msg request] ++
    ((requestedRotation request).map (Effect.rotate .remote)).toList

/-- After a run a complete request under the key with a new nonce is served by the next pass. -/
def ServesRequests (box : Secretbox) (key : Key) (reached : LockTurn) : Prop :=
  ∀ (msg : Bytes 41) (request : UInt8), arrived reached.events = msg.toList →
    messageByte box key msg = some request →
    isValidSessionNonce (messageNonce msg) reached.state.sessionNonce = true →
    ∀ next : Iteration, next.cut = none →
      served key msg request <+: (loopBody box next reached.state).events

/-- A request that authenticates is served, whatever comes of the answer. -/
theorem processRequestMsg_serves (box : Secretbox) {l : Lock} {request : UInt8}
    (valid : isValidSessionNonce (messageNonce (bufferedRequest l)) l.sessionNonce = true)
    (opens : messageByte box l.sessionKey (bufferedRequest l) = some request) :
    served l.sessionKey (bufferedRequest l) request <+: (processRequestMsg box l).2.events := by
  rw [processRequestMsg_of_opens box l valid opens]
  exact effects_respond box _ .requestW _ _

/-- A living session serves. -/
theorem Alive.serves {key : Key} {reached : LockTurn} (box : Secretbox)
    (alive : Alive key reached.events reached.state) : ServesRequests box key reached := by
  intro msg request complete opens valid next whole
  have content := alive.content.trans complete
  have sized := MsgBuffer.length_content alive.inside
  rw [content, List.Vector.toList_length] at sized
  have full : reached.state.msgBuf.len = 41 := UInt8.toNat_inj.mp sized.symm
  have request' : reached.state.state = .request :=
    (alive.state.resolve_left fun both => both.2 full).1
  have buffered := bufferedRequest_of_content content
  rw [← alive.sessionKey, ← buffered] at opens ⊢
  rw [← buffered] at valid
  refine (processRequestMsg_serves box valid opens).trans ?_
  rw [loopBody_of_whole box whole, wholeBody, fsmProcess_of_request box next.lowBattery request']
  exact (Turn.prefix_andThen _ _).trans (Turn.prefix_andThen _ _)

/-- **An accepted session survives every run on the link whose messages keep it.** -/
theorem session_survives (box : Secretbox) (l : Lock) (complete : l.state = .ticket) (it : Iteration)
    (its : List Iteration) (accepted : (processTicketMsg box it.lowBattery l).1 = 0)
    (linked : ∀ pass ∈ it :: its, pass.linked = true)
    (keeps : ∀ pass ∈ it :: its, pass.keepsSession = true)
    (ok : (mainRun box (it :: its) l).fault = none) :
    ∃ key, ticketKey box l.masterKeyEeprom l.msgBuf.data = some key ∧
      ServesRequests box key (mainRun box (it :: its) l) := by
  obtain ⟨key, opens, okFsm, waits, alive⟩ := alive_of_accepted box it.lowBattery complete accepted
  refine ⟨key, opens, Alive.serves box ?_⟩
  have linkedHere := linked it List.mem_cons_self
  rw [mainRun, run_cons] at ok ⊢
  obtain ⟨okHere, okRest⟩ := Turn.ok_of_andThen ok
  have first : Alive key (loopBody box it l).events (loopBody box it l).state := by
    rw [loopBody_of_whole box (whole_of_linked linkedHere), wholeBody] at okHere ⊢
    rw [Turn.andThen_of_ok okFsm]
    exact processPacket_alive key linkedHere (keeps it List.mem_cons_self) alive waits
      (Turn.ok_of_andThen okHere).2
  rw [Turn.andThen_of_ok okHere]
  exact mainRun_alive key box its
    (fun pass member => ⟨linked pass (List.mem_cons_of_mem it member),
      keeps pass (List.mem_cons_of_mem it member)⟩) first okRest

/-! ### A parameter update -/

/-- A lock of which the sample ticket is complete. -/
def ticketLock : Lock :=
  { bootLock zeroNonce sampleMasterKey with state := .ticket, msgBuf := ⟨72, sampleTicket 1⟩ }

/-- A request after events that keep the session. -/
def calmTraffic : List Iteration :=
  [pass (.evtConnectionStatus 2), pass .evtHardwareIoPortStatus, pass (.rspAttributesWrite 0)] ++
    packets (sampleMessage 2 1).toList

theorem session_survives_calm :
    (∀ pass ∈ quietPass :: calmTraffic, pass.linked = true ∧ pass.keepsSession = true) ∧
      ∃ key, ticketKey keyTag sampleMasterKey (sampleTicket 1) = some key ∧
        ServesRequests keyTag key (mainRun keyTag (quietPass :: calmTraffic) ticketLock) := by
  have steady : ∀ pass ∈ quietPass :: calmTraffic,
      pass.linked = true ∧ pass.keepsSession = true := by decide +kernel
  exact ⟨steady, session_survives keyTag ticketLock rfl quietPass calmTraffic (by decide +kernel)
    (fun pass member => (steady pass member).1) (fun pass member => (steady pass member).2)
    (by decide +kernel)⟩

/-- The same request after the event of a parameter update: connected, parameters changed. -/
def updateTraffic : List Iteration :=
  pass (.evtConnectionStatus 9) :: packets (sampleMessage 2 1).toList

/-- **The session is gone.** The request is complete and authenticates with a new nonce, and the next
pass does not serve it. -/
theorem session_dropped :
    ¬ ∀ its : List Iteration, (∀ pass ∈ quietPass :: its, pass.linked = true) →
      (mainRun keyTag (quietPass :: its) ticketLock).fault = none →
      ∃ key, ticketKey keyTag sampleMasterKey (sampleTicket 1) = some key ∧
        ServesRequests keyTag key (mainRun keyTag (quietPass :: its) ticketLock) := by
  intro survives
  obtain ⟨key, opens, serves⟩ := survives updateTraffic (by decide +kernel) (by decide +kernel)
  have same : ticketKey keyTag sampleMasterKey (sampleTicket 1) = some sampleSessionKey := by
    decide +kernel
  rw [same] at opens
  cases opens
  have now := serves (sampleMessage 2 1) 1 (by decide +kernel) (by decide +kernel)
    (by decide +kernel) quietPass rfl
  revert now
  decide +kernel

end Esloq
