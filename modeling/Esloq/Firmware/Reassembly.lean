/-
**Every message is handed over once, with its own bytes (`main.c`).**

A peer writes 72-byte tickets until one is accepted, then 41-byte requests, each split into packets in
any way, and never a packet that spans two messages. The firmware hands each message to its processor
in the pass after its last packet, before it looks at the next one.

* `handed` — the messages that have been handed to the two processors.
* `fsmProcess_request`, `fsmProcess_ticket` — a call of `fsm_process` in `REQUEST` or `TICKET` hands
  the buffer over, empties it and waits for the next message, whichever of its return paths it takes;
  or it runs past the end of the session nonce (`Overflows`).
* `exchange_run` — from one message to the next: the invariant is that the last message stands in the
  buffer, and the ones before it have been handed over.
* `reassembled_iff` — all messages are handed over exactly if none but the last overflows.
-/

import Esloq.Firmware.Delivery

namespace Esloq

open Machine

/-! ### What is handed over -/

/-- The message an effect hands to a processor. -/
def Effect.handed : Effect → Option (List UInt8)
  | .ticketMsg msg => some msg.toList
  | .requestMsg msg => some msg.toList
  | _ => none

/-- The messages handed to `process_ticket_msg` and `process_request_msg`, in order. -/
def handed (effects : List Effect) : List (List UInt8) := effects.filterMap Effect.handed

theorem handed_append (first second : List Effect) :
    handed (first ++ second) = handed first ++ handed second := List.filterMap_append

/-- Effects that neither hand a message over nor fill or empty the buffer. -/
def Effect.plain : Effect → Bool
  | .received _ | .resetMsgBuffer | .ticketMsg _ | .requestMsg _ => false
  | _ => true

theorem handed_of_plain : ∀ {effects : List Effect}, (∀ effect ∈ effects, effect.plain = true) →
    handed effects = []
  | [], _ => rfl
  | effect :: rest, plain => by
      have here := plain effect List.mem_cons_self
      have later := handed_of_plain fun other member => plain other (List.mem_cons_of_mem effect member)
      cases effect with
      | received | resetMsgBuffer | ticketMsg | requestMsg => cases here
      | _ => exact later

/-- Whether a response has been encrypted, which is so once a ticket has been accepted. -/
def answered (effects : List Effect) : Bool :=
  effects.any fun
    | .encrypted .. => true
    | _ => false

theorem answered_append (first second : List Effect) :
    answered (first ++ second) = (answered first || answered second) := List.any_append

/-! ### One call of `fsm_process` -/

/-- A request that authenticates and after whose nonce there is no other one: `increment_array` runs
past the end of the session nonce. -/
def Overflows (box : Secretbox) (l : Lock) : Prop :=
  l.state = .request ∧ messageNonce (bufferedRequest l) = lastNonce ∧
    isValidSessionNonce (messageNonce (bufferedRequest l)) l.sessionNonce = true ∧
    (messageByte box l.sessionKey (bufferedRequest l)).isSome = true

/-- The effects of a call that hands a message over: plain ones around the emptying of the buffer. -/
structure HandOver (message : Effect) (events : List Effect) : Prop where
  shape : ∃ before after, events = message :: (before ++ .resetMsgBuffer :: after) ∧
    (∀ effect ∈ before, effect.plain = true) ∧ ∀ effect ∈ after, effect.plain = true

theorem plain_rotation (request : UInt8) :
    ∀ effect ∈ ((requestedRotation request).map (Effect.rotate .remote)).toList,
      effect.plain = true := by
  intro effect member
  obtain ⟨direction, -, rfl⟩ := mem_requestedRotation member
  rfl

/-- A request is handed over and the lock waits for the next one, or it overflows. -/
theorem fsmProcess_request (box : Secretbox) (lowBattery : Bool) {l : Lock}
    (complete : l.state = .request) :
    (¬ Overflows box l ∧ ∃ l' events, fsmProcess box lowBattery l = .emit l' events ∧
      HandOver (.requestMsg (bufferedRequest l)) events ∧ l'.state = .requestW ∧
      l'.msgBuf.len = 0 ∧ l'.sessionKey = l.sessionKey) ∨
    (Overflows box l ∧ ∃ l' events,
      fsmProcess box lowBattery l =
        ⟨l', .requestMsg (bufferedRequest l) :: events, some .sessionNonce⟩ ∧
      ∀ effect ∈ events, effect.plain = true) := by
  rw [fsmProcess_of_request box lowBattery complete]
  rcases processRequestMsg_cases box l with
    ⟨invalid, same⟩ | ⟨valid, ⟨closed, same⟩ | ⟨request, opens, same⟩⟩
  · left
    refine ⟨fun overflows => ?_, ?_⟩
    · rw [overflows.2.2.1] at invalid
      cases invalid
    · rw [same]
      exact ⟨_, _, rfl, ⟨[.returned 1], [], rfl, by simp [Effect.plain], by simp⟩, rfl, rfl, rfl⟩
  · left
    refine ⟨fun overflows => ?_, ?_⟩
    · have opened := overflows.2.2.2
      rw [closed] at opened
      cases opened
    · rw [same]
      exact ⟨_, _, rfl, ⟨[.returned 2], [], rfl, by simp [Effect.plain], by simp⟩, rfl, rfl, rfl⟩
  · rw [same]
    have rotated' : ∀ effect ∈ Effect.requestDecrypted l.sessionKey (bufferedRequest l) request ::
        ((requestedRotation request).map (Effect.rotate .remote)).toList, effect.plain = true :=
      List.forall_mem_cons.mpr ⟨rfl, plain_rotation request⟩
    have inside : ∀ {next}, incrementArray (messageNonce (bufferedRequest l)) = some next →
        ¬ Overflows box l := by
      intro next raised overflows
      rw [incrementArray_eq_none.mpr overflows.2.1] at raised
      cases raised
    rcases respond_cases box
      { l with state := .requestW, sessionNonce := messageNonce (bufferedRequest l) } .requestW
      (rspCode request)
      ([.requestMsg (bufferedRequest l),
          .requestDecrypted l.sessionKey (bufferedRequest l) request] ++
        ((requestedRotation request).map (Effect.rotate .remote)).toList) with
      ⟨last, responds⟩ | ⟨next, raised, responds | ⟨c, -, responds⟩⟩
    · right
      refine ⟨⟨complete, last, valid, by rw [opens]; rfl⟩, ?_⟩
      rw [responds]
      refine ⟨_, _, rfl, ?_⟩
      exact rotated'
    · left
      refine ⟨inside raised, ?_⟩
      rw [responds]
      refine ⟨_, _, rfl, ⟨(.requestDecrypted l.sessionKey (bufferedRequest l) request ::
        ((requestedRotation request).map (Effect.rotate .remote)).toList) ++ [.returned 3], [],
        rfl, ?_, by simp⟩, rfl, rfl, rfl⟩
      exact List.forall_mem_append.mpr ⟨rotated', by simp [Effect.plain]⟩
    · left
      refine ⟨inside raised, ?_⟩
      rw [responds]
      refine ⟨_, _, Turn.andThen_pure _, ⟨(.requestDecrypted l.sessionKey (bufferedRequest l) request ::
        ((requestedRotation request).map (Effect.rotate .remote)).toList) ++
          [.encrypted l.sessionKey (messageNonce (bufferedRequest l)) next (rspCode request) c],
        [sendResponse (message next c), .returned 0], ?_, ?_, ?_⟩, rfl, rfl, rfl⟩
      · simp
      · exact List.forall_mem_append.mpr ⟨rotated', by simp [Effect.plain]⟩
      · simp [Effect.plain, sendResponse]

/-- A ticket is handed over and the lock waits for a request if it has answered, else for another
ticket. -/
theorem fsmProcess_ticket (box : Secretbox) (lowBattery : Bool) {l : Lock}
    (complete : l.state = .ticket) :
    ∃ l' events, fsmProcess box lowBattery l = .emit l' events ∧
      HandOver (.ticketMsg l.msgBuf.data) events ∧ l'.msgBuf.len = 0 ∧
      l'.state = if answered events then .requestW else .connected := by
  rw [fsmProcess_of_ticket box lowBattery complete]
  rcases processTicketMsg_cases box lowBattery l with
    ⟨-, same⟩ | ⟨-, ⟨-, same⟩ | ⟨key, -, same⟩⟩
  · rw [same]
    exact ⟨_, _, rfl, ⟨[.returned 1], [], rfl, by simp [Effect.plain], by simp⟩, rfl, rfl⟩
  · rw [same]
    exact ⟨_, _, rfl, ⟨[.eepromUpdate (ticketNonce l.msgBuf.data), .returned 2], [], rfl,
      by simp [Effect.plain], by simp⟩, rfl, rfl⟩
  · rw [same]
    obtain ⟨next, -, responds | ⟨c, -, responds⟩⟩ := respond_ticket_cases box lowBattery l key
    · rw [responds]
      exact ⟨_, _, rfl, ⟨[.eepromUpdate (ticketNonce l.msgBuf.data),
        .ticketAccepted l.msgBuf.data key, .returned 3], [], rfl, by simp [Effect.plain], by simp⟩,
        rfl, rfl⟩
    · rw [responds]
      exact ⟨_, _, Turn.andThen_pure _, ⟨[.eepromUpdate (ticketNonce l.msgBuf.data),
        .ticketAccepted l.msgBuf.data key, .encrypted key zeroNonce next (ticketRsp lowBattery) c],
        [sendResponse (message next c), .returned 0], rfl, by simp [Effect.plain],
        by simp [Effect.plain, sendResponse]⟩, rfl, rfl⟩

theorem HandOver.handed {message : Effect} {bytes : List UInt8} {events : List Effect}
    (handOver : HandOver message events) (carries : message.handed = some bytes) :
    handed events = [bytes] := by
  obtain ⟨before, after, rfl, plainBefore, plainAfter⟩ := handOver.shape
  have rest : Esloq.handed (before ++ .resetMsgBuffer :: after) = [] := by
    have later : Esloq.handed (.resetMsgBuffer :: after) = Esloq.handed after := rfl
    rw [handed_append, handed_of_plain plainBefore, later, handed_of_plain plainAfter]
    rfl
  rw [Esloq.handed, List.filterMap_cons, carries]
  exact congrArg (bytes :: ·) rest

/-! ### Between two messages -/

/-- The length of the next message: a ticket until one has been answered, then a request. -/
def expectedLength (past : List Effect) : Nat := if answered past then 41 else 72

/-- The last message has been processed, and nothing of the next one has arrived. -/
structure Ready (past : List Effect) (l : Lock) : Prop where
  empty : l.msgBuf.len = 0
  state : l.state = if answered past then .requestW else .connected

/-- A message is complete and has not been processed. -/
structure Pending (past : List Effect) (message : List UInt8) (l : Lock) : Prop where
  content : l.msgBuf.content = message
  sized : message.length = expectedLength past
  state : l.state = if answered past then .request else .ticket

theorem Ready.awaits {past : List Effect} {l : Lock} (ready : Ready past l) :
    l.state.awaits =
      some (expectedLength past, if answered past then .request else .ticket) := by
  rw [ready.state, expectedLength]
  cases answered past <;> rfl

/-- A message of the expected length is what its processor is called with. -/
theorem bytes_of_length {size : Nat} {message : List UInt8} (sized : message.length = size) :
    ∃ msg : Bytes size, msg.toList = message := ⟨⟨message, sized⟩, rfl⟩

/-- The pass after the last packet hands the message over. -/
theorem fsmProcess_hands (box : Secretbox) (lowBattery : Bool) {past : List Effect}
    {message : List UInt8} {l : Lock} (pending : Pending past message l) :
    (¬ Overflows box l ∧ ∃ l' events, fsmProcess box lowBattery l = .emit l' events ∧
      handed events = [message] ∧ Ready (past ++ events) l') ∨
    (Overflows box l ∧ ∃ l' events,
      fsmProcess box lowBattery l = ⟨l', events, some .sessionNonce⟩ ∧
      handed events = [message]) := by
  obtain ⟨content, sized, state⟩ := pending
  unfold expectedLength at sized
  cases opened : answered past with
  | false =>
      rw [opened, if_neg Bool.false_ne_true] at sized state
      obtain ⟨msg, rfl⟩ := bytes_of_length sized
      obtain ⟨l', events, fsm, handOver, empty, next⟩ := fsmProcess_ticket box lowBattery state
      rw [data_of_content content] at handOver
      refine Or.inl ⟨fun overflows => ?_, l', events, fsm, handOver.handed rfl, empty, ?_⟩
      · have complete := overflows.1
        rw [state] at complete
        cases complete
      · rw [answered_append, opened, Bool.false_or, next]
  | true =>
      rw [opened, if_pos rfl] at sized state
      obtain ⟨msg, rfl⟩ := bytes_of_length sized
      rcases fsmProcess_request box lowBattery state with
        ⟨inside, l', events, fsm, handOver, waits, empty, -⟩ | ⟨overflows, l', events, fsm, plain⟩
      · rw [bufferedRequest_of_content content] at handOver
        refine Or.inl ⟨inside, l', events, fsm, handOver.handed rfl, empty, ?_⟩
        rw [answered_append, opened, Bool.true_or, if_pos rfl, waits]
      · rw [bufferedRequest_of_content content] at fsm
        refine Or.inr ⟨overflows, l', _, fsm, ?_⟩
        rw [handed, List.filterMap_cons]
        exact congrArg (msg.toList :: ·) (handed_of_plain plain)

/-! ### Passes that hand nothing over -/

/-- Effects of the module's messages and of the buttons. -/
def Effect.idle : Effect → Bool
  | .cmd _ | .received _ | .rotate .. | .softReset => true
  | _ => false

theorem handed_of_idle : ∀ {effects : List Effect}, (∀ effect ∈ effects, effect.idle = true) →
    handed effects = []
  | [], _ => rfl
  | effect :: rest, idle => by
      have here := idle effect List.mem_cons_self
      have later := handed_of_idle fun other member => idle other (List.mem_cons_of_mem effect member)
      cases effect with
      | cmd | received | rotate | softReset => exact later
      | _ => cases here

theorem answered_of_idle : ∀ {effects : List Effect}, (∀ effect ∈ effects, effect.idle = true) →
    answered effects = false
  | [], _ => rfl
  | effect :: rest, idle => by
      have here := idle effect List.mem_cons_self
      have later := answered_of_idle fun other member => idle other (List.mem_cons_of_mem effect member)
      cases effect with
      | cmd | received | rotate | softReset => exact later
      | _ => cases here

/-- Neither a message of the module nor a button hands anything over. -/
theorem processPacket_idle (packet : Received) (press : Option Rotation) (l : Lock) :
    ∀ effect ∈ (processPacket packet press l).events, effect.idle = true := by
  have button : ∀ l : Lock, ∀ effect ∈ (processButton press l).events, effect.idle = true := by
    intro l effect member
    unfold processButton at member
    split at member
    · rw [List.mem_singleton.mp member]
      rfl
    · cases member
  cases packet with
  | timeout => exact button l
  | error =>
      intro effect member
      rw [List.mem_singleton.mp member]
      rfl
  | msg msg =>
      intro effect member
      rw [processPacket, Turn.events_andThen] at member
      rcases List.mem_append.mp member with handled | pressed
      · rcases bleHandler_event handled with ⟨command, rfl⟩ | ⟨value, rfl⟩ <;> rfl
      · split at pressed
        · exact button _ effect pressed
        · cases pressed

/-- Nor does a pass in which no message is complete. -/
theorem loopBody_idle (box : Secretbox) {it : Iteration} (whole : it.cut = none) {l : Lock}
    {awaited : Nat × State} (awaits : l.state.awaits = some awaited) :
    ∀ effect ∈ (loopBody box it l).events, effect.idle = true := by
  rw [loopBody_of_whole box whole, wholeBody, fsmProcess_awaits box it.lowBattery awaits,
    Turn.pure_andThen]
  exact processPacket_idle it.packet it.press l

/-- Nor do passes that write less than the awaited message. -/
theorem fill_idle (box : Secretbox) {total : Nat} {complete : State} :
    ∀ (its : List Iteration) {l : Lock}, (∀ it ∈ its, it.steady = true) →
      l.state.awaits = some (total, complete) →
      l.msgBuf.content.length + (written its).length < total → l.msgBuf.len.toNat ≤ 72 →
      ∀ effect ∈ (mainRun box its l).events, effect.idle = true
  | [], l, _, _, _, _ => by simp [mainRun, Turn.pure]
  | it :: its, l, steady, awaits, less, inside => by
      have here : written (it :: its) = it.written ++ written its := rfl
      have steadyHere := steady it List.mem_cons_self
      rw [here, List.length_append] at less
      obtain ⟨l₁, events₁, pass, -, content₁, inside₁, state₁⟩ :=
        steady_pass box steadyHere awaits (by omega) (by omega) inside
      rw [if_neg (by omega)] at state₁
      have first := loopBody_idle box (Iteration.steady_packet steadyHere).1 awaits
      have rest := fill_idle box its (fun other member => steady other (List.mem_cons_of_mem it member))
        (by rw [state₁, awaits]) (by rw [content₁, List.length_append]; omega) inside₁
      rw [pass] at first
      rw [mainRun_cons_emit pass]
      exact List.forall_mem_append.mpr ⟨first, rest⟩

/-- Nor do the passes that deliver a message, up to its last packet. -/
theorem deliver_idle (box : Secretbox) {message : List UInt8} {its : List Iteration} {l : Lock}
    {complete : State} (delivers : Delivers message its)
    (awaits : l.state.awaits = some (message.length, complete)) (empty : l.msgBuf.len = 0) :
    ∀ effect ∈ (mainRun box its l).events, effect.idle = true := by
  obtain ⟨steady, writes, before, last, rfl, ends⟩ := delivers
  have split : written (before ++ [last]) = written before ++ last.written := by
    simp [written]
  have nothing := MsgBuffer.content_of_empty empty
  have positive : 0 < last.written.length := List.length_pos_iff.mpr ends
  have total : (written before).length + last.written.length = message.length := by
    rw [← writes, split, List.length_append]
  have steadyBefore := fun it member => steady it (List.mem_append_left [last] member)
  have less : l.msgBuf.content.length + (written before).length < message.length := by
    rw [nothing, List.length_nil]
    omega
  have inside : l.msgBuf.len.toNat ≤ 72 := by rw [empty]; decide
  obtain ⟨l₁, events₁, run₁, -, -, -, state₁⟩ :=
    fill_run box before steadyBefore awaits less inside
  have front := fill_idle box before steadyBefore awaits less inside
  have final := loopBody_idle (l := l₁) box (Iteration.steady_packet (steady last (by simp))).1
    (by rw [state₁, awaits])
  have single : mainRun box [last] l₁ = loopBody box last l₁ := run_single _ last l₁
  rw [run₁] at front
  rw [mainRun_append, run₁, Turn.emit_andThen, single]
  exact List.forall_mem_append.mpr ⟨front, final⟩

/-! ### The messages of a connection -/

/-- The messages of which the last one may not have been processed: all others have been handed
over. -/
inductive Ahead (messages : List (List UInt8)) (past : List Effect) (l : Lock) : Prop
  | ready (all : handed past = messages) (ready : Ready past l)
  | pending (before : List (List UInt8)) (message : List UInt8)
      (split : messages = before ++ [message]) (others : handed past = before)
      (pending : Pending past message l)

/-- A call of `fsm_process` catches up, or overflows with the last message. -/
theorem Ahead.fsmProcess {messages : List (List UInt8)} {past : List Effect} {l : Lock}
    (ahead : Ahead messages past l) (box : Secretbox) (lowBattery : Bool) :
    (¬ Overflows box l ∧ ∃ l' events, Esloq.fsmProcess box lowBattery l = .emit l' events ∧
      handed (past ++ events) = messages ∧ Ready (past ++ events) l') ∨
    (Overflows box l ∧ ∃ l' events,
      Esloq.fsmProcess box lowBattery l = ⟨l', events, some .sessionNonce⟩ ∧
      handed (past ++ events) = messages) := by
  cases ahead with
  | ready all ready =>
      refine Or.inl ⟨fun overflows => ?_, l, [], fsmProcess_awaits box lowBattery ready.awaits, ?_, ?_⟩
      · have complete := overflows.1
        rw [ready.state] at complete
        cases opened : answered past <;> simp [opened] at complete
      · rw [List.append_nil, all]
      · rw [List.append_nil]
        exact ready
  | pending before message split others pending =>
      rcases fsmProcess_hands box lowBattery pending with
        ⟨inside, l', events, fsm, one, ready⟩ | ⟨overflows, l', events, fsm, one⟩
      · exact Or.inl ⟨inside, l', events, fsm, by rw [handed_append, others, one, split], ready⟩
      · exact Or.inr ⟨overflows, l', events, fsm, by rw [handed_append, others, one, split]⟩

/-- Passes that begin with such a call go on where it ends. -/
theorem mainRun_begun (box : Secretbox) {it : Iteration} {its : List Iteration} {l l₁ : Lock}
    {events₁ : List Effect} {awaited : Nat × State} (whole : it.cut = none)
    (fsm : fsmProcess box it.lowBattery l = .emit l₁ events₁)
    (awaits : l₁.state.awaits = some awaited) :
    mainRun box (it :: its) l = (Turn.emit l₁ events₁).andThen (mainRun box (it :: its)) := by
  have here : loopBody box it l = (Turn.emit l₁ events₁).andThen (loopBody box it) := by
    rw [loopBody_of_whole box whole, wholeBody, fsm, Turn.emit_andThen, Turn.emit_andThen,
      loopBody_of_whole box whole, wholeBody, fsmProcess_awaits box it.lowBattery awaits,
      Turn.pure_andThen]
  rw [mainRun, run_cons, here, Turn.andThen_assoc]
  rfl

theorem mainRun_of_fault (box : Secretbox) {it : Iteration} (its : List Iteration) {l l₁ : Lock}
    {events₁ : List Effect} {fault : Fault} (whole : it.cut = none)
    (fsm : fsmProcess box it.lowBattery l = ⟨l₁, events₁, some fault⟩) :
    mainRun box (it :: its) l = ⟨l₁, events₁, some fault⟩ := by
  rw [mainRun, run_cons, loopBody_of_whole box whole, wholeBody, fsm, Turn.faulted_andThen,
    Turn.faulted_andThen]

/-- The passes up to the last packet of the next message. -/
theorem Ahead.deliver {messages : List (List UInt8)} {past : List Effect} {l : Lock}
    (ahead : Ahead messages past l) (box : Secretbox) {message : List UInt8} {its : List Iteration}
    (delivers : Delivers message its)
    (sized : message.length = expectedLength (past ++ (mainRun box (its.take 1) l).events)) :
    (¬ Overflows box l ∧ ∃ l' events, mainRun box its l = .emit l' events ∧
      Ahead (messages ++ [message]) (past ++ events) l') ∨
    (Overflows box l ∧ ∃ l' events, mainRun box its l = ⟨l', events, some .sessionNonce⟩ ∧
      handed (past ++ events) = messages) := by
  obtain ⟨it, rest, rfl⟩ : ∃ it rest, its = it :: rest := by
    obtain ⟨before, last, rfl, -⟩ := delivers.ends
    exact List.exists_cons_of_ne_nil (by simp)
  have whole := (Iteration.steady_packet (delivers.steady it List.mem_cons_self)).1
  rcases ahead.fsmProcess box it.lowBattery with
    ⟨inside, l₁, events₁, fsm, all, ready⟩ | ⟨overflows, l', events, fsm, all⟩
  · have awaits := ready.awaits
    have begun : ∀ its, mainRun box (it :: its) l =
        (Turn.emit l₁ events₁).andThen (mainRun box (it :: its)) :=
      fun _ => mainRun_begun box whole fsm awaits
    have first : ∀ effect ∈ (loopBody box it l₁).events, effect.idle = true :=
      loopBody_idle box whole awaits
    have same : answered (past ++ (mainRun box [it] l).events) = answered (past ++ events₁) := by
      have single : mainRun box [it] l₁ = loopBody box it l₁ := run_single _ it l₁
      rw [begun, Turn.emit_andThen, ← List.append_assoc, answered_append, single,
        answered_of_idle first, Bool.or_false]
    have expected : message.length = expectedLength (past ++ events₁) := by
      rw [sized, expectedLength, expectedLength]
      show (if answered (past ++ (mainRun box [it] l).events) then _ else _) = _
      rw [same]
    rw [← expected] at awaits
    obtain ⟨l', events, run, -, state, content⟩ := deliver_run box delivers awaits ready.empty
    have idle : ∀ effect ∈ events, effect.idle = true := by
      have every := deliver_idle box delivers awaits ready.empty
      rwa [run] at every
    have still : answered (past ++ (events₁ ++ events)) = answered (past ++ events₁) := by
      rw [← List.append_assoc, answered_append, answered_of_idle idle, Bool.or_false]
    refine Or.inl ⟨inside, l', events₁ ++ events, ?_, ?_⟩
    · rw [begun, Turn.emit_andThen, run]
      rfl
    · refine .pending messages message rfl ?_ ⟨content, ?_, ?_⟩
      · rw [← List.append_assoc, handed_append, all, handed_of_idle idle, List.append_nil]
      · rw [expected, expectedLength, expectedLength, still]
      · rw [state, still]
  · exact Or.inr ⟨overflows, l', events, mainRun_of_fault box rest whole fsm, all⟩

/-- The passes after the last message hand it over, whether or not it overflows. -/
theorem Ahead.finish {messages : List (List UInt8)} {past : List Effect} {l : Lock}
    (ahead : Ahead messages past l) (box : Secretbox) {its : List Iteration} (nonempty : its ≠ [])
    (answers : Answers its) : handed (past ++ (mainRun box its l).events) = messages := by
  obtain ⟨it, rest, rfl⟩ := List.exists_cons_of_ne_nil nonempty
  have whole := (Iteration.steady_packet (answers.steady it List.mem_cons_self)).1
  rcases ahead.fsmProcess box it.lowBattery with
    ⟨-, l₁, events₁, fsm, all, ready⟩ | ⟨-, l', events, fsm, all⟩
  · have atMost : 0 < expectedLength (past ++ events₁) := by
      unfold expectedLength
      split <;> decide
    have idle := fill_idle box (it :: rest) answers.steady ready.awaits
      (by rw [MsgBuffer.content_of_empty ready.empty, answers.nothing]; exact atMost)
      (by rw [ready.empty]; decide)
    rw [mainRun_begun box whole fsm ready.awaits, Turn.emit_andThen, ← List.append_assoc,
      handed_append, all, handed_of_idle idle, List.append_nil]
  · rw [mainRun_of_fault box rest whole fsm]
    exact all

/-! ### A connection -/

/-- A message and the passes up to its last packet. -/
structure Exchange where
  message : List UInt8
  its : List Iteration

/-- The passes of some messages. -/
def passes (exchanges : List Exchange) : List Iteration := exchanges.flatMap Exchange.its

theorem passes_concat (exchanges : List Exchange) (e : Exchange) :
    passes (exchanges ++ [e]) = passes exchanges ++ e.its := by
  simp [passes]

/-- What the peer writes: each message in packets of its own, with any content, and of the length of a
ticket until one has been accepted, then of a request. The firmware processes the message before in the
first of these passes, before it looks for a packet. -/
def Exchanges (box : Secretbox) (l : Lock) (exchanges : List Exchange) : Prop :=
  ∀ before e after, exchanges = before ++ e :: after →
    Delivers e.message e.its ∧
      e.message.length = expectedLength (mainRun box (passes before ++ e.its.take 1) l).events

/-- No message but the last one overflows. -/
def Unbroken (box : Secretbox) (l : Lock) (exchanges : List Exchange) : Prop :=
  ∀ before e after, exchanges = before ++ e :: after → after ≠ [] →
    ¬ Overflows box (mainRun box (passes (before ++ [e])) l).state

theorem Exchanges.front {box : Secretbox} {l : Lock} {exchanges : List Exchange} {e : Exchange}
    (writes : Exchanges box l (exchanges ++ [e])) : Exchanges box l exchanges :=
  (forall_splits_concat.mp writes).1

theorem unbroken_concat {box : Secretbox} {l : Lock} {exchanges : List Exchange} {e : Exchange} :
    Unbroken box l (exchanges ++ [e]) ↔ Unbroken box l exchanges ∧
      (exchanges ≠ [] → ¬ Overflows box (mainRun box (passes exchanges) l).state) := by
  constructor
  · intro unbroken
    refine ⟨fun before other after split nonempty => ?_, fun nonempty => ?_⟩
    · exact unbroken before other (after ++ [e])
        (by rw [split, List.append_assoc, List.cons_append]) (by simp)
    · obtain ⟨before, other, rfl⟩ := (List.eq_nil_or_concat exchanges).resolve_left nonempty
      rw [List.concat_eq_append] at unbroken ⊢
      exact unbroken before other [e] (by rw [List.append_assoc, List.cons_append, List.nil_append])
        (by simp)
  · rintro ⟨unbroken, last⟩ before other after split nonempty
    obtain ⟨rest, final, rfl⟩ := (List.eq_nil_or_concat after).resolve_left nonempty
    have longer : exchanges ++ [e] = (before ++ other :: rest) ++ [final] := by
      rw [split, List.append_assoc, List.cons_append, List.concat_eq_append]
    obtain ⟨rfl, -⟩ := List.append_inj' longer rfl
    rcases List.eq_nil_or_concat rest with rfl | ⟨middle, latest, rfl⟩
    · exact last (by simp)
    · exact unbroken before other _ rfl (by simp)

section Connection

variable (box : Secretbox) {l : Lock} (start : l.state = .connected) (empty : l.msgBuf.len = 0)

include start empty

/-- **From message to message.** As long as nothing overflows the run goes on with the last message
complete and the others handed over; once a message has overflowed, less than all are. -/
theorem exchange_run (exchanges : List Exchange) (writes : Exchanges box l exchanges) :
    (Unbroken box l exchanges ∧ ∃ l' events, mainRun box (passes exchanges) l = .emit l' events ∧
      Ahead (exchanges.map Exchange.message) events l') ∨
    (¬ Unbroken box l exchanges ∧ ∃ l' events fault,
      mainRun box (passes exchanges) l = ⟨l', events, some fault⟩ ∧
      (handed events).length < exchanges.length) := by
  induction exchanges using List.reverseRecOn with
  | nil =>
      refine Or.inl ⟨fun before e after split => ?_, l, [], rfl, .ready rfl ⟨empty, start⟩⟩
      simp at split
  | append_singleton exchanges e ih =>
      obtain ⟨delivers, sized⟩ := writes exchanges e [] rfl
      rw [unbroken_concat, passes_concat, mainRun_append, List.map_append]
      rcases ih writes.front with
        ⟨unbroken, l₁, events₁, run₁, ahead⟩ | ⟨broken, l₁, events₁, fault, run₁, fewer⟩
      · have begun : Unbroken box l exchanges ∧ (exchanges ≠ [] →
            ¬ Overflows box (mainRun box (passes exchanges) l).state) ↔ ¬ Overflows box l₁ := by
          rw [run₁]
          refine ⟨fun both overflows => ?_, fun inside => ⟨unbroken, fun _ => inside⟩⟩
          by_cases nonempty : exchanges = []
          · subst nonempty
            cases run₁
            have complete := overflows.1
            rw [start] at complete
            cases complete
          · exact both.2 nonempty overflows
        rw [begun, run₁, Turn.emit_andThen]
        rw [mainRun_append, run₁, Turn.emit_andThen] at sized
        rcases ahead.deliver box delivers sized with
          ⟨inside, l', events, run, ahead'⟩ | ⟨overflows, l', events, run, all⟩
        · left
          rw [run]
          exact ⟨inside, l', events₁ ++ events, rfl, ahead'⟩
        · right
          rw [run]
          refine ⟨not_not.mpr overflows, l', events₁ ++ events, .sessionNonce, rfl, ?_⟩
          rw [all, List.length_map, List.length_append]
          exact Nat.lt_succ_self _
      · right
        rw [run₁, Turn.faulted_andThen]
        refine ⟨fun unbroken => broken unbroken.1, l₁, events₁, fault, rfl, ?_⟩
        rw [List.length_append]
        exact fewer.trans (Nat.lt_succ_self _)

/-- **Every message is handed over exactly once, with its own bytes, exactly if none before the last
one makes `increment_array` run past the end of the session nonce.** -/
theorem reassembled_iff (exchanges : List Exchange) (writes : Exchanges box l exchanges)
    (rest : List Iteration) (nonempty : rest ≠ []) (answers : Answers rest) :
    handed (mainRun box (passes exchanges ++ rest) l).events = exchanges.map Exchange.message ↔
      Unbroken box l exchanges := by
  rw [mainRun_append]
  rcases exchange_run box start empty exchanges writes with
    ⟨unbroken, l', events, run, ahead⟩ | ⟨broken, l', events, fault, run, fewer⟩
  · rw [run, Turn.emit_andThen]
    exact iff_of_true (ahead.finish box nonempty answers) unbroken
  · rw [run, Turn.faulted_andThen]
    refine iff_of_false (fun all => ?_) broken
    rw [all, List.length_map] at fewer
    exact absurd fewer (Nat.lt_irrefl _)

end Connection

/-! ### A session to evaluate -/

theorem exchanges_concat {box : Secretbox} {l : Lock} {exchanges : List Exchange} {e : Exchange}
    (writes : Exchanges box l exchanges) (delivers : Delivers e.message e.its)
    (sized : e.message.length =
      expectedLength (mainRun box (passes exchanges ++ e.its.take 1) l).events) :
    Exchanges box l (exchanges ++ [e]) :=
  forall_splits_concat.mpr ⟨writes, delivers, sized⟩

theorem exchanges_nil (box : Secretbox) (l : Lock) : Exchanges box l [] := by
  intro before e after split
  simp at split

/-- A message in packets of 20 bytes. -/
def inPackets (message : List UInt8) : Exchange := ⟨message, packets message⟩

theorem inPackets_delivers {message : List UInt8}
    (steady : ∀ it ∈ packets message, it.steady = true) (writes : written (packets message) = message)
    (ends : (packets message).getLast?.any fun last => last.written ≠ []) :
    Delivers message (packets message) := by
  refine ⟨steady, writes, ?_⟩
  cases last : (packets message).getLast? with
  | none =>
      rw [last] at ends
      cases ends
  | some it =>
      rw [last] at ends
      obtain ⟨before, split⟩ := List.getLast?_eq_some_iff.mp last
      exact ⟨before, it, split, of_decide_eq_true ends⟩

/-- A fresh connection of a lock with the sample master key. -/
def connectedLock : Lock := { bootLock zeroNonce sampleMasterKey with state := .connected }

/-- A ticket that is rejected and one that is accepted. -/
def sampleTickets : List Exchange :=
  [inPackets (List.replicate 72 0), inPackets (sampleTicket 1).toList]

theorem sampleTickets_exchanges : Exchanges keyTag connectedLock sampleTickets := by
  have rejected : Exchanges keyTag connectedLock [inPackets (List.replicate 72 0)] :=
    exchanges_concat (exchanges_nil _ _)
      (inPackets_delivers (by decide +kernel) (by decide +kernel) (by decide +kernel))
      (by decide +kernel)
  exact exchanges_concat rejected
    (inPackets_delivers (by decide +kernel) (by decide +kernel) (by decide +kernel))
    (by decide +kernel)

/-- A request that asks for a rotation with a nonce. -/
def requestExchange (number : Nat) : Exchange := inPackets (sampleMessage number 1).toList

theorem requestExchange_exchanges : Exchanges keyTag connectedLock (sampleTickets ++ [requestExchange 2]) :=
  exchanges_concat sampleTickets_exchanges
    (inPackets_delivers (by decide +kernel) (by decide +kernel) (by decide +kernel))
    (by decide +kernel)

theorem quiet_answers : Answers [quietPass] := ⟨by decide, rfl⟩

theorem reassembled_sample :
    handed (mainRun keyTag (passes (sampleTickets ++ [requestExchange 2]) ++ [quietPass])
        connectedLock).events = (sampleTickets ++ [requestExchange 2]).map Exchange.message ↔
      Unbroken keyTag connectedLock (sampleTickets ++ [requestExchange 2]) :=
  reassembled_iff keyTag rfl rfl _ requestExchange_exchanges [quietPass] (by decide) quiet_answers

/-- A request with the last nonce, and another one. -/
def lastRequests : List Exchange :=
  sampleTickets ++ [requestExchange (2 ^ 192 - 1)] ++ [requestExchange 2]

/-- The last nonce authenticates, the increment leaves the array, and nothing is handed over after
it. -/
theorem lastRequests_broken :
    (mainRun keyTag (passes lastRequests ++ [quietPass]) connectedLock).fault = some .sessionNonce ∧
      ¬ ∀ exchanges : List Exchange, Exchanges keyTag connectedLock exchanges →
        handed (mainRun keyTag (passes exchanges ++ [quietPass]) connectedLock).events =
          exchanges.map Exchange.message := by
  have writes : Exchanges keyTag connectedLock lastRequests :=
    exchanges_concat
      (exchanges_concat sampleTickets_exchanges
        (inPackets_delivers (by decide +kernel) (by decide +kernel) (by decide +kernel))
        (by decide +kernel))
      (inPackets_delivers (by decide +kernel) (by decide +kernel) (by decide +kernel))
      (by decide +kernel)
  refine ⟨by decide +kernel, fun every => ?_⟩
  have all := every lastRequests writes
  revert all
  decide +kernel

end Esloq
