/-
**The app and the lock stay in step (`sendEncryptedMessage`, `process_request_msg`,
`handleMessage`).**

The two increments agree on few arrays: the app carries past 127, the lock past 255. On the nonces of
a session that loses nothing they agree, since there

* every byte is at most 127 and the nonce spells a number in base 128 (`Spells`); and
* the number is odd after each response, so the lock increments an even one and never carries.

A response is transmitted in three sections; a request arrives in packets of any sizes. `Round` is one
exchange, `Round.InOrder` says that its messages arrive completely and once, and `round_in_step` is
the induction step for `stays_in_step`.
-/

import Esloq.Session.Joint

namespace Esloq

open Machine BigEndian

/-! ### Nonces in base 128 -/

/-- A nonce whose bytes are digits of base 128, and the number they spell. -/
structure Spells (nonce : Nonce) (number : Nat) : Prop where
  digits : ∀ byte ∈ nonce.toList, byte.toNat ≤ App.byteMax.toNat
  value : valueIn 128 nonce.toList = number

theorem spells_zeroNonce : Spells zeroNonce 0 where
  digits byte member := by
    obtain rfl : byte = 0 := List.eq_of_mem_replicate member
    exact Nat.zero_le _
  value := valueIn_replicate_zero 128 24

theorem Spells.unsigned {nonce : Nonce} {number : Nat} (spells : Spells nonce number) :
    App.unsigned nonce := by
  rw [App.unsigned]
  cases bytes : nonce.toList with
  | nil => exact Nat.zero_lt_succ 127
  | cons byte rest =>
      exact Nat.lt_succ_of_le (spells.digits byte (by rw [bytes]; exact List.mem_cons_self))

/-- On base 128 the app's increment is the successor, up to the last number of 24 digits. -/
theorem Spells.app {nonce : Nonce} {number : Nat} (spells : Spells nonce number)
    (room : number + 1 < 128 ^ 24) :
    Spells (App.incrementByteArray nonce) (number + 1) ∧
      nonceValue nonce < nonceValue (App.incrementByteArray nonce) := by
  have bytes := App.toList_incrementByteArray nonce
  cases bumped : bump App.byteMax nonce.toList with
  | none =>
      have full := valueIn_all_top (bump_eq_none.mp bumped)
      have value : valueIn (App.byteMax.toNat + 1) nonce.toList = number := spells.value
      rw [value, List.Vector.toList_length] at full
      exact absurd full (Nat.ne_of_lt room)
  | some raised =>
      rw [bumped, Option.getD_some] at bytes
      refine ⟨⟨?_, ?_⟩, ?_⟩
      · rw [bytes]
        exact bump_le spells.digits bumped
      · rw [bytes, ← spells.value]
        exact valueIn_bump spells.digits bumped
      · rw [nonceValue, nonceValue, bytes, value_lt_bump_iff bumped]
        intro stop
        have member : (255 : UInt8) ∈ nonce.toList.reverse := List.mem_of_find?_eq_some stop
        exact absurd (spells.digits 255 (List.mem_reverse.mp member)) (by decide)

/-- On an even number the lock's increment is the successor too, since nothing carries. -/
theorem Spells.lock {nonce : Nonce} {number : Nat} (spells : Spells nonce number)
    (even : number % 2 = 0) :
    ∃ next, incrementArray nonce = some next ∧ Spells next (number + 1) ∧
      nonceValue nonce < nonceValue next := by
  have split := Bytes.take_succ_eq nonce (show 23 < 24 by decide)
  rw [List.take_of_length_le (List.Vector.toList_length nonce).le] at split
  have spelled := spells.value
  rw [split, valueIn_concat] at spelled
  -- the last digit has the parity of the number, so it is neither 127 nor 255
  have free : ∀ top : UInt8, top.toNat % 2 = 1 → nonce.get ⟨23, by decide⟩ ≠ top := by
    rintro top odd rfl
    omega
  have raised : ∀ top : UInt8, top.toNat % 2 = 1 → bump top nonce.toList =
      some (nonce.toList.take 23 ++ [nonce.get ⟨23, by decide⟩ + 1]) := by
    intro top odd
    rw [split, bump_concat, if_neg (free top odd), ← split]
  cases found : incrementArray nonce with
  | none =>
      have none' := congrArg (Option.map List.Vector.toList) found
      rw [incrementArray_eq, raised 255 (by decide)] at none'
      cases none'
  | some next =>
      have bytes := incrementArray_some found
      have same : bump App.byteMax nonce.toList = some next.toList := by
        rw [raised App.byteMax (by decide), ← raised 255 (by decide), bytes]
      refine ⟨next, rfl, ⟨bump_le spells.digits same, ?_⟩, ?_⟩
      · rw [← spells.value]
        exact valueIn_bump spells.digits same
      · rw [nonceValue, nonceValue, value_incrementArray found]
        exact Nat.lt_succ_self _

/-! ### Responses on their way -/

/-- The app is notified of each section; the module may pad the last one. -/
def hear (padding : List UInt8) : List (List UInt8) → List AppInput
  | [] => []
  | [last] => [.notified (last ++ padding)]
  | early :: rest => .notified early :: hear padding rest

/-- A response that is heard in its sections is processed as a whole. -/
theorem hear_run (box : Secretbox) {app : App} (listening : app.incoming = some [])
    (padding : List UInt8) (msg : Bytes 41) :
    appRun box (hear padding (sections msg)) app = App.processMessage box msg app := by
  have early : (msg.slice 0 20 (by decide)).toList.length = 20 := List.Vector.toList_length _
  have middle : (msg.slice 20 20 (by decide)).toList.length = 20 := List.Vector.toList_length _
  have one : (msg.slice 40 1 (by decide)).toList.length = 1 := List.Vector.toList_length _
  obtain ⟨byte, last⟩ := List.length_eq_one_iff.mp one
  have whole : (msg.slice 0 20 (by decide)).toList ++ (msg.slice 20 20 (by decide)).toList ++
      [byte] = msg.toList := by
    rw [← last]
    simp only [Bytes.toList_slice]
    rw [List.take_of_length_le (l := msg.toList.drop 40) (by simp), List.append_assoc,
      ← List.drop_drop (i := 20) (j := 20), List.take_append_drop, List.drop_zero,
      List.take_append_drop]
  have steps : hear padding (sections msg) =
      [.notified (msg.slice 0 20 (by decide)).toList, .notified (msg.slice 20 20 (by decide)).toList,
        .notified (byte :: padding)] := by
    rw [sections, last]
    rfl
  rw [steps, appRun, run_cons, appStep,
    App.handleMessage_early box listening (by rw [early]; decide) (List.ne_nil_of_length_pos (by omega)),
    Turn.pure_andThen, List.nil_append, run_cons, appStep,
    App.handleMessage_early box rfl (by rw [early, middle]) (List.ne_nil_of_length_pos (by omega)),
    Turn.pure_andThen, run_single, appStep, App.handleMessage_last box rfl whole]
  obtain ⟨sessionKey, sessionNonce, incoming⟩ := app
  cases listening
  rfl

/-- The app accepts an answer above its nonce that the session key opens. -/
theorem app_accepts {box : Secretbox} (contract : box.Contract) (app : App) {answered : Nonce}
    {rsp : UInt8} {c : Bytes 17} {code : LockResponseCode} (listening : app.incoming = some [])
    (unsigned : App.unsigned app.sessionNonce) (plain : App.unsigned answered)
    (above : nonceValue app.sessionNonce < nonceValue answered)
    (sealed : cryptoAuthEncrypt box (oneByte rsp) answered app.sessionKey = some c)
    (named : LockResponseCode.fromInteger (App.signedByte rsp) = some code) (padding : List UInt8) :
    ∃ events, appRun box (hear padding (sections (message answered c))) app =
      .emit { app with sessionNonce := answered } events ∧
        .accepted app.sessionKey (message answered c) rsp ∈ events := by
  have opens := messageByte_of_sealed contract sealed
  rw [hear_run box listening]
  rcases app.processMessage_cases box (message answered c) with
    ⟨invalid, -⟩ | ⟨-, ⟨unknown, -⟩ | ⟨rsp', code', opened, -, same⟩⟩
  · have valid := (App.isValidSessionNonce_iff unsigned).mpr ⟨plain, above⟩
    rw [messageNonce_message, valid] at invalid
    cases invalid
  · rw [unknown rsp opens] at named
    cases named
  · rw [opens] at opened
    cases opened
    have advanced : app.advanced (message answered c) = { app with sessionNonce := answered } := by
      rw [App.advanced, messageNonce_message]
    rw [same, advanced]
    exact ⟨_, rfl, List.mem_append_left _ (List.mem_singleton.mpr rfl)⟩

/-! ### Answers of the lock -/

/-- `fsm_process` begins to answer a message under the nonce after it. -/
structure Begins (box : Secretbox) (lowBattery : Bool) (l l₁ : Lock) (events : List Effect)
    (stored answered : Nonce) (rsp : UInt8) (c : Bytes 17) : Prop where
  turn : fsmProcess box lowBattery l = .emit l₁ events
  state : l₁.state = .requestW
  empty : l₁.msgBuf.len = 0
  nonce : l₁.sessionNonce = answered
  response : l₁.attWriteBuffer = ⟨0, message answered c⟩
  sealed : cryptoAuthEncrypt box (oneByte rsp) answered l₁.sessionKey = some c
  encrypted : .encrypted l₁.sessionKey stored answered rsp c ∈ events
  transmits : transmitted events = l₁.attWriteBuffer.sent

/-- The shared end of the processors begins an answer. -/
theorem begins_of_respond {box : Secretbox} (contract : box.Contract) {lowBattery : Bool} {l : Lock}
    (l' : Lock) {rsp : UInt8} {effects : List Effect} {after : UInt8 → Lock → LockTurn} {answered : Nonce}
    (same : fsmProcess box lowBattery l = (respond box .requestW rsp l' effects).2.andThen
      (after (respond box .requestW rsp l' effects).1))
    (done : after 0 = .pure) (raised : incrementArray l'.sessionNonce = some answered)
    (quiet : transmitted effects = []) :
    ∃ l₁ events c, Begins box lowBattery l l₁ events l'.sessionNonce answered rsp c ∧
      l₁.sessionKey = l'.sessionKey ∧ ∀ effect ∈ effects, effect ∈ events := by
  obtain ⟨c, sealed, -⟩ := openPadded_sealPadded contract (oneByte rsp) answered l'.sessionKey
  rw [respond_of_sealed .requestW raised sealed, done, Turn.andThen_pure] at same
  refine ⟨_, _, c, ⟨same, rfl, rfl, rfl, rfl, sealed, by simp [resetMsgBuffer], ?_⟩, rfl, fun effect member =>
    List.mem_append_left _ member⟩
  rw [transmitted_append, quiet]
  rfl

/-- A genuine ticket with a fresh nonce is answered under the nonce after zero. -/
theorem ticket_begins {box : Secretbox} (contract : box.Contract) (lowBattery : Bool) {l : Lock}
    {sessionKey : Key} {answered : Nonce} (waiting : l.state = .ticket)
    (fresh : isValidTicketNonce (ticketNonce l.msgBuf.data) l.masterNonceEeprom = true)
    (opens : ticketKey box l.masterKeyEeprom l.msgBuf.data = some sessionKey)
    (raised : incrementArray zeroNonce = some answered) :
    ∃ l₁ events c, Begins box lowBattery l l₁ events zeroNonce answered (ticketRsp lowBattery) c ∧
      l₁.sessionKey = sessionKey := by
  have fsm := fsmProcess_of_ticket box lowBattery waiting
  rw [processTicketMsg_of_opens box lowBattery l fresh opens] at fsm
  obtain ⟨l₁, events, c, begins, key, -⟩ :=
    begins_of_respond contract (ticketAccepted l sessionKey) fsm rfl raised rfl
  exact ⟨l₁, events, c, begins, key⟩

/-- A genuine request with a fresh nonce is answered under the nonce after its own. -/
theorem request_begins {box : Secretbox} (contract : box.Contract) (lowBattery : Bool) {l : Lock}
    {msg : Bytes 41} {request : UInt8} {answered : Nonce} (waiting : l.state = .request)
    (buffered : bufferedRequest l = msg)
    (fresh : nonceValue l.sessionNonce < nonceValue (messageNonce msg))
    (opens : messageByte box l.sessionKey msg = some request)
    (raised : incrementArray (messageNonce msg) = some answered) :
    ∃ l₁ events c, Begins box lowBattery l l₁ events (messageNonce msg) answered (rspCode request) c ∧
      l₁.sessionKey = l.sessionKey ∧ .requestDecrypted l.sessionKey msg request ∈ events := by
  subst buffered
  rw [← isValidSessionNonce_iff] at fresh
  have fsm := fsmProcess_of_request box lowBattery waiting
  rw [processRequestMsg_of_opens box l fresh opens] at fsm
  have quiet : transmitted ([.requestMsg (bufferedRequest l),
      .requestDecrypted l.sessionKey (bufferedRequest l) request] ++
        ((requestedRotation request).map (Effect.rotate .remote)).toList) = [] := by
    cases requestedRotation request <;> rfl
  obtain ⟨l₁, events, c, begins, key, members⟩ := begins_of_respond contract _ fsm rfl raised quiet
  exact ⟨l₁, events, c, begins, key, members _ (by simp)⟩

/-- The lock has answered a message, and the whole response has been sent. -/
structure HasAnswered (l' : Lock) (events : List Effect) (stored answered : Nonce) (rsp : UInt8)
    (c : Bytes 17) : Prop where
  state : l'.state = .requestW
  empty : l'.msgBuf.len = 0
  nonce : l'.sessionNonce = answered
  complete : l'.attWriteBuffer.sent.length = 3
  encrypted : .encrypted l'.sessionKey stored answered rsp c ∈ events
  transmits : transmitted events = sections (message answered c)

theorem sent_length_le (buffer : AttributesWriteBuffer) : buffer.sent.length ≤ 3 := by
  rw [AttributesWriteBuffer.sent, List.length_take]
  exact Nat.min_le_right _ _

/-- A response that has been sent in three sections has been sent completely. -/
theorem sent_of_complete {buffer : AttributesWriteBuffer} (complete : buffer.sent.length = 3) :
    buffer.sent = sections buffer.data := by
  have three : (sections buffer.data).length = 3 := rfl
  rw [AttributesWriteBuffer.sent, List.length_take, three] at complete
  exact List.take_of_length_le (by rw [three]; omega)

/-- **An answer that is begun arrives in its sections.** -/
theorem answers_of_begins {box : Secretbox} {it : Iteration} {its : List Iteration} {l l₁ : Lock}
    {events₁ : List Effect} {stored answered : Nonce} {rsp : UInt8} {c : Bytes 17}
    (begins : Begins box it.lowBattery l l₁ events₁ stored answered rsp c)
    (answers : Answers (it :: its))
    (complete : (transmitted (mainRun box (it :: its) l).events).length = 3) :
    ∃ l' events, mainRun box (it :: its) l = .emit l' events ∧ l'.sessionKey = l₁.sessionKey ∧
      HasAnswered l' events stored answered rsp c ∧ ∀ effect ∈ events₁, effect ∈ events := by
  obtain ⟨l', events, run, receives, state, empty⟩ :=
    answer_run box answers begins.turn begins.state begins.empty
  have transmits : transmitted (events₁ ++ events) = l'.attWriteBuffer.sent := by
    rw [transmitted_append, begins.transmits, receives.sent]
  rw [run] at complete
  have whole : l'.attWriteBuffer.sent.length = 3 := by rw [← transmits]; exact complete
  refine ⟨l', _, run, receives.sessionKey, ⟨state, empty, ?_, whole, ?_, ?_⟩, fun effect member =>
    List.mem_append_left _ member⟩
  · rw [receives.sessionNonce, begins.nonce]
  · rw [receives.sessionKey]
    exact List.mem_append_left _ begins.encrypted
  · rw [transmits, sent_of_complete whole, receives.response, begins.response]

/-! ### Rounds -/

/-- The call that sends a request. -/
def LockRequestCode.input : LockRequestCode → AppInput
  | .rotateClockwise => .rotateClockwise
  | .rotateCounterClockwise => .rotateCounterClockwise

theorem appStep_request (box : Secretbox) (request : LockRequestCode) (app : App) :
    appStep box request.input app = app.sendEncryptedMessage box request.byte := by
  cases request <;> rfl

/-- The values the app writes to the characteristic of the lock. -/
def valuesWritten (events : List AppEvent) : List (List UInt8) :=
  events.filterMap fun
    | .writes value => some value
    | _ => none

/-- One request and its answer: the request, the passes in which it arrives, the passes in which it
is answered, and the padding of the answer's last section. -/
structure Round where
  request : LockRequestCode
  carry : List Iteration
  answering : List Iteration
  padding : List UInt8

namespace Round

variable (box : Secretbox) (round : Round) (state : App × Lock)

/-- What the lock does in a round. -/
def lockTurn : LockTurn := mainRun box (round.carry ++ round.answering) state.2

/-- The inputs of a round; the app hears what the lock transmits. -/
def inputs : List (AppInput ⊕ Iteration) :=
  [round.request.input].map .inl ++ ((round.carry ++ round.answering).map .inr ++
    (hear round.padding (transmitted (round.lockTurn box state).events)).map .inl)

/-- The turn of a round. -/
def turn : Turn (App × Lock) (AppEvent ⊕ Effect) (Empty ⊕ Fault) :=
  run (beside (appStep box) (loopBody box)) (round.inputs box state) state

/-- Every message of the round is delivered, once and completely. -/
structure InOrder : Prop where
  asked : ∀ value ∈ valuesWritten (appStep box round.request.input state.1).events,
    Delivers value round.carry
  answers : Answers round.answering
  complete : (transmitted (round.lockTurn box state).events).length = 3

end Round

/-- Both sides have the session key and the same nonce, and nothing is under way. -/
structure InStep (sessionKey : Key) (rounds : Nat) (state : App × Lock) : Prop where
  appKey : state.1.sessionKey = sessionKey
  lockKey : state.2.sessionKey = sessionKey
  same : state.1.sessionNonce = state.2.sessionNonce
  spells : Spells state.2.sessionNonce (2 * rounds + 1)
  listening : state.1.incoming = some []
  waiting : state.2.state = .requestW
  empty : state.2.msgBuf.len = 0
  complete : state.2.attWriteBuffer.sent.length = 3

/-- In a turn the app asks under a nonce, the lock reads the request under this nonce and answers
under the next one, the app reads the answer under that one, and then both have it as their session
nonce. -/
structure Agreed (sessionKey : Key) (request : UInt8) (before : App × Lock)
    (turn : Turn (App × Lock) (AppEvent ⊕ Effect) (Empty ⊕ Fault)) : Prop where
  ok : turn.fault = none
  exchanged : ∃ asked answered c c',
    .inl (.encrypted sessionKey before.1.sessionNonce asked request c) ∈ turn.events ∧
    .inr (.requestDecrypted sessionKey (message asked c) request) ∈ turn.events ∧
    .inr (.encrypted sessionKey asked answered (rspCode request) c') ∈ turn.events ∧
    .inl (.accepted sessionKey (message answered c') (rspCode request)) ∈ turn.events ∧
    turn.state.1.sessionNonce = answered ∧ turn.state.2.sessionNonce = answered

/-- The response to a request has a code the app knows. -/
theorem rspCode_known (request : LockRequestCode) :
    ∃ code, LockResponseCode.fromInteger (App.signedByte (rspCode request.byte)) = some code := by
  cases request
  · exact ⟨.unlocked, by decide⟩
  · exact ⟨.locked, by decide⟩

/-- What the app sends, and where it is afterwards. -/
theorem app_asks {box : Secretbox} (contract : box.Contract) (app : App) (request : LockRequestCode) :
    ∃ c, sealPadded box (oneByte request.byte) app.incremented.sessionNonce app.sessionKey = some c ∧
      appStep box request.input app = .emit app.incremented [.sends app.sessionNonce request.byte,
        .encrypted app.sessionKey app.sessionNonce app.incremented.sessionNonce request.byte c,
        .writes (message app.incremented.sessionNonce c).toList] := by
  rw [appStep_request]
  rcases app.sendEncryptedMessage_cases box request.byte with ⟨failed, -⟩ | asks
  · obtain ⟨c, sealed, -⟩ := openPadded_sealPadded contract (oneByte request.byte)
      app.incremented.sessionNonce app.sessionKey
    rw [failed] at sealed
    cases sealed
  · exact asks

/-- The lock's passes and then the app's calls. -/
theorem run_exchange {box : Secretbox} {app app' : App} {l l' : Lock} {its : List Iteration}
    {heard : List AppInput} {events : List Effect} {events' : List AppEvent}
    (lock : mainRun box its l = .emit l' events) (phone : appRun box heard app = .emit app' events') :
    run (beside (appStep box) (loopBody box)) (its.map .inr ++ heard.map .inl) (app, l) =
      .emit (app', l') (events.map .inr ++ events'.map .inl) := by
  have lock' : run (loopBody box) its l = .emit l' events := lock
  have phone' : run (appStep box) heard app = .emit app' events' := phone
  rw [run_append, run_inr, lock', Turn.inRight_emit, Turn.emit_andThen, run_inl, phone',
    Turn.inLeft_emit]
  rfl

/-- The lock's half of a round. -/
theorem lock_answers {box : Secretbox} (contract : box.Contract) {l : Lock} (msg : Bytes 41)
    {request : UInt8} {answered : Nonce} {carry answering : List Iteration}
    (waiting : l.state = .requestW) (empty : l.msgBuf.len = 0)
    (sent : l.attWriteBuffer.sent.length = 3)
    (fresh : nonceValue l.sessionNonce < nonceValue (messageNonce msg))
    (opens : messageByte box l.sessionKey msg = some request)
    (raised : incrementArray (messageNonce msg) = some answered)
    (delivers : Delivers msg.toList carry) (answers : Answers answering)
    (complete : (transmitted (mainRun box (carry ++ answering) l).events).length = 3) :
    ∃ l' events c, mainRun box (carry ++ answering) l = .emit l' events ∧
      l'.sessionKey = l.sessionKey ∧
      cryptoAuthEncrypt box (oneByte (rspCode request)) answered l.sessionKey = some c ∧
      HasAnswered l' events (messageNonce msg) answered (rspCode request) c ∧
      .requestDecrypted l.sessionKey msg request ∈ events := by
  obtain ⟨l₁, events₁, run₁, receives₁, state₁, content₁⟩ := deliver_run box delivers
    (by rw [waiting, List.Vector.toList_length]; rfl) empty
  -- the response before this one has been sent, so nothing is sent while the request arrives
  have silent : transmitted events₁ = [] := by
    have atMost := sent_length_le l₁.attWriteBuffer
    rw [receives₁.sent, List.length_append, sent] at atMost
    exact List.length_eq_zero_iff.mp (by omega)
  rw [mainRun_append, run₁, Turn.emit_andThen] at complete ⊢
  rw [transmitted_append, silent, List.nil_append] at complete
  cases answering with
  | nil => exact absurd (show 0 = 3 from complete) (by decide)
  | cons it its =>
      rw [← receives₁.sessionKey] at opens
      rw [← receives₁.sessionNonce] at fresh
      obtain ⟨l₂, events₂, c, begins, key₂, acted⟩ := request_begins contract it.lowBattery state₁
        (bufferedRequest_of_content content₁) fresh opens raised
      obtain ⟨l', events', run', key', answer, members⟩ :=
        answers_of_begins begins answers complete
      have key : l'.sessionKey = l.sessionKey := by rw [key', key₂, receives₁.sessionKey]
      have sealed := begins.sealed
      rw [key₂, receives₁.sessionKey] at sealed
      rw [receives₁.sessionKey] at acted
      refine ⟨l', events₁ ++ events', c, by rw [run']; rfl, key, sealed, ?_,
        List.mem_append_right _ (members _ acted)⟩
      exact ⟨answer.state, answer.empty, answer.nonce, answer.complete,
        List.mem_append_right _ answer.encrypted, by
          rw [transmitted_append, silent, List.nil_append, answer.transmits]⟩

/-- **A round from in step to in step.** -/
theorem round_in_step {box : Secretbox} (contract : box.Contract) {sessionKey : Key} {rounds : Nat}
    {round : Round} {state : App × Lock} (inStep : InStep sessionKey rounds state)
    (inOrder : round.InOrder box state) (room : 2 * rounds + 3 < 128 ^ 24) :
    Agreed sessionKey round.request.byte state (round.turn box state) ∧
      InStep sessionKey (rounds + 1) (round.turn box state).state := by
  obtain ⟨app, l⟩ := state
  obtain ⟨request, carry, answering, padding⟩ := round
  obtain ⟨rfl, lockKey, same, spells, listening, waiting, empty, sent⟩ := inStep
  dsimp only at lockKey same spells listening waiting empty sent
  rw [← same] at spells
  -- the app asks
  obtain ⟨spellsAsked, above⟩ := spells.app (by omega)
  obtain ⟨c, sealed, asks⟩ := app_asks contract app request
  have asked := inOrder.asked
  rw [asks] at asked
  have delivers := asked _ (List.mem_singleton.mpr rfl)
  -- the lock answers
  obtain ⟨answered, raised, spellsAnswered, aboveAsked⟩ := spellsAsked.lock (by omega)
  have opens := messageByte_of_sealed contract sealed
  obtain ⟨l', events, c', runLock, key, sealed', answer, acted⟩ := lock_answers contract
    (message app.incremented.sessionNonce c) waiting empty sent
    (by rw [← same, messageNonce_message]; exact above) (by rw [lockKey]; exact opens)
    (by rw [messageNonce_message]; exact raised) delivers inOrder.answers inOrder.complete
  rw [lockKey] at key sealed' acted
  -- the app reads the answer
  obtain ⟨code, named⟩ := rspCode_known request
  obtain ⟨events', runApp, accepted⟩ := app_accepts contract app.incremented listening
    spellsAsked.unsigned spellsAnswered.unsigned aboveAsked sealed' named padding
  have turn : Round.turn box ⟨request, carry, answering, padding⟩ (app, l) =
      .emit ({ app.incremented with sessionNonce := answered }, l')
        ([.sends app.sessionNonce request.byte,
          .encrypted app.sessionKey app.sessionNonce app.incremented.sessionNonce request.byte c,
          .writes (message app.incremented.sessionNonce c).toList].map .inl ++
        (events.map .inr ++ events'.map .inl)) := by
    have lockTurn : Round.lockTurn box ⟨request, carry, answering, padding⟩ (app, l) =
        .emit l' events := runLock
    have heard : appRun box (hear padding (transmitted events)) app.incremented =
        .emit { app.incremented with sessionNonce := answered } events' := by
      rw [answer.transmits]
      exact runApp
    rw [Round.turn, Round.inputs, lockTurn, run_append, run_inl, run_single, asks, Turn.inLeft_emit,
      Turn.emit_andThen]
    dsimp only [Turn.emit]
    rw [run_exchange runLock heard]
    rfl
  rw [turn]
  refine ⟨⟨rfl, app.incremented.sessionNonce, answered, c, c', ?_, ?_, ?_, ?_, rfl, answer.nonce⟩, ?_⟩
  · simp [Turn.emit]
  · exact List.mem_append_right _ (List.mem_append_left _ (List.mem_map_of_mem acted))
  · have encrypted := answer.encrypted
    rw [key, messageNonce_message] at encrypted
    exact List.mem_append_right _ (List.mem_append_left _ (List.mem_map_of_mem encrypted))
  · exact List.mem_append_right _ (List.mem_append_right _ (List.mem_map_of_mem accepted))
  · refine ⟨rfl, key, answer.nonce.symm, ?_, listening, answer.state, answer.empty, answer.complete⟩
    have counted : Spells l'.sessionNonce (2 * rounds + 1 + 1 + 1) := by
      rw [answer.nonce]
      exact spellsAnswered
    rwa [show 2 * (rounds + 1) + 1 = 2 * rounds + 1 + 1 + 1 from rfl]

/-! ### Sessions -/

/-- The passes in which a ticket is answered, and the padding of the answer's last section. -/
structure Opening where
  answering : List Iteration
  padding : List UInt8

namespace Opening

variable (box : Secretbox) (opening : Opening) (state : App × Lock)

/-- The inputs of an opening; the app hears what the lock transmits. -/
def inputs : List (AppInput ⊕ Iteration) :=
  opening.answering.map .inr ++
    (hear opening.padding (transmitted (mainRun box opening.answering state.2).events)).map .inl

/-- The turn of an opening. -/
def turn : Turn (App × Lock) (AppEvent ⊕ Effect) (Empty ⊕ Fault) :=
  run (beside (appStep box) (loopBody box)) (opening.inputs box state) state

/-- The answer to the ticket is delivered, once and completely. -/
structure InOrder : Prop where
  answers : Answers opening.answering
  complete : (transmitted (mainRun box opening.answering state.2).events).length = 3

end Opening

/-- The app reads the answer to a ticket under nonce one, and then both have nonce one. -/
structure Opened (sessionKey : Key)
    (turn : Turn (App × Lock) (AppEvent ⊕ Effect) (Empty ⊕ Fault)) : Prop where
  ok : turn.fault = none
  exchanged : ∃ rsp c, .inr (.encrypted sessionKey zeroNonce (nonceOf 1) rsp c) ∈ turn.events ∧
    .inl (.accepted sessionKey (message (nonceOf 1) c) rsp) ∈ turn.events
  app : turn.state.1.sessionNonce = nonceOf 1
  lock : turn.state.2.sessionNonce = nonceOf 1

/-- The response to a ticket has a code the app knows. -/
theorem ticketRsp_known (lowBattery : Bool) :
    ∃ code, LockResponseCode.fromInteger (App.signedByte (ticketRsp lowBattery)) = some code := by
  cases lowBattery
  · exact ⟨.ticketRcvSuccess, by decide⟩
  · exact ⟨.ticketRcvSuccessLowBat, by decide⟩

/-- An accepted ticket brings both sides in step. -/
theorem opening_in_step {box : Secretbox} (contract : box.Contract) {sessionKey : Key} (app : App)
    {l : Lock} {opening : Opening} (waiting : l.state = .ticket)
    (fresh : isValidTicketNonce (ticketNonce l.msgBuf.data) l.masterNonceEeprom = true)
    (opens : ticketKey box l.masterKeyEeprom l.msgBuf.data = some sessionKey)
    (inOrder : opening.InOrder box ((app.setSessionKey sessionKey).onDescriptorWrite, l)) :
    let turn := opening.turn box ((app.setSessionKey sessionKey).onDescriptorWrite, l)
    Opened sessionKey turn ∧ InStep sessionKey 0 turn.state := by
  intro turn
  obtain ⟨answering, padding⟩ := opening
  obtain ⟨answers, complete⟩ := inOrder
  dsimp only at answers complete
  obtain ⟨one, raised, spells, above⟩ := spells_zeroNonce.lock (by decide)
  obtain rfl : nonceOf 1 = one := Option.some.inj (Eq.trans (by decide) raised)
  cases answering with
  | nil => exact absurd (show 0 = 3 from complete) (by decide)
  | cons it its =>
      obtain ⟨l₁, events₁, c, begins, key₁⟩ :=
        ticket_begins contract it.lowBattery waiting fresh opens raised
      obtain ⟨l', events, runLock, key, answer, -⟩ := answers_of_begins begins answers complete
      have sealed := begins.sealed
      rw [key₁] at key sealed
      obtain ⟨code, named⟩ := ticketRsp_known it.lowBattery
      obtain ⟨events', runApp, accepted⟩ := app_accepts contract
        (app.setSessionKey sessionKey).onDescriptorWrite rfl spells_zeroNonce.unsigned
        spells.unsigned above sealed named padding
      have same : turn = .emit
          ({ (app.setSessionKey sessionKey).onDescriptorWrite with sessionNonce := nonceOf 1 }, l')
          (events.map .inr ++ events'.map .inl) := by
        have heard : appRun box (hear padding (transmitted events))
            (app.setSessionKey sessionKey).onDescriptorWrite = .emit
              { (app.setSessionKey sessionKey).onDescriptorWrite with sessionNonce := nonceOf 1 }
              events' := by
          rw [answer.transmits]
          exact runApp
        show run _ (Opening.inputs box ⟨it :: its, padding⟩ _) _ = _
        rw [Opening.inputs, runLock]
        exact run_exchange runLock heard
      have encrypted := answer.encrypted
      rw [key] at encrypted
      rw [same]
      refine ⟨⟨rfl, ⟨ticketRsp it.lowBattery, c, ?_, ?_⟩, rfl, answer.nonce⟩, rfl, key,
        answer.nonce.symm, ?_, rfl, answer.state, answer.empty, answer.complete⟩
      · exact List.mem_append_left _ (List.mem_map_of_mem encrypted)
      · exact List.mem_append_right _ (List.mem_map_of_mem accepted)
      · show Spells l'.sessionNonce 1
        rw [answer.nonce]
        exact spells

/-- Every round is delivered in order, from where the one before it ended. -/
def AllInOrder (box : Secretbox) : List Round → App × Lock → Prop
  | [], _ => True
  | round :: rest, state =>
      round.InOrder box state ∧ AllInOrder box rest (round.turn box state).state

/-- Every round is agreed on, from where the one before it ended. -/
def AllAgreed (box : Secretbox) (sessionKey : Key) : List Round → App × Lock → Prop
  | [], _ => True
  | round :: rest, state => Agreed sessionKey round.request.byte state (round.turn box state) ∧
      AllAgreed box sessionKey rest (round.turn box state).state

theorem all_agreed {box : Secretbox} (contract : box.Contract) {sessionKey : Key} :
    ∀ {rounds : List Round} {done : Nat} {state : App × Lock}, InStep sessionKey done state →
      AllInOrder box rounds state → 2 * (done + rounds.length) + 1 < 128 ^ 24 →
      AllAgreed box sessionKey rounds state
  | [], _, _, _, _, _ => trivial
  | round :: rest, done, state, inStep, inOrder, room => by
      rw [List.length_cons] at room
      obtain ⟨agreed, later⟩ := round_in_step contract inStep inOrder.1 (by omega)
      exact ⟨agreed, all_agreed contract later inOrder.2 (by omega)⟩

/-- **The lock and the app stay in step for a whole session.** The lock has received a genuine ticket
with a fresh nonce, the app has the session key, and every message is delivered once and in order. Then
the app reads the answer to the ticket under nonce one, and in each of fewer than `2 ^ 160` rounds the
lock accepts and reads the request under the nonce it was encrypted with, the app accepts and reads the
answer under its nonce, and after the answer both session nonces are equal. -/
theorem stays_in_step (box : Secretbox) (contract : box.Contract) (sessionKey : Key) (app : App)
    (l : Lock) (opening : Opening) (rounds : List Round) (waiting : l.state = .ticket)
    (fresh : isValidTicketNonce (ticketNonce l.msgBuf.data) l.masterNonceEeprom = true)
    (opens : ticketKey box l.masterKeyEeprom l.msgBuf.data = some sessionKey)
    (opensInOrder : opening.InOrder box ((app.setSessionKey sessionKey).onDescriptorWrite, l))
    (few : rounds.length < 2 ^ 160)
    (inOrder : AllInOrder box rounds
      (opening.turn box ((app.setSessionKey sessionKey).onDescriptorWrite, l)).state) :
    let opened := opening.turn box ((app.setSessionKey sessionKey).onDescriptorWrite, l)
    Opened sessionKey opened ∧ AllAgreed box sessionKey rounds opened.state := by
  obtain ⟨opened, inStep⟩ := opening_in_step contract app waiting fresh opens opensInOrder
  refine ⟨opened, all_agreed contract inStep inOrder ?_⟩
  calc 2 * (0 + rounds.length) + 1 < 2 * 2 ^ 160 + 1 := by omega
    _ < 128 ^ 24 := by norm_num

/-- The lock once the ticket of the sample session has arrived. -/
def sampleWaiting : Lock :=
  (mainRun keyTag (pass (.evtConnectionStatus 5) :: packets (sampleTicket 1).toList)
    (bootLock zeroNonce sampleMasterKey)).state

/-- A pass that answers and the two passes that send the later sections. -/
def sampleAnswering : List Iteration :=
  [quietPass, pass (.rspAttributesWrite 0), pass (.rspAttributesWrite 0)]

/-- The answer to the ticket. -/
def sampleFirst : Opening := ⟨sampleAnswering, []⟩

/-- A request to lock; its answer's last section is padded to 20 bytes. -/
def sampleRound : Round :=
  ⟨.rotateClockwise, packets (sampleMessage 2 1).toList, sampleAnswering, List.replicate 19 0⟩

/-- One round in step. -/
theorem in_step_sample :
    let opened := sampleFirst.turn keyTag
      ((sampleApp.setSessionKey sampleSessionKey).onDescriptorWrite, sampleWaiting)
    AllAgreed keyTag sampleSessionKey [sampleRound] opened.state ∧
      (sampleRound.turn keyTag opened.state).state.2.sessionNonce = nonceOf 3 := by
  have answers : Answers sampleAnswering := ⟨by decide, rfl⟩
  have asked : valuesWritten (appStep keyTag sampleRound.request.input (sampleFirst.turn keyTag
      ((sampleApp.setSessionKey sampleSessionKey).onDescriptorWrite, sampleWaiting)).state.1).events =
      [(sampleMessage 2 1).toList] := by decide +kernel
  have delivers : Delivers (sampleMessage 2 1).toList sampleRound.carry :=
    ⟨by decide +kernel, by decide +kernel, (packets (sampleMessage 2 1).toList).take 2,
      pass (.evtAttributesValue cLockReceive ((sampleMessage 2 1).toList.drop 40)),
      by decide +kernel, by decide +kernel⟩
  have holds := stays_in_step keyTag keyTag_contract sampleSessionKey sampleApp sampleWaiting
    sampleFirst [sampleRound] (by decide +kernel) (by decide +kernel) (by decide +kernel)
    ⟨answers, by decide +kernel⟩ (by decide)
    ⟨⟨fun value member => by
        rw [asked, List.mem_singleton] at member
        rwa [member], answers, by decide +kernel⟩, trivial⟩
  exact ⟨holds.2, by decide +kernel⟩

end Esloq
