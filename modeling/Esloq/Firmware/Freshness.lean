/-
**Only fresh authentic requests move the motor (`process_ticket_msg`, `process_request_msg`).**

* `Permitted` — what the two processors check, as a rule on traces: the EEPROM nonce only rises, a
  ticket is accepted right after its nonce is stored, a request or a response uses the key of the last
  accepted ticket and a nonce above every nonce used in that session, and a rotation directly follows
  the request that asks for it.
* `Tracks` — the invariant that carries it: the EEPROM is what the trace wrote, and in a state that
  expects a request the session key and nonce are those of the trace.
* `loopBody_permitted` — every pass of the main loop follows the rule, with no assumption on the
  cryptography.
* `IdealCrypto` — the assumption under which the rule says more: no forged ticket or request, distinct
  session keys, no request under the last nonce.
* `motor_moves_only_on_fresh_requests` — what follows for every run from power-up.
-/

import Esloq.Firmware.Delivery
import Esloq.Lib.HighWater

namespace Esloq

open Machine

/-! ### The rule on traces -/

/-- Accepted tickets open sessions; requests and responses use nonces. -/
def lockLedger : Ledger Effect Key where
  opens
    | .ticketAccepted _ key => some key
    | _ => none
  uses
    | .requestDecrypted key msg _ => some (key, nonceValue (messageNonce msg))
    | .encrypted key _ nonce _ _ => some (key, nonceValue nonce)
    | _ => none

/-- A ticket the lock acts on. -/
def Effect.acceptedTicket : Effect → Option (Bytes 72 × Key)
  | .ticketAccepted msg key => some (msg, key)
  | _ => none

/-- A request the lock acts on, with the key it authenticates under. -/
def Effect.actedRequest : Effect → Option (Key × Bytes 41)
  | .requestDecrypted key msg _ => some (key, msg)
  | _ => none

/-- The tickets a trace accepts, with the keys they carry. -/
def acceptedTickets (trace : List Effect) : List (Bytes 72 × Key) :=
  trace.filterMap Effect.acceptedTicket

/-- The requests a trace acts on. -/
def actedRequests (trace : List Effect) : List (Key × Bytes 41) :=
  trace.filterMap Effect.actedRequest

/-- The session of the last accepted ticket is under `key`, and all its nonces are below `number`. -/
def InSession (past : List Effect) (key : Key) (number : Nat) : Prop :=
  (∃ ticket, (acceptedTickets past).getLast? = some (ticket, key)) ∧
    ∃ mark, lockLedger.session past = some (key, mark) ∧ mark < number

/-- What the lock answers under a key: a ticket, whose session starts at zero, or a request. -/
def Answered (past : List Effect) (key : Key) (stored : Nonce) : Prop :=
  stored = zeroNonce ∨
    ∃ msg request, .requestDecrypted key msg request ∈ past ∧ messageNonce msg = stored

/-- The rule every effect follows. -/
def Permitted (box : Secretbox) (masterNonce : Nonce) (masterKey : Key) (past : List Effect) :
    Effect → Prop
  | .eepromUpdate nonce => nonceValue (eepromAfter masterNonce past) < nonceValue nonce
  | .ticketAccepted msg key =>
      past.getLast? = some (.eepromUpdate (ticketNonce msg)) ∧ ticketKey box masterKey msg = some key
  | .requestDecrypted key msg request =>
      InSession past key (nonceValue (messageNonce msg)) ∧ messageByte box key msg = some request
  | .encrypted key stored nonce m c =>
      InSession past key (nonceValue nonce) ∧ Answered past key stored ∧
        incrementArray stored = some nonce ∧ cryptoAuthEncrypt box (oneByte m) nonce key = some c
  | .rotate .remote direction =>
      ∃ key msg, past.getLast? = some (.requestDecrypted key msg direction.code)
  | _ => True

/-- An effect the rule says nothing about. -/
def Effect.quiet : Effect → Bool
  | .eepromUpdate _ | .ticketAccepted .. | .requestDecrypted .. | .encrypted ..
  | .rotate .remote _ => false
  | _ => true

/-- An effect that leaves the EEPROM and the session of a trace alone. -/
def Effect.neutral : Effect → Bool
  | .eepromUpdate _ | .ticketAccepted .. | .requestDecrypted .. | .encrypted .. => false
  | _ => true

theorem Effect.neutral_of_quiet {effect : Effect} (quiet : effect.quiet = true) :
    effect.neutral = true := by
  cases effect <;> first | rfl | cases quiet

section Rule

variable {box : Secretbox} {masterNonce : Nonce} {masterKey : Key}

theorem permitted_of_quiet {past : List Effect} {effect : Effect} (quiet : effect.quiet = true) :
    Permitted box masterNonce masterKey past effect := by
  cases effect with
  | rotate origin direction =>
      cases origin with
      | remote => cases quiet
      | button => trivial
  | eepromUpdate | ticketAccepted | requestDecrypted | encrypted => cases quiet
  | _ => trivial

theorem alwaysFrom_permitted_of_quiet : ∀ {past events : List Effect},
    (∀ effect ∈ events, effect.quiet = true) →
    AlwaysFrom (Permitted box masterNonce masterKey) past events
  | _, [], _ => trivial
  | _, effect :: _, quiet => ⟨permitted_of_quiet (quiet effect List.mem_cons_self),
      alwaysFrom_permitted_of_quiet fun other member => quiet other (List.mem_cons_of_mem _ member)⟩

/-- The rule includes that of the ledger. -/
theorem Permitted.rises {past : List Effect} {effect : Effect}
    (permitted : Permitted box masterNonce masterKey past effect) :
    lockLedger.Rises past effect := by
  intro key number uses
  cases effect with
  | requestDecrypted key' msg request =>
      cases uses
      exact ⟨rfl, permitted.1.2⟩
  | encrypted key' stored nonce m c =>
      cases uses
      exact ⟨rfl, permitted.1.2⟩
  | _ => cases uses

end Rule

/-! ### Neutral effects -/

theorem eepromAfter_neutral {nonce : Nonce} : ∀ {events : List Effect},
    (∀ effect ∈ events, effect.neutral = true) → eepromAfter nonce events = nonce
  | [], _ => rfl
  | effect :: rest, neutral => by
      have here := neutral effect List.mem_cons_self
      have later : eepromAfter nonce rest = nonce := eepromAfter_neutral fun other member =>
        neutral other (List.mem_cons_of_mem effect member)
      cases effect with
      | eepromUpdate => cases here
      | _ => exact later

theorem session_neutral {trace : List Effect} : ∀ {events : List Effect},
    (∀ effect ∈ events, effect.neutral = true) →
    lockLedger.session (trace ++ events) = lockLedger.session trace
  | [], _ => by rw [List.append_nil]
  | effect :: rest, neutral => by
      have here := neutral effect List.mem_cons_self
      have later : lockLedger.session (trace ++ [effect] ++ rest) =
          lockLedger.session (trace ++ [effect]) :=
        session_neutral fun other member => neutral other (List.mem_cons_of_mem effect member)
      rw [List.append_assoc] at later
      refine Eq.trans later ?_
      rw [Ledger.session_concat]
      cases effect with
      | ticketAccepted | requestDecrypted | encrypted => cases here
      | _ => rfl

theorem acceptedTickets_append (first second : List Effect) :
    acceptedTickets (first ++ second) = acceptedTickets first ++ acceptedTickets second :=
  List.filterMap_append

theorem acceptedTickets_neutral : ∀ {events : List Effect},
    (∀ effect ∈ events, effect.neutral = true) → acceptedTickets events = []
  | [], _ => rfl
  | effect :: rest, neutral => by
      have here := neutral effect List.mem_cons_self
      have later := acceptedTickets_neutral fun other member =>
        neutral other (List.mem_cons_of_mem effect member)
      cases effect with
      | ticketAccepted => cases here
      | _ => exact later

/-! ### The invariant -/

/-- The lock's session is the one the trace has reached. -/
def SessionIs (past : List Effect) (l : Lock) : Prop :=
  (∃ ticket, (acceptedTickets past).getLast? = some (ticket, l.sessionKey)) ∧
    ∃ mark, lockLedger.session past = some (l.sessionKey, mark) ∧ mark ≤ nonceValue l.sessionNonce

/-- The lock and the trace agree on the EEPROM, and on the session where there is one. -/
structure Tracks (masterNonce : Nonce) (masterKey : Key) (past : List Effect) (l : Lock) : Prop where
  masterNonce : l.masterNonceEeprom = eepromAfter masterNonce past
  masterKey : l.masterKeyEeprom = masterKey
  session : l.state.inSession = true → SessionIs past l

/-- Where the session nonce runs out, a request carried the last nonce. -/
def LastNonceActed (trace : List Effect) (fault : Fault) : Prop :=
  fault = .sessionNonce →
    ∃ key msg request, .requestDecrypted key msg request ∈ trace ∧ messageNonce msg = lastNonce

theorem SessionIs.neutral {past events : List Effect} {l l' : Lock} (session : SessionIs past l)
    (neutral : ∀ effect ∈ events, effect.neutral = true) (sameKey : l'.sessionKey = l.sessionKey)
    (raised : nonceValue l.sessionNonce ≤ nonceValue l'.sessionNonce) :
    SessionIs (past ++ events) l' := by
  obtain ⟨⟨ticket, last⟩, mark, current, bounded⟩ := session
  refine ⟨⟨ticket, ?_⟩, mark, ?_, bounded.trans raised⟩
  · rw [acceptedTickets_append, acceptedTickets_neutral neutral, List.append_nil, sameKey, last]
  · rw [session_neutral neutral, sameKey, current]

section Invariant

variable {box : Secretbox} {masterNonce : Nonce} {masterKey : Key}

/-- Quiet effects of a step that leaves the session alone. -/
theorem Tracks.untouched {past events : List Effect} {l l' : Lock}
    (tracks : Tracks masterNonce masterKey past l) (same : Untouched l l')
    (quiet : ∀ effect ∈ events, effect.quiet = true) :
    Tracks masterNonce masterKey (past ++ events) l' := by
  have neutral := fun effect member => Effect.neutral_of_quiet (quiet effect member)
  refine ⟨?_, same.masterKey.trans tracks.masterKey, fun entered => ?_⟩
  · rw [same.masterNonce, tracks.masterNonce, eepromAfter_append, eepromAfter_neutral neutral]
  · exact (tracks.session (same.inSession entered)).neutral neutral same.sessionKey
      (by rw [same.sessionNonce])

/-- A turn that leaves the session alone follows the rule. -/
theorem Tracks.quietTurn {past : List Effect} {l : Lock} {turn : LockTurn}
    (tracks : Tracks masterNonce masterKey past l) (same : Untouched l turn.state)
    (quiet : ∀ effect ∈ turn.events, effect.quiet = true)
    (fault : ∀ fault, turn.fault = some fault → fault = .msgBuf) :
    turn.Holds (Tracks masterNonce masterKey) (Permitted box masterNonce masterKey)
      LastNonceActed past where
  emits := alwaysFrom_permitted_of_quiet quiet
  keeps _ := tracks.untouched same quiet
  stops found faulted exhausted := by
    rw [fault found faulted] at exhausted
    cases exhausted

/-- The shared end of the two processors: the session nonce rises and the response is encrypted under
it. -/
theorem respond_holds {past effects : List Effect} {state : State} {m : UInt8} {l : Lock}
    (emits : AlwaysFrom (Permitted box masterNonce masterKey) past effects)
    (eeprom : l.masterNonceEeprom = eepromAfter masterNonce (past ++ effects))
    (key : l.masterKeyEeprom = masterKey) (session : SessionIs (past ++ effects) l)
    (answered : Answered (past ++ effects) l.sessionKey l.sessionNonce)
    (exhausted : l.sessionNonce = lastNonce → LastNonceActed (past ++ effects) .sessionNonce) :
    (respond box state m l effects).2.Holds (Tracks masterNonce masterKey)
      (Permitted box masterNonce masterKey) LastNonceActed past := by
  rcases respond_cases box l state m effects with
    ⟨last, same⟩ | ⟨next, raised, same | ⟨c, encrypted, same⟩⟩
  · rw [same]
    refine ⟨emits, fun ok => (by cases ok), fun fault faulted => ?_⟩
    cases faulted
    exact exhausted last
  · rw [same]
    have quiet : ∀ effect ∈ [Effect.returned 3], effect.quiet = true := by simp [Effect.quiet]
    have neutral := fun effect member => Effect.neutral_of_quiet (quiet effect member)
    have above : nonceValue next = nonceValue l.sessionNonce + 1 := value_incrementArray raised
    refine .emit ((alwaysFrom_append _ _ _ _).mpr ⟨emits, alwaysFrom_permitted_of_quiet quiet⟩) ?_
    rw [← List.append_assoc]
    have raise : nonceValue l.sessionNonce ≤ nonceValue next := by omega
    refine ⟨?_, key, fun _ => session.neutral neutral rfl raise⟩
    rw [eepromAfter_append, eepromAfter_neutral neutral]
    exact eeprom
  · rw [same]
    have above : nonceValue next = nonceValue l.sessionNonce + 1 := value_incrementArray raised
    obtain ⟨⟨ticket, accepted⟩, mark, current, bounded⟩ := session
    have quiet : ∀ effect ∈ [Effect.resetMsgBuffer, sendResponse (message next c), .returned 0],
        effect.quiet = true := by simp [Effect.quiet, sendResponse]
    have neutral := fun effect member => Effect.neutral_of_quiet (quiet effect member)
    have spoken : SessionIs (past ++ effects ++ [.encrypted l.sessionKey l.sessionNonce next m c])
        { resetMsgBuffer l with
          state := state, sessionNonce := next, attWriteBuffer := ⟨0, message next c⟩ } := by
      refine ⟨⟨ticket, ?_⟩, nonceValue next, ?_, Nat.le_refl _⟩
      · rw [acceptedTickets_append]
        exact (congrArg List.getLast? (List.append_nil _)).trans accepted
      · rw [Ledger.session_concat]
        rfl
    have events : effects ++ [.encrypted l.sessionKey l.sessionNonce next m c, .resetMsgBuffer,
        sendResponse (message next c), .returned 0] =
        effects ++ [.encrypted l.sessionKey l.sessionNonce next m c] ++
          [.resetMsgBuffer, sendResponse (message next c), .returned 0] := by simp
    rw [events]
    refine .emit ?_ ?_
    · rw [alwaysFrom_append, alwaysFrom_append]
      refine ⟨⟨emits, ⟨⟨⟨ticket, accepted⟩, mark, current, ?_⟩, answered, raised, encrypted⟩,
        trivial⟩, alwaysFrom_permitted_of_quiet quiet⟩
      omega
    · rw [← List.append_assoc, ← List.append_assoc]
      refine ⟨?_, key, fun _ => spoken.neutral neutral rfl (Nat.le_refl _)⟩
      rw [eepromAfter_append, eepromAfter_neutral neutral, eepromAfter_append]
      exact eeprom

theorem processTicketMsg_holds {past : List Effect} {l : Lock} (lowBattery : Bool)
    (tracks : Tracks masterNonce masterKey past l) (waiting : l.state = .ticket) :
    (processTicketMsg box lowBattery l).2.Holds (Tracks masterNonce masterKey)
      (Permitted box masterNonce masterKey) LastNonceActed past := by
  rcases processTicketMsg_cases box lowBattery l with
    ⟨-, same⟩ | ⟨valid, ⟨-, same⟩ | ⟨key, opened, same⟩⟩
  · rw [same]
    exact tracks.quietTurn ⟨rfl, rfl, rfl, rfl, id⟩ (by simp [Turn.emit, Effect.quiet])
      fun fault faulted => by cases faulted
  · rw [same]
    rw [isValidTicketNonce_iff, tracks.masterNonce] at valid
    have kept : eepromAfter masterNonce (past ++ [.ticketMsg l.msgBuf.data]) =
        eepromAfter masterNonce past := by rw [eepromAfter_append]; rfl
    refine .emit ⟨trivial, ?_, trivial, trivial⟩ ⟨?_, tracks.masterKey, fun entered => ?_⟩
    · rwa [Permitted, kept]
    · rw [eepromAfter_append]
      rfl
    · have inside : l.state.inSession = true := entered
      rw [waiting] at inside
      cases inside
  · rw [same]
    rw [isValidTicketNonce_iff, tracks.masterNonce] at valid
    rw [tracks.masterKey] at opened
    have kept : eepromAfter masterNonce (past ++ [.ticketMsg l.msgBuf.data]) =
        eepromAfter masterNonce past := by rw [eepromAfter_append]; rfl
    refine respond_holds ⟨trivial, ?_, ⟨?_, opened⟩, trivial⟩ ?_ tracks.masterKey
      ⟨⟨l.msgBuf.data, ?_⟩, 0, ?_, Nat.zero_le _⟩ (Or.inl rfl) fun last => ?_
    · rwa [Permitted, kept]
    · rw [List.getLast?_append]
      rfl
    · rw [eepromAfter_append]
      rfl
    · rw [acceptedTickets_append, List.getLast?_append]
      rfl
    · rw [Ledger.session_append]
      rfl
    · exact absurd last zeroNonce_ne_lastNonce

theorem processRequestMsg_holds {past : List Effect} {l : Lock}
    (tracks : Tracks masterNonce masterKey past l) (waiting : l.state = .request) :
    (processRequestMsg box l).2.Holds (Tracks masterNonce masterKey)
      (Permitted box masterNonce masterKey) LastNonceActed past := by
  have session := tracks.session (by rw [waiting]; rfl)
  rcases processRequestMsg_cases box l with
    ⟨-, same⟩ | ⟨valid, ⟨-, same⟩ | ⟨request, opened, same⟩⟩
  · rw [same]
    exact tracks.quietTurn ⟨rfl, rfl, rfl, rfl, fun _ => by rw [waiting]; rfl⟩
      (by simp [Turn.emit, Effect.quiet]) fun fault faulted => by cases faulted
  · rw [same]
    rw [isValidSessionNonce_iff] at valid
    have quiet : ∀ effect ∈ [Effect.requestMsg (bufferedRequest l), .returned 2],
        effect.quiet = true := by simp [Effect.quiet]
    have neutral := fun effect member => Effect.neutral_of_quiet (quiet effect member)
    refine .emit (alwaysFrom_permitted_of_quiet quiet) ⟨?_, tracks.masterKey, fun _ => ?_⟩
    · rw [eepromAfter_append, eepromAfter_neutral neutral]
      exact tracks.masterNonce
    · exact session.neutral neutral rfl valid.le
  · rw [same]
    rw [isValidSessionNonce_iff] at valid
    obtain ⟨⟨ticket, accepted⟩, mark, current, bounded⟩ := session
    have neutral : ∀ effect ∈ ((requestedRotation request).map (Effect.rotate .remote)).toList,
        effect.neutral = true := by
      intro effect member
      obtain ⟨direction, -, rfl⟩ := mem_requestedRotation member
      rfl
    have before : ∀ effect ∈ [Effect.requestMsg (bufferedRequest l)], effect.neutral = true := by
      simp [Effect.neutral]
    have acted : SessionIs (past ++ [.requestMsg (bufferedRequest l),
        .requestDecrypted l.sessionKey (bufferedRequest l) request])
        { l with state := .requestW, sessionNonce := messageNonce (bufferedRequest l) } := by
      refine ⟨⟨ticket, ?_⟩, _, ?_, Nat.le_refl _⟩
      · rw [acceptedTickets_append]
        exact (congrArg List.getLast? (List.append_nil _)).trans accepted
      · rw [Ledger.session_append]
        rfl
    refine respond_holds ?_ ?_ tracks.masterKey ?_
      (Or.inr ⟨bufferedRequest l, request, by simp, rfl⟩) fun last _ => ?_
    · rw [alwaysFrom_append]
      refine ⟨⟨trivial, ⟨⟨⟨ticket, ?_⟩, mark, ?_, ?_⟩, opened⟩, trivial⟩, ?_⟩
      · rw [acceptedTickets_append, acceptedTickets_neutral before, List.append_nil, accepted]
      · rw [session_neutral before, current]
      · exact lt_of_le_of_lt bounded valid
      · -- the rotation, if the byte names one, directly follows the request
        cases named : requestedRotation request with
        | none => trivial
        | some direction =>
            refine ⟨⟨l.sessionKey, bufferedRequest l, ?_⟩, trivial⟩
            rw [List.getLast?_append, requestedRotation_eq_some named]
            rfl
    · rw [eepromAfter_append, eepromAfter_append, eepromAfter_neutral neutral]
      exact tracks.masterNonce
    · rw [← List.append_assoc]
      exact acted.neutral neutral rfl (Nat.le_refl _)
    · exact ⟨l.sessionKey, bufferedRequest l, request, by simp, last⟩

/-! ### Every pass follows the rule -/

/-- A command is quiet, and a change of the state to one at rest ends the session. -/
theorem Tracks.command {past : List Effect} {l : Lock} {state : State} {command : BleCmd}
    (tracks : Tracks masterNonce masterKey past l) (resting : state.resting = true) :
    (Turn.emit { l with state := state } [.cmd command] : LockTurn).Holds
      (Tracks masterNonce masterKey) (Permitted box masterNonce masterKey) LastNonceActed past := by
  refine tracks.quietTurn ⟨rfl, rfl, rfl, rfl, fun entered => ?_⟩ (by simp [Turn.emit, Effect.quiet])
    fun fault faulted => by cases faulted
  have inside : state.inSession = true := entered
  rw [State.inSession_of_resting resting] at inside
  cases inside

theorem afterTicketMsg_permitted (code : UInt8) :
    Sound (Tracks masterNonce masterKey) (Permitted box masterNonce masterKey) LastNonceActed
      (afterTicketMsg code) := by
  intro past l tracks
  unfold afterTicketMsg
  split
  · exact tracks.quietTurn ⟨rfl, rfl, rfl, rfl, fun entered => by cases entered⟩
      (by simp [Turn.emit, Effect.quiet]) fun fault faulted => by cases faulted
  · exact .pure tracks

theorem afterRequestMsg_permitted (code : UInt8) :
    Sound (Tracks masterNonce masterKey) (Permitted box masterNonce masterKey) LastNonceActed
      (afterRequestMsg code) := by
  intro past l tracks
  unfold afterRequestMsg
  split
  · exact tracks.quietTurn ⟨rfl, rfl, rfl, rfl, id⟩ (by simp [Turn.emit, Effect.quiet])
      fun fault faulted => by cases faulted
  · exact .pure tracks

theorem fsmProcess_permitted (lowBattery : Bool) :
    Sound (Tracks masterNonce masterKey) (Permitted box masterNonce masterKey) LastNonceActed
      (fsmProcess box lowBattery) := by
  intro past l tracks
  rcases fsmProcess_cases box lowBattery l with
    ⟨waiting, same⟩ | ⟨waiting, same⟩ | ⟨-, same⟩ | ⟨-, state, command, resting, same⟩ |
      ⟨-, -, -, same⟩
  · rw [same]
    exact (processTicketMsg_holds lowBattery tracks waiting).andThen (afterTicketMsg_permitted _)
  · rw [same]
    exact (processRequestMsg_holds tracks waiting).andThen (afterRequestMsg_permitted _)
  · rw [same]
    exact tracks.quietTurn ⟨rfl, rfl, rfl, rfl, fun entered => by cases entered⟩
      (by simp [Turn.emit, Effect.quiet, setAdvParameters]) fun fault faulted => by cases faulted
  · rw [same]
    exact tracks.command resting
  · rw [same]
    exact .pure tracks

theorem processButton_permitted (press : Option Rotation) :
    Sound (Tracks masterNonce masterKey) (Permitted box masterNonce masterKey) LastNonceActed
      (processButton press) := by
  intro past l tracks
  unfold processButton
  split
  · exact tracks.quietTurn ⟨rfl, rfl, rfl, rfl, id⟩ (by simp [Turn.emit, Effect.quiet])
      fun fault faulted => by cases faulted
  · exact .pure tracks

/-- After a reset there is no session. -/
theorem Tracks.reset {past : List Effect} {l : Lock}
    (tracks : Tracks masterNonce masterKey past l) (done : List Effect) :
    Tracks masterNonce masterKey (past ++ (done ++ [.softReset])) (powerUp (writeBack l done)) := by
  refine ⟨?_, tracks.masterKey, fun entered => by cases entered⟩
  rw [eepromAfter_append, eepromAfter_append, ← tracks.masterNonce]
  rfl

theorem processPacket_permitted (received : Received) (press : Option Rotation) :
    Sound (Tracks masterNonce masterKey) (Permitted box masterNonce masterKey) LastNonceActed
      (processPacket received press) := by
  cases received with
  | timeout => exact processButton_permitted press
  | msg msg =>
      refine Sound.andThen (fun past l tracks => ?_) (processButton_permitted press)
      refine tracks.quietTurn (bleHandler_untouched msg l) (fun effect member => ?_)
        fun fault faulted => bleHandler_fault faulted
      rcases bleHandler_event member with ⟨command, rfl⟩ | ⟨value, rfl⟩ <;> rfl
  | error => exact fun past l tracks => .emit ⟨trivial, trivial⟩ (tracks.reset [])

/-- Every pass of the main loop follows the rule. -/
theorem loopBody_permitted (it : Iteration) :
    Sound (Tracks masterNonce masterKey) (Permitted box masterNonce masterKey) LastNonceActed
      (loopBody box it) :=
  loopBody_sound fsmProcess_permitted processPacket_permitted
    (fun _ past _ tracks begun =>
      ⟨(alwaysFrom_append _ past _ _).mpr ⟨begun, trivial, trivial⟩, tracks.reset _⟩) it

theorem tracks_bootLock :
    Tracks masterNonce masterKey [] (bootLock masterNonce masterKey) :=
  ⟨rfl, rfl, fun entered => by cases entered⟩

/-- Every run from power-up follows the rule. -/
theorem mainRun_permitted (box : Secretbox) (masterNonce : Nonce) (masterKey : Key)
    (its : List Iteration) :
    (mainRun box its (bootLock masterNonce masterKey)).Holds (Tracks masterNonce masterKey)
      (Permitted box masterNonce masterKey) LastNonceActed [] :=
  Sound.run (fun it _ => loopBody_permitted it) [] _ tracks_bootLock

end Invariant

/-! ### What the rule means for tickets -/

section Tickets

variable {box : Secretbox} {masterNonce : Nonce} {masterKey : Key}

/-- The number a ticket is ordered by. -/
def ticketValue (ticket : Bytes 72 × Key) : Nat := nonceValue (ticketNonce ticket.1)

/-- The tickets a trace has accepted, against the nonce in the EEPROM. -/
structure TicketsRise (masterNonce : Nonce) (trace : List Effect) : Prop where
  ordered : (acceptedTickets trace).Pairwise fun first second => ticketValue first < ticketValue second
  bounded : ∀ ticket ∈ acceptedTickets trace,
    ticketValue ticket ≤ nonceValue (eepromAfter masterNonce trace)
  stored : ∀ nonce, trace.getLast? = some (.eepromUpdate nonce) →
    ∀ ticket ∈ acceptedTickets trace, ticketValue ticket < nonceValue nonce

theorem mem_acceptedTickets {trace : List Effect} {msg : Bytes 72} {key : Key} :
    (msg, key) ∈ acceptedTickets trace ↔ .ticketAccepted msg key ∈ trace := by
  rw [acceptedTickets, List.mem_filterMap]
  constructor
  · rintro ⟨effect, member, accepted⟩
    cases effect <;> cases accepted
    exact member
  · exact fun member => ⟨_, member, rfl⟩

theorem mem_actedRequests {trace : List Effect} {key : Key} {msg : Bytes 41} :
    (key, msg) ∈ actedRequests trace ↔ ∃ request, .requestDecrypted key msg request ∈ trace := by
  rw [actedRequests, List.mem_filterMap]
  constructor
  · rintro ⟨effect, member, acted⟩
    cases effect <;> cases acted
    exact ⟨_, member⟩
  · rintro ⟨request, member⟩
    exact ⟨_, member, rfl⟩

section Step

variable {trace : List Effect} {effect : Effect}

/-- An effect that neither stores a nonce nor accepts a ticket. -/
theorem TicketsRise.other (rise : TicketsRise masterNonce trace)
    (stores : ∀ nonce, effect ≠ .eepromUpdate nonce)
    (accepts : ∀ msg key, effect ≠ .ticketAccepted msg key) :
    TicketsRise masterNonce (trace ++ [effect]) := by
  have same : acceptedTickets (trace ++ [effect]) = acceptedTickets trace := by
    rw [acceptedTickets_append]
    cases effect with
    | ticketAccepted msg key => exact absurd rfl (accepts msg key)
    | _ => exact List.append_nil _
  have kept : eepromAfter masterNonce (trace ++ [effect]) = eepromAfter masterNonce trace := by
    rw [eepromAfter_append]
    cases effect with
    | eepromUpdate nonce => exact absurd rfl (stores nonce)
    | _ => rfl
  refine ⟨by rw [same]; exact rise.ordered, by rw [same, kept]; exact rise.bounded, ?_⟩
  intro nonce isLast
  rw [List.getLast?_concat, Option.some.injEq] at isLast
  exact absurd isLast (stores nonce)

/-- A nonce is stored above those of the tickets so far. -/
theorem TicketsRise.stores (rise : TicketsRise masterNonce trace) {nonce : Nonce}
    (permitted : Permitted box masterNonce masterKey trace (.eepromUpdate nonce)) :
    TicketsRise masterNonce (trace ++ [.eepromUpdate nonce]) := by
  have same : acceptedTickets (trace ++ [.eepromUpdate nonce]) = acceptedTickets trace := by
    rw [acceptedTickets_append]
    exact List.append_nil _
  have kept : eepromAfter masterNonce (trace ++ [.eepromUpdate nonce]) = nonce := by
    rw [eepromAfter_append]
    rfl
  have below : ∀ ticket ∈ acceptedTickets trace, ticketValue ticket < nonceValue nonce :=
    fun ticket member => lt_of_le_of_lt (rise.bounded ticket member) permitted
  refine ⟨by rw [same]; exact rise.ordered, ?_, ?_⟩
  · rw [same, kept]
    exact fun ticket member => (below ticket member).le
  · rw [same]
    intro nonce' isLast
    rw [List.getLast?_concat] at isLast
    cases isLast
    exact below

/-- A ticket is accepted right after its nonce has been stored. -/
theorem TicketsRise.accepts (rise : TicketsRise masterNonce trace) {msg : Bytes 72} {key : Key}
    (permitted : Permitted box masterNonce masterKey trace (.ticketAccepted msg key)) :
    TicketsRise masterNonce (trace ++ [.ticketAccepted msg key]) := by
  obtain ⟨previous, opened⟩ := permitted
  have below := rise.stored _ previous
  have kept : eepromAfter masterNonce (trace ++ [.ticketAccepted msg key]) = ticketNonce msg := by
    obtain ⟨before, rfl⟩ := List.getLast?_eq_some_iff.mp previous
    rw [eepromAfter_append, eepromAfter_append]
    rfl
  have grown : acceptedTickets (trace ++ [.ticketAccepted msg key]) =
      acceptedTickets trace ++ [(msg, key)] := acceptedTickets_append _ _
  refine ⟨?_, ?_, ?_⟩
  · rw [grown, List.pairwise_append]
    exact ⟨rise.ordered, List.pairwise_singleton _ _,
      fun ticket member => List.forall_mem_singleton.mpr (below ticket member)⟩
  · rw [grown, kept]
    refine List.forall_mem_append.mpr ⟨fun ticket member => (below ticket member).le, ?_⟩
    exact List.forall_mem_singleton.mpr (Nat.le_refl _)
  · intro nonce isLast
    rw [List.getLast?_concat] at isLast
    cases isLast

theorem TicketsRise.concat (rise : TicketsRise masterNonce trace)
    (permitted : Permitted box masterNonce masterKey trace effect) :
    TicketsRise masterNonce (trace ++ [effect]) := by
  cases effect with
  | eepromUpdate nonce => exact rise.stores permitted
  | ticketAccepted msg key => exact rise.accepts permitted
  | _ => exact rise.other (fun _ same => by cases same) fun _ _ same => by cases same

end Step

/-- The nonces of the accepted tickets strictly increase. -/
theorem ticketsRise {trace : List Effect}
    (permitted : Always (Permitted box masterNonce masterKey) trace) :
    TicketsRise masterNonce trace := by
  induction trace using List.reverseRecOn with
  | nil => exact ⟨List.Pairwise.nil, by simp [acceptedTickets], by simp⟩
  | append_singleton trace effect ih =>
      rw [always_append, alwaysFrom_cons] at permitted
      exact (ih permitted.1).concat permitted.2.1

/-- An accepted ticket carries its key. -/
theorem ticketKey_of_accepted {trace : List Effect} {msg : Bytes 72} {key : Key}
    (permitted : Always (Permitted box masterNonce masterKey) trace)
    (member : .ticketAccepted msg key ∈ trace) : ticketKey box masterKey msg = some key := by
  obtain ⟨past, rest, split⟩ := List.append_of_mem member
  exact (permitted.at split).2

end Tickets

/-! ### What the rule means under ideal cryptography -/

/-- **Ideal tickets**, for the trace of a run: none is accepted that the server did not issue, and
issued tickets carry distinct keys. -/
structure IdealTickets (box : Secretbox) (masterKey : Key) (issued : Bytes 72 → Prop)
    (trace : List Effect) : Prop where
  tickets : ∀ msg key, .ticketAccepted msg key ∈ trace → issued msg
  distinctKeys : ∀ first second key, issued first → issued second →
    ticketKey box masterKey first = some key → ticketKey box masterKey second = some key →
    first = second

/-- **Ideal authenticated encryption**, for the trace of a run: ideal tickets, no request is acted on
that another holder of its key did not send and the lock did not encrypt, and nobody sends under the
last nonce. -/
structure IdealCrypto (box : Secretbox) (masterKey : Key) (issued : Bytes 72 → Prop)
    (sent : Key → Bytes 41 → Prop) (trace : List Effect) : Prop
    extends IdealTickets box masterKey issued trace where
  requests : ∀ key msg request, .requestDecrypted key msg request ∈ trace →
    sent key msg ∨
      ∃ stored m, .encrypted key stored (messageNonce msg) m (messageCipher msg) ∈ trace
  notLast : ∀ key msg, sent key msg → messageNonce msg ≠ lastNonce

section Ideal

variable {box : Secretbox} {masterNonce : Nonce} {masterKey : Key} {issued : Bytes 72 → Prop}
  {sent : Key → Bytes 41 → Prop} {trace : List Effect}

/-- No session key is installed twice. -/
theorem opened_nodup (permitted : Always (Permitted box masterNonce masterKey) trace)
    (ideal : IdealTickets box masterKey issued trace) : (lockLedger.opened trace).Nodup := by
  have keys : lockLedger.opened trace = (acceptedTickets trace).map Prod.snd := by
    rw [acceptedTickets, List.map_filterMap]
    refine List.filterMap_congr fun effect _ => ?_
    cases effect <;> rfl
  rw [keys, List.Nodup, List.pairwise_map]
  refine (ticketsRise permitted).ordered.imp_of_mem ?_
  rintro ⟨first, key⟩ ⟨second, key'⟩ memberFirst memberSecond less same
  rw [mem_acceptedTickets] at memberFirst memberSecond
  dsimp only at same
  subst same
  have equal := ideal.distinctKeys first second key (ideal.tickets _ _ memberFirst)
    (ideal.tickets _ _ memberSecond) (ticketKey_of_accepted permitted memberFirst)
    (ticketKey_of_accepted permitted memberSecond)
  subst equal
  exact lt_irrefl _ less

/-- Across the whole trace, the nonces used under one key strictly increase. -/
theorem nonces_increase (permitted : Always (Permitted box masterNonce masterKey) trace)
    (ideal : IdealTickets box masterKey issued trace) : trace.Pairwise lockLedger.Before :=
  Ledger.ordered (alwaysFrom_mono (fun _ _ => Permitted.rises) permitted)
    (opened_nodup permitted ideal)

/-- Two events that use one nonce under one key are the same event. -/
theorem eq_of_nonce (permitted : Always (Permitted box masterNonce masterKey) trace)
    (ideal : IdealTickets box masterKey issued trace) {first second : Effect} {key : Key}
    {number : Nat} (memberFirst : first ∈ trace) (memberSecond : second ∈ trace)
    (usesFirst : lockLedger.uses first = some (key, number))
    (usesSecond : lockLedger.uses second = some (key, number)) : first = second :=
  Ledger.eq_of_uses (nonces_increase permitted ideal) memberFirst memberSecond usesFirst usesSecond

/-- What the lock acts on as a request it did not encrypt itself. -/
theorem not_encrypted (permitted : Always (Permitted box masterNonce masterKey) trace)
    (ideal : IdealTickets box masterKey issued trace) {key : Key} {msg : Bytes 41} {stored : Nonce}
    {request m : UInt8} {c : Bytes 17} (acted : .requestDecrypted key msg request ∈ trace) :
    .encrypted key stored (messageNonce msg) m c ∉ trace := fun encrypted => by
  have same := eq_of_nonce permitted ideal acted encrypted rfl rfl
  cases same

/-- It was sent by another holder of the key. -/
theorem sent_of_acted (permitted : Always (Permitted box masterNonce masterKey) trace)
    (ideal : IdealCrypto box masterKey issued sent trace) {key : Key} {msg : Bytes 41}
    {request : UInt8} (acted : .requestDecrypted key msg request ∈ trace) : sent key msg := by
  rcases ideal.requests key msg request acted with sent | ⟨stored, m, encrypted⟩
  · exact sent
  · exact absurd encrypted (not_encrypted permitted ideal.toIdealTickets acted)

theorem acceptedTickets_nodup (permitted : Always (Permitted box masterNonce masterKey) trace) :
    ((acceptedTickets trace).map Prod.fst).Nodup := by
  rw [List.Nodup, List.pairwise_map]
  refine (ticketsRise permitted).ordered.imp ?_
  rintro ⟨first, key⟩ ⟨second, key'⟩ less same
  dsimp only at same
  subst same
  exact lt_irrefl _ less

theorem actedRequests_nodup (permitted : Always (Permitted box masterNonce masterKey) trace)
    (ideal : IdealTickets box masterKey issued trace) : (actedRequests trace).Nodup := by
  refine List.pairwise_filterMap.mpr ((nonces_increase permitted ideal).imp ?_)
  rintro first second before ⟨key, msg⟩ actedFirst ⟨key', msg'⟩ actedSecond same
  cases same
  cases first <;> cases actedFirst
  cases second <;> cases actedSecond
  exact lt_irrefl _ (before key _ _ rfl rfl)

/-- A remote rotation directly follows the request it serves, which authenticates under the key of
the last accepted ticket. -/
theorem rotation_served (permitted : Always (Permitted box masterNonce masterKey) trace)
    (ideal : IdealCrypto box masterKey issued sent trace) {past rest : List Effect}
    {direction : Rotation} (split : trace = past ++ .rotate .remote direction :: rest) :
    ∃ before key msg ticket,
      past = before ++ [.requestDecrypted key msg direction.code] ∧
      (acceptedTickets before).getLast? = some (ticket, key) ∧
      ticketKey box masterKey ticket = some key ∧
      messageByte box key msg = some direction.code ∧ sent key msg := by
  obtain ⟨key, msg, last⟩ := permitted.at split
  obtain ⟨before, rfl⟩ := List.getLast?_eq_some_iff.mp last
  rw [List.append_assoc, List.singleton_append] at split
  obtain ⟨⟨⟨ticket, accepted⟩, -⟩, opened⟩ := permitted.at split
  have ticketMember := mem_acceptedTickets.mp (List.mem_of_getLast? accepted)
  have acted : .requestDecrypted key msg direction.code ∈ trace := by
    rw [split]
    simp
  refine ⟨before, key, msg, ticket, rfl, accepted, ticketKey_of_accepted permitted ?_, opened,
    sent_of_acted permitted ideal acted⟩
  rw [split]
  exact List.mem_append_left _ ticketMember

end Ideal

/-! ### Runs from power-up -/

/-- **Only fresh authentic requests move the motor.** In every run from power-up, whatever the module
delivers and wherever resets and power cycles cut the passes, up to the first write past `msg_buf`:
every rotation a request starts directly follows a request that another holder of the session key
sent, that authenticates under the key of the last accepted ticket and that names the direction; no
ticket and no request is acted on twice; and nothing the lock encrypted is acted on as a request. -/
theorem motor_moves_only_on_fresh_requests (box : Secretbox) (masterNonce : Nonce) (masterKey : Key)
    (its : List Iteration) (issued : Bytes 72 → Prop) (sent : Key → Bytes 41 → Prop)
    (ideal : IdealCrypto box masterKey issued sent
      (mainRun box its (bootLock masterNonce masterKey)).events) :
    let turn := mainRun box its (bootLock masterNonce masterKey)
    (turn.fault = none ∨ turn.fault = some .msgBuf) ∧
    (∀ past rest direction, turn.events = past ++ .rotate .remote direction :: rest →
      ∃ before key msg ticket,
        past = before ++ [.requestDecrypted key msg direction.code] ∧
        (acceptedTickets before).getLast? = some (ticket, key) ∧
        ticketKey box masterKey ticket = some key ∧
        messageByte box key msg = some direction.code ∧ sent key msg) ∧
    ((acceptedTickets turn.events).map Prod.fst).Nodup ∧
    (actedRequests turn.events).Nodup ∧
    ∀ key msg request stored m, .requestDecrypted key msg request ∈ turn.events →
      .encrypted key stored (messageNonce msg) m (messageCipher msg) ∉ turn.events := by
  have holds := mainRun_permitted box masterNonce masterKey its
  have permitted : Always (Permitted box masterNonce masterKey) _ := holds.emits
  refine ⟨?_, fun past rest direction split => rotation_served permitted ideal split,
    acceptedTickets_nodup permitted, actedRequests_nodup permitted ideal.toIdealTickets,
    fun key msg request stored m acted => not_encrypted permitted ideal.toIdealTickets acted⟩
  cases faulted : (mainRun box its (bootLock masterNonce masterKey)).fault with
  | none => exact Or.inl rfl
  | some fault =>
      cases fault with
      | msgBuf => exact Or.inr rfl
      | sessionNonce =>
          obtain ⟨key, msg, request, acted, last⟩ := holds.stops _ faulted rfl
          rw [List.nil_append] at acted
          exact absurd last (ideal.notLast key msg (sent_of_acted permitted ideal acted))

/-- A connection, a ticket and a request to lock. -/
def sampleSession : List Iteration :=
  pass (.evtConnectionStatus 5) :: packets (sampleTicket 1).toList ++
    quietPass :: packets (sampleMessage 2 1).toList ++ [quietPass]

/-- In that session the motor turns once, and the assumptions hold. -/
theorem motor_moves_once_in_sample :
    let turn := mainRun keyTag sampleSession (bootLock zeroNonce sampleMasterKey)
    actedRequests turn.events = [(sampleSessionKey, sampleMessage 2 1)] ∧
    .rotate .remote .cw ∈ turn.events ∧
    (turn.fault = none ∨ turn.fault = some .msgBuf) ∧ (actedRequests turn.events).Nodup := by
  have tickets : acceptedTickets (mainRun keyTag sampleSession
      (bootLock zeroNonce sampleMasterKey)).events = [(sampleTicket 1, sampleSessionKey)] := by
    decide +kernel
  have acted : actedRequests (mainRun keyTag sampleSession
      (bootLock zeroNonce sampleMasterKey)).events = [(sampleSessionKey, sampleMessage 2 1)] := by
    decide +kernel
  have holds := motor_moves_only_on_fresh_requests keyTag zeroNonce sampleMasterKey sampleSession
    (· = sampleTicket 1) (fun key msg => (key, msg) = (sampleSessionKey, sampleMessage 2 1))
    { tickets := fun msg key accepted => by
        rw [← mem_acceptedTickets, tickets, List.mem_singleton] at accepted
        exact congrArg Prod.fst accepted
      distinctKeys := fun _ _ _ first second _ _ => first.trans second.symm
      requests := fun key msg request member => by
        have := mem_actedRequests.mpr ⟨request, member⟩
        rw [acted, List.mem_singleton] at this
        exact Or.inl this
      notLast := fun _ msg sent => by
        obtain rfl : msg = sampleMessage 2 1 := congrArg Prod.snd sent
        decide +kernel }
  exact ⟨acted, by decide +kernel, holds.1, holds.2.2.2.1⟩

end Esloq
