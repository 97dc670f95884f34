/-
**Installing a session key (`LockDataRepositoryImpl.java`, `Cryptography.java`,
`LockControllerImpl.java`).**

* `storeSessionKey` — the key and the ticket of a reply are read, decoded and stored one after the
  other; an exception leaves what has been stored.
* `onReceiveResult` — a reply of the server, and the callbacks behind it: `requestSessionKey` catches a
  `JSONException` and reports success, and the lock controller then sends the ticket.
* `AllOrNothing` — success is reported for the key and the ticket of this reply only, and nothing
  changes otherwise.
* `allOrNothing_iff` — this is so exactly if the reply does not end half-way (`Reply.Halfway`).
-/

import Esloq.App.Service
import Esloq.App.Repository

namespace Esloq

open Machine

/-! ### `Cryptography` -/

/-- The static fields of `Cryptography`; key and ticket are `null` at first. -/
structure Cryptography where
  lockTicket : Option (Bytes 72)
  sessionKey : Option Key
  sessionNonce : Nonce
  deriving DecidableEq

namespace Cryptography

/-- `setLockTicket`; `none` is the `IllegalArgumentException`. -/
def setLockTicket (ticket : List UInt8) (c : Cryptography) : Option Cryptography :=
  if sized : ticket.length = 72 then some { c with lockTicket := some ⟨ticket, sized⟩ } else none

/-- `setSessionKey`. -/
def setSessionKey (key : List UInt8) (c : Cryptography) : Option Cryptography :=
  if sized : key.length = 32 then
    some { c with sessionKey := some ⟨key, sized⟩, sessionNonce := zeroNonce }
  else none

end Cryptography

/-! ### A reply -/

/-- What can be observed of a request for a session key. -/
inductive KeyEvent
  /-- `requestSessionKey` calls back. -/
  | onResult (success : Bool)
  | sendTicket (ticket : Option (Bytes 72))
  | initializationError
  deriving DecidableEq

/-- What a reply leaves, and the exception that gets through. -/
abbrev KeyTurn := Turn Cryptography KeyEvent JavaError

/-- Go on with a value, or stop with an exception. -/
def required {α : Type} (value : Option α) (error : JavaError) (c : Cryptography) (next : α → KeyTurn) :
    KeyTurn :=
  match value with
  | some value => next value
  | none => ⟨c, [], some error⟩

/-- `catch (JSONException e)`. -/
def catchJson (turn : KeyTurn) : KeyTurn := ⟨turn.state, turn.events, turn.fault.filter (· ≠ .json)⟩

/-- What the server answers: an error code, or a text that is a JSON object or not. -/
inductive Reply (J : Type)
  | failed
  | response (jsonResponse : Option J)

section Replies

variable {J : Type} (json : OrgJson J) (decode : String → Option (List UInt8))

/-- The `try` block of `requestSessionKey`; `decode` is `Base64.decode`, which throws an
`IllegalArgumentException`. -/
def storeSessionKey (jsonObject : J) (c : Cryptography) : KeyTurn :=
  required (json.getString jsonObject "sessionKey") .json c fun sessionKeyB64 =>
  required (decode sessionKeyB64) .illegalArgument c fun sessionKey =>
  required (json.getString jsonObject "lockTicket") .json c fun lockTicketB64 =>
  required (decode lockTicketB64) .illegalArgument c fun lockTicket =>
  required (c.setSessionKey sessionKey) .illegalArgument c fun c =>
  required (c.setLockTicket lockTicket) .illegalArgument c fun c =>
  .pure c

/-- The callback of the lock controller in `ACTION_COMMUNICATION_READY`; `sendTicket` reads the ticket. -/
def communicationReady (success : Bool) (c : Cryptography) : KeyTurn :=
  if success then .emit c [.onResult true, .sendTicket c.lockTicket]
  else .emit c [.onResult false, .initializationError]

/-- The callback of `requestSessionKey`: the object where the server reports success, else nothing. -/
def onSessionKeyResult (jsonObject : Option J) (c : Cryptography) : KeyTurn :=
  match jsonObject with
  | some jsonObject => (catchJson (storeSessionKey json decode jsonObject c)).andThen (communicationReady true)
  | none => communicationReady false c

/-- `onReceiveResult` of `postToServer`. -/
def onReceiveResult (reply : Reply J) (c : Cryptography) : KeyTurn :=
  match reply with
  | .failed => onSessionKeyResult json decode none c
  | .response jsonResponse => catchJson <|
      required jsonResponse .json c fun jsonResponse =>
      required (json.getBoolean jsonResponse "success") .json c fun success =>
      if success then onSessionKeyResult json decode (some jsonResponse) c
      else
        required ((json.getJSONObject jsonResponse "error").bind (json.getString · "message")) .json c
          fun _ => onSessionKeyResult json decode none c

/-! ### All of a reply, or nothing -/

/-- The bytes in a field of a reply. -/
def decoded (jsonObject : J) (name : String) : Option (List UInt8) :=
  (json.getString jsonObject name).bind decode

/-- Success is called back only with the key and the ticket of this reply installed and the nonce zeroed;
else nothing has changed; and the ticket is sent only then, as it is installed. -/
structure AllOrNothing (reply : Reply J) (before : Cryptography) (turn : KeyTurn) : Prop where
  installs : .onResult true ∈ turn.events → ∃ jsonObject key ticket,
    reply = .response (some jsonObject) ∧
      decoded json decode jsonObject "sessionKey" = some key.toList ∧
      decoded json decode jsonObject "lockTicket" = some ticket.toList ∧
      turn.state = ⟨some ticket, some key, zeroNonce⟩
  keeps : .onResult true ∉ turn.events → turn.state = before
  sends : ∀ ticket, .sendTicket ticket ∈ turn.events →
    .onResult true ∈ turn.events ∧ ticket = turn.state.lockTicket

/-- The fields of a successful reply let the installation end half-way: the key is missing, or it can be
decoded and the ticket is missing, or it can be installed, which changes something, and the ticket has a
wrong size. -/
def Reply.Halfway (reply : Reply J) (before : Cryptography) : Prop :=
  ∃ jsonObject, reply = .response (some jsonObject) ∧ json.getBoolean jsonObject "success" = some true ∧
    (json.getString jsonObject "sessionKey" = none ∨
      ∃ key, decoded json decode jsonObject "sessionKey" = some key ∧
        (json.getString jsonObject "lockTicket" = none ∨
          ∃ ticket, decoded json decode jsonObject "lockTicket" = some ticket ∧
            key.length = 32 ∧ ticket.length ≠ 72 ∧
            ¬ (before.sessionKey.map List.Vector.toList = some key ∧ before.sessionNonce = zeroNonce)))

end Replies

/-! ### The places where a reply can end -/

section Ends

variable {J : Type} {json : OrgJson J} {decode : String → Option (List UInt8)} {reply : Reply J}
  {jsonObject : J} {before : Cryptography} {turn : KeyTurn}

/-- Nothing is stored and no success is called back. -/
theorem AllOrNothing.quiet (kept : turn.state = before) (failed : .onResult true ∉ turn.events)
    (unsent : ∀ ticket, .sendTicket ticket ∉ turn.events) :
    AllOrNothing json decode reply before turn where
  installs success := absurd success failed
  keeps _ := kept
  sends ticket sent := absurd sent (unsent ticket)

/-- The callback without success. -/
theorem allOrNothing_failed : AllOrNothing json decode reply before (communicationReady false before) :=
  .quiet rfl (fun success => by simp [communicationReady, Turn.emit] at success)
    fun ticket sent => by simp [communicationReady, Turn.emit] at sent

/-- A caught exception: success is called back with nothing stored. -/
theorem success_of_json
    (caught : storeSessionKey json decode jsonObject before = ⟨before, [], some .json⟩) :
    onSessionKeyResult json decode (some jsonObject) before = communicationReady true before := by
  simp only [onSessionKeyResult, caught]
  rfl

/-- An exception that gets through. -/
theorem thrown_of_illegalArgument {after : Cryptography}
    (thrown : storeSessionKey json decode jsonObject before = ⟨after, [], some .illegalArgument⟩) :
    onSessionKeyResult json decode (some jsonObject) before = ⟨after, [], some .illegalArgument⟩ := by
  simp only [onSessionKeyResult, thrown]
  rfl

/-- With an exception that gets through, all or nothing means nothing. -/
theorem allOrNothing_thrown_iff {after : Cryptography} :
    AllOrNothing json decode reply before ⟨after, [], some .illegalArgument⟩ ↔ after = before :=
  ⟨fun good => good.keeps (List.not_mem_nil), fun kept =>
    .quiet kept List.not_mem_nil fun _ => List.not_mem_nil⟩

/-- A success without one of the fields. -/
theorem not_allOrNothing_of_missing {name : String} (field : name = "sessionKey" ∨ name = "lockTicket")
    (missing : json.getString jsonObject name = none) :
    ¬ AllOrNothing json decode (.response (some jsonObject)) before (communicationReady true before) := by
  intro good
  obtain ⟨_, key, ticket, same, hasKey, hasTicket, -⟩ := good.installs List.mem_cons_self
  cases same
  unfold decoded at hasKey hasTicket
  rcases field with rfl | rfl
  · rw [missing] at hasKey
    cases hasKey
  · rw [missing] at hasTicket
    cases hasTicket

/-- Where it stores, `requestSessionKey` lets no `JSONException` through. -/
theorem catchJson_onSessionKeyResult :
    catchJson (onSessionKeyResult json decode (some jsonObject) before) =
      onSessionKeyResult json decode (some jsonObject) before := by
  simp only [onSessionKeyResult]
  obtain ⟨state, events, _ | error⟩ := storeSessionKey json decode jsonObject before
  · rfl
  · cases error <;> rfl

/-- Both are installed. -/
theorem allOrNothing_installed {keyB64 ticketB64 : String} {key : Key} {ticket : Bytes 72}
    (keyText : json.getString jsonObject "sessionKey" = some keyB64)
    (keyBytes : decode keyB64 = some key.toList)
    (ticketText : json.getString jsonObject "lockTicket" = some ticketB64)
    (ticketBytes : decode ticketB64 = some ticket.toList)
    (stored : storeSessionKey json decode jsonObject before = .pure ⟨some ticket, some key, zeroNonce⟩) :
    AllOrNothing json decode (.response (some jsonObject)) before
      (onSessionKeyResult json decode (some jsonObject) before) := by
  have called : onSessionKeyResult json decode (some jsonObject) before =
      .emit ⟨some ticket, some key, zeroNonce⟩ [.onResult true, .sendTicket (some ticket)] := by
    simp only [onSessionKeyResult, stored]
    rfl
  rw [called]
  refine ⟨fun _ => ⟨jsonObject, key, ticket, rfl, ?_, ?_, rfl⟩, ?_, fun sent member => ?_⟩
  · unfold decoded
    rw [keyText, Option.bind_some, keyBytes]
  · unfold decoded
    rw [ticketText, Option.bind_some, ticketBytes]
  · exact fun failed => absurd List.mem_cons_self failed
  · refine ⟨List.mem_cons_self, ?_⟩
    rcases List.mem_cons.mp member with other | last
    · cases other
    · cases List.mem_singleton.mp last
      rfl

/-- A successful reply with both fields, whose key can be decoded. -/
theorem allOrNothing_decoded_iff {keyB64 ticketB64 : String} {key : List UInt8}
    (keyText : json.getString jsonObject "sessionKey" = some keyB64) (keyBytes : decode keyB64 = some key)
    (ticketText : json.getString jsonObject "lockTicket" = some ticketB64) :
    AllOrNothing json decode (.response (some jsonObject)) before
        (onSessionKeyResult json decode (some jsonObject) before) ↔
      ¬ ∃ ticket, decode ticketB64 = some ticket ∧ key.length = 32 ∧ ticket.length ≠ 72 ∧
        ¬ (before.sessionKey.map List.Vector.toList = some key ∧ before.sessionNonce = zeroNonce) := by
  have stored : storeSessionKey json decode jsonObject before =
      required (decode ticketB64) .illegalArgument before fun lockTicket =>
      required (before.setSessionKey key) .illegalArgument before fun c =>
      required (c.setLockTicket lockTicket) .illegalArgument c fun c => .pure c := by
    simp only [storeSessionKey, keyText, keyBytes, ticketText, required]
  cases ticketBytes : decode ticketB64 with
  | none =>
      rw [ticketBytes] at stored
      rw [thrown_of_illegalArgument stored, allOrNothing_thrown_iff]
      exact iff_of_true rfl fun ⟨ticket, has, _⟩ => by cases has
  | some ticket =>
      rw [ticketBytes] at stored
      by_cases keySized : key.length = 32
      · have keySet : before.setSessionKey key = some { before with
            sessionKey := some ⟨key, keySized⟩, sessionNonce := zeroNonce } := dif_pos keySized
        rw [required, keySet] at stored
        by_cases ticketSized : ticket.length = 72
        · refine iff_of_true ?_ fun ⟨other, same, _, wrong, _⟩ =>
            wrong (Option.some.inj same ▸ ticketSized)
          rw [required, Cryptography.setLockTicket, dif_pos ticketSized] at stored
          exact @allOrNothing_installed J json decode jsonObject before keyB64 ticketB64 ⟨key, keySized⟩
            ⟨ticket, ticketSized⟩ keyText keyBytes ticketText ticketBytes stored
        · rw [required, Cryptography.setLockTicket, dif_neg ticketSized] at stored
          rw [thrown_of_illegalArgument stored, allOrNothing_thrown_iff, not_exists]
          have same : (⟨before.lockTicket, some ⟨key, keySized⟩, zeroNonce⟩ : Cryptography) = before ↔
              before.sessionKey.map List.Vector.toList = some key ∧ before.sessionNonce = zeroNonce := by
            obtain ⟨lockTicket, sessionKey, sessionNonce⟩ := before
            constructor
            · intro kept
              cases kept
              exact ⟨rfl, rfl⟩
            · rintro ⟨installed, zero⟩
              obtain ⟨found, rfl, rfl⟩ := Option.map_eq_some_iff.mp installed
              have nonce : sessionNonce = zeroNonce := zero
              rw [nonce]
              rfl
          refine same.trans ⟨fun unchanged other halfway => halfway.2.2.2 unchanged, fun never => ?_⟩
          by_contra changed
          exact never ticket ⟨rfl, keySized, ticketSized, changed⟩
      · have keyUnset : before.setSessionKey key = none := dif_neg keySized
        rw [required, keyUnset] at stored
        rw [thrown_of_illegalArgument stored, allOrNothing_thrown_iff]
        exact iff_of_true rfl fun ⟨_, _, sized, _⟩ => keySized sized

/-- A successful reply. -/
theorem allOrNothing_success_iff (success : json.getBoolean jsonObject "success" = some true) :
    AllOrNothing json decode (.response (some jsonObject)) before
        (onSessionKeyResult json decode (some jsonObject) before) ↔
      ¬ (Reply.response (some jsonObject)).Halfway json decode before := by
  have halfway : (Reply.response (some jsonObject)).Halfway json decode before ↔ _ :=
    ⟨fun ⟨_, same, _, ends⟩ => by cases same; exact ends, fun ends => ⟨jsonObject, rfl, success, ends⟩⟩
  rw [halfway]
  unfold decoded
  cases keyText : json.getString jsonObject "sessionKey" with
  | none =>
      rw [success_of_json (by simp only [storeSessionKey, keyText, required])]
      exact iff_of_false (not_allOrNothing_of_missing (Or.inl rfl) keyText) (not_not.mpr (Or.inl rfl))
  | some keyB64 =>
      rw [Option.bind_some, or_iff_right (Option.some_ne_none keyB64)]
      cases keyBytes : decode keyB64 with
      | none =>
          have thrown : storeSessionKey json decode jsonObject before =
              ⟨before, [], some .illegalArgument⟩ := by
            simp only [storeSessionKey, keyText, keyBytes, required]
          rw [thrown_of_illegalArgument thrown, allOrNothing_thrown_iff]
          exact iff_of_true rfl fun ⟨key, has, _⟩ => by cases has
      | some key =>
          have onlyKey : ∀ {P : List UInt8 → Prop}, (∃ other, some key = some other ∧ P other) ↔ P key :=
            fun {P} => ⟨fun ⟨_, same, holds⟩ => Option.some.inj same ▸ holds, fun holds => ⟨key, rfl, holds⟩⟩
          rw [onlyKey]
          cases ticketText : json.getString jsonObject "lockTicket" with
          | none =>
              rw [success_of_json (by simp only [storeSessionKey, keyText, keyBytes, ticketText, required])]
              exact iff_of_false (not_allOrNothing_of_missing (Or.inr rfl) ticketText)
                (not_not.mpr (Or.inl rfl))
          | some ticketB64 =>
              rw [Option.bind_some, or_iff_right (Option.some_ne_none ticketB64)]
              exact allOrNothing_decoded_iff keyText keyBytes ticketText

end Ends

/-! ### Every reply -/

section Every

variable {J : Type} (json : OrgJson J) (decode : String → Option (List UInt8))

/-- **The installation is all or nothing exactly if the reply does not end it half-way.** -/
theorem allOrNothing_iff (reply : Reply J) (before : Cryptography) :
    AllOrNothing json decode reply before (onReceiveResult json decode reply before) ↔
      ¬ reply.Halfway json decode before := by
  have unsuccessful : ∀ {turn : KeyTurn}, AllOrNothing json decode reply before turn →
      (∀ jsonObject, reply = .response (some jsonObject) →
        json.getBoolean jsonObject "success" ≠ some true) →
      (AllOrNothing json decode reply before turn ↔ ¬ reply.Halfway json decode before) :=
    fun good other => iff_of_true good fun ⟨jsonObject, same, success, _⟩ => other jsonObject same success
  have stopped : ∀ error, AllOrNothing json decode reply before (catchJson ⟨before, [], some error⟩) :=
    fun error => .quiet rfl List.not_mem_nil fun _ => List.not_mem_nil
  cases reply with
  | failed => exact unsuccessful allOrNothing_failed nofun
  | response jsonResponse =>
      cases jsonResponse with
      | none => exact unsuccessful (stopped .json) nofun
      | some jsonObject =>
          simp only [onReceiveResult, required]
          cases success : json.getBoolean jsonObject "success" with
          | none =>
              refine unsuccessful (stopped .json) fun other same => ?_
              cases same
              rw [success]
              nofun
          | some succeeded =>
              cases succeeded with
              | true =>
                  show AllOrNothing json decode _ before
                    (catchJson (onSessionKeyResult json decode (some jsonObject) before)) ↔ _
                  rw [catchJson_onSessionKeyResult]
                  exact allOrNothing_success_iff success
              | false =>
                  refine unsuccessful ?_ fun other same => ?_
                  · cases (json.getJSONObject jsonObject "error").bind (json.getString · "message") with
                    | none => exact stopped .json
                    | some message => exact allOrNothing_failed
                  · cases same
                    rw [success]
                    nofun

end Every

/-! ### Half-way -/

/-- The server reports success without a key. -/
def keylessReply : JsonValue := .object [("success", .boolean true)]

/-- However texts are decoded, success is called back with nothing installed. -/
theorem keylessReply_succeeds :
    ¬ ∃ decode : String → Option (List UInt8), ∀ (reply : Reply JsonValue) (before : Cryptography),
      AllOrNothing JsonValue.accessors decode reply before
        (onReceiveResult JsonValue.accessors decode reply before) := by
  rintro ⟨decode, every⟩
  have good := every (.response (some keylessReply)) ⟨none, none, zeroNonce⟩
  have succeeds : onReceiveResult JsonValue.accessors decode (.response (some keylessReply))
      ⟨none, none, zeroNonce⟩ = communicationReady true ⟨none, none, zeroNonce⟩ := rfl
  rw [succeeds] at good
  obtain ⟨_, key, _, same, hasKey, -⟩ := good.installs List.mem_cons_self
  cases same
  cases hasKey

end Esloq
