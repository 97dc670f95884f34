/-
**The app's session and its Bluetooth service (`Cryptography.java`, `BluetoothService.java`).**

* `App` — the static fields of a session: its key, the last used nonce, and the buffer of the
  message that is coming in.
* `sendEncryptedMessage`, `handleMessage` — translated as the source has them; an exception leaves
  the fields as they are when it is thrown, and the Bluetooth stack goes on.
* `appStep` — one call of the service; `appRun` the calls of a list.
* `sendEncryptedMessage_cases`, `processMessage_cases`, `handleMessage_cases` — what a call can do.
-/

import Esloq.App.Nonce
import Esloq.Firmware.Process

namespace Esloq

open Machine

/-- The static fields of `Cryptography` and `BluetoothService`. `incoming` holds the bytes put into
`incomingMessageBuffer` since it was cleared; it is `none` before the buffer is allocated. -/
structure App where
  sessionKey : Key
  sessionNonce : Nonce
  incoming : Option (List UInt8)
  deriving DecidableEq

/-! ### Codes and events -/

/-- `LockRequestCode`. -/
inductive LockRequestCode
  | rotateCounterClockwise
  | rotateClockwise
  deriving DecidableEq, Repr

/-- `LockRequestCode.getIntValue`, as a byte. -/
def LockRequestCode.byte : LockRequestCode → UInt8
  | .rotateCounterClockwise => 0
  | .rotateClockwise => 1

/-- `LockResponseCode`. -/
inductive LockResponseCode
  | unlocked
  | locked
  | ticketRcvSuccess
  | ticketRcvFailure
  | ticketRcvSuccessLowBat
  | invalidRequest
  deriving DecidableEq, Repr

namespace LockResponseCode

/-- `LockResponseCode.values`. -/
def values : List LockResponseCode :=
  [.unlocked, .locked, .ticketRcvSuccess, .ticketRcvFailure, .ticketRcvSuccessLowBat,
    .invalidRequest]

/-- `getIntValue`. -/
def intValue : LockResponseCode → Int
  | .unlocked => 0
  | .locked => 1
  | .ticketRcvSuccess => 4
  | .ticketRcvFailure => 5
  | .ticketRcvSuccessLowBat => 6
  | .invalidRequest => 255

/-- `fromInteger`; it throws where there is no such code. -/
def fromInteger (integer : Int) : Option LockResponseCode :=
  values.find? fun code => code.intValue = integer

end LockResponseCode

/-- The intents of `handleMessage`. -/
inductive Action
  | unlocked
  | locked
  | ticketRcvSuccess
  | ticketRcvSuccessLowBat
  | invalidRequest
  deriving DecidableEq, Repr

/-- The `switch` of `handleMessage`. -/
def LockResponseCode.action : LockResponseCode → Option Action
  | .unlocked => some .unlocked
  | .locked => some .locked
  | .ticketRcvSuccess => some .ticketRcvSuccess
  | .ticketRcvSuccessLowBat => some .ticketRcvSuccessLowBat
  | .ticketRcvFailure => none
  | .invalidRequest => some .invalidRequest

/-- The exceptions of `handleMessage`. -/
inductive Thrown
  | nullPointer
  | arrayIndexOutOfBounds
  | bufferOverflow
  | illegalArgument
  | runtime
  deriving DecidableEq, Repr

/-- What can be observed of the app. -/
inductive AppEvent
  /-- `sendEncryptedMessage` is called on top of this nonce. -/
  | sends (stored : Nonce) (m : UInt8)
  /-- A request is encrypted under the session key and the nonce after the stored one. -/
  | encrypted (key : Key) (stored nonce : Nonce) (m : UInt8) (c : Bytes 17)
  /-- The value written to the characteristic of the lock. -/
  | writes (value : List UInt8)
  /-- A response passes every check of `handleMessage`. -/
  | accepted (key : Key) (msg : Bytes 41) (rsp : UInt8)
  | broadcast (action : Action)
  | threw (exception : Thrown)
  deriving DecidableEq

/-- What a call leaves; the app survives its exceptions, so nothing stops it. -/
abbrev AppTurn := Turn App AppEvent Empty

namespace App

/-! ### Cryptography -/

/-- `Cryptography.setSessionKey`. -/
def setSessionKey (key : Key) (app : App) : App :=
  { app with sessionKey := key, sessionNonce := zeroNonce }

/-- `Cryptography.getNextSessionNonce`. -/
def getNextSessionNonce (app : App) : Nonce := incrementByteArray app.sessionNonce

/-- `encrypt` of `crypto_nacl_jni.c`; `none` is the empty array. -/
def encrypt (box : Secretbox) {mlen : Nat} (message : Bytes mlen) (nonce : Nonce) (key : Key) :
    Option (Bytes (mlen + 16)) :=
  if mlen = 0 then none else sealPadded box message nonce key

/-- `decrypt` of `crypto_nacl_jni.c`; `none` is the empty array. -/
def decrypt (box : Secretbox) {mlen : Nat} (ciphertext : Bytes (mlen + 16)) (nonce : Nonce)
    (key : Key) : Option (Bytes mlen) :=
  if mlen = 0 then none else openPadded box ciphertext nonce key

/-- `Cryptography.authEncrypt`. -/
def authEncrypt (box : Secretbox) {mlen : Nat} (plaintext : Bytes mlen) (app : App) :
    App × Option (Bytes (mlen + 16)) :=
  let app := { app with sessionNonce := incrementByteArray app.sessionNonce }
  (app, encrypt box plaintext app.sessionNonce app.sessionKey)

/-- `Cryptography.authDecrypt`. -/
def authDecrypt (box : Secretbox) {mlen : Nat} (ciphertext : Bytes (mlen + 16)) (app : App) :
    Option (Bytes mlen) :=
  decrypt box ciphertext app.sessionNonce app.sessionKey

/-! ### The Bluetooth service -/

/-- `sendEncryptedMessage`, for the message of one byte it is called with. -/
def sendEncryptedMessage (box : Secretbox) (m : UInt8) (app : App) : AppTurn :=
  let stored := app.sessionNonce
  let nonce := app.getNextSessionNonce
  match app.authEncrypt box (oneByte m) with
  | (app, none) => .emit app [.sends stored m, .writes nonce.toList]
  | (app, some c) => .emit app [.sends stored m,
      .encrypted app.sessionKey stored app.sessionNonce m c, .writes (message nonce c).toList]

/-- `rotateClockwise`. -/
def rotateClockwise (box : Secretbox) (app : App) : AppTurn :=
  app.sendEncryptedMessage box LockRequestCode.rotateClockwise.byte

/-- `rotateCounterClockwise`. -/
def rotateCounterClockwise (box : Secretbox) (app : App) : AppTurn :=
  app.sendEncryptedMessage box LockRequestCode.rotateCounterClockwise.byte

/-- A Java byte as an integer. -/
def signedByte (byte : UInt8) : Int := if byte.toNat < 128 then byte.toNat else (byte.toNat : Int) - 256

/-- The end of `handleMessage`, for a message that is complete. -/
def processMessage (box : Secretbox) (incomingMessage : Bytes 41) (app : App) : AppTurn :=
  let nonce := messageNonce incomingMessage
  if isValidSessionNonce nonce app.sessionNonce then
    let app := { app with sessionNonce := nonce }
    match app.authDecrypt box (messageCipher incomingMessage) with
    | none => .emit app [.threw .runtime]
    | some plaintext =>
        match LockResponseCode.fromInteger (signedByte plaintext.head) with
        | none => .emit app [.threw .illegalArgument]
        | some code => .emit app ([.accepted app.sessionKey incomingMessage plaintext.head] ++
            (code.action.map .broadcast).toList)
  else .emit app [.threw .illegalArgument]

/-- `handleMessage` once bytes have been put: a full buffer is read and cleared, and processed. -/
def afterPut (box : Secretbox) (incoming : List UInt8) (app : App) : AppTurn :=
  if full : incoming.length = 41 then
    processMessage box ⟨incoming, full⟩ { app with incoming := some [] }
  else .pure { app with incoming := some incoming }

/-- `handleMessage`. The module always sends 20 bytes, so of the last packet only the first byte is
put. -/
def handleMessage (box : Secretbox) (message : List UInt8) (app : App) : AppTurn :=
  match app.incoming with
  | none => .emit app [.threw .nullPointer]
  | some incoming =>
      if incoming.length = 40 then
        match message with
        | [] => .emit app [.threw .arrayIndexOutOfBounds]
        | byte :: _ => app.afterPut box (incoming ++ [byte])
      else if incoming.length + message.length ≤ 41 then app.afterPut box (incoming ++ message)
      else .emit app [.threw .bufferOverflow]

/-- `onDescriptorWrite`, after success. -/
def onDescriptorWrite (app : App) : App := { app with incoming := some [] }

end App

/-- A call of the service within a session. -/
inductive AppInput
  | rotateClockwise
  | rotateCounterClockwise
  /-- `onCharacteristicChanged`, with the value of the characteristic. -/
  | notified (value : List UInt8)
  | descriptorWritten
  deriving DecidableEq

/-- One call of the service. -/
def appStep (box : Secretbox) : AppInput → App → AppTurn
  | .rotateClockwise, app => app.rotateClockwise box
  | .rotateCounterClockwise, app => app.rotateCounterClockwise box
  | .notified value, app => app.handleMessage box value
  | .descriptorWritten, app => .pure app.onDescriptorWrite

/-- The calls of a session after each other. -/
def appRun (box : Secretbox) (inputs : List AppInput) (app : App) : AppTurn :=
  run (appStep box) inputs app

/-! ### What a call can do -/

namespace App

variable (box : Secretbox) (app : App)

/-- The app once its nonce has been incremented. -/
def incremented : App := { app with sessionNonce := incrementByteArray app.sessionNonce }

/-- The app once it has taken the nonce of a message over. -/
def advanced (msg : Bytes 41) : App := { app with sessionNonce := messageNonce msg }

/-- A call of `sendEncryptedMessage` increments the nonce, and it may encrypt. -/
theorem sendEncryptedMessage_cases (m : UInt8) :
    (sealPadded box (oneByte m) app.incremented.sessionNonce app.sessionKey = none ∧
      ∃ value, app.sendEncryptedMessage box m =
        .emit app.incremented [.sends app.sessionNonce m, .writes value]) ∨
    ∃ c, sealPadded box (oneByte m) app.incremented.sessionNonce app.sessionKey = some c ∧
      app.sendEncryptedMessage box m = .emit app.incremented [.sends app.sessionNonce m,
        .encrypted app.sessionKey app.sessionNonce app.incremented.sessionNonce m c,
        .writes (message app.incremented.sessionNonce c).toList] := by
  cases sealed : sealPadded box (oneByte m) app.incremented.sessionNonce app.sessionKey with
  | none =>
      have encrypted : app.authEncrypt box (oneByte m) = (app.incremented, none) :=
        Prod.ext rfl sealed
      refine Or.inl ⟨rfl, (incrementByteArray app.sessionNonce).toList, ?_⟩
      simp only [sendEncryptedMessage, encrypted]
      rfl
  | some c =>
      have encrypted : app.authEncrypt box (oneByte m) = (app.incremented, some c) :=
        Prod.ext rfl sealed
      refine Or.inr ⟨c, rfl, ?_⟩
      simp only [sendEncryptedMessage, encrypted]
      rfl

/-- A complete message is rejected for its nonce, rejected after its nonce has been taken over, or
accepted. -/
theorem processMessage_cases (msg : Bytes 41) :
    (isValidSessionNonce (messageNonce msg) app.sessionNonce = false ∧
      app.processMessage box msg = .emit app [.threw .illegalArgument]) ∨
    (isValidSessionNonce (messageNonce msg) app.sessionNonce = true ∧
      (((∀ rsp, messageByte box app.sessionKey msg = some rsp →
            LockResponseCode.fromInteger (signedByte rsp) = none) ∧
          ∃ exception, app.processMessage box msg =
            .emit (app.advanced msg) [.threw exception]) ∨
        ∃ rsp code, messageByte box app.sessionKey msg = some rsp ∧
          LockResponseCode.fromInteger (signedByte rsp) = some code ∧
          app.processMessage box msg = .emit (app.advanced msg)
            ([.accepted app.sessionKey msg rsp] ++ (code.action.map .broadcast).toList))) := by
  cases valid : isValidSessionNonce (messageNonce msg) app.sessionNonce with
  | false =>
      refine Or.inl ⟨rfl, ?_⟩
      simp only [processMessage, valid]
      rfl
  | true =>
      refine Or.inr ⟨rfl, ?_⟩
      have opens : (app.advanced msg).authDecrypt box (messageCipher msg) =
          openPadded box (messageCipher msg) (messageNonce msg) app.sessionKey := rfl
      cases found : openPadded box (messageCipher msg) (messageNonce msg) app.sessionKey with
      | none =>
          have byte : messageByte box app.sessionKey msg = none :=
            congrArg (Option.map List.Vector.head) found
          rw [found] at opens
          simp only [advanced] at opens
          refine Or.inl ⟨fun rsp opened => ?_, .runtime, ?_⟩
          · rw [byte] at opened
            cases opened
          · simp only [processMessage, valid, opens]
            rfl
      | some plaintext =>
          have byte : messageByte box app.sessionKey msg = some plaintext.head :=
            congrArg (Option.map List.Vector.head) found
          rw [found] at opens
          simp only [advanced] at opens
          cases named : LockResponseCode.fromInteger (signedByte plaintext.head) with
          | none =>
              refine Or.inl ⟨fun rsp opened => ?_, .illegalArgument, ?_⟩
              · rw [byte] at opened
                cases opened
                exact named
              · simp only [processMessage, valid, opens, named]
                rfl
          | some code =>
              refine Or.inr ⟨plaintext.head, code, byte, named, ?_⟩
              simp only [processMessage, valid, opens, named]
              rfl

/-- A packet completes a message, or changes nothing but the buffer. -/
theorem handleMessage_cases (message : List UInt8) :
    (∃ msg, app.handleMessage box message =
      App.processMessage box msg { app with incoming := some [] }) ∨
    ∃ incoming events, app.handleMessage box message =
      .emit { app with incoming := incoming } events ∧ ∀ event ∈ events, ∃ exception,
        event = .threw exception := by
  have throws : ∀ exception, ∃ incoming events,
      (.emit app [.threw exception] : AppTurn) = .emit { app with incoming := incoming } events ∧
        ∀ event ∈ events, ∃ exception, event = .threw exception :=
    fun exception => ⟨app.incoming, _, rfl, by simp⟩
  have put : ∀ incoming, (∃ msg, app.afterPut box incoming =
      App.processMessage box msg { app with incoming := some [] }) ∨
      ∃ incoming' events, app.afterPut box incoming =
        .emit { app with incoming := incoming' } events ∧ ∀ event ∈ events, ∃ exception,
          event = .threw exception := by
    intro incoming
    unfold afterPut
    split
    · exact Or.inl ⟨_, rfl⟩
    · exact Or.inr ⟨_, [], rfl, by simp⟩
  unfold handleMessage
  split
  · exact Or.inr (throws _)
  · split
    · split
      · exact Or.inr (throws _)
      · exact put _
    · split
      · exact put _
      · exact Or.inr (throws _)

/-- A packet that does not complete the message is appended. -/
theorem handleMessage_early {app : App} {incoming message : List UInt8}
    (buffered : app.incoming = some incoming) (short : incoming.length + message.length ≤ 40)
    (some' : message ≠ []) :
    app.handleMessage box message = .pure { app with incoming := some (incoming ++ message) } := by
  have positive : 0 < message.length := List.length_pos_iff.mpr some'
  simp only [handleMessage, buffered]
  rw [if_neg (by omega), if_pos (by omega), afterPut, dif_neg (by rw [List.length_append]; omega)]

/-- The first byte of the last packet completes the message. -/
theorem handleMessage_last {app : App} {incoming rest : List UInt8} {byte : UInt8} {msg : Bytes 41}
    (buffered : app.incoming = some incoming) (whole : incoming ++ [byte] = msg.toList) :
    app.handleMessage box (byte :: rest) =
      App.processMessage box msg { app with incoming := some [] } := by
  obtain ⟨bytes, sized⟩ := msg
  have same : incoming ++ [byte] = bytes := whole
  subst same
  have full : incoming.length = 40 := by
    rw [List.length_append, List.length_singleton] at sized
    omega
  simp only [handleMessage, buffered]
  rw [if_pos full, afterPut, dif_pos sized]

end App

/-- A call sends, processes a complete message, or changes nothing but the buffer. -/
theorem appStep_cases (box : Secretbox) (input : AppInput) (app : App) :
    (∃ m, appStep box input app = app.sendEncryptedMessage box m) ∨
    (∃ msg, appStep box input app = App.processMessage box msg { app with incoming := some [] }) ∨
    ∃ incoming events, appStep box input app = .emit { app with incoming := incoming } events ∧
      ∀ event ∈ events, ∃ exception, event = .threw exception := by
  cases input with
  | rotateClockwise | rotateCounterClockwise => exact Or.inl ⟨_, rfl⟩
  | notified value => exact Or.inr (app.handleMessage_cases box value)
  | descriptorWritten => exact Or.inr (Or.inr ⟨some [], [], rfl, by simp⟩)

end Esloq
