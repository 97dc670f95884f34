/-
**The event handlers, the two message processors and the state machine (`main.c`).**

Every function is translated as the source has it, on the explicit `Lock`, and returns a `LockTurn`.
The spec lemmas say once what each of them can do:

* `bleHandler_cases` — a message is a write to `c_lock_receive`, or it changes nothing but the state,
  the module's address and the counter of the outgoing response;
* `fsmProcess_cases` — a call runs a processor, ends a connection, advertises, or does nothing;
* `respond_cases`, `processTicketMsg_cases` and `processRequestMsg_cases` — the return paths of the
  two processors with the state and the effects of each; where a message is fresh and opens there is
  one (`processTicketMsg_of_opens`, `processRequestMsg_of_opens`).
-/

import Esloq.Firmware.Lock

namespace Esloq

open Machine BigEndian

/-! ### Response handlers -/

/-- `ble_rsp_system_address_get`. -/
def bleRspSystemAddressGet (address : Bytes 6) (l : Lock) : LockTurn :=
  .pure { l with state := .systemAddressGet, systemAddress := address }

/-- `ble_rsp_gap_set_adv_parameters`. -/
def bleRspGapSetAdvParameters (l : Lock) : LockTurn :=
  .pure { l with state := .advParamSet }

/-- `ble_rsp_gap_set_adv_data`. -/
def bleRspGapSetAdvData (l : Lock) : LockTurn :=
  if l.state = .advDataSetW then .pure { l with state := .advDataSet }
  else if l.state = .advSrDataSetW then .pure { l with state := .advSrDataSet }
  else .pure l

/-- `ble_rsp_gap_set_mode`. -/
def bleRspGapSetMode (l : Lock) : LockTurn :=
  .pure { l with state := .advertising }

/-- `ble_rsp_attributes_write`: the next section of the response. -/
def bleRspAttributesWrite (result : UInt16) (l : Lock) : LockTurn :=
  let buffer := l.attWriteBuffer
  if result ≠ 0 then .pure l
  else if buffer.sectionSent = 0 then
    .emit { l with attWriteBuffer := { buffer with sectionSent := buffer.sectionSent + 1 } }
      [.cmd (.attributesWrite cLockTransmit 0 (buffer.data.slice 20 20 (by decide)).toList)]
  else if buffer.sectionSent = 1 then
    .emit { l with attWriteBuffer := { buffer with sectionSent := buffer.sectionSent + 1 } }
      [.cmd (.attributesWrite cLockTransmit 0 (buffer.data.slice 40 1 (by decide)).toList)]
  else .pure l

/-! ### Event handlers -/

/-- `ble_evt_system_boot`. -/
def bleEvtSystemBoot (l : Lock) : LockTurn :=
  .pure { l with state := .bleBoot }

/-- `ble_evt_connection_status`. -/
def bleEvtConnectionStatus (flags : UInt8) (l : Lock) : LockTurn :=
  if flags &&& 5 ≠ 0 then .pure { l with state := .connected } else .pure l

/-- `ble_evt_connection_disconnected`. -/
def bleEvtConnectionDisconnected (l : Lock) : LockTurn :=
  .pure { l with state := .disconnected }

/-- `ble_evt_hardware_io_port_status`. -/
def bleEvtHardwareIoPortStatus (l : Lock) : LockTurn :=
  .pure l

/-- The state after a write has been copied: a message is complete when it has the length the
current state waits for. -/
def afterReceive (state : State) (len : UInt8) : State :=
  if state = .connected ∧ len = 72 then .ticket
  else if state = .requestW ∧ len = 41 then .request
  else state

/-- `ble_evt_attributes_value`. The copy is not checked against the buffer; where it does not fit
the model stops. -/
def bleEvtAttributesValue (handle : UInt16) (value : List UInt8) (l : Lock) : LockTurn :=
  if handle = cLockReceive then
    if fits : l.msgBuf.len.toNat + value.length ≤ 72 then
      let msgBuf : MsgBuffer :=
        ⟨l.msgBuf.len + UInt8.ofNat value.length, l.msgBuf.data.splice l.msgBuf.len.toNat value fits⟩
      .emit { l with msgBuf := msgBuf, state := afterReceive l.state msgBuf.len } [.received value]
    else ⟨l, [.received value], some .msgBuf⟩
  else .pure l

/-- The handler `ble_process_packet` calls. -/
def bleHandler (msg : BgapiMsg) (l : Lock) : LockTurn :=
  match msg with
  | .rspSystemAddressGet address => bleRspSystemAddressGet address l
  | .rspGapSetAdvParameters => bleRspGapSetAdvParameters l
  | .rspGapSetAdvData => bleRspGapSetAdvData l
  | .rspGapSetMode => bleRspGapSetMode l
  | .rspAttributesWrite result => bleRspAttributesWrite result l
  | .evtSystemBoot => bleEvtSystemBoot l
  | .evtConnectionStatus flags => bleEvtConnectionStatus flags l
  | .evtConnectionDisconnected => bleEvtConnectionDisconnected l
  | .evtHardwareIoPortStatus => bleEvtHardwareIoPortStatus l
  | .evtAttributesValue handle value => bleEvtAttributesValue handle value l
  | .stub => .pure l

/-! ### The message processors -/

/-- `crypto_auth_encrypt`. -/
def cryptoAuthEncrypt (box : Secretbox) {mlen : Nat} (m : Bytes mlen) (n : Nonce) (k : Key) :
    Option (Bytes (mlen + 16)) :=
  sealPadded box m n k

/-- `crypto_auth_decrypt`. -/
def cryptoAuthDecrypt (box : Secretbox) {mlen : Nat} (c : Bytes (mlen + 16)) (n : Nonce) (k : Key) :
    Option (Bytes mlen) :=
  openPadded box c n k

/-- The array of one byte. -/
def oneByte (byte : UInt8) : Bytes 1 := ⟨[byte], rfl⟩

/-- The session key a ticket carries under a master key, if it authenticates. -/
def ticketKey (box : Secretbox) (masterKey : Key) (msg : Bytes 72) : Option Key :=
  cryptoAuthDecrypt box (ticketCipher msg) (ticketNonce msg) masterKey

/-- The byte a request or response carries under a session key, if it authenticates. -/
def messageByte (box : Secretbox) (key : Key) (msg : Bytes 41) : Option UInt8 :=
  (cryptoAuthDecrypt box (messageCipher msg) (messageNonce msg) key).map List.Vector.head

/-- What is encrypted under a key and a nonce is read back under them. -/
theorem messageByte_of_sealed {box : Secretbox} (contract : box.Contract) {m : UInt8} {nonce : Nonce}
    {key : Key} {c : Bytes (1 + 16)} (sealed : cryptoAuthEncrypt box (oneByte m) nonce key = some c) :
    messageByte box key (message nonce c) = some m := by
  obtain ⟨c', sealed', opens⟩ := openPadded_sealPadded contract (oneByte m) nonce key
  have same : c = c' := Option.some.inj (sealed.symm.trans sealed')
  rw [messageByte, messageNonce_message, messageCipher_message, same]
  exact congrArg (Option.map List.Vector.head) opens

/-- The first of the three writes that send a response. -/
def sendResponse (rsp : Bytes 41) : Effect :=
  .cmd (.attributesWrite cLockTransmit 0 (rsp.slice 0 20 (by decide)).toList)

/-- The sections in which a response is sent. -/
def sections (rsp : Bytes 41) : List (List UInt8) :=
  [(rsp.slice 0 20 (by decide)).toList, (rsp.slice 20 20 (by decide)).toList,
    (rsp.slice 40 1 (by decide)).toList]

/-- The end both processors share: increment the session nonce, encrypt the response byte under it,
empty the buffer and start to send. -/
def respond (box : Secretbox) (state : State) (m : UInt8) (l : Lock) (effects : List Effect) :
    UInt8 × LockTurn :=
  let stored := l.sessionNonce
  match incrementArray stored with
  | none => (0, ⟨l, effects, some .sessionNonce⟩)
  | some sessionNonce =>
      let l := { l with sessionNonce := sessionNonce }
      match cryptoAuthEncrypt box (oneByte m) sessionNonce l.sessionKey with
      | none => (3, .emit l (effects ++ [.returned 3]))
      | some c =>
          let rsp := message sessionNonce c
          (0, .emit { resetMsgBuffer l with state := state, attWriteBuffer := ⟨0, rsp⟩ }
            (effects ++ [.encrypted l.sessionKey stored sessionNonce m c, .resetMsgBuffer,
              sendResponse rsp, .returned 0]))

/-- `process_ticket_msg`. -/
def processTicketMsg (box : Secretbox) (lowBattery : Bool) (l : Lock) : UInt8 × LockTurn :=
  let msg := l.msgBuf.data
  let nonce := ticketNonce msg
  if isValidTicketNonce nonce l.masterNonceEeprom then
    let l := { l with masterNonceEeprom := nonce }
    match ticketKey box l.masterKeyEeprom msg with
    | none => (2, .emit l [.ticketMsg msg, .eepromUpdate nonce, .returned 2])
    | some m =>
        let l := { l with sessionKey := m, sessionNonce := zeroNonce }
        let m := if lowBattery then ticketRcvSuccessLowBat else ticketRcvSuccess
        respond box .requestW m l
          [.ticketMsg msg, .eepromUpdate nonce, .ticketAccepted msg l.sessionKey]
  else (1, .emit l [.ticketMsg msg, .returned 1])

/-- The rotation a request byte asks for. -/
def requestedRotation (request : UInt8) : Option Rotation :=
  if request = Rotation.cw.code then some .cw
  else if request = Rotation.ccw.code then some .ccw
  else none

/-- A requested rotation is the one the byte of the request names. -/
theorem requestedRotation_eq_some {request : UInt8} {direction : Rotation}
    (named : requestedRotation request = some direction) : direction.code = request := by
  unfold requestedRotation at named
  split at named
  · rename_i clockwise
    cases named
    exact clockwise.symm
  · split at named
    · rename_i counterclockwise
      cases named
      exact counterclockwise.symm
    · cases named

/-- The effects of a request byte: the rotation it names, if it names one. -/
theorem mem_requestedRotation {request : UInt8} {effect : Effect}
    (member : effect ∈ ((requestedRotation request).map (Effect.rotate .remote)).toList) :
    ∃ direction, requestedRotation request = some direction ∧ effect = .rotate .remote direction := by
  obtain ⟨direction, named, same⟩ := Option.map_eq_some_iff.mp (Option.mem_toList.mp member)
  exact ⟨direction, named, same.symm⟩

/-- The response to a request byte. -/
def rspCode (request : UInt8) : UInt8 :=
  match requestedRotation request with
  | some direction => direction.rspCode
  | none => invalidRequest

/-- The first `REQUEST_LEN` bytes of the buffer. -/
def bufferedRequest (l : Lock) : Bytes 41 := l.msgBuf.data.slice 0 41 (by decide)

/-- `process_request_msg`. -/
def processRequestMsg (box : Secretbox) (l : Lock) : UInt8 × LockTurn :=
  let msg := bufferedRequest l
  let nonce := messageNonce msg
  let l := { l with state := .requestW }
  if isValidSessionNonce nonce l.sessionNonce then
    let l := { l with sessionNonce := nonce }
    match messageByte box l.sessionKey msg with
    | none => (2, .emit l [.requestMsg msg, .returned 2])
    | some request =>
        respond box l.state (rspCode request) l
          ([.requestMsg msg, .requestDecrypted l.sessionKey msg request] ++
            ((requestedRotation request).map (Effect.rotate .remote)).toList)
  else (1, .emit l [.requestMsg msg, .returned 1])

/-! ### The state machine -/

/-- `adv_data` of `process_adv_param_set`. -/
def advData : List UInt8 :=
  [0x02, 0x01, 0x06, 0x11, 0x07, 0x5b, 0xd4, 0xe8, 0x2a, 0xee, 0xca, 0x2a, 0x88, 0x97, 0x45, 0x10,
    0xd5, 0x27, 0xf9, 0x2c, 0x30]

/-- The character of a hexadecimal digit. -/
def hexDigit (digit : UInt8) : UInt8 := digit + 48 + digit / 10 * 39

/-- The two characters of a byte of the address. -/
def hexByte (byte : UInt8) : List UInt8 := [hexDigit (byte / 16), hexDigit (byte &&& 0x0f)]

/-- `sr_data` of `process_adv_data_set`: the address and the name `esloq`. -/
def srData (systemAddress : Bytes 6) : List UInt8 :=
  [18, 0xff] ++ List.intercalate [0x3a] (systemAddress.toList.reverse.map hexByte) ++
    [6, 9, 0x65, 0x73, 0x6c, 0x6f, 0x71]

/-- The command of `set_adv_parameters`. -/
def setAdvParameters : Effect := .cmd (.gapSetAdvParameters 320 350 7)

/-- A ticket that is not accepted leaves the connection open for another one. -/
def afterTicketMsg (code : UInt8) (l : Lock) : LockTurn :=
  if code ≠ 0 then .emit { resetMsgBuffer l with state := .connected } [.resetMsgBuffer] else .pure l

/-- A request that is not served leaves the session open. -/
def afterRequestMsg (code : UInt8) (l : Lock) : LockTurn :=
  if code ≠ 0 then .emit (resetMsgBuffer l) [.resetMsgBuffer] else .pure l

/-- `fsm_process`. -/
def fsmProcess (box : Secretbox) (lowBattery : Bool) (l : Lock) : LockTurn :=
  match l.state with
  | .bleBoot => .emit { l with state := .systemAddressGetW } [.cmd .systemAddressGet]
  | .systemAddressGet => .emit { l with state := .advParamSetW } [setAdvParameters]
  | .advParamSet => .emit { l with state := .advDataSetW } [.cmd (.gapSetAdvData 0 advData)]
  | .advDataSet =>
      .emit { l with state := .advSrDataSetW } [.cmd (.gapSetAdvData 1 (srData l.systemAddress))]
  | .advSrDataSet => .emit { l with state := .advertisingW } [.cmd (.gapSetMode 4 2)]
  -- `power_down` touches no variable of the model
  | .advertising => .pure l
  | .ticket =>
      let (code, turn) := processTicketMsg box lowBattery l
      turn.andThen (afterTicketMsg code)
  | .request =>
      let (code, turn) := processRequestMsg box l
      turn.andThen (afterRequestMsg code)
  | .disconnected =>
      .emit { resetMsgBuffer l with state := .advParamSetW } [.resetMsgBuffer, setAdvParameters]
  | _ => .pure l

/-! ### What the handlers can do -/

/-- The states in which a request is expected or complete. -/
def State.inSession : State → Bool
  | .requestW | .request => true
  | _ => false

/-- The states outside a session in which no message is complete. -/
def State.resting : State → Bool
  | .ticket | .requestW | .request => false
  | _ => true

theorem State.inSession_of_resting {state : State} (resting : state.resting = true) :
    state.inSession = false := by
  cases state <;> first | rfl | cases resting

/-- A change of nothing but the state, which stays or rests, the module's address and the counter of
the outgoing response. -/
structure Bookkeeping (l l' : Lock) : Prop where
  msgBuf : l'.msgBuf = l.msgBuf
  masterNonce : l'.masterNonceEeprom = l.masterNonceEeprom
  masterKey : l'.masterKeyEeprom = l.masterKeyEeprom
  sessionNonce : l'.sessionNonce = l.sessionNonce
  sessionKey : l'.sessionKey = l.sessionKey
  response : l'.attWriteBuffer.data = l.attWriteBuffer.data
  state : l'.state = l.state ∨ l'.state.resting = true

theorem Bookkeeping.refl (l : Lock) : Bookkeeping l l := ⟨rfl, rfl, rfl, rfl, rfl, rfl, Or.inl rfl⟩

theorem Bookkeeping.inSession {l l' : Lock} (kept : Bookkeeping l l')
    (entered : l'.state.inSession = true) : l.state.inSession = true := by
  rcases kept.state with same | resting
  · rwa [same] at entered
  · rw [State.inSession_of_resting resting] at entered
    cases entered

/-- A message is a write to `c_lock_receive`, or its handler keeps the books and sends commands. -/
theorem bleHandler_cases (msg : BgapiMsg) (l : Lock) :
    (∃ value, msg = .evtAttributesValue cLockReceive value) ∨
      ∃ l' events, bleHandler msg l = .emit l' events ∧ Bookkeeping l l' ∧
        ∀ effect ∈ events, ∃ command, effect = .cmd command := by
  have none' : ∀ effect ∈ ([] : List Effect), ∃ command, effect = .cmd command := by simp
  have idle : ∃ l' events, (.pure l : LockTurn) = .emit l' events ∧ Bookkeeping l l' ∧
      ∀ effect ∈ events, ∃ command, effect = .cmd command := ⟨l, [], rfl, .refl l, none'⟩
  have rests : ∀ state : State, state.resting = true → ∃ l' events,
      (.pure { l with state := state } : LockTurn) = .emit l' events ∧ Bookkeeping l l' ∧
        ∀ effect ∈ events, ∃ command, effect = .cmd command :=
    fun state resting => ⟨_, [], rfl, ⟨rfl, rfl, rfl, rfl, rfl, rfl, Or.inr resting⟩, none'⟩
  cases msg with
  | evtAttributesValue handle value =>
      by_cases receive : handle = cLockReceive
      · exact Or.inl ⟨value, by rw [receive]⟩
      · right
        rw [bleHandler, bleEvtAttributesValue, if_neg receive]
        exact idle
  | rspSystemAddressGet address =>
      exact Or.inr ⟨_, [], rfl, ⟨rfl, rfl, rfl, rfl, rfl, rfl, Or.inr rfl⟩, none'⟩
  | rspGapSetAdvParameters | rspGapSetMode | evtSystemBoot | evtConnectionDisconnected =>
      exact Or.inr (rests _ rfl)
  | evtHardwareIoPortStatus | stub => exact Or.inr idle
  | rspGapSetAdvData =>
      right
      rw [bleHandler, bleRspGapSetAdvData]
      split
      · exact rests _ rfl
      · split
        · exact rests _ rfl
        · exact idle
  | evtConnectionStatus flags =>
      right
      rw [bleHandler, bleEvtConnectionStatus]
      split
      · exact rests _ rfl
      · exact idle
  | rspAttributesWrite result =>
      right
      simp only [bleHandler, bleRspAttributesWrite]
      split
      · exact idle
      · split
        · exact ⟨_, _, rfl, ⟨rfl, rfl, rfl, rfl, rfl, rfl, Or.inl rfl⟩, by simp⟩
        · split
          · exact ⟨_, _, rfl, ⟨rfl, rfl, rfl, rfl, rfl, rfl, Or.inl rfl⟩, by simp⟩
          · exact idle

/-- A write can complete a request only while one is expected. -/
theorem afterReceive_inSession {state : State} {len : UInt8}
    (entered : (afterReceive state len).inSession = true) : state.inSession = true := by
  unfold afterReceive at entered
  split at entered
  · cases entered
  · split at entered
    · rename_i complete
      rw [complete.1]
      rfl
    · exact entered

/-- Nothing of the session or the EEPROM changed, and no session was entered. -/
structure Untouched (l l' : Lock) : Prop where
  masterNonce : l'.masterNonceEeprom = l.masterNonceEeprom
  masterKey : l'.masterKeyEeprom = l.masterKeyEeprom
  sessionNonce : l'.sessionNonce = l.sessionNonce
  sessionKey : l'.sessionKey = l.sessionKey
  inSession : l'.state.inSession = true → l.state.inSession = true

theorem Untouched.refl (l : Lock) : Untouched l l := ⟨rfl, rfl, rfl, rfl, id⟩

theorem Untouched.trans {first second third : Lock} (earlier : Untouched first second)
    (later : Untouched second third) : Untouched first third :=
  ⟨later.masterNonce.trans earlier.masterNonce, later.masterKey.trans earlier.masterKey,
    later.sessionNonce.trans earlier.sessionNonce, later.sessionKey.trans earlier.sessionKey,
    fun entered => earlier.inSession (later.inSession entered)⟩

theorem Bookkeeping.untouched {l l' : Lock} (kept : Bookkeeping l l') : Untouched l l' :=
  ⟨kept.masterNonce, kept.masterKey, kept.sessionNonce, kept.sessionKey, kept.inSession⟩

theorem bleEvtAttributesValue_of_fits {l : Lock} {value : List UInt8}
    (fits : l.msgBuf.len.toNat + value.length ≤ 72) :
    bleEvtAttributesValue cLockReceive value l = .emit
      { l with
        msgBuf := ⟨l.msgBuf.len + UInt8.ofNat value.length,
          l.msgBuf.data.splice l.msgBuf.len.toNat value fits⟩
        state := afterReceive l.state (l.msgBuf.len + UInt8.ofNat value.length) }
      [.received value] := by
  rw [bleEvtAttributesValue, if_pos rfl, dif_pos fits]

theorem bleEvtAttributesValue_of_overrun {l : Lock} {value : List UInt8}
    (overrun : ¬ l.msgBuf.len.toNat + value.length ≤ 72) :
    bleEvtAttributesValue cLockReceive value l = ⟨l, [.received value], some .msgBuf⟩ := by
  rw [bleEvtAttributesValue, if_pos rfl, dif_neg overrun]

/-- No message touches the session or the EEPROM. -/
theorem bleHandler_untouched (msg : BgapiMsg) (l : Lock) : Untouched l (bleHandler msg l).state := by
  rcases bleHandler_cases msg l with ⟨value, rfl⟩ | ⟨l', events, handled, kept, -⟩
  · by_cases fits : l.msgBuf.len.toNat + value.length ≤ 72
    · rw [bleHandler, bleEvtAttributesValue_of_fits fits]
      exact ⟨rfl, rfl, rfl, rfl, afterReceive_inSession⟩
    · rw [bleHandler, bleEvtAttributesValue_of_overrun fits]
      exact .refl l
  · rw [handled]
    exact kept.untouched

/-- The effects of the handlers. -/
theorem bleHandler_event {msg : BgapiMsg} {l : Lock} {effect : Effect}
    (member : effect ∈ (bleHandler msg l).events) :
    (∃ command, effect = .cmd command) ∨ ∃ value, effect = .received value := by
  rcases bleHandler_cases msg l with ⟨value, rfl⟩ | ⟨l', events, handled, -, commands⟩
  · right
    by_cases fits : l.msgBuf.len.toNat + value.length ≤ 72
    · rw [bleHandler, bleEvtAttributesValue_of_fits fits] at member
      exact ⟨value, List.mem_singleton.mp member⟩
    · rw [bleHandler, bleEvtAttributesValue_of_overrun fits] at member
      exact ⟨value, List.mem_singleton.mp member⟩
  · rw [handled] at member
    exact Or.inl (commands effect member)

/-- The one fault of the handlers. -/
theorem bleHandler_fault {msg : BgapiMsg} {l : Lock} {fault : Fault}
    (faulted : (bleHandler msg l).fault = some fault) : fault = .msgBuf := by
  rcases bleHandler_cases msg l with ⟨value, rfl⟩ | ⟨l', events, handled, -, -⟩
  · by_cases fits : l.msgBuf.len.toNat + value.length ≤ 72
    · rw [bleHandler, bleEvtAttributesValue_of_fits fits] at faulted
      cases faulted
    · rw [bleHandler, bleEvtAttributesValue_of_overrun fits] at faulted
      cases faulted
      rfl
  · rw [handled] at faulted
    cases faulted

/-- What `fsm_process` does: a processor and its aftermath, the end of a connection, a step of
advertising, or nothing. -/
theorem fsmProcess_cases (box : Secretbox) (lowBattery : Bool) (l : Lock) :
    (l.state = .ticket ∧ fsmProcess box lowBattery l =
      (processTicketMsg box lowBattery l).2.andThen
        (afterTicketMsg (processTicketMsg box lowBattery l).1)) ∨
    (l.state = .request ∧ fsmProcess box lowBattery l =
      (processRequestMsg box l).2.andThen (afterRequestMsg (processRequestMsg box l).1)) ∨
    (l.state = .disconnected ∧ fsmProcess box lowBattery l =
      .emit { resetMsgBuffer l with state := .advParamSetW } [.resetMsgBuffer, setAdvParameters]) ∨
    (l.state ≠ .disconnected ∧ ∃ state command, state.resting = true ∧
      fsmProcess box lowBattery l = .emit { l with state := state } [.cmd command]) ∨
    (l.state ≠ .disconnected ∧ l.state ≠ .ticket ∧ l.state ≠ .request ∧
      fsmProcess box lowBattery l = .pure l) := by
  unfold fsmProcess
  cases state : l.state with
  | ticket => exact Or.inl ⟨rfl, rfl⟩
  | request => exact Or.inr (Or.inl ⟨rfl, rfl⟩)
  | disconnected => exact Or.inr (Or.inr (Or.inl ⟨rfl, rfl⟩))
  | bleBoot | systemAddressGet | advParamSet | advDataSet | advSrDataSet =>
      refine Or.inr (Or.inr (Or.inr (Or.inl ⟨by decide, _, _, ?_, rfl⟩)))
      rfl
  | _ => exact Or.inr (Or.inr (Or.inr (Or.inr ⟨by decide, by decide, by decide, rfl⟩)))

theorem fsmProcess_of_ticket (box : Secretbox) (lowBattery : Bool) {l : Lock}
    (waiting : l.state = .ticket) :
    fsmProcess box lowBattery l = (processTicketMsg box lowBattery l).2.andThen
      (afterTicketMsg (processTicketMsg box lowBattery l).1) := by
  rw [fsmProcess, waiting]

theorem fsmProcess_of_request (box : Secretbox) (lowBattery : Bool) {l : Lock}
    (waiting : l.state = .request) :
    fsmProcess box lowBattery l =
      (processRequestMsg box l).2.andThen (afterRequestMsg (processRequestMsg box l).1) := by
  rw [fsmProcess, waiting]

/-! ### The return paths of the processors -/

section Paths

variable (box : Secretbox) (lowBattery : Bool) (l : Lock)

/-- The shared end leaves the session nonce, fails to encrypt, or answers. -/
theorem respond_cases (state : State) (m : UInt8) (effects : List Effect) :
    (l.sessionNonce = lastNonce ∧
      respond box state m l effects = (0, ⟨l, effects, some .sessionNonce⟩)) ∨
    ∃ next, incrementArray l.sessionNonce = some next ∧
      (respond box state m l effects =
          (3, .emit { l with sessionNonce := next } (effects ++ [.returned 3])) ∨
        ∃ c, cryptoAuthEncrypt box (oneByte m) next l.sessionKey = some c ∧
          respond box state m l effects =
            (0, .emit { resetMsgBuffer l with
                state := state, sessionNonce := next, attWriteBuffer := ⟨0, message next c⟩ }
              (effects ++ [.encrypted l.sessionKey l.sessionNonce next m c, .resetMsgBuffer,
                sendResponse (message next c), .returned 0]))) := by
  cases raised : incrementArray l.sessionNonce with
  | none =>
      refine Or.inl ⟨incrementArray_eq_none.mp raised, ?_⟩
      simp only [respond, raised]
  | some next =>
      refine Or.inr ⟨next, rfl, ?_⟩
      cases encrypted : cryptoAuthEncrypt box (oneByte m) next l.sessionKey with
      | none =>
          left
          simp only [respond, raised, encrypted]
      | some c =>
          refine Or.inr ⟨c, rfl, ?_⟩
          simp only [respond, raised, encrypted]
          rfl

/-- The effects come first among those of the shared end. -/
theorem effects_respond (state : State) (m : UInt8) (effects : List Effect) :
    effects <+: (respond box state m l effects).2.events := by
  rcases respond_cases box l state m effects with ⟨-, same⟩ | ⟨next, -, same | ⟨c, -, same⟩⟩
  · rw [same]
  · rw [same]
    exact List.prefix_append _ _
  · rw [same]
    exact List.prefix_append _ _

/-- Where the response can be encrypted, it is. -/
theorem respond_of_sealed {box : Secretbox} {l : Lock} {next : Nonce} {m : UInt8}
    {c : Bytes (1 + 16)} (state : State) (raised : incrementArray l.sessionNonce = some next)
    (sealed : cryptoAuthEncrypt box (oneByte m) next l.sessionKey = some c)
    (effects : List Effect) :
    respond box state m l effects =
      (0, .emit { resetMsgBuffer l with
          state := state, sessionNonce := next, attWriteBuffer := ⟨0, message next c⟩ }
        (effects ++ [.encrypted l.sessionKey l.sessionNonce next m c, .resetMsgBuffer,
          sendResponse (message next c), .returned 0])) := by
  simp only [respond, raised, sealed]
  rfl

/-- The lock once a ticket has been accepted, before it answers. -/
def ticketAccepted (key : Key) : Lock :=
  { l with
    masterNonceEeprom := ticketNonce l.msgBuf.data
    sessionKey := key
    sessionNonce := zeroNonce }

/-- The response to an accepted ticket. -/
def ticketRsp : UInt8 := if lowBattery then ticketRcvSuccessLowBat else ticketRcvSuccess

theorem processTicketMsg_cases :
    (isValidTicketNonce (ticketNonce l.msgBuf.data) l.masterNonceEeprom = false ∧
      processTicketMsg box lowBattery l = (1, .emit l [.ticketMsg l.msgBuf.data, .returned 1])) ∨
    (isValidTicketNonce (ticketNonce l.msgBuf.data) l.masterNonceEeprom = true ∧
      ((ticketKey box l.masterKeyEeprom l.msgBuf.data = none ∧
          processTicketMsg box lowBattery l =
            (2, .emit { l with masterNonceEeprom := ticketNonce l.msgBuf.data }
              [.ticketMsg l.msgBuf.data, .eepromUpdate (ticketNonce l.msgBuf.data),
                .returned 2])) ∨
        ∃ key, ticketKey box l.masterKeyEeprom l.msgBuf.data = some key ∧
          processTicketMsg box lowBattery l =
            respond box .requestW (ticketRsp lowBattery) (ticketAccepted l key)
              [.ticketMsg l.msgBuf.data, .eepromUpdate (ticketNonce l.msgBuf.data),
                .ticketAccepted l.msgBuf.data key])) := by
  cases valid : isValidTicketNonce (ticketNonce l.msgBuf.data) l.masterNonceEeprom with
  | false =>
      refine Or.inl ⟨rfl, ?_⟩
      simp only [processTicketMsg, valid]
      rfl
  | true =>
      refine Or.inr ⟨rfl, ?_⟩
      cases found : ticketKey box l.masterKeyEeprom l.msgBuf.data with
      | none =>
          refine Or.inl ⟨rfl, ?_⟩
          simp only [processTicketMsg, valid, found]
          rfl
      | some key =>
          refine Or.inr ⟨key, rfl, ?_⟩
          simp only [processTicketMsg, valid, found]
          rfl

/-- A ticket above the EEPROM that opens is accepted. -/
theorem processTicketMsg_of_opens {key : Key}
    (fresh : isValidTicketNonce (ticketNonce l.msgBuf.data) l.masterNonceEeprom = true)
    (opens : ticketKey box l.masterKeyEeprom l.msgBuf.data = some key) :
    processTicketMsg box lowBattery l =
      respond box .requestW (ticketRsp lowBattery) (ticketAccepted l key)
        [.ticketMsg l.msgBuf.data, .eepromUpdate (ticketNonce l.msgBuf.data),
          .ticketAccepted l.msgBuf.data key] := by
  rcases processTicketMsg_cases box lowBattery l with
    ⟨invalid, -⟩ | ⟨-, ⟨closed, -⟩ | ⟨key', opened, same⟩⟩
  · rw [fresh] at invalid
    cases invalid
  · rw [opens] at closed
    cases closed
  · rw [opens] at opened
    cases opened
    exact same

/-- The session nonce after a ticket has been accepted is not the last one. -/
theorem respond_ticket_cases (key : Key) :
    ∃ next, incrementArray zeroNonce = some next ∧
      (respond box .requestW (ticketRsp lowBattery) (ticketAccepted l key)
          [.ticketMsg l.msgBuf.data, .eepromUpdate (ticketNonce l.msgBuf.data),
            .ticketAccepted l.msgBuf.data key] =
          (3, .emit { ticketAccepted l key with sessionNonce := next }
            [.ticketMsg l.msgBuf.data, .eepromUpdate (ticketNonce l.msgBuf.data),
              .ticketAccepted l.msgBuf.data key, .returned 3]) ∨
        ∃ c, cryptoAuthEncrypt box (oneByte (ticketRsp lowBattery)) next key = some c ∧
          respond box .requestW (ticketRsp lowBattery) (ticketAccepted l key)
              [.ticketMsg l.msgBuf.data, .eepromUpdate (ticketNonce l.msgBuf.data),
                .ticketAccepted l.msgBuf.data key] =
            (0, .emit { resetMsgBuffer (ticketAccepted l key) with
                state := .requestW, sessionNonce := next, attWriteBuffer := ⟨0, message next c⟩ }
              [.ticketMsg l.msgBuf.data, .eepromUpdate (ticketNonce l.msgBuf.data),
                .ticketAccepted l.msgBuf.data key,
                .encrypted key zeroNonce next (ticketRsp lowBattery) c, .resetMsgBuffer,
                sendResponse (message next c), .returned 0])) :=
  (respond_cases box (ticketAccepted l key) .requestW (ticketRsp lowBattery) _).resolve_left
    fun both => zeroNonce_ne_lastNonce both.1

theorem processRequestMsg_cases :
    (isValidSessionNonce (messageNonce (bufferedRequest l)) l.sessionNonce = false ∧
      processRequestMsg box l =
        (1, .emit { l with state := .requestW } [.requestMsg (bufferedRequest l), .returned 1])) ∨
    (isValidSessionNonce (messageNonce (bufferedRequest l)) l.sessionNonce = true ∧
      ((messageByte box l.sessionKey (bufferedRequest l) = none ∧
          processRequestMsg box l =
            (2, .emit { l with state := .requestW, sessionNonce := messageNonce (bufferedRequest l) }
              [.requestMsg (bufferedRequest l), .returned 2])) ∨
        ∃ request, messageByte box l.sessionKey (bufferedRequest l) = some request ∧
          processRequestMsg box l =
            respond box .requestW (rspCode request)
              { l with state := .requestW, sessionNonce := messageNonce (bufferedRequest l) }
              ([.requestMsg (bufferedRequest l),
                  .requestDecrypted l.sessionKey (bufferedRequest l) request] ++
                ((requestedRotation request).map (Effect.rotate .remote)).toList))) := by
  cases valid : isValidSessionNonce (messageNonce (bufferedRequest l)) l.sessionNonce with
  | false =>
      refine Or.inl ⟨rfl, ?_⟩
      simp only [processRequestMsg, valid]
      rfl
  | true =>
      refine Or.inr ⟨rfl, ?_⟩
      cases found : messageByte box l.sessionKey (bufferedRequest l) with
      | none =>
          refine Or.inl ⟨rfl, ?_⟩
          simp only [processRequestMsg, valid, found]
          rfl
      | some request =>
          refine Or.inr ⟨request, rfl, ?_⟩
          simp only [processRequestMsg, valid, found]
          rfl

/-- A request above the session nonce that opens is answered. -/
theorem processRequestMsg_of_opens {request : UInt8}
    (fresh : isValidSessionNonce (messageNonce (bufferedRequest l)) l.sessionNonce = true)
    (opens : messageByte box l.sessionKey (bufferedRequest l) = some request) :
    processRequestMsg box l =
      respond box .requestW (rspCode request)
        { l with state := .requestW, sessionNonce := messageNonce (bufferedRequest l) }
        ([.requestMsg (bufferedRequest l),
            .requestDecrypted l.sessionKey (bufferedRequest l) request] ++
          ((requestedRotation request).map (Effect.rotate .remote)).toList) := by
  rcases processRequestMsg_cases box l with
    ⟨invalid, -⟩ | ⟨-, ⟨closed, -⟩ | ⟨request', opened, same⟩⟩
  · rw [fresh] at invalid
    cases invalid
  · rw [opens] at closed
    cases closed
  · rw [opens] at opened
    cases opened
    exact same

end Paths

end Esloq
