/-
**The lock's memory, the messages it receives and the effects it has (`main.c`, `crypto.c`).**

* `Lock` — the global variables of the firmware: the FSM state, the receive buffer, the buffer of
  the outgoing response, the session, and the two EEPROM blocks.
* `BgapiMsg` — the messages of the Bluetooth module for which `main.c` has a handler; a message
  whose handler is one of the empty functions of `stubs.c` is `stub`.
* `Effect` — what the firmware does that can be observed: commands to the module, EEPROM writes,
  motor rotations, and the calls and verdicts of the two message processors.
* `powerUp` — a reset. SRAM is initialised, the EEPROM stays.
-/

import Esloq.Firmware.Nonce
import Esloq.Lib.Machine

namespace Esloq

open Machine

/-! ### Memory -/

/-- States in which the product can be. -/
inductive State
  | reset
  | bleBootW
  | bleBoot
  | systemAddressGetW
  | systemAddressGet
  | advParamSetW
  | advParamSet
  | advDataSetW
  | advDataSet
  | advSrDataSetW
  | advSrDataSet
  | advertisingW
  | advertising
  | advSleepW
  | advSleep
  | connected
  | ticket
  | requestW
  | request
  | disconnected
  deriving DecidableEq, Repr

/-- Buffer for incoming messages. -/
structure MsgBuffer where
  len : UInt8
  data : Bytes 72
  deriving DecidableEq

/-- Buffer for the outgoing response. -/
structure AttributesWriteBuffer where
  sectionSent : UInt8
  data : Bytes 41
  deriving DecidableEq

/-- `ROTATE_CCW` and `ROTATE_CW`. -/
inductive Rotation
  | ccw
  | cw
  deriving DecidableEq, Repr

/-- The request byte that asks for a rotation. -/
def Rotation.code : Rotation → UInt8
  | .ccw => 0
  | .cw => 1

/-- The response byte that reports a rotation: `UNLOCKED` or `LOCKED`. -/
def Rotation.rspCode : Rotation → UInt8
  | .ccw => 0
  | .cw => 1

/-- `TICKET_RCV_SUCCESS`. -/
def ticketRcvSuccess : UInt8 := 4

/-- `TICKET_RCV_SUCCESS_LOW_BAT`. -/
def ticketRcvSuccessLowBat : UInt8 := 6

/-- `INVALID_REQUEST`. -/
def invalidRequest : UInt8 := 255

/-- The global variables of the firmware; `request` is `none` for `-1`. -/
structure Lock where
  state : State
  msgBuf : MsgBuffer
  systemAddress : Bytes 6
  attWriteBuffer : AttributesWriteBuffer
  masterNonceEeprom : Nonce
  masterKeyEeprom : Key
  sessionNonce : Nonce
  sessionKey : Key
  request : Option Rotation
  deriving DecidableEq

/-! ### Messages and effects -/

/-- `BG_ATT_c_lock_transmit`. -/
def cLockTransmit : UInt16 := 17

/-- `BG_ATT_c_lock_receive`. -/
def cLockReceive : UInt16 := 21

/-- What the Bluetooth module sends, with the fields the handlers read. -/
inductive BgapiMsg
  | rspSystemAddressGet (address : Bytes 6)
  | rspGapSetAdvParameters
  | rspGapSetAdvData
  | rspGapSetMode
  | rspAttributesWrite (result : UInt16)
  | evtSystemBoot
  | evtConnectionStatus (flags : UInt8)
  | evtConnectionDisconnected
  | evtHardwareIoPortStatus
  | evtAttributesValue (handle : UInt16) (value : List UInt8)
  | stub
  deriving DecidableEq

/-- The commands the firmware sends to the module. -/
inductive BleCmd
  | systemAddressGet
  | gapSetAdvParameters (intervalMin intervalMax : UInt16) (channels : UInt8)
  | gapSetAdvData (setScanrsp : UInt8) (advData : List UInt8)
  | gapSetMode (discover connect : UInt8)
  | attributesWrite (handle : UInt16) (offset : UInt8) (value : List UInt8)
  deriving DecidableEq

/-- Who started a rotation. -/
inductive Origin
  | remote
  | button
  deriving DecidableEq, Repr

/-- What can be observed of the firmware. -/
inductive Effect
  /-- A command to the module. -/
  | cmd (command : BleCmd)
  /-- A write to `c_lock_receive` reaches its handler. -/
  | received (value : List UInt8)
  | resetMsgBuffer
  /-- `process_ticket_msg` is called with these bytes in the buffer. -/
  | ticketMsg (msg : Bytes 72)
  | eepromUpdate (nonce : Nonce)
  /-- The ticket authenticates and its session key is installed. -/
  | ticketAccepted (msg : Bytes 72) (key : Key)
  /-- `process_request_msg` is called with these bytes in the buffer. -/
  | requestMsg (msg : Bytes 41)
  /-- The request authenticates under the session key. -/
  | requestDecrypted (key : Key) (msg : Bytes 41) (request : UInt8)
  | rotate (origin : Origin) (direction : Rotation)
  /-- A response is encrypted under the session key and the nonce after the stored one. -/
  | encrypted (key : Key) (stored nonce : Nonce) (m : UInt8) (c : Bytes 17)
  /-- The return value of a message processor. -/
  | returned (code : UInt8)
  | softReset
  deriving DecidableEq

/-- The accesses outside an array that stop the model. -/
inductive Fault
  /-- The copy into `msg_buf.data` in `ble_evt_attributes_value`. -/
  | msgBuf
  /-- The carry loop of `increment_array` on the session nonce. -/
  | sessionNonce
  deriving DecidableEq, Repr

/-- What a part of the main loop leaves. -/
abbrev LockTurn := Turn Lock Effect Fault

/-! ### The parts of a message -/

/-- The first `NONCE_LEN` bytes of a ticket. -/
def ticketNonce (msg : Bytes 72) : Nonce := msg.slice 0 24 (by decide)

/-- The authenticator and ciphertext of a ticket. -/
def ticketCipher (msg : Bytes 72) : Bytes (32 + 16) := msg.slice 24 (32 + 16) (by decide)

/-- The first `NONCE_LEN` bytes of a request or response. -/
def messageNonce (msg : Bytes 41) : Nonce := msg.slice 0 24 (by decide)

/-- The authenticator and ciphertext of a request or response. -/
def messageCipher (msg : Bytes 41) : Bytes (1 + 16) := msg.slice 24 (1 + 16) (by decide)

/-- A request or response: nonce, authenticator, ciphertext. -/
def message (nonce : Nonce) (c : Bytes (1 + 16)) : Bytes 41 := nonce ++ c

@[simp] theorem messageNonce_message (nonce : Nonce) (c : Bytes (1 + 16)) :
    messageNonce (message nonce c) = nonce := Bytes.slice_append_left nonce c _

@[simp] theorem messageCipher_message (nonce : Nonce) (c : Bytes (1 + 16)) :
    messageCipher (message nonce c) = c := Bytes.slice_append_right nonce c _

/-- A message is its parts. -/
theorem message_split (msg : Bytes 41) : message (messageNonce msg) (messageCipher msg) = msg :=
  @Bytes.slice_append_slice 24 17 msg

/-- A ticket: nonce, authenticator, ciphertext. -/
def ticketMessage (nonce : Nonce) (c : Bytes (32 + 16)) : Bytes 72 := nonce ++ c

@[simp] theorem ticketNonce_ticketMessage (nonce : Nonce) (c : Bytes (32 + 16)) :
    ticketNonce (ticketMessage nonce c) = nonce := Bytes.slice_append_left nonce c _

@[simp] theorem ticketCipher_ticketMessage (nonce : Nonce) (c : Bytes (32 + 16)) :
    ticketCipher (ticketMessage nonce c) = c := Bytes.slice_append_right nonce c _

/-! ### Resets -/

/-- `msg_buf` and `att_write_buffer` at startup. -/
def emptyMsgBuffer : MsgBuffer := ⟨0, Bytes.zeros 72⟩

/-- The lock when it is switched on: SRAM is initialised and `main` waits for the module to boot. -/
def bootLock (masterNonce : Nonce) (masterKey : Key) : Lock where
  state := .bleBootW
  msgBuf := emptyMsgBuffer
  systemAddress := Bytes.zeros 6
  attWriteBuffer := ⟨0, Bytes.zeros 41⟩
  masterNonceEeprom := masterNonce
  masterKeyEeprom := masterKey
  sessionNonce := zeroNonce
  sessionKey := Bytes.zeros 32
  request := none

/-- A reset keeps nothing but the EEPROM. -/
def powerUp (l : Lock) : Lock := bootLock l.masterNonceEeprom l.masterKeyEeprom

/-- The nonce in the EEPROM after some effects. -/
def eepromAfter (nonce : Nonce) (effects : List Effect) : Nonce :=
  effects.foldl (fun nonce effect =>
    match effect with
    | .eepromUpdate newer => newer
    | _ => nonce) nonce

theorem eepromAfter_append (nonce : Nonce) (first second : List Effect) :
    eepromAfter nonce (first ++ second) = eepromAfter (eepromAfter nonce first) second :=
  List.foldl_append

/-- The lock with the EEPROM as some effects leave it. -/
def writeBack (l : Lock) (effects : List Effect) : Lock :=
  { l with masterNonceEeprom := eepromAfter l.masterNonceEeprom effects }

/-- `reset_msg_buffer`. -/
def resetMsgBuffer (l : Lock) : Lock := { l with msgBuf := { l.msgBuf with len := 0 } }

end Esloq
