/-
**The packets of the Bluetooth module (`main.c`, `uart.c`, `cmd_def.c`).**

`ble_process_packet` reads a header and a payload with one call of `uart_rx` each. One step of the
model is a count of the timer, a run of the interrupt routine, or the next thing the main loop does: a
call, or one memory access of `uart_rx`.

* `bleProcessPacket` — a call, and what it does when `uart_rx` returns.
* `Sent` — the module sends packets with known messages, without long gaps inside one.
* `ParsedExactly` — what `ble_process_packet` then has to do.
* `PacketStep.Slips` — the steps that go wrong.
-/

import Esloq.Firmware.UartRace
import Esloq.Lib.Prefixes

namespace Esloq

open Machine Prefixes

/-! ### Messages -/

/-- `struct ble_header`. -/
structure BleHeader where
  typeHilen : UInt8
  lolen : UInt8
  cls : UInt8
  command : UInt8
  deriving DecidableEq

/-- The bytes of a header. -/
def BleHeader.bytes (hdr : BleHeader) : List UInt8 := [hdr.typeHilen, hdr.lolen, hdr.cls, hdr.command]

/-- The header in some bytes. -/
def BleHeader.ofBytes (bytes : List UInt8) : BleHeader :=
  ⟨bytes.getD 0 0, bytes.getD 1 0, bytes.getD 2 0, bytes.getD 3 0⟩

/-- A message whose handler is called: an event or a response, of a class. -/
structure BleMsg where
  event : Bool
  cls : UInt8
  command : UInt8
  deriving DecidableEq

/-- `maxhandlers` of the classes of `ble_class_evt_handlers`. -/
def bleClassEvtHandlers : List Nat := [7, 1, 3, 5, 7, 5, 2, 4, 0, 1]

/-- `maxhandlers` of the classes of `ble_class_rsp_handlers`. -/
def bleClassRspHandlers : List Nat := [18, 9, 6, 9, 12, 8, 11, 21, 7, 4]

/-- `ble_get_msg_hdr`. -/
def bleGetMsgHdr (hdr : BleHeader) : Option BleMsg :=
  let event : Bool := hdr.typeHilen &&& 0x80 = 0x80
  match (if event then bleClassEvtHandlers else bleClassRspHandlers)[hdr.cls.toNat]? with
  | some maxhandlers =>
      if hdr.command.toNat < maxhandlers then some ⟨event, hdr.cls, hdr.command⟩ else none
  | none => none

/-- `MAX_PAYLOAD`. -/
def maxPayload : Nat := 60

/-- A packet of the module with a known message, whose length is in its low byte. -/
structure BlePacket where
  hdr : BleHeader
  payload : List UInt8
  msg : BleMsg
  known : bleGetMsgHdr hdr = some msg
  high : hdr.typeHilen &&& 0x07 = 0
  length : payload.length = hdr.lolen.toNat
  short : hdr.lolen.toNat ≤ maxPayload

/-- What the module sends for a packet. -/
def BlePacket.bytes (packet : BlePacket) : List UInt8 := packet.hdr.bytes ++ packet.payload

/-! ### The main loop -/

/-- `UART_TIMEOUT`, in milliseconds. -/
def uartTimeout : Nat := 100

/-- A count of the timer: 256 cycles of a clock of 8 MHz. `UART_TIMEOUT` is 3125 of them. -/
def countsPerSecond : Nat := 8000000 / 256

/-- `cnt_threshold` of `uart_rx`. -/
def cntThreshold : UInt16 := UInt16.ofNat (countsPerSecond * uartTimeout / 1000 - 1)

/-- What a call of `uart_rx` reads. -/
inductive Reading
  | header
  | payload (hdr : BleHeader)
  deriving DecidableEq

/-- What the main loop is doing: something else than reading, a call of `uart_rx` with its next access, or
waiting for the watchdog in `soft_reset`. -/
inductive Task
  | elsewhere
  | reading (reading : Reading) (call : Call) (access : RxAccess)
  | resetting
  deriving DecidableEq

/-- The buffer, the timer, and the main loop. -/
structure Receiver where
  uart : Uart
  timer : UInt16
  task : Task
  deriving DecidableEq

/-- What can be observed. -/
inductive PacketEvent
  | received (byte : UInt8)
  /-- `ble_process_packet` is called. -/
  | called
  | stored (byte : UInt8)
  | counted
  | handler (msg : BleMsg) (data : List UInt8)
  | returned (code : Int)
  deriving DecidableEq

/-- What a step leaves. -/
abbrev PacketTurn := Turn Receiver PacketEvent Empty

/-- A call of `uart_rx` starts the timer. -/
def uartRx (reading : Reading) (len : UInt8) (r : Receiver) : Receiver :=
  { r with timer := 0, task := .reading reading ⟨len, 0, []⟩ .testSize }

/-- `ble_process_packet` returns; the main loop resets the device unless the value is 0 or -1. -/
def bleProcessPacketReturns (code : Int) (r : Receiver) : PacketTurn :=
  .emit { r with task := if 0 < code then .resetting else .elsewhere } [.returned code]

/-- `ble_get_msg_hdr`, and the handler. -/
def bleHandle (hdr : BleHeader) (data : List UInt8) (r : Receiver) : PacketTurn :=
  match bleGetMsgHdr hdr with
  | none => bleProcessPacketReturns 2 r
  | some msg => (Turn.emit r [.handler msg data]).andThen (bleProcessPacketReturns 0)

/-- The rest of `ble_process_packet` after a call of `uart_rx` has returned. -/
def bleProcessPacket (reading : Reading) (rrx : Int) (data : List UInt8) (r : Receiver) : PacketTurn :=
  match reading with
  | .header =>
      if rrx ≠ 0 then bleProcessPacketReturns rrx r
      else
        let hdr := BleHeader.ofBytes data
        if hdr.lolen ≠ 0 then .pure (uartRx (.payload hdr) hdr.lolen r) else bleHandle hdr [] r
  | .payload hdr => if rrx ≠ 0 then bleProcessPacketReturns 1 r else bleHandle hdr data r

/-- The events of an access. -/
def AccessEvent.packetEvent : AccessEvent → Option PacketEvent
  | .uart (.stored byte) => some (.stored byte)
  | .counted => some .counted
  | _ => none

/-- The value with which `uart_rx` returns. -/
def returnedCode (events : List AccessEvent) : Int :=
  (events.findSome? fun
    | .uart (.returned _ _ code) => some code
    | _ => none).getD 0

/-- `timer_16bit_reset` follows the store that counts a byte off. -/
def RxAccess.resets : RxAccess → Bool
  | .storeSize _ => true
  | _ => false

/-- The next thing the main loop does. -/
def Receiver.next (r : Receiver) : PacketTurn :=
  match r.task with
  | .elsewhere => .emit (uartRx .header 4 r) [.called]
  | .resetting => .pure r
  | .reading reading call access =>
      let turn := uartRxAccess (cntThreshold ≤ r.timer) call access r.uart
      match turn.state.call with
      | some (call, following) =>
          .emit ⟨turn.state.uart, if access.resets then 0 else r.timer, .reading reading call following⟩
            (turn.events.filterMap AccessEvent.packetEvent)
      | none => bleProcessPacket reading (returnedCode turn.events) call.data r

/-- A step. -/
inductive PacketStep
  | interrupt (byte : UInt8)
  | tick
  | next
  deriving DecidableEq

/-- One step; `soft_reset` masks the interrupts. -/
def packetStep (step : PacketStep) (r : Receiver) : PacketTurn :=
  match step with
  | .interrupt byte =>
      if r.task = .resetting then .pure r
      else .emit { r with uart := usartRxVect byte r.uart } [.received byte]
  | .tick => .pure { r with timer := r.timer + 1 }
  | .next => r.next

/-- The steps of a list from `uart_enable` on. -/
def packetRun (u : Uart) (steps : List PacketStep) : PacketTurn :=
  run packetStep steps ⟨uartEnable u, 0, .elsewhere⟩

/-! ### What there is to observe -/

/-- The bytes that have arrived. -/
def arrivals (events : List PacketEvent) : List UInt8 :=
  events.filterMap fun
    | .received byte => some byte
    | _ => none

/-- The number of bytes that have arrived and not been counted off. -/
def outstanding (events : List PacketEvent) : Nat := (arrivals events).length - events.count .counted

/-- What an event does to the bytes read since the last call of `ble_process_packet`. -/
def PacketEvent.consume (event : PacketEvent) (bytes : List UInt8) : List UInt8 :=
  match event with
  | .called => []
  | .stored byte => bytes ++ [byte]
  | _ => bytes

/-- The bytes read since the last call of `ble_process_packet`. -/
def consumed (events : List PacketEvent) : List UInt8 := After PacketEvent.consume events []

/-- A handler, or a return other than that of -1. -/
def PacketEvent.answers : PacketEvent → Bool
  | .handler _ _ => true
  | .returned code => code ≠ -1
  | _ => false

/-- What a packet is answered with. -/
def BlePacket.answer (packet : BlePacket) : List PacketEvent :=
  [.handler packet.msg packet.payload, .returned 0]

/-- -1 is returned only where no byte has been read. -/
def ReturnsUnread (past : List PacketEvent) (event : PacketEvent) : Prop :=
  event = .returned (-1) → consumed past = []

/-! ### The steps that go wrong -/

/-- Between the load of the counter and its store. -/
def Task.between : Task → Bool
  | .reading _ _ (.storeSize _) => true
  | _ => false

/-- At the test of the timer in a call that waits for more bytes of a packet. -/
def Task.within : Task → Bool
  | .reading part c .timer => part ≠ .header ∨ c.i ≠ 0
  | _ => false

/-- An interrupt in the window of the counter, one that fills the buffer, and a timer that has run out
within a packet. -/
def PacketStep.Slips (step : PacketStep) (before : PacketTurn) : Prop :=
  match step with
  | .interrupt _ =>
      before.state.task.between = true ∨ rxMaxBufferSize ≤ outstanding before.events + 1
  | .tick => False
  | .next => before.state.task.within = true ∧ cntThreshold ≤ before.state.timer

instance decidableSlips (before : PacketTurn) : (step : PacketStep) → Decidable (step.Slips before)
  | .interrupt _ => inferInstanceAs (Decidable (_ = true ∨ _ ≤ _ + 1))
  | .tick => isFalse not_false
  | .next => inferInstanceAs (Decidable (_ = true ∧ _ ≤ _))

/-! ### What was sent and what is handled -/

/-- The bytes the module has sent. -/
def sentBytes (steps : List PacketStep) : List UInt8 :=
  steps.filterMap fun
    | .interrupt byte => some byte
    | _ => none

/-- What a step does to the counts since the last byte was sent. -/
def PacketStep.countSince (step : PacketStep) (since : Nat) : Nat :=
  match step with
  | .interrupt _ => 0
  | .tick => since + 1
  | .next => since

/-- The counts since the last byte was sent. -/
def countsSince (steps : List PacketStep) : Nat := After PacketStep.countSince steps 0

/-- The module sends the packets, the gaps inside a packet stay below `UART_TIMEOUT`, and the buffer is
never overfull. -/
structure Sent (packets : List BlePacket) (u : Uart) (steps : List PacketStep) : Prop where
  order : sentBytes steps <+: packets.flatMap BlePacket.bytes
  gaps : ∀ done, done <+: steps →
    (∃ count, sentBytes done = (packets.take count).flatMap BlePacket.bytes) ∨
      countsSince done * 1000 < countsPerSecond * uartTimeout
  room : ∀ done, done <+: steps → outstanding (packetRun u done).events ≤ rxMaxBufferSize

/-- There is one handler and one return of 0 for each packet, in order, and within twenty accesses for each
byte that is there; the other calls return -1 without a byte read, and do so once the timer has run out
where no packet has started. -/
structure ParsedExactly (packets : List BlePacket) (u : Uart) (steps : List PacketStep) : Prop where
  answers : ∀ done, done <+: steps → ∃ count,
    (packetRun u done).events.filter PacketEvent.answers = (packets.take count).flatMap BlePacket.answer
  unread : Always ReturnsUnread (packetRun u steps).events
  prompt : ∀ done late count, done ++ late <+: steps →
    (packets.take count).flatMap BlePacket.bytes <+: sentBytes done →
    20 * ((sentBytes (done ++ late)).length - (packetRun u done).events.count .counted + 1) ≤
      late.count .next →
    (packets.take count).flatMap BlePacket.answer <+:
      (packetRun u (done ++ late)).events.filter PacketEvent.answers
  givesUp : ∀ done count part c access, done <+: steps →
    sentBytes done = (packets.take count).flatMap BlePacket.bytes →
    (packetRun u done).events.filter PacketEvent.answers = (packets.take count).flatMap BlePacket.answer →
    (packetRun u done).state.task = .reading part c access →
    cntThreshold ≤ (packetRun u done).state.timer →
    .returned (-1) ∈ (run packetStep [.next, .next] (packetRun u done).state).events

end Esloq
