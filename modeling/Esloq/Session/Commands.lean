/-
**The commands on the wire (`main.c`, `cmd_def.c`, `uart.c`).**

Every command of the firmware is a macro around `ble_send_message`, whose output goes through
`ble_send_packet` to `uart_tx`; where that reports a timeout the device is reset. The module reads packets
behind their length, and the arguments as the packed structures of `cmd_def.h` have them.

* `BleCmd.send`, `sendCommands` — a command, and commands up to the first that is not sent.
* `readCommand` — the command in a packet (`readCommand_packet`).
* `mainRun_short` — every command of a run fits into a packet.
* `commands_understood` — and while the commands of a run are sent the module reads a beginning of them, in
  their order and nothing else, wherever a wait runs into the timeout but at a length byte.
-/

import Esloq.Firmware.Bgapi
import Esloq.Firmware.Transmit
import Esloq.Session.Advertised

namespace Esloq

open Machine Packed Records

/-! ### Sending -/

namespace BleCmd

/-- The entry of `apis` for a command. -/
def api : BleCmd → BleApi
  | .systemAddressGet => ⟨⟨0x00, 0x0, 0, 2⟩, 0x0⟩
  | .gapSetAdvParameters _ _ _ => ⟨⟨0x00, 0x5, 6, 8⟩, 0x244⟩
  | .gapSetAdvData _ _ => ⟨⟨0x00, 0x2, 6, 9⟩, 0x82⟩
  | .gapSetMode _ _ => ⟨⟨0x00, 0x2, 6, 1⟩, 0x22⟩
  | .attributesWrite _ _ _ => ⟨⟨0x00, 0x4, 2, 0⟩, 0x824⟩

/-- The arguments that the macro hands to `ble_send_message`. -/
def values : BleCmd → List Value
  | .systemAddressGet => []
  | .gapSetAdvParameters intervalMin intervalMax channels =>
      [.int intervalMin.toNat, .int intervalMax.toNat, .int channels.toNat]
  | .gapSetAdvData setScanrsp advData => [.int setScanrsp.toNat, .array advData]
  | .gapSetMode discover connect => [.int discover.toNat, .int connect.toNat]
  | .attributesWrite handle offset value => [.int handle.toNat, .int offset.toNat, .array value]

end BleCmd

/-- `ble_send_packet`, up to the reset. `uart_tx` takes both lengths as bytes. -/
def bleSendPacket (data1 data2 : List UInt8) (lines : List Line) : Transmission :=
  uartTx (data1.take (data1.length % 256)) (data2.take (data2.length % 256)) (UInt16.ofNat uartTimeout) lines

/-- A command is sent. -/
def BleCmd.send (command : BleCmd) (stale : ℕ → UInt8) (lines : List Line) : Transmission :=
  let (data1, data2) := bleSendMessage stale command.api command.values
  bleSendPacket data1 data2 lines

/-- Commands are sent one after the other. Where `uart_tx` reports a timeout, `soft_reset` is called. What is
on the stack may differ from call to call. -/
def sendCommands : List BleCmd → (ℕ → ℕ → UInt8) → List Line → Transmission
  | [], _, lines => ⟨[], some 0, lines⟩
  | command :: later, stale, lines =>
      (command.send (stale 0) lines).andThen fun code lines =>
        if code ≠ 0 then ⟨[], some (-1), lines⟩ else sendCommands later (fun call => stale (call + 1)) lines

/-! ### Reading -/

/-- The packed structures of `cmd_def.h`, by the class and the number of a command. -/
def cmdFields : ℕ → ℕ → Option (List Field)
  | 0, 2 => some []
  | 6, 8 => some [.int 2, .int 2, .int 1]
  | 6, 9 => some [.int 1, .array 1]
  | 6, 1 => some [.int 1, .int 1]
  | 2, 0 => some [.int 2, .int 1, .array 1]
  | _, _ => none

/-- The command that has some arguments. -/
def cmdOfValues : ℕ → ℕ → List Value → Option BleCmd
  | 0, 2, [] => some .systemAddressGet
  | 6, 8, [.int advIntervalMin, .int advIntervalMax, .int advChannels] =>
      some (.gapSetAdvParameters (UInt16.ofNat advIntervalMin) (UInt16.ofNat advIntervalMax)
        (UInt8.ofNat advChannels))
  | 6, 9, [.int setScanrsp, .array advData] => some (.gapSetAdvData (UInt8.ofNat setScanrsp) advData)
  | 6, 1, [.int discover, .int connect] => some (.gapSetMode (UInt8.ofNat discover) (UInt8.ofNat connect))
  | 2, 0, [.int handle, .int offset, .array value] =>
      some (.attributesWrite (UInt16.ofNat handle) (UInt8.ofNat offset) value)
  | _, _, _ => none

/-- The command in a packet, if the packet is as long as its header says and its structure fills it. -/
def readCommand (packet : Record) : Option BleCmd :=
  let message := packet.1 :: packet.2
  let header := BleHeader.ofBytes message
  if 4 + header.length = message.length then
    (cmdFields header.cls.toNat header.command.toNat).bind fun fields =>
      match read fields (message.drop 4) with
      | some (values, []) => cmdOfValues header.cls.toNat header.command.toNat values
      | _ => none
  else none

/-! ### A command -/

namespace BleCmd

variable (command : BleCmd)

/-- The array among the arguments. -/
def array : BleCmd → List UInt8
  | .gapSetAdvData _ advData => advData
  | .attributesWrite _ _ value => value
  | _ => []

/-- The array leaves room in a packet, whose length is a byte. -/
def Short : Prop := command.array.length < 247

instance : Decidable command.Short := inferInstanceAs (Decidable (_ < _))

theorem array_eq : command.values.flatMap Field.tail = command.array := by
  cases command with
  | gapSetAdvData _ _ | attributesWrite _ _ _ => exact List.append_nil _
  | _ => rfl

theorem api_mem : command.api ∈ apis :=
  match command with
  | .systemAddressGet => show (⟨⟨0x00, 0x0, 0, 2⟩, 0x0⟩ : BleApi) ∈ apis by decide +kernel
  | .gapSetAdvParameters _ _ _ => show (⟨⟨0x00, 0x5, 6, 8⟩, 0x244⟩ : BleApi) ∈ apis by decide +kernel
  | .gapSetAdvData _ _ => show (⟨⟨0x00, 0x2, 6, 9⟩, 0x82⟩ : BleApi) ∈ apis by decide +kernel
  | .gapSetMode _ _ => show (⟨⟨0x00, 0x2, 6, 1⟩, 0x22⟩ : BleApi) ∈ apis by decide +kernel
  | .attributesWrite _ _ _ => show (⟨⟨0x00, 0x4, 2, 0⟩, 0x824⟩ : BleApi) ∈ apis by decide +kernel

theorem wellFormed_api : command.api.WellFormed := wellFormed_apis _ command.api_mem

/-- The parameters of the entry are the fields of the structure. -/
theorem cmdFields_api : cmdFields command.api.hdr.cls.toNat command.api.hdr.command.toNat =
    some (bleParameters command.api.params) :=
  match command with
  | .systemAddressGet => show some [] = some (bleParameters 0x0) by decide +kernel
  | .gapSetAdvParameters _ _ _ =>
      show some [.int 2, .int 2, .int 1] = some (bleParameters 0x244) by decide +kernel
  | .gapSetAdvData _ _ => show some [.int 1, .array 1] = some (bleParameters 0x82) by decide +kernel
  | .gapSetMode _ _ => show some [.int 1, .int 1] = some (bleParameters 0x22) by decide +kernel
  | .attributesWrite _ _ _ =>
      show some [.int 2, .int 1, .array 1] = some (bleParameters 0x824) by decide +kernel

theorem cmdOfValues_values : cmdOfValues command.api.hdr.cls.toNat command.api.hdr.command.toNat command.values =
    some command := by
  cases command <;> simp [cmdOfValues, api, values]

variable {command}

/-- The arguments fit the parameters. -/
theorem Short.fits (short : command.Short) :
    List.Forall₂ Field.Fits (bleParameters command.api.params) command.values := by
  have small16 (number : UInt16) : number.toNat < 256 ^ 2 := number.toNat_lt
  have small8 (number : UInt8) : number.toNat < 256 ^ 1 := number.toNat_lt
  have room : command.array.length < 256 ^ 1 := Nat.lt_trans short (by decide)
  have same := cmdFields_api command
  cases command with
  | systemAddressGet =>
      rw [← Option.some.inj same]
      exact .nil
  | gapSetAdvParameters intervalMin intervalMax channels =>
      rw [← Option.some.inj same]
      exact .cons (small16 _) (.cons (small16 _) (.cons (small8 _) .nil))
  | gapSetAdvData setScanrsp data =>
      rw [← Option.some.inj same]
      exact .cons (small8 _) (.cons room .nil)
  | gapSetMode discover connect =>
      rw [← Option.some.inj same]
      exact .cons (small8 _) (.cons (small8 _) .nil)
  | attributesWrite handle offset value =>
      rw [← Option.some.inj same]
      exact .cons (small16 _) (.cons (small8 _) (.cons room .nil))

variable (command)

/-- The header of a command, with the length of its array. -/
def header : BleHeader := command.api.hdr.addLength (UInt16.ofNat command.array.length)

/-- The packet of a command. -/
def packet : Record :=
  (command.header.typeHilen, [command.header.lolen, command.header.cls, command.header.command] ++
    (heads (bleParameters command.api.params) command.values ++ command.array))

/-- The packet behind its length byte. -/
theorem txFrame_packet :
    txFrame (command.header.bytes ++ heads (bleParameters command.api.params) command.values) command.array =
      command.packet.bytes := by
  have length : (command.header.bytes ++ heads (bleParameters command.api.params) command.values).length +
      command.array.length = command.packet.2.length + 1 := by
    simp only [packet, BleHeader.bytes, List.length_append, List.length_cons, List.length_nil]
    omega
  rw [txFrame, Record.bytes, length, List.append_assoc]
  rfl

variable {command}

theorem Short.message (short : command.Short) (stale : ℕ → UInt8) :
    bleSendMessage stale command.api command.values =
      (command.header.bytes ++ heads (bleParameters command.api.params) command.values, command.array) := by
  rw [bleSendMessage_eq command.wellFormed_api short.fits, command.array_eq]
  rfl

theorem Short.length_heads (short : command.Short) :
    (heads (bleParameters command.api.params) command.values).length ≤ 5 := by
  rw [Packed.length_heads short.fits, command.wellFormed_api.sized]
  cases command <;> simp [api]

/-- The length of the packet fits into its byte. -/
theorem Short.length_packet (short : command.Short) : command.packet.2.length < 255 := by
  have heads := short.length_heads
  have array : command.array.length < 247 := short
  simp only [packet, List.length_append, List.length_cons, List.length_nil]
  omega

/-- What `uart_tx` is to write for a command is its packet. -/
theorem Short.send (short : command.Short) (stale : ℕ → UInt8) (lines : List Line) :
    command.send stale lines =
      uartTx (command.header.bytes ++ heads (bleParameters command.api.params) command.values) command.array
        (UInt16.ofNat uartTimeout) lines := by
  have whole {data : List UInt8} (small : data.length < 256) : data.take (data.length % 256) = data := by
    rw [Nat.mod_eq_of_lt small, List.take_length]
  have heads := short.length_heads
  have array : command.array.length < 247 := short
  unfold BleCmd.send
  rw [short.message]
  show bleSendPacket _ _ _ = _
  rw [bleSendPacket, whole, whole (Nat.lt_trans array (by decide))]
  rw [List.length_append]
  show 4 + _ < 256
  omega

/-- **A command is read out of its packet.** -/
theorem readCommand_packet (short : command.Short) : readCommand command.packet = some command := by
  have back := command.wellFormed_api.readBack short.fits fun _ => 0
  rw [short.message] at back
  have same : (command.header.bytes ++ heads (bleParameters command.api.params) command.values) ++ command.array =
      command.packet.1 :: command.packet.2 := by
    rw [List.append_assoc]
    rfl
  rw [same] at back
  unfold readCommand
  rw [if_pos back.length, back.cls, back.command, cmdFields_api, Option.bind_some, back.values]
  exact cmdOfValues_values command

end BleCmd

example : (BleCmd.gapSetAdvParameters 320 350 7).packet.bytes =
    [9, 0x00, 5, 6, 8, 0x40, 0x01, 0x5e, 0x01, 7] := by
  decide +kernel

/-! ### Commands one after the other -/

/-- The loop over an array writes as much of it as there are waits before the first timeout. -/
theorem written_sendAll (timeoutMs : UInt16) (data : List UInt8) (lines : List Line) :
    (sendAll timeoutMs data lines).written =
      data.take (clearRun (waits (sendThreshold timeoutMs) false lines)) := by
  induction data generalizing lines with
  | nil => exact List.take_nil.symm
  | cons byte data ih =>
      rw [sendAll]
      rcases sendByte_spec byte timeoutMs lines with
        ⟨pending, ended⟩ | ⟨rest, sent, going⟩ | ⟨rest, late, failed⟩
      · rw [pending, ended]
        rfl
      · rw [sent, going, clearRun_true, List.take_succ_cons, ← ih rest]
        rfl
      · rw [late, failed]
        rfl

/-- What is left of the waits behind an array. -/
theorem waits_sendAll {timeoutMs : UInt16} {data : List UInt8} {lines : List Line}
    (whole : (sendAll timeoutMs data lines).result = some 0) :
    waits (sendThreshold timeoutMs) false (sendAll timeoutMs data lines).lines =
      (waits (sendThreshold timeoutMs) false lines).drop data.length := by
  induction data generalizing lines with
  | nil => rfl
  | cons byte data ih =>
      rw [sendAll] at whole ⊢
      rcases sendByte_spec byte timeoutMs lines with
        ⟨pending, ended⟩ | ⟨rest, sent, going⟩ | ⟨rest, late, failed⟩
      · rw [pending] at whole
        cases whole
      · rw [sent] at whole ⊢
        rw [going, List.length_cons, List.drop_succ_cons]
        exact ih whole
      · rw [late] at whole
        cases whole

/-- `uart_tx` is one loop over the frame, unless the wait for the length byte runs into the timeout. -/
theorem uartTx_eq_sendAll {data1 data2 : List UInt8} {timeoutMs : UInt16} {lines : List Line}
    (clear : (waits (sendThreshold timeoutMs) false lines)[0]? ≠ some false) :
    uartTx data1 data2 timeoutMs lines = sendAll timeoutMs (txFrame data1 data2) lines := by
  rw [uartTx_eq, lengthByte_eq, txFrame, sendAll]
  rcases sendByte_spec (UInt8.ofNat (data1.length + data2.length)) timeoutMs lines with
    ⟨pending, ended⟩ | ⟨rest, sent, going⟩ | ⟨rest, late, failed⟩
  · rw [pending]
    rfl
  · rw [sent]
    rfl
  · exact absurd (congrArg (·[0]?) failed) clear

/-- No wait for a length byte runs into the timeout. -/
def LengthsClear (commands : List BleCmd) (outcomes : List Bool) : Prop :=
  ∀ index < commands.length,
    outcomes[(Records.encode ((commands.take index).map BleCmd.packet)).length]? ≠ some false

instance (commands : List BleCmd) (outcomes : List Bool) : Decidable (LengthsClear commands outcomes) :=
  inferInstanceAs (Decidable (∀ index < commands.length, _))

/-- Commands are sent like one array that consists of their packets. -/
theorem sendCommands_eq {commands : List BleCmd} (short : ∀ command ∈ commands, command.Short)
    (stale : ℕ → ℕ → UInt8) {lines : List Line}
    (clear : LengthsClear commands (waits (sendThreshold (UInt16.ofNat uartTimeout)) false lines)) :
    sendCommands commands stale lines =
      sendAll (UInt16.ofNat uartTimeout) (Records.encode (commands.map BleCmd.packet)) lines := by
  induction commands generalizing stale lines with
  | nil => rfl
  | cons command commands ih =>
      have first := clear 0 (Nat.succ_pos _)
      rw [sendCommands, (short command List.mem_cons_self).send, uartTx_eq_sendAll first, command.txFrame_packet]
      show _ = sendAll _ (command.packet.bytes ++ Records.encode (commands.map BleCmd.packet)) lines
      rw [sendAll_append]
      unfold Transmission.andThen
      cases returned : (sendAll (UInt16.ofNat uartTimeout) command.packet.bytes lines).result with
      | none => rfl
      | some code =>
          by_cases failed : code ≠ 0
          · simp only [if_pos failed]
          · have whole : code = 0 := not_not.mp failed
            subst whole
            have later : LengthsClear commands (waits (sendThreshold (UInt16.ofNat uartTimeout)) false
                (sendAll (UInt16.ofNat uartTimeout) command.packet.bytes lines).lines) := by
              intro index inside
              have behind := clear (index + 1) (Nat.succ_lt_succ inside)
              rw [waits_sendAll returned, List.getElem?_drop]
              rwa [List.take_succ_cons, List.map_cons,
                show Records.encode (command.packet :: (commands.take index).map BleCmd.packet) =
                  command.packet.bytes ++ Records.encode ((commands.take index).map BleCmd.packet) from rfl,
                List.length_append] at behind
            simp only [if_neg failed,
              ih (fun other member => short other (List.mem_cons_of_mem _ member)) _ later]

/-- What the module makes of what is written while some commands are sent: it reads the first of them, and all
exactly if the last call has returned 0. -/
structure Understood (commands : List BleCmd) (sent : Transmission) : Prop where
  reads : ∃ done later, commands = done ++ later ∧ (complete sent.written).map readCommand = done.map some ∧
    (sent.result = some 0 ↔ later = [])

/-- Commands that fit into packets are understood. -/
theorem understood_of_short {commands : List BleCmd} (short : ∀ command ∈ commands, command.Short)
    (stale : ℕ → ℕ → UInt8) {lines : List Line}
    (clear : LengthsClear commands (waits (sendThreshold (UInt16.ofNat uartTimeout)) false lines)) :
    Understood commands (sendCommands commands stale lines) := by
  have fits : ∀ packet ∈ commands.map BleCmd.packet, packet.2.length < 255 := by
    intro packet member
    obtain ⟨command, listed, rfl⟩ := List.mem_map.mp member
    exact (short command listed).length_packet
  rw [sendCommands_eq short stale clear]
  obtain ⟨packets, rest, split, read, all⟩ := complete_take_encode _ fits
    (clearRun (waits (sendThreshold (UInt16.ofNat uartTimeout)) false lines))
  obtain ⟨done, later, rfl, rfl, rfl⟩ := List.map_eq_append_iff.mp split
  refine ⟨done, later, rfl, ?_, ?_⟩
  · rw [written_sendAll, read, List.map_map]
    refine List.map_congr_left fun command member => ?_
    exact BleCmd.readCommand_packet (short command (List.mem_append_left _ member))
  · rw [← List.map_eq_nil_iff, all]
    rcases sendAll_spec (UInt16.ofNat uartTimeout) (Records.encode ((done ++ later).map BleCmd.packet)) lines rfl with
      ⟨enough, result, -⟩ | ⟨less, -, result, -⟩ | ⟨less, -, result⟩
    · exact iff_of_true result enough
    · rw [result]
      exact iff_of_false (by decide) (by omega)
    · rw [result]
      exact iff_of_false nofun (by omega)

/-! ### The commands of a run -/

/-- A command among the effects fits into a packet. -/
def Effect.Short : Effect → Prop
  | .cmd command => command.Short
  | _ => True

theorem short_of_emits {turn : LockTurn} (emits : turn.Emits Effect.Short) :
    ∀ command ∈ commands turn.events, command.Short := by
  intro command member
  obtain ⟨effect, listed, named⟩ := List.mem_filterMap.mp member
  cases effect with
  | cmd other =>
      cases named
      exact emits _ listed
  | _ => cases named

/-- A section of a response. -/
theorem short_section {count : ℕ} (small : count ≤ 20) (section' : Bytes count) :
    Effect.Short (.cmd (.attributesWrite cLockTransmit 0 section'.toList)) := by
  show section'.toList.length < 247
  rw [List.Vector.toList_length]
  omega

/-- Effects other than commands. -/
theorem short_of_others {effects : List Effect} (others : ∀ command, Effect.cmd command ∉ effects) :
    ∀ effect ∈ effects, effect.Short := by
  intro effect member
  cases effect with
  | cmd command => exact absurd member (others command)
  | _ => trivial

theorem bleHandler_short (msg : BgapiMsg) (l : Lock) : (bleHandler msg l).Emits Effect.Short := by
  cases msg with
  | rspAttributesWrite result =>
      show (bleRspAttributesWrite result l).Emits _
      unfold bleRspAttributesWrite
      dsimp only
      split
      · exact .silent
      · split
        · exact .single (short_section (by decide) _)
        · split
          · exact .single (short_section (by decide) _)
          · exact .silent
  | rspGapSetAdvData =>
      show (bleRspGapSetAdvData l).Emits _
      unfold bleRspGapSetAdvData
      split
      · exact .silent
      · split <;> exact .silent
  | evtConnectionStatus flags =>
      show (bleEvtConnectionStatus flags l).Emits _
      unfold bleEvtConnectionStatus
      split <;> exact .silent
  | evtAttributesValue handle value =>
      show (bleEvtAttributesValue handle value l).Emits _
      unfold bleEvtAttributesValue
      split
      · split <;> exact List.forall_mem_singleton.mpr trivial
      · exact .silent
  | _ => exact .silent

theorem respond_short {box : Secretbox} {state : State} {m : UInt8} {l : Lock} {effects : List Effect}
    (others : ∀ effect ∈ effects, effect.Short) : (respond box state m l effects).2.Emits Effect.Short := by
  rcases respond_cases box l state m effects with
    ⟨-, same⟩ | ⟨next, -, same | ⟨c, -, same⟩⟩
  · rw [same]
    exact others
  · rw [same]
    exact List.forall_mem_append.mpr ⟨others, List.forall_mem_singleton.mpr trivial⟩
  · rw [same]
    refine List.forall_mem_append.mpr ⟨others, ?_⟩
    simp only [List.forall_mem_cons]
    exact ⟨trivial, trivial, short_section (by decide) _, trivial, nofun⟩

theorem fsmProcess_short (box : Secretbox) (lowBattery : Bool) (l : Lock) :
    (fsmProcess box lowBattery l).Emits Effect.Short := by
  have afterTicket (code : UInt8) (l : Lock) : (afterTicketMsg code l).Emits Effect.Short := by
    unfold afterTicketMsg
    split
    · exact .single trivial
    · exact .silent
  have afterRequest (code : UInt8) (l : Lock) : (afterRequestMsg code l).Emits Effect.Short := by
    unfold afterRequestMsg
    split
    · exact .single trivial
    · exact .silent
  have ticket : (processTicketMsg box lowBattery l).2.Emits Effect.Short := by
    rcases processTicketMsg_cases box lowBattery l with
      ⟨-, same⟩ | ⟨-, ⟨-, same⟩ | ⟨key, -, same⟩⟩
    · rw [same]
      exact short_of_others (by simp [Turn.emit])
    · rw [same]
      exact short_of_others (by simp [Turn.emit])
    · rw [same]
      exact respond_short (short_of_others (by simp))
  have request : (processRequestMsg box l).2.Emits Effect.Short := by
    rcases processRequestMsg_cases box l with ⟨-, same⟩ | ⟨-, ⟨-, same⟩ | ⟨request, -, same⟩⟩
    · rw [same]
      exact short_of_others (by simp [Turn.emit])
    · rw [same]
      exact short_of_others (by simp [Turn.emit])
    · rw [same]
      refine respond_short (short_of_others ?_)
      intro command member
      rcases List.mem_append.mp member with early | rotated
      · simp at early
      · obtain ⟨direction, -, other⟩ := mem_requestedRotation rotated
        cases other
  unfold fsmProcess
  split
  · exact .single (show BleCmd.Short _ by decide)
  · exact .single (show BleCmd.Short (.gapSetAdvParameters 320 350 7) by decide)
  · exact .single (show BleCmd.Short (.gapSetAdvData 0 advData) by decide)
  · refine .single (show ([18, 0xff] ++ addressText l.systemAddress ++ _ : List UInt8).length < 247 from ?_)
    rw [List.length_append, List.length_append, length_addressText]
    decide
  · exact .single (show BleCmd.Short (.gapSetMode 4 2) by decide)
  · exact .silent
  · exact ticket.andThen fun l => afterTicket _ l
  · exact request.andThen fun l => afterRequest _ l
  · refine List.forall_mem_cons.mpr ⟨trivial, List.forall_mem_singleton.mpr ?_⟩
    exact (show BleCmd.Short (.gapSetAdvParameters 320 350 7) by decide)
  · exact .silent

/-- **Every command of a run fits into a packet.** -/
theorem mainRun_short (box : Secretbox) (its : List Iteration) (l : Lock) :
    (mainRun box its l).Emits Effect.Short := by
  refine Turn.Emits.run (fun it _ l => ?_) l
  have whole : (wholeBody box it l).Emits Effect.Short := by
    refine (fsmProcess_short box it.lowBattery l).andThen fun l => ?_
    have button (l : Lock) : (processButton it.press l).Emits Effect.Short := by
      unfold processButton
      split
      · exact .single trivial
      · exact .silent
    cases it.packet with
    | timeout => exact button l
    | msg msg => exact (bleHandler_short msg l).andThen button
    | error => exact .single trivial
  rcases loopBody_cases box it l with same | ⟨done, rest, split, -, same⟩
  · rw [same]
    exact whole
  · rw [same]
    intro effect member
    rcases List.mem_append.mp member with early | reset
    · exact whole effect (split ▸ List.mem_append_left _ early)
    · rw [List.mem_singleton.mp reset]
      trivial

/-- **The module understands the commands of every run**, as far as they are sent, wherever a wait runs into
the timeout but at a length byte. -/
theorem commands_understood (box : Secretbox) (its : List Iteration) (l : Lock) (stale : ℕ → ℕ → UInt8)
    {lines : List Line}
    (clear : LengthsClear (commands (mainRun box its l).events)
      (waits (sendThreshold (UInt16.ofNat uartTimeout)) false lines)) :
    (∀ command ∈ commands (mainRun box its l).events, command.packet.2.length < 255) ∧
      Understood (commands (mainRun box its l).events)
        (sendCommands (commands (mainRun box its l).events) stale lines) := by
  have short := short_of_emits (mainRun_short box its l)
  exact ⟨fun command listed => (short command listed).length_packet, understood_of_short short stale clear⟩

/-- The module is clear for seven bytes, and then no more. -/
def clearForSeven : List Line := List.replicate 14 ⟨true, 0, true⟩ ++ [⟨false, 3124, true⟩]

/-- The second command is broken off: the module reads the first. -/
theorem commands_understood_brokenOff :
    (∀ command ∈ commands (mainRun keyTag
        [quietPass, pass (.rspSystemAddressGet (Bytes.zeros 6)), quietPass] bootedLock).events,
      command.packet.2.length < 255) ∧
    Understood
      (commands (mainRun keyTag [quietPass, pass (.rspSystemAddressGet (Bytes.zeros 6)), quietPass]
        bootedLock).events)
      (sendCommands
        (commands (mainRun keyTag [quietPass, pass (.rspSystemAddressGet (Bytes.zeros 6)), quietPass]
          bootedLock).events)
        (fun _ _ => 0xff) clearForSeven) :=
  commands_understood _ _ _ _ (by decide +kernel)

end Esloq
