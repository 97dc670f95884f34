/-
**The messages to the Bluetooth module (`ble_send_message` of `cmd_def.c`).**

An entry of the table `apis` has a header and a word of parameters, four bits each. The integers, the
addresses and the length of an array are written behind the header; an array itself is sent from where it
is, behind what the entry says is the length of the rest.

* `bleParameters`, `bleSendMessage` — the loop over the parameters, and what is handed to `bglib_output`.
* `BleApi.WellFormed` — the length of an entry is that of its parameters, of which only the last is an
  array. All commands of the table are (`wellFormed_apis`).
* `bleSendMessage_readBack` — every command can be read back, whatever its arguments and whatever was on
  the stack.
-/

import Esloq.Firmware.Malformed
import Esloq.Lib.Packed
import Mathlib.Data.Nat.Digits.Defs

namespace Esloq

open Packed

/-! ### The loop over the parameters -/

/-- An entry of `apis`, without its handler. -/
structure BleApi where
  hdr : BleHeader
  params : ℕ
  deriving DecidableEq

/-- `hdr.lolen` and `params` of the commands in `apis`, by class and command; all have zeros in
`hdr.type_hilen`. -/
def bleCommands : List (List (UInt8 × ℕ)) :=
  [ -- system
    [(0x1, 0x2), (0x0, 0x0), (0x0, 0x0), (0x3, 0x24), (0x2, 0x4), (0x0, 0x0), (0x0, 0x0), (0x5, 0x26),
      (0x0, 0x0), (0x2, 0x82), (0x7, 0x2a), (0x7, 0x2a), (0x0, 0x0), (0x2, 0x22), (0x3, 0x222), (0x1, 0x8),
      (0x1, 0x8), (0x1, 0x8)],
    -- flash
    [(0x0, 0x0), (0x0, 0x0), (0x0, 0x0), (0x3, 0x84), (0x2, 0x4), (0x2, 0x4), (0x1, 0x2), (0x5, 0x86),
      (0x5, 0x26)],
    -- attributes
    [(0x4, 0x824), (0x4, 0x44), (0x2, 0x4), (0x3, 0x822), (0x2, 0x22), (0x4, 0x842)],
    -- connection
    [(0x1, 0x2), (0x1, 0x2), (0x9, 0x44442), (0x1, 0x2), (0x1, 0x2), (0x2, 0x82), (0x1, 0x2), (0x1, 0x2),
      (0x2, 0x82)],
    -- attclient
    [(0x8, 0x84442), (0x6, 0x8442), (0x6, 0x8442), (0x5, 0x442), (0x3, 0x42), (0x4, 0x842), (0x4, 0x842),
      (0x1, 0x2), (0x3, 0x42), (0x6, 0x8442), (0x2, 0x22), (0x2, 0x82)],
    -- sm
    [(0x2, 0x22), (0x1, 0x2), (0x1, 0x2), (0x3, 0x222), (0x5, 0x62), (0x0, 0x0), (0x1, 0x8), (0x0, 0x0)],
    -- gap
    [(0x2, 0x22), (0x2, 0x22), (0x1, 0x2), (0xf, 0x44442a), (0x0, 0x0), (0x8, 0x4444), (0x3, 0x222),
      (0x5, 0x244), (0x5, 0x244), (0x2, 0x82), (0x7, 0x2a)],
    -- hardware
    [(0x3, 0x222), (0x6, 0x226), (0x3, 0x222), (0x2, 0x22), (0x2, 0x22), (0x3, 0x222), (0x3, 0x222),
      (0x2, 0x22), (0x6, 0x222222), (0x2, 0x82), (0x3, 0x222), (0x3, 0x822), (0x1, 0x2), (0x5, 0x4222),
      (0x2, 0x22), (0x2, 0x22), (0x1, 0x2), (0x0, 0x0), (0x1, 0x2), (0x1, 0x2), (0x1, 0x2)],
    -- test
    [(0x3, 0x222), (0x1, 0x2), (0x0, 0x0), (0x0, 0x0), (0x0, 0x0), (0x1, 0x8), (0x1, 0x2)],
    -- dfu
    [(0x1, 0x2), (0x4, 0x6), (0x1, 0x8), (0x0, 0x0)]]

/-- The commands in `apis`. -/
def apis : List BleApi :=
  bleCommands.zipIdx.flatMap fun (commands, cls) =>
    commands.zipIdx.map fun ((lolen, params), command) =>
      ⟨⟨0x00, lolen, UInt8.ofNat cls, UInt8.ofNat command⟩, params⟩

/-- The cases of `switch (i & 0xF)`. -/
def bleParameter : ℕ → Option Field
  | 7 | 6 => some (.int 4)
  | 5 | 4 => some (.int 2)
  | 3 | 2 => some (.int 1)
  | 9 | 8 => some (.array 1)
  | 10 => some (.raw 6)
  | 11 => some (.array 2)
  | _ => none

/-- The cases the passes of `while (i)` take, with `i = i >> 4` at the end of each. -/
def bleParameters (params : ℕ) : List Field := (Nat.digits 16 params).filterMap bleParameter

/-- `struct ble_cmd_packet` while it is written: its header, what is behind it up to `b`, and `data_len` bytes
at `data_ptr`. -/
structure BleCmdPacket where
  header : BleHeader
  payload : List UInt8
  data : List UInt8
  deriving DecidableEq

/-- The length of an array is added to that in the header. -/
def BleHeader.addLength (header : BleHeader) (dataLen : UInt16) : BleHeader :=
  let u16 := dataLen + header.lolen.toUInt16
  { header with
    lolen := (u16 &&& 0xff).toUInt8
    typeHilen := header.typeHilen ||| (u16 >>> 8).toUInt8 }

/-- One pass: the next argument is taken, as the parameter says. -/
def BleCmdPacket.put (packet : BleCmdPacket) (field : Field) (value : Value) : BleCmdPacket :=
  let packet := { packet with payload := packet.payload ++ field.head value }
  match value with
  | .array data =>
      { packet with header := packet.header.addLength (UInt16.ofNat data.length), data := data }
  | _ => packet

/-- The loop. -/
def bleSendParameters : List Field → List Value → BleCmdPacket → BleCmdPacket
  | field :: fields, value :: values, packet => bleSendParameters fields values (packet.put field value)
  | _, _, packet => packet

/-- `ble_send_message`: the two arrays for `bglib_output`. The first is as long as the entry says; behind
`b` there is what was on the stack. -/
def bleSendMessage (stale : ℕ → UInt8) (api : BleApi) (values : List Value) : List UInt8 × List UInt8 :=
  let packet := bleSendParameters (bleParameters api.params) values ⟨api.hdr, [], []⟩
  (packet.header.bytes ++ (List.range api.hdr.lolen.toNat).map (payloadArray stale packet.payload), packet.data)

/-! ### Reading back -/

/-- The length of an entry is that of its parameters without the elements of an array, which can only be
last and has one byte for its length. -/
structure BleApi.WellFormed (api : BleApi) : Prop where
  high : api.hdr.typeHilen &&& 0x07 = 0
  sized : ((bleParameters api.params).map Field.size).sum = api.hdr.lolen.toNat
  last : ArrayLast (bleParameters api.params)
  narrow : ∀ field ∈ bleParameters api.params, field.isArray = true → field = .array 1

instance (api : BleApi) : Decidable api.WellFormed :=
  decidable_of_iff (api.hdr.typeHilen &&& 0x07 = 0 ∧
      ((bleParameters api.params).map Field.size).sum = api.hdr.lolen.toNat ∧
        ArrayLast (bleParameters api.params) ∧
          ∀ field ∈ bleParameters api.params, field.isArray = true → field = .array 1)
    ⟨fun ⟨high, sized, last, narrow⟩ => ⟨high, sized, last, narrow⟩,
      fun ⟨high, sized, last, narrow⟩ => ⟨high, sized, last, narrow⟩⟩

theorem wellFormed_apis : ∀ api ∈ apis, api.WellFormed := by decide +kernel

example : apis.length = 105 := by decide +kernel

/-- What can be read out of a message: that it is of the entry, its length in all eleven bits, and the
arguments. -/
structure ReadBack (api : BleApi) (values : List Value) (message : List UInt8) : Prop where
  type : (BleHeader.ofBytes message).typeHilen &&& 0xf8 = api.hdr.typeHilen &&& 0xf8
  cls : (BleHeader.ofBytes message).cls = api.hdr.cls
  command : (BleHeader.ofBytes message).command = api.hdr.command
  length : 4 + (BleHeader.ofBytes message).length = message.length
  values : read (bleParameters api.params) (message.drop 4) = some (values, [])

/-- The two bytes of a length. -/
theorem toNat_low (u16 : UInt16) : (u16 &&& 0xff).toUInt8.toNat = u16.toNat % 256 := by
  have masked : u16.toNat &&& 255 = u16.toNat % 2 ^ 8 := Nat.and_two_pow_sub_one_eq_mod _ 8
  show (u16.toNat &&& 255) % 256 = _
  rw [masked]
  exact Nat.mod_mod _ _

theorem toNat_high (u16 : UInt16) : (u16 >>> 8).toUInt8.toNat = u16.toNat / 256 := by
  have small := u16.toNat_lt
  show u16.toNat >>> 8 % 256 = _
  rw [Nat.shiftRight_eq_div_pow]
  omega

/-- Nothing to add. -/
theorem BleHeader.addLength_zero (header : BleHeader) : header.addLength 0 = header := by
  have small := header.lolen.toNat_lt
  have same : ((0 : UInt16) + header.lolen.toUInt16).toNat = header.lolen.toNat := by simp
  have low : (((0 : UInt16) + header.lolen.toUInt16) &&& 0xff).toUInt8 = header.lolen := by
    rw [← UInt8.toNat_inj, toNat_low, same]
    exact Nat.mod_eq_of_lt small
  have high : (((0 : UInt16) + header.lolen.toUInt16) >>> 8).toUInt8 = 0 := by
    rw [← UInt8.toNat_inj, toNat_high, same]
    exact Nat.div_eq_of_lt small
  unfold BleHeader.addLength
  simp only [low, high, UInt8.or_zero]

/-- An integer or an address is written behind what there is. -/
theorem BleCmdPacket.put_fixed {field : Field} {value : Value} (fits : field.Fits value)
    (fixed : field.isArray = false) (packet : BleCmdPacket) :
    packet.put field value = { packet with payload := packet.payload ++ field.head value } := by
  match field, value, fits with
  | .int _, .int _, _ => rfl
  | .raw _, .raw _, _ => rfl
  | .array _, .array _, _ => cases fixed

/-- An array's length is written and added to that in the header. -/
theorem BleCmdPacket.put_array {field : Field} {value : Value} (fits : field.Fits value)
    (array : field.isArray = true) (packet : BleCmdPacket) :
    packet.put field value =
      ⟨packet.header.addLength (UInt16.ofNat (Field.tail value).length),
        packet.payload ++ field.head value, Field.tail value⟩ := by
  match field, value, fits with
  | .int _, .int _, _ => cases array
  | .raw _, .raw _, _ => cases array
  | .array _, .array _, _ => rfl

/-- **What the loop does**: the heads are written, the array is left where it is, and its length is added. -/
theorem bleSendParameters_eq {fields : List Field} {values : List Value}
    (fits : List.Forall₂ Field.Fits fields values) (last : ArrayLast fields) (header : BleHeader)
    (payload : List UInt8) :
    bleSendParameters fields values ⟨header, payload, []⟩ =
      ⟨header.addLength (UInt16.ofNat (values.flatMap Field.tail).length), payload ++ heads fields values,
        values.flatMap Field.tail⟩ := by
  induction fits generalizing payload with
  | nil =>
      show (⟨header, payload, []⟩ : BleCmdPacket) = ⟨header.addLength 0, payload ++ [], []⟩
      rw [BleHeader.addLength_zero, List.append_nil]
  | cons fit fits ih =>
      rename_i field value fields values
      rw [bleSendParameters, List.flatMap_cons, heads, ← List.append_assoc]
      cases array : field.isArray with
      | false =>
          rw [BleCmdPacket.put_fixed fit array, ih last.2, Field.tail_eq_nil fit array, List.nil_append]
      | true =>
          have none' : fields = [] := last.1 array
          subst none'
          cases fits
          rw [BleCmdPacket.put_array fit array, List.flatMap_nil, List.append_nil]
          simp only [heads, bleSendParameters, List.append_nil]

/-- The added length, as far as the header has room for it. -/
theorem BleHeader.toNat_addLength {header : BleHeader} {count : ℕ} (short : count + header.lolen.toNat < 2048) :
    (UInt16.ofNat count + header.lolen.toUInt16).toNat = count + header.lolen.toNat := by
  simp
  omega

/-- The header says how long the message is, in all eleven bits. -/
theorem BleHeader.length_addLength {header : BleHeader} (high : header.typeHilen &&& 0x07 = 0) {count : ℕ}
    (short : count + header.lolen.toNat < 2048) :
    (header.addLength (UInt16.ofNat count)).length = count + header.lolen.toNat := by
  have sum := toNat_addLength short
  unfold BleHeader.addLength BleHeader.length
  generalize UInt16.ofNat count + header.lolen.toUInt16 = u16 at sum
  have three : ∀ byte < 8, byte &&& 7 = byte := by decide
  have bits : ((header.typeHilen ||| (u16 >>> 8).toUInt8) &&& (0x07 : UInt8)).toNat = u16.toNat / 256 := by
    have none' : header.typeHilen.toNat &&& 7 = 0 := congrArg UInt8.toNat high
    show (header.typeHilen.toNat ||| (u16 >>> 8).toUInt8.toNat) &&& 7 = _
    rw [Nat.and_or_distrib_right, none', Nat.zero_or, toNat_high]
    exact three _ (by omega)
  simp only [bits, toNat_low]
  omega

/-- The other bits of the first byte are kept. -/
theorem BleHeader.type_addLength {header : BleHeader} {count : ℕ}
    (short : count + header.lolen.toNat < 2048) :
    (header.addLength (UInt16.ofNat count)).typeHilen &&& 0xf8 = header.typeHilen &&& 0xf8 := by
  have sum := toNat_addLength short
  show (header.typeHilen ||| ((UInt16.ofNat count + header.lolen.toUInt16) >>> 8).toUInt8) &&& (0xf8 : UInt8) = _
  generalize UInt16.ofNat count + header.lolen.toUInt16 = u16 at sum
  have three : ∀ byte < 8, byte &&& 0xf8 = 0 := by decide
  apply UInt8.toNat_inj.mp
  show (header.typeHilen.toNat ||| (u16 >>> 8).toUInt8.toNat) &&& 0xf8 = header.typeHilen.toNat &&& 0xf8
  rw [Nat.and_or_distrib_right, toNat_high, three (u16.toNat / 256) (by omega), Nat.or_zero]

/-- As long as the array is filled, the first bytes of it are those that have been written. -/
theorem map_payloadArray (stale : ℕ → UInt8) (payload : List UInt8) :
    (List.range payload.length).map (payloadArray stale payload) = payload := by
  apply List.ext_getElem
  · rw [List.length_map, List.length_range]
  · intro index inside inside'
    rw [List.getElem_map, List.getElem_range, payloadArray, List.getD_eq_getElem _ _ inside']

/-- What is handed to `bglib_output` for a well-formed entry. -/
theorem bleSendMessage_eq {api : BleApi} (wellFormed : api.WellFormed) {values : List Value}
    (fits : List.Forall₂ Field.Fits (bleParameters api.params) values) (stale : ℕ → UInt8) :
    bleSendMessage stale api values =
      ((api.hdr.addLength (UInt16.ofNat (values.flatMap Field.tail).length)).bytes ++
        heads (bleParameters api.params) values, values.flatMap Field.tail) := by
  have sized := length_heads fits
  rw [wellFormed.sized] at sized
  unfold bleSendMessage
  rw [bleSendParameters_eq fits wellFormed.last, List.nil_append, ← sized]
  show (_ ++ List.map _ _, _) = _
  rw [map_payloadArray]

/-- The length of a message has room in its header. -/
theorem short_of_wellFormed {api : BleApi} (wellFormed : api.WellFormed) {values : List Value}
    (fits : List.Forall₂ Field.Fits (bleParameters api.params) values) :
    (values.flatMap Field.tail).length + api.hdr.lolen.toNat < 2048 := by
  have small := api.hdr.lolen.toNat_lt
  have tails : (values.flatMap Field.tail).length < 256 := by
    refine length_tails_lt fits wellFormed.last (by decide) fun width member => ?_
    cases wellFormed.narrow _ member rfl
    exact le_rfl
  omega

/-- What a well-formed entry sends can be read back. -/
theorem BleApi.WellFormed.readBack {api : BleApi} (wellFormed : api.WellFormed) {values : List Value}
    (fits : List.Forall₂ Field.Fits (bleParameters api.params) values) (stale : ℕ → UInt8) :
    ReadBack api values ((bleSendMessage stale api values).1 ++ (bleSendMessage stale api values).2) := by
  have short := short_of_wellFormed wellFormed fits
  have sized := length_heads fits
  rw [wellFormed.sized] at sized
  rw [bleSendMessage_eq wellFormed fits, List.append_assoc, ← encode_eq_heads_append fits wellFormed.last]
  refine ⟨BleHeader.type_addLength short, rfl, rfl, ?_, ?_⟩
  · show 4 + (api.hdr.addLength _).length = (_ :: _ :: _ :: _ :: encode _ _ : List UInt8).length
    rw [BleHeader.length_addLength wellFormed.high short, encode_eq_heads_append fits wellFormed.last]
    simp only [List.length_cons, List.length_append, sized]
    omega
  · show read _ (encode _ _) = _
    rw [← List.append_nil (encode _ _)]
    exact read_encode fits []

/-- **Every command can be read back**: which it is, how long it is, and its arguments. -/
theorem bleSendMessage_readBack {api : BleApi} (listed : api ∈ apis) {values : List Value}
    (fits : List.Forall₂ Field.Fits (bleParameters api.params) values) (stale : ℕ → UInt8) :
    ReadBack api values ((bleSendMessage stale api values).1 ++ (bleSendMessage stale api values).2) :=
  (wellFormed_apis api listed).readBack fits stale

/-- `flash_write_data` with 255 bytes: the length of the message takes nine bits. -/
theorem bleSendMessage_readBack_flash :
    ReadBack ⟨⟨0x00, 0x5, 1, 7⟩, 0x86⟩ [.int 2048, .array (List.replicate 255 0xff)]
      ((bleSendMessage (fun _ => 0x55) ⟨⟨0x00, 0x5, 1, 7⟩, 0x86⟩
          [.int 2048, .array (List.replicate 255 0xff)]).1 ++
        (bleSendMessage (fun _ => 0x55) ⟨⟨0x00, 0x5, 1, 7⟩, 0x86⟩
          [.int 2048, .array (List.replicate 255 0xff)]).2) := by
  have fields : bleParameters 0x86 = [.int 4, .array 1] := by decide +kernel
  refine bleSendMessage_readBack (by decide +kernel) ?_ _
  rw [fields]
  refine .cons ?_ (.cons ?_ .nil)
  · show 2048 < 256 ^ 4
    decide
  · show (List.replicate 255 (0xff : UInt8)).length < 256 ^ 1
    rw [List.length_replicate]
    decide

end Esloq
