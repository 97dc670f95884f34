/-
**Malformed packets (`main.c`, `apitypes.h`, `cmd_def.h`).**

The array `data` of `ble_process_packet` has `MAX_PAYLOAD` bytes; the header's low length says how many
are read, its high length bits are ignored, and a handler takes what it finds in the array.

* `bleMessage`, `bleUses` — what a handler gets out of the array, and the bytes it uses for that.
  `bleHandler_congr`: it does nothing with the others.
* `Harmless` — every byte is stored inside the array, a handler uses received bytes only, and a packet
  that does not allow that is an error.
* `Task.Malformed` — a 61st byte is stored, or a packet is complete that does not fit its handler.
* `harmless_iff` — a run is harmless exactly if no step of it meets a malformed packet.
-/

import Esloq.Firmware.Process
import Esloq.Firmware.Parsing

namespace Esloq

open Machine

/-! ### What a handler uses of the array -/

namespace BleMsg

/-! The messages whose handlers are not stubs: class and index in the handler tables. -/

def rspSystemAddressGet : BleMsg := ⟨false, 0, 2⟩
def rspAttributesWrite : BleMsg := ⟨false, 2, 0⟩
def rspGapSetMode : BleMsg := ⟨false, 6, 1⟩
def rspGapSetAdvParameters : BleMsg := ⟨false, 6, 8⟩
def rspGapSetAdvData : BleMsg := ⟨false, 6, 9⟩
def evtSystemBoot : BleMsg := ⟨true, 0, 0⟩
def evtAttributesValue : BleMsg := ⟨true, 2, 0⟩
def evtConnectionStatus : BleMsg := ⟨true, 3, 0⟩
def evtConnectionDisconnected : BleMsg := ⟨true, 3, 4⟩
def evtHardwareIoPortStatus : BleMsg := ⟨true, 7, 0⟩

end BleMsg

/-- A `uint16` of a packed structure. -/
def uint16 (low high : UInt8) : UInt16 := low.toUInt16 + 256 * high.toUInt16

/-- The handler's argument, out of the bytes in the array. -/
def bleMessage (msg : BleMsg) (data : Nat → UInt8) : BgapiMsg :=
  if msg = .rspSystemAddressGet then .rspSystemAddressGet (List.Vector.ofFn fun i => data i)
  else if msg = .rspAttributesWrite then .rspAttributesWrite (uint16 (data 0) (data 1))
  else if msg = .rspGapSetMode then .rspGapSetMode
  else if msg = .rspGapSetAdvParameters then .rspGapSetAdvParameters
  else if msg = .rspGapSetAdvData then .rspGapSetAdvData
  else if msg = .evtSystemBoot then .evtSystemBoot
  else if msg = .evtAttributesValue then
    .evtAttributesValue (uint16 (data 2) (data 3))
      ((List.range (data 6).toNat).map fun i => data (7 + i))
  else if msg = .evtConnectionStatus then .evtConnectionStatus (data 1)
  else if msg = .evtConnectionDisconnected then .evtConnectionDisconnected
  else if msg = .evtHardwareIoPortStatus then .evtHardwareIoPortStatus
  else .stub

/-- The offsets of the bytes a handler uses. `ble_evt_attributes_value` uses `value.len` in any case, and
copies `value.data` for the handle `c_lock_receive` only. -/
def bleUses (msg : BleMsg) (data : Nat → UInt8) : List Nat :=
  if msg = .rspSystemAddressGet then List.range 6
  else if msg = .rspAttributesWrite then [0, 1]
  else if msg = .evtAttributesValue then
    [6, 2, 3] ++
      if uint16 (data 2) (data 3) = cLockReceive then (List.range (data 6).toNat).map (7 + ·) else []
  else if msg = .evtConnectionStatus then [1]
  else []

/-- The array after some bytes have been received; the rest is what was on the stack. -/
def payloadArray (stale : Nat → UInt8) (data : List UInt8) (offset : Nat) : UInt8 :=
  data.getD offset (stale offset)

/-- **A handler depends on the bytes it uses only.** -/
theorem bleHandler_congr {msg : BleMsg} {data data' : Nat → UInt8}
    (same : ∀ offset ∈ bleUses msg data, data offset = data' offset) (l : Lock) :
    bleHandler (bleMessage msg data) l = bleHandler (bleMessage msg data') l := by
  unfold bleMessage
  unfold bleUses at same
  by_cases address : msg = .rspSystemAddressGet
  · rw [if_pos address] at same
    rw [if_pos address, if_pos address]
    have bytes : (fun i : Fin 6 => data i) = fun i : Fin 6 => data' i :=
      funext fun i => same i (List.mem_range.mpr i.isLt)
    rw [bytes]
  rw [if_neg address] at same
  rw [if_neg address, if_neg address]
  by_cases written : msg = .rspAttributesWrite
  · rw [if_pos written] at same
    rw [if_pos written, if_pos written, same 0 (by simp), same 1 (by simp)]
  rw [if_neg written] at same
  rw [if_neg written, if_neg written]
  by_cases value : msg = .evtAttributesValue
  · rw [if_pos value] at same
    subst value
    have len : data 6 = data' 6 := same 6 (by simp)
    have low : data 2 = data' 2 := same 2 (by simp)
    have high : data 3 = data' 3 := same 3 (by simp)
    show bleEvtAttributesValue _ _ l = bleEvtAttributesValue _ _ l
    rw [len, low, high] at same ⊢
    unfold bleEvtAttributesValue
    by_cases receive : uint16 (data' 2) (data' 3) = cLockReceive
    · rw [if_pos receive] at same
      have copied : (List.range (data' 6).toNat).map (fun i => data (7 + i)) =
          (List.range (data' 6).toNat).map fun i => data' (7 + i) := by
        refine List.map_congr_left fun i inside => same (7 + i) ?_
        exact List.mem_append_right _ (List.mem_map.mpr ⟨i, inside, rfl⟩)
      rw [copied]
    · rw [if_neg receive, if_neg receive]
  rw [if_neg value] at same
  rw [if_neg value, if_neg value]
  by_cases status : msg = .evtConnectionStatus
  · rw [if_pos status] at same
    subst status
    show bleEvtConnectionStatus _ l = bleEvtConnectionStatus _ l
    rw [same 1 (by simp)]
  · rw [if_neg status, if_neg status]

/-! ### Harmless packets -/

/-- The payload length a header announces, in all its bits. -/
def BleHeader.length (hdr : BleHeader) : Nat := (hdr.typeHilen &&& 0x07).toNat * 256 + hdr.lolen.toNat

/-- The handler of a message uses received bytes only. -/
def UsesReceived (stale : Nat → UInt8) (msg : BleMsg) (data : List UInt8) : Prop :=
  ∀ offset ∈ bleUses msg (payloadArray stale data), offset < data.length

/-- A packet that can be handled: all of it has been received and fits, and its handler needs no more. -/
structure Handleable (stale : Nat → UInt8) (hdr : BleHeader) (data : List UInt8) : Prop where
  whole : data.length = hdr.length
  fits : data.length ≤ maxPayload
  known : ∃ msg, bleGetMsgHdr hdr = some msg ∧ UsesReceived stale msg data

/-- What has to hold of every event: a byte of the payload goes into the array, a handler uses what has
been received, and a call that reports no error has read nothing or a packet that can be handled. -/
def Harmless (stale : Nat → UInt8) (past : List PacketEvent) (event : PacketEvent) : Prop :=
  match event with
  | .stored _ => (consumed past).length < 4 + maxPayload
  | .handler msg data => UsesReceived stale msg data
  | .returned code =>
      code ≤ 0 → consumed past = [] ∨
        Handleable stale (.ofBytes (consumed past)) ((consumed past).drop 4)
  | _ => True

/-- A received payload is all a handler depends on. -/
theorem UsesReceived.congr {stale stale' : Nat → UInt8} {msg : BleMsg} {data : List UInt8}
    (received : UsesReceived stale msg data) (l : Lock) :
    bleHandler (bleMessage msg (payloadArray stale data)) l =
      bleHandler (bleMessage msg (payloadArray stale' data)) l := by
  refine bleHandler_congr (fun offset used => ?_) l
  have inside := received offset used
  unfold payloadArray
  rw [List.getD_eq_getElem?_getD, List.getD_eq_getElem?_getD, List.getElem?_eq_getElem inside]
  rfl

/-! ### Malformed packets -/

/-- High length bits are set, the payload is longer than the array, or the handler uses a byte behind it. -/
def Unfit (stale : Nat → UInt8) (hdr : BleHeader) (data : List UInt8) : Prop :=
  ∃ msg, bleGetMsgHdr hdr = some msg ∧
    (hdr.typeHilen &&& 0x07 ≠ 0 ∨ maxPayload < hdr.lolen.toNat ∨
      ∃ offset ∈ bleUses msg (payloadArray stale data), hdr.lolen.toNat ≤ offset)

namespace Task

/-- The packet whose last byte has been read, where the next access ends the call. -/
def packet : Task → Option (BleHeader × List UInt8)
  | .reading .header c .testSize =>
      if c.i < c.len ∨ (BleHeader.ofBytes c.data).lolen ≠ 0 then none else some (.ofBytes c.data, [])
  | .reading (.payload hdr) c .testSize => if c.i < c.len then none else some (hdr, c.data)
  | _ => none

/-- A byte is about to be stored behind the array. -/
def overflows : Task → Bool
  | .reading (.payload _) c (.storeData _) => maxPayload ≤ c.data.length
  | _ => false

/-- A byte is about to be stored behind the array, or a packet of a known message is complete that does not
fit its handler. -/
def Malformed (stale : Nat → UInt8) (task : Task) : Prop :=
  task.overflows = true ∨ ∃ hdr data, task.packet = some (hdr, data) ∧ Unfit stale hdr data

end Task

/-- The main loop meets a malformed packet. -/
def PacketStep.Malformed (stale : Nat → UInt8) (step : PacketStep) (before : Receiver) : Prop :=
  step = .next ∧ before.task.Malformed stale

/-! ### What has been read -/

/-- A running call has read what is in `data`, whatever the buffer holds. -/
structure Indexed (c : Call) (access : RxAccess) : Prop where
  data : c.data.length = c.i.toNat + access.uncounted
  atMost : c.i ≤ c.len
  more : access.reads = true → c.i < c.len

/-- The bytes consumed since the last call of `ble_process_packet` are those of the packet being read. -/
def Task.Tracks (task : Task) (events : List PacketEvent) : Prop :=
  match task with
  | .reading part c access =>
      c.len = part.len ∧ consumed events = part.head ++ c.data ∧ Indexed c access
  | _ => True

/-- The byte an access puts into `data`. -/
def RxAccess.moved : RxAccess → List UInt8
  | .storeData byte => [byte]
  | _ => []

/-- An access leaves a call that goes on. -/
structure CallContinues (c : Call) (access : RxAccess) (c' : Call) (access' : RxAccess) (turn : AccessTurn) :
    Prop where
  call : turn.state.call = some (c', access')
  len : c'.len = c.len
  data : c'.data = c.data ++ access.moved
  events : turn.events.filterMap AccessEvent.packetEvent = moves access.moved access.counts
  indexed : Indexed c' access'
  packet : access = .testSize → c.i < c.len

/-- An access ends the call: all bytes have been read, or the timer has run out. -/
structure CallEnds (c : Call) (access : RxAccess) (turn : AccessTurn) : Prop where
  call : turn.state.call = none
  code : (access = .testSize ∧ ¬ c.i < c.len ∧ returnedCode turn.events = 0) ∨
    (access = .timer ∧ returnedCode turn.events = if c.i = 0 then -1 else 1)

/-- What every access does to the call. -/
theorem indexed_access {c : Call} {access : RxAccess} (indexed : Indexed c access) (expired : Bool)
    (u : Uart) :
    (∃ c' access', CallContinues c access c' access' (uartRxAccess expired c access u)) ∨
      CallEnds c access (uartRxAccess expired c access u) := by
  obtain ⟨data, atMost, more⟩ := indexed
  have silent : c.data = c.data ++ [] := (List.append_nil _).symm
  cases access with
  | testSize =>
      unfold uartRxAccess
      by_cases less : c.i < c.len
      · rw [if_pos less]
        left
        by_cases found : u.rxbufferSize ≠ 0
        · rw [if_pos found]
          exact ⟨c, .loadStart, rfl, rfl, silent, rfl, ⟨data, atMost, fun _ => less⟩, fun _ => less⟩
        · rw [if_neg found]
          exact ⟨c, .timer, rfl, rfl, silent, rfl, ⟨data, atMost, nofun⟩, fun _ => less⟩
      · rw [if_neg less]
        exact Or.inr ⟨rfl, Or.inl ⟨rfl, less, rfl⟩⟩
  | timer =>
      unfold uartRxAccess
      cases expired with
      | true => exact Or.inr ⟨rfl, Or.inr ⟨rfl, rfl⟩⟩
      | false => exact Or.inl ⟨c, .testSize, rfl, rfl, silent, rfl, ⟨data, atMost, nofun⟩, nofun⟩
  | loadStart | storeStart start | loadByte start | reloadStart | restoreStart start | loadSize =>
      exact Or.inl ⟨c, _, rfl, rfl, silent, rfl, ⟨data, atMost, fun _ => more rfl⟩, nofun⟩
  | storeData byte =>
      refine Or.inl ⟨{ c with data := c.data ++ [byte] }, .reloadStart, rfl, rfl, rfl, rfl, ?_, nofun⟩
      refine ⟨?_, atMost, fun _ => more rfl⟩
      show (c.data ++ [byte]).length = c.i.toNat + 1
      rw [List.length_append, data]
      rfl
  | storeSize size =>
      have below := UInt8.lt_iff_toNat_lt.mp (more rfl)
      have step : (c.i + 1).toNat = c.i.toNat + 1 := by
        have := c.len.toNat_lt
        rw [UInt8.toNat_add, UInt8.toNat_one]
        omega
      refine Or.inl ⟨{ c with i := c.i + 1 }, .testSize, rfl, rfl, silent, rfl, ⟨?_, ?_, nofun⟩, nofun⟩
      · show c.data.length = (c.i + 1).toNat
        rw [step]
        exact data
      · show c.i + 1 ≤ c.len
        rw [UInt8.le_iff_toNat_le, step]
        exact below

/-! ### The turns of the main loop -/

section Turns

variable {events : List PacketEvent} {r : Receiver}

theorem consumed_handler (events : List PacketEvent) (msg : BleMsg) (data : List UInt8) :
    consumed (events ++ [.handler msg data]) = consumed events := consumed_append _ _

/-- The announced length is the low one exactly if the high bits are not set. -/
theorem BleHeader.length_eq_iff (hdr : BleHeader) :
    hdr.lolen.toNat = hdr.length ↔ hdr.typeHilen &&& 0x07 = 0 := by
  unfold BleHeader.length
  rw [← UInt8.toNat_inj, UInt8.toNat_zero]
  omega

/-- What has been received of a known message can be handled exactly if it fits. -/
theorem handleable_iff (stale : Nat → UInt8) {hdr : BleHeader} {data : List UInt8} {msg : BleMsg}
    (known : bleGetMsgHdr hdr = some msg) (all : data.length = hdr.lolen.toNat) :
    Handleable stale hdr data ↔ ¬ Unfit stale hdr data := by
  have unfit : Unfit stale hdr data ↔ hdr.typeHilen &&& 0x07 ≠ 0 ∨ maxPayload < hdr.lolen.toNat ∨
      ∃ offset ∈ bleUses msg (payloadArray stale data), hdr.lolen.toNat ≤ offset := by
    constructor
    · rintro ⟨msg', known', wrong⟩
      rw [known] at known'
      cases known'
      exact wrong
    · exact fun wrong => ⟨msg, known, wrong⟩
  rw [unfit, not_or, not_or, not_not, not_lt, not_exists, ← hdr.length_eq_iff, ← all]
  constructor
  · rintro ⟨whole, fits, msg', known', received⟩
    rw [known] at known'
    cases known'
    exact ⟨whole, fits, fun offset used => absurd (received offset used.1) (not_lt.mpr used.2)⟩
  · rintro ⟨whole, fits, received⟩
    refine ⟨whole, fits, msg, known, fun offset used => ?_⟩
    exact not_le.mp fun behind => received offset ⟨used, behind⟩

/-- A packet is handled harmlessly exactly if it fits its handler, if it has one. -/
theorem harmless_bleHandle_iff (stale : Nat → UInt8) {hdr : BleHeader} {data : List UInt8}
    (read : consumed events = hdr.bytes ++ data) (all : data.length = hdr.lolen.toNat) :
    AlwaysFrom (Harmless stale) events (bleHandle hdr data r).events ↔ ¬ Unfit stale hdr data := by
  unfold bleHandle
  cases known : bleGetMsgHdr hdr with
  | none =>
      refine iff_of_true ⟨fun error => ?_, trivial⟩ ?_
      · exact absurd error (by decide)
      · rintro ⟨msg, known', -⟩
        rw [known] at known'
        cases known'
  | some msg =>
      have after : consumed (events ++ [.handler msg data]) = hdr.bytes ++ data :=
        (consumed_handler events msg data).trans read
      have answer : AlwaysFrom (Harmless stale) events [.handler msg data, .returned 0] ↔
          UsesReceived stale msg data ∧ Handleable stale hdr data := by
        have returns : Harmless stale (events ++ [.handler msg data]) (.returned 0) ↔
            Handleable stale hdr data := by
          unfold Harmless
          rw [after]
          constructor
          · intro harmless
            rcases harmless le_rfl with none' | handleable
            · cases none'
            · exact handleable
          · exact fun handleable _ => Or.inr handleable
        rw [alwaysFrom_cons, alwaysFrom_cons, returns]
        exact and_congr_right fun _ => and_iff_left trivial
      show AlwaysFrom (Harmless stale) events [.handler msg data, .returned 0] ↔ _
      rw [answer, ← handleable_iff stale known all]
      refine and_iff_right_of_imp fun handleable => ?_
      obtain ⟨msg', known', received⟩ := handleable.known
      rw [known] at known'
      cases known'
      exact received

/-- After a handler the device waits for the next packet, or for the watchdog. -/
theorem tracks_bleHandle (hdr : BleHeader) (data : List UInt8) (past : List PacketEvent) :
    (bleHandle hdr data r).state.task.Tracks past := by
  unfold bleHandle
  split <;> exact trivial

/-- The stores of an access. -/
theorem harmless_moves_iff (stale : Nat → UInt8) (access : RxAccess) :
    AlwaysFrom (Harmless stale) events (moves access.moved access.counts) ↔
      (access.moved ≠ [] → (consumed events).length < 4 + maxPayload) := by
  cases access with
  | storeData byte =>
      show (consumed events).length < 4 + maxPayload ∧ True ↔ ([byte] ≠ [] → _)
      rw [and_true]
      exact ⟨fun inside _ => inside, fun inside => inside (List.cons_ne_nil _ _)⟩
  | storeSize size => exact iff_of_true ⟨trivial, trivial⟩ fun stores => absurd rfl stores
  | _ => exact iff_of_true trivial fun stores => absurd rfl stores

/-- The end of a call for a header of which all bytes have been read. -/
theorem harmless_header (stale : Nat → UInt8) {data : List UInt8} (read : consumed events = data)
    (four : data.length = 4) :
    (AlwaysFrom (Harmless stale) events (bleProcessPacket .header 0 data r).events ↔
        ¬ ((BleHeader.ofBytes data).lolen = 0 ∧ Unfit stale (.ofBytes data) [])) ∧
      (bleProcessPacket .header 0 data r).state.task.Tracks
        (events ++ (bleProcessPacket .header 0 data r).events) := by
  have whole : consumed events = (BleHeader.ofBytes data).bytes ++ [] := by
    rw [List.append_nil, BleHeader.bytes_ofBytes four]
    exact read
  simp only [bleProcessPacket, ne_eq, not_true_eq_false, if_false]
  by_cases empty : (BleHeader.ofBytes data).lolen = 0
  · rw [if_neg (not_not.mpr empty)]
    refine ⟨?_, tracks_bleHandle _ _ _⟩
    have all : ([] : List UInt8).length = (BleHeader.ofBytes data).lolen.toNat := by
      rw [empty]
      rfl
    rw [harmless_bleHandle_iff stale whole all]
    exact not_congr (and_iff_right empty).symm
  · rw [if_pos empty]
    refine ⟨iff_of_true trivial fun malformed => empty malformed.1, rfl, ?_, rfl, ?_, ?_⟩
    · show consumed (events ++ []) = _
      rw [List.append_nil]
      exact whole
    · exact UInt8.le_iff_toNat_le.mpr (Nat.zero_le _)
    · rintro ⟨⟩

/-- The end of a call whose timer has run out. -/
theorem harmless_expired (stale : Nat → UInt8) {part : Reading} {rrx : Int} {data : List UInt8}
    (error : rrx ≠ 0) (unread : rrx ≤ 0 → part = .header → consumed events = []) :
    AlwaysFrom (Harmless stale) events (bleProcessPacket part rrx data r).events ∧
      (bleProcessPacket part rrx data r).state.task.Tracks
        (events ++ (bleProcessPacket part rrx data r).events) := by
  have ended : ∀ code past, (bleProcessPacketReturns code r).state.task.Tracks past := by
    intro code past
    show Task.Tracks (if 0 < code then .resetting else .elsewhere) past
    split <;> exact trivial
  cases part with
  | header =>
      simp only [bleProcessPacket, if_pos error]
      exact ⟨⟨fun none' => Or.inl (unread none' rfl), trivial⟩, ended _ _⟩
  | payload hdr =>
      simp only [bleProcessPacket, if_pos error]
      exact ⟨⟨fun none' => absurd none' (by decide), trivial⟩, ended _ _⟩

theorem packet_header (c : Call) : (Task.reading .header c .testSize).packet =
    if c.i < c.len ∨ (BleHeader.ofBytes c.data).lolen ≠ 0 then none else some (.ofBytes c.data, []) := rfl

theorem packet_payload (hdr : BleHeader) (c : Call) :
    (Task.reading (.payload hdr) c .testSize).packet =
      if c.i < c.len then none else some (hdr, c.data) := rfl

/-- In the middle of a packet nothing is handled. -/
theorem malformed_iff_overflows (stale : Nat → UInt8) {part : Reading} {c : Call} {access : RxAccess}
    (more : access = .testSize → c.i < c.len) :
    (Task.reading part c access).Malformed stale ↔
      (Task.reading part c access).overflows = true := by
  refine or_iff_left ?_
  rintro ⟨hdr, data, packet, -⟩
  cases access with
  | testSize =>
      have less := more rfl
      cases part with
      | header =>
          rw [packet_header, if_pos (Or.inl less)] at packet
          cases packet
      | payload hdr' =>
          rw [packet_payload, if_pos less] at packet
          cases packet
  | _ => cases part <;> cases packet

/-- A header without a payload is complete with its last byte. -/
theorem malformed_header_iff (stale : Nat → UInt8) {c : Call} (full : ¬ c.i < c.len) :
    (Task.reading .header c .testSize).Malformed stale ↔
      (BleHeader.ofBytes c.data).lolen = 0 ∧ Unfit stale (.ofBytes c.data) [] := by
  unfold Task.Malformed
  rw [packet_header]
  by_cases empty : (BleHeader.ofBytes c.data).lolen = 0
  · rw [if_neg (not_or.mpr ⟨full, not_not.mpr empty⟩), and_iff_right empty]
    constructor
    · rintro (overflows | ⟨hdr, data, packet, malformed⟩)
      · cases overflows
      · cases packet
        exact malformed
    · exact fun malformed => Or.inr ⟨_, _, rfl, malformed⟩
  · rw [if_pos (Or.inr empty)]
    refine iff_of_false ?_ fun malformed => empty malformed.1
    rintro (overflows | ⟨_, _, packet, -⟩)
    · cases overflows
    · cases packet

/-- So is a payload. -/
theorem malformed_payload_iff (stale : Nat → UInt8) {hdr : BleHeader} {c : Call} (full : ¬ c.i < c.len) :
    (Task.reading (.payload hdr) c .testSize).Malformed stale ↔ Unfit stale hdr c.data := by
  unfold Task.Malformed
  rw [packet_payload, if_neg full]
  constructor
  · rintro (overflows | ⟨hdr, data, packet, malformed⟩)
    · cases overflows
    · cases packet
      exact malformed
  · exact fun malformed => Or.inr ⟨_, _, rfl, malformed⟩

/-- An access after which the call goes on. -/
theorem harmless_continues (stale : Nat → UInt8) {part : Reading} {c : Call}
    {access : RxAccess} (tracks : (Task.reading part c access).Tracks events) {c' : Call}
    {access' : RxAccess} {turn : AccessTurn} (continues : CallContinues c access c' access' turn) :
    (AlwaysFrom (Harmless stale) events (moves access.moved access.counts) ↔
        ¬ (Task.reading part c access).Malformed stale) ∧
      (Task.reading part c' access').Tracks (events ++ moves access.moved access.counts) := by
  obtain ⟨len, read, indexed⟩ := tracks
  refine ⟨?_, continues.len.trans len, ?_, continues.indexed⟩
  · rw [harmless_moves_iff, malformed_iff_overflows stale continues.packet, read, List.length_append]
    cases access with
    | storeData byte =>
        have stores : (RxAccess.storeData byte).moved ≠ [] := List.cons_ne_nil byte []
        rw [forall_prop_of_true stores]
        cases part with
        | header =>
            have data : c.data.length = c.i.toNat := indexed.data
            have below := UInt8.lt_iff_toNat_lt.mp (indexed.more rfl)
            rw [len] at below
            refine iff_of_true ?_ Bool.false_ne_true
            show 0 + c.data.length < 4 + 60
            have four : c.i.toNat < 4 := below
            omega
        | payload hdr =>
            show 4 + c.data.length < 4 + maxPayload ↔ ¬ decide (maxPayload ≤ c.data.length) = true
            rw [Nat.add_lt_add_iff_left, decide_eq_true_iff, not_le]
    | _ =>
        refine iff_of_true (fun stores => absurd rfl stores) ?_
        cases part <;> exact Bool.false_ne_true
  · rw [consumed_moves, read, continues.data, List.append_assoc]

/-- **One turn of the main loop is harmless exactly if it meets no malformed packet.** -/
theorem harmless_next_iff (stale : Nat → UInt8) (tracks : r.task.Tracks events) :
    (AlwaysFrom (Harmless stale) events r.next.events ↔ ¬ r.task.Malformed stale) ∧
      r.next.state.task.Tracks (events ++ r.next.events) := by
  obtain ⟨u, timer, task⟩ := r
  cases task with
  | elsewhere =>
      refine ⟨iff_of_true ⟨trivial, trivial⟩ ?_, rfl, consumed_append _ _, rfl, ?_, nofun⟩
      · rintro (overflows | ⟨_, _, packet, -⟩)
        · cases overflows
        · cases packet
      · decide
  | resetting =>
      refine ⟨iff_of_true trivial ?_, trivial⟩
      rintro (overflows | ⟨_, _, packet, -⟩)
      · cases overflows
      · cases packet
  | reading part c access =>
      obtain ⟨len, read, indexed⟩ := tracks
      rcases indexed_access indexed (cntThreshold ≤ timer) u with ⟨c', access', continues⟩ | ends
      · have next : Receiver.next ⟨u, timer, .reading part c access⟩ =
            .emit ⟨(uartRxAccess (cntThreshold ≤ timer) c access u).state.uart,
              if access.resets then 0 else timer, .reading part c' access'⟩
              (moves access.moved access.counts) := by
          rw [← continues.events]
          simp only [Receiver.next, continues.call]
        rw [next]
        exact harmless_continues stale ⟨len, read, indexed⟩ continues
      · have next : Receiver.next ⟨u, timer, .reading part c access⟩ = bleProcessPacket part
            (returnedCode (uartRxAccess (cntThreshold ≤ timer) c access u).events) c.data
            ⟨u, timer, .reading part c access⟩ := by
          simp only [Receiver.next, ends.call]
        rw [next]
        rcases ends.code with ⟨rfl, full, code⟩ | ⟨rfl, code⟩
        · have all : c.data.length = c.len.toNat := by
            have data : c.data.length = c.i.toNat := indexed.data
            have := UInt8.lt_iff_toNat_lt.not.mp full
            have := UInt8.le_iff_toNat_le.mp indexed.atMost
            omega
          rw [code]
          cases part with
          | header =>
              rw [malformed_header_iff stale full]
              rw [len] at all
              exact harmless_header stale read all
          | payload hdr =>
              rw [malformed_payload_iff stale full]
              rw [len] at all
              exact ⟨harmless_bleHandle_iff stale read all, tracks_bleHandle _ _ _⟩
        · rw [code]
          have ok : ¬ (Task.reading part c .timer).Malformed stale := by
            rw [malformed_iff_overflows stale fun test => by cases test]
            cases part <;> exact Bool.false_ne_true
          have expired := @harmless_expired events ⟨u, timer, .reading part c .timer⟩ stale part
            (if c.i = 0 then -1 else 1) c.data (by split <;> decide) ?_
          · exact ⟨iff_of_true expired.1 ok, expired.2⟩
          · rintro error rfl
            have first : c.i = 0 := by
              by_contra later
              rw [if_neg later] at error
              exact absurd error (by decide)
            have data : c.data.length = c.i.toNat := indexed.data
            rw [first] at data
            rw [read]
            exact List.length_eq_zero_iff.mp data

end Turns

/-! ### Runs -/

/-- A step that the main loop does not take changes nothing that is tracked. -/
theorem harmless_step_iff (stale : Nat → UInt8) {events : List PacketEvent} {r : Receiver}
    (tracks : r.task.Tracks events) (step : PacketStep) :
    (AlwaysFrom (Harmless stale) events (packetStep step r).events ↔ ¬ step.Malformed stale r) ∧
      (packetStep step r).state.task.Tracks (events ++ (packetStep step r).events) := by
  have quiet : ∀ later : List PacketEvent, consumed (events ++ later) = consumed events →
      r.task.Tracks (events ++ later) := by
    intro later same
    cases running : r.task with
    | reading part c access =>
        rw [running] at tracks
        exact ⟨tracks.1, same.trans tracks.2.1, tracks.2.2⟩
    | _ => trivial
  cases step with
  | interrupt byte =>
      have other : ¬ (PacketStep.interrupt byte).Malformed stale r := fun malformed => by
        cases malformed.1
      simp only [packetStep]
      by_cases resetting : r.task = .resetting
      · rw [if_pos resetting]
        exact ⟨iff_of_true trivial other, quiet [] (by rw [List.append_nil])⟩
      · rw [if_neg resetting]
        exact ⟨iff_of_true ⟨trivial, trivial⟩ other, quiet _ (consumed_append _ _)⟩
  | tick =>
      have other : ¬ PacketStep.tick.Malformed stale r := fun malformed => by cases malformed.1
      exact ⟨iff_of_true trivial other, quiet [] (by rw [List.append_nil])⟩
  | next =>
      obtain ⟨harmless, tracked⟩ := harmless_next_iff stale tracks
      exact ⟨harmless.trans (not_congr (and_iff_right rfl).symm), tracked⟩

/-- A run is harmless exactly if no step of it meets a malformed packet, and what has been read stays
tracked. -/
theorem harmless_run_iff (stale : Nat → UInt8) (u : Uart) (steps : List PacketStep) :
    (Always (Harmless stale) (packetRun u steps).events ↔
        ∀ done step later, steps = done ++ step :: later →
          ¬ step.Malformed stale (packetRun u done).state) ∧
      (packetRun u steps).state.task.Tracks (packetRun u steps).events := by
  induction steps using List.reverseRecOn with
  | nil => exact ⟨iff_of_true trivial fun done step later split => by simp at split, trivial⟩
  | append_singleton steps step ih =>
      obtain ⟨sofar, tracks⟩ := ih
      obtain ⟨harmless, tracked⟩ := harmless_step_iff stale tracks step
      rw [packetRun_concat, always_append, forall_splits_concat
        (P := fun done (step : PacketStep) => ¬ step.Malformed stale (packetRun u done).state), sofar, harmless]
      exact ⟨Iff.rfl, tracked⟩

/-- **What `ble_process_packet` does is harmless exactly in the runs that meet no malformed packet.** -/
theorem harmless_iff (stale : Nat → UInt8) (u : Uart) (steps : List PacketStep) :
    Always (Harmless stale) (packetRun u steps).events ↔
      ∀ done step later, steps = done ++ step :: later →
        ¬ step.Malformed stale (packetRun u done).state :=
  (harmless_run_iff stale u steps).1

/-! ### A write that is not there -/

/-- An attribute value event of seven bytes that announces a value of twenty. -/
def shortValue : List UInt8 := [0x80, 7, 2, 0, 0, 0, 21, 0, 0, 0, 20]

/-- It arrives, and the main loop reads it. -/
def shortValueSteps : List PacketStep :=
  shortValue.map .interrupt ++ List.replicate 102 .next

/-- Its handler. -/
def shortValueHandler : PacketEvent := .handler .evtAttributesValue (shortValue.drop 4)

/-- Twenty bytes that have not been received go into `msg_buf`, and the packet counts as processed. -/
theorem shortValue_handled :
    (packetRun blankUart shortValueSteps).events.drop 34 = [shortValueHandler, .returned 0] ∧
      ¬ ∀ stale u steps, Always (Harmless stale) (packetRun u steps).events := by
  have handled : (packetRun blankUart shortValueSteps).events.drop 34 =
      [shortValueHandler, .returned 0] := by decide +kernel
  refine ⟨handled, fun harmless => ?_⟩
  have split := (List.take_append_drop 34 (packetRun blankUart shortValueSteps).events).symm
  rw [handled] at split
  have uses : UsesReceived (fun _ => 0) .evtAttributesValue (shortValue.drop 4) :=
    (harmless (fun _ => 0) blankUart shortValueSteps).at split
  have received := uses 26 (by decide)
  revert received
  decide

end Esloq
