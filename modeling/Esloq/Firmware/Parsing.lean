/-
**Packets are parsed exactly (`main.c`, `uart.c`).**

* `Parsed` — the invariant: the bytes that have arrived are those of the packets that have been handled,
  those that have been read of the next one, and the unread ones.
* `advances_next` — one turn of the main loop keeps it, returns -1 only without a byte read, and has less
  to do afterwards (`Receiver.due`) if the next packet has arrived.
* `packets_parsed_exactly` — in every run in which no interrupt falls between the load and the store of
  the counter or fills the buffer, and the timer does not run out within a packet.
* `gap_of_runs_out` — the timer of an empty buffer runs out one count before `UART_TIMEOUT`.
* `torn_packet_unhandled` — a packet that is never handled.
-/

import Esloq.Firmware.Unread

namespace Esloq

open Machine Prefixes

/-! ### The packets and the bytes -/

theorem BleHeader.bytes_ofBytes {bytes : List UInt8} (four : bytes.length = 4) :
    (BleHeader.ofBytes bytes).bytes = bytes := by
  obtain ⟨_, _, _, _, rfl⟩ := List.length_eq_four.mp four
  rfl

/-- Bytes that begin with a header and are the first of some packets are of the first packet. -/
theorem exists_packet {rest : List BlePacket} {hdr : BleHeader} {data : List UInt8}
    (begins : hdr.bytes ++ data <+: rest.flatMap BlePacket.bytes) :
    ∃ packet rest', rest = packet :: rest' ∧ packet.hdr = hdr ∧
      data <+: packet.payload ++ rest'.flatMap BlePacket.bytes := by
  cases rest with
  | nil =>
      have none' := List.prefix_nil.mp begins
      cases none'
  | cons packet rest' =>
      have split : (packet :: rest').flatMap BlePacket.bytes =
          packet.hdr.bytes ++ (packet.payload ++ rest'.flatMap BlePacket.bytes) := by
        rw [List.flatMap_cons, BlePacket.bytes, List.append_assoc]
      rw [split] at begins
      have same : hdr.bytes = packet.hdr.bytes := by
        have early := (List.prefix_append _ _).trans begins
        exact (List.prefix_of_prefix_length_le early (List.prefix_append _ _) le_rfl).eq_of_length rfl
      refine ⟨packet, rest', rfl, congrArg BleHeader.ofBytes same.symm, ?_⟩
      rw [same] at begins
      exact (List.prefix_append_right_inj _).mp begins

/-- A whole payload after the header is that of the packet. -/
theorem BlePacket.payload_eq {packet : BlePacket} {data later : List UInt8}
    (all : data.length = packet.hdr.lolen.toNat) (begins : data <+: packet.payload ++ later) :
    data = packet.payload := by
  have sized : data.length = packet.payload.length := all.trans packet.length.symm
  exact (List.prefix_of_prefix_length_le begins (List.prefix_append _ _) sized.le).eq_of_length sized

/-- The handler of a known message is called. -/
theorem bleHandle_known (packet : BlePacket) (data : List UInt8) (r : Receiver) :
    bleHandle packet.hdr data r =
      .emit { r with task := .elsewhere } [.handler packet.msg data, .returned 0] := by
  unfold bleHandle
  rw [packet.known]
  rfl

/-! ### The invariant -/

/-- What has been read before a call for a packet. -/
def Reading.head : Reading → List UInt8
  | .header => []
  | .payload hdr => hdr.bytes

/-- `len` of a call. -/
def Reading.len : Reading → UInt8
  | .header => 4
  | .payload hdr => hdr.lolen

namespace Task

/-- The bytes that have been read of a packet. -/
def taken : Task → List UInt8
  | .reading part c _ => part.head ++ c.data
  | _ => []

/-- The bytes that have been read and are still counted. -/
def uncounted : Task → Nat
  | .reading _ _ access => access.uncounted
  | _ => 0

/-- How far the main loop is from the end of a call. -/
def rank : Task → Nat
  | .elsewhere => 12
  | .reading _ c access => access.rank c
  | .resetting => 0

/-- The buffer holds the unread bytes, and the device is not being reset. -/
def Waits (task : Task) (events : List PacketEvent) (pending : List UInt8) (u : Uart) : Prop :=
  match task with
  | .elsewhere => Buffers pending u
  | .reading part c access =>
      Unread pending c u access ∧ c.len = part.len ∧ consumed events = part.head ++ c.data
  | .resetting => False

end Task

/-- The packets are those that have been handled and the `rest`, and the bytes that have arrived are those
of the former, those that have been read of the next packet, and the unread ones. -/
structure Parsed (packets : List BlePacket) (events : List PacketEvent) (r : Receiver)
    (handled rest : List BlePacket) (pending : List UInt8) : Prop where
  parts : packets = handled ++ rest
  answers : events.filter PacketEvent.answers = handled.flatMap BlePacket.answer
  split : arrivals events = handled.flatMap BlePacket.bytes ++ (r.task.taken ++ pending)
  tally : (arrivals events).length = events.count .counted + (r.task.uncounted + pending.length)
  waits : r.task.Waits events pending r.uart

/-- What the main loop has to do with the bytes that are there. -/
def Receiver.due (r : Receiver) (pending : List UInt8) : Nat := 20 * pending.length + r.task.rank

/-- All bytes of the next packet have arrived. -/
def Arrived (r : Receiver) (rest : List BlePacket) (pending : List UInt8) : Prop :=
  ∃ packet rest', rest = packet :: rest' ∧ packet.bytes.length ≤ (r.task.taken ++ pending).length

section Invariant

variable {packets handled rest : List BlePacket} {events : List PacketEvent} {r : Receiver}
  {pending : List UInt8}

theorem arrivals_append (first second : List PacketEvent) :
    arrivals (first ++ second) = arrivals first ++ arrivals second := List.filterMap_append

theorem consumed_append (first second : List PacketEvent) :
    consumed (first ++ second) = After PacketEvent.consume second (consumed first) :=
  after_append PacketEvent.consume first second []

theorem Parsed.outstanding_eq (parsed : Parsed packets events r handled rest pending) :
    outstanding events = r.task.uncounted + pending.length := by
  rw [outstanding, parsed.tally]
  exact Nat.add_sub_cancel_left _ _

/-- The bytes of the next packet and the unread ones are those of the packets that are left. -/
theorem Parsed.begins (parsed : Parsed packets events r handled rest pending)
    (order : arrivals events <+: packets.flatMap BlePacket.bytes) :
    r.task.taken ++ pending <+: rest.flatMap BlePacket.bytes := by
  rw [parsed.split, parsed.parts, List.flatMap_append] at order
  exact (List.prefix_append_right_inj _).mp order

theorem parsed_start (packets : List BlePacket) (u : Uart) :
    Parsed packets [] ⟨uartEnable u, 0, .elsewhere⟩ [] packets [] where
  parts := rfl
  answers := rfl
  split := rfl
  tally := rfl
  waits := ⟨Ring.Holds.empty _ (Nat.succ_pos 255), rfl⟩

/-- Events that answer no packet. -/
theorem Parsed.quiet (parsed : Parsed packets events r handled rest pending) {later : List PacketEvent}
    {r' : Receiver} {pending' : List UInt8} (silent : later.filter PacketEvent.answers = [])
    (bytes : r'.task.taken ++ pending' = r.task.taken ++ pending ++ arrivals later)
    (counted : r.task.uncounted + pending.length + (arrivals later).length =
      later.count .counted + (r'.task.uncounted + pending'.length))
    (waits : r'.task.Waits (events ++ later) pending' r'.uart) :
    Parsed packets (events ++ later) r' handled rest pending' := by
  obtain ⟨parts, answers, split, tally, -⟩ := parsed
  refine ⟨parts, ?_, ?_, ?_, waits⟩
  · rw [List.filter_append, answers, silent, List.append_nil]
  · rw [arrivals_append, split, bytes, List.append_assoc]
  · rw [arrivals_append, List.length_append, List.count_append]
    omega

/-- A byte arrives outside the window of the counter while there is room. -/
theorem parsed_interrupt (parsed : Parsed packets events r handled rest pending) (byte : UInt8)
    (untorn : ¬ r.task.between = true)
    (room : outstanding events + 1 < rxMaxBufferSize) :
    packetStep (.interrupt byte) r = .emit { r with uart := usartRxVect byte r.uart } [.received byte] ∧
      Parsed packets (events ++ [.received byte]) { r with uart := usartRxVect byte r.uart } handled rest
        (pending ++ [byte]) := by
  rw [parsed.outstanding_eq] at room
  have waits := parsed.waits
  have free : pending.length + 1 < 256 := by
    have : r.task.uncounted + pending.length + 1 < 256 := room
    omega
  have still : consumed (events ++ [.received byte]) = consumed events := consumed_append _ _
  refine ⟨?_, parsed.quiet rfl (List.append_assoc _ _ _).symm ?_ ?_⟩
  · apply if_neg
    intro resetting
    rw [resetting] at waits
    exact waits
  · show _ + 1 = 0 + (r.task.uncounted + (pending ++ [byte]).length)
    rw [Nat.zero_add, List.length_append]
    rfl
  · obtain ⟨u, timer, task⟩ := r
    cases task with
    | elsewhere => exact Buffers.interrupt waits (Nat.lt_of_succ_lt free) byte
    | resetting => exact waits
    | reading part c access =>
        obtain ⟨unread, len, read⟩ := waits
        refine ⟨unread.interrupt free ?_ byte, len, still.trans read⟩
        rintro size rfl
        exact untorn rfl

/-- What a turn of the main loop leaves: -1 is returned only without a byte read, the invariant holds
again, and if the next packet has arrived there is less to do. -/
def Advances (packets : List BlePacket) (events : List PacketEvent) (r : Receiver)
    (handled rest : List BlePacket) (pending : List UInt8) (turn : PacketTurn) : Prop :=
  AlwaysFrom ReturnsUnread events turn.events ∧ ∃ handled' rest' pending',
    Parsed packets (events ++ turn.events) turn.state handled' rest' pending' ∧
      handled.length ≤ handled'.length ∧
      (Arrived r rest pending → turn.state.due pending' < r.due pending)

/-- A call of `ble_process_packet`. -/
theorem advances_called (parsed : Parsed packets events r handled rest pending)
    (idle : r.task = .elsewhere) : Advances packets events r handled rest pending r.next := by
  obtain ⟨u, timer, task⟩ := r
  subst idle
  have called : consumed (events ++ [.called]) = [] := consumed_append _ _
  refine ⟨⟨nofun, trivial⟩, handled, rest, pending, parsed.quiet rfl ?_ ?_ ?_, le_rfl, fun _ => ?_⟩
  · exact (List.append_nil _).symm
  · exact (Nat.zero_add _).symm
  · exact ⟨Buffers.unread parsed.waits 4, rfl, called⟩
  · exact Nat.lt_succ_self _

/-- The handler of the packet whose bytes have been read. -/
theorem advances_handled (parsed : Parsed packets events r handled rest pending)
    (order : arrivals events <+: packets.flatMap BlePacket.bytes) {hdr : BleHeader} {data : List UInt8}
    (taken : r.task.taken = hdr.bytes ++ data) (all : data.length = hdr.lolen.toNat)
    (buffers : Buffers pending r.uart) (uncounted : r.task.uncounted = 0) (rank : 12 < r.task.rank) :
    Advances packets events r handled rest pending (bleHandle hdr data r) := by
  have begins := parsed.begins order
  rw [taken, List.append_assoc] at begins
  obtain ⟨packet, rest', rfl, rfl, later⟩ := exists_packet begins
  obtain rfl := packet.payload_eq all ((List.prefix_append _ _).trans later)
  obtain ⟨parts, answers, split, tally, -⟩ := parsed
  rw [bleHandle_known]
  refine ⟨⟨nofun, nofun, trivial⟩, handled ++ [packet], rest', pending, ⟨?_, ?_, ?_, ?_, buffers⟩, ?_,
    fun _ => ?_⟩
  · rw [parts, List.append_assoc]
    rfl
  · show (events ++ packet.answer).filter PacketEvent.answers = _
    rw [List.filter_append, answers, List.flatMap_append, List.flatMap_singleton]
    rfl
  · show arrivals (events ++ packet.answer) = _
    rw [arrivals_append, split, taken, List.flatMap_append, List.flatMap_singleton]
    show _ ++ [] = _ ++ ([] ++ pending)
    rw [List.append_nil, List.nil_append]
    exact (List.append_assoc _ _ _).symm
  · show (arrivals (events ++ packet.answer)).length = List.count .counted (events ++ packet.answer) + _
    rw [arrivals_append, List.count_append, List.length_append, tally, uncounted]
    rfl
  · rw [List.length_append]
    exact Nat.le_add_right _ _
  · exact Nat.add_lt_add_left rank _

/-- A call that needs more bytes finds some if its packet has arrived. -/
theorem Arrived.found (arrived : Arrived r rest pending)
    (begins : r.task.taken ++ pending <+: rest.flatMap BlePacket.bytes) {part : Reading} {c : Call}
    {access : RxAccess} (running : r.task = .reading part c access) (len : c.len = part.len)
    (more : c.data.length < c.len.toNat) : pending ≠ [] := by
  rintro rfl
  obtain ⟨packet, rest', rfl, all⟩ := arrived
  rw [List.append_nil, running] at all begins
  have sized : packet.bytes.length = 4 + packet.hdr.lolen.toNat := by
    rw [BlePacket.bytes, List.length_append, packet.length]
    rfl
  rw [len] at more
  cases part with
  | header =>
      have taken : packet.bytes.length ≤ c.data.length := all
      have four : c.data.length < 4 := more
      omega
  | payload hdr =>
      obtain ⟨_, _, same, rfl, -⟩ := exists_packet begins
      cases same
      have taken : packet.bytes.length ≤ (packet.hdr.bytes ++ c.data).length := all
      have four : packet.hdr.bytes.length = 4 := rfl
      rw [List.length_append, four] at taken
      have short : c.data.length < packet.hdr.lolen.toNat := more
      omega

theorem mem_moves {moved : List UInt8} {counts : Nat} {event : PacketEvent}
    (member : event ∈ moves moved counts) : (∃ byte, event = .stored byte) ∨ event = .counted := by
  rcases List.mem_append.mp member with stored | counted
  · obtain ⟨byte, -, rfl⟩ := List.mem_map.mp stored
    exact Or.inl ⟨byte, rfl⟩
  · exact Or.inr (List.eq_of_mem_replicate counted)

theorem filter_moves (moved : List UInt8) (counts : Nat) :
    (moves moved counts).filter PacketEvent.answers = [] := by
  refine List.filter_eq_nil_iff.mpr fun event member => ?_
  rcases mem_moves member with ⟨byte, rfl⟩ | rfl <;> exact Bool.false_ne_true

theorem arrivals_moves (moved : List UInt8) (counts : Nat) : arrivals (moves moved counts) = [] := by
  refine List.filterMap_eq_nil_iff.mpr fun event member => ?_
  rcases mem_moves member with ⟨byte, rfl⟩ | rfl <;> rfl

theorem count_moves (moved : List UInt8) (counts : Nat) :
    (moves moved counts).count .counted = counts := by
  rw [moves, List.count_append, List.count_replicate_self, List.count_eq_zero.mpr, Nat.zero_add]
  intro member
  obtain ⟨_, -, other⟩ := List.mem_map.mp member
  cases other

/-- The stored bytes are the ones that have been read. -/
theorem consumed_moves (events : List PacketEvent) (moved : List UInt8) (counts : Nat) :
    consumed (events ++ moves moved counts) = consumed events ++ moved := by
  rw [consumed_append]
  generalize consumed events = bytes
  induction moved generalizing bytes with
  | nil =>
      rw [List.append_nil]
      induction counts with
      | zero => rfl
      | succ counts ih => exact ih
  | cons byte moved ih => exact (ih (bytes ++ [byte])).trans (List.append_assoc _ _ _)

/-- An access after which the call goes on. -/
theorem advances_goesOn (parsed : Parsed packets events r handled rest pending)
    (order : arrivals events <+: packets.flatMap BlePacket.bytes) {part : Reading} {c : Call}
    {access : RxAccess} (running : r.task = .reading part c access) {moved left : List UInt8} {c' : Call}
    {access' : RxAccess} (goesOn : GoesOn pending c access moved left c' access'
      (uartRxAccess (cntThreshold ≤ r.timer) c access r.uart)) :
    Advances packets events r handled rest pending r.next := by
  have begins := parsed.begins order
  obtain ⟨u, timer, task⟩ := r
  subst running
  obtain ⟨unread, len, read⟩ := parsed.waits
  have next : Receiver.next ⟨u, timer, .reading part c access⟩ =
      .emit ⟨(uartRxAccess (cntThreshold ≤ timer) c access u).state.uart,
        if access.resets then 0 else timer, .reading part c' access'⟩ (moves moved access.counts) := by
    rw [← goesOn.events]
    simp only [Receiver.next, goesOn.call]
  rw [next]
  refine ⟨?_, handled, rest, left, parsed.quiet (filter_moves _ _) ?_ ?_ ?_, le_rfl, fun arrived => ?_⟩
  · refine alwaysFrom_mono (P := fun _ event => event ≠ .returned (-1)) (fun _ _ other same => ?_)
      (alwaysFrom_forall.mpr fun event member => ?_)
    · exact absurd same other
    · rcases mem_moves member with ⟨byte, rfl⟩ | rfl <;> nofun
  · show part.head ++ c'.data ++ left =
      part.head ++ c.data ++ pending ++ arrivals (moves moved access.counts)
    rw [arrivals_moves, goesOn.data, goesOn.parts]
    simp only [List.append_assoc, List.append_nil]
  · show access.uncounted + pending.length + (arrivals (moves moved access.counts)).length =
      (moves moved access.counts).count .counted + (access'.uncounted + left.length)
    have tally := goesOn.tally
    rw [arrivals_moves, count_moves, List.length_nil]
    omega
  · refine ⟨goesOn.unread, goesOn.len.trans len, ?_⟩
    show consumed (events ++ moves moved access.counts) = _
    rw [consumed_moves, read, goesOn.data, List.append_assoc]
  · refine goesOn.lower fun test => arrived.found begins rfl len ?_
    subst test
    have more : c.i < c.len := by
      by_contra full
      have call := goesOn.call
      unfold uartRxAccess at call
      rw [if_neg full] at call
      cases call
    rw [unread.data]
    exact UInt8.lt_iff_toNat_lt.mp more

/-- The call for a header has read all its bytes. -/
theorem advances_header (parsed : Parsed packets events r handled rest pending)
    (order : arrivals events <+: packets.flatMap BlePacket.bytes) {data : List UInt8}
    (taken : r.task.taken = data) (read : consumed events = data) (four : data.length = 4)
    (buffers : Buffers pending r.uart) (uncounted : r.task.uncounted = 0) (rank : 12 < r.task.rank) :
    Advances packets events r handled rest pending (bleProcessPacket .header 0 data r) := by
  have bytes : (BleHeader.ofBytes data).bytes = data := BleHeader.bytes_ofBytes four
  have whole : (BleHeader.ofBytes data).bytes ++ [] = data := (List.append_nil _).trans bytes
  show Advances packets events r handled rest pending
    (if (BleHeader.ofBytes data).lolen ≠ 0 then
      .pure (uartRx (.payload (BleHeader.ofBytes data)) (BleHeader.ofBytes data).lolen r)
    else bleHandle (BleHeader.ofBytes data) [] r)
  by_cases more : (BleHeader.ofBytes data).lolen ≠ 0
  · rw [if_pos more]
    refine ⟨trivial, handled, rest, pending, parsed.quiet rfl ?_ ?_ ?_, le_rfl, fun _ => ?_⟩
    · show (BleHeader.ofBytes data).bytes ++ [] ++ pending = r.task.taken ++ pending ++ []
      rw [whole, taken, List.append_nil]
    · show r.task.uncounted + pending.length + 0 = 0 + (0 + pending.length)
      omega
    · refine ⟨Buffers.unread buffers _, rfl, ?_⟩
      show consumed (events ++ []) = (BleHeader.ofBytes data).bytes ++ []
      rw [whole, List.append_nil]
      exact read
    · apply Nat.add_lt_add_left
      show (if (0 : UInt8) < (BleHeader.ofBytes data).lolen then 11 else 13) < r.task.rank
      rw [if_pos (UInt8.pos_iff_ne_zero.mpr more)]
      exact Nat.lt_of_succ_lt rank
  · rw [if_neg more]
    refine advances_handled parsed order (taken.trans whole.symm) ?_ buffers uncounted rank
    rw [not_not.mp more]
    rfl

/-- The call for a header has read nothing. -/
theorem advances_expired (parsed : Parsed packets events r handled rest pending)
    (taken : r.task.taken = []) (read : consumed events = []) (buffers : Buffers pending r.uart)
    (uncounted : r.task.uncounted = 0) (rank : 12 < r.task.rank) :
    Advances packets events r handled rest pending (bleProcessPacketReturns (-1) r) := by
  refine ⟨⟨fun _ => read, trivial⟩, handled, rest, pending, parsed.quiet rfl ?_ ?_ buffers, le_rfl,
    fun _ => Nat.add_lt_add_left rank _⟩
  · show [] ++ pending = r.task.taken ++ pending ++ []
    rw [taken, List.append_nil]
  · show r.task.uncounted + pending.length + 0 = 0 + (0 + pending.length)
    rw [uncounted]
    omega

/-- A call that returns. -/
theorem advances_returns (parsed : Parsed packets events r handled rest pending)
    (order : arrivals events <+: packets.flatMap BlePacket.bytes) {part : Reading} {c : Call}
    {access : RxAccess} (running : r.task = .reading part c access)
    (returns : Returns c access (cntThreshold ≤ r.timer)
      (uartRxAccess (cntThreshold ≤ r.timer) c access r.uart))
    (inTime : access = .timer → cntThreshold ≤ r.timer → part = .header ∧ c.i = 0) :
    Advances packets events r handled rest pending r.next := by
  obtain ⟨call, full, code, between, expired⟩ := returns
  obtain ⟨u, timer, task⟩ := r
  subst running
  obtain ⟨unread, len, read⟩ := parsed.waits
  have buffers := unread.buffers between
  have next : Receiver.next ⟨u, timer, .reading part c access⟩ = bleProcessPacket part
      (if access = .testSize then 0 else if c.i = 0 then -1 else 1) c.data
      ⟨u, timer, .reading part c access⟩ := by
    rw [← code]
    simp only [Receiver.next, call]
  rw [next]
  cases access with
  | testSize =>
      have all := full rfl
      have rank : 12 < RxAccess.rank c .testSize := by
        have ended : ¬ c.i < c.len := by
          rw [unread.data] at all
          rw [UInt8.lt_iff_toNat_lt, ← all]
          exact Nat.lt_irrefl _
        show 12 < if c.i < c.len then 11 else 13
        rw [if_neg ended]
        decide
      rw [if_pos rfl]
      rw [len] at all
      cases part with
      | header => exact advances_header parsed order rfl read all buffers rfl rank
      | payload hdr => exact advances_handled parsed order rfl all buffers rfl rank
  | timer =>
      obtain ⟨rfl, first⟩ := inTime rfl (of_decide_eq_true (expired rfl))
      have none' : c.data = [] := by
        rw [← List.length_eq_zero_iff, unread.data, first]
        rfl
      rw [if_neg (by decide), if_pos first]
      exact advances_expired parsed none' (read.trans none') buffers rfl (by decide : 12 < 14)
  | _ => cases between

/-- The next thing the main loop does. -/
theorem advances_next (parsed : Parsed packets events r handled rest pending)
    (order : arrivals events <+: packets.flatMap BlePacket.bytes) (room : outstanding events < 256)
    (inTime : ¬ (r.task.within = true ∧ cntThreshold ≤ r.timer)) :
    Advances packets events r handled rest pending r.next := by
  cases running : r.task with
  | elsewhere => exact advances_called parsed running
  | resetting =>
      have waits := parsed.waits
      rw [running] at waits
      exact waits.elim
  | reading part c access =>
      have waits := parsed.waits
      rw [running] at waits
      have free : pending.length < 256 := by
        rw [parsed.outstanding_eq] at room
        omega
      rcases unread_access waits.1 free (cntThreshold ≤ r.timer) with
        ⟨moved, left, c', access', goesOn⟩ | returns
      · exact advances_goesOn parsed order running goesOn
      · refine advances_returns parsed order running returns ?_
        rintro rfl expired
        rw [running] at inTime
        have outside : ¬ (part ≠ .header ∨ c.i ≠ 0) :=
          fun within => inTime ⟨decide_eq_true within, expired⟩
        rwa [not_or, not_not, not_not] at outside

end Invariant

/-! ### Runs -/

theorem packetRun_concat (u : Uart) (steps : List PacketStep) (step : PacketStep) :
    packetRun u (steps ++ [step]) =
      ⟨(packetStep step (packetRun u steps).state).state, (packetRun u steps).events ++
        (packetStep step (packetRun u steps).state).events, none⟩ :=
  run_concat packetStep steps step _

theorem sentBytes_append (first second : List PacketStep) :
    sentBytes (first ++ second) = sentBytes first ++ sentBytes second := List.filterMap_append

theorem sentBytes_mono {first second : List PacketStep} (front : first <+: second) :
    sentBytes first <+: sentBytes second := front.filterMap _

/-- The invariant after some steps, all of whose bytes have arrived. -/
structure ParsedRun (packets : List BlePacket) (u : Uart) (done : List PacketStep)
    (handled rest : List BlePacket) (pending : List UInt8) : Prop where
  parsed : Parsed packets (packetRun u done).events (packetRun u done).state handled rest pending
  arrived : arrivals (packetRun u done).events = sentBytes done
  unread : Always ReturnsUnread (packetRun u done).events
  room : outstanding (packetRun u done).events < rxMaxBufferSize
  fresh : outstanding (packetRun u done).events = 0 →
    (packetRun u done).state.timer.toNat ≤ countsSince done

section Runs

variable {packets handled rest : List BlePacket} {u : Uart} {steps : List PacketStep}
  {pending : List UInt8}

/-- `ble_process_packet` neither receives a byte nor counts one off, and leaves the timer or starts it. -/
theorem bleProcessPacket_quiet (part : Reading) (rrx : Int) (data : List UInt8) (r : Receiver) :
    arrivals (bleProcessPacket part rrx data r).events = [] ∧
      (bleProcessPacket part rrx data r).events.count .counted = 0 ∧
      ((bleProcessPacket part rrx data r).state.timer = 0 ∨
        (bleProcessPacket part rrx data r).state.timer = r.timer) := by
  have handles : ∀ hdr data, arrivals (bleHandle hdr data r).events = [] ∧
      (bleHandle hdr data r).events.count .counted = 0 ∧
      ((bleHandle hdr data r).state.timer = 0 ∨ (bleHandle hdr data r).state.timer = r.timer) := by
    intro hdr data
    unfold bleHandle
    split <;> exact ⟨rfl, rfl, Or.inr rfl⟩
  by_cases failed : rrx ≠ 0
  · cases part with
    | header =>
        simp only [bleProcessPacket, if_pos failed]
        exact ⟨rfl, rfl, Or.inr rfl⟩
    | payload hdr =>
        simp only [bleProcessPacket, if_pos failed]
        exact ⟨rfl, rfl, Or.inr rfl⟩
  · cases part with
    | header =>
        simp only [bleProcessPacket, if_neg failed]
        by_cases more : (BleHeader.ofBytes data).lolen ≠ 0
        · rw [if_pos more]
          exact ⟨rfl, rfl, Or.inl rfl⟩
        · rw [if_neg more]
          exact handles _ _
    | payload hdr =>
        simp only [bleProcessPacket, if_neg failed]
        exact handles _ _

/-- No access receives a byte. -/
theorem arrivals_accesses (events : List AccessEvent) :
    arrivals (events.filterMap AccessEvent.packetEvent) = [] := by
  rw [arrivals, List.filterMap_filterMap, List.filterMap_eq_nil_iff]
  intro event _
  cases event with
  | counted => rfl
  | uart event => cases event <;> rfl

/-- The main loop receives nothing. -/
theorem arrivals_next (r : Receiver) : arrivals r.next.events = [] := by
  obtain ⟨u, timer, _ | ⟨part, c, access⟩ | _⟩ := r
  · rfl
  · simp only [Receiver.next]
    cases (uartRxAccess (cntThreshold ≤ timer) c access u).state.call with
    | some following => exact arrivals_accesses _
    | none => exact (bleProcessPacket_quiet _ _ _ _).1
  · rfl

/-- An access that counts a byte off resets the timer. -/
theorem resets_of_counted {expired : Bool} {c : Call} {access : RxAccess} {u : Uart}
    (counted : .counted ∈ (uartRxAccess expired c access u).events.filterMap AccessEvent.packetEvent) :
    access.resets = true := by
  cases access with
  | storeSize size => rfl
  | testSize =>
      unfold uartRxAccess at counted
      by_cases more : c.i < c.len
      · rw [if_pos more] at counted
        cases counted
      · rw [if_neg more] at counted
        cases counted
  | timer =>
      unfold uartRxAccess at counted
      cases expired <;> cases counted
  | storeData byte => cases List.mem_singleton.mp counted
  | _ => cases counted

/-- The main loop starts the timer again, or it leaves it and counts no byte off. -/
theorem timer_next (r : Receiver) : r.next.state.timer = 0 ∨
    r.next.state.timer = r.timer ∧ r.next.events.count .counted = 0 := by
  obtain ⟨u, timer, _ | ⟨part, c, access⟩ | _⟩ := r
  · exact Or.inl rfl
  · have counted := @resets_of_counted (cntThreshold ≤ timer) c access u
    simp only [Receiver.next]
    cases (uartRxAccess (cntThreshold ≤ timer) c access u).state.call with
    | some following =>
        cases resets : access.resets with
        | true => exact Or.inl rfl
        | false =>
            refine Or.inr ⟨rfl, List.count_eq_zero.mpr fun member => ?_⟩
            rw [counted member] at resets
            cases resets
    | none =>
        obtain ⟨-, none', started | kept⟩ := bleProcessPacket_quiet part
          (returnedCode (uartRxAccess (cntThreshold ≤ timer) c access u).events) c.data
          ⟨u, timer, .reading part c access⟩
        · exact Or.inl started
        · exact Or.inr ⟨kept, none'⟩
  · exact Or.inr ⟨rfl, rfl⟩

/-- What one more step has to keep. -/
theorem ParsedRun.concat {done : List PacketStep} (before : ParsedRun packets u done handled rest pending)
    {step : PacketStep} {turn : PacketTurn} (stepped : packetStep step (packetRun u done).state = turn)
    {handled' rest' : List BlePacket} {pending' : List UInt8}
    (parsed : Parsed packets ((packetRun u done).events ++ turn.events) turn.state handled' rest' pending')
    (received : arrivals turn.events = sentBytes [step])
    (unread : AlwaysFrom ReturnsUnread (packetRun u done).events turn.events)
    (room : outstanding ((packetRun u done).events ++ turn.events) < rxMaxBufferSize)
    (fresh : outstanding ((packetRun u done).events ++ turn.events) = 0 →
      turn.state.timer.toNat ≤ step.countSince (countsSince done)) :
    ParsedRun packets u (done ++ [step]) handled' rest' pending' := by
  have counts : countsSince (done ++ [step]) = step.countSince (countsSince done) :=
    after_append PacketStep.countSince done [step] 0
  have whole := packetRun_concat u done step
  rw [stepped] at whole
  refine ⟨?_, ?_, ?_, ?_, ?_⟩ <;> rw [whole]
  · exact parsed
  · show arrivals ((packetRun u done).events ++ turn.events) = sentBytes (done ++ [step])
    rw [arrivals_append, before.arrived, received, sentBytes_append]
  · exact (always_append _ _ _).mpr ⟨before.unread, unread⟩
  · exact room
  · rw [counts]
    exact fresh

/-- What a step leaves: no packet is taken back, and while the next packet has arrived a turn of the main
loop lowers what there is to do, and only a byte raises it. -/
def Progresses (packets : List BlePacket) (u : Uart) (done : List PacketStep) (step : PacketStep)
    (handled rest : List BlePacket) (pending : List UInt8) : Prop :=
  ∃ handled' rest' pending', ParsedRun packets u (done ++ [step]) handled' rest' pending' ∧
    handled.length ≤ handled'.length ∧
    (Arrived (packetRun u done).state rest pending →
      (packetRun u (done ++ [step])).state.due pending' + [step].count .next ≤
        (packetRun u done).state.due pending + 20 * (sentBytes [step]).length)

theorem progresses_interrupt {done : List PacketStep} {byte : UInt8}
    (safe : ¬ (PacketStep.interrupt byte).Slips (packetRun u done))
    (before : ParsedRun packets u done handled rest pending) :
    Progresses packets u done (.interrupt byte) handled rest pending := by
  obtain ⟨untorn, roomy⟩ := not_or.mp safe
  have free : outstanding (packetRun u done).events + 1 < rxMaxBufferSize := not_le.mp roomy
  obtain ⟨turn, parsed⟩ := parsed_interrupt before.parsed byte untorn free
  have grown : outstanding ((packetRun u done).events ++ [.received byte]) =
      outstanding (packetRun u done).events + 1 := by
    rw [parsed.outstanding_eq, before.parsed.outstanding_eq, List.length_append]
    rfl
  refine ⟨handled, rest, _, before.concat turn parsed rfl ⟨nofun, trivial⟩ ?_ ?_, le_rfl, fun _ => ?_⟩
  · exact grown.trans_lt free
  · exact fun none' => absurd (grown.symm.trans none') (Nat.succ_ne_zero _)
  · rw [packetRun_concat, turn]
    show 20 * (pending ++ [byte]).length + (packetRun u done).state.task.rank + 0 ≤
      20 * pending.length + (packetRun u done).state.task.rank + 20
    rw [List.length_append, List.length_singleton]
    omega

theorem progresses_tick {done : List PacketStep}
    (before : ParsedRun packets u done handled rest pending) :
    Progresses packets u done .tick handled rest pending := by
  have parsed := before.parsed
  have same : (packetRun u done).events ++ [] = (packetRun u done).events := List.append_nil _
  refine ⟨handled, rest, pending, before.concat rfl ?_ rfl trivial ?_ fun none' => ?_, le_rfl,
    fun _ => ?_⟩
  · show Parsed packets ((packetRun u done).events ++ []) _ _ _ _
    rw [same]
    exact ⟨parsed.parts, parsed.answers, parsed.split, parsed.tally, parsed.waits⟩
  · show outstanding ((packetRun u done).events ++ []) < _
    rw [same]
    exact before.room
  · have fresh := before.fresh (by rwa [← same])
    show ((packetRun u done).state.timer + 1).toNat ≤ countsSince done + 1
    rw [UInt16.toNat_add, UInt16.toNat_one]
    exact (Nat.mod_le _ _).trans (Nat.succ_le_succ fresh)
  · rw [packetRun_concat]
    rfl

theorem progresses_next {done : List PacketStep}
    (order : sentBytes done <+: packets.flatMap BlePacket.bytes)
    (safe : ¬ PacketStep.next.Slips (packetRun u done))
    (before : ParsedRun packets u done handled rest pending) :
    Progresses packets u done .next handled rest pending := by
  rw [← before.arrived] at order
  obtain ⟨emits, handled', rest', pending', parsed, more, lower⟩ :=
    advances_next before.parsed order before.room safe
  have received := arrivals_next (packetRun u done).state
  have fewer : outstanding ((packetRun u done).events ++ (packetRun u done).state.next.events) =
      outstanding (packetRun u done).events - (packetRun u done).state.next.events.count .counted := by
    rw [outstanding, arrivals_append, received, List.append_nil, List.count_append]
    exact Nat.sub_add_eq _ _ _
  refine ⟨handled', rest', pending', before.concat rfl parsed received emits ?_ fun none' => ?_, more,
    fun arrived => ?_⟩
  · show outstanding (_ ++ (packetRun u done).state.next.events) < _
    rw [fewer]
    exact (Nat.sub_le _ _).trans_lt before.room
  · have nothing := fewer.symm.trans none'
    show (packetRun u done).state.next.state.timer.toNat ≤ countsSince done
    rcases timer_next (packetRun u done).state with started | ⟨kept, uncounted⟩
    · rw [started]
      exact Nat.zero_le _
    · rw [kept]
      rw [uncounted] at nothing
      exact before.fresh nothing
  · rw [packetRun_concat]
    exact lower arrived

/-- One more step. -/
theorem parsed_step (sent : Sent packets u steps)
    (safe : ∀ done step, done ++ [step] <+: steps → ¬ step.Slips (packetRun u done))
    {done : List PacketStep} {step : PacketStep} (front : done ++ [step] <+: steps)
    (before : ParsedRun packets u done handled rest pending) :
    Progresses packets u done step handled rest pending := by
  have sure := safe done step front
  cases step with
  | interrupt byte => exact progresses_interrupt sure before
  | tick => exact progresses_tick before
  | next =>
      have early := sentBytes_mono ((List.prefix_append done [.next]).trans front)
      exact progresses_next (early.trans sent.order) sure before

theorem flatMap_mono {α β : Type} (f : α → List β) {first second : List α}
    (front : first <+: second) : first.flatMap f <+: second.flatMap f := by
  obtain ⟨others, rfl⟩ := front
  rw [List.flatMap_append]
  exact List.prefix_append _ _

/-- What has been handled is a beginning of the packets. -/
theorem Parsed.handled_front {events : List PacketEvent} {r : Receiver}
    (parsed : Parsed packets events r handled rest pending) : handled <+: packets := by
  rw [parsed.parts]
  exact List.prefix_append _ _

/-- If more packets have been sent than handled, the next one has arrived. -/
theorem ParsedRun.next_arrived {done : List PacketStep}
    (run : ParsedRun packets u done handled rest pending) {early : List BlePacket}
    (front : early <+: packets) (all : early.flatMap BlePacket.bytes <+: sentBytes done)
    (fewer : handled.length < early.length) : Arrived (packetRun u done).state rest pending := by
  obtain ⟨parsed, arrived, -, -, -⟩ := run
  obtain ⟨others, rfl⟩ := List.prefix_of_prefix_length_le parsed.handled_front front fewer.le
  cases others with
  | nil => simp at fewer
  | cons packet others =>
      rw [parsed.parts, List.prefix_append_right_inj] at front
      obtain ⟨rest', rfl⟩ := front
      refine ⟨packet, others ++ rest', rfl, ?_⟩
      rw [← arrived, parsed.split, List.flatMap_append, List.prefix_append_right_inj,
        List.flatMap_cons] at all
      exact ((List.prefix_append _ _).trans all).length_le

/-- The invariant holds after every beginning of a run without a slip. -/
theorem parsed_run (sent : Sent packets u steps)
    (safe : ∀ done step, done ++ [step] <+: steps → ¬ step.Slips (packetRun u done))
    (done : List PacketStep) (front : done <+: steps) :
    ∃ handled rest pending, ParsedRun packets u done handled rest pending := by
  induction done using List.reverseRecOn with
  | nil => exact ⟨[], packets, [], parsed_start packets u, rfl, trivial, Nat.succ_pos 255,
      fun _ => le_rfl⟩
  | append_singleton done step ih =>
      obtain ⟨handled, rest, pending, before⟩ := ih ((List.prefix_append done [step]).trans front)
      obtain ⟨handled', rest', pending', after, -, -⟩ := parsed_step sent safe front before
      exact ⟨handled', rest', pending', after⟩

/-- Until the packets that have been sent are handled, every step of the main loop lowers what it has to
do, and only a byte raises it. -/
theorem parsed_late (sent : Sent packets u steps)
    (safe : ∀ done step, done ++ [step] <+: steps → ¬ step.Slips (packetRun u done))
    {done late : List PacketStep} (front : done ++ late <+: steps)
    (before : ParsedRun packets u done handled rest pending) {early : List BlePacket}
    (some' : early <+: packets) (all : early.flatMap BlePacket.bytes <+: sentBytes done) :
    ∃ handled' rest' pending', ParsedRun packets u (done ++ late) handled' rest' pending' ∧
      (early.length ≤ handled'.length ∨
        (packetRun u (done ++ late)).state.due pending' + late.count .next ≤
          (packetRun u done).state.due pending + 20 * (sentBytes late).length) := by
  induction late using List.reverseRecOn with
  | nil =>
      rw [List.append_nil]
      exact ⟨handled, rest, pending, before, Or.inr le_rfl⟩
  | append_singleton late step ih =>
      rw [← List.append_assoc] at front ⊢
      obtain ⟨handled', rest', pending', middle, progress⟩ := ih ((List.prefix_append _ _).trans front)
      obtain ⟨handled'', rest'', pending'', after, more, lower⟩ := parsed_step sent safe front middle
      refine ⟨handled'', rest'', pending'', after, ?_⟩
      by_cases enough : early.length ≤ handled'.length
      · exact Or.inl (enough.trans more)
      · have sofar := progress.resolve_left enough
        have arrived : early.flatMap BlePacket.bytes <+: sentBytes (done ++ late) := by
          rw [sentBytes_append]
          exact all.trans (List.prefix_append _ _)
        have less := lower (middle.next_arrived some' arrived (not_le.mp enough))
        refine Or.inr ?_
        rw [sentBytes_append, List.length_append, List.count_append]
        omega

theorem RxAccess.rank_le (c : Call) (access : RxAccess) : access.rank c ≤ 18 := by
  cases access with
  | testSize => exact (rank_testSize_le c).trans (by decide)
  | _ => exact Nat.le_of_ble_eq_true rfl

theorem Parsed.due_lt {events : List PacketEvent} {r : Receiver}
    (parsed : Parsed packets events r handled rest pending) :
    r.due pending < 20 * (outstanding events + 1) := by
  have rank : r.task.rank ≤ 18 := by
    cases r.task with
    | elsewhere => decide
    | reading part c access => exact access.rank_le c
    | resetting => decide
  rw [parsed.outstanding_eq, Receiver.due]
  omega

/-- A packet is handled soon after its last byte. -/
theorem parsed_prompt (sent : Sent packets u steps)
    (safe : ∀ done step, done ++ [step] <+: steps → ¬ step.Slips (packetRun u done))
    {done late : List PacketStep} (front : done ++ late <+: steps) {early : List BlePacket}
    (some' : early <+: packets) (all : early.flatMap BlePacket.bytes <+: sentBytes done)
    (enough : 20 * ((sentBytes (done ++ late)).length - (packetRun u done).events.count .counted + 1) ≤
      late.count .next) :
    early.flatMap BlePacket.answer <+:
      (packetRun u (done ++ late)).events.filter PacketEvent.answers := by
  obtain ⟨handled, rest, pending, before⟩ :=
    parsed_run sent safe done ((List.prefix_append _ _).trans front)
  obtain ⟨handled', rest', pending', after, progress⟩ := parsed_late sent safe front before some' all
  have handles : early.length ≤ handled'.length := by
    refine progress.resolve_right fun lowered => ?_
    have less := before.parsed.due_lt
    have tally := before.parsed.tally
    rw [outstanding, before.arrived] at less
    rw [before.arrived] at tally
    rw [sentBytes_append, List.length_append] at enough
    omega
  rw [after.parsed.answers]
  exact flatMap_mono _ (List.prefix_of_prefix_length_le some' after.parsed.handled_front handles)

theorem length_answers (handled : List BlePacket) :
    (handled.flatMap BlePacket.answer).length = 2 * handled.length := by
  induction handled with
  | nil => rfl
  | cons packet handled ih =>
      rw [List.flatMap_cons, List.length_append, ih, List.length_cons]
      show 2 + _ = _
      omega

/-- A call for a header finds the buffer empty. -/
theorem next_empty {uart : Uart} (timer : UInt16) {c : Call} (more : c.i < c.len)
    (empty : uart.rxbufferSize = 0) : Receiver.next ⟨uart, timer, .reading .header c .testSize⟩ =
      .pure ⟨uart, timer, .reading .header c .timer⟩ := by
  have access : uartRxAccess (cntThreshold ≤ timer) c .testSize uart =
      .pure ⟨uart, some (c, .timer)⟩ := by
    unfold uartRxAccess
    rw [if_pos more, if_neg (not_not.mpr empty)]
  simp only [Receiver.next, access]
  rfl

/-- A call for a header finds the timer run out. -/
theorem next_expired (uart : Uart) {timer : UInt16} {c : Call} (first : c.i = 0)
    (expired : cntThreshold ≤ timer) : Receiver.next ⟨uart, timer, .reading .header c .timer⟩ =
      .emit ⟨uart, timer, .elsewhere⟩ [.returned (-1)] := by
  have access : uartRxAccess (cntThreshold ≤ timer) c .timer uart =
      .emit ⟨uart, none⟩ [.uart (.returned c.len c.data (-1))] := by
    unfold uartRxAccess
    rw [if_pos (decide_eq_true expired), if_pos first]
  simp only [Receiver.next, access]
  rfl

/-- A call for a header that has read nothing and finds nothing returns -1 once its timer has run out. -/
theorem gives_up {uart : Uart} {timer : UInt16} {c : Call} {access : RxAccess}
    (unread : Unread [] c uart access) (len : c.len = 4) (none' : c.data = [])
    (expired : cntThreshold ≤ timer) : .returned (-1) ∈
      (Machine.run packetStep [.next, .next] ⟨uart, timer, .reading .header c access⟩).events := by
  have sized := unread.data
  rw [none', List.length_nil] at sized
  have first : c.i = 0 := by
    rw [← UInt8.toNat_inj, UInt8.toNat_zero]
    omega
  have last := next_expired uart first expired
  show _ ∈ ((Receiver.next ⟨uart, timer, .reading .header c access⟩).andThen
    (Machine.run packetStep [.next])).events
  cases access with
  | testSize =>
      have more : c.i < c.len := by
        rw [first, len]
        decide
      rw [next_empty timer more unread.size, Turn.pure_andThen, run_single]
      show _ ∈ (Receiver.next ⟨uart, timer, .reading .header c .timer⟩).events
      rw [last]
      exact List.mem_singleton_self _
  | timer =>
      rw [last, Turn.events_andThen]
      exact List.mem_append_left _ (List.mem_singleton_self _)
  | loadStart | storeStart start | loadByte start | storeData byte =>
      exact absurd rfl (unread.found rfl rfl)
  | reloadStart | restoreStart start | loadSize | storeSize size => cases sized

/-- Where all packets that have begun are handled, nothing has been read and nothing is unread. -/
theorem ParsedRun.nothing_left {done : List PacketStep}
    (run : ParsedRun packets u done handled rest pending) {early : List BlePacket}
    (front : early <+: packets) (whole : sentBytes done = early.flatMap BlePacket.bytes)
    (answered : (packetRun u done).events.filter PacketEvent.answers =
      early.flatMap BlePacket.answer) : (packetRun u done).state.task.taken ++ pending = [] := by
  have same : early = handled := by
    have sized := congrArg List.length (answered.symm.trans run.parsed.answers)
    rw [length_answers, length_answers] at sized
    have equal : early.length = handled.length := by omega
    have begins := List.prefix_of_prefix_length_le front run.parsed.handled_front equal.le
    exact begins.eq_of_length equal
  have split := run.arrived.symm.trans run.parsed.split
  rw [whole, same] at split
  exact List.self_eq_append_right.mp split

/-- Where all packets that have begun are handled, a call whose timer has run out returns -1. -/
theorem returns_unread {done : List PacketStep}
    (run : ParsedRun packets u done handled rest pending) {early : List BlePacket}
    (front : early <+: packets) (whole : sentBytes done = early.flatMap BlePacket.bytes)
    (answered : (packetRun u done).events.filter PacketEvent.answers = early.flatMap BlePacket.answer)
    {part : Reading} {c : Call} {access : RxAccess}
    (running : (packetRun u done).state.task = .reading part c access)
    (expired : cntThreshold ≤ (packetRun u done).state.timer) :
    .returned (-1) ∈ (Machine.run packetStep [.next, .next] (packetRun u done).state).events := by
  have nothing := run.nothing_left front whole answered
  have waits := run.parsed.waits
  generalize (packetRun u done).state = r at running expired nothing waits ⊢
  obtain ⟨uart, timer, task⟩ := r
  subst running
  obtain ⟨unread, len, -⟩ := waits
  obtain ⟨taken, rfl⟩ := List.append_eq_nil_iff.mp nothing
  obtain ⟨head, none'⟩ := List.append_eq_nil_iff.mp taken
  cases part with
  | payload hdr => cases head
  | header => exact gives_up unread len none' expired

end Runs

/-- A timer that runs out within a packet while no byte is there has counted since the last one, for at
least `cnt_threshold` counts, which are one less than `UART_TIMEOUT`. -/
theorem gap_of_runs_out {packets : List BlePacket} {u : Uart} {done : List PacketStep}
    (sent : Sent packets u done)
    (safe : ∀ early step, early ++ [step] <+: done → ¬ step.Slips (packetRun u early))
    (slips : PacketStep.next.Slips (packetRun u done))
    (nothing : outstanding (packetRun u done).events = 0) : cntThreshold.toNat ≤ countsSince done := by
  obtain ⟨_, _, _, run⟩ := parsed_run sent safe done (List.prefix_refl _)
  exact (UInt16.le_iff_toNat_le.mp slips.2).trans (run.fresh nothing)

/-- **Packets are parsed exactly in every run in which no interrupt falls between the load and the store
of the counter or fills the buffer, and the timer does not run out within a packet.** -/
theorem packets_parsed_exactly (packets : List BlePacket) (u : Uart) (steps : List PacketStep)
    (sent : Sent packets u steps)
    (safe : ∀ done step, done ++ [step] <+: steps → ¬ step.Slips (packetRun u done)) :
    ParsedExactly packets u steps where
  answers done front := by
    obtain ⟨handled, rest, pending, ⟨parsed, -, -, -, -⟩⟩ := parsed_run sent safe done front
    refine ⟨handled.length, ?_⟩
    rw [parsed.answers, ← List.prefix_iff_eq_take.mp parsed.handled_front]
  unread := by
    obtain ⟨_, _, _, run⟩ := parsed_run sent safe steps (List.prefix_refl _)
    exact run.unread
  prompt done late count front all enough :=
    parsed_prompt sent safe front (List.take_prefix _ _) all enough
  givesUp done count part c access front whole answered running expired := by
    obtain ⟨_, _, _, run⟩ := parsed_run sent safe done front
    exact returns_unread run (List.take_prefix _ _) whole answered running expired

/-! ### Two runs -/

/-- No more bytes arrive than are sent. -/
theorem arrivals_length_le (u : Uart) (steps : List PacketStep) :
    (arrivals (packetRun u steps).events).length ≤ (sentBytes steps).length := by
  induction steps using List.reverseRecOn with
  | nil => exact le_rfl
  | append_singleton steps step ih =>
      rw [packetRun_concat, arrivals_append, sentBytes_append, List.length_append, List.length_append]
      refine Nat.add_le_add ih ?_
      cases step with
      | interrupt byte =>
          unfold packetStep
          by_cases resetting : (packetRun u steps).state.task = .resetting
          · simp only [if_pos resetting]
            exact Nat.zero_le _
          · simp only [if_neg resetting]
            exact le_rfl
      | tick => exact le_rfl
      | next => exact (congrArg List.length (arrivals_next _)).le

/-- A run with few bytes and without a gap as long as `UART_TIMEOUT`. -/
theorem sent_of_inits {packets : List BlePacket} {steps : List PacketStep} (u : Uart)
    (order : sentBytes steps <+: packets.flatMap BlePacket.bytes)
    (few : (sentBytes steps).length ≤ rxMaxBufferSize)
    (quick : ∀ done ∈ steps.inits, countsSince done * 1000 < countsPerSecond * uartTimeout) :
    Sent packets u steps where
  order := order
  gaps done front := Or.inr (quick done ((List.mem_inits _ _).mpr front))
  room done front := by
    have arrived := arrivals_length_le u done
    exact (Nat.sub_le _ _).trans (arrived.trans ((sentBytes_mono front).length_le.trans few))

/-- Whether a run slips can be tested step by step. -/
theorem safe_of_take {u : Uart} {steps : List PacketStep}
    (every : ∀ i < steps.length, ¬ (steps.getD i .tick).Slips (packetRun u (steps.take i))) :
    ∀ done step, done ++ [step] <+: steps → ¬ step.Slips (packetRun u done) := by
  rintro done step ⟨others, rfl⟩
  have here := every done.length (by simp)
  simpa using here

/-- The response to `system_hello`. -/
def helloPacket : BlePacket where
  hdr := ⟨0, 0, 0, 1⟩
  payload := []
  msg := ⟨false, 0, 1⟩
  known := rfl
  high := rfl
  length := rfl
  short := by decide

/-- An event of the attributes class with one byte. -/
def statusPacket : BlePacket where
  hdr := ⟨0x80, 1, 2, 2⟩
  payload := [7]
  msg := ⟨true, 2, 2⟩
  known := rfl
  high := rfl
  length := rfl
  short := by decide

/-- The header arrives in two parts, and the payload while the second call waits for it. -/
def calmPacket : List PacketStep :=
  [.interrupt 0x80, .interrupt 1, .next, .next, .tick, .interrupt 2, .interrupt 2] ++
    List.replicate 40 .next ++ [.tick, .interrupt 7] ++ List.replicate 14 .next

theorem packets_parsed_exactly_calm :
    Sent [statusPacket] blankUart calmPacket ∧
      (∀ done step, done ++ [step] <+: calmPacket → ¬ step.Slips (packetRun blankUart done)) ∧
      ParsedExactly [statusPacket] blankUart calmPacket := by
  have sent : Sent [statusPacket] blankUart calmPacket :=
    sent_of_inits _ (by decide) (by decide) (by decide +kernel)
  have safe := @safe_of_take blankUart calmPacket (by decide +kernel)
  exact ⟨sent, safe, packets_parsed_exactly _ _ _ sent safe⟩

/-- The second byte of a response arrives between the load and the store for the first. -/
def tornPacket : List PacketStep :=
  .interrupt 0 :: List.replicate 9 .next ++ [.interrupt 0, .next, .interrupt 0, .interrupt 1]

/-- The response is then never handled. -/
theorem torn_packet_unhandled :
    ¬ ∀ (packets : List BlePacket) (u : Uart) (steps : List PacketStep),
      Sent packets u steps → ParsedExactly packets u steps := by
  intro right
  have sent : Sent [helloPacket] blankUart (tornPacket ++ List.replicate 80 .next) :=
    sent_of_inits _ (by decide) (by decide) (by decide +kernel)
  have handled := (right _ _ _ sent).prompt tornPacket (List.replicate 80 .next) 1 (List.prefix_refl _)
    (by decide +kernel) (by decide +kernel)
  revert handled
  decide +kernel

end Esloq
