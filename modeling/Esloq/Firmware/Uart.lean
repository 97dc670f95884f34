/-
**The UART receive buffer (`uart.c`): every byte is delivered while fewer than 256 are unread.**

`rxbuffer` has `RX_MAX_BUFFER_SIZE = 256` cells and three counters of one byte. The interrupt routine
fills it, `uart_rx` empties it. One step of the model is one run of the interrupt routine, a call, or
one iteration of the loop of `uart_rx`.

* `Buffered` — the invariant: the received bytes are those stored and those the ring holds, and
  `rxbuffer_size` counts the latter modulo 256.
* `uart_lossless_iff` — while at most 256 bytes are unread, `uart_rx` stores the received bytes in
  order and its next iteration finds the next one, exactly if the buffer is never full.
* `full_buffer_looks_empty` — at 256 unread bytes the counter is zero again.
-/

import Esloq.Lib.BigEndian
import Esloq.Lib.Machine
import Esloq.Lib.Ring

namespace Esloq

open Machine

/-! ### The buffer -/

/-- `RX_MAX_BUFFER_SIZE`. -/
def rxMaxBufferSize : Nat := 256

/-- The volatile variables of `uart.c`. -/
structure Uart where
  rxbuffer : Bytes 256
  /-- Start index of data in `rxbuffer`. -/
  rxbufferStart : UInt8
  /-- Next index to store data in `rxbuffer`. -/
  rxbufferNext : UInt8
  rxbufferSize : UInt8
  deriving DecidableEq

/-- The part of `uart_enable` that sets the buffer indices to the first entry. -/
def uartEnable (u : Uart) : Uart :=
  { u with rxbufferStart := 0, rxbufferNext := 0, rxbufferSize := 0 }

/-- `index %= RX_MAX_BUFFER_SIZE`. -/
def wrapIndex (index : UInt8) : UInt8 := UInt8.ofNat (index.toNat % rxMaxBufferSize)

/-- A one-byte index into the buffer. -/
def rxIndex (index : UInt8) : Fin 256 := ⟨index.toNat, index.toNat_lt⟩

/-- `ISR(USART_RX_vect)`. -/
def usartRxVect (byte : UInt8) (u : Uart) : Uart :=
  { rxbuffer := u.rxbuffer.set (rxIndex u.rxbufferNext) byte
    rxbufferStart := u.rxbufferStart
    rxbufferNext := wrapIndex (u.rxbufferNext + 1)
    rxbufferSize := u.rxbufferSize + 1 }

/-! ### `uart_rx` -/

/-- A running call of `uart_rx`: how many bytes it reads, the loop index, and what it has written to
`data`. -/
structure Call where
  len : UInt8
  i : UInt8
  data : List UInt8
  deriving DecidableEq

/-- What can be observed of the buffer. -/
inductive UartEvent
  | received (byte : UInt8)
  | stored (byte : UInt8)
  /-- A call returns, with the bytes it has stored. -/
  | returned (len : UInt8) (data : List UInt8) (code : Int)
  deriving DecidableEq

/-- The buffer and the running call of `uart_rx`, if there is one. -/
structure UartState where
  uart : Uart
  call : Option Call
  deriving DecidableEq

/-- What a step of the UART leaves; nothing is accessed out of bounds. -/
abbrev UartTurn := Turn UartState UartEvent Empty

/-- One iteration of the loop of `uart_rx`, and the return where it ends. `expired` says whether
`timer_16bit_value` has reached the threshold. -/
def uartRxIteration (expired : Bool) (c : Call) (u : Uart) : UartTurn :=
  if c.i < c.len then
    if u.rxbufferSize ≠ 0 then
      let byte := u.rxbuffer.get (rxIndex u.rxbufferStart)
      .emit
        { uart :=
            { u with
              rxbufferStart := wrapIndex (u.rxbufferStart + 1)
              rxbufferSize := u.rxbufferSize - 1 }
          call := some ⟨c.len, c.i + 1, c.data ++ [byte]⟩ }
        [.stored byte]
    else if expired then
      .emit ⟨u, none⟩ [.returned c.len c.data (if c.i = 0 then -1 else 1)]
    else .pure ⟨u, some c⟩
  else .emit ⟨u, none⟩ [.returned c.len c.data 0]

/-- A step: an interrupt, a call of `uart_rx` by the main loop, or an iteration of its loop. -/
inductive UartStep
  | interrupt (byte : UInt8)
  | call (len : UInt8)
  | iterate (expired : Bool)
  deriving DecidableEq

/-- The main loop makes one call after the other. -/
def uartStep (step : UartStep) (s : UartState) : UartTurn :=
  match step, s.call with
  | .interrupt byte, _ => .emit { s with uart := usartRxVect byte s.uart } [.received byte]
  | .call len, none => .pure { s with call := some ⟨len, 0, []⟩ }
  | .call _, some _ => .pure s
  | .iterate expired, some c => uartRxIteration expired c s.uart
  | .iterate _, none => .pure s

/-- The buffer after `uart_enable`, with no call running. -/
def uartStart (u : Uart) : UartState := ⟨uartEnable u, none⟩

/-- The steps of a list from `uart_enable` on. -/
def uartRun (u : Uart) (steps : List UartStep) : UartTurn := run uartStep steps (uartStart u)

/-! ### What has been received and stored -/

/-- The bytes the interrupt routine has received. -/
def receivedBytes (events : List UartEvent) : List UInt8 :=
  events.filterMap fun
    | .received byte => some byte
    | _ => none

/-- The bytes `uart_rx` has stored. -/
def storedBytes (events : List UartEvent) : List UInt8 :=
  events.filterMap fun
    | .stored byte => some byte
    | _ => none

/-- The number of bytes received and not yet stored. -/
def unread (events : List UartEvent) : Nat :=
  (receivedBytes events).length - (storedBytes events).length

/-- What a return value says: 0 that all bytes have been stored, -1 that none was consumed. -/
def ReturnCode : UartEvent → Prop
  | .returned len data code =>
      (code = 0 ↔ data.length = len.toNat) ∧ (code = -1 → data = [])
  | _ => True

/-- A lossless queue: what is stored is what has been received so far, in order, a reading iteration
stores the next received byte exactly if there is one, and the return values say what was stored. -/
structure Lossless (events : List UartEvent) (s : UartState) : Prop where
  order : storedBytes events <+: receivedBytes events
  next : ∀ expired c, c.i < c.len →
    storedBytes (uartRxIteration expired c s.uart).events =
      ((receivedBytes events).drop (storedBytes events).length).take 1
  returns : ∀ event ∈ events, ReturnCode event

/-! ### The invariant -/

/-- The bytes stored and the bytes in the ring are the received ones; a running call has stored as
many bytes as its index says. -/
structure Buffered (events : List UartEvent) (queue : List UInt8) (s : UartState) : Prop where
  holds : Ring.Holds s.uart.rxbuffer s.uart.rxbufferStart.toNat s.uart.rxbufferNext.toNat queue
  size : s.uart.rxbufferSize = UInt8.ofNat queue.length
  split : receivedBytes events = storedBytes events ++ queue
  index : ∀ c, s.call = some c → c.i ≤ c.len ∧ c.data.length = c.i.toNat

theorem receivedBytes_append (first second : List UartEvent) :
    receivedBytes (first ++ second) = receivedBytes first ++ receivedBytes second :=
  List.filterMap_append

theorem storedBytes_append (first second : List UartEvent) :
    storedBytes (first ++ second) = storedBytes first ++ storedBytes second :=
  List.filterMap_append

theorem Buffered.unread_eq {events : List UartEvent} {queue : List UInt8} {s : UartState}
    (buffered : Buffered events queue s) : unread events = queue.length := by
  rw [unread, buffered.split, List.length_append]
  omega

theorem buffered_start (u : Uart) : Buffered [] [] (uartStart u) where
  holds := Ring.Holds.empty _ (Nat.succ_pos 255)
  size := rfl
  split := rfl
  index c running := by cases running

/-- The byte after an index, as the ring counts. -/
theorem wrapIndex_next (index : UInt8) : (wrapIndex (index + 1)).toNat = (index.toNat + 1) % 256 := by
  rw [wrapIndex, UInt8.toNat_ofNat', UInt8.toNat_add, UInt8.toNat_one]
  show (index.toNat + 1) % 256 % 256 % 256 = _
  rw [Nat.mod_mod, Nat.mod_mod]

/-- An index is the cell of the ring at no distance from it. -/
theorem rxIndex_eq (index : UInt8) : rxIndex index = Ring.cell index.toNat 0 := by
  apply Fin.ext
  show index.toNat = (index.toNat + 0) % 256
  rw [Nat.add_zero, Nat.mod_eq_of_lt index.toNat_lt]

/-- The interrupt routine puts its byte behind the others. -/
theorem holds_usartRxVect {queue : List UInt8} {u : Uart}
    (holds : Ring.Holds u.rxbuffer u.rxbufferStart.toNat u.rxbufferNext.toNat queue)
    (free : queue.length < 256) (byte : UInt8) :
    Ring.Holds (usartRxVect byte u).rxbuffer (usartRxVect byte u).rxbufferStart.toNat
      (usartRxVect byte u).rxbufferNext.toNat (queue ++ [byte]) := by
  show Ring.Holds (u.rxbuffer.set (rxIndex u.rxbufferNext) byte) u.rxbufferStart.toNat
    (wrapIndex (u.rxbufferNext + 1)).toNat _
  rw [wrapIndex_next, rxIndex_eq]
  exact holds.push free byte

theorem rxbufferSize_usartRxVect {u : Uart} {count : Nat}
    (size : u.rxbufferSize = UInt8.ofNat count) (byte : UInt8) :
    (usartRxVect byte u).rxbufferSize = UInt8.ofNat (count + 1) := by
  show u.rxbufferSize + 1 = _
  rw [size]
  exact (UInt8.ofNat_add count 1).symm

theorem buffered_interrupt {events : List UartEvent} {queue : List UInt8} {s : UartState}
    (buffered : Buffered events queue s) (free : queue.length < 256) (byte : UInt8) :
    Buffered (events ++ [.received byte]) (queue ++ [byte])
      { s with uart := usartRxVect byte s.uart } := by
  refine ⟨holds_usartRxVect buffered.holds free byte, ?_, ?_, buffered.index⟩
  · rw [List.length_append]
    exact rxbufferSize_usartRxVect buffered.size byte
  · rw [receivedBytes_append, storedBytes_append, buffered.split, List.append_assoc]
    simp [receivedBytes, storedBytes]

/-- `rxbuffer_size` is zero for the empty buffer and for the full one. -/
theorem size_eq_zero_iff {events : List UartEvent} {queue : List UInt8} {s : UartState}
    (buffered : Buffered events queue s) :
    s.uart.rxbufferSize = 0 ↔ queue = [] ∨ queue.length = 256 := by
  have room := buffered.holds.room
  rw [buffered.size, ← UInt8.toNat_inj, UInt8.toNat_ofNat', UInt8.toNat_zero, ← List.length_eq_zero_iff]
  omega

/-- An iteration that finds a byte stores the oldest one. -/
theorem buffered_read {events : List UartEvent} {queue : List UInt8} {s : UartState} {c : Call}
    (buffered : Buffered events queue s) (running : s.call = some c) (more : c.i < c.len)
    (found : s.uart.rxbufferSize ≠ 0) (expired : Bool) :
    ∃ byte rest s', queue = byte :: rest ∧
      uartRxIteration expired c s.uart = .emit s' [.stored byte] ∧
      Buffered (events ++ [.stored byte]) rest s' := by
  obtain ⟨nonempty, -⟩ := not_or.mp fun none' => found ((size_eq_zero_iff buffered).mpr none')
  obtain ⟨byte, rest, rfl⟩ := List.exists_cons_of_ne_nil nonempty
  have front := buffered.holds.front
  have popped := buffered.holds.pop
  have room := buffered.holds.room
  obtain ⟨-, sized⟩ := buffered.index c running
  have below : c.i.toNat < c.len.toNat := UInt8.lt_iff_toNat_lt.mp more
  have step : (c.i + 1).toNat = c.i.toNat + 1 := by
    have := c.len.toNat_lt
    rw [UInt8.toNat_add, UInt8.toNat_one]
    omega
  rw [← rxIndex_eq] at front
  rw [← wrapIndex_next] at popped
  refine ⟨byte, rest, ⟨⟨s.uart.rxbuffer, wrapIndex (s.uart.rxbufferStart + 1), s.uart.rxbufferNext,
    s.uart.rxbufferSize - 1⟩, some ⟨c.len, c.i + 1, c.data ++ [byte]⟩⟩, rfl, ?_, popped, ?_, ?_, ?_⟩
  · rw [uartRxIteration, if_pos more, if_pos found, front]
  · show s.uart.rxbufferSize - 1 = _
    rw [buffered.size, ← UInt8.toNat_inj, UInt8.toNat_sub, UInt8.toNat_ofNat', UInt8.toNat_ofNat',
      UInt8.toNat_one]
    rw [List.length_cons] at room ⊢
    omega
  · rw [receivedBytes_append, storedBytes_append, buffered.split, List.append_assoc]
    simp [receivedBytes, storedBytes]
  · intro c' later
    cases later
    refine ⟨UInt8.le_iff_toNat_le.mpr (by rw [step]; exact below), ?_⟩
    rw [List.length_append, sized, step]
    rfl

/-- An iteration that reads nothing leaves the buffer, and returns only what it may. -/
theorem buffered_idle {events : List UartEvent} {queue : List UInt8} {s : UartState} {c : Call}
    (buffered : Buffered events queue s) (running : s.call = some c)
    (nothing : ¬ (c.i < c.len ∧ s.uart.rxbufferSize ≠ 0)) (expired : Bool) :
    ∃ call returned, uartRxIteration expired c s.uart = .emit ⟨s.uart, call⟩ returned ∧
      storedBytes returned = [] ∧ (∀ event ∈ returned, ReturnCode event) ∧
      Buffered (events ++ returned) queue ⟨s.uart, call⟩ := by
  obtain ⟨atMost, sized⟩ := buffered.index c running
  have kept : ∀ (call : Option Call) (returned : List UartEvent), receivedBytes returned = [] →
      storedBytes returned = [] → (call = none ∨ call = some c) →
      Buffered (events ++ returned) queue ⟨s.uart, call⟩ := by
    intro call returned noneReceived noneStored same
    refine ⟨buffered.holds, buffered.size, ?_, ?_⟩
    · rw [receivedBytes_append, storedBytes_append, noneReceived, noneStored, List.append_nil,
        List.append_nil]
      exact buffered.split
    · rintro c' later
      rcases same with rfl | rfl
      · cases later
      · cases later
        exact ⟨atMost, sized⟩
  by_cases more : c.i < c.len
  · have empty : ¬ s.uart.rxbufferSize ≠ 0 := fun found => nothing ⟨more, found⟩
    have short : c.data.length ≠ c.len.toNat := by
      have := UInt8.lt_iff_toNat_lt.mp more
      omega
    rw [uartRxIteration, if_pos more, if_neg empty]
    cases expired with
    | false => exact ⟨some c, [], rfl, rfl, by simp, kept _ _ rfl rfl (Or.inr rfl)⟩
    | true =>
        refine ⟨none, _, rfl, rfl, ?_, kept _ _ rfl rfl (Or.inl rfl)⟩
        rintro event member
        rw [List.mem_singleton.mp member]
        by_cases first : c.i = 0
        · rw [if_pos first]
          refine ⟨by simp [short], fun _ => ?_⟩
          rw [first] at sized
          exact List.length_eq_zero_iff.mp sized
        · rw [if_neg first]
          exact ⟨by simp [short], fun code => absurd code (by decide)⟩
  · have all : c.data.length = c.len.toNat := by
      have := UInt8.lt_iff_toNat_lt.not.mp more
      have := UInt8.le_iff_toNat_le.mp atMost
      omega
    rw [uartRxIteration, if_neg more]
    refine ⟨none, _, rfl, rfl, ?_, kept _ _ rfl rfl (Or.inl rfl)⟩
    rintro event member
    rw [List.mem_singleton.mp member]
    exact ⟨by simp [all], fun code => absurd code (by decide)⟩

/-! ### Runs -/

/-- A step keeps the invariant as long as a received byte finds room. -/
theorem buffered_step {events : List UartEvent} {queue : List UInt8} {s : UartState}
    (buffered : Buffered events queue s) (step : UartStep)
    (bounded : unread (events ++ (uartStep step s).events) ≤ rxMaxBufferSize) :
    (∀ event ∈ (uartStep step s).events, ReturnCode event) ∧
      ∃ queue', Buffered (events ++ (uartStep step s).events) queue' (uartStep step s).state := by
  have still : Buffered (events ++ []) queue s := by rwa [List.append_nil]
  cases step with
  | interrupt byte =>
      have free : queue.length < 256 := by
        have taken : unread (events ++ [.received byte]) ≤ 256 := bounded
        rw [unread, receivedBytes_append, storedBytes_append, buffered.split] at taken
        simp only [receivedBytes, storedBytes, List.filterMap_cons, List.filterMap_nil,
          List.length_append, List.length_cons, List.length_nil] at taken
        omega
      refine ⟨?_, _, buffered_interrupt buffered free byte⟩
      rintro event member
      rw [List.mem_singleton.mp member]
      exact trivial
  | call len =>
      cases running : s.call with
      | none =>
          refine ⟨?_, queue, ?_⟩
          · simp [uartStep, running, Turn.pure]
          · simp only [uartStep, running, Turn.pure, List.append_nil]
            refine ⟨buffered.holds, buffered.size, buffered.split, ?_⟩
            rintro c started
            cases started
            exact ⟨UInt8.le_iff_toNat_le.mpr (Nat.zero_le _), rfl⟩
      | some c =>
          refine ⟨?_, queue, ?_⟩
          · simp [uartStep, running, Turn.pure]
          · simp only [uartStep, running]
            exact still
  | iterate expired =>
      cases running : s.call with
      | none =>
          refine ⟨?_, queue, ?_⟩
          · simp [uartStep, running, Turn.pure]
          · simp only [uartStep, running]
            exact still
      | some c =>
          simp only [uartStep, running]
          by_cases reads : c.i < c.len ∧ s.uart.rxbufferSize ≠ 0
          · obtain ⟨byte, rest, s', -, same, later⟩ :=
              buffered_read buffered running reads.1 reads.2 expired
            rw [same]
            refine ⟨?_, rest, later⟩
            rintro event member
            rw [List.mem_singleton.mp member]
            exact trivial
          · obtain ⟨call, returned, same, -, codes, later⟩ :=
              buffered_idle buffered running reads expired
            rw [same]
            exact ⟨codes, queue, later⟩

theorem uartRun_concat (u : Uart) (steps : List UartStep) (step : UartStep) :
    uartRun u (steps ++ [step]) =
      ⟨(uartStep step (uartRun u steps).state).state,
        (uartRun u steps).events ++ (uartStep step (uartRun u steps).state).events, none⟩ :=
  run_concat uartStep steps step _

/-- Of a list and a step the beginnings are those of the list, and the whole. -/
theorem buffered_run (u : Uart) (steps : List UartStep)
    (bounded : ∀ before ∈ steps.inits, unread (uartRun u before).events ≤ rxMaxBufferSize) :
    (∀ event ∈ (uartRun u steps).events, ReturnCode event) ∧
      ∃ queue, Buffered (uartRun u steps).events queue (uartRun u steps).state := by
  induction steps using List.reverseRecOn with
  | nil => exact ⟨by simp [uartRun, Turn.pure], [], buffered_start u⟩
  | append_singleton steps step ih =>
      obtain ⟨codes, queue, buffered⟩ := ih fun before member =>
        bounded before ((List.mem_inits _ _).mpr
          (((List.mem_inits _ _).mp member).trans (List.prefix_append steps [step])))
      have whole := bounded _ ((List.mem_inits _ _).mpr (List.prefix_refl _))
      rw [uartRun_concat] at whole ⊢
      obtain ⟨later, kept⟩ := buffered_step buffered step whole
      refine ⟨fun event member => ?_, kept⟩
      rcases List.mem_append.mp member with earlier | now
      · exact codes event earlier
      · exact later event now

/-! ### Lossless up to 255 bytes -/

/-- What an iteration stores, from the counter and the cell at the start index. -/
theorem storedBytes_iteration (expired : Bool) {c : Call} (u : Uart) (more : c.i < c.len) :
    storedBytes (uartRxIteration expired c u).events =
      if u.rxbufferSize = 0 then [] else [u.rxbuffer.get (rxIndex u.rxbufferStart)] := by
  rw [uartRxIteration, if_pos more]
  by_cases empty : u.rxbufferSize = 0
  · rw [if_neg (not_not.mpr empty), if_pos empty]
    cases expired <;> rfl
  · rw [if_pos empty, if_neg empty]
    rfl

/-- A buffer that is not full delivers. -/
theorem lossless_of_room {events : List UartEvent} {queue : List UInt8} {s : UartState}
    (buffered : Buffered events queue s) (room : queue.length < 256)
    (codes : ∀ event ∈ events, ReturnCode event) : Lossless events s := by
  refine ⟨⟨queue, buffered.split.symm⟩, ?_, codes⟩
  intro expired c more
  rw [storedBytes_iteration expired s.uart more, buffered.split, List.drop_left]
  cases queue with
  | nil => rw [if_pos ((size_eq_zero_iff buffered).mpr (Or.inl rfl)), List.take_nil]
  | cons byte rest =>
      have nonzero : ¬ s.uart.rxbufferSize = 0 := by
        rw [size_eq_zero_iff buffered]
        exact not_or.mpr ⟨List.cons_ne_nil _ _, room.ne⟩
      rw [if_neg nonzero, rxIndex_eq, buffered.holds.front]
      rfl

/-- A full buffer is taken for an empty one. -/
theorem full_buffer_looks_empty {events : List UartEvent} {queue : List UInt8} {s : UartState}
    (buffered : Buffered events queue s) (full : queue.length = 256) : ¬ Lossless events s := by
  intro lossless
  have stored := lossless.next false ⟨1, 0, []⟩ (by decide)
  rw [storedBytes_iteration false s.uart (by decide),
    if_pos ((size_eq_zero_iff buffered).mpr (Or.inr full)), buffered.split, List.drop_left] at stored
  have one := congrArg List.length stored
  rw [List.length_take, full] at one
  cases one

theorem inits_trans {α : Type} {before middle steps : List α} (first : before ∈ middle.inits)
    (second : middle ∈ steps.inits) : before ∈ steps.inits := by
  rw [List.mem_inits] at first second ⊢
  exact first.trans second

/-- **The receive buffer is lossless exactly while it is not full.** -/
theorem uart_lossless_iff (u : Uart) (steps : List UartStep)
    (bounded : ∀ before ∈ steps.inits, unread (uartRun u before).events ≤ rxMaxBufferSize) :
    (∀ before ∈ steps.inits, Lossless (uartRun u before).events (uartRun u before).state) ↔
      ∀ before ∈ steps.inits, unread (uartRun u before).events < rxMaxBufferSize := by
  have reached : ∀ before ∈ steps.inits,
      (∀ event ∈ (uartRun u before).events, ReturnCode event) ∧
        ∃ queue, Buffered (uartRun u before).events queue (uartRun u before).state :=
    fun before member => buffered_run u before fun earlier first =>
      bounded earlier (inits_trans first member)
  constructor
  · intro lossless before member
    obtain ⟨-, queue, buffered⟩ := reached before member
    have atMost := bounded before member
    rw [buffered.unread_eq] at atMost ⊢
    refine lt_of_le_of_ne atMost fun full => ?_
    exact full_buffer_looks_empty buffered full (lossless before member)
  · intro room before member
    obtain ⟨codes, queue, buffered⟩ := reached before member
    have less := room before member
    rw [buffered.unread_eq] at less
    exact lossless_of_room buffered less codes

/-! ### The full buffer -/

/-- The variables of `uart.c` at startup. -/
def blankUart : Uart := ⟨Bytes.zeros 256, 0, 0, 0⟩

/-- Two bytes arrive and are read. -/
def shortSteps : List UartStep :=
  [.interrupt 1, .interrupt 2, .call 2, .iterate false, .iterate false, .iterate false]

theorem uart_lossless_short :
    (∀ before ∈ shortSteps.inits, unread (uartRun blankUart before).events ≤ rxMaxBufferSize) ∧
      ((∀ before ∈ shortSteps.inits,
          Lossless (uartRun blankUart before).events (uartRun blankUart before).state) ↔
        ∀ before ∈ shortSteps.inits, unread (uartRun blankUart before).events < rxMaxBufferSize) := by
  have bounded : ∀ before ∈ shortSteps.inits,
      unread (uartRun blankUart before).events ≤ rxMaxBufferSize := by decide +kernel
  exact ⟨bounded, uart_lossless_iff blankUart shortSteps bounded⟩

/-- While the motor runs 256 bytes arrive. -/
def fullSteps : List UartStep := List.replicate 256 (.interrupt 7)

/-- A step receives at most a byte. -/
theorem length_receivedBytes_le (u : Uart) (steps : List UartStep) :
    (receivedBytes (uartRun u steps).events).length ≤ steps.length := by
  induction steps using List.reverseRecOn with
  | nil => exact Nat.le_refl 0
  | append_singleton steps step ih =>
      have one : (receivedBytes (uartStep step (uartRun u steps).state).events).length ≤ 1 := by
        obtain ⟨uart, call⟩ := (uartRun u steps).state
        cases step with
        | interrupt byte => exact Nat.le_refl 1
        | call len => cases call <;> exact Nat.zero_le 1
        | iterate expired =>
            cases call with
            | none => exact Nat.zero_le 1
            | some c =>
                simp only [uartStep, uartRxIteration]
                split
                · split
                  · exact Nat.zero_le 1
                  · split <;> exact Nat.zero_le 1
                · exact Nat.zero_le 1
      rw [uartRun_concat, receivedBytes_append, List.length_append, List.length_append]
      exact Nat.add_le_add ih one

/-- A call of `uart_rx` then times out. -/
theorem full_buffer_times_out :
    (uartRun blankUart (fullSteps ++ [.call 4, .iterate true])).events.getLast? =
        some (.returned 4 [] (-1)) ∧
      ¬ ∀ steps : List UartStep,
        (∀ before ∈ steps.inits, unread (uartRun blankUart before).events ≤ rxMaxBufferSize) →
        ∀ before ∈ steps.inits,
          Lossless (uartRun blankUart before).events (uartRun blankUart before).state := by
  refine ⟨by decide +kernel, fun lossless => ?_⟩
  have bounded : ∀ before ∈ fullSteps.inits,
      unread (uartRun blankUart before).events ≤ rxMaxBufferSize := by
    intro before member
    have received := length_receivedBytes_le blankUart before
    have shorter := ((List.mem_inits _ _).mp member).length_le
    rw [fullSteps, List.length_replicate] at shorter
    unfold unread
    exact (Nat.sub_le _ _).trans (received.trans shorter)
  have stored := (lossless fullSteps bounded fullSteps
    ((List.mem_inits _ _).mpr (List.prefix_refl _))).next true ⟨4, 0, []⟩ (by decide)
  revert stored
  decide +kernel

end Esloq
