/-
**The UART receive buffer, one memory access at a time (`uart.c`).**

`uart_rx` runs with interrupts enabled, and its `rxbuffer_size--` is a load and a store. One step of
the model is one access of `uart_rx` to a volatile variable, to `data` or to the timer, or one run of
the interrupt routine, which falls between any two of them. A byte counts as read with the store that
counts it off.

* `iteration_of_accesses` — without interrupts the accesses of a reading iteration are the iteration
  of `uartRxIteration`.
* `Tallied` — the invariant: received is read, plus the counter, plus the interrupts between a load
  of the counter and its store. The counter is what has been loaded while the store is due.
* `counter_eq_unread_iff` — outside that window the counter is right exactly if no interrupt has ever
  fallen into it.
-/

import Esloq.Firmware.Uart

namespace Esloq

open Machine

/-! ### Accesses -/

/-- The next access of a running call, with what it has loaded before. -/
inductive RxAccess
  /-- The load of `if (rxbuffer_size)`. -/
  | testSize
  /-- `timer_16bit_value`, where the buffer was empty. -/
  | timer
  /-- The load, the store and the use of `rxbuffer[rxbuffer_start++]`. -/
  | loadStart
  | storeStart (start : UInt8)
  | loadByte (start : UInt8)
  | storeData (byte : UInt8)
  /-- The load and the store of `rxbuffer_start %= RX_MAX_BUFFER_SIZE`. -/
  | reloadStart
  | restoreStart (start : UInt8)
  /-- The load and the store of `rxbuffer_size--`. -/
  | loadSize
  | storeSize (size : UInt8)
  deriving DecidableEq

/-- The buffer and the running call with its next access. -/
structure AccessState where
  uart : Uart
  call : Option (Call × RxAccess)
  deriving DecidableEq

/-- What can be observed: the events of the UART, and the store that counts a byte off. -/
inductive AccessEvent
  | uart (event : UartEvent)
  | counted
  deriving DecidableEq

/-- What an access leaves. -/
abbrev AccessTurn := Turn AccessState AccessEvent Empty

/-- One access of `uart_rx`. The test of the loop and `i++` concern registers only. -/
def uartRxAccess (expired : Bool) (c : Call) (access : RxAccess) (u : Uart) : AccessTurn :=
  match access with
  | .testSize =>
      if c.i < c.len then
        .pure ⟨u, some (c, if u.rxbufferSize ≠ 0 then .loadStart else .timer)⟩
      else .emit ⟨u, none⟩ [.uart (.returned c.len c.data 0)]
  | .timer =>
      if expired then
        .emit ⟨u, none⟩ [.uart (.returned c.len c.data (if c.i = 0 then -1 else 1))]
      else .pure ⟨u, some (c, .testSize)⟩
  | .loadStart => .pure ⟨u, some (c, .storeStart u.rxbufferStart)⟩
  | .storeStart start => .pure ⟨{ u with rxbufferStart := start + 1 }, some (c, .loadByte start)⟩
  | .loadByte start => .pure ⟨u, some (c, .storeData (u.rxbuffer.get (rxIndex start)))⟩
  | .storeData byte =>
      .emit ⟨u, some ({ c with data := c.data ++ [byte] }, .reloadStart)⟩ [.uart (.stored byte)]
  | .reloadStart => .pure ⟨u, some (c, .restoreStart u.rxbufferStart)⟩
  | .restoreStart start => .pure ⟨{ u with rxbufferStart := wrapIndex start }, some (c, .loadSize)⟩
  | .loadSize => .pure ⟨u, some (c, .storeSize u.rxbufferSize)⟩
  | .storeSize size =>
      .emit ⟨{ u with rxbufferSize := size - 1 }, some ({ c with i := c.i + 1 }, .testSize)⟩
        [.counted]

/-- A step: an interrupt, a call of `uart_rx` by the main loop, or its next access. -/
inductive AccessStep
  | interrupt (byte : UInt8)
  | call (len : UInt8)
  | access (expired : Bool)
  deriving DecidableEq

/-- The main loop makes one call after the other. -/
def accessStep (step : AccessStep) (s : AccessState) : AccessTurn :=
  match step, s.call with
  | .interrupt byte, _ => .emit { s with uart := usartRxVect byte s.uart } [.uart (.received byte)]
  | .call len, none => .pure { s with call := some (⟨len, 0, []⟩, .testSize) }
  | .call _, some _ => .pure s
  | .access expired, some (c, next) => uartRxAccess expired c next s.uart
  | .access _, none => .pure s

/-- The steps of a list from `uart_enable` on. -/
def accessRun (u : Uart) (steps : List AccessStep) : AccessTurn :=
  run accessStep steps ⟨uartEnable u, none⟩

/-- The events the coarser model has too. -/
def uartEvents (events : List AccessEvent) : List UartEvent :=
  events.filterMap fun
    | .uart event => some event
    | .counted => none

/-- The number of bytes the interrupt routine has received. -/
def receivedCount (events : List AccessEvent) : Nat := (receivedBytes (uartEvents events)).length

/-- The number of bytes `uart_rx` has read and counted off. -/
def readCount (events : List AccessEvent) : Nat := events.count .counted

/-- Between the load of the counter and its store. -/
def AccessState.between (s : AccessState) : Bool :=
  match s.call with
  | some (_, .storeSize _) => true
  | _ => false

/-- An interrupt between the load and the store. -/
def AccessStep.tears (step : AccessStep) (s : AccessState) : Bool :=
  match step with
  | .interrupt _ => s.between
  | _ => false

/-- No interrupt falls between a load of the counter and its store. -/
def Uninterrupted (u : Uart) (steps : List AccessStep) : Prop :=
  ∀ before step after, steps = before ++ step :: after →
    step.tears (accessRun u before).state = false

/-! ### The coarser model -/

/-- The accesses of one iteration, with no interrupt between them, are the iteration. -/
theorem iteration_of_accesses (expired : Bool) (c : Call) (u : Uart) :
    ∃ count events,
      run accessStep (List.replicate count (.access expired)) ⟨u, some (c, .testSize)⟩ =
        .emit ⟨(uartRxIteration expired c u).state.uart,
          (uartRxIteration expired c u).state.call.map (·, .testSize)⟩ events ∧
      uartEvents events = (uartRxIteration expired c u).events := by
  by_cases more : c.i < c.len
  · by_cases found : u.rxbufferSize ≠ 0
    · have test : uartRxAccess expired c .testSize u = .pure ⟨u, some (c, .loadStart)⟩ := by
        rw [uartRxAccess, if_pos more, if_pos found]
      rw [uartRxIteration, if_pos more, if_pos found]
      refine ⟨9, [.uart (.stored (u.rxbuffer.get (rxIndex u.rxbufferStart))), .counted], ?_, rfl⟩
      simp only [List.replicate_succ, List.replicate_zero, run_cons, accessStep, test,
        Turn.pure_andThen]
      rfl
    · have test : uartRxAccess expired c .testSize u = .pure ⟨u, some (c, .timer)⟩ := by
        rw [uartRxAccess, if_pos more, if_neg found]
      rw [uartRxIteration, if_pos more, if_neg found]
      cases expired with
      | false =>
          refine ⟨2, [], ?_, rfl⟩
          simp only [List.replicate_succ, List.replicate_zero, run_cons, accessStep, test,
            Turn.pure_andThen]
          rfl
      | true =>
          refine ⟨2, [.uart (.returned c.len c.data (if c.i = 0 then -1 else 1))], ?_, rfl⟩
          simp only [List.replicate_succ, List.replicate_zero, run_cons, accessStep, test,
            Turn.pure_andThen]
          rfl
  · rw [uartRxIteration, if_neg more]
    refine ⟨1, [.uart (.returned c.len c.data 0)], ?_, rfl⟩
    simp only [List.replicate_succ, List.replicate_zero, run_cons, accessStep, uartRxAccess,
      if_neg more]
    rfl

/-! ### The tally -/

/-- What the counter is about to count: the value that has been loaded, or the one in memory. -/
def AccessState.tally (s : AccessState) : UInt8 :=
  match s.call with
  | some (_, .storeSize size) => size
  | _ => s.uart.rxbufferSize

/-- Whether a byte has been found and not been counted off. -/
def AccessState.reading (s : AccessState) : Bool :=
  match s.call with
  | none | some (_, .testSize) | some (_, .timer) => false
  | _ => true

/-- The received bytes are the read ones, the tally, and the interrupts that were `missed`. -/
structure Tallied (events : List AccessEvent) (missed : Nat) (s : AccessState) : Prop where
  sum : receivedCount events = readCount events + s.tally.toNat + missed
  found : s.reading = true → 1 ≤ s.tally.toNat

theorem receivedCount_append (first second : List AccessEvent) :
    receivedCount (first ++ second) = receivedCount first + receivedCount second := by
  rw [receivedCount, uartEvents, List.filterMap_append, receivedBytes_append, List.length_append]
  rfl

theorem readCount_append (first second : List AccessEvent) :
    readCount (first ++ second) = readCount first + readCount second := List.count_append

theorem tally_interrupt (s : AccessState) (byte : UInt8) :
    ({ s with uart := usartRxVect byte s.uart } : AccessState).tally =
      if s.between then s.tally else s.tally + 1 := by
  obtain ⟨uart, _ | ⟨c, access⟩⟩ := s
  · rfl
  · cases access <;> rfl

/-- An interrupt is counted, unless it falls into the window. -/
theorem tallied_interrupt {events : List AccessEvent} {missed : Nat} {s : AccessState}
    (tallied : Tallied events missed s) (byte : UInt8)
    (room : receivedCount events + 1 < readCount events + 256) :
    Tallied (events ++ [.uart (.received byte)]) (missed + if s.between then 1 else 0)
      { s with uart := usartRxVect byte s.uart } := by
  obtain ⟨sum, found⟩ := tallied
  have more : receivedCount (events ++ [.uart (.received byte)]) = receivedCount events + 1 :=
    receivedCount_append _ _
  have same : readCount (events ++ [.uart (.received byte)]) = readCount events :=
    readCount_append _ _
  have raised : (s.tally + 1).toNat = s.tally.toNat + 1 := by
    rw [UInt8.toNat_add, UInt8.toNat_one]
    omega
  refine ⟨?_, fun reading => ?_⟩
  · rw [more, same, tally_interrupt]
    cases s.between with
    | true =>
        rw [if_pos rfl, if_pos rfl]
        omega
    | false =>
        rw [if_neg (by decide), if_neg (by decide), raised]
        omega
  · have before := found reading
    rw [tally_interrupt]
    cases s.between with
    | true => exact before
    | false =>
        rw [if_neg (by decide), raised]
        omega

/-- An access moves a byte from the tally to the read ones, or it does not count. -/
theorem tallied_access {events : List AccessEvent} {missed : Nat} {u : Uart} {c : Call}
    {next : RxAccess} (tallied : Tallied events missed ⟨u, some (c, next)⟩) (expired : Bool) :
    Tallied (events ++ (uartRxAccess expired c next u).events) missed
      (uartRxAccess expired c next u).state := by
  obtain ⟨sum, found⟩ := tallied
  have silent : ∀ {s : AccessState} {later : List AccessEvent},
      receivedCount later = 0 → readCount later = 0 →
      s.tally = (⟨u, some (c, next)⟩ : AccessState).tally →
      (s.reading = true → 1 ≤ s.tally.toNat) → Tallied (events ++ later) missed s := by
    intro s later noneReceived noneRead same found
    refine ⟨?_, found⟩
    rw [receivedCount_append, readCount_append, noneReceived, noneRead, same]
    exact sum
  cases next with
  | testSize =>
      rw [uartRxAccess]
      split
      · by_cases empty : u.rxbufferSize ≠ 0
        · rw [if_pos empty]
          refine silent rfl rfl rfl fun _ => Nat.pos_of_ne_zero fun zero => empty ?_
          exact UInt8.toNat_inj.mp zero
        · rw [if_neg empty]
          exact silent rfl rfl rfl fun reading => by cases reading
      · exact silent rfl rfl rfl fun reading => by cases reading
  | timer =>
      rw [uartRxAccess]
      split
      · exact silent rfl rfl rfl fun reading => by cases reading
      · exact silent rfl rfl rfl fun reading => by cases reading
  | loadStart | storeStart start | loadByte start | storeData byte | reloadStart
  | restoreStart start | loadSize => exact silent rfl rfl rfl fun _ => found rfl
  | storeSize size =>
      have positive : 1 ≤ size.toNat := found rfl
      have lowered : (size - 1).toNat = size.toNat - 1 := by
        rw [UInt8.toNat_sub, UInt8.toNat_one]
        have := size.toNat_lt
        omega
      refine ⟨?_, fun reading => by cases reading⟩
      have counted : receivedCount events = readCount events + size.toNat + missed := sum
      rw [receivedCount_append, readCount_append]
      show receivedCount events + 0 = readCount events + 1 + (size - 1).toNat + missed
      rw [lowered]
      omega

/-! ### Runs -/

theorem accessRun_concat (u : Uart) (steps : List AccessStep) (step : AccessStep) :
    accessRun u (steps ++ [step]) =
      ⟨(accessStep step (accessRun u steps).state).state,
        (accessRun u steps).events ++ (accessStep step (accessRun u steps).state).events, none⟩ :=
  run_concat accessStep steps step _

/-- What one more step adds to the interrupts of the window. -/
theorem uninterrupted_concat (u : Uart) (steps : List AccessStep) (step : AccessStep) :
    Uninterrupted u (steps ++ [step]) ↔
      Uninterrupted u steps ∧ step.tears (accessRun u steps).state = false :=
  forall_splits_concat

/-- A step misses an interrupt exactly if it is one in the window. -/
theorem tallied_step {events : List AccessEvent} {missed : Nat} {s : AccessState}
    (tallied : Tallied events missed s) (step : AccessStep)
    (bounded : receivedCount (events ++ (accessStep step s).events) <
      readCount (events ++ (accessStep step s).events) + 256) :
    Tallied (events ++ (accessStep step s).events) (missed + if step.tears s then 1 else 0)
      (accessStep step s).state := by
  have still : Tallied (events ++ []) (missed + 0) s := by rwa [List.append_nil]
  obtain ⟨uart, call⟩ := s
  cases step with
  | interrupt byte =>
      refine tallied_interrupt tallied byte ?_
      rwa [receivedCount_append, readCount_append] at bounded
  | call len =>
      cases call with
      | none => exact ⟨still.sum, fun reading => by cases reading⟩
      | some running => exact still
  | access expired =>
      obtain _ | ⟨c, next⟩ := call
      · exact still
      · exact tallied_access tallied expired

/-- What has been received is read, tallied or missed, and nothing is missed exactly if no interrupt
falls into the window. -/
theorem tallied_run (u : Uart) (steps : List AccessStep)
    (bounded : ∀ before ∈ steps.inits,
      receivedCount (accessRun u before).events < readCount (accessRun u before).events + 256) :
    ∃ missed, Tallied (accessRun u steps).events missed (accessRun u steps).state ∧
      (missed = 0 ↔ Uninterrupted u steps) := by
  induction steps using List.reverseRecOn with
  | nil =>
      refine ⟨0, ⟨rfl, fun reading => by cases reading⟩, iff_of_true rfl ?_⟩
      rintro before step after split
      simp at split
  | append_singleton steps step ih =>
      obtain ⟨missed, tallied, clear⟩ := ih fun before member =>
        bounded before (inits_trans member ((List.mem_inits _ _).mpr (List.prefix_append _ _)))
      have whole := bounded _ ((List.mem_inits _ _).mpr (List.prefix_refl _))
      rw [uninterrupted_concat, ← clear]
      rw [accessRun_concat] at whole ⊢
      refine ⟨_, tallied_step tallied step whole, ?_⟩
      cases step.tears (accessRun u steps).state <;> simp

/-- **Outside the window the counter is the number of unread bytes exactly if no interrupt has fallen
into it.** -/
theorem counter_eq_unread_iff (u : Uart) (steps : List AccessStep)
    (bounded : ∀ before ∈ steps.inits,
      receivedCount (accessRun u before).events < readCount (accessRun u before).events + 256)
    (outside : (accessRun u steps).state.between = false) :
    (accessRun u steps).state.uart.rxbufferSize.toNat =
        receivedCount (accessRun u steps).events - readCount (accessRun u steps).events ↔
      Uninterrupted u steps := by
  obtain ⟨missed, ⟨sum, -⟩, clear⟩ := tallied_run u steps bounded
  have tally : (accessRun u steps).state.tally = (accessRun u steps).state.uart.rxbufferSize := by
    revert outside
    obtain ⟨uart, _ | ⟨c, access⟩⟩ := (accessRun u steps).state
    · exact fun _ => rfl
    · cases access <;> first | exact fun _ => rfl | exact fun inside => by cases inside
  rw [tally] at sum
  rw [← clear]
  omega

/-! ### A lost byte -/

/-- A byte is read while no other arrives. -/
def calmSteps : List AccessStep :=
  [.interrupt 1, .call 1] ++ List.replicate 9 (.access false)

theorem counter_eq_unread_calm :
    (∀ before ∈ calmSteps.inits, receivedCount (accessRun blankUart before).events <
      readCount (accessRun blankUart before).events + 256) ∧
      (accessRun blankUart calmSteps).state.between = false ∧
      ((accessRun blankUart calmSteps).state.uart.rxbufferSize.toNat =
          receivedCount (accessRun blankUart calmSteps).events -
            readCount (accessRun blankUart calmSteps).events ↔
        Uninterrupted blankUart calmSteps) := by
  have bounded : ∀ before ∈ calmSteps.inits, receivedCount (accessRun blankUart before).events <
      readCount (accessRun blankUart before).events + 256 := by decide +kernel
  have outside : (accessRun blankUart calmSteps).state.between = false := by decide +kernel
  exact ⟨bounded, outside, counter_eq_unread_iff blankUart calmSteps bounded outside⟩

/-- A second byte arrives between the load and the store for the first. -/
def tornSteps : List AccessStep :=
  [.interrupt 1, .call 1] ++ List.replicate 8 (.access false) ++ [.interrupt 2, .access false]

/-- The counter is then zero with a byte unread. -/
theorem counter_ne_unread_torn :
    ¬ ∀ steps : List AccessStep,
      (∀ before ∈ steps.inits, receivedCount (accessRun blankUart before).events <
        readCount (accessRun blankUart before).events + 256) →
      (accessRun blankUart steps).state.between = false →
      (accessRun blankUart steps).state.uart.rxbufferSize.toNat =
        receivedCount (accessRun blankUart steps).events -
          readCount (accessRun blankUart steps).events := by
  intro right
  have zero := right tornSteps (by decide +kernel) (by decide +kernel)
  revert zero
  decide +kernel

end Esloq
