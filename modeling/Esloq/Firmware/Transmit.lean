/-
**Transmitting a packet (`uart.c`).**

`uart_tx` sends a length byte and two arrays, each byte with `send_byte`, which waits until the module is
clear to send and reports a timeout if that takes too long. What the hardware does is a list of readings.

* `sendByte`, `sendAll`, `uartTx` — the functions of `uart.c`; a call whose readings end has not
  returned.
* `waits` — how the waits for clear to send end, one after the other, read off the hardware alone.
* `WholeOrReported` — 0 is returned for the whole frame only, -1 for a proper beginning of it.
* `uartTx_whole_iff` — this is so exactly if the length byte does not get lost unnoticed
  (`LengthLost`): `uart_tx` does not look at what `send_byte` returns for it.
-/

import Esloq.Firmware.Packets

namespace Esloq

/-! ### `send_byte` and `uart_tx` -/

/-- A reading of the hardware: `uart_clear_to_send`, the count of the timer that `send_byte` has started, and
`UDRE0`. -/
structure Line where
  clearToSend : Bool
  timer : UInt16
  udre : Bool
  deriving DecidableEq

/-- `cnt_threshold` of `send_byte`. -/
def sendThreshold (timeoutMs : UInt16) : UInt16 :=
  UInt16.ofNat (countsPerSecond * timeoutMs.toNat / 1000) - 1

/-- The first loop of `send_byte`: whether the module was clear to send before the timeout. -/
def waitClear (threshold : UInt16) : List Line → Option (Bool × List Line)
  | [] => none
  | line :: lines =>
      if line.clearToSend then some (true, lines)
      else if threshold ≤ line.timer then some (false, lines)
      else waitClear threshold lines

/-- The second loop, until the transmission buffer can be written. -/
def waitEmpty : List Line → Option (List Line)
  | [] => none
  | line :: lines => if line.udre then some lines else waitEmpty lines

/-- What a call leaves: the bytes written to `UDR0`, its value if it has returned, and the further
readings. -/
structure Transmission where
  written : List UInt8
  result : Option Int
  lines : List Line
  deriving DecidableEq

/-- Go on after a call, unless it has not returned. -/
def Transmission.andThen (first : Transmission) (next : Int → List Line → Transmission) : Transmission :=
  match first.result with
  | none => first
  | some code => { next code first.lines with written := first.written ++ (next code first.lines).written }

/-- `send_byte`. -/
def sendByte (byte : UInt8) (timeoutMs : UInt16) (lines : List Line) : Transmission :=
  match waitClear (sendThreshold timeoutMs) lines with
  | none => ⟨[], none, []⟩
  | some (false, lines) => ⟨[], some (-1), lines⟩
  | some (true, lines) =>
      match waitEmpty lines with
      | none => ⟨[], none, []⟩
      | some lines => ⟨[byte], some 0, lines⟩

/-- The loop over an array. -/
def sendAll (timeoutMs : UInt16) : List UInt8 → List Line → Transmission
  | [], lines => ⟨[], some 0, lines⟩
  | byte :: data, lines =>
      (sendByte byte timeoutMs lines).andThen fun code lines =>
        if code ≠ 0 then ⟨[], some (-1), lines⟩ else sendAll timeoutMs data lines

/-- The length byte of a packet. -/
def lengthByte (data1 data2 : List UInt8) : UInt8 :=
  UInt8.ofNat data1.length + UInt8.ofNat data2.length

/-- `uart_tx`. The value of the first `send_byte` is not used. -/
def uartTx (data1 data2 : List UInt8) (timeoutMs : UInt16) (lines : List Line) : Transmission :=
  (sendByte (lengthByte data1 data2) timeoutMs lines).andThen fun _ lines =>
    (sendAll timeoutMs data1 lines).andThen fun code lines =>
      if code ≠ 0 then ⟨[], some (-1), lines⟩ else sendAll timeoutMs data2 lines

/-! ### A whole frame, or an error -/

/-- What is to be written: the length of the data, and the data. -/
def txFrame (data1 data2 : List UInt8) : List UInt8 :=
  UInt8.ofNat (data1.length + data2.length) :: (data1 ++ data2)

/-- 0 is returned for the whole frame, -1 for a proper beginning of it. -/
structure WholeOrReported (data1 data2 : List UInt8) (sent : Transmission) : Prop where
  whole : sent.result = some 0 → sent.written = txFrame data1 data2
  reported : sent.result = some (-1) →
    sent.written <+: txFrame data1 data2 ∧ sent.written ≠ txFrame data1 data2

/-- How the waits for clear to send end, one after the other: a byte is sent, or the timer runs out.
`sending` says whether the module has been clear and the transmission buffer is awaited. -/
def waits (threshold : UInt16) (sending : Bool) : List Line → List Bool
  | [] => []
  | line :: lines =>
      if sending then
        if line.udre then true :: waits threshold false lines else waits threshold true lines
      else if line.clearToSend then waits threshold true lines
      else if threshold ≤ line.timer then false :: waits threshold false lines
      else waits threshold false lines

/-- The number of bytes that are sent before a timeout. -/
def clearRun (outcomes : List Bool) : Nat := (outcomes.takeWhile id).length

/-- The first wait, for the length byte, runs into the timeout; and either no later one does before all data
has been sent, or one does after some data that does not consist of the length byte only. -/
def LengthLost (len : UInt8) (data : List UInt8) : List Bool → Prop
  | false :: outcomes =>
      data.length ≤ clearRun outcomes ∨
        (clearRun outcomes < outcomes.length ∧ ∃ byte ∈ data.take (clearRun outcomes), byte ≠ len)
  | _ => False

/-! ### The waits and the calls -/

/-- Once the module is clear, the wait ends when the transmission buffer is empty. -/
theorem waits_sending (threshold : UInt16) (lines : List Line) :
    waits threshold true lines =
      match waitEmpty lines with
      | none => []
      | some rest => true :: waits threshold false rest := by
  induction lines with
  | nil => rfl
  | cons line lines ih =>
      rw [waits, waitEmpty, if_pos rfl]
      by_cases empty : line.udre = true
      · rw [if_pos empty, if_pos empty]
      · rw [if_neg empty, if_neg empty]
        exact ih

/-- Before that, it ends with the timeout. -/
theorem waits_waiting (threshold : UInt16) (lines : List Line) :
    waits threshold false lines =
      match waitClear threshold lines with
      | none => []
      | some (false, rest) => false :: waits threshold false rest
      | some (true, rest) => waits threshold true rest := by
  induction lines with
  | nil => rfl
  | cons line lines ih =>
      rw [waits, waitClear, if_neg Bool.false_ne_true]
      by_cases clear : line.clearToSend = true
      · rw [if_pos clear, if_pos clear]
      · rw [if_neg clear, if_neg clear]
        by_cases late : threshold ≤ line.timer
        · rw [if_pos late, if_pos late]
        · rw [if_neg late, if_neg late]
          exact ih

/-- `send_byte` returns where a wait ends, and the later waits are those of the readings that are left. -/
theorem sendByte_spec (byte : UInt8) (timeoutMs : UInt16) (lines : List Line) :
    (sendByte byte timeoutMs lines = ⟨[], none, []⟩ ∧ waits (sendThreshold timeoutMs) false lines = []) ∨
      (∃ rest, sendByte byte timeoutMs lines = ⟨[byte], some 0, rest⟩ ∧
        waits (sendThreshold timeoutMs) false lines =
          true :: waits (sendThreshold timeoutMs) false rest) ∨
      ∃ rest, sendByte byte timeoutMs lines = ⟨[], some (-1), rest⟩ ∧
        waits (sendThreshold timeoutMs) false lines =
          false :: waits (sendThreshold timeoutMs) false rest := by
  unfold sendByte
  rw [waits_waiting]
  rcases waitClear (sendThreshold timeoutMs) lines with _ | ⟨_ | _, rest⟩
  · exact Or.inl ⟨rfl, rfl⟩
  · exact Or.inr (Or.inr ⟨rest, rfl, rfl⟩)
  · simp only [waits_sending]
    cases waitEmpty rest with
    | none => exact Or.inl ⟨rfl, rfl⟩
    | some rest => exact Or.inr (Or.inl ⟨rest, rfl, rfl⟩)

theorem Transmission.andThen_assoc (first : Transmission) (second third : Int → List Line → Transmission) :
    (first.andThen second).andThen third =
      first.andThen fun code lines => (second code lines).andThen third := by
  obtain ⟨written, _ | code, lines⟩ := first
  · rfl
  · simp only [Transmission.andThen]
    generalize second code lines = later
    obtain ⟨written', _ | code', lines'⟩ := later
    · rfl
    · simp only [List.append_assoc]

/-- The loop over two arrays. -/
theorem sendAll_append (timeoutMs : UInt16) (data1 data2 : List UInt8) (lines : List Line) :
    sendAll timeoutMs (data1 ++ data2) lines =
      (sendAll timeoutMs data1 lines).andThen fun code lines =>
        if code ≠ 0 then ⟨[], some (-1), lines⟩ else sendAll timeoutMs data2 lines := by
  induction data1 generalizing lines with
  | nil => rfl
  | cons byte data1 ih =>
      rw [List.cons_append, sendAll, sendAll, Transmission.andThen_assoc]
      congr 1
      funext code rest
      by_cases failed : code ≠ 0
      · rw [if_pos failed, if_pos failed]
        simp only [Transmission.andThen, if_pos (show (-1 : Int) ≠ 0 by decide), List.nil_append]
      · rw [if_neg failed, if_neg failed]
        exact ih rest

@[simp] theorem clearRun_nil : clearRun [] = 0 := rfl

@[simp] theorem clearRun_true (outcomes : List Bool) :
    clearRun (true :: outcomes) = clearRun outcomes + 1 := rfl

@[simp] theorem clearRun_false (outcomes : List Bool) : clearRun (false :: outcomes) = 0 := rfl

/-- What the loop writes and returns: all data if enough waits end well, else the data before the first that
does not. -/
theorem sendAll_spec (timeoutMs : UInt16) (data : List UInt8) (lines : List Line) {outcomes : List Bool}
    (same : waits (sendThreshold timeoutMs) false lines = outcomes) :
    (data.length ≤ clearRun outcomes ∧ (sendAll timeoutMs data lines).result = some 0 ∧
        (sendAll timeoutMs data lines).written = data) ∨
      (clearRun outcomes < data.length ∧ clearRun outcomes < outcomes.length ∧
        (sendAll timeoutMs data lines).result = some (-1) ∧
        (sendAll timeoutMs data lines).written = data.take (clearRun outcomes)) ∨
      (clearRun outcomes < data.length ∧ outcomes.length ≤ clearRun outcomes ∧
        (sendAll timeoutMs data lines).result = none) := by
  induction data generalizing lines outcomes with
  | nil => exact Or.inl ⟨Nat.zero_le _, rfl, rfl⟩
  | cons byte data ih =>
      subst same
      rw [sendAll]
      rcases sendByte_spec byte timeoutMs lines with
        ⟨pending, ended⟩ | ⟨rest, sent, going⟩ | ⟨rest, late, failed⟩
      · rw [pending, ended]
        exact Or.inr (Or.inr ⟨Nat.succ_pos _, le_rfl, rfl⟩)
      · rw [sent, going, clearRun_true]
        simp only [Transmission.andThen, ne_eq, not_true_eq_false, if_false, List.length_cons,
          Nat.add_le_add_iff_right, Nat.add_lt_add_iff_right, List.take_succ_cons, List.singleton_append]
        rcases ih rest rfl with
          ⟨enough, result, written⟩ | ⟨short, stops, result, written⟩ | ⟨short, stops, result⟩
        · exact Or.inl ⟨enough, result, by rw [written]⟩
        · exact Or.inr (Or.inl ⟨short, stops, result, by rw [written]⟩)
        · exact Or.inr (Or.inr ⟨short, stops, result⟩)
      · rw [late, failed]
        exact Or.inr (Or.inl ⟨Nat.succ_pos _, Nat.succ_pos _, rfl, rfl⟩)

/-- `uart_tx` after the wait for the length byte. -/
theorem uartTx_eq (data1 data2 : List UInt8) (timeoutMs : UInt16) (lines : List Line) :
    uartTx data1 data2 timeoutMs lines =
      (sendByte (lengthByte data1 data2) timeoutMs lines).andThen fun _ lines =>
        sendAll timeoutMs (data1 ++ data2) lines := by
  unfold uartTx
  simp only [sendAll_append]

/-! ### Whole or reported -/

theorem lengthByte_eq (data1 data2 : List UInt8) :
    lengthByte data1 data2 = UInt8.ofNat (data1.length + data2.length) := UInt8.ofNat_add _ _ |>.symm

/-- After a length byte that is sent, the loop over the data is whole or reported. -/
theorem whole_of_sent {data1 data2 : List UInt8} {timeoutMs : UInt16} {lines rest : List Line}
    (sent : sendByte (lengthByte data1 data2) timeoutMs lines =
      ⟨[lengthByte data1 data2], some 0, rest⟩) :
    WholeOrReported data1 data2 (uartTx data1 data2 timeoutMs lines) := by
  rw [uartTx_eq, sent]
  have frame : txFrame data1 data2 = [lengthByte data1 data2] ++ (data1 ++ data2) := by
    rw [lengthByte_eq]
    rfl
  simp only [Transmission.andThen]
  rcases sendAll_spec timeoutMs (data1 ++ data2) rest rfl with
    ⟨-, result, written⟩ | ⟨short, -, result, written⟩ | ⟨-, -, result⟩
  · refine ⟨fun _ => ?_, fun failed => ?_⟩
    · rw [frame, written]
    · rw [result] at failed
      cases failed
  · refine ⟨fun zero => ?_, fun _ => ?_⟩
    · rw [result] at zero
      cases zero
    · rw [frame, written]
      refine ⟨(List.prefix_append_right_inj _).mpr (List.take_prefix _ _), fun all => ?_⟩
      have same := congrArg List.length (List.append_cancel_left all)
      rw [List.length_take] at same
      omega
  · constructor <;> intro returned <;> rw [result] at returned <;> cases returned

/-- Data is a beginning of itself behind a byte only where it consists of that byte. -/
theorem take_prefix_cons_iff (byte : UInt8) (data : List UInt8) (count : Nat) :
    data.take count <+: byte :: data ↔ ∀ other ∈ data.take count, other = byte := by
  induction data generalizing byte count with
  | nil => simp
  | cons first data ih =>
      cases count with
      | zero => simp
      | succ count =>
          rw [List.take_succ_cons, List.cons_prefix_cons, List.forall_mem_cons]
          constructor
          · rintro ⟨rfl, later⟩
            exact ⟨rfl, (ih first count).mp later⟩
          · rintro ⟨rfl, later⟩
            exact ⟨rfl, (ih first count).mpr later⟩

/-- After a length byte that is not sent, the data alone is taken for the packet. -/
theorem whole_iff_of_late {data1 data2 : List UInt8} {timeoutMs : UInt16} {lines rest : List Line}
    (late : sendByte (lengthByte data1 data2) timeoutMs lines = ⟨[], some (-1), rest⟩) :
    WholeOrReported data1 data2 (uartTx data1 data2 timeoutMs lines) ↔
      ¬ LengthLost (lengthByte data1 data2) (data1 ++ data2)
        (false :: waits (sendThreshold timeoutMs) false rest) := by
  have frame : txFrame data1 data2 = lengthByte data1 data2 :: (data1 ++ data2) := by
    rw [lengthByte_eq]
    rfl
  rw [uartTx_eq, late]
  simp only [Transmission.andThen, LengthLost]
  generalize data1 ++ data2 = data at frame ⊢
  rcases sendAll_spec timeoutMs data rest rfl with
    ⟨enough, result, written⟩ | ⟨short, stops, result, written⟩ | ⟨short, stops, result⟩
  · refine iff_of_false (fun good => ?_) (not_not.mpr (Or.inl enough))
    have whole := good.whole result
    rw [frame, List.nil_append, written] at whole
    have same := congrArg List.length whole
    rw [List.length_cons] at same
    omega
  · rw [not_or, and_iff_right (not_le.mpr short), not_and, forall_prop_of_true stops]
    have reported : WholeOrReported data1 data2 ⟨[] ++ (sendAll timeoutMs data rest).written,
        (sendAll timeoutMs data rest).result, (sendAll timeoutMs data rest).lines⟩ ↔
        data.take (clearRun (waits (sendThreshold timeoutMs) false rest)) <+:
          lengthByte data1 data2 :: data := by
      constructor
      · intro good
        have begins := (good.reported result).1
        rw [List.nil_append, written, frame] at begins
        exact begins
      · refine fun begins => ⟨fun zero => ?_, fun _ => ⟨?_, fun whole => ?_⟩⟩
        · rw [result] at zero
          cases zero
        · rw [List.nil_append, written, frame]
          exact begins
        · rw [List.nil_append, written, frame] at whole
          have same := congrArg List.length whole
          rw [List.length_take, List.length_cons] at same
          omega
    rw [reported, take_prefix_cons_iff]
    simp only [not_exists, not_and, ne_eq, not_not]
  · refine iff_of_true ?_ ?_
    · constructor <;> intro returned <;> rw [result] at returned <;> cases returned
    · rintro (enough | ⟨more, -⟩) <;> omega

/-- **A packet is whole or reported exactly if its length byte does not get lost.** -/
theorem uartTx_whole_iff (data1 data2 : List UInt8) (timeoutMs : UInt16) (lines : List Line) :
    WholeOrReported data1 data2 (uartTx data1 data2 timeoutMs lines) ↔
      ¬ LengthLost (lengthByte data1 data2) (data1 ++ data2)
        (waits (sendThreshold timeoutMs) false lines) := by
  rcases sendByte_spec (lengthByte data1 data2) timeoutMs lines with
    ⟨pending, ended⟩ | ⟨rest, sent, going⟩ | ⟨rest, late, failed⟩
  · rw [ended]
    refine iff_of_true ?_ not_false
    rw [uartTx_eq, pending]
    exact ⟨nofun, nofun⟩
  · rw [going]
    exact iff_of_true (whole_of_sent sent) not_false
  · rw [failed]
    exact whole_iff_of_late late

/-! ### A length byte that gets lost -/

/-- The module is not clear to send for `UART_TIMEOUT`, then it is. -/
def lateLines : List Line :=
  [⟨false, 3124, true⟩, ⟨true, 0, true⟩, ⟨true, 0, true⟩, ⟨true, 0, true⟩, ⟨true, 0, true⟩]

/-- The two bytes are sent without the length byte, and the packet counts as transmitted. -/
theorem uartTx_lost :
    (uartTx [1] [2] (UInt16.ofNat uartTimeout) lateLines).result = some 0 ∧
      (uartTx [1] [2] (UInt16.ofNat uartTimeout) lateLines).written = [1, 2] ∧
      ¬ ∀ data1 data2 : List UInt8, data1.length + data2.length ≤ 255 → ∀ timeoutMs lines,
        WholeOrReported data1 data2 (uartTx data1 data2 timeoutMs lines) := by
  refine ⟨by decide, by decide, fun every => ?_⟩
  have whole := (every [1] [2] (by decide) (UInt16.ofNat uartTimeout) lateLines).whole (by decide)
  revert whole
  decide

end Esloq
