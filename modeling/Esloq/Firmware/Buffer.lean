/-
**How full the receive buffer is (`ble_evt_attributes_value`).**

The copy into `msg_buf.data` is not checked.

* `pending` — the bytes written since the buffer was emptied, read off a trace.
* `Fits` — a write arrives where there is room for it.
* `Counts` — the invariant: `msg_buf.len` is `pending`, at most 72, and has not wrapped.
* `inside_iff_fits` — a run stays inside the buffer exactly when every write fits.
-/

import Esloq.Firmware.Delivery

namespace Esloq

open Machine

/-! ### The bytes pending in the buffer -/

/-- The pending bytes after one more effect. -/
def pendingStep (count : Nat) : Effect → Nat
  | .received value => count + value.length
  | .resetMsgBuffer | .softReset => 0
  | _ => count

/-- The bytes written to `c_lock_receive` since the buffer was emptied or the controller reset. -/
def pending (trace : List Effect) : Nat := trace.foldl pendingStep 0

/-- A write arrives where it still fits with what is pending. -/
def Fits (past : List Effect) : Effect → Prop
  | .received value => pending past + value.length ≤ 72
  | _ => True

instance (past : List Effect) : ∀ effect, Decidable (Fits past effect)
  | .received value => inferInstanceAs (Decidable (pending past + value.length ≤ 72))
  | .cmd _ | .resetMsgBuffer | .ticketMsg _ | .eepromUpdate _ | .ticketAccepted .. | .requestMsg _
  | .requestDecrypted .. | .rotate .. | .encrypted .. | .returned _ | .softReset => .isTrue trivial

/-- The buffer's length counts the pending bytes, and every write so far has fitted. -/
structure Counts (past : List Effect) (l : Lock) : Prop where
  len : l.msgBuf.len.toNat = pending past
  bounded : pending past ≤ 72
  fitted : Always Fits past

/-- How a trace ends in a fault: with a write that does not fit, or with every write fitting. -/
def Overrun (trace : List Effect) : Fault → Prop
  | .msgBuf => ∃ before value, trace = before ++ [.received value] ∧ Always Fits before ∧
      72 < pending before + value.length
  | .sessionNonce => Always Fits trace

theorem pending_append (first second : List Effect) :
    pending (first ++ second) = second.foldl pendingStep (pending first) :=
  List.foldl_append

/-- Commands neither write nor empty. -/
theorem foldl_pendingStep_of_commands {count : Nat} : ∀ {events : List Effect},
    (∀ effect ∈ events, ∃ command, effect = .cmd command) → events.foldl pendingStep count = count
  | [], _ => rfl
  | effect :: rest, commands => by
      have later : rest.foldl pendingStep count = count := foldl_pendingStep_of_commands
        fun other member => commands other (List.mem_cons_of_mem effect member)
      obtain ⟨command, rfl⟩ := commands effect List.mem_cons_self
      exact later

/-- An effect other than a write. -/
def Effect.unwritten : Effect → Bool
  | .received _ => false
  | _ => true

theorem fits_of_unwritten {past : List Effect} {effect : Effect} (unwritten : effect.unwritten = true) :
    Fits past effect := by
  cases effect with
  | received value => cases unwritten
  | _ => trivial

theorem alwaysFrom_fits_of_unwritten : ∀ {past events : List Effect},
    (∀ effect ∈ events, effect.unwritten = true) → AlwaysFrom Fits past events
  | _, [], _ => trivial
  | _, effect :: _, unwritten => ⟨fits_of_unwritten (unwritten effect List.mem_cons_self),
      alwaysFrom_fits_of_unwritten fun other member =>
        unwritten other (List.mem_cons_of_mem effect member)⟩

section Turns

variable {box : Secretbox} {past : List Effect} {l : Lock}

/-- A turn without a write, whose effects count what its state holds. -/
theorem Counts.turn (counts : Counts past l) {turn : LockTurn}
    (unwritten : ∀ effect ∈ turn.events, effect.unwritten = true)
    (len : turn.fault = none →
      turn.state.msgBuf.len.toNat = turn.events.foldl pendingStep l.msgBuf.len.toNat)
    (less : turn.fault = none → turn.state.msgBuf.len.toNat ≤ 72)
    (fault : ∀ fault, turn.fault = some fault → fault = .sessionNonce) :
    turn.Holds Counts (fun _ _ => True) Overrun past := by
  have fitted : Always Fits (past ++ turn.events) :=
    (always_append _ _ _).mpr ⟨counts.fitted, alwaysFrom_fits_of_unwritten unwritten⟩
  refine ⟨alwaysFrom_forall.mpr fun _ _ => trivial, fun ok => ?_, fun found faulted => ?_⟩
  · have same := len ok
    rw [counts.len, ← pending_append] at same
    exact ⟨same, same ▸ less ok, fitted⟩
  · rw [fault found faulted]
    exact fitted

/-- A turn without a fault that neither writes nor empties the buffer. -/
theorem Counts.keep (counts : Counts past l) {l' : Lock} {events : List Effect}
    (unwritten : ∀ effect ∈ events, effect.unwritten = true)
    (len : events.foldl pendingStep l.msgBuf.len.toNat = l'.msgBuf.len.toNat)
    (less : l'.msgBuf.len.toNat ≤ 72) :
    (Turn.emit l' events : LockTurn).Holds Counts (fun _ _ => True) Overrun past :=
  counts.turn unwritten (fun _ => len.symm) (fun _ => less) fun _ faulted => by cases faulted

/-- A turn without effects that leaves the buffer. -/
theorem Counts.pure (counts : Counts past l) {l' : Lock} (buffer : l'.msgBuf = l.msgBuf) :
    (Turn.pure l' : LockTurn).Holds Counts (fun _ _ => True) Overrun past :=
  .pure ⟨by rw [buffer, counts.len], counts.bounded, counts.fitted⟩

theorem Counts.inside (counts : Counts past l) : l.msgBuf.len.toNat ≤ 72 :=
  counts.len ▸ counts.bounded

/-- The shared end of the processors empties the buffer when it answers. -/
theorem respond_counts (counts : Counts past l) {l' : Lock} (buffer : l'.msgBuf = l.msgBuf)
    {state : State} {m : UInt8} {effects : List Effect}
    (unwritten : ∀ effect ∈ effects, effect.unwritten = true)
    (silent : effects.foldl pendingStep l.msgBuf.len.toNat = l.msgBuf.len.toNat) :
    (respond box state m l' effects).2.Holds Counts (fun _ _ => True) Overrun past := by
  rcases respond_cases box l' state m effects with
    ⟨-, same⟩ | ⟨next, -, same | ⟨c, -, same⟩⟩
  · rw [same]
    exact counts.turn unwritten (fun ok => by cases ok) (fun ok => by cases ok)
      fun fault faulted => by cases faulted; rfl
  · rw [same]
    refine counts.keep (fun effect member => ?_) ?_ ?_
    · rcases List.mem_append.mp member with member | isLast
      · exact unwritten effect member
      · rw [List.mem_singleton.mp isLast]
        rfl
    · rw [List.foldl_append, silent, ← buffer]
      rfl
    · exact buffer ▸ counts.inside
  · rw [same]
    have answers : ∀ effect ∈ [Effect.encrypted l'.sessionKey l'.sessionNonce next m c, .resetMsgBuffer,
        sendResponse (message next c), .returned 0], effect.unwritten = true := by
      simp [Effect.unwritten, sendResponse]
    refine counts.keep (fun effect member => ?_) ?_ (Nat.zero_le 72)
    · rcases List.mem_append.mp member with member | later
      · exact unwritten effect member
      · exact answers effect later
    · rw [List.foldl_append]
      rfl

theorem processTicketMsg_counts (counts : Counts past l) (lowBattery : Bool) :
    (processTicketMsg box lowBattery l).2.Holds Counts (fun _ _ => True) Overrun past := by
  rcases processTicketMsg_cases box lowBattery l with
    ⟨-, same⟩ | ⟨-, ⟨-, same⟩ | ⟨key, -, same⟩⟩
  · rw [same]
    exact counts.keep (by simp [Effect.unwritten]) rfl counts.inside
  · rw [same]
    exact counts.keep (by simp [Effect.unwritten]) rfl counts.inside
  · rw [same]
    refine respond_counts counts ?_ ?_ ?_
    · rfl
    · simp [Effect.unwritten]
    · rfl

theorem processRequestMsg_counts (counts : Counts past l) :
    (processRequestMsg box l).2.Holds Counts (fun _ _ => True) Overrun past := by
  rcases processRequestMsg_cases box l with
    ⟨-, same⟩ | ⟨-, ⟨-, same⟩ | ⟨request, -, same⟩⟩
  · rw [same]
    exact counts.keep (by simp [Effect.unwritten]) rfl counts.inside
  · rw [same]
    exact counts.keep (by simp [Effect.unwritten]) rfl counts.inside
  · rw [same]
    refine respond_counts counts ?_ ?_ ?_
    · rfl
    · cases requestedRotation request <;> simp [Effect.unwritten]
    · cases requestedRotation request <;> rfl

end Turns

/-! ### Passes -/

theorem afterTicketMsg_counts (code : UInt8) :
    Sound Counts (fun _ _ => True) Overrun (afterTicketMsg code) := by
  intro past l counts
  unfold afterTicketMsg
  split
  · exact counts.keep (by simp [Effect.unwritten]) rfl (Nat.zero_le 72)
  · exact .pure counts

theorem afterRequestMsg_counts (code : UInt8) :
    Sound Counts (fun _ _ => True) Overrun (afterRequestMsg code) := by
  intro past l counts
  unfold afterRequestMsg
  split
  · exact counts.keep (by simp [Effect.unwritten]) rfl (Nat.zero_le 72)
  · exact .pure counts

theorem fsmProcess_counts (box : Secretbox) (lowBattery : Bool) :
    Sound Counts (fun _ _ => True) Overrun (fsmProcess box lowBattery) := by
  intro past l counts
  rcases fsmProcess_cases box lowBattery l with
    ⟨-, same⟩ | ⟨-, same⟩ | ⟨-, same⟩ | ⟨-, state, command, -, same⟩ | ⟨-, -, -, same⟩
  · rw [same]
    exact (processTicketMsg_counts counts lowBattery).andThen (afterTicketMsg_counts _)
  · rw [same]
    exact (processRequestMsg_counts counts).andThen (afterRequestMsg_counts _)
  · rw [same]
    exact counts.keep (by simp [Effect.unwritten, setAdvParameters]) rfl (Nat.zero_le 72)
  · rw [same]
    exact counts.keep (by simp [Effect.unwritten]) rfl counts.inside
  · rw [same]
    exact .pure counts

/-- A write is counted where it fits, and is the overrun where it does not; other messages leave the
buffer. -/
theorem bleHandler_counts (msg : BgapiMsg) :
    Sound Counts (fun _ _ => True) Overrun (bleHandler msg) := by
  intro past l counts
  rcases bleHandler_cases msg l with ⟨value, rfl⟩ | ⟨l', events, handled, kept, commands⟩
  · by_cases fits : l.msgBuf.len.toNat + value.length ≤ 72
    · rw [bleHandler, bleEvtAttributesValue_of_fits fits]
      rw [counts.len] at fits
      have counted : pending (past ++ [.received value]) = pending past + value.length := by
        rw [pending_append]
        rfl
      refine .emit ⟨trivial, trivial⟩ ⟨?_, ?_, ?_⟩
      · show (l.msgBuf.len + UInt8.ofNat value.length).toNat = _
        rw [UInt8.toNat_add, UInt8.toNat_ofNat', counted, counts.len]
        omega
      · omega
      · exact (always_append _ _ _).mpr ⟨counts.fitted, fits, trivial⟩
    · rw [bleHandler, bleEvtAttributesValue_of_overrun fits]
      rw [counts.len] at fits
      refine ⟨⟨trivial, trivial⟩, fun ok => (by cases ok), fun fault faulted => ?_⟩
      cases faulted
      exact ⟨past, value, rfl, counts.fitted, by omega⟩
  · rw [handled]
    refine counts.keep (fun effect member => ?_) ?_ ?_
    · obtain ⟨command, rfl⟩ := commands effect member
      rfl
    · rw [kept.msgBuf, foldl_pendingStep_of_commands commands]
    · rw [kept.msgBuf]
      exact counts.inside

theorem processPacket_counts (received : Received) (press : Option Rotation) :
    Sound Counts (fun _ _ => True) Overrun (processPacket received press) := by
  have button : Sound Counts (fun _ _ => True) Overrun (processButton press) := by
    intro past l counts
    unfold processButton
    split
    · exact counts.keep (by simp [Effect.unwritten]) rfl counts.inside
    · exact .pure counts
  cases received with
  | timeout => exact button
  | msg msg => exact (bleHandler_counts msg).andThen button
  | error =>
      exact fun past l counts => counts.keep (by simp [Effect.unwritten]) rfl (Nat.zero_le 72)

/-- Every pass counts, also one that is cut. -/
theorem loopBody_counts (box : Secretbox) (it : Iteration) :
    Sound Counts (fun _ _ => True) Overrun (loopBody box it) := by
  intro past l counts
  have whole : (wholeBody box it l).Holds Counts (fun _ _ => True) Overrun past :=
    ((fsmProcess_counts box it.lowBattery).andThen (processPacket_counts it.packet it.press)) past l
      counts
  rcases loopBody_cases box it l with same | ⟨done, rest, split, before, same⟩
  · rw [same]
    exact whole
  · rw [same]
    -- what has happened before the cut has fitted: a write that does not fit ends its pass
    have fitted : Always Fits (past ++ done) := by
      have all : past ++ (wholeBody box it l).events = past ++ done ++ rest := by
        rw [split, List.append_assoc]
      cases faulted : (wholeBody box it l).fault with
      | none =>
          have every := (whole.keeps faulted).fitted
          rw [all] at every
          exact ((always_append _ _ _).mp every).1
      | some fault =>
          have stopped := whole.stops fault faulted
          rw [all] at stopped
          cases fault with
          | sessionNonce => exact ((always_append _ _ _).mp stopped).1
          | msgBuf =>
              obtain ⟨earlier, value, isEnd, every, -⟩ := stopped
              have some' : rest ≠ [] := before.resolve_left (by rw [faulted]; simp)
              obtain ⟨middle, last, rfl⟩ := List.eq_nil_or_concat rest |>.resolve_left some'
              rw [List.concat_eq_append, ← List.append_assoc] at isEnd
              rw [← (List.append_inj' isEnd rfl).1] at every
              exact ((always_append _ _ _).mp every).1
    refine .emit (alwaysFrom_forall.mpr fun _ _ => trivial) ⟨?_, ?_, ?_⟩
    · rw [← List.append_assoc, pending_append]
      rfl
    · rw [← List.append_assoc, pending_append]
      exact Nat.zero_le 72
    · rw [← List.append_assoc]
      exact (always_append _ _ _).mpr ⟨fitted, trivial, trivial⟩

theorem mainRun_counts (box : Secretbox) (masterNonce : Nonce) (masterKey : Key)
    (its : List Iteration) :
    (mainRun box its (bootLock masterNonce masterKey)).Holds Counts (fun _ _ => True) Overrun [] :=
  Sound.run (fun it _ => loopBody_counts box it) [] _ ⟨rfl, Nat.zero_le 72, trivial⟩

/-! ### Runs -/

/-- **A run stays inside the buffer exactly when every write fits** with what has been written since
the buffer was last emptied; then the buffer's length is that count, at most 72, and does not wrap. -/
theorem inside_iff_fits (box : Secretbox) (masterNonce : Nonce) (masterKey : Key)
    (its : List Iteration) :
    let turn := mainRun box its (bootLock masterNonce masterKey)
    (turn.fault ≠ some .msgBuf ∧
        (turn.fault = none →
          turn.state.msgBuf.len.toNat = pending turn.events ∧ turn.state.msgBuf.len.toNat ≤ 72)) ↔
      Always Fits turn.events := by
  have holds := mainRun_counts box masterNonce masterKey its
  dsimp only
  cases faulted : (mainRun box its (bootLock masterNonce masterKey)).fault with
  | none =>
      have counts := holds.keeps faulted
      rw [List.nil_append] at counts
      exact iff_of_true ⟨by simp, fun _ => ⟨counts.len, counts.inside⟩⟩ counts.fitted
  | some fault =>
      have stopped := holds.stops fault faulted
      rw [List.nil_append] at stopped
      cases fault with
      | sessionNonce => exact iff_of_true ⟨by simp, fun ok => by cases ok⟩ stopped
      | msgBuf =>
          obtain ⟨before, value, isEnd, -, ended⟩ := stopped
          refine iff_of_false (fun inside => inside.1 rfl) fun every => ?_
          have last := every.at isEnd
          exact absurd last (by rw [Fits]; omega)

end Esloq
