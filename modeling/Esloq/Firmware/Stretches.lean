/-
**When the receive buffer is overrun (`ble_evt_attributes_value`).**

Nothing in the code bounds what a peer writes to `c_lock_receive`. The buffer is emptied for a message of
the length that the state waits for, and for a disconnection; so four packets of 20 bytes overrun it
(`msgBuf_overrun`).

* `stretches` — the writes of a run up to each disconnection or reset, with the states they find.
* `WellWritten` — complete messages, each with the last packet in the state that waits for it, and at most 72
  bytes after them.
* `Within` — the same, counted packet by packet (`wellWritten_iff`).
* `msgBuf_inside_iff` — a run stays inside the buffer exactly when its stretches are so written.
-/

import Esloq.Firmware.Buffer

namespace Esloq

open Machine

/-! ### What a peer writes -/

/-- A write to `c_lock_receive`: the state it finds, and its length. -/
structure Write where
  state : State
  length : Nat
  deriving DecidableEq

/-- The length of some writes together. -/
def total (writes : List Write) : Nat := (writes.map Write.length).sum

/-- The last of some writes finds a state that waits for a message of their length. -/
def Completes (writes : List Write) : Prop :=
  ∃ last ∈ writes.getLast?, last.state.awaits.map Prod.fst = some (total writes)

/-- Complete messages, and at most 72 bytes after them. -/
inductive WellWritten : List Write → Prop
  | rest {writes : List Write} (short : total writes ≤ 72) : WellWritten writes
  | message {message later : List Write} (complete : Completes message)
      (first : ∀ front, front <+: message → Completes front → front = message)
      (others : WellWritten later) : WellWritten (message ++ later)

/-- The write that a packet is, in a state. -/
def Received.write (state : State) : Received → Option Write
  | .msg (.evtAttributesValue handle value) =>
      if handle = cLockReceive then some ⟨state, value.length⟩ else none
  | _ => none

/-- The write of a pass that reaches the handler: `fsm_process` comes first, and the pass may be cut. -/
def Iteration.write (box : Secretbox) (it : Iteration) (l : Lock) : Option Write :=
  let turn := fsmProcess box it.lowBattery l
  if turn.fault = none ∧ ∀ count ∈ it.cut, turn.events.length < count then
    it.packet.write turn.state.state
  else none

/-- A packet with which the controller is reset, or the module reports a disconnection. -/
def Received.ends (received : Received) : Bool :=
  received == .error || received == .msg .evtConnectionDisconnected

/-- A pass that ends with a reset, or in which the module reports a disconnection. -/
def Iteration.ends (it : Iteration) : Bool := it.cut.isSome || it.packet.ends

/-- The writes of a run up to each disconnection and reset; the writes since the last one are given. -/
def stretches (box : Secretbox) : List Iteration → Lock → List Write → List (List Write)
  | [], _, writes => [writes]
  | it :: its, l, writes =>
      let writes := writes ++ (it.write box l).toList
      let turn := loopBody box it l
      if turn.fault.isSome then [writes]
      else if it.ends then writes :: stretches box its turn.state []
      else stretches box its turn.state writes

/-! ### Packet by packet -/

section Counting

/-- What is left of a message after one more packet. -/
def unfinished (count : Nat) (write : Write) : Nat :=
  if write.state.awaits.map Prod.fst = some (count + write.length) then 0 else count + write.length

/-- No packet exceeds 72 bytes together with what is left of the last message. -/
def Within : Nat → List Write → Prop
  | _, [] => True
  | count, write :: writes => count + write.length ≤ 72 ∧ Within (unfinished count write) writes

/-- What is left after some packets. -/
def bytesLeft (writes : List Write) : Nat := writes.foldl unfinished 0

theorem bytesLeft_concat (writes : List Write) (write : Write) :
    bytesLeft (writes ++ [write]) = unfinished (bytesLeft writes) write := List.foldl_append

theorem within_append : ∀ (first second : List Write) (count : Nat),
    Within count (first ++ second) ↔ Within count first ∧ Within (first.foldl unfinished count) second
  | [], _, _ => (true_and _).symm.to_iff
  | write :: first, second, count => by
      rw [List.cons_append, Within, Within, within_append first second, List.foldl_cons, and_assoc]

theorem within_concat (writes : List Write) (write : Write) :
    Within 0 (writes ++ [write]) ↔ Within 0 writes ∧ bytesLeft writes + write.length ≤ 72 := by
  rw [within_append, Within, Within, and_true]
  rfl

theorem total_cons (write : Write) (writes : List Write) :
    total (write :: writes) = write.length + total writes := List.sum_cons

theorem total_concat (writes : List Write) (write : Write) :
    total (writes ++ [write]) = total writes + write.length := by
  rw [total, List.map_append, List.sum_append]
  rfl

theorem unfinished_le (count : Nat) (write : Write) : unfinished count write ≤ count + write.length := by
  unfold unfinished
  split
  · exact Nat.zero_le _
  · exact Nat.le_refl _

/-- At most 72 bytes stay within. -/
theorem within_of_total : ∀ {writes : List Write} {count : Nat}, count + total writes ≤ 72 →
    Within count writes
  | [], _, _ => trivial
  | write :: writes, count, short => by
      rw [total_cons] at short
      have less := unfinished_le count write
      exact ⟨by omega, within_of_total (by omega)⟩

/-- Some writes after others complete a message. -/
def CompletesAfter (count : Nat) (writes : List Write) : Prop :=
  ∃ last ∈ writes.getLast?, last.state.awaits.map Prod.fst = some (count + total writes)

theorem completes_iff (writes : List Write) : Completes writes ↔ CompletesAfter 0 writes := by
  rw [Completes, CompletesAfter, Nat.zero_add]

theorem completesAfter_single (count : Nat) (write : Write) :
    CompletesAfter count [write] ↔ write.state.awaits.map Prod.fst = some (count + write.length) := by
  constructor
  · rintro ⟨last, isLast, complete⟩
    obtain rfl := Option.some.inj isLast
    exact complete
  · exact fun complete => ⟨write, rfl, complete⟩

theorem completesAfter_cons (count : Nat) (write next : Write) (writes : List Write) :
    CompletesAfter count (write :: next :: writes) ↔
      CompletesAfter (count + write.length) (next :: writes) := by
  rw [CompletesAfter, CompletesAfter, total_cons write, Nat.add_assoc, List.getLast?_cons_cons]

theorem Write.awaits_le {write : Write} {length : Nat} (awaits : write.state.awaits.map Prod.fst = some length) :
    length ≤ 72 := by
  obtain ⟨⟨_, complete⟩, found, rfl⟩ := Option.map_eq_some_iff.mp awaits
  exact State.awaits_le found

/-- After a complete message nothing is left. -/
theorem within_of_message : ∀ {message : List Write} {count : Nat} {later : List Write},
    CompletesAfter count message →
    (∀ front, front <+: message → CompletesAfter count front → front = message) →
    Within 0 later → Within count (message ++ later)
  | [], _, _, complete, _, _ => by
      obtain ⟨_, isLast, _⟩ := complete
      cases isLast
  | [write], count, later, complete, _, others => by
      have last := (completesAfter_single count write).mp complete
      refine ⟨Write.awaits_le last, ?_⟩
      rwa [unfinished, if_pos last]
  | write :: next :: message, count, later, complete, first, others => by
      have open' : ¬ CompletesAfter count [write] := by
        intro complete'
        have same := first [write] ⟨next :: message, rfl⟩ complete'
        cases same
      rw [completesAfter_single] at open'
      have further := (completesAfter_cons count write next message).mp complete
      refine ⟨?_, ?_⟩
      · obtain ⟨_, _, length⟩ := complete
        have short := Write.awaits_le length
        rw [total_cons] at short
        omega
      · rw [unfinished, if_neg open']
        refine within_of_message further (fun front begins complete' => ?_) others
        cases front with
        | nil =>
            obtain ⟨_, isLast, _⟩ := complete'
            cases isLast
        | cons other front =>
            obtain ⟨rfl, -⟩ := List.cons_prefix_cons.mp begins
            have whole := first (write :: other :: front) (List.cons_prefix_cons.mpr ⟨rfl, begins⟩)
              ((completesAfter_cons count write other front).mpr complete')
            exact (List.cons.inj whole).2

/-- What has been counted so far is the beginning of a message. -/
theorem wellWritten_of_within : ∀ {writes seen : List Write}, (∀ front, front <+: seen → ¬ Completes front) →
    total seen ≤ 72 → Within (total seen) writes → WellWritten (seen ++ writes)
  | [], seen, _, short, _ => by
      rw [List.append_nil]
      exact .rest short
  | write :: writes, seen, before, _, within => by
      have split : seen ++ write :: writes = (seen ++ [write]) ++ writes := by simp
      have length := total_concat seen write
      have completes_concat : Completes (seen ++ [write]) ↔
          write.state.awaits.map Prod.fst = some (total seen + write.length) := by
        rw [Completes, length]
        constructor
        · rintro ⟨last, isLast, complete⟩
          rw [List.getLast?_concat] at isLast
          obtain rfl := Option.some.inj isLast
          exact complete
        · exact fun complete => ⟨write, List.getLast?_concat, complete⟩
      obtain ⟨fits, later⟩ := within
      rw [split]
      unfold unfinished at later
      split at later
      · rename_i complete
        refine .message (completes_concat.mpr complete) (fun front begins complete' => ?_) ?_
        · rcases List.prefix_concat_iff.mp begins with whole | earlier
          · exact whole
          · exact absurd complete' (before front earlier)
        · have others := @wellWritten_of_within writes [] (by
            rintro front begins ⟨_, isLast, _⟩
            rw [List.prefix_nil.mp begins] at isLast
            cases isLast) (Nat.zero_le _) later
          exact others
      · rename_i unfinished'
        refine wellWritten_of_within (fun front begins complete => ?_) (length ▸ fits) (length ▸ later)
        rcases List.prefix_concat_iff.mp begins with rfl | earlier
        · exact unfinished' (completes_concat.mp complete)
        · exact before front earlier complete

/-- **Complete messages and a rest, counted packet by packet.** -/
theorem wellWritten_iff (writes : List Write) : WellWritten writes ↔ Within 0 writes := by
  constructor
  · intro written
    induction written with
    | rest short => exact within_of_total (by rwa [Nat.zero_add])
    | message complete first _ others =>
        refine within_of_message ((completes_iff _).mp complete) (fun front begins complete' => ?_) others
        exact first front begins ((completes_iff front).mpr complete')
  · intro within
    refine @wellWritten_of_within writes [] ?_ (Nat.zero_le _) within
    rintro front begins ⟨_, isLast, _⟩
    rw [List.prefix_nil.mp begins] at isLast
    cases isLast

end Counting

/-! ### What a pass leaves in the buffer -/

/-- The states in which `fsm_process` empties the buffer. -/
def State.empties : State → Bool
  | .ticket | .request | .disconnected => true
  | _ => false

/-- What `fsm_process` leaves is what it found, or nothing. -/
structure Emptied (l : Lock) (turn : LockTurn) : Prop where
  waits : turn.fault = none → turn.state.state.empties = false
  len : turn.fault = none →
    turn.state.msgBuf.len = if l.state.empties then 0 else l.msgBuf.len
  fault : turn.fault ≠ some .msgBuf

section Passes

variable {box : Secretbox}

theorem Emptied.emit {l l' : Lock} {events : List Effect} (waits : l'.state.empties = false)
    (len : l'.msgBuf.len = if l.state.empties then 0 else l.msgBuf.len) :
    Emptied l (.emit l' events) := ⟨fun _ => waits, fun _ => len, nofun⟩

theorem Emptied.stop {l l' : Lock} {events : List Effect} :
    Emptied l ⟨l', events, some .sessionNonce⟩ := ⟨nofun, nofun, nofun⟩

theorem processTicketMsg_emptied {l : Lock} (state : l.state = .ticket) (lowBattery : Bool) :
    Emptied l ((processTicketMsg box lowBattery l).2.andThen
      (afterTicketMsg (processTicketMsg box lowBattery l).1)) := by
  rcases processTicketMsg_cases box lowBattery l with ⟨-, same⟩ | ⟨-, ⟨-, same⟩ | ⟨key, -, same⟩⟩
  · rw [same]
    exact .emit rfl (by rw [state]; rfl)
  · rw [same]
    exact .emit rfl (by rw [state]; rfl)
  · obtain ⟨next, -, answered | ⟨c, -, answered⟩⟩ := respond_ticket_cases box lowBattery l key
    · rw [same, answered]
      exact .emit rfl (by rw [state]; rfl)
    · rw [same, answered]
      exact .emit rfl (by rw [state]; rfl)

theorem processRequestMsg_emptied {l : Lock} (state : l.state = .request) :
    Emptied l ((processRequestMsg box l).2.andThen (afterRequestMsg (processRequestMsg box l).1)) := by
  rcases processRequestMsg_cases box l with ⟨-, same⟩ | ⟨-, ⟨-, same⟩ | ⟨request, -, same⟩⟩
  · rw [same]
    exact .emit rfl (by rw [state]; rfl)
  · rw [same]
    exact .emit rfl (by rw [state]; rfl)
  · rcases respond_cases box { l with
        state := .requestW, sessionNonce := messageNonce (bufferedRequest l) } .requestW (rspCode request)
        ([.requestMsg (bufferedRequest l), .requestDecrypted l.sessionKey (bufferedRequest l) request] ++
          ((requestedRotation request).map (Effect.rotate .remote)).toList) with
      ⟨-, answered⟩ | ⟨next, -, answered | ⟨c, -, answered⟩⟩
    · rw [same, answered]
      exact .stop
    · rw [same, answered]
      exact .emit rfl (by rw [state]; rfl)
    · rw [same, answered]
      exact .emit rfl (by rw [state]; rfl)

theorem fsmProcess_emptied (lowBattery : Bool) (l : Lock) :
    Emptied l (fsmProcess box lowBattery l) := by
  unfold fsmProcess
  cases state : l.state with
  | ticket => exact processTicketMsg_emptied state lowBattery
  | request => exact processRequestMsg_emptied state
  | bleBoot | systemAddressGet | advParamSet | advDataSet | advSrDataSet | disconnected =>
      exact .emit rfl (by rw [state]; rfl)
  | _ => exact .emit (by rw [state]; rfl) (by rw [state]; rfl)

/-- The writes since the buffer was emptied stay within, and the buffer holds what is left of them; in a
state in which `fsm_process` empties it nothing is left. -/
structure Holding (writes : List Write) (l : Lock) : Prop where
  within : Within 0 writes
  left : if l.state.empties then bytesLeft writes = 0 else l.msgBuf.len.toNat = bytesLeft writes

theorem Holding.of_empty {l : Lock} (empty : l.msgBuf.len = 0) : Holding [] l := by
  refine ⟨trivial, ?_⟩
  split
  · rfl
  · rw [empty]
    rfl

theorem Holding.of_empties {writes : List Write} {l : Lock} (within : Within 0 writes)
    (nothing : bytesLeft writes = 0) (empties : l.state.empties = true) : Holding writes l :=
  ⟨within, by rw [if_pos empties]; exact nothing⟩

theorem Holding.of_waits {writes : List Write} {l : Lock} (within : Within 0 writes)
    (waits : l.state.empties = false) (len : l.msgBuf.len.toNat = bytesLeft writes) :
    Holding writes l :=
  ⟨within, by rw [waits]; exact len⟩

/-- After `fsm_process` the buffer holds what is left. -/
theorem Holding.len {writes : List Write} {l : Lock} (holding : Holding writes l) {turn : LockTurn}
    (emptied : Emptied l turn) (ok : turn.fault = none) :
    turn.state.msgBuf.len.toNat = bytesLeft writes := by
  have left := holding.left
  rw [emptied.len ok]
  split at left
  · rename_i empties
    rw [if_pos empties, left]
    rfl
  · rename_i waits
    rw [if_neg waits, left]

/-- A message is complete exactly when it has the length that the state awaits. -/
theorem afterReceive_empties {state : State} {len : UInt8}
    (complete : state.awaits.map Prod.fst = some len.toNat) :
    (afterReceive state len).empties = true := by
  cases state with
  | connected =>
      obtain rfl : len = 72 := UInt8.toNat_inj.mp (Option.some.inj complete).symm
      rfl
  | requestW =>
      obtain rfl : len = 41 := UInt8.toNat_inj.mp (Option.some.inj complete).symm
      rfl
  | _ => cases complete

theorem afterReceive_waits {state : State} {len : UInt8}
    (part : state.awaits.map Prod.fst ≠ some len.toNat) : afterReceive state len = state := by
  have ticket : ¬ (state = .connected ∧ len = 72) := by
    rintro ⟨rfl, rfl⟩
    exact part rfl
  have request : ¬ (state = .requestW ∧ len = 41) := by
    rintro ⟨rfl, rfl⟩
    exact part rfl
  rw [afterReceive, if_neg ticket, if_neg request]

/-- A pass goes outside the buffer exactly with a write that does not stay within, and otherwise keeps
what it writes. -/
structure StaysIn (writes : List Write) (ends : Bool) (turn : LockTurn) : Prop where
  fault : turn.fault ≠ some .msgBuf ↔ Within 0 writes
  holding : turn.fault = none → Holding (if ends then [] else writes) turn.state

theorem StaysIn.go {writes : List Write} {ends : Bool} {turn : LockTurn} (ok : turn.fault = none)
    (within : Within 0 writes) (holding : Holding (if ends then [] else writes) turn.state) :
    StaysIn writes ends turn :=
  ⟨iff_of_true (by rw [ok]; nofun) within, fun _ => holding⟩

theorem StaysIn.stop {writes : List Write} {ends : Bool} {turn : LockTurn} {fault : Fault}
    (faulted : turn.fault = some fault) (within : fault ≠ .msgBuf ↔ Within 0 writes) :
    StaysIn writes ends turn := by
  refine ⟨?_, fun ok => ?_⟩
  · rw [faulted, ← within]
    simp
  · rw [faulted] at ok
    cases ok

/-- A button press touches neither the buffer nor the state. -/
theorem StaysIn.button {writes : List Write} {ends : Bool} {turn : LockTurn} (kept : StaysIn writes ends turn)
    (press : Option Rotation) : StaysIn writes ends (turn.andThen (processButton press)) := by
  cases ok : turn.fault with
  | some fault =>
      rw [Turn.andThen_of_fault ok]
      exact kept
  | none =>
      have holding := kept.holding ok
      obtain ⟨request, events, same, -⟩ := processButton_spec press turn.state
      rw [Turn.andThen_of_ok ok, same]
      exact .go rfl (kept.fault.mp (by rw [ok]; nofun)) ⟨holding.within, holding.left⟩

section Packets

variable {writes : List Write} {l : Lock} (within : Within 0 writes)
  (waits : l.state.empties = false) (len : l.msgBuf.len.toNat = bytesLeft writes)

include within waits len

/-- A write that fits is kept, and completes a message where it has the length that the state awaits. -/
theorem receive_kept (value : List UInt8) :
    StaysIn (writes ++ [⟨l.state, value.length⟩]) false (bleEvtAttributesValue cLockReceive value l) := by
  have within' := within_concat writes ⟨l.state, value.length⟩
  by_cases fits : l.msgBuf.len.toNat + value.length ≤ 72
  · rw [bleEvtAttributesValue_of_fits fits]
    have sum : (l.msgBuf.len + UInt8.ofNat value.length).toNat = bytesLeft writes + value.length := by
      rw [UInt8.toNat_add, UInt8.toNat_ofNat', len]
      omega
    refine .go rfl (within'.mpr ⟨within, len ▸ fits⟩) ?_
    have left := bytesLeft_concat writes ⟨l.state, value.length⟩
    unfold unfinished at left
    split at left
    · rename_i complete
      exact .of_empties (within'.mpr ⟨within, len ▸ fits⟩) left
        (afterReceive_empties (complete.trans (congrArg some sum.symm)))
    · rename_i part
      have same := afterReceive_waits fun complete => part (complete.trans (congrArg some sum))
      refine .of_waits (within'.mpr ⟨within, len ▸ fits⟩) ?_ (sum.trans left.symm)
      show (afterReceive l.state _).empties = false
      rwa [same]
  · rw [bleEvtAttributesValue_of_overrun fits]
    refine .stop rfl (iff_of_false (fun other => other rfl) fun inside => ?_)
    exact fits (len ▸ (within'.mp inside).2)

/-- Another message leaves the buffer, and no state but that of a disconnection empties it. -/
theorem bleHandler_kept (msg : BgapiMsg) :
    StaysIn (writes ++ ((Received.msg msg).write l.state).toList) (Received.msg msg).ends
      (bleHandler msg l) := by
  have goes : ∀ (l' : Lock) (events : List Effect), l'.state.empties = false →
      l'.msgBuf = l.msgBuf → StaysIn (writes ++ []) false (.emit l' events) := by
    intro l' events waits buffer
    rw [List.append_nil]
    exact .go rfl within (.of_waits within waits (buffer ▸ len))
  cases msg with
  | evtAttributesValue handle value =>
      by_cases receive : handle = cLockReceive
      · subst receive
        exact receive_kept within waits len value
      · rw [bleHandler, bleEvtAttributesValue, if_neg receive, Received.write, if_neg receive]
        exact goes l [] waits rfl
  | evtConnectionDisconnected =>
      refine .go rfl ?_ (.of_empties trivial rfl rfl)
      rwa [show (Received.msg .evtConnectionDisconnected).write l.state = none from rfl,
        Option.toList_none, List.append_nil]
  | rspSystemAddressGet address => exact goes _ _ rfl rfl
  | rspGapSetAdvParameters | rspGapSetMode | evtSystemBoot => exact goes _ _ rfl rfl
  | evtHardwareIoPortStatus | stub => exact goes _ _ waits rfl
  | rspGapSetAdvData =>
      rw [bleHandler, bleRspGapSetAdvData]
      split
      · exact goes _ _ rfl rfl
      · split
        · exact goes _ _ rfl rfl
        · exact goes _ _ waits rfl
  | evtConnectionStatus flags =>
      rw [bleHandler, bleEvtConnectionStatus]
      split
      · exact goes _ _ rfl rfl
      · exact goes _ _ waits rfl
  | rspAttributesWrite result =>
      simp only [bleHandler, bleRspAttributesWrite]
      split
      · exact goes _ _ waits rfl
      · split
        · exact goes _ _ waits rfl
        · split
          · exact goes _ _ waits rfl
          · exact goes _ _ waits rfl

theorem processPacket_kept (received : Received) (press : Option Rotation) :
    StaysIn (writes ++ (received.write l.state).toList) received.ends (processPacket received press l) := by
  cases received with
  | timeout =>
      have kept : StaysIn (writes ++ []) false (.pure l : LockTurn) := by
        rw [List.append_nil]
        exact .go rfl within (.of_waits within waits len)
      exact kept.button press
  | msg msg => exact (bleHandler_kept within waits len msg).button press
  | error =>
      refine .go rfl ?_ (.of_empty rfl)
      rwa [show Received.error.write l.state = none from rfl, Option.toList_none, List.append_nil]

end Packets

section Cuts

variable {writes : List Write} {it : Iteration} {l : Lock}

theorem wholeBody_kept (uncut : it.cut = none) (holding : Holding writes l) :
    StaysIn (writes ++ (it.write box l).toList) it.packet.ends (wholeBody box it l) := by
  have emptied := @fsmProcess_emptied box it.lowBattery l
  cases ok : (fsmProcess box it.lowBattery l).fault with
  | some fault =>
      have nothing : it.write box l = none := by simp [Iteration.write, ok]
      rw [nothing, wholeBody, Turn.andThen_of_fault ok, Option.toList_none, List.append_nil]
      refine .stop ok (iff_of_true ?_ holding.within)
      rintro rfl
      exact emptied.fault ok
  | none =>
      have write : it.write box l = it.packet.write (fsmProcess box it.lowBattery l).state.state := by
        simp [Iteration.write, ok, uncut]
      have kept := processPacket_kept holding.within (emptied.waits ok) (holding.len emptied ok)
        it.packet it.press
      rw [write, wholeBody, Turn.andThen_of_ok ok]
      exact ⟨kept.fault, kept.holding⟩

/-- A write that goes outside the buffer is the last effect of its pass. -/
theorem events_of_overrun {received : Received} {press : Option Rotation}
    (overrun : (processPacket received press l).fault = some .msgBuf) :
    (processPacket received press l).events.length = 1 := by
  have button : ∀ (l' : Lock) (events : List Effect),
      ((.emit l' events : LockTurn).andThen (processButton press)).fault ≠ some .msgBuf := by
    intro l' events overrun
    obtain ⟨request, later, same, -⟩ := processButton_spec press l'
    rw [Turn.emit_andThen, same] at overrun
    cases overrun
  cases received with
  | timeout => exact absurd overrun (button l [])
  | error => cases overrun
  | msg msg =>
      rw [processPacket] at overrun ⊢
      rcases bleHandler_cases msg l with ⟨value, rfl⟩ | ⟨l', events, handled, -⟩
      · rw [bleHandler] at overrun ⊢
        by_cases fits : l.msgBuf.len.toNat + value.length ≤ 72
        · rw [bleEvtAttributesValue_of_fits fits] at overrun
          exact absurd overrun (button _ _)
        · rw [bleEvtAttributesValue_of_overrun fits]
          rfl
      · rw [handled] at overrun
        exact absurd overrun (button _ _)

theorem wholeBody_overrun (overrun : (wholeBody box it l).fault = some .msgBuf) :
    (wholeBody box it l).events.length = (fsmProcess box it.lowBattery l).events.length + 1 := by
  unfold wholeBody at overrun ⊢
  cases ok : (fsmProcess box it.lowBattery l).fault with
  | some fault =>
      rw [Turn.andThen_of_fault ok] at overrun
      exact absurd overrun (fsmProcess_emptied it.lowBattery l).fault
  | none =>
      rw [Turn.andThen_of_ok ok] at overrun ⊢
      rw [List.length_append, events_of_overrun overrun]

/-- A pass, also one that is cut. -/
theorem loopBody_kept (holding : Holding writes l) :
    StaysIn (writes ++ (it.write box l).toList) it.ends (loopBody box it l) := by
  cases cut : it.cut with
  | none =>
      have ends : it.ends = it.packet.ends := by simp [Iteration.ends, cut]
      have whole : loopBody box it l = wholeBody box it l := by simp only [loopBody, cut]
      rw [ends, whole]
      exact wholeBody_kept cut holding
  | some count =>
      have ends : it.ends = true := by simp [Iteration.ends, cut]
      have kept : StaysIn (writes ++ (({ it with cut := none }).write box l).toList) it.packet.ends
          (wholeBody box it l) := wholeBody_kept rfl holding
      have last := @wholeBody_overrun box it l
      by_cases reached : (fsmProcess box it.lowBattery l).events.length < count
      · have write : it.write box l = ({ it with cut := none } : Iteration).write box l := by
          simp [Iteration.write, cut, reached]
        rw [ends, write, loopBody, cut]
        dsimp only
        split
        · rename_i inside
          refine .go rfl (kept.fault.mp fun overrun => ?_) (.of_empty rfl)
          have late := inside.resolve_left (by rw [overrun]; simp)
          rw [last overrun] at late
          omega
        · rename_i outside
          exact ⟨kept.fault, fun ok => absurd (Or.inl ok) outside⟩
      · have nothing : it.write box l = none := by
          simp [Iteration.write, cut, reached]
        rw [ends, nothing, Option.toList_none, List.append_nil, loopBody, cut]
        dsimp only
        split
        · exact .go rfl holding.within (.of_empty rfl)
        · rename_i outside
          refine ⟨iff_of_true (fun overrun => ?_) holding.within, fun ok => absurd (Or.inl ok) outside⟩
          have late : ¬ count < (wholeBody box it l).events.length := fun early => outside (Or.inr early)
          rw [last overrun] at late
          omega

end Cuts

end Passes

/-! ### Runs -/

/-- **A run stays inside the buffer while its stretches stay within.** -/
theorem mainRun_kept (box : Secretbox) : ∀ (its : List Iteration) {l : Lock} {writes : List Write},
    Holding writes l → ((mainRun box its l).fault ≠ some .msgBuf ↔
      ∀ stretch ∈ stretches box its l writes, Within 0 stretch)
  | [], _, _, holding => iff_of_true (Option.some_ne_none _).symm
      fun _ member => List.mem_singleton.mp member ▸ holding.within
  | it :: its, l, writes, holding => by
      have kept := @loopBody_kept box writes it l holding
      rw [stretches, mainRun, run_cons]
      cases ok : (loopBody box it l).fault with
      | some fault =>
          rw [Turn.andThen_of_fault ok, kept.fault]
          simp
      | none =>
          have within := kept.fault.mp (by rw [ok]; simp)
          have later := kept.holding ok
          rw [Turn.andThen_of_ok ok]
          simp only [Option.isSome_none, Bool.false_eq_true, if_false]
          split at later
          · rename_i ends
            rw [if_pos ends, List.forall_mem_cons, and_iff_right within]
            exact mainRun_kept box its later
          · rename_i goes
            rw [if_neg goes]
            exact mainRun_kept box its later

/-- **A run stays inside the buffer exactly when its stretches are complete messages and at most 72
bytes after them**; then the buffer's length is what has been written since it was emptied, at most 72, and
does not wrap. -/
theorem msgBuf_inside_iff (box : Secretbox) (masterNonce : Nonce) (masterKey : Key)
    (its : List Iteration) :
    let turn := mainRun box its (bootLock masterNonce masterKey)
    (turn.fault ≠ some .msgBuf ∧
        (turn.fault = none →
          turn.state.msgBuf.len.toNat = pending turn.events ∧ turn.state.msgBuf.len.toNat ≤ 72)) ↔
      ∀ stretch ∈ stretches box its (bootLock masterNonce masterKey) [], WellWritten stretch := by
  have stays := mainRun_kept box its (Holding.of_empty (l := bootLock masterNonce masterKey) rfl)
  simp only [wellWritten_iff, ← stays]
  constructor
  · exact And.left
  · refine fun inside => ⟨inside, fun ok => ?_⟩
    have counts := (mainRun_counts box masterNonce masterKey its).keeps ok
    exact ⟨counts.len, counts.inside⟩

/-- Four packets of 20 bytes after a connection status: the fourth is written to bytes 60 to 79. -/
theorem msgBuf_overrun :
    (mainRun keyTag (pass (.evtConnectionStatus 5) :: packets (List.replicate 80 0))
      (bootLock zeroNonce sampleMasterKey)).fault = some .msgBuf := by
  decide +kernel

end Esloq
