/-
**What `uart_rx` does to the unread bytes (`uart.c`).**

* `Unread` — what the buffer and a running call hold at each of its accesses: the bytes that have arrived
  and are not in `data`. `Unread.interrupt` adds one, outside the window of the counter.
* `GoesOn`, `Returns` — what an access leaves: a byte that goes from the buffer to `data` or none, fewer
  accesses to go (`RxAccess.rank`), or the return value.
* `unread_access` — every access does one of the two.
-/

import Esloq.Firmware.Packets

namespace Esloq

open Machine

/-! ### The buffer at each access of `uart_rx` -/

namespace RxAccess

/-- The bytes of the ring that are on their way to `data`. -/
def inHand : RxAccess → Nat
  | .loadByte _ | .storeData _ => 1
  | _ => 0

/-- The bytes in `data` that the counter still counts. -/
def uncounted : RxAccess → Nat
  | .reloadStart | .restoreStart _ | .loadSize | .storeSize _ => 1
  | _ => 0

/-- Whether a byte is being read. -/
def reads : RxAccess → Bool
  | .testSize | .timer => false
  | _ => true

/-- What has been loaded is what is there. -/
def Loaded (access : RxAccess) (u : Uart) (pending : List UInt8) : Prop :=
  match access with
  | .storeStart start | .restoreStart start => start = u.rxbufferStart
  | .loadByte start =>
      u.rxbufferStart = start + 1 ∧ pending.head? = some (u.rxbuffer.get (rxIndex start))
  | .storeData byte => pending.head? = some byte
  | .storeSize size => size = u.rxbufferSize
  | _ => True

end RxAccess

/-- The bytes that have arrived and are not in `data`, at an access of a running call. -/
structure Unread (pending : List UInt8) (c : Call) (u : Uart) (access : RxAccess) : Prop where
  ring : Ring.Holds u.rxbuffer u.rxbufferStart.toNat u.rxbufferNext.toNat (pending.drop access.inHand)
  size : u.rxbufferSize = UInt8.ofNat (pending.length + access.uncounted)
  data : c.data.length = c.i.toNat + access.uncounted
  atMost : c.i ≤ c.len
  more : access.reads = true → c.i < c.len
  found : access.reads = true → access.uncounted = 0 → pending ≠ []
  loaded : access.Loaded u pending

/-- The bytes in the buffer while no call is running. -/
structure Buffers (pending : List UInt8) (u : Uart) : Prop where
  ring : Ring.Holds u.rxbuffer u.rxbufferStart.toNat u.rxbufferNext.toNat pending
  size : u.rxbufferSize = UInt8.ofNat pending.length

theorem Unread.buffers {pending : List UInt8} {c : Call} {u : Uart} {access : RxAccess}
    (unread : Unread pending c u access) (between : access.reads = false) : Buffers pending u := by
  obtain ⟨ring, size, -⟩ := unread
  cases access with
  | testSize => exact ⟨ring, size⟩
  | timer => exact ⟨ring, size⟩
  | _ => cases between

/-- A call starts. -/
theorem Buffers.unread {pending : List UInt8} {u : Uart} (buffers : Buffers pending u) (len : UInt8) :
    Unread pending ⟨len, 0, []⟩ u .testSize where
  ring := buffers.ring
  size := buffers.size
  data := rfl
  atMost := UInt8.le_iff_toNat_le.mpr (Nat.zero_le _)
  more := nofun
  found := nofun
  loaded := trivial

/-- The interrupt routine puts its byte behind the others. -/
theorem Buffers.interrupt {pending : List UInt8} {u : Uart} (buffers : Buffers pending u)
    (room : pending.length < 256) (byte : UInt8) : Buffers (pending ++ [byte]) (usartRxVect byte u) where
  ring := holds_usartRxVect buffers.ring room byte
  size := by
    rw [List.length_append]
    exact rxbufferSize_usartRxVect buffers.size byte

/-- While a call runs the routine does the same, outside the window of the counter. -/
theorem Unread.interrupt {pending : List UInt8} {c : Call} {u : Uart} {access : RxAccess}
    (unread : Unread pending c u access) (room : pending.length + 1 < 256)
    (outside : ∀ size, access ≠ .storeSize size) (byte : UInt8) :
    Unread (pending ++ [byte]) c (usartRxVect byte u) access := by
  have held : access.inHand ≤ pending.length := by
    cases access with
    | loadByte start => exact List.length_pos_of_ne_nil (unread.found rfl rfl)
    | storeData first => exact List.length_pos_of_ne_nil (unread.found rfl rfl)
    | _ => exact Nat.zero_le _
  have later : (pending ++ [byte]).drop access.inHand = pending.drop access.inHand ++ [byte] :=
    List.drop_append_of_le_length held
  have ring := unread.ring
  have free : (pending.drop access.inHand).length < 256 := by
    rw [List.length_drop]
    omega
  refine ⟨?_, ?_, unread.data, unread.atMost, unread.more, fun _ _ => by simp, ?_⟩
  · rw [later]
    exact holds_usartRxVect ring free byte
  · rw [List.length_append, List.length_singleton, Nat.add_right_comm]
    exact rxbufferSize_usartRxVect unread.size byte
  · have loaded := unread.loaded
    cases access with
    | storeSize size => exact absurd rfl (outside size)
    | loadByte start =>
        obtain ⟨advanced, first⟩ := loaded
        refine ⟨advanced, ?_⟩
        have apart : rxIndex u.rxbufferNext ≠ rxIndex start := by
          intro same
          have next := ring.next
          have equal : u.rxbufferNext.toNat = start.toNat := congrArg Fin.val same
          rw [advanced, UInt8.toNat_add, UInt8.toNat_one, List.length_drop] at next
          show False
          have inHand : RxAccess.inHand (.loadByte start) = 1 := rfl
          have := start.toNat_lt
          omega
        rw [List.head?_append, first]
        show some _ = some ((u.rxbuffer.set (rxIndex u.rxbufferNext) byte).get (rxIndex start))
        rw [List.Vector.get_set_of_ne apart]
    | storeData first =>
        show (pending ++ [byte]).head? = some first
        rw [List.head?_append, show pending.head? = some first from loaded]
        rfl
    | _ => exact loaded

/-- How far an access is from the end of the call, where nothing has to be waited for. -/
def RxAccess.rank (c : Call) : RxAccess → Nat
  | .reloadStart => 18
  | .restoreStart _ => 17
  | .loadSize => 16
  | .storeSize _ => 15
  | .timer => 14
  | .testSize => if c.i < c.len then 11 else 13
  | .loadStart => 10
  | .storeStart _ => 9
  | .loadByte _ => 8
  | .storeData _ => 7

theorem RxAccess.rank_testSize_le (c : Call) : RxAccess.rank c .testSize ≤ 13 := by
  show (if c.i < c.len then 11 else 13) ≤ 13
  split <;> decide

/-- The number of bytes an access counts off. -/
def RxAccess.counts (access : RxAccess) : Nat := if access.resets then 1 else 0

/-- The events of an access that stores some bytes and counts some off. -/
def moves (moved : List UInt8) (counts : Nat) : List PacketEvent :=
  moved.map .stored ++ List.replicate counts .counted

/-- A call goes on after an access, which has put the bytes `moved` into `data`. -/
structure GoesOn (pending : List UInt8) (c : Call) (access : RxAccess) (moved left : List UInt8)
    (c' : Call) (access' : RxAccess) (turn : AccessTurn) : Prop where
  call : turn.state.call = some (c', access')
  parts : pending = moved ++ left
  unread : Unread left c' turn.state.uart access'
  len : c'.len = c.len
  data : c'.data = c.data ++ moved
  events : turn.events.filterMap AccessEvent.packetEvent = moves moved access.counts
  tally : pending.length + access.uncounted = left.length + access'.uncounted + access.counts
  lower : (access = .testSize → pending ≠ []) →
    20 * left.length + access'.rank c' < 20 * pending.length + access.rank c

/-- A call returns. -/
structure Returns (c : Call) (access : RxAccess) (expired : Bool) (turn : AccessTurn) : Prop where
  call : turn.state.call = none
  full : access = .testSize → c.data.length = c.len.toNat
  code : returnedCode turn.events = if access = .testSize then 0 else if c.i = 0 then -1 else 1
  between : access.reads = false
  expired : access = .timer → expired = true

/-- An access that moves no byte and counts none off. -/
theorem GoesOn.silent {pending : List UInt8} {c : Call} {access access' : RxAccess} {u : Uart}
    (unread : Unread pending c u access') (resets : access.resets = false)
    (uncounted : access.uncounted = access'.uncounted)
    (lower : (access = .testSize → pending ≠ []) → access'.rank c < access.rank c) :
    GoesOn pending c access [] pending c access' (.pure ⟨u, some (c, access')⟩) := by
  have counts : access.counts = 0 := by
    rw [RxAccess.counts, resets]
    rfl
  refine ⟨rfl, rfl, unread, rfl, (List.append_nil _).symm, ?_, ?_, fun found => ?_⟩
  · rw [counts]
    rfl
  · rw [counts, uncounted]
    rfl
  · exact Nat.add_lt_add_left (lower found) _

/-- `rxbuffer_start %= RX_MAX_BUFFER_SIZE` does nothing. -/
theorem wrapIndex_eq (index : UInt8) : wrapIndex index = index := by
  rw [← UInt8.toNat_inj, wrapIndex, UInt8.toNat_ofNat']
  show index.toNat % 256 % 256 = index.toNat
  rw [Nat.mod_mod, Nat.mod_eq_of_lt index.toNat_lt]

/-- The test of the counter. -/
theorem unread_testSize {pending : List UInt8} {c : Call} {u : Uart}
    (unread : Unread pending c u .testSize) (room : pending.length < 256) (expired : Bool) :
    (∃ c' access', GoesOn pending c .testSize [] pending c' access'
        (uartRxAccess expired c .testSize u)) ∨
      Returns c .testSize expired (uartRxAccess expired c .testSize u) := by
  obtain ⟨ring, size, data, atMost, -, -, -⟩ := unread
  have empty : u.rxbufferSize = 0 ↔ pending = [] := by
    rw [size, ← UInt8.toNat_inj, UInt8.toNat_ofNat', ← List.length_eq_zero_iff]
    show (pending.length + 0) % 256 = 0 ↔ _
    omega
  by_cases more : c.i < c.len
  · left
    unfold uartRxAccess
    rw [if_pos more]
    by_cases found : u.rxbufferSize ≠ 0
    · have some' : pending ≠ [] := fun none' => found (empty.mpr none')
      rw [if_pos found]
      refine ⟨c, .loadStart, .silent ?_ rfl rfl fun _ => ?_⟩
      · exact ⟨ring, size, data, atMost, fun _ => more, fun _ _ => some', trivial⟩
      · show 10 < if c.i < c.len then 11 else 13
        rw [if_pos more]
        decide
    · have none' : pending = [] := empty.mp (not_not.mp found)
      rw [if_neg found]
      refine ⟨c, .timer, .silent ?_ rfl rfl fun some' => absurd none' (some' rfl)⟩
      exact ⟨ring, size, data, atMost, nofun, nofun, trivial⟩
  · right
    have all : c.data.length = c.len.toNat := by
      have := UInt8.lt_iff_toNat_lt.not.mp more
      have := UInt8.le_iff_toNat_le.mp atMost
      rw [data]
      show c.i.toNat + 0 = _
      omega
    unfold uartRxAccess
    rw [if_neg more]
    exact ⟨rfl, fun _ => all, rfl, rfl, nofun⟩

/-- The load and the store of the index, and of the byte. -/
theorem unread_read {pending : List UInt8} {c : Call} {u : Uart} {access : RxAccess}
    (unread : Unread pending c u access) (reads : access.reads = true) (expired : Bool)
    (before : access.uncounted = 0) :
    ∃ moved left c' access',
      GoesOn pending c access moved left c' access' (uartRxAccess expired c access u) := by
  obtain ⟨ring, size, data, atMost, more, found, loaded⟩ := unread
  obtain ⟨byte, rest, rfl⟩ := List.exists_cons_of_ne_nil (found reads before)
  have below := more reads
  cases access with
  | testSize | timer => cases reads
  | reloadStart | restoreStart start | loadSize | storeSize size => cases before
  | loadStart =>
      refine ⟨[], _, c, .storeStart u.rxbufferStart, .silent ?_ rfl rfl fun _ => Nat.lt_succ_self _⟩
      exact ⟨ring, size, data, atMost, more, found, rfl⟩
  | storeStart start =>
      have same : start = u.rxbufferStart := loaded
      subst same
      have front := ring.front
      have popped := ring.pop
      rw [← rxIndex_eq] at front
      rw [← wrapIndex_next, wrapIndex_eq] at popped
      refine ⟨[], _, c, .loadByte u.rxbufferStart, .silent ?_ rfl rfl fun _ => Nat.lt_succ_self _⟩
      exact ⟨popped, size, data, atMost, more, found, rfl, congrArg some front.symm⟩
  | loadByte start =>
      obtain ⟨-, first⟩ := loaded
      refine ⟨[], _, c, .storeData (u.rxbuffer.get (rxIndex start)), .silent ?_ rfl rfl
        fun _ => Nat.lt_succ_self _⟩
      exact ⟨ring, size, data, atMost, more, found, first⟩
  | storeData first =>
      have same : byte = first := Option.some.inj loaded
      subst same
      refine ⟨[byte], rest, { c with data := c.data ++ [byte] }, .reloadStart, rfl, rfl, ?_, rfl, rfl,
        rfl, rfl, fun _ => ?_⟩
      · refine ⟨ring, ?_, ?_, atMost, fun _ => below, nofun, trivial⟩
        · exact size
        · show (c.data ++ [byte]).length = c.i.toNat + 1
          rw [List.length_append, data]
          rfl
      · show 20 * rest.length + 18 < 20 * (rest.length + 1) + 7
        omega

/-- The accesses after a byte has been stored. -/
theorem unread_count {pending : List UInt8} {c : Call} {u : Uart} {access : RxAccess}
    (unread : Unread pending c u access) (expired : Bool) (before : access.uncounted = 1) :
    ∃ c' access', GoesOn pending c access [] pending c' access' (uartRxAccess expired c access u) := by
  obtain ⟨ring, size, data, atMost, more, found, loaded⟩ := unread
  cases access with
  | testSize | timer | loadStart | storeStart start | loadByte start | storeData byte => cases before
  | reloadStart =>
      refine ⟨c, .restoreStart u.rxbufferStart, .silent ?_ rfl rfl fun _ => Nat.lt_succ_self _⟩
      exact ⟨ring, size, data, atMost, more, found, rfl⟩
  | restoreStart start =>
      have same : start = u.rxbufferStart := loaded
      subst same
      refine ⟨c, .loadSize, .silent ⟨?_, size, data, atMost, more, found, trivial⟩ rfl rfl
        fun _ => Nat.lt_succ_self _⟩
      show Ring.Holds u.rxbuffer (wrapIndex u.rxbufferStart).toNat u.rxbufferNext.toNat pending
      rw [wrapIndex_eq]
      exact ring
  | loadSize =>
      refine ⟨c, .storeSize u.rxbufferSize, .silent ?_ rfl rfl fun _ => Nat.lt_succ_self _⟩
      exact ⟨ring, size, data, atMost, more, found, rfl⟩
  | storeSize loadedSize =>
      have same : loadedSize = u.rxbufferSize := loaded
      subst same
      have below := UInt8.lt_iff_toNat_lt.mp (more rfl)
      have step : (c.i + 1).toNat = c.i.toNat + 1 := by
        have := c.len.toNat_lt
        rw [UInt8.toNat_add, UInt8.toNat_one]
        omega
      refine ⟨{ c with i := c.i + 1 }, .testSize, rfl, rfl, ?_, rfl, (List.append_nil _).symm, rfl, rfl,
        fun _ => ?_⟩
      · refine ⟨ring, ?_, ?_, UInt8.le_iff_toNat_le.mpr ?_, nofun, nofun, trivial⟩
        · show u.rxbufferSize - 1 = UInt8.ofNat pending.length
          rw [size]
          show UInt8.ofNat (pending.length + 1) - 1 = _
          rw [UInt8.ofNat_add]
          exact UInt8.add_sub_cancel _ 1
        · show c.data.length = (c.i + 1).toNat
          rw [step]
          exact data
        · show (c.i + 1).toNat ≤ c.len.toNat
          rw [step]
          exact below
      · apply Nat.add_lt_add_left
        exact (RxAccess.rank_testSize_le _).trans_lt (by decide : 13 < 15)

/-- **What an access does.** -/
theorem unread_access {pending : List UInt8} {c : Call} {u : Uart} {access : RxAccess}
    (unread : Unread pending c u access) (room : pending.length < 256) (expired : Bool) :
    (∃ moved left c' access',
        GoesOn pending c access moved left c' access' (uartRxAccess expired c access u)) ∨
      Returns c access expired (uartRxAccess expired c access u) := by
  cases access with
  | testSize =>
      rcases unread_testSize unread room expired with ⟨c', access', goesOn⟩ | returns
      · exact Or.inl ⟨[], pending, c', access', goesOn⟩
      · exact Or.inr returns
  | timer =>
      cases expired with
      | true => exact Or.inr ⟨rfl, nofun, rfl, rfl, fun _ => rfl⟩
      | false =>
          refine Or.inl ⟨[], pending, c, .testSize, .silent ?_ rfl rfl fun _ => ?_⟩
          · obtain ⟨ring, size, data, atMost, -, -, -⟩ := unread
            exact ⟨ring, size, data, atMost, nofun, nofun, trivial⟩
          · exact Nat.lt_succ_of_le (RxAccess.rank_testSize_le c)
  | loadStart | storeStart start | loadByte start | storeData byte =>
      exact Or.inl (unread_read unread rfl expired rfl)
  | reloadStart | restoreStart start | loadSize | storeSize size =>
      obtain ⟨c', access', goesOn⟩ := unread_count unread expired rfl
      exact Or.inl ⟨[], pending, c', access', goesOn⟩

end Esloq
