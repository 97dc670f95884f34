/-
**How the server issues tickets, and when concurrent requests repeat a nonce (`getlockticket`,
`LockSerializer.update`).**

* `getlockticket` — a request that runs alone: the row's nonce is raised and saved, and the ticket is
  the nonce and the session key sealed under it.
* `serverStep` — requests that run together: reading the row and saving it are separate steps, and
  `save()` writes every column of the copy that was read.
* `Undisturbed` — between the read and the save of a request no ticket is issued for its lock.
* `nonces_rise` — on every schedule whose saves are undisturbed the nonces of each lock's tickets
  strictly increase; `nonce_repeated` has two schedules on which they do not.
-/

import Esloq.Firmware.Lock

namespace Esloq

open Machine

/-! ### One request alone -/

/-- A row of the table `Esloq`. -/
structure EsloqRow where
  id : Nat
  mac : String
  key : Key
  name : String
  nonce : Nat
  deriving DecidableEq

/-- `nacl.auth_encrypt`. -/
def authEncrypt (box : Secretbox) {mlen : Nat} (m : Bytes mlen) (n : Nonce) (k : Key) :
    Option (Bytes (mlen + 16)) :=
  sealPadded box m n k

/-- `to_bytes(24, byteorder='big')`; `none` is the `OverflowError`. -/
def toBytes (nonce : Nat) : Option Nonce := if nonce < 2 ^ 192 then some (nonceOf nonce) else none

/-- The ticket of a row whose nonce has been raised. -/
def ticketOf (box : Secretbox) (sessionKey : Key) (lock : EsloqRow) : Option (Bytes 72) :=
  (toBytes lock.nonce).bind fun nonce =>
    (authEncrypt box sessionKey nonce lock.key).map (ticketMessage nonce)

/-- `lock.nonce += 1`. -/
def EsloqRow.raise (lock : EsloqRow) : EsloqRow := { lock with nonce := lock.nonce + 1 }

/-- `getlockticket` on the row of a lock, for the session key `urandom` returns: the saved row and
the ticket. -/
def getlockticket (box : Secretbox) (sessionKey : Key) (lock : EsloqRow) :
    EsloqRow × Option (Bytes 72) :=
  (lock.raise, ticketOf box sessionKey lock.raise)

/-! ### Requests together -/

/-- A request that reads and saves a row: for a ticket, or a `PATCH` of the name. -/
inductive Request
  | ticket (lock : Nat)
  | rename (lock : Nat) (name : Option String)
  deriving DecidableEq

/-- The lock a request is about. -/
def Request.lock : Request → Nat
  | .ticket lock => lock
  | .rename lock _ => lock

/-- What a request changes in its copy of the row before it saves it. -/
def Request.update : Request → EsloqRow → EsloqRow
  | .ticket _, row => row.raise
  | .rename _ name, row => { row with name := name.getD row.name }

/-- A database access of a request. -/
inductive Access
  | read (request : Nat)
  | save (request : Nat)
  deriving DecidableEq

/-- What a schedule does: reads, tickets encrypted under a key and a nonce, and renames. -/
inductive RowEvent
  | read (request lock : Nat)
  | issued (request lock : Nat) (key : Key) (nonce : Nat)
  | renamed (request lock : Nat)
  deriving DecidableEq

/-- The table, and the copies the requests hold. -/
structure Rows where
  table : Nat → Option EsloqRow
  copies : Nat → Option EsloqRow

/-- What saving a copy is seen as. -/
def Request.event (r : Nat) : Request → EsloqRow → RowEvent
  | .ticket lock, row => .issued r lock row.key row.nonce
  | .rename lock _, _ => .renamed r lock

/-- One access. A read of a missing row ends the request. -/
def serverStep (requests : Nat → Request) : Access → Rows → Turn Rows RowEvent Empty
  | .read r, s =>
      match s.table (requests r).lock with
      | none => .pure s
      | some row =>
          .emit { s with copies := Function.update s.copies r (some row) }
            [.read r (requests r).lock]
  | .save r, s =>
      match s.copies r with
      | none => .pure s
      | some copy =>
          let row := (requests r).update copy
          .emit
            { table := Function.update s.table (requests r).lock (some row)
              copies := Function.update s.copies r none }
            [(requests r).event r row]

/-- The table before any request runs. -/
def restingRows (table : Nat → Option EsloqRow) : Rows := ⟨table, fun _ => none⟩

/-- The nonces of the tickets of a lock, in the order of the saves. -/
def issuedNonces (lock : Nat) (trace : List RowEvent) : List Nat :=
  trace.filterMap fun
    | .issued _ lock' _ nonce => if lock' = lock then some nonce else none
    | _ => none

/-- The events since a request last read the row. -/
def sinceRead (r lock : Nat) (past : List RowEvent) : List RowEvent :=
  past.foldl (fun since event => if event = .read r lock then [] else since ++ [event]) []

/-- A ticket of the lock is issued. -/
def RowEvent.issuedFor (lock : Nat) : RowEvent → Bool
  | .issued _ lock' _ _ => lock' = lock
  | _ => false

/-- No ticket of the lock was issued since the request read the row. -/
def UndisturbedSince (r lock : Nat) (past : List RowEvent) : Prop :=
  ∀ event ∈ sinceRead r lock past, event.issuedFor lock = false

/-- Every save comes before any other ticket of the lock that was issued after the read. -/
def Undisturbed (past : List RowEvent) : RowEvent → Prop
  | .issued r lock _ _ => UndisturbedSince r lock past
  | .renamed r lock => UndisturbedSince r lock past
  | .read .. => True

instance (past : List RowEvent) : ∀ event, Decidable (Undisturbed past event)
  | .issued r lock _ _ => List.decidableBAll _ (sinceRead r lock past)
  | .renamed r lock => List.decidableBAll _ (sinceRead r lock past)
  | .read .. => .isTrue trivial

theorem sinceRead_concat (r lock : Nat) (past : List RowEvent) (event : RowEvent) :
    sinceRead r lock (past ++ [event]) =
      if event = .read r lock then [] else sinceRead r lock past ++ [event] := by
  rw [sinceRead, List.foldl_append]
  rfl

theorem issuedNonces_append (lock : Nat) (first second : List RowEvent) :
    issuedNonces lock (first ++ second) = issuedNonces lock first ++ issuedNonces lock second :=
  List.filterMap_append

/-- The undisturbed copies have the nonce of their row, and no ticket is above its row. -/
structure Current (requests : Nat → Request) (past : List RowEvent) (s : Rows) : Prop where
  copied : ∀ r copy, s.copies r = some copy → UndisturbedSince r (requests r).lock past →
    ∃ row, s.table (requests r).lock = some row ∧ copy.nonce = row.nonce
  bounded : ∀ lock row, s.table lock = some row → ∀ nonce ∈ issuedNonces lock past, nonce ≤ row.nonce
  rising : ∀ lock, (issuedNonces lock past).Pairwise (· < ·)

/-- What is undisturbed after another event was so before, and the event is no ticket of the lock. -/
theorem UndisturbedSince.of_concat {r lock : Nat} {past : List RowEvent} {event : RowEvent}
    (undisturbed : UndisturbedSince r lock (past ++ [event])) (unread : event ≠ .read r lock) :
    UndisturbedSince r lock past ∧ event.issuedFor lock = false := by
  rw [UndisturbedSince, sinceRead_concat, if_neg unread] at undisturbed
  exact ⟨fun earlier member => undisturbed earlier (List.mem_append_left _ member),
    undisturbed event (by simp)⟩

section Step

variable {requests : Nat → Request} {past : List RowEvent} {s : Rows}

/-- A read takes a copy of the row as it is. -/
theorem Current.read (current : Current requests past s) {r : Nat} {row : EsloqRow}
    (found : s.table (requests r).lock = some row) :
    Current requests (past ++ [.read r (requests r).lock])
      { s with copies := Function.update s.copies r (some row) } := by
  have nonces : ∀ lock, issuedNonces lock (past ++ [.read r (requests r).lock]) =
      issuedNonces lock past := by
    intro lock
    rw [issuedNonces_append]
    exact List.append_nil _
  refine ⟨fun other copy held undisturbed => ?_, fun lock row' found' => ?_, fun lock => ?_⟩
  · by_cases own : other = r
    · subst own
      have isRow : row = copy := by simpa using held
      subst isRow
      exact ⟨row, found, rfl⟩
    · have earlier : s.copies other = some copy := by simpa [own] using held
      have unread : RowEvent.read r (requests r).lock ≠ .read other (requests other).lock := by
        intro same
        cases same
        exact own rfl
      exact current.copied other copy earlier (undisturbed.of_concat unread).1
  · rw [nonces]
    exact current.bounded lock row' found'
  · rw [nonces]
    exact current.rising lock

/-- The nonces of a lock after the save of a request. -/
theorem issuedNonces_event (lock r : Nat) (request : Request) (row : EsloqRow) :
    issuedNonces lock [request.event r row] =
      if request = .ticket lock then [row.nonce] else [] := by
  cases request with
  | ticket lock' =>
      by_cases own : lock' = lock <;> simp [issuedNonces, Request.event, own]
  | rename lock' name => simp [issuedNonces, Request.event]

theorem mem_issuedNonces_event {lock r : Nat} {request : Request} {row : EsloqRow} {nonce : Nat} :
    nonce ∈ issuedNonces lock [request.event r row] ↔ request = .ticket lock ∧ nonce = row.nonce := by
  rw [issuedNonces_event]
  by_cases own : request = .ticket lock
  · rw [if_pos own, List.mem_singleton, and_iff_right own]
  · rw [if_neg own]
    exact iff_of_false List.not_mem_nil fun both => own both.1

/-- No request lowers the nonce of its copy. -/
theorem Request.nonce_le_update (request : Request) (row : EsloqRow) :
    row.nonce ≤ (request.update row).nonce := by
  cases request with
  | ticket lock => exact Nat.le_succ row.nonce
  | rename lock name => exact Nat.le_refl row.nonce

section Save

variable {r : Nat} {copy row : EsloqRow}

/-- The copies of the other requests, as long as no ticket of their lock is issued. -/
theorem Current.save_copied (current : Current requests past s)
    (found : s.table (requests r).lock = some row) (copied : copy.nonce = row.nonce) {other : Nat}
    {copy' : EsloqRow} (earlier : s.copies other = some copy')
    (later : UndisturbedSince other (requests other).lock
      (past ++ [(requests r).event r ((requests r).update copy)])) :
    ∃ row', Function.update s.table (requests r).lock (some ((requests r).update copy))
      (requests other).lock = some row' ∧ copy'.nonce = row'.nonce := by
  obtain ⟨before, unissued⟩ := later.of_concat (by cases requests r <;> simp [Request.event])
  obtain ⟨row', found', same⟩ := current.copied other copy' earlier before
  by_cases together : (requests other).lock = (requests r).lock
  · -- the save of a rename of this lock: the nonce is that of the row
    rw [together] at found' unissued ⊢
    rw [found] at found'
    cases found'
    refine ⟨_, Function.update_self .., same.trans ?_⟩
    cases request : requests r with
    | ticket lock =>
        rw [request] at unissued
        simp [Request.event, RowEvent.issuedFor, Request.lock] at unissued
    | rename lock name => exact copied.symm
  · exact ⟨row', (Function.update_of_ne together _ _).trans found', same⟩

/-- No ticket is above the row that is saved, nor above the others. -/
theorem Current.save_bounded (current : Current requests past s)
    (found : s.table (requests r).lock = some row) (copied : copy.nonce = row.nonce) {lock : Nat}
    {row' : EsloqRow}
    (found' : Function.update s.table (requests r).lock (some ((requests r).update copy)) lock =
      some row') :
    ∀ nonce ∈ issuedNonces lock (past ++ [(requests r).event r ((requests r).update copy)]),
      nonce ≤ row'.nonce := by
  intro nonce member
  rw [issuedNonces_append, List.mem_append, mem_issuedNonces_event] at member
  by_cases own : lock = (requests r).lock
  · subst own
    rw [Function.update_self, Option.some.injEq] at found'
    subst found'
    rcases member with member | ⟨-, same⟩
    · have bounded := current.bounded _ row found nonce member
      rw [← copied] at bounded
      exact bounded.trans ((requests r).nonce_le_update copy)
    · exact same.le
  · rw [Function.update_of_ne own] at found'
    rcases member with member | ⟨request, -⟩
    · exact current.bounded lock row' found' nonce member
    · rw [request] at own
      exact absurd rfl own

/-- A ticket is above those before it. -/
theorem Current.save_rising (current : Current requests past s)
    (found : s.table (requests r).lock = some row) (copied : copy.nonce = row.nonce) (lock : Nat) :
    (issuedNonces lock (past ++ [(requests r).event r ((requests r).update copy)])).Pairwise
      (· < ·) := by
  rw [issuedNonces_append, List.pairwise_append, issuedNonces_event]
  split
  · rename_i request
    refine ⟨current.rising lock, List.pairwise_singleton _ _, fun earlier member => ?_⟩
    refine List.forall_mem_singleton.mpr ?_
    rw [request] at found ⊢
    have bounded := current.bounded lock row found earlier member
    rw [← copied] at bounded
    exact Nat.lt_succ_of_le bounded
  · exact ⟨current.rising lock, List.Pairwise.nil, fun _ _ _ member => by cases member⟩

/-- An undisturbed save writes back a row whose nonce is still that of the copy. -/
theorem Current.save (current : Current requests past s) (held : s.copies r = some copy)
    (undisturbed : UndisturbedSince r (requests r).lock past) :
    Current requests (past ++ [(requests r).event r ((requests r).update copy)])
      { table := Function.update s.table (requests r).lock (some ((requests r).update copy))
        copies := Function.update s.copies r none } := by
  obtain ⟨row, found, copied⟩ := current.copied r copy held undisturbed
  refine ⟨fun other copy' held' later => ?_, fun lock row' found' => ?_, ?_⟩
  · by_cases own : other = r
    · subst own
      simp at held'
    · exact current.save_copied found copied (by simpa [own] using held') later
  · exact current.save_bounded found copied found'
  · exact current.save_rising found copied

end Save

end Step

/-- As long as the saves are undisturbed, the copies are current. -/
def CurrentIf (requests : Nat → Request) (past : List RowEvent) (s : Rows) : Prop :=
  Always Undisturbed past → Current requests past s

theorem serverStep_current (requests : Nat → Request) (access : Access) :
    Sound (CurrentIf requests) (fun _ _ => True) (fun _ _ => True)
      (serverStep requests access) := by
  intro past s current
  cases access with
  | read r =>
      cases found : s.table (requests r).lock with
      | none =>
          simp only [serverStep, found]
          exact .pure current
      | some row =>
          simp only [serverStep, found]
          refine .emit (alwaysFrom_forall.mpr fun _ _ => trivial) fun undisturbed => ?_
          rw [always_append] at undisturbed
          exact (current undisturbed.1).read found
  | save r =>
      cases held : s.copies r with
      | none =>
          simp only [serverStep, held]
          exact .pure current
      | some copy =>
          simp only [serverStep, held]
          refine .emit (alwaysFrom_forall.mpr fun _ _ => trivial) fun undisturbed => ?_
          rw [always_append, alwaysFrom_cons] at undisturbed
          refine (current undisturbed.1).save held ?_
          have here := undisturbed.2.1
          cases request : requests r with
          | ticket lock =>
              rw [request] at here
              exact here
          | rename lock name =>
              rw [request] at here
              exact here

/-- **Ticket nonces strictly increase** in the order of the saves, on every schedule of any number of
ticket and rename requests on which no ticket is issued between the read and the save of another
request for the same lock. -/
theorem nonces_rise (requests : Nat → Request) (table : Nat → Option EsloqRow)
    (schedule : List Access)
    (undisturbed : Always Undisturbed
      (run (serverStep requests) schedule (restingRows table)).events) (lock : Nat) :
    (issuedNonces lock (run (serverStep requests) schedule (restingRows table)).events).Pairwise
      (· < ·) := by
  have resting : CurrentIf requests [] (restingRows table) := by
    refine fun _ => ⟨fun r copy held _ => ?_, fun lock row _ nonce member => ?_,
      fun lock => List.Pairwise.nil⟩
    · cases held
    · cases member
  have holds : (run (serverStep requests) schedule (restingRows table)).Holds (CurrentIf requests)
      (fun _ _ => True) (fun _ _ => True) [] :=
    Sound.run (fun access _ => serverStep_current requests access) [] _ resting
  have ok : (run (serverStep requests) schedule (restingRows table)).fault = none := by
    cases faulted : (run (serverStep requests) schedule (restingRows table)).fault with
    | none => rfl
    | some fault => cases fault
  exact (holds.keeps ok undisturbed).rising lock

/-- Two ticket requests that both read the row before either saves it. -/
def racingTickets : List Access := [.read 0, .read 1, .save 0, .save 1]

/-- A rename that reads the row before a ticket request and saves it after it, and a second ticket
request. -/
def racingRename : List Access := [.read 2, .read 0, .save 0, .save 2, .read 1, .save 1]

/-- Requests 0 and 1 are for tickets, the others rename the lock. -/
def sampleRequests (r : Nat) : Request := if r < 2 then .ticket 1 else .rename 1 (some "door")

/-- One new lock with the id 1. -/
def sampleTable (lock : Nat) : Option EsloqRow :=
  if lock = 1 then some ⟨1, "00:07:80:00:00:01", List.Vector.replicate 32 7, "lock", 0⟩ else none

/-- A rename that is saved while a ticket request is under way, and one within another ticket request. -/
def overlappingRenames : List Access :=
  [.read 2, .read 0, .save 2, .save 0, .read 1, .read 3, .save 3, .save 1]

/-- Requests that overlap without a ticket between a read and its save. -/
theorem nonces_rise_in_turn :
    issuedNonces 1
      (run (serverStep sampleRequests) overlappingRenames (restingRows sampleTable)).events = [1, 2] ∧
    ([1, 2] : List Nat).Pairwise (· < ·) := by
  have issued : issuedNonces 1
      (run (serverStep sampleRequests) overlappingRenames (restingRows sampleTable)).events = [1, 2] := by
    decide +kernel
  have rise := nonces_rise sampleRequests sampleTable overlappingRenames (by decide +kernel) 1
  rw [issued] at rise
  exact ⟨issued, rise⟩

/-- Two tickets under the nonce 1: once because both requests read 0, once because a rename writes 0
back. -/
theorem nonce_repeated :
    issuedNonces 1
      (run (serverStep sampleRequests) racingTickets (restingRows sampleTable)).events = [1, 1] ∧
    issuedNonces 1
      (run (serverStep sampleRequests) racingRename (restingRows sampleTable)).events = [1, 1] ∧
    ¬ ([1, 1] : List Nat).Nodup := by
  decide +kernel

end Esloq
