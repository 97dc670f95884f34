/-
**What the app lists (`LockDataContentProvider.java`, `LoaderProvider.java`).**

The provider answers the lists of the app by joins: the locks the user has an access on, the other users of a
lock, and the logs of a lock whose user is known.

* `queryLocks`, `queryLockUsers`, `queryLockLogs` — the rows of the three lists, with the columns of their
  loaders; `LockEntry.order` and the others are the orders the loaders ask for.
* `LocalDatabase.Lists` — what the lists show of a lock, and how often each log.
* `lists_after_fetches` — after any number of fetches of one snapshot the lists show what it says of its
  locks, and each log once for each fetch.
-/

import Esloq.App.ParseAndStore
import Esloq.Lib.Joins

namespace Esloq

open Keyed Machine

/-! ### The lists -/

/-- A row of `getLocksCursorLoader`. -/
structure LockEntry where
  mac : String
  name : Option String
  isAdmin : Bool
  deriving DecidableEq

/-- A row of `getLockUsersCursorLoader`. -/
structure UserEntry where
  id : Int32
  name : Option String
  validated : Bool
  isAdmin : Bool
  deriving DecidableEq

/-- A row of `getLockLogsCursorLoader`. -/
structure LogEntry where
  name : Option String
  timestamp : Int
  lockState : Bool
  deriving DecidableEq

/-- By name; a missing one comes first. -/
def LockEntry.order (first second : LockEntry) : Ordering := compare first.name second.name

/-- Admins first, then users who have validated, then by name. -/
def UserEntry.order (first second : UserEntry) : Ordering :=
  (compare second.isAdmin first.isAdmin).then
    ((compare second.validated first.validated).then (compare first.name second.name))

/-- The latest first. -/
def LogEntry.order (first second : LogEntry) : Ordering := compare second.timestamp first.timestamp

namespace LocalDatabase

variable (db : LocalDatabase) (userId : Int32) (mac : String)

/-- The query for `LOCKS`, of a user. -/
def queryLocks : List LockEntry :=
  ((innerJoin LockRow.mac AccessRow.lockMac db.locks db.accesses).filter fun pair =>
    pair.2.userId = userId).map fun pair => ⟨pair.1.mac, pair.1.name, pair.2.isAdmin⟩

/-- The query for `LOCKS_USERS`, of a user. -/
def queryLockUsers : List UserEntry :=
  ((innerJoin AccessRow.userId UserRow.id db.accesses db.users).filter fun pair =>
    pair.1.lockMac = mac ∧ pair.2.id ≠ userId).map fun pair =>
      ⟨pair.2.id, pair.2.name, pair.2.validated, pair.1.isAdmin⟩

/-- The query for `LOCKS_LOGS`. -/
def queryLockLogs : List LogEntry :=
  ((innerJoin LogRow.userId UserRow.id db.logs db.users).filter fun pair => pair.1.lockMac = mac).map
    fun pair => ⟨pair.2.name, pair.1.timestamp, pair.1.lockState⟩

end LocalDatabase

/-! ### What they show of a snapshot -/

def SnapshotUser.entry (user : SnapshotUser) : UserEntry :=
  ⟨user.id, some user.name, user.validated, user.isAdmin⟩

namespace SnapshotLock

variable (lock : SnapshotLock)

/-- The entry of the lock, if the user has an access. -/
def lockEntries (userId : Int32) : List LockEntry :=
  (lock.users.filter fun user => user.id = userId).map fun user => ⟨lock.mac, some lock.name, user.isAdmin⟩

/-- The entries of the other users. -/
def userEntries (userId : Int32) : List UserEntry :=
  (lock.users.filter fun user => user.id ≠ userId).map SnapshotUser.entry

/-- The entries of the logs whose user is known. -/
def logEntries (users : List UserRow) : List LogEntry :=
  lock.logs.filterMap fun log =>
    (lookup UserRow.id log.userId users).map fun user => ⟨user.name, log.timestamp, log.lockState⟩

end SnapshotLock

/-- What the lists of a user show of a lock, with each log a number of times. -/
structure LocalDatabase.Lists (db : LocalDatabase) (userId : Int32) (lock : SnapshotLock) (times : ℕ) :
    Prop where
  locks : ∀ cursor, SortedAnswer LockEntry.order (db.queryLocks userId) cursor →
    (cursor.filter fun entry => entry.mac = lock.mac).Perm (lock.lockEntries userId)
  users : ∀ cursor, SortedAnswer UserEntry.order (db.queryLockUsers userId lock.mac) cursor ↔
    SortedAnswer UserEntry.order (lock.userEntries userId) cursor
  logs : ∀ cursor, SortedAnswer LogEntry.order (db.queryLockLogs lock.mac) cursor ↔
    SortedAnswer LogEntry.order (List.replicate times (lock.logEntries db.users)).flatten cursor

namespace LocalDatabase.Shows

variable {db : LocalDatabase} {lock : SnapshotLock} (shows' : db.Shows lock)

include shows'

theorem filter_locks : (db.locks.filter fun row => row.mac = lock.mac) = [lock.row] := by
  rw [filter_eq_lookup db.lockKeys, shows'.row]
  rfl

theorem mem_accesses {access : AccessRow} (ofLock : access.lockMac = lock.mac) :
    access ∈ db.accesses ↔ access ∈ lock.accesses := by
  constructor
  · intro stored
    obtain ⟨user, known, named⟩ := List.mem_map.mp (db.accessUsers access stored)
    obtain ⟨mac, id, isAdmin⟩ := access
    obtain rfl : mac = lock.mac := ofLock
    obtain rfl : user.id = id := named
    obtain ⟨entry, inside, rfl, rfl⟩ := (shows'.users user isAdmin).mp ⟨stored, known⟩
    exact List.mem_map_of_mem inside
  · intro listed
    obtain ⟨entry, inside, rfl⟩ := List.mem_map.mp listed
    exact ((shows'.users entry.row entry.isAdmin).mpr ⟨entry, inside, rfl, rfl⟩).1

/-- The accesses on the lock are those of the snapshot. -/
theorem filter_accesses (ids : (lock.users.map SnapshotUser.id).Nodup) :
    (db.accesses.filter fun access => access.lockMac = lock.mac).Perm lock.accesses := by
  have distinct : lock.accesses.Nodup := by
    refine List.Nodup.of_map AccessRow.userId ?_
    unfold SnapshotLock.accesses
    rw [List.map_map]
    exact ids
  refine (List.perm_ext_iff_of_nodup (db.accessKeys.of_map.filter _) distinct).mpr fun access => ?_
  rw [List.mem_filter, decide_eq_true_iff]
  constructor
  · rintro ⟨stored, ofLock⟩
    exact (shows'.mem_accesses ofLock).mp stored
  · intro listed
    have ofLock := Snapshot.lockMac_of_mem listed
    exact ⟨(shows'.mem_accesses ofLock).mpr listed, ofLock⟩

theorem lookup_user {entry : SnapshotUser} (inside : entry ∈ lock.users) :
    lookup UserRow.id entry.id db.users = some entry.row :=
  (lookup_eq_some db.userKeys).mpr ⟨((shows'.users entry.row entry.isAdmin).mpr ⟨entry, inside, rfl, rfl⟩).2, rfl⟩

/-- The accesses on the lock with their users. -/
theorem innerJoin_accesses :
    innerJoin AccessRow.userId UserRow.id lock.accesses db.users =
      lock.users.map fun user => (user.access lock.mac, user.row) := by
  rw [innerJoin_eq_filterMap db.userKeys]
  unfold SnapshotLock.accesses
  rw [List.filterMap_map, ← List.filterMap_eq_map]
  refine List.filterMap_congr fun user inside => ?_
  show ((lookup UserRow.id user.id db.users).map fun row => (user.access lock.mac, row)) = _
  rw [shows'.lookup_user inside]
  rfl

theorem queryLocks (ids : (lock.users.map SnapshotUser.id).Nodup) (userId : Int32) :
    ((db.queryLocks userId).filter fun entry => entry.mac = lock.mac).Perm (lock.lockEntries userId) := by
  let condition (pair : LockRow × AccessRow) : Bool := pair.2.userId = userId
  let entry (pair : LockRow × AccessRow) : LockEntry := ⟨pair.1.mac, pair.1.name, pair.2.isAdmin⟩
  have rows : ((db.queryLocks userId).filter fun entry => entry.mac = lock.mac) =
      ((innerJoin LockRow.mac AccessRow.lockMac [lock.row] db.accesses).filter condition).map entry := by
    show (List.map entry (List.filter condition _)).filter _ = _
    rw [List.filter_map, List.filter_comm, ← shows'.filter_locks]
    congr 2
    exact filter_innerJoin fun row : LockRow => row.mac = lock.mac
  have joined : innerJoin LockRow.mac AccessRow.lockMac [lock.row] db.accesses =
      (db.accesses.filter fun access => access.lockMac = lock.mac).map fun access => (lock.row, access) :=
    List.append_nil _
  have entries : ((lock.accesses.map fun access => (lock.row, access)).filter condition).map entry =
      lock.lockEntries userId := by
    unfold SnapshotLock.accesses SnapshotLock.lockEntries
    rw [List.map_map, List.filter_map, List.map_map]
    rfl
  rw [rows, joined, ← entries]
  exact (((shows'.filter_accesses ids).map _).filter condition).map entry

theorem queryLockUsers (ids : (lock.users.map SnapshotUser.id).Nodup) (userId : Int32) :
    (db.queryLockUsers userId lock.mac).Perm (lock.userEntries userId) := by
  let other (pair : AccessRow × UserRow) : Bool := pair.2.id ≠ userId
  let entry (pair : AccessRow × UserRow) : UserEntry :=
    ⟨pair.2.id, pair.2.name, pair.2.validated, pair.1.isAdmin⟩
  have rows : db.queryLockUsers userId lock.mac = ((innerJoin AccessRow.userId UserRow.id
      (db.accesses.filter fun access => access.lockMac = lock.mac) db.users).filter other).map entry := by
    rw [← filter_innerJoin, List.filter_filter]
    unfold LocalDatabase.queryLockUsers
    congr 2
    funext pair
    rw [Bool.decide_and, Bool.and_comm]
  have entries : ((lock.users.map fun user => (user.access lock.mac, user.row)).filter other).map entry =
      lock.userEntries userId := by
    unfold SnapshotLock.userEntries
    rw [List.filter_map, List.map_map]
    rfl
  rw [rows, ← entries, ← shows'.innerJoin_accesses]
  exact ((perm_innerJoin (shows'.filter_accesses ids)).filter other).map entry

end LocalDatabase.Shows

/-- The rows of the third list, over the logs of the lock. -/
theorem LocalDatabase.queryLockLogs_eq (db : LocalDatabase) (mac : String) :
    db.queryLockLogs mac = (db.logs.filter fun log => log.lockMac = mac).filterMap fun log =>
      (lookup UserRow.id log.userId db.users).map fun user => ⟨user.name, log.timestamp, log.lockState⟩ := by
  unfold queryLockLogs
  rw [filter_innerJoin fun log : LogRow => log.lockMac = mac, innerJoin_eq_filterMap db.userKeys,
    List.map_filterMap]
  refine List.filterMap_congr fun log _ => ?_
  rw [Option.map_map]
  rfl

theorem SnapshotLock.filterMap_logRows (lock : SnapshotLock) (users : List UserRow) :
    (lock.logRows.filterMap fun log => (lookup UserRow.id log.userId users).map fun user =>
      (⟨user.name, log.timestamp, log.lockState⟩ : LogEntry)) = lock.logEntries users := by
  unfold SnapshotLock.logRows SnapshotLock.logEntries
  rw [List.filterMap_map]
  rfl

/-! ### Fetches -/

section Fetches

variable {J : Type} {java : JavaText} {json : OrgJson J} {jsonObject : J} {snapshot : Snapshot}

/-- Later fetches add the logs and nothing else. -/
structure Snapshot.StoredAgain (snapshot : Snapshot) (n : ℕ) (once later : LocalDatabase) : Prop where
  locks : later.locks = once.locks
  users : later.users = once.users
  accesses : later.accesses = once.accesses
  logs : later.logs = once.logs ++ (List.replicate n snapshot.logRows).flatten

theorem storedAgain_fetches (read : readSnapshot java json jsonObject = some snapshot) (data : LocalData)
    (n : ℕ) :
    let fetch := (DataInput.parseAndStore jsonObject).step java json
    snapshot.StoredAgain n (fetch data).db (fetch^[n] (fetch data)).db := by
  intro fetch
  have first : snapshot.StoredIn data.db (fetch data).db := storedIn_parseAndStore read data
  induction n with
  | zero => exact ⟨rfl, rfl, rfl, (List.append_nil _).symm⟩
  | succ n before =>
      have next := storedIn_parseAndStore read (fetch^[n] (fetch data))
      rw [Function.iterate_succ_apply']
      refine ⟨?_, ?_, ?_, ?_⟩
      · rw [next.locks, before.locks, first.locks, insertAll_insertAll]
      · rw [next.users, before.users, first.users, insertAll_insertAll]
      · rw [next.accesses, before.accesses, first.accesses, insertAll_insertAll]
      · rw [next.logs, before.logs, List.append_assoc, List.replicate_succ', List.flatten_append,
          List.flatten_singleton]

theorem userId_parseAndStore (read : readSnapshot java json jsonObject = some snapshot) (data : LocalData) :
    ((DataInput.parseAndStore jsonObject).step java json data).userId = snapshot.userId := by
  obtain ⟨userId, found, read⟩ := Option.bind_eq_some_iff.mp read
  obtain ⟨jsonLocks, -, read⟩ := Option.bind_eq_some_iff.mp read
  obtain ⟨locks, -, read⟩ := Option.bind_eq_some_iff.mp read
  rw [← Option.some.inj read]
  show (json.getInt jsonObject "userId").getD data.userId = userId
  rw [found]
  rfl

namespace Snapshot.StoredAgain

variable {n : ℕ} {once later : LocalDatabase} (again : snapshot.StoredAgain n once later)
  {lock : SnapshotLock}

include again

theorem filter_logs (well : snapshot.WellFormed) (member : lock ∈ snapshot.locks) (shows' : once.Shows lock) :
    (later.logs.filter fun log => log.lockMac = lock.mac).Perm (List.replicate (n + 1) lock.logRows).flatten := by
  have added : ((List.replicate n snapshot.logRows).flatten.filter fun log => log.lockMac = lock.mac) =
      (List.replicate n lock.logRows).flatten := by
    rw [List.filter_flatten, List.map_replicate, well.filter_logRows member]
  rw [again.logs, List.filter_append, added, List.replicate_succ, List.flatten_cons]
  exact shows'.logs.append_right _

theorem queryLockLogs (well : snapshot.WellFormed) (member : lock ∈ snapshot.locks)
    (shows' : once.Shows lock) : (later.queryLockLogs lock.mac).Perm
      (List.replicate (n + 1) (lock.logEntries later.users)).flatten := by
  rw [LocalDatabase.queryLockLogs_eq, ← lock.filterMap_logRows, ← List.map_replicate, ← List.filterMap_flatten]
  exact (again.filter_logs well member shows').filterMap _

/-- The lists after the first fetch and later ones. -/
theorem lists (well : snapshot.WellFormed) (member : lock ∈ snapshot.locks) (shows' : once.Shows lock)
    (userId : Int32) : later.Lists userId lock (n + 1) := by
  have ids := well.ids lock member
  have sameLocks : later.queryLocks userId = once.queryLocks userId := by
    unfold LocalDatabase.queryLocks
    rw [again.locks, again.accesses]
  have sameUsers : later.queryLockUsers userId lock.mac = once.queryLockUsers userId lock.mac := by
    unfold LocalDatabase.queryLockUsers
    rw [again.users, again.accesses]
  refine ⟨fun cursor answer => ?_, sortedAnswer_congr ?_, sortedAnswer_congr ?_⟩
  · rw [sameLocks] at answer
    exact (answer.perm.filter _).trans (shows'.queryLocks ids userId)
  · rw [sameUsers]
    exact shows'.queryLockUsers ids userId
  · exact again.queryLockLogs well member shows'

end Snapshot.StoredAgain

/-- **After any number of fetches of a snapshot the lists show what it says**: a lock of the snapshot is
listed exactly if the user has an access, with it all its other users, and each log whose user is known as
often as it was fetched. -/
theorem lists_after_fetches (java : JavaText) (json : OrgJson J) (jsonObject : J) (snapshot : Snapshot)
    (read : readSnapshot java json jsonObject = some snapshot) (well : snapshot.WellFormed) (data : LocalData)
    (lock : SnapshotLock) (member : lock ∈ snapshot.locks) (fits : data.db.Compatible lock) (n : ℕ) :
    let later := ((DataInput.parseAndStore jsonObject).step java json)^[n + 1] data
    later.userId = snapshot.userId ∧ later.db.Lists snapshot.userId lock (n + 1) := by
  intro later
  have first : snapshot.StoredIn data.db ((DataInput.parseAndStore jsonObject).step java json data).db :=
    storedIn_parseAndStore read data
  constructor
  · show (((DataInput.parseAndStore jsonObject).step java json)^[n + 1] data).userId = _
    rw [Function.iterate_succ_apply']
    exact userId_parseAndStore read _
  · exact (storedAgain_fetches read data n).lists well member (first.shows well member fits) snapshot.userId

end Fetches

/-! ### A shared lock -/

/-- A lock of user 7 and a guest, with a log of the guest and one of a user that the snapshot does not name. -/
def sharedLock : SnapshotLock where
  mac := "00:07:80:7E:C0:01"
  name := "door"
  lockClockwise := true
  users := [⟨7, "me", true, true⟩, ⟨8, "guest", false, false⟩]
  logs := [⟨8, true, 1000⟩, ⟨9, false, 2000⟩]

/-- The snapshot with this lock, as JSON. -/
def sharedSnapshot : JsonValue :=
  .object [("userId", .number 7), ("locks", .array [.object [("lockMac", .text "00:07:80:7E:C0:01"),
    ("name", .text "door"), ("lockClockwise", .boolean true),
    ("users", .array [
      .object [("userId", .number 7), ("name", .text "me"), ("validated", .boolean true),
        ("isAdmin", .boolean true)],
      .object [("userId", .number 8), ("name", .text "guest"), ("validated", .boolean false),
        ("isAdmin", .boolean false)]]),
    ("logs", .array [
      .object [("userId", .number 8), ("lockState", .boolean true), ("timestamp", .number 1000)],
      .object [("userId", .number 9), ("lockState", .boolean false), ("timestamp", .number 2000)]])]])]

theorem read_sharedSnapshot :
    readSnapshot asciiText JsonValue.accessors sharedSnapshot = some ⟨7, [sharedLock]⟩ := by
  decide +kernel

theorem sharedLock_wellFormed : Snapshot.WellFormed ⟨7, [sharedLock]⟩ := by
  refine ⟨List.nodup_singleton _, ?_, ?_⟩
  · decide
  · decide

/-- A second fetch shows the log of the guest twice. -/
theorem lists_after_two_fetches :
    let later := ((DataInput.parseAndStore sharedSnapshot).step asciiText JsonValue.accessors)^[2] ⟨-1, .empty⟩
    later.userId = 7 ∧ later.db.Lists 7 sharedLock 2 :=
  lists_after_fetches asciiText JsonValue.accessors sharedSnapshot ⟨7, [sharedLock]⟩ read_sharedSnapshot
    sharedLock_wellFormed ⟨-1, .empty⟩ sharedLock (List.mem_singleton_self _)
    ⟨nofun, nofun, fun _ _ => nofun, nofun⟩ 1

example : sharedLock.userEntries 7 = [⟨8, some "guest", false, false⟩] := by decide

end Esloq
