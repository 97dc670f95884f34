/-
**What a fetch leaves in the database (`LockDataRepositoryImpl.java`, `LockDataContentProvider.java`).**

`parseAndStore` stores a snapshot by inserts. Locks and users that are there are kept as they are, an access
that is there makes its insert fail, and a log is always added.

* `Snapshot` — what a snapshot says: its locks, each with its users and logs. `readSnapshot` is what the
  accessors find in a JSON object where no field is missing.
* `storeLocks_of_read` — the statements that a snapshot executes.
* `Snapshot.StoredIn` — rows with a free key and all logs are added, and nothing else changes.
* `LocalDatabase.Shows` — what is stored for a lock is what the snapshot says of it;
  `LocalDatabase.Compatible` — nothing that was stored before contradicts it.
* `parseAndStore_adds` — the result of a first and of a second fetch, from any tables.
-/

import Esloq.App.SignOut

namespace Esloq

open Keyed Machine Prefixes

/-! ### Snapshots -/

/-- A user of a lock. -/
structure SnapshotUser where
  id : Int32
  name : String
  validated : Bool
  isAdmin : Bool
  deriving DecidableEq

/-- A log of a lock. -/
structure SnapshotLog where
  userId : Int32
  lockState : Bool
  timestamp : Int
  deriving DecidableEq

/-- A lock; its MAC address is in upper case. -/
structure SnapshotLock where
  mac : String
  name : String
  lockClockwise : Bool
  users : List SnapshotUser
  logs : List SnapshotLog
  deriving DecidableEq

/-- What a snapshot says. -/
structure Snapshot where
  userId : Int32
  locks : List SnapshotLock
  deriving DecidableEq

def SnapshotUser.row (user : SnapshotUser) : UserRow := ⟨user.id, some user.name, user.validated⟩

def SnapshotUser.access (mac : String) (user : SnapshotUser) : AccessRow := ⟨mac, user.id, user.isAdmin⟩

def SnapshotLog.row (mac : String) (log : SnapshotLog) : LogRow :=
  ⟨mac, log.userId, log.lockState, log.timestamp⟩

namespace SnapshotLock

variable (lock : SnapshotLock)

def row : LockRow := ⟨lock.mac, some lock.name, lock.lockClockwise⟩

def accesses : List AccessRow := lock.users.map (SnapshotUser.access lock.mac)

def logRows : List LogRow := lock.logs.map (SnapshotLog.row lock.mac)

/-- The statements that store a lock. -/
def statements : List Statement :=
  .insertLock lock.row ::
    (lock.users.flatMap (fun user => [.insertUser user.row, .insertAccess (user.access lock.mac)]) ++
      lock.logRows.map .insertLog)

end SnapshotLock

namespace Snapshot

variable (snapshot : Snapshot)

def lockRows : List LockRow := snapshot.locks.map SnapshotLock.row

def userRows : List UserRow := snapshot.locks.flatMap fun lock => lock.users.map SnapshotUser.row

def accesses : List AccessRow := snapshot.locks.flatMap SnapshotLock.accesses

def logRows : List LogRow := snapshot.locks.flatMap SnapshotLock.logRows

def statements : List Statement := snapshot.locks.flatMap SnapshotLock.statements

/-- A lock is there once, a user once with each lock, and with the same name and flag with all of them. -/
structure WellFormed : Prop where
  macs : (snapshot.locks.map SnapshotLock.mac).Nodup
  ids : ∀ lock ∈ snapshot.locks, (lock.users.map SnapshotUser.id).Nodup
  users : ∀ lock ∈ snapshot.locks, ∀ other ∈ snapshot.locks, ∀ user ∈ lock.users, ∀ same ∈ other.users,
    user.id = same.id → user.row = same.row

end Snapshot

/-! ### Reading a snapshot -/

section Read

variable {J : Type} (java : JavaText) (json : OrgJson J)

def readUser (jsonUser : J) : Option SnapshotUser := do
  let text ← json.getString jsonUser "userId"
  let userId ← java.integerValueOf text
  let name ← json.getString jsonUser "name"
  let validated ← json.getBoolean jsonUser "validated"
  let isAdmin ← json.getBoolean jsonUser "isAdmin"
  return ⟨userId, name, validated, isAdmin⟩

def readLog (jsonLog : J) : Option SnapshotLog := do
  let userId ← json.getInt jsonLog "userId"
  let lockState ← json.getBoolean jsonLog "lockState"
  let timestamp ← json.getLong jsonLog "timestamp"
  return ⟨userId, lockState, timestamp⟩

def readLock (jsonLock : J) : Option SnapshotLock := do
  let text ← json.getString jsonLock "lockMac"
  let jsonUsers ← json.getJSONArray jsonLock "users"
  let name ← json.getString jsonLock "name"
  let lockClockwise ← json.getBoolean jsonLock "lockClockwise"
  let users ← jsonUsers.mapM (· >>= readUser java json)
  let jsonLogs ← json.getJSONArray jsonLock "logs"
  let logs ← jsonLogs.mapM (· >>= readLog json)
  return ⟨java.toUpperCase text, name, lockClockwise, users, logs⟩

/-- What a snapshot says, if no field of it is missing. -/
def readSnapshot (jsonObject : J) : Option Snapshot := do
  let userId ← json.getInt jsonObject "userId"
  let jsonLocks ← json.getJSONArray jsonObject "locks"
  let locks ← jsonLocks.mapM (· >>= readLock java json)
  return ⟨userId, locks⟩

/-! ### The statements of a snapshot -/

variable {java json}

/-- The statements of the elements of an array, one after the other. -/
theorem run_of_mapM {β : Type} {store : Option J → Unit → Script} {read : J → Option β}
    {statements : β → List Statement}
    (each : ∀ element value, read element = some value →
      store (some element) () = .emit () (statements value))
    {elements : List (Option J)} {values : List β} (found : elements.mapM (· >>= read) = some values) :
    run store elements () = .emit () (values.flatMap statements) := by
  induction elements generalizing values with
  | nil =>
      rw [List.mapM_nil] at found
      rw [← Option.some.inj found]
      rfl
  | cons element elements later =>
      rw [List.mapM_cons] at found
      obtain ⟨value, first, tail⟩ := Option.bind_eq_some_iff.mp found
      obtain ⟨others, rest, both⟩ := Option.bind_eq_some_iff.mp tail
      obtain ⟨json, rfl, ofJson⟩ := Option.bind_eq_some_iff.mp first
      rw [run_cons, each json value ofJson, Turn.emit_andThen, later rest, ← Option.some.inj both]
      rfl

theorem storeUser_of_read (mac : String) (jsonUser : J) (user : SnapshotUser)
    (read : readUser java json jsonUser = some user) :
    storeUser java json mac (some jsonUser) =
      .emit () [.insertUser user.row, .insertAccess (user.access mac)] := by
  obtain ⟨text, userId, read⟩ := Option.bind_eq_some_iff.mp read
  obtain ⟨id, number, read⟩ := Option.bind_eq_some_iff.mp read
  obtain ⟨name, named, read⟩ := Option.bind_eq_some_iff.mp read
  obtain ⟨validated, flag, read⟩ := Option.bind_eq_some_iff.mp read
  obtain ⟨isAdmin, admin, read⟩ := Option.bind_eq_some_iff.mp read
  rw [← Option.some.inj read]
  simp only [storeUser, orThrow, userId, number, named, flag, admin]
  rfl

theorem storeLog_of_read (mac : String) (jsonLog : J) (log : SnapshotLog)
    (read : readLog json jsonLog = some log) :
    storeLog java json mac (some jsonLog) = .emit () [.insertLog (log.row (java.toUpperCase mac))] := by
  obtain ⟨id, userId, read⟩ := Option.bind_eq_some_iff.mp read
  obtain ⟨lockState, flag, read⟩ := Option.bind_eq_some_iff.mp read
  obtain ⟨timestamp, time, read⟩ := Option.bind_eq_some_iff.mp read
  rw [← Option.some.inj read]
  simp only [storeLog, orThrow, userId, flag, time]
  rfl

theorem storeLock_of_read (jsonLock : J) (lock : SnapshotLock)
    (read : readLock java json jsonLock = some lock) :
    storeLock java json (some jsonLock) = .emit () lock.statements := by
  obtain ⟨text, mac, read⟩ := Option.bind_eq_some_iff.mp read
  obtain ⟨jsonUsers, usersThere, read⟩ := Option.bind_eq_some_iff.mp read
  obtain ⟨name, named, read⟩ := Option.bind_eq_some_iff.mp read
  obtain ⟨lockClockwise, orientation, read⟩ := Option.bind_eq_some_iff.mp read
  obtain ⟨users, readUsers, read⟩ := Option.bind_eq_some_iff.mp read
  obtain ⟨jsonLogs, logsThere, read⟩ := Option.bind_eq_some_iff.mp read
  obtain ⟨logs, readLogs, read⟩ := Option.bind_eq_some_iff.mp read
  rw [← Option.some.inj read]
  let lockMac := java.toUpperCase text
  have storedUsers : run (fun jsonUser _ => storeUser java json lockMac jsonUser) jsonUsers () = .emit () _ :=
    run_of_mapM (storeUser_of_read lockMac) readUsers
  have storedLogs : run (fun jsonLog _ => storeLog java json lockMac jsonLog) jsonLogs () = .emit () _ :=
    run_of_mapM (storeLog_of_read lockMac) readLogs
  simp only [lockMac, java.toUpperCase_idem] at storedUsers storedLogs
  simp only [storeLock, orThrow, mac, usersThere, named, orientation, logsThere, Option.map_some, storedUsers,
    storedLogs, LocalDataServiceApi.addLock, Turn.emit_andThen, java.toUpperCase_idem]
  unfold SnapshotLock.statements SnapshotLock.logRows
  rw [List.map_map, List.map_eq_flatMap]
  rfl

/-- **A snapshot without a missing field is stored by its statements.** -/
theorem storeLocks_of_read {jsonObject : J} {snapshot : Snapshot}
    (read : readSnapshot java json jsonObject = some snapshot) :
    storeLocks java json jsonObject = .emit () snapshot.statements := by
  obtain ⟨userId, -, read⟩ := Option.bind_eq_some_iff.mp read
  obtain ⟨jsonLocks, locksThere, read⟩ := Option.bind_eq_some_iff.mp read
  obtain ⟨locks, readLocks, read⟩ := Option.bind_eq_some_iff.mp read
  rw [← Option.some.inj read]
  have stored : run (fun jsonLock _ => storeLock java json jsonLock) jsonLocks () = .emit () _ :=
    run_of_mapM storeLock_of_read readLocks
  simp only [storeLocks, orThrow, locksThere, stored]
  rfl

end Read

/-! ### The rows that are added -/

/-- A user that is inserted. -/
def Statement.userRow : Statement → Option UserRow
  | .insertUser row => some row
  | _ => none

/-- What statements that insert leave of the users. -/
theorem stored_users {statements : List Statement} (refers : Always Statement.Refers statements)
    (db : LocalDatabase) : (After Statement.execute statements db).users =
      insertAll UserRow.id (statements.filterMap Statement.userRow) db.users := by
  induction statements using List.reverseRecOn with
  | nil => rfl
  | append_singleton statements statement later =>
      obtain ⟨earlier, ⟨refers, -⟩⟩ := (always_append _ _ _).mp refers
      rw [after_append, List.filterMap_append]
      show (statement.execute _).users = _
      cases statement with
      | insertUser row =>
          show insertNew UserRow.id row _ = insertAll UserRow.id (_ ++ [row]) db.users
          rw [insertAll_concat, later earlier]
      | insertLock row =>
          rw [List.filterMap_cons_none rfl, List.filterMap_nil, List.append_nil]
          exact later earlier
      | insertAccess row =>
          rw [List.filterMap_cons_none rfl, List.filterMap_nil, List.append_nil, ← later earlier]
          exact LocalDatabase.insertAccess_users _ row
      | insertLog row =>
          rw [List.filterMap_cons_none rfl, List.filterMap_nil, List.append_nil, ← later earlier]
          exact LocalDatabase.insertLog_users _ row
      | _ => exact refers.elim

namespace SnapshotLock

variable (lock : SnapshotLock)

/-- The statements of a lock, by what they show. -/
theorem filterMap_statements {β : Type} (show' : Statement → Option β) :
    lock.statements.filterMap show' = (show' (.insertLock lock.row)).toList ++
      (lock.users.flatMap (fun user => (show' (.insertUser user.row)).toList ++
        (show' (.insertAccess (user.access lock.mac))).toList) ++
      lock.logRows.filterMap (show' ∘ .insertLog)) := by
  have each (statement : Statement) (others : List Statement) : (statement :: others).filterMap show' =
      (show' statement).toList ++ others.filterMap show' := by
    rw [List.filterMap_cons]
    cases show' statement <;> rfl
  unfold statements
  rw [each, List.filterMap_append, List.filterMap_flatMap, List.filterMap_map]
  simp only [each, List.filterMap_nil, List.append_nil]

end SnapshotLock

namespace Snapshot

variable (snapshot : Snapshot)

theorem filterMap_lockRow : snapshot.statements.filterMap Statement.lockRow = snapshot.lockRows := by
  unfold statements lockRows
  rw [List.filterMap_flatMap, List.map_eq_flatMap]
  refine List.flatMap_congr fun lock _ => ?_
  simp [SnapshotLock.filterMap_statements, Statement.lockRow, Function.comp_def]

theorem filterMap_userRow : snapshot.statements.filterMap Statement.userRow = snapshot.userRows := by
  unfold statements userRows
  rw [List.filterMap_flatMap]
  refine List.flatMap_congr fun lock _ => ?_
  simp [SnapshotLock.filterMap_statements, Statement.userRow, Function.comp_def, List.map_eq_flatMap]

theorem filterMap_accessRow : snapshot.statements.filterMap Statement.accessRow = snapshot.accesses := by
  unfold statements accesses
  rw [List.filterMap_flatMap]
  refine List.flatMap_congr fun lock _ => ?_
  simp [SnapshotLock.filterMap_statements, Statement.accessRow, SnapshotLock.accesses, Function.comp_def,
    List.map_eq_flatMap]

theorem filterMap_logRow : snapshot.statements.filterMap Statement.logRow = snapshot.logRows := by
  unfold statements logRows
  rw [List.filterMap_flatMap]
  refine List.flatMap_congr fun lock _ => ?_
  simp [SnapshotLock.filterMap_statements, Statement.logRow, Function.comp_def]

/-- What a snapshot leaves: the rows with a free key and all logs are added. -/
structure StoredIn (before after : LocalDatabase) : Prop where
  locks : after.locks = insertAll LockRow.mac snapshot.lockRows before.locks
  users : after.users = insertAll UserRow.id snapshot.userRows before.users
  accesses : after.accesses = insertAll AccessRow.key snapshot.accesses before.accesses
  logs : after.logs = before.logs ++ snapshot.logRows

end Snapshot

section Fetch

variable {J : Type} {java : JavaText} {json : OrgJson J} {jsonObject : J} {snapshot : Snapshot}

/-- The tables after a fetch. -/
theorem storedIn_parseAndStore (read : readSnapshot java json jsonObject = some snapshot) (data : LocalData) :
    snapshot.StoredIn data.db ((DataInput.parseAndStore jsonObject).step java json data).db := by
  have named : (json.getInt jsonObject "userId").isSome := by
    obtain ⟨userId, found, -⟩ := Option.bind_eq_some_iff.mp read
    rw [found]
    rfl
  have script : (DataInput.parseAndStore jsonObject).script java json data.userId =
      .emit () snapshot.statements := (if_pos named).trans (storeLocks_of_read read)
  have refers : Always Statement.Refers snapshot.statements := by
    have always := @refers_storeLocks J java json jsonObject
    rwa [storeLocks_of_read read] at always
  have db : ((DataInput.parseAndStore jsonObject).step java json data).db =
      After Statement.execute snapshot.statements data.db := by
    show After Statement.execute ((DataInput.parseAndStore jsonObject).script java json data.userId).events _ = _
    rw [script]
    rfl
  have stored := stored_tables refers data.db
  rw [db]
  refine ⟨?_, ?_, ?_, ?_⟩
  · rw [stored.locks, snapshot.filterMap_lockRow]
  · rw [stored_users refers, snapshot.filterMap_userRow]
  · rw [stored.accesses, snapshot.filterMap_accessRow]
  · rw [stored.logs, snapshot.filterMap_logRow]

end Fetch

/-! ### What is stored for a lock -/

/-- What is stored for a lock is what a snapshot says of it: its row, its users with their accesses, and its
logs in some order. -/
structure LocalDatabase.Shows (db : LocalDatabase) (lock : SnapshotLock) : Prop where
  row : lookup LockRow.mac lock.mac db.locks = some lock.row
  users : ∀ user isAdmin, (⟨lock.mac, user.id, isAdmin⟩ ∈ db.accesses ∧ user ∈ db.users) ↔
    ∃ entry ∈ lock.users, entry.row = user ∧ entry.isAdmin = isAdmin
  logs : (db.logs.filter fun log => log.lockMac = lock.mac).Perm lock.logRows

/-- Nothing that is stored contradicts what a snapshot says of a lock. -/
structure LocalDatabase.Compatible (db : LocalDatabase) (lock : SnapshotLock) : Prop where
  row : ∀ row ∈ db.locks, row.mac = lock.mac → row = lock.row
  accesses : ∀ access ∈ db.accesses, access.lockMac = lock.mac → access ∈ lock.accesses
  users : ∀ entry ∈ lock.users, ∀ user ∈ db.users, user.id = entry.id → user = entry.row
  logs : ∀ log ∈ db.logs, log.lockMac ≠ lock.mac

namespace Snapshot

variable {snapshot : Snapshot}

/-- Locks with the same MAC address are the same. -/
theorem WellFormed.lock_inj (well : snapshot.WellFormed) {lock other : SnapshotLock}
    (member : lock ∈ snapshot.locks) (member' : other ∈ snapshot.locks) (same : lock.mac = other.mac) :
    lock = other := List.inj_on_of_nodup_map well.macs member member' same

theorem WellFormed.lockRows_inj (well : snapshot.WellFormed) :
    ∀ a ∈ snapshot.lockRows, ∀ b ∈ snapshot.lockRows, a.mac = b.mac → a = b := by
  intro a inside b inside' same
  obtain ⟨lock, member, rfl⟩ := List.mem_map.mp inside
  obtain ⟨other, member', rfl⟩ := List.mem_map.mp inside'
  rw [well.lock_inj member member' same]

theorem mem_userRows {user : UserRow} :
    user ∈ snapshot.userRows ↔ ∃ lock ∈ snapshot.locks, ∃ entry ∈ lock.users, entry.row = user := by
  unfold userRows
  simp only [List.mem_flatMap, List.mem_map]

theorem mem_accesses {access : AccessRow} :
    access ∈ snapshot.accesses ↔ ∃ lock ∈ snapshot.locks, access ∈ lock.accesses := List.mem_flatMap

theorem WellFormed.userRows_inj (well : snapshot.WellFormed) :
    ∀ a ∈ snapshot.userRows, ∀ b ∈ snapshot.userRows, a.id = b.id → a = b := by
  intro a inside b inside' same
  obtain ⟨lock, member, entry, listed, rfl⟩ := mem_userRows.mp inside
  obtain ⟨other, member', entry', listed', rfl⟩ := mem_userRows.mp inside'
  exact well.users lock member other member' entry listed entry' listed' same

/-- The access of a user of a lock. -/
theorem WellFormed.access_inj (well : snapshot.WellFormed) {lock : SnapshotLock}
    (member : lock ∈ snapshot.locks) {a b : AccessRow} (inside : a ∈ lock.accesses) (inside' : b ∈ lock.accesses)
    (same : a.userId = b.userId) : a = b := by
  obtain ⟨entry, listed, rfl⟩ := List.mem_map.mp inside
  obtain ⟨other, listed', rfl⟩ := List.mem_map.mp inside'
  rw [List.inj_on_of_nodup_map (well.ids lock member) listed listed' same]

theorem lockMac_of_mem {lock : SnapshotLock} {access : AccessRow} (inside : access ∈ lock.accesses) :
    access.lockMac = lock.mac := by
  obtain ⟨entry, -, rfl⟩ := List.mem_map.mp inside
  rfl

/-- The accesses of a lock are those that the snapshot lists with it. -/
theorem WellFormed.mem_accesses_iff (well : snapshot.WellFormed) {lock : SnapshotLock}
    (member : lock ∈ snapshot.locks) {access : AccessRow} (ofLock : access.lockMac = lock.mac) :
    access ∈ snapshot.accesses ↔ access ∈ lock.accesses := by
  refine ⟨fun inside => ?_, fun inside => mem_accesses.mpr ⟨lock, member, inside⟩⟩
  obtain ⟨other, member', listed⟩ := mem_accesses.mp inside
  rwa [well.lock_inj member member' (ofLock.symm.trans (lockMac_of_mem listed))]

theorem WellFormed.accesses_inj (well : snapshot.WellFormed) :
    ∀ a ∈ snapshot.accesses, ∀ b ∈ snapshot.accesses, a.key = b.key → a = b := by
  intro a inside b inside' same
  obtain ⟨sameMac, sameId⟩ := Prod.mk.inj same
  obtain ⟨lock, member, listed⟩ := mem_accesses.mp inside
  have ofLock := lockMac_of_mem listed
  exact well.access_inj member listed
    ((well.mem_accesses_iff member (sameMac.symm.trans ofLock)).mp inside') sameId

/-- The logs of a lock are those that the snapshot lists with it. -/
theorem WellFormed.filter_logRows (well : snapshot.WellFormed) {lock : SnapshotLock}
    (member : lock ∈ snapshot.locks) :
    (snapshot.logRows.filter fun log => log.lockMac = lock.mac) = lock.logRows := by
  have own (other : SnapshotLock) : (other.logRows.filter fun log => log.lockMac = lock.mac) =
      if other.mac = lock.mac then other.logRows else [] := by
    unfold SnapshotLock.logRows
    rw [List.filter_map]
    by_cases same : other.mac = lock.mac
    · rw [if_pos same]
      simp [Function.comp_def, SnapshotLog.row, same]
    · rw [if_neg same]
      simp [Function.comp_def, SnapshotLog.row, same]
  obtain ⟨before, after, split⟩ := List.append_of_mem member
  have macs := well.macs
  have apart : ∀ other ∈ before ++ after, other.mac ≠ lock.mac := by
    rw [split, List.map_append, List.map_cons, List.nodup_middle, List.nodup_cons, ← List.map_append] at macs
    exact fun other inside same => macs.1 (List.mem_map.mpr ⟨other, inside, same⟩)
  have others (list : List SnapshotLock) (apart : ∀ other ∈ list, other.mac ≠ lock.mac) :
      (list.flatMap fun other => if other.mac = lock.mac then other.logRows else []) = [] := by
    rw [List.flatMap_eq_nil_iff]
    exact fun other inside => if_neg (apart other inside)
  unfold logRows
  rw [List.filter_flatMap, split]
  simp only [own]
  rw [List.flatMap_append, List.flatMap_cons, if_pos rfl,
    others before fun other inside => apart other (List.mem_append_left after inside),
    others after fun other inside => apart other (List.mem_append_right before inside), List.nil_append,
    List.append_nil]

variable {before after : LocalDatabase}

/-- A compatible lock is stored as the snapshot says. -/
theorem StoredIn.shows (stored : snapshot.StoredIn before after) (well : snapshot.WellFormed)
    {lock : SnapshotLock} (member : lock ∈ snapshot.locks) (fits : before.Compatible lock) :
    after.Shows lock := by
  have mem_users (user : UserRow) : user ∈ after.users ↔ user ∈ before.users ∨
      user.id ∉ before.users.map UserRow.id ∧ user ∈ snapshot.userRows := by
    rw [stored.users, mem_insertAll_of_inj well.userRows_inj]
  have mem_access (access : AccessRow) : access ∈ after.accesses ↔ access ∈ before.accesses ∨
      access.key ∉ before.accesses.map AccessRow.key ∧ access ∈ snapshot.accesses := by
    rw [stored.accesses, mem_insertAll_of_inj well.accesses_inj]
  refine ⟨?_, fun user isAdmin => ⟨?_, ?_⟩, ?_⟩
  · rw [lookup_eq_some after.lockKeys, stored.locks, mem_insertAll_of_inj well.lockRows_inj]
    refine ⟨?_, rfl⟩
    by_cases free : lock.mac ∈ before.locks.map LockRow.mac
    · obtain ⟨row, there, same⟩ := List.mem_map.mp free
      exact Or.inl (fits.row row there same ▸ there)
    · exact Or.inr ⟨free, List.mem_map_of_mem member⟩
  · rintro ⟨access, there⟩
    have listed : ⟨lock.mac, user.id, isAdmin⟩ ∈ lock.accesses := by
      rcases (mem_access _).mp access with old | ⟨-, new⟩
      · exact fits.accesses _ old rfl
      · exact (well.mem_accesses_iff member rfl).mp new
    obtain ⟨entry, inside, same⟩ := List.mem_map.mp listed
    obtain ⟨-, sameId, sameFlag⟩ := AccessRow.mk.injEq .. ▸ same
    refine ⟨entry, inside, ?_, sameFlag⟩
    rcases (mem_users user).mp there with old | ⟨-, new⟩
    · exact (fits.users entry inside user old sameId.symm).symm
    · exact well.userRows_inj _ (mem_userRows.mpr ⟨lock, member, entry, inside, rfl⟩) user new sameId
  · rintro ⟨entry, inside, rfl, rfl⟩
    have listed : entry.access lock.mac ∈ lock.accesses := List.mem_map_of_mem inside
    constructor
    · refine (mem_access _).mpr ?_
      by_cases free : (entry.access lock.mac).key ∈ before.accesses.map AccessRow.key
      · obtain ⟨access, there, same⟩ := List.mem_map.mp free
        obtain ⟨sameMac, sameId⟩ := Prod.mk.inj same
        have old := fits.accesses access there sameMac
        rw [well.access_inj member old listed sameId] at there
        exact Or.inl there
      · exact Or.inr ⟨free, mem_accesses.mpr ⟨lock, member, listed⟩⟩
    · refine (mem_users _).mpr ?_
      by_cases free : entry.row.id ∈ before.users.map UserRow.id
      · obtain ⟨user, there, same⟩ := List.mem_map.mp free
        exact Or.inl (fits.users entry inside user there same ▸ there)
      · exact Or.inr ⟨free, mem_userRows.mpr ⟨lock, member, entry, inside, rfl⟩⟩
  · have none' : (before.logs.filter fun log => log.lockMac = lock.mac) = [] :=
      List.filter_eq_nil_iff.mpr fun log there => by simpa using fits.logs log there
    rw [stored.logs, List.filter_append, none', well.filter_logRows member, List.nil_append]

/-- What is stored as the snapshot says was compatible with it. -/
theorem StoredIn.compatible (stored : snapshot.StoredIn before after) (well : snapshot.WellFormed)
    {lock : SnapshotLock} (member : lock ∈ snapshot.locks) (shows' : after.Shows lock) :
    before.Compatible lock := by
  have old_user {user : UserRow} (old : user ∈ before.users) : user ∈ after.users := by
    rw [stored.users]
    exact mem_insertAll.mpr (Or.inl old)
  refine ⟨fun row there same => ?_, fun access there ofLock => ?_, fun entry inside user there same => ?_, ?_⟩
  · have still : row ∈ after.locks := by
      rw [stored.locks]
      exact mem_insertAll.mpr (Or.inl there)
    have found := (lookup_eq_some after.lockKeys).mpr ⟨still, same⟩
    exact Option.some.inj (found.symm.trans shows'.row)
  · have still : access ∈ after.accesses := by
      rw [stored.accesses]
      exact mem_insertAll.mpr (Or.inl there)
    obtain ⟨user, known, named⟩ := List.mem_map.mp (after.accessUsers access still)
    obtain ⟨mac, id, isAdmin⟩ := access
    obtain rfl : mac = lock.mac := ofLock
    obtain rfl : user.id = id := named
    obtain ⟨entry, inside, rfl, rfl⟩ := (shows'.users user isAdmin).mp ⟨still, known⟩
    exact List.mem_map_of_mem inside
  · have listed := ((shows'.users entry.row entry.isAdmin).mpr ⟨entry, inside, rfl, rfl⟩).2
    exact List.inj_on_of_nodup_map after.userKeys (old_user there) listed same
  · intro log there ofLock
    have logs := shows'.logs.length_eq
    rw [stored.logs, List.filter_append, well.filter_logRows member, List.length_append] at logs
    have one : 0 < (before.logs.filter fun log => log.lockMac = lock.mac).length :=
      List.length_pos_of_mem (List.mem_filter.mpr ⟨there, decide_eq_true ofLock⟩)
    omega

/-- A second time only the logs are added. -/
theorem StoredIn.again {later : LocalDatabase} (first : snapshot.StoredIn before after)
    (second : snapshot.StoredIn after later) : later.locks = after.locks ∧ later.users = after.users ∧
      later.accesses = after.accesses ∧ later.logs = after.logs ++ snapshot.logRows := by
  refine ⟨?_, ?_, ?_, second.logs⟩
  · rw [second.locks, first.locks, insertAll_insertAll]
  · rw [second.users, first.users, insertAll_insertAll]
  · rw [second.accesses, first.accesses, insertAll_insertAll]

end Snapshot

/-- Tables are given by their rows. -/
theorem LocalDatabase.eq_of_rows {db other : LocalDatabase} (locks : db.locks = other.locks)
    (users : db.users = other.users) (accesses : db.accesses = other.accesses)
    (logs : db.logs = other.logs) : db = other := by
  cases db
  cases other
  congr

/-! ### A first and a second fetch -/

/-- **A fetch adds what is missing and every log; it leaves what the snapshot says of its locks exactly if
nothing stored contradicts it, and a second one changes nothing exactly if the snapshot has no logs.** -/
theorem parseAndStore_adds {J : Type} (java : JavaText) (json : OrgJson J) (jsonObject : J)
    (snapshot : Snapshot) (read : readSnapshot java json jsonObject = some snapshot)
    (well : snapshot.WellFormed) (data : LocalData) :
    let once := (DataInput.parseAndStore jsonObject).step java json data
    let twice := (DataInput.parseAndStore jsonObject).step java json once
    snapshot.StoredIn data.db once.db ∧
      ((∀ lock ∈ snapshot.locks, once.db.Shows lock) ↔ ∀ lock ∈ snapshot.locks, data.db.Compatible lock) ∧
      (twice.db.locks = once.db.locks ∧ twice.db.users = once.db.users ∧
        twice.db.accesses = once.db.accesses ∧ twice.db.logs = once.db.logs ++ snapshot.logRows) ∧
      (twice = once ↔ ∀ lock ∈ snapshot.locks, lock.logs = []) := by
  intro once twice
  have first : snapshot.StoredIn data.db once.db := storedIn_parseAndStore read data
  have second : snapshot.StoredIn once.db twice.db := storedIn_parseAndStore read once
  have again := first.again second
  refine ⟨first, ⟨fun shows' lock member => ?_, fun fits lock member => ?_⟩, again, ?_⟩
  · exact first.compatible well member (shows' lock member)
  · exact first.shows well member (fits lock member)
  · have noLogs : snapshot.logRows = [] ↔ ∀ lock ∈ snapshot.locks, lock.logs = [] := by
      unfold Snapshot.logRows SnapshotLock.logRows
      simp only [List.flatMap_eq_nil_iff, List.map_eq_nil_iff]
    rw [← noLogs]
    constructor
    · intro same
      have logs := again.2.2.2
      rw [same] at logs
      exact List.self_eq_append_right.mp logs
    · intro none'
      have logs := again.2.2.2
      rw [none', List.append_nil] at logs
      have db := LocalDatabase.eq_of_rows again.1 again.2.1 again.2.2.1 logs
      have id : twice.userId = once.userId := by
        show (json.getInt jsonObject "userId").getD ((json.getInt jsonObject "userId").getD data.userId) =
          (json.getInt jsonObject "userId").getD data.userId
        cases json.getInt jsonObject "userId" <;> rfl
      cases same : twice
      cases same' : once
      rw [same, same'] at db id
      rw [LocalData.mk.injEq]
      exact ⟨id, db⟩

/-- What `sampleSnapshot` says. -/
def sampleLocks (lockClockwise : Bool) : Snapshot :=
  ⟨7, [⟨"00:07:80:7E:C0:01", "door", lockClockwise, [⟨7, "me", true, true⟩], []⟩]⟩

theorem sampleLocks_wellFormed (lockClockwise : Bool) : (sampleLocks lockClockwise).WellFormed := by
  refine ⟨List.nodup_singleton _, fun lock member => ?_, ?_⟩
  · rw [List.mem_singleton.mp member]
    exact List.nodup_singleton _
  · intro lock member other member' user listed same listed' _
    rw [List.mem_singleton.mp member] at listed
    rw [List.mem_singleton.mp member'] at listed'
    rw [List.mem_singleton.mp listed, List.mem_singleton.mp listed']

theorem read_sampleSnapshot (lockClockwise : Bool) :
    readSnapshot asciiText JsonValue.accessors (sampleSnapshot "00:07:80:7E:C0:01" lockClockwise) =
      some (sampleLocks lockClockwise) := by
  revert lockClockwise
  decide +kernel

/-- A snapshot of user 7 with two locks, the first with a log, the second shared with user 8. -/
def twoLocks : JsonValue :=
  .object [("userId", .number 7), ("locks", .array
    [.object [("lockMac", .text "00:07:80:7e:c0:01"), ("name", .text "door"), ("lockClockwise", .boolean true),
      ("users", .array [.object [("userId", .number 7), ("name", .text "me"), ("validated", .boolean true),
        ("isAdmin", .boolean true)]]),
      ("logs", .array [.object [("userId", .number 7), ("lockState", .boolean true),
        ("timestamp", .number 5)]])],
    .object [("lockMac", .text "00:07:80:7e:c0:02"), ("name", .text "gate"), ("lockClockwise", .boolean false),
      ("users", .array [.object [("userId", .number 7), ("name", .text "me"), ("validated", .boolean true),
          ("isAdmin", .boolean false)],
        .object [("userId", .number 8), ("name", .text "you"), ("validated", .boolean true),
          ("isAdmin", .boolean true)]]),
      ("logs", .array [])]])]

/-- What `twoLocks` says. -/
def doorAndGate : Snapshot :=
  ⟨7, [⟨"00:07:80:7E:C0:01", "door", true, [⟨7, "me", true, true⟩], [⟨7, true, 5⟩]⟩,
    ⟨"00:07:80:7E:C0:02", "gate", false, [⟨7, "me", true, false⟩, ⟨8, "you", true, true⟩], []⟩]⟩

/-- The first of these locks without its log, and a third lock with one, are stored already. -/
def storedHome : LocalDatabase where
  locks := [⟨"00:07:80:7E:C0:03", some "shed", true⟩, ⟨"00:07:80:7E:C0:01", some "door", true⟩]
  users := [⟨7, some "me", true⟩]
  accesses := [⟨"00:07:80:7E:C0:03", 7, true⟩, ⟨"00:07:80:7E:C0:01", 7, true⟩]
  logs := [⟨"00:07:80:7E:C0:03", 7, false, 4⟩]
  lockKeys := by decide
  userKeys := by decide
  accessKeys := by decide
  accessLocks := by decide
  accessUsers := by decide
  logLocks := by decide

theorem doorAndGate_wellFormed : doorAndGate.WellFormed :=
  ⟨by decide +kernel, by decide +kernel, by decide +kernel⟩

theorem doorAndGate_compatible : ∀ lock ∈ doorAndGate.locks, storedHome.Compatible lock := by
  refine List.forall_mem_cons.mpr ⟨?_, List.forall_mem_singleton.mpr ?_⟩
  · exact ⟨by decide +kernel, by decide +kernel, by decide +kernel, by decide +kernel⟩
  · exact ⟨by decide +kernel, by decide +kernel, by decide +kernel, by decide +kernel⟩

/-- A fetch of two locks that share a user, and the same again: the second one adds the log once more. -/
theorem parseAndStore_adds_sample :
    let once := (DataInput.parseAndStore twoLocks).step asciiText JsonValue.accessors ⟨7, storedHome⟩
    let twice := (DataInput.parseAndStore twoLocks).step asciiText JsonValue.accessors once
    (∀ lock ∈ doorAndGate.locks, once.db.Shows lock) ∧
      twice.db.logs = once.db.logs ++ [⟨"00:07:80:7E:C0:01", 7, true, 5⟩] ∧ twice ≠ once := by
  obtain ⟨-, shows', again, same⟩ := parseAndStore_adds asciiText JsonValue.accessors twoLocks doorAndGate
    (by decide +kernel) doorAndGate_wellFormed ⟨7, storedHome⟩
  refine ⟨shows'.mpr doorAndGate_compatible, again.2.2.2, fun twice => ?_⟩
  have noLogs := same.mp twice _ List.mem_cons_self
  cases noLogs

/-- The server has another orientation than before, and the old one stays. -/
theorem fetch_leaves_stale :
    ¬ ∀ (jsonObject : JsonValue) (snapshot : Snapshot) (data : LocalData),
      readSnapshot asciiText JsonValue.accessors jsonObject = some snapshot → snapshot.WellFormed →
      let once := (DataInput.parseAndStore jsonObject).step asciiText JsonValue.accessors data
      (∀ lock ∈ snapshot.locks, once.db.Shows lock) ∧
        (DataInput.parseAndStore jsonObject).step asciiText JsonValue.accessors once = once := by
  intro every
  have first := every _ _ ((DataInput.parseAndStore (sampleSnapshot "00:07:80:7E:C0:01" true)).step asciiText
    JsonValue.accessors ⟨7, .empty⟩) (read_sampleSnapshot false) (sampleLocks_wellFormed false)
  have row := (first.1 _ (List.mem_singleton_self _)).row
  revert row
  decide +kernel

end Esloq
