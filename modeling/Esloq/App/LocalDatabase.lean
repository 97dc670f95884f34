/-
**The database of the app (`DatabaseHelper.java`, `LockDataContentProvider.java`,
`LocalDataServiceApiImpl.java`).**

* `LocalDatabase` — the four tables with their keys and foreign keys: a lock has one row, a user one, a
  user at most one access on a lock; an access has a lock and a user, a log has a lock.
* `Statement.execute` — inserts that are ignored on a conflict (locks, users), inserts that fail on one
  (accesses, logs), deletes that cascade, and the update of a user.
* `LocalDataServiceApi` — the calls of the repository, each as the statements it executes.

A statement finds a lock by the value of its MAC address, which is not empty (an empty one would add no segment
to the URI of the statement), contains no quote and names no column.
-/

import Esloq.Lib.Keyed
import Esloq.Lib.Machine

namespace Esloq

open Keyed Machine

/-! ### Rows -/

/-- A row of `lock`. -/
structure LockRow where
  mac : String
  name : Option String
  lockClockwise : Bool
  deriving DecidableEq

/-- A row of `user`. -/
structure UserRow where
  id : Int32
  name : Option String
  validated : Bool
  deriving DecidableEq

/-- A row of `lock_access`. -/
structure AccessRow where
  lockMac : String
  userId : Int32
  isAdmin : Bool
  deriving DecidableEq

/-- A row of `log`. -/
structure LogRow where
  lockMac : String
  userId : Int32
  lockState : Bool
  timestamp : Int
  deriving DecidableEq

/-- The primary key of `lock_access`. -/
def AccessRow.key (access : AccessRow) : String × Int32 := (access.lockMac, access.userId)

/-- The tables, with the constraints of `SQL_CREATE_LOCK` and the others. -/
structure LocalDatabase where
  locks : List LockRow
  users : List UserRow
  accesses : List AccessRow
  logs : List LogRow
  lockKeys : (locks.map LockRow.mac).Nodup
  userKeys : (users.map UserRow.id).Nodup
  accessKeys : (accesses.map AccessRow.key).Nodup
  accessLocks : ∀ access ∈ accesses, access.lockMac ∈ locks.map LockRow.mac
  accessUsers : ∀ access ∈ accesses, access.userId ∈ users.map UserRow.id
  logLocks : ∀ log ∈ logs, log.lockMac ∈ locks.map LockRow.mac

namespace LocalDatabase

/-- The tables after `onCreate`. -/
def empty : LocalDatabase where
  locks := []
  users := []
  accesses := []
  logs := []
  lockKeys := List.nodup_nil
  userKeys := List.nodup_nil
  accessKeys := List.nodup_nil
  accessLocks := nofun
  accessUsers := nofun
  logLocks := nofun

variable (db : LocalDatabase)

/-! ### Statements -/

/-- `INSERT OR IGNORE` into `lock`. -/
def insertLock (row : LockRow) : LocalDatabase :=
  { db with
    locks := insertNew LockRow.mac row db.locks
    lockKeys := nodup_insertNew db.lockKeys
    accessLocks := fun access member => mem_map_insertNew.mpr (Or.inl (db.accessLocks access member))
    logLocks := fun log member => mem_map_insertNew.mpr (Or.inl (db.logLocks log member)) }

/-- `INSERT OR IGNORE` into `user`. -/
def insertUser (row : UserRow) : LocalDatabase :=
  { db with
    users := insertNew UserRow.id row db.users
    userKeys := nodup_insertNew db.userKeys
    accessUsers := fun access member =>
      mem_map_insertNew.mpr (Or.inl (db.accessUsers access member)) }

/-- `INSERT` into `lock_access`; where the lock or the user is missing, or the user has an access, it
fails and nothing is added. -/
def insertAccess (row : AccessRow) : LocalDatabase :=
  if refers : row.lockMac ∈ db.locks.map LockRow.mac ∧ row.userId ∈ db.users.map UserRow.id then
    { db with
      accesses := insertNew AccessRow.key row db.accesses
      accessKeys := nodup_insertNew db.accessKeys
      accessLocks := fun access member => by
        rcases mem_insertNew.mp member with old | ⟨rfl, -⟩
        · exact db.accessLocks access old
        · exact refers.1
      accessUsers := fun access member => by
        rcases mem_insertNew.mp member with old | ⟨rfl, -⟩
        · exact db.accessUsers access old
        · exact refers.2 }
  else db

/-- `INSERT` into `log`; where the lock is missing it fails and nothing is added. -/
def insertLog (row : LogRow) : LocalDatabase :=
  if refers : row.lockMac ∈ db.locks.map LockRow.mac then
    { db with
      logs := db.logs ++ [row]
      logLocks := fun log member => by
        rcases List.mem_append.mp member with old | new
        · exact db.logLocks log old
        · rw [List.mem_singleton.mp new]
          exact refers }
  else db

/-- `DELETE` of a lock, with its accesses and logs. -/
def deleteLock (mac : String) : LocalDatabase :=
  { db with
    locks := without LockRow.mac mac db.locks
    accesses := without AccessRow.lockMac mac db.accesses
    logs := without LogRow.lockMac mac db.logs
    lockKeys := nodup_without db.lockKeys
    accessKeys := db.accessKeys.sublist (List.filter_sublist.map AccessRow.key)
    accessLocks := fun access member =>
      mem_map_without.mpr ⟨db.accessLocks access (mem_without.mp member).1, (mem_without.mp member).2⟩
    accessUsers := fun access member => db.accessUsers access (mem_without.mp member).1
    logLocks := fun log member =>
      mem_map_without.mpr ⟨db.logLocks log (mem_without.mp member).1, (mem_without.mp member).2⟩ }

/-- `DELETE` of an access. -/
def deleteAccess (mac : String) (userId : Int32) : LocalDatabase :=
  { db with
    accesses := without AccessRow.key (mac, userId) db.accesses
    accessKeys := nodup_without db.accessKeys
    accessLocks := fun access member => db.accessLocks access (mem_without.mp member).1
    accessUsers := fun access member => db.accessUsers access (mem_without.mp member).1 }

/-- `DELETE` of all locks, with all accesses and logs. -/
def deleteLocks : LocalDatabase :=
  { db with
    locks := []
    accesses := []
    logs := []
    lockKeys := List.nodup_nil
    accessKeys := List.nodup_nil
    accessLocks := nofun
    accessUsers := nofun
    logLocks := nofun }

/-- `DELETE` of all users, with all accesses. -/
def deleteUsers : LocalDatabase :=
  { db with
    users := []
    accesses := []
    userKeys := List.nodup_nil
    accessKeys := List.nodup_nil
    accessLocks := nofun
    accessUsers := nofun }

/-- `UPDATE` of a user. -/
def updateUser (row : UserRow) : LocalDatabase :=
  { db with
    users := update UserRow.id row db.users
    userKeys := by
      rw [map_update]
      exact db.userKeys
    accessUsers := fun access member => by
      rw [map_update]
      exact db.accessUsers access member }

@[simp] theorem insertAccess_locks (row : AccessRow) : (db.insertAccess row).locks = db.locks := by
  unfold insertAccess
  split <;> rfl

@[simp] theorem insertAccess_users (row : AccessRow) : (db.insertAccess row).users = db.users := by
  unfold insertAccess
  split <;> rfl

@[simp] theorem insertLog_locks (row : LogRow) : (db.insertLog row).locks = db.locks := by
  unfold insertLog
  split <;> rfl

@[simp] theorem insertLog_users (row : LogRow) : (db.insertLog row).users = db.users := by
  unfold insertLog
  split <;> rfl

@[simp] theorem insertLog_accesses (row : LogRow) : (db.insertLog row).accesses = db.accesses := by
  unfold insertLog
  split <;> rfl

end LocalDatabase

/-! ### Statements as data -/

/-- A statement the provider executes. -/
inductive Statement
  | insertLock (row : LockRow)
  | insertUser (row : UserRow)
  | insertAccess (row : AccessRow)
  | insertLog (row : LogRow)
  | deleteLock (mac : String)
  | deleteAccess (mac : String) (userId : Int32)
  | deleteLocks
  | deleteUsers
  | updateUser (row : UserRow)
  deriving DecidableEq

/-- What a statement does. -/
def Statement.execute (statement : Statement) (db : LocalDatabase) : LocalDatabase :=
  match statement with
  | .insertLock row => db.insertLock row
  | .insertUser row => db.insertUser row
  | .insertAccess row => db.insertAccess row
  | .insertLog row => db.insertLog row
  | .deleteLock mac => db.deleteLock mac
  | .deleteAccess mac userId => db.deleteAccess mac userId
  | .deleteLocks => db.deleteLocks
  | .deleteUsers => db.deleteUsers
  | .updateUser row => db.updateUser row

/-! ### `LocalDataServiceApi` -/

/-- An exception. -/
inductive JavaError
  | json
  | nullPointer
  | numberFormat
  | illegalArgument
  | illegalState
  deriving DecidableEq

/-- The statements a call executes, which nothing depends on, and the exception it ends with. -/
abbrev Script := Turn Unit Statement JavaError

/-- The conversions of texts by the Java library. -/
structure JavaText where
  toUpperCase : String → String
  toUpperCase_idem : ∀ text, toUpperCase (toUpperCase text) = toUpperCase text
  /-- `Integer.valueOf`; `none` is a `NumberFormatException`. -/
  integerValueOf : String → Option Int32
  integerValueOf_valueOf : ∀ number : Int32, integerValueOf (toString number) = some number
  /-- `Long.valueOf`. -/
  longValueOf : String → Option Int
  /-- `split("\\s*,\\s*")`. -/
  splitCommas : String → List String

namespace LocalDataServiceApi

variable (java : JavaText)

def addLock (mac : String) (name : Option String) (lockClockwise : Bool) : Script :=
  .emit () [.insertLock ⟨java.toUpperCase mac, name, lockClockwise⟩]

def addUser (id : Int32) (name : Option String) (validated : Bool) : Script :=
  .emit () [.insertUser ⟨id, name, validated⟩]

def addLockAccess (userId : Int32) (mac : String) (isAdmin : Bool) : Script :=
  .emit () [.insertAccess ⟨mac, userId, isAdmin⟩]

def addUserToLock (userId : Int32) (name : Option String) (validated : Bool) (mac : String)
    (isAdmin : Bool) : Script :=
  (addUser userId name validated).andThen fun _ => .emit () [.insertAccess ⟨mac, userId, isAdmin⟩]

def addLogToLock (userId : Int32) (mac : String) (locked : Bool) (timestamp : Int) : Script :=
  .emit () [.insertLog ⟨java.toUpperCase mac, userId, locked, timestamp⟩]

def removeLock (mac : String) : Script := .emit () [.deleteLock mac]

/-- No pattern of the provider takes a number with a sign. -/
def removeUserFromLock (userId : Int32) (lockMac : String) : Script :=
  if userId < 0 then ⟨(), [], some .illegalArgument⟩ else .emit () [.deleteAccess lockMac userId]

def updateUser (id : Int32) (name : Option String) (validated : Bool) : Script :=
  if id < 0 then ⟨(), [], some .illegalArgument⟩ else .emit () [.updateUser ⟨id, name, validated⟩]

def clearDatabase : Script := .emit () [.deleteLocks, .deleteUsers]

/-- `none` is the `IllegalArgumentException` for a lock that is not found. -/
def locksClockwise (db : LocalDatabase) (lockMac : String) : Option Bool :=
  (lookup LockRow.mac lockMac db.locks).map LockRow.lockClockwise

end LocalDataServiceApi

end Esloq
