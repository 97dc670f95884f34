/-
**What requests may write into the tables (`serializers.py`).**

Each serializer validates the data of a request against the database, and saves what is valid.

* the `form`s — what the serializers show in a form.
* `EsloqUserSerializer`, `LockAccessSerializer`, `LogSerializer`, `FcmRegistrationSerializer` — new
  rows.
* `LockSerializer` — the name of an existing lock.
* the `_spec` lemmas — the row that was written, and where its keys come from.
-/

import Esloq.Server.Permissions

namespace Esloq

open Rest

/-- What the representation of a lock shows. -/
structure LockData where
  id : Nat
  name : String
  mac : String
  deriving DecidableEq

/-- What a search for an e-mail address shows of a user. -/
structure UserIdAndEmail where
  id : Nat
  email : String
  deriving DecidableEq

/-- The body of a response. -/
inductive Body
  | locks (rows : List LockData)
  | lock (row : LockData)
  | users (rows : List EsloqUser)
  | user (row : EsloqUser)
  | usersByEmail (rows : List UserIdAndEmail)
  | lockAccesses (rows : List LockAccess)
  | lockAccess (row : LockAccess)
  | logs (rows : List Log)
  | log (row : Log)
  | fcmRegistration (row : FcmRegistration)
  | ticket (sessionKey : Key) (ticket : Bytes 72)
  deriving DecidableEq

/-- A save: the database after it and what the response shows. -/
abbrev Saved := Except Failure (Database × Body)

/-! ### Forms -/

/-- The options of a field for a lock; a form shows at most a thousand. -/
def lockChoices (db : Database) : List (Nat × String) :=
  (db.locks.rows.take 1000).map fun lock => (lock.id, lock.name)

/-- The options of a field for a user. -/
def userChoices (db : Database) : List (Nat × String) :=
  (db.users.rows.take 1000).map fun user => (user.id, user.firstName ++ " " ++ user.lastName)

def EsloqUserSerializer.form : FormFields Database :=
  ⟨fun _ => [], ["firebase_id", "first_name", "last_name", "email"]⟩

def LockAccessSerializer.form : FormFields Database := ⟨fun db => [lockChoices db, userChoices db], []⟩

def LogSerializer.form : FormFields Database :=
  ⟨fun db => [lockChoices db, userChoices db], ["access_time"]⟩

def FcmRegistrationSerializer.form : FormFields Database :=
  ⟨fun db => [userChoices db], ["registration_token"]⟩

def LockSerializer.form : FormFields Database := ⟨fun _ => [], ["name", "mac"]⟩

/-! ### Users -/

/-- The fields of `EsloqUserSerializer`. -/
structure NewUser where
  firebaseId : Option String
  firstName : Text
  lastName : Text
  email : String

namespace EsloqUserSerializer

/-- `EsloqUserSerializer.is_valid`. -/
def isValid (fields : Fields) (data : Data) (db : Database) : Except Failure NewUser := do
  data.mapping
  let firebaseId ← (fields.nullableUniqueText data "firebase_id" 28).read
  let firstName ← (fields.text data "first_name" 20).read
  let lastName ← (fields.text data "last_name" 20).read
  let email ← (fields.email data "email" 50).read
  match firebaseId, firstName, lastName, email with
  | .invalid, _, _, _ => throw (.api 400)
  | firebaseId, .value firstName, .value lastName, .value email =>
      if firebaseId.given.join.isSome ∧ db.users.rows.any (·.firebaseId = firebaseId.given.join) ∨
          db.users.rows.any (·.email = email) then throw (.api 400)
      else return ⟨firebaseId.given.join, firstName, lastName, email⟩
  | _, _, _, _ => throw (.api 400)

/-- `EsloqUserSerializer.save`. -/
def save (new : NewUser) (db : Database) : Saved := do
  let firstName ← new.firstName.encode
  let lastName ← new.lastName.encode
  match db.users.insert (fun id => ⟨id, new.firebaseId, firstName, lastName, new.email⟩)
      (fun _ => rfl) with
  | none => throw (.escaped .integrityError)
  | some users => return ({ db with users },
      .user ⟨db.users.next, new.firebaseId, firstName, lastName, new.email⟩)

theorem save_spec {new : NewUser} {db after : Database} {body : Body}
    (saved : save new db = .ok (after, body)) : after = { db with users := after.users } := by
  obtain ⟨firstName, -, saved⟩ := bind_eq_ok.mp saved
  obtain ⟨lastName, -, saved⟩ := bind_eq_ok.mp saved
  split at saved
  · cases saved
  · cases saved
    rfl

end EsloqUserSerializer

/-! ### Accesses -/

/-- The fields of `LockAccessSerializer`; the model's `is_admin` is not required. -/
structure NewLockAccess where
  lock : EsloqRow
  user : EsloqUser
  isAdmin : Option Bool

namespace LockAccessSerializer

/-- `LockAccessSerializer.is_valid`. -/
def isValid (fields : Fields) (data : Data) (db : Database) : Except Failure NewLockAccess := do
  data.mapping
  let isAdmin ← (fields.boolean data "is_admin").read
  let lock ← related fields EsloqRow.id db.locks.rows data "lock_id"
  let user ← related fields EsloqUser.id db.users.rows data "user_id"
  match lock, user, isAdmin with
  | .value _, .value _, .invalid => throw (.api 400)
  | .value lock, .value user, isAdmin =>
      if db.lockAccesses.rows.any fun access => access.lockId = lock.id ∧ access.userId = user.id then
        throw (.api 400)
      else return ⟨lock, user, isAdmin.given⟩
  | _, _, _ => throw (.api 400)

/-- The rows of a valid access have the keys of the data, and no access has both. -/
theorem isValid_spec {fields : Fields} {data : Data} {db : Database} {new : NewLockAccess}
    (valid : isValid fields data db = .ok new) :
    (∃ json, data.get? "lock_id" = .ok (some json) ∧
      lookupKey fields.integerOfText json = .ok (some (new.lock.id : Int))) ∧
    ∀ access ∈ db.lockAccesses.rows, ¬ (access.lockId = new.lock.id ∧ access.userId = new.user.id) := by
  obtain ⟨-, -, valid⟩ := bind_eq_ok.mp valid
  obtain ⟨isAdmin, -, valid⟩ := bind_eq_ok.mp valid
  obtain ⟨lock, ofLock, valid⟩ := bind_eq_ok.mp valid
  obtain ⟨user, ofUser, valid⟩ := bind_eq_ok.mp valid
  split at valid
  · cases valid
  · split at valid
    · cases valid
    · rename_i unique
      cases valid
      refine ⟨(related_eq_value ofLock).2, fun access member same => unique ?_⟩
      exact List.any_eq_true.mpr ⟨access, member, decide_eq_true same⟩
  · cases valid

/-- `LockAccessSerializer.save`; a null `is_admin` breaks a constraint of the table. -/
def save (new : NewLockAccess) (db : Database) : Saved :=
  match new.isAdmin with
  | none => .error (.escaped .integrityError)
  | some isAdmin =>
      match db.lockAccesses.insert (fun id => ⟨id, new.lock.id, new.user.id, isAdmin⟩)
          (fun _ => rfl) with
      | none => .error (.escaped .integrityError)
      | some lockAccesses => .ok ({ db with lockAccesses },
          .lockAccess ⟨db.lockAccesses.next, new.lock.id, new.user.id, isAdmin⟩)

theorem save_spec {new : NewLockAccess} {db after : Database} {body : Body}
    (saved : save new db = .ok (after, body)) :
    after = { db with lockAccesses := after.lockAccesses } ∧
      ∃ access, access.lockId = new.lock.id ∧ access.userId = new.user.id ∧
        after.lockAccesses.rows = db.lockAccesses.rows ++ [access] := by
  rw [save] at saved
  split at saved
  · cases saved
  · split at saved
    · cases saved
    · rename_i lockAccesses inserted
      cases saved
      exact ⟨rfl, _, rfl, rfl, Table.rows_of_insert inserted⟩

end LockAccessSerializer

/-! ### Logs -/

/-- The fields of `LogSerializer`; `access_time` has a default and `lock_state` is not required. -/
structure NewLog where
  lock : EsloqRow
  user : EsloqUser
  accessTime : Option Int
  lockState : Option Bool

namespace LogSerializer

/-- `LogSerializer.is_valid`. -/
def isValid (fields : Fields) (data : Data) (db : Database) : Except Failure NewLog := do
  data.mapping
  let accessTime ← (fields.integer data "access_time").read
  let lockState ← (fields.boolean data "lock_state").read
  let lock ← related fields EsloqRow.id db.locks.rows data "lock_id"
  let user ← related fields EsloqUser.id db.users.rows data "user_id"
  match lock, user, accessTime, lockState with
  | .value _, .value _, .invalid, _ | .value _, .value _, _, .invalid => throw (.api 400)
  | .value lock, .value user, accessTime, lockState =>
      return ⟨lock, user, accessTime.given, lockState.given⟩
  | _, _, _, _ => throw (.api 400)

/-- The rows of a valid log have the keys of the data. -/
theorem isValid_spec {fields : Fields} {data : Data} {db : Database} {new : NewLog}
    (valid : isValid fields data db = .ok new) :
    (∃ json, data.get? "lock_id" = .ok (some json) ∧
      lookupKey fields.integerOfText json = .ok (some (new.lock.id : Int))) ∧
    ∃ json, data.get? "user_id" = .ok (some json) ∧
      lookupKey fields.integerOfText json = .ok (some (new.user.id : Int)) := by
  obtain ⟨-, -, valid⟩ := bind_eq_ok.mp valid
  obtain ⟨accessTime, -, valid⟩ := bind_eq_ok.mp valid
  obtain ⟨lockState, -, valid⟩ := bind_eq_ok.mp valid
  obtain ⟨lock, ofLock, valid⟩ := bind_eq_ok.mp valid
  obtain ⟨user, ofUser, valid⟩ := bind_eq_ok.mp valid
  split at valid
  · cases valid
  · cases valid
  · cases valid
    exact ⟨(related_eq_value ofLock).2, (related_eq_value ofUser).2⟩
  · cases valid

/-- `LogSerializer.save` at a time; a null `lock_state` breaks a constraint of the table. -/
def save (now : Nat) (new : NewLog) (db : Database) : Saved :=
  let accessTime := new.accessTime.getD now
  match new.lockState, parameter accessTime with
  | _, .error failure => .error failure
  | none, .ok _ => .error (.escaped .integrityError)
  | some lockState, .ok _ =>
      match db.logs.insert (fun id => ⟨id, new.lock.id, new.user.id, accessTime, lockState⟩)
          (fun _ => rfl) with
      | none => .error (.escaped .integrityError)
      | some logs => .ok ({ db with logs },
          .log ⟨db.logs.next, new.lock.id, new.user.id, accessTime, lockState⟩)

theorem save_spec {now : Nat} {new : NewLog} {db after : Database} {body : Body}
    (saved : save now new db = .ok (after, body)) :
    after = { db with logs := after.logs } ∧
      ∃ log, log.lockId = new.lock.id ∧ log.userId = new.user.id ∧
        after.logs.rows = db.logs.rows ++ [log] := by
  rw [save] at saved
  split at saved
  · cases saved
  · cases saved
  · split at saved
    · cases saved
    · rename_i logs inserted
      cases saved
      exact ⟨rfl, _, rfl, rfl, Table.rows_of_insert inserted⟩

end LogSerializer

/-! ### Registrations -/

/-- The fields of `FcmRegistrationSerializer`. -/
structure NewFcmRegistration where
  user : EsloqUser
  registrationToken : String

namespace FcmRegistrationSerializer

/-- `FcmRegistrationSerializer.is_valid`; the validator of the pair sends the token to the database. -/
def isValid (fields : Fields) (data : Data) (db : Database) : Except Failure NewFcmRegistration := do
  data.mapping
  let registrationToken ← (fields.text data "registration_token" 512).read
  let user ← related fields EsloqUser.id db.users.rows data "user_id"
  match user, registrationToken with
  | .value user, .value registrationToken =>
      let registrationToken ← registrationToken.encode
      if db.fcmRegistrations.rows.any fun registration =>
          registration.userId = user.id ∧ registration.registrationToken = registrationToken then
        throw (.api 400)
      else return ⟨user, registrationToken⟩
  | _, _ => throw (.api 400)

/-- `FcmRegistrationSerializer.save`. -/
def save (new : NewFcmRegistration) (db : Database) : Saved :=
  match db.fcmRegistrations.insert (fun id => ⟨id, new.user.id, new.registrationToken⟩)
      (fun _ => rfl) with
  | none => .error (.escaped .integrityError)
  | some fcmRegistrations => .ok ({ db with fcmRegistrations },
      .fcmRegistration ⟨db.fcmRegistrations.next, new.user.id, new.registrationToken⟩)

theorem save_spec {new : NewFcmRegistration} {db after : Database} {body : Body}
    (saved : save new db = .ok (after, body)) :
    after = { db with fcmRegistrations := after.fcmRegistrations } := by
  rw [save] at saved
  split at saved
  · cases saved
  · cases saved
    rfl

end FcmRegistrationSerializer

/-! ### Locks -/

/-- `mac_fmt`: six groups of two digits of base 16. -/
def macFmt (mac : String) : Bool :=
  let groups := mac.toList.splitOn ':'
  groups.length = 6 ∧ groups.all fun group =>
    group.length = 2 ∧ group.all fun c => c.isDigit ∨ ('a' ≤ c ∧ c ≤ 'f')

namespace LockSerializer

/-- The representation of a lock. -/
def toRepresentation (lock : EsloqRow) : LockData := ⟨lock.id, lock.name, lock.mac⟩

/-- `LockSerializer.is_valid` of a partial update: the name, if there is one. A `mac` is checked, though
it is not updated. -/
def isValid (fields : Fields) (data : Data) (instance' : EsloqRow) (db : Database) :
    Except Failure (Option Text) := do
  data.mapping
  let name ← (fields.text data "name" 20).read
  let mac ← (fields.uniqueText data "mac" 20).read
  let freeMac (mac : String) : Bool :=
    macFmt mac ∧ ¬ db.locks.rows.any fun lock => lock.id ≠ instance'.id ∧ lock.mac = mac
  match name, mac with
  | .invalid, _ | _, .invalid => throw (.api 400)
  | name, .value mac => if freeMac mac then return name.given else throw (.api 400)
  | name, _ => return name.given

/-- `LockSerializer.update`: only the name, but every column is saved. -/
def update (instance' : EsloqRow) (name : Option Text) (db : Database) : Saved := do
  let name ← (name.getD (.encoded instance'.name)).encode
  let lock := { instance' with name }
  match db.locks.save lock with
  | none => throw (.escaped .integrityError)
  | some locks => return ({ db with locks }, .lock (toRepresentation lock))

theorem update_spec {lock : EsloqRow} {new : Option Text} {db after : Database} {body : Body}
    (updated : update lock new db = .ok (after, body)) :
    after = { db with locks := after.locks } ∧ ∃ name, after.locks.rows = db.locks.rows.map fun other =>
      if other.id = lock.id then { lock with name } else other := by
  obtain ⟨name, -, updated⟩ := bind_eq_ok.mp updated
  dsimp only at updated
  split at updated
  · cases updated
  · rename_i locks saved
    cases updated
    exact ⟨rfl, name, Table.rows_of_save saved⟩

end LockSerializer

end Esloq
