/-
**The database of the server (`models.py`).**

* `EsloqUser`, `LockAccess`, `Log`, `FcmRegistration` — the rows beside `EsloqRow`.
* `Database` — one table each, with the unique columns of the models: no two users share a
  `firebase_id` or an `email`, no two locks a `mac`, and a user has at most one access on a lock.
-/

import Esloq.Lib.Table
import Esloq.Server.Ticket

namespace Esloq

/-- A row of the table `EsloqUser`. -/
structure EsloqUser where
  id : Nat
  firebaseId : Option String
  firstName : String
  lastName : String
  email : String
  deriving DecidableEq

/-- A row of the table `LockAccess`. -/
structure LockAccess where
  id : Nat
  lockId : Nat
  userId : Nat
  isAdmin : Bool
  deriving DecidableEq

/-- A row of the table `Log`. -/
structure Log where
  id : Nat
  lockId : Nat
  userId : Nat
  accessTime : Int
  lockState : Bool
  deriving DecidableEq

/-- A row of the table `FcmRegistration`. -/
structure FcmRegistration where
  id : Nat
  userId : Nat
  registrationToken : String
  deriving DecidableEq

/-! ### Tables -/

/-- `unique=True` of `EsloqUser`. -/
def EsloqUser.columns : List (EsloqUser → Option String) :=
  [EsloqUser.firebaseId, fun user => some user.email]

/-- `unique=True` of `Esloq`. -/
def EsloqRow.columns : List (EsloqRow → Option String) := [fun lock => some lock.mac]

/-- `unique_together` of `LockAccess`. -/
def LockAccess.columns : List (LockAccess → Option (Nat × Nat)) :=
  [fun access => some (access.lockId, access.userId)]

/-- `Log` has no unique column. -/
def Log.columns : List (Log → Option Unit) := []

/-- `unique_together` of `FcmRegistration`. -/
def FcmRegistration.columns : List (FcmRegistration → Option (Nat × String)) :=
  [fun registration => some (registration.userId, registration.registrationToken)]

/-- The table `EsloqUser`. -/
abbrev EsloqUsers := Table EsloqUser.id EsloqUser.columns

/-- The tables of the application. -/
structure Database where
  users : EsloqUsers
  locks : Table EsloqRow.id EsloqRow.columns
  lockAccesses : Table LockAccess.id LockAccess.columns
  logs : Table Log.id Log.columns
  fcmRegistrations : Table FcmRegistration.id FcmRegistration.columns

end Esloq
