/-
**The view sets and the routes (`views.py`, `urls.py`).**

* one section for each view set: its permission classes, its query set, and its handlers.
* `urlpatterns` — the routes, in order, each with a view set and the methods it serves, and each with the
  suffix of a format too. A path without the slash at its end is none of them: the middleware that sends its
  client to the path with one stands before the routes.
* `handle` — a request to the API, handled alone; `getResponse` — what is sent for it.
-/

import Esloq.Lib.Pages
import Esloq.Lib.Urls
import Esloq.Server.Serializers

namespace Esloq

open Rest

/-- What a request draws on beside the database: the field conversions, `nacl`, the session key
`urandom` returns, and the clock. -/
structure Env where
  fields : Fields
  box : Secretbox
  sessionKey : Key
  now : Nat

/-- A handler of the API. -/
abbrev ApiHandler := Handler Database EsloqUser Body

/-- A view set of the API. -/
abbrev ApiView := View Database EsloqUser Body

/-! ### Arguments of the URL -/

/-- A query for an argument of the URL. -/
def kwarg : Option String → Except Failure (Option Int)
  | none => .error (.escaped .keyError)
  | some digits => parameter (digitsValue digits)

/-- A lookup of a row by the primary key in the URL. -/
def getObject {ρ : Type} (key : ρ → Nat) (queryset : ApiRequest → Database → Except Failure (List ρ))
    (request : ApiRequest) (db : Database) : Except Failure ρ := do
  let rows ← queryset request db
  let pk ← kwarg request.pk
  getOr404 (rows.filter fun row => some (key row : Int) = pk)

theorem kwarg_eq_ok {digits : String} {key : Option Int} (converted : kwarg (some digits) = .ok key) :
    key = some (digitsValue digits : Int) := parameter_eq_ok converted

/-- The row that is looked up is in the query set, under the key in the URL. -/
theorem getObject_eq_ok {ρ : Type} {key : ρ → Nat}
    {queryset : ApiRequest → Database → Except Failure (List ρ)} {request : ApiRequest} {db : Database}
    {row : ρ} (found : getObject key queryset request db = .ok row) :
    ∃ rows digits, queryset request db = .ok rows ∧ request.pk = some digits ∧ row ∈ rows ∧
      key row = digitsValue digits := by
  obtain ⟨rows, queried, found⟩ := bind_eq_ok.mp found
  obtain ⟨pk, converted, found⟩ := bind_eq_ok.mp found
  have ofRow := List.mem_filter.mp (mem_of_getOr404 found)
  cases given : request.pk with
  | none =>
      rw [given] at converted
      cases converted
  | some digits =>
      rw [given] at converted
      have keyed : some (key row : Int) = pk := of_decide_eq_true ofRow.2
      rw [kwarg_eq_ok converted, Option.some.injEq, Int.natCast_inj] at keyed
      exact ⟨rows, digits, queried, rfl, ofRow.1, keyed⟩

/-- `list`. -/
def listing {ρ : Type} (queryset : ApiRequest → Database → Except Failure (List ρ))
    (show' : List ρ → Body) : ApiHandler :=
  read fun request db => (queryset request db).map fun rows => ⟨200, some (show' rows)⟩

/-- `retrieve`. -/
def retrieve {ρ : Type} (key : ρ → Nat) (queryset : ApiRequest → Database → Except Failure (List ρ))
    (show' : ρ → Body) : ApiHandler :=
  read fun request db => (getObject key queryset request db).map fun row => ⟨200, some (show' row)⟩

/-- The locks the user in the URL is admin on. -/
def adminLockIds (db : Database) (userId : Option Int) : List Nat :=
  (db.lockAccesses.rows.filter fun access =>
    some (access.userId : Int) = userId ∧ access.isAdmin).map LockAccess.lockId

theorem mem_adminLockIds {db : Database} {user : EsloqUser} {lockId : Nat} :
    lockId ∈ adminLockIds db (some (user.id : Int)) ↔ AdminOn db user lockId := by
  rw [adminLockIds, List.mem_map]
  refine exists_congr fun access => ?_
  rw [List.mem_filter, decide_eq_true_iff, Option.some.injEq, Int.natCast_inj, and_assoc, and_assoc]
  exact and_congr_right fun _ => and_congr_right fun _ => and_comm

/-- A query parameter without a trailing slash and what stands before it: `-1[-1]` and `""[-1]` raise. -/
def lookupParam (request : ApiRequest) (name : String) : Except Failure String :=
  match queryParam request name with
  | none => .error (.escaped .typeError)
  | some value =>
      match value.toList.getLast? with
      | none => .error (.escaped .indexError)
      | some '/' => .ok (String.ofList (value.toList.takeWhile (· ≠ '/')))
      | some _ => .ok value

/-! ### `EsloqViewSet` -/

namespace EsloqViewSet

def permissionClasses (env : Env) : List (Permission Database EsloqUser) :=
  [IsAuthenticated.hasPermission, AuthenticatedUserIsURLUser.hasPermission,
    IsAdminOrNoPatch.hasPermission env.fields]

/-- All locks the user has access on. -/
def getQueryset (request : ApiRequest) (db : Database) : Except Failure (List EsloqRow) := do
  let userId ← kwarg request.id
  let lockIds := (db.lockAccesses.rows.filter fun access =>
    some (access.userId : Int) = userId).map LockAccess.lockId
  return db.locks.rows.filter fun lock => lock.id ∈ lockIds

def list : ApiHandler :=
  listing getQueryset fun rows => .locks (rows.map LockSerializer.toRepresentation)

def retrieve : ApiHandler :=
  Esloq.retrieve EsloqRow.id getQueryset fun row => .lock (LockSerializer.toRepresentation row)

def partialUpdate (env : Env) : ApiHandler :=
  Rest.partialUpdate (getObject EsloqRow.id getQueryset)
    (fun request row db => LockSerializer.isValid env.fields request.data row db)
    LockSerializer.update

end EsloqViewSet

/-! ### `AllEsloqViewSet` -/

namespace AllEsloqViewSet

/-- The lock with the mac in the query. -/
def getQueryset (request : ApiRequest) (db : Database) : Except Failure (List EsloqRow) := do
  let mac ← lookupParam request "mac"
  let lock ← getOr404 (db.locks.rows.filter fun lock => lock.mac = mac)
  return [lock]

def list : ApiHandler :=
  listing getQueryset fun rows => .locks (rows.map LockSerializer.toRepresentation)

end AllEsloqViewSet

/-! ### `EsloqUserViewSet` -/

namespace EsloqUserViewSet

def permissionClasses : List (Permission Database EsloqUser) :=
  [IsAuthenticated.hasPermission, AuthenticatedUserIsURLUser.hasPermission]

/-- The users with access on the locks the user is admin on, and the user. -/
def getQueryset (request : ApiRequest) (db : Database) : Except Failure (List EsloqUser) := do
  let userId ← kwarg request.id
  let adminLocks := adminLockIds db userId
  let userIds := (db.lockAccesses.rows.filter fun access =>
    access.lockId ∈ adminLocks).map LockAccess.userId
  return db.users.rows.filter fun user => user.id ∈ userIds ∨ some (user.id : Int) = userId

def list : ApiHandler := listing getQueryset .users

def retrieve : ApiHandler := Esloq.retrieve EsloqUser.id getQueryset .user

end EsloqUserViewSet

/-! ### `AllEsloqUserViewSet` -/

namespace AllEsloqUserViewSet

/-- The user with the e-mail address in the query. -/
def getQueryset (request : ApiRequest) (db : Database) : Except Failure (List EsloqUser) := do
  let email ← lookupParam request "email"
  let user ← getOr404 (db.users.rows.filter fun user => user.email = email)
  return [user]

def list : ApiHandler :=
  listing getQueryset fun rows => .usersByEmail (rows.map fun user => ⟨user.id, user.email⟩)

def create (env : Env) : ApiHandler :=
  Rest.create (fun request db => EsloqUserSerializer.isValid env.fields request.data db)
    EsloqUserSerializer.save

end AllEsloqUserViewSet

/-! ### `LockAccessViewSet` -/

namespace LockAccessViewSet

def permissionClasses (env : Env) : List (Permission Database EsloqUser) :=
  [IsAuthenticated.hasPermission, AuthenticatedUserIsURLUser.hasPermission,
    ReadOnlyIfNoAdminAndUsers.hasPermission env.fields]

/-- The accesses of the user, and all accesses on the locks the user is admin on. -/
def getQueryset (request : ApiRequest) (db : Database) : Except Failure (List LockAccess) := do
  let userId ← kwarg request.id
  let adminLocks := adminLockIds db userId
  return db.lockAccesses.rows.filter fun access =>
    some (access.userId : Int) = userId ∧ access.isAdmin = false ∨ access.lockId ∈ adminLocks

def list : ApiHandler := listing getQueryset .lockAccesses

def retrieve : ApiHandler := Esloq.retrieve LockAccess.id getQueryset .lockAccess

def create (env : Env) : ApiHandler :=
  Rest.create (fun request db => LockAccessSerializer.isValid env.fields request.data db)
    LockAccessSerializer.save

def destroy : ApiHandler :=
  Rest.destroy (getObject LockAccess.id getQueryset) fun row db =>
    { db with lockAccesses := db.lockAccesses.delete fun access => access.id = row.id }

end LockAccessViewSet

/-! ### `LogViewSet` -/

namespace LogViewSet

def permissionClasses (env : Env) : List (Permission Database EsloqUser) :=
  [IsAuthenticated.hasPermission, AuthenticatedUserIsURLUser.hasPermission,
    HasAccessOrNoPost.hasPermission env.fields, PostOnlyForSelf.hasPermission]

/-- The logs of the locks the user is admin on. -/
def getQueryset (request : ApiRequest) (db : Database) : Except Failure (List Log) := do
  let userId ← kwarg request.id
  let adminLocks := adminLockIds db userId
  return db.logs.rows.filter fun log => log.lockId ∈ adminLocks

def list : ApiHandler := listing getQueryset .logs

def retrieve : ApiHandler := Esloq.retrieve Log.id getQueryset .log

def create (env : Env) : ApiHandler :=
  Rest.create (fun request db => LogSerializer.isValid env.fields request.data db)
    (LogSerializer.save env.now)

end LogViewSet

/-! ### `LockLogsViewSet`, `LockLockAccessesViewSet` -/

def LockLogsViewSet.permissionClasses (env : Env) : List (Permission Database EsloqUser) :=
  [IsAuthenticated.hasPermission, AuthenticatedUserIsURLUser.hasPermission,
    IsAdmin.hasPermission env.fields]

def LockLockAccessesViewSet.permissionClasses (env : Env) : List (Permission Database EsloqUser) :=
  [IsAuthenticated.hasPermission, AuthenticatedUserIsURLUser.hasPermission,
    IsAdmin.hasPermission env.fields]

/-- `destroy` of all rows of the lock in the URL. -/
def destroyAll (delete : Option Int → Database → Database) : ApiHandler := fun request db =>
  match kwarg request.pk with
  | .error failure => (db, .error failure)
  | .ok lockId => (delete lockId db, .ok ⟨204, none⟩)

def LockLogsViewSet.destroy : ApiHandler :=
  destroyAll fun lockId db =>
    { db with logs := db.logs.delete fun log => some (log.lockId : Int) = lockId }

def LockLockAccessesViewSet.destroy : ApiHandler :=
  destroyAll fun lockId db =>
    { db with lockAccesses :=
        db.lockAccesses.delete fun access => some (access.lockId : Int) = lockId }

/-! ### `FcmRegistrationViewSet` -/

namespace FcmRegistrationViewSet

def permissionClasses : List (Permission Database EsloqUser) :=
  [IsAuthenticated.hasPermission, AuthenticatedUserIsURLUser.hasPermission,
    PostOnlyForSelf.hasPermission]

def create (env : Env) : ApiHandler :=
  Rest.create (fun request db => FcmRegistrationSerializer.isValid env.fields request.data db)
    FcmRegistrationSerializer.save

end FcmRegistrationViewSet

/-! ### `LockTicketViewSet` -/

namespace LockTicketViewSet

def permissionClasses : List (Permission Database EsloqUser) :=
  [IsAuthenticated.hasPermission, AuthenticatedUserIsURLUser.hasPermission]

/-- `getlockticket` in the database. -/
def ticket (env : Env) (lockId : Option Int) : Database →
    Database × Except Failure (Response Body) := fun db =>
  match getOne (db.locks.rows.filter fun lock => some (lock.id : Int) = lockId) with
  | .error error => (db, .error (.escaped error))
  | .ok lock =>
      let issued := getlockticket env.box env.sessionKey lock
      match parameter issued.1.nonce, db.locks.save issued.1 with
      | .error failure, _ => (db, .error failure)
      | .ok _, none => (db, .error (.escaped .integrityError))
      | .ok _, some locks =>
          match issued.2 with
          | none => ({ db with locks }, .error (.escaped .overflowError))
          | some ticket => ({ db with locks }, .ok ⟨200, some (.ticket env.sessionKey ticket)⟩)

/-- `LockTicketViewSet.retrieve`. -/
def retrieve (env : Env) : ApiHandler := fun request db =>
  match kwarg request.id, kwarg request.pk with
  | .error failure, _ | _, .error failure => (db, .error failure)
  | .ok userId, .ok lockId =>
      match getOr404 (db.lockAccesses.rows.filter fun access =>
          some (access.userId : Int) = userId ∧ some (access.lockId : Int) = lockId) with
      | .error failure => (db, .error failure)
      | .ok _ => ticket env lockId db

end LockTicketViewSet

/-! ### Routes -/

/-- `base_url`, and a pattern after it. -/
def baseUrl (pattern : List Segment) : List Segment := .literal "users" :: .id :: pattern

section Routes

variable (env : Env)

def lockList : ApiView :=
  ⟨EsloqViewSet.permissionClasses env, [(.get, EsloqViewSet.list)], some LockSerializer.form⟩

def lockDetail : ApiView :=
  ⟨EsloqViewSet.permissionClasses env,
    [(.get, EsloqViewSet.retrieve), (.patch, EsloqViewSet.partialUpdate env)], some LockSerializer.form⟩

def lockAll : ApiView :=
  ⟨[IsAuthenticated.hasPermission], [(.get, AllEsloqViewSet.list)], some LockSerializer.form⟩

def lockaccessList : ApiView :=
  ⟨LockAccessViewSet.permissionClasses env,
    [(.get, LockAccessViewSet.list), (.post, LockAccessViewSet.create env)],
    some LockAccessSerializer.form⟩

def lockaccessDetail : ApiView :=
  ⟨LockAccessViewSet.permissionClasses env,
    [(.get, LockAccessViewSet.retrieve), (.delete, LockAccessViewSet.destroy)],
    some LockAccessSerializer.form⟩

def logList : ApiView :=
  ⟨LogViewSet.permissionClasses env, [(.get, LogViewSet.list), (.post, LogViewSet.create env)],
    some LogSerializer.form⟩

def logDetail : ApiView :=
  ⟨LogViewSet.permissionClasses env, [(.get, LogViewSet.retrieve)], some LogSerializer.form⟩

def userList : ApiView :=
  ⟨EsloqUserViewSet.permissionClasses, [(.get, EsloqUserViewSet.list)], some EsloqUserSerializer.form⟩

def userDetail : ApiView :=
  ⟨EsloqUserViewSet.permissionClasses, [(.get, EsloqUserViewSet.retrieve)],
    some EsloqUserSerializer.form⟩

def fcmregistrationList : ApiView :=
  ⟨FcmRegistrationViewSet.permissionClasses, [(.post, FcmRegistrationViewSet.create env)],
    some FcmRegistrationSerializer.form⟩

def lockticketDetail : ApiView :=
  ⟨LockTicketViewSet.permissionClasses, [(.get, LockTicketViewSet.retrieve env)], none⟩

def userAll : ApiView :=
  ⟨[], [(.post, AllEsloqUserViewSet.create env), (.get, AllEsloqUserViewSet.list)],
    some EsloqUserSerializer.form⟩

def locklogs : ApiView :=
  ⟨LockLogsViewSet.permissionClasses env, [(.delete, LockLogsViewSet.destroy)], some LogSerializer.form⟩

def locklockaccesses : ApiView :=
  ⟨LockLockAccessesViewSet.permissionClasses env, [(.delete, LockLockAccessesViewSet.destroy)],
    some LockAccessSerializer.form⟩

/-- The routes before `format_suffix_patterns`, each without the slash at its end. -/
def patterns : List (List Segment × ApiView) :=
  [(baseUrl [.literal "locks"], lockList env),
    (baseUrl [.literal "locks", .pk], lockDetail env),
    (baseUrl [.literal "locks", .pk, .literal "logs"], locklogs env),
    (baseUrl [.literal "locks", .pk, .literal "lockaccesses"], locklockaccesses env),
    (baseUrl [.literal "locks", .pk, .literal "ticket"], lockticketDetail env),
    ([.literal "locks"], lockAll),
    ([.literal "users"], userAll env),
    (baseUrl [.literal "users"], userList),
    (baseUrl [.literal "users", .pk], userDetail),
    (baseUrl [.literal "lockaccesses"], lockaccessList env),
    (baseUrl [.literal "lockaccesses", .pk], lockaccessDetail env),
    (baseUrl [.literal "logs"], logList env),
    (baseUrl [.literal "logs", .pk], logDetail env),
    (baseUrl [.literal "fcmregistrations"], fcmregistrationList env)]

/-- `urlpatterns`. -/
def urlpatterns : List (Route ApiView) := formatSuffixPatterns (patterns env)

/-- A request to a path, handled alone. -/
def handle (path : List String) (request : ApiRequest) (db : Database) :
    Database × Except Failure (Response Body) :=
  match resolve (urlpatterns env) path with
  | none => (db, .error (.api 404))
  | some (view, kwargs) => view.dispatch (request.withKwargs kwargs) db

/-- What is sent for a request to a path. -/
def getResponse (path : List String) (request : ApiRequest) (db : Database) :
    Database × Except PyError (Rendered Body) :=
  match resolve (urlpatterns env) path with
  | none => (db, .ok ⟨.error 404, none⟩)
  | some (view, kwargs) => view.respond (request.withKwargs kwargs) db

/-- The renderer writes nothing. -/
theorem getResponse_fst (path : List String) (request : ApiRequest) (db : Database) :
    (getResponse env path request db).1 = (handle env path request db).1 := by
  unfold getResponse handle
  cases resolve (urlpatterns env) path with
  | none => rfl
  | some target => rfl

end Routes

end Esloq
