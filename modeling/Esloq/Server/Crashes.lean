/-
**The requests that crash the server.**

* `Arrives` — what the web framework, the box and the database guarantee of a request.
* `Crashes` — for each route the requests on which an exception leaves the view, and those on which one
  leaves the renderer: a permission class looks up a row the request does not name, or converts a value
  that is no key; a query parameter is missing; a number in the URL is larger than a column holds; a column
  is left null; a text has no encoding; a page asks the permission classes again, for the requests of its
  forms and in the state that the request has left.
* what each permission class and each query set does on the way.
-/

import Esloq.Server.Changes
import Esloq.Server.Reads

namespace Esloq

open Rest

/-! ### The requests -/

/-- The keys of the tables are integers of the database. -/
structure Database.Storable (db : Database) : Prop where
  users : ∀ user ∈ db.users.rows, fits user.id = true
  locks : ∀ lock ∈ db.locks.rows, fits lock.id = true
  lockAccesses : ∀ access ∈ db.lockAccesses.rows, fits access.id = true

/-- A request with an object as its body, from nobody or a user of the database. -/
structure Arrives (env : Env) (request : ApiRequest) (db : Database) : Prop where
  contract : env.box.Contract
  storable : db.Storable
  caller : ∀ user, request.user = some user → user ∈ db.users.rows
  object : ∃ entries, request.data = .fields entries

section Conditions

variable (env : Env) (request : ApiRequest) (db : Database)

/-- The caller is the user in the URL. -/
def OwnUrl (user : EsloqUser) : Prop :=
  request.user = some user ∧ request.id = some (toString user.id)

/-- The response is to be a page. -/
def Browsable : Prop := selectRenderer request = .ok .browsable

/-- The last number of the URL has more than 64 bits. -/
def LargePk : Prop := ∃ digits, request.pk = some digits ∧ fits (digitsValue digits) = false

/-- The last number of the URL is not the key of an access on a lock. -/
def NamesNoAccess : Prop :=
  ∀ digits, request.pk = some digits → ∀ access ∈ db.lockAccesses.rows,
    access.id = digitsValue digits → ∀ lock ∈ db.locks.rows, lock.id ≠ access.lockId

/-- A query parameter is missing or empty. -/
def NoParam (name : String) : Prop :=
  queryParam request name = none ∨ queryParam request name = some ""

/-- The `lock_id` of a body cannot be compared with a key, or the body cannot be read. -/
def Unkeyed (data : Data) : Prop :=
  ∃ error, data.getOrMinusOne "lock_id" >>= lookupKey env.fields.integerOfText =
    .error (.escaped error)

/-- The body cannot be read a second time. -/
def Unreadable : Prop := ∃ error, request.drained = .unreadable error

/-- A field of the body names a key. -/
def Names (name : String) (key : Nat) : Prop :=
  ∃ json, request.data.get? name = .ok (some json) ∧
    lookupKey env.fields.integerOfText json = .ok (some (key : Int))

/-- The method is unsafe, and not `POST`. -/
def Changes : Prop := request.method.safe = false ∧ request.method ≠ .post

/-- The permission classes look an access up under the last number of the URL, for every unsafe method but
`POST`, and a lock under the `lock_id` of the body for `POST`. -/
def LookupFails : Prop :=
  Changes request ∧ NamesNoAccess request db ∨ request.method = .post ∧ Unkeyed env request.data

/-- A `lock_id` that is a key, of a lock without accesses or one the user is admin on. -/
def MayShare (user : EsloqUser) : Prop :=
  ∃ json key, request.data.getOrMinusOne "lock_id" = .ok json ∧
    lookupKey env.fields.integerOfText json = .ok key ∧
    ((∃ lockId : Nat, key = some (lockId : Int) ∧ AdminOn db user lockId) ∨
      ∀ access ∈ db.lockAccesses.rows, some (access.lockId : Int) ≠ key)

/-- The body names the user. -/
def NamesSelf (user : EsloqUser) : Prop :=
  ∃ json, request.data.get? "user_id" = .ok (some json) ∧ equalsNumber user.id json = true

/-- A log by the user of a lock on which they have access. -/
def MayLog (user : EsloqUser) : Prop :=
  (∃ lockId, Names env request "lock_id" lockId ∧ AccessOn db user lockId) ∧ NamesSelf request user

/-- A field of the body is a number of more than 64 bits. -/
def LargeField (name : String) : Prop :=
  ∃ json, request.data.get? name = .ok (some json) ∧
    lookupKey env.fields.integerOfText json = .error (.escaped .overflowError)

/-- A user with a field whose conversion raises, or a valid one with a name without an encoding. -/
def BadUser : Prop :=
  (env.fields.nullableUniqueText request.data "firebase_id" 28).Fails ∨
  (env.fields.text request.data "first_name" 20).Fails ∨
  (env.fields.text request.data "last_name" 20).Fails ∨
  (env.fields.email request.data "email" 50).Fails ∨
  ∃ new, EsloqUserSerializer.isValid env.fields request.data db = .ok new ∧
    (new.firstName = .surrogates ∨ new.lastName = .surrogates)

/-- A lock of the user, the admin, under the last number of the URL, for which a field of the body raises, or
a valid name has no encoding. -/
def BadName (user : EsloqUser) : Prop :=
  ∃ lock ∈ db.locks.rows, request.pk.map digitsValue = some lock.id ∧ AdminOn db user lock.id ∧
    ((env.fields.text request.data "name" 20).Fails ∨ (env.fields.uniqueText request.data "mac" 20).Fails ∨
      LockSerializer.isValid env.fields request.data lock db = .ok (some .surrogates))

/-- A new access of a lock and a user in the tables, without `is_admin`. -/
def NullAdmin : Prop :=
  (∃ lock ∈ db.locks.rows, ∃ user ∈ db.users.rows, Names env request "lock_id" lock.id ∧
    Names env request "user_id" user.id ∧
    ∀ access ∈ db.lockAccesses.rows, ¬ (access.lockId = lock.id ∧ access.userId = user.id)) ∧
  env.fields.boolean request.data "is_admin" = .absent

/-- The time of a log: the one posted, or that of the clock. -/
def postedTime : Int := (env.fields.integer request.data "access_time").given.getD env.now

/-- A log of a lock in the table without `lock_state`, or at a time that has more than 64 bits. -/
def NullState : Prop :=
  (∃ lock ∈ db.locks.rows, Names env request "lock_id" lock.id) ∧
  env.fields.integer request.data "access_time" ≠ .invalid ∧
  env.fields.boolean request.data "lock_state" ≠ .invalid ∧
  (env.fields.boolean request.data "lock_state" = .absent ∨ fits (postedTime env request) = false)

/-- A token whose conversion raises, or which has no encoding. -/
def BadToken : Prop :=
  (env.fields.text request.data "registration_token" 512).Fails ∨
    env.fields.text request.data "registration_token" 512 = .value .surrogates

/-- An access on a lock that has no row, or whose next nonce has more than 64 bits. -/
def NoTicket (user : EsloqUser) : Prop :=
  ∃ digits, request.pk = some digits ∧ AccessOn db user (digitsValue digits) ∧
    ∀ lock ∈ db.locks.rows, lock.id = digitsValue digits → fits (lock.nonce + 1) = false

/-- The last number of the URL is the key of an access on a lock the user is admin on. -/
def NamesAccess (user : EsloqUser) : Prop :=
  ∃ access ∈ db.lockAccesses.rows, request.pk.map digitsValue = some access.id ∧
    AdminOn db user access.lockId

/-- A `POST` that its serializer refuses, with a text that its form cannot repeat. -/
def Garbled (refused : Except Failure Unit) (names : List String) : Prop :=
  request.method = .post ∧ refused = .error (.api 400) ∧ request.data.encodable names = false

end Conditions

/-! ### The routes -/

/-- A condition on a request to a route. -/
abbrev Condition := ApiRequest → Database → Prop

/-- A condition on requests of the user in the URL. -/
def byOwner (condition : EsloqUser → Condition) : Condition := fun request db =>
  ∃ user, OwnUrl request user ∧ condition user request db

/-- No request. -/
def never : Condition := fun _ _ => False

section Routes

variable (env : Env)

def lockDetailCrash : Condition :=
  byOwner fun user request db =>
    (Reads request ∨ request.method = .patch) ∧ LargePk request ∨
      request.method = .patch ∧ BadName env request db user

/-- `locklogs` and `locklockaccesses`: the class looks the lock up for every method. -/
def bulkCrash : Condition := byOwner fun _ request _ => LargePk request

def lockticketCrash : Condition :=
  byOwner fun user request db => Reads request ∧ (LargePk request ∨ NoTicket request db user)

def lockAllCrash : Condition := fun request _ =>
  request.user.isSome ∧ Reads request ∧ NoParam request "mac"

def userAllCrash : Condition := fun request db =>
  Reads request ∧ NoParam request "email" ∨ request.method = .post ∧ BadUser env request db

def userDetailCrash : Condition := byOwner fun _ request _ => Reads request ∧ LargePk request

/-- `OPTIONS` describes the `POST`, whose permissions are checked. -/
def lockaccessListCrash : Condition :=
  byOwner fun user request db =>
    LookupFails env request db ∨ request.method = .options ∧ Unkeyed env request.data ∨
      request.method = .post ∧ MayShare env request db user ∧
        ((env.fields.boolean request.data "is_admin").Fails ∨ LargeField env request "user_id" ∨
          NullAdmin env request db)

def logListCrash : Condition :=
  byOwner fun user request db =>
    LookupFails env request db ∨ request.method = .options ∧ Unkeyed env request.data ∨
      request.method = .post ∧ MayLog env request db user ∧
        ((env.fields.integer request.data "access_time").Fails ∨
          (env.fields.boolean request.data "lock_state").Fails ∨ NullState env request db)

/-- `lockaccessDetail` and `logDetail`. -/
def detailCrash : Condition :=
  byOwner fun _ request db => LookupFails env request db ∨ Reads request ∧ LargePk request

def fcmregistrationListCrash : Condition :=
  byOwner fun user request _ =>
    request.method = .post ∧ NamesSelf request user ∧ BadToken env request

/-- The page of a lock asks for the permission to change it. -/
def lockDetailPage : Condition := byOwner fun _ request _ => LargePk request

def userAllPage : Condition := fun request db =>
  Garbled request ((EsloqUserSerializer.isValid env.fields request.data db).map fun _ => ())
    EsloqUserSerializer.form.repeated

/-- The pages of lists ask for the permission to post, with the body as two copies read it. -/
def lockaccessListPage : Condition :=
  byOwner fun _ request _ =>
    request.method ≠ .post ∧ (Unkeyed env request.data ∨ Unreadable request)

/-- The page of an access asks for the permission to delete it, after it has been deleted too. -/
def lockaccessDetailPage : Condition :=
  byOwner fun user request db =>
    NamesNoAccess request db ∨ request.method = .delete ∧ NamesAccess request db user

def logListPage : Condition :=
  byOwner fun user request db =>
    request.method ≠ .post ∧ (Unkeyed env request.data ∨ Unreadable request) ∨
      MayLog env request db user ∧
        Garbled request ((LogSerializer.isValid env.fields request.data db).map fun _ => ())
          LogSerializer.form.repeated

def fcmregistrationListPage : Condition :=
  byOwner fun user request db =>
    request.method ≠ .post ∧ Unreadable request ∨
      NamesSelf request user ∧
        Garbled request ((FcmRegistrationSerializer.isValid env.fields request.data db).map fun _ => ())
          FcmRegistrationSerializer.form.repeated

/-- What each route crashes on, and what it crashes on if the response is to be a page. -/
def crashes : List (List Segment × Condition × Condition) :=
  [(baseUrl [.literal "locks"], never, never),
    (baseUrl [.literal "locks", .pk], lockDetailCrash env, lockDetailPage),
    (baseUrl [.literal "locks", .pk, .literal "logs"], bulkCrash, never),
    (baseUrl [.literal "locks", .pk, .literal "lockaccesses"], bulkCrash, never),
    (baseUrl [.literal "locks", .pk, .literal "ticket"], lockticketCrash, never),
    ([.literal "locks"], lockAllCrash, never),
    ([.literal "users"], userAllCrash env, userAllPage env),
    (baseUrl [.literal "users"], never, never),
    (baseUrl [.literal "users", .pk], userDetailCrash, never),
    (baseUrl [.literal "lockaccesses"], lockaccessListCrash env, lockaccessListPage env),
    (baseUrl [.literal "lockaccesses", .pk], detailCrash env, lockaccessDetailPage),
    (baseUrl [.literal "logs"], logListCrash env, logListPage env),
    (baseUrl [.literal "logs", .pk], detailCrash env, never),
    (baseUrl [.literal "fcmregistrations"], fcmregistrationListCrash env, fcmregistrationListPage env)]

/-- A request that is not refused meets the condition of its route, or that of its page. -/
def Crashes (path : List String) (request : ApiRequest) (db : Database) : Prop :=
  match resolve (formatSuffixPatterns (crashes env)) path with
  | none => False
  | some ((crash, page), kwargs) =>
      (request.withKwargs kwargs).refused = none ∧ (crash (request.withKwargs kwargs) db ∨
        Browsable (request.withKwargs kwargs) ∧ page (request.withKwargs kwargs) db)

end Routes

/-! ### The permission classes -/

section Classes

variable {env : Env} {request : ApiRequest} {db : Database} {json : Json}

theorem get_eq_ok (object : ∃ entries, request.data = .fields entries) (name : String) :
    ∃ value, request.data.get? name = .ok value := by
  obtain ⟨entries, isObject⟩ := object
  rw [isObject]
  exact ⟨_, rfl⟩

theorem getOrMinusOne_eq_ok (object : ∃ entries, request.data = .fields entries) (name : String) :
    ∃ json, request.data.getOrMinusOne name = .ok json := by
  obtain ⟨value, has⟩ := get_eq_ok object name
  rw [Data.getOrMinusOne, has]
  exact ⟨_, rfl⟩

theorem parameter_of_fits {value : Int} (fit : fits value = true) : parameter value = .ok (some value) :=
  if_pos fit

theorem parameter_of_large {value : Int} (large : fits value = false) :
    parameter value = .error (.escaped .overflowError) := by
  rw [parameter, large, if_neg Bool.false_ne_true]

theorem fine_parameter {value : Int} : Fine (parameter value) ↔ fits value = true := by
  cases fit : fits value with
  | true => exact iff_of_true (parameter_of_fits fit ▸ fine_ok _) rfl
  | false =>
      rw [parameter_of_large fit]
      exact iff_of_false (fun fine => fine_error.mp fine) Bool.false_ne_true

/-- What `int(value)` and the statement raise. -/
theorem lookupKey_eq_error {integerOfText : String → Option Int} {failure : Failure}
    (failed : lookupKey integerOfText json = .error failure) : failure = .escaped .overflowError ∨
      failure = .escaped .valueError ∨ failure = .escaped .typeError := by
  have ofParameter : ∀ value, parameter value = .error failure → failure = .escaped .overflowError := by
    intro value failed
    rw [parameter] at failed
    split at failed
    · cases failed
    · exact (Except.error.inj failed).symm
  unfold lookupKey at failed
  split at failed
  · cases failed
  · cases failed
  · exact .inl (ofParameter _ failed)
  · exact .inl (ofParameter _ failed)
  · exact .inr (.inl (Except.error.inj failed).symm)
  · exact .inl (Except.error.inj failed).symm
  · split at failed
    · exact .inl (ofParameter _ failed)
    · exact .inr (.inl (Except.error.inj failed).symm)
  · exact .inr (.inl (Except.error.inj failed).symm)
  · exact .inr (.inr (Except.error.inj failed).symm)
  · exact .inr (.inr (Except.error.inj failed).symm)

theorem raises_lookupKey {integerOfText : String → Option Int} : Raises (lookupKey integerOfText json) := by
  intro status failed
  rcases lookupKey_eq_error failed with same | same | same
  · cases same
  · cases same
  · cases same

theorem fine_lookupKey (value : request.data.getOrMinusOne "lock_id" = .ok json) :
    Fine (lookupKey env.fields.integerOfText json) ↔ ¬ Unkeyed env request.data := by
  rw [Unkeyed, value, ← raises_lookupKey.calm_iff, Calm, ← not_exists]
  exact Iff.rfl

theorem fine_isAdmin {fields : Fields} :
    Fine (isAdmin fields db (userIdOf request) (pkOrMinusOne request)) ↔ ¬ LargePk request := by
  rw [isAdmin, fine_map, pkOrMinusOne, LargePk]
  cases request.pk with
  | none =>
      refine iff_of_true (fine_parameter.mpr rfl) ?_
      rintro ⟨digits, none', -⟩
      cases none'
  | some digits =>
      refine fine_parameter.trans ?_
      simp only [Option.some.injEq, exists_eq_left', Bool.not_eq_false]

theorem calm_isAdmin {fields : Fields} :
    Calm (isAdmin fields db (userIdOf request) (pkOrMinusOne request)) ↔ ¬ LargePk request := by
  rw [← fine_isAdmin, isAdmin, calm_map, fine_map, raises_lookupKey.calm_iff]

/-- A condition that holds of the rows with a key selects the row. -/
theorem filter_of_key {ρ υ : Type} [DecidableEq υ] {key : ρ → Nat} {columns : List (ρ → Option υ)}
    {table : Table key columns} {row : ρ} {condition : ρ → Bool} (member : row ∈ table.rows)
    (keyed : ∀ other ∈ table.rows, condition other = true ↔ key other = key row) :
    table.rows.filter condition = [row] := by
  have perm : (table.rows.filter condition).Perm [row] := by
    refine (List.perm_ext_iff_of_nodup (table.nodup_rows.filter _) (List.nodup_singleton row)).mpr ?_
    intro other
    rw [List.mem_filter, List.mem_singleton]
    refine ⟨fun ⟨isRow, holds⟩ => table.eq_of_key isRow member ((keyed other isRow).mp holds), ?_⟩
    rintro rfl
    exact ⟨member, (keyed other member).mpr rfl⟩
  exact List.perm_singleton.mp perm

/-- A query for a key finds its row. -/
theorem getOne_of_key {ρ υ : Type} [DecidableEq υ] {key : ρ → Nat} {columns : List (ρ → Option υ)}
    {table : Table key columns} {row : ρ} {condition : ρ → Bool} (member : row ∈ table.rows)
    (keyed : ∀ other, condition other = true ↔ key other = key row) :
    getOne (table.rows.filter condition) = .ok row := by
  rw [filter_of_key member fun other _ => keyed other, getOne]

theorem raises_lockIdOf {fields : Fields} : Raises (lockIdOf fields db json) :=
  raises_lookupKey.bind fun _ _ => (raises_mapError _).bind fun _ _ => (raises_mapError _).bind
    fun _ _ => raises_ok _

/-- The lock of an access is found where both have a row. -/
theorem lockIdOf_eq_ok {fields : Fields} {key : Option Int} {lockId : Nat}
    (converted : lookupKey fields.integerOfText json = .ok key) :
    lockIdOf fields db json = .ok lockId ↔ ∃ access ∈ db.lockAccesses.rows,
      some (access.id : Int) = key ∧ ∃ lock ∈ db.locks.rows, lock.id = access.lockId ∧ lock.id = lockId := by
  constructor
  · intro found
    obtain ⟨key', converted', found⟩ := bind_eq_ok.mp found
    obtain ⟨access, isAccess, found⟩ := bind_eq_ok.mp found
    obtain ⟨lock, isLock, found⟩ := bind_eq_ok.mp found
    cases found
    rw [converted, Except.ok.injEq] at converted'
    subst converted'
    have ofAccess := List.mem_filter.mp (mem_of_getOne (ok_of_mapError isAccess))
    have ofLock := List.mem_filter.mp (mem_of_getOne (ok_of_mapError isLock))
    exact ⟨access, ofAccess.1, of_decide_eq_true ofAccess.2, lock, ofLock.1, of_decide_eq_true ofLock.2, rfl⟩
  · rintro ⟨access, isAccess, keyed, lock, isLock, ofAccess, rfl⟩
    have first : getOne (db.lockAccesses.rows.filter fun other => some (other.id : Int) = key) = .ok access :=
      getOne_of_key isAccess fun other => by
        rw [decide_eq_true_iff, ← keyed, Option.some.injEq, Int.natCast_inj]
    have second : getOne (db.locks.rows.filter fun other => other.id = access.lockId) = .ok lock :=
      getOne_of_key isLock fun other => by rw [decide_eq_true_iff, ofAccess]
    refine bind_eq_ok.mpr ⟨key, converted, bind_eq_ok.mpr ⟨access, ?_, bind_eq_ok.mpr ⟨lock, ?_, rfl⟩⟩⟩
    · rw [first]
      rfl
    · rw [second]
      rfl

theorem fine_lockIdOf {fields : Fields} (storable : db.Storable) :
    Fine (lockIdOf fields db (pkOrMinusOne request)) ↔ ¬ NamesNoAccess request db := by
  rw [raises_lockIdOf.fine_iff]
  constructor
  · rintro ⟨lockId, found⟩ none'
    obtain ⟨key, converted, -⟩ := bind_eq_ok.mp found
    obtain ⟨access, isAccess, keyed, lock, isLock, ofAccess, -⟩ := (lockIdOf_eq_ok converted).mp found
    rw [pkOrMinusOne] at converted
    cases pk : request.pk with
    | none =>
        rw [pk] at converted
        rw [parameter_eq_ok converted, Option.some.injEq] at keyed
        omega
    | some digits =>
        rw [pk] at converted
        rw [parameter_eq_ok converted, Option.some.injEq, Int.natCast_inj] at keyed
        exact none' digits pk access isAccess keyed lock isLock ofAccess
  · intro named
    simp only [NamesNoAccess, not_forall, not_not] at named
    obtain ⟨digits, pk, access, isAccess, keyed, lock, isLock, ofAccess⟩ := named
    have fit := storable.lockAccesses access isAccess
    rw [keyed] at fit
    have converted : lookupKey fields.integerOfText (pkOrMinusOne request) =
        .ok (some (digitsValue digits : Int)) := by
      rw [pkOrMinusOne, pk]
      exact if_pos fit
    refine ⟨lock.id, (lockIdOf_eq_ok converted).mpr ⟨access, isAccess, ?_, lock, isLock, ofAccess, rfl⟩⟩
    rw [keyed]

/-- The number of a lock is a key. -/
theorem lookupKey_of_lockIdOf {fields : Fields} {lockId : Nat} (storable : db.Storable)
    (found : lockIdOf fields db json = .ok lockId) :
    lookupKey fields.integerOfText (.int lockId) = .ok (some (lockId : Int)) := by
  obtain ⟨key, converted, -⟩ := bind_eq_ok.mp found
  obtain ⟨-, -, -, lock, isLock, -, same⟩ := (lockIdOf_eq_ok converted).mp found
  exact if_pos (same ▸ storable.locks lock isLock)

theorem readOnlyIfNoAdminAndUsers_of_post {fields : Fields} (db : Database) (post : request.method = .post) :
    ReadOnlyIfNoAdminAndUsers.hasPermission fields request db =
      (request.data.getOrMinusOne "lock_id" >>= lookupKey fields.integerOfText).map fun key =>
        if db.lockAccesses.rows.any fun access => some (access.lockId : Int) = key then
          db.lockAccesses.rows.any fun access => access.isOf (userIdOf request) key && access.isAdmin
        else true := by
  rw [ReadOnlyIfNoAdminAndUsers.hasPermission, post, if_neg (by decide), if_pos rfl]
  cases request.data.getOrMinusOne "lock_id" with
  | error failure => rfl
  | ok json =>
      show (hasUsers fields db json >>= fun used => if used = true then _ else _) =
        (lookupKey fields.integerOfText json).map _
      rw [hasUsers, isAdmin]
      cases lookupKey fields.integerOfText json with
      | error failure => rfl
      | ok key =>
          show (if _ = true then Except.ok _ else Except.ok true) = Except.ok (if _ = true then _ else true)
          split <;> rfl

/-- For a `POST` both classes escape exactly where the `lock_id` of the body does. -/
theorem calm_lookups_of_post (db : Database) (post : request.method = .post) :
    (Calm (ReadOnlyIfNoAdminAndUsers.hasPermission env.fields request db) ↔ ¬ Unkeyed env request.data) ∧
      (Calm (HasAccessOrNoPost.hasPermission env.fields request db) ↔ ¬ Unkeyed env request.data) := by
  have keyed : Calm (request.data.getOrMinusOne "lock_id" >>= lookupKey env.fields.integerOfText) ↔
      ¬ Unkeyed env request.data := not_exists.symm
  constructor
  · rw [readOnlyIfNoAdminAndUsers_of_post db post, calm_map, keyed]
  · rw [hasAccessOrNoPost_of_post db post, ← keyed]
    cases request.data.getOrMinusOne "lock_id" with
    | error failure => exact calm_error.trans calm_error.symm
    | ok json => exact calm_map

/-- A body that has been read before has no `lock_id`, if it is not one that cannot be read again. -/
theorem unkeyed_drained : Unkeyed env request.drained.data ↔ Unreadable request := by
  rw [Unkeyed, Unreadable]
  cases request.drained with
  | empty =>
      refine iff_of_false ?_ (by rintro ⟨_, ⟨⟩⟩)
      rintro ⟨_, ⟨⟩⟩
  | malformed status =>
      refine iff_of_false ?_ (by rintro ⟨_, ⟨⟩⟩)
      rintro ⟨_, ⟨⟩⟩
  | unreadable error => exact iff_of_true ⟨error, rfl⟩ ⟨error, rfl⟩

/-- For an unsafe method but `POST` both classes fail exactly where the access is not found. -/
theorem fine_lookups_of_changes (storable : db.Storable) (changes : Changes request) :
    (Fine (ReadOnlyIfNoAdminAndUsers.hasPermission env.fields request db) ↔ ¬ NamesNoAccess request db) ∧
      (Fine (HasAccessOrNoPost.hasPermission env.fields request db) ↔ ¬ NamesNoAccess request db) := by
  have unsafe' : ¬ request.method.safe = true := Bool.eq_false_iff.mp changes.1
  rw [ReadOnlyIfNoAdminAndUsers.hasPermission, HasAccessOrNoPost.hasPermission, if_neg unsafe', if_neg unsafe',
    if_neg changes.2, if_neg changes.2, fine_bind, fine_bind, fine_lockIdOf storable]
  refine ⟨and_iff_left fun lockId found => ?_, and_iff_left fun lockId found => ?_⟩
  · have converted := lookupKey_of_lockIdOf storable found
    refine fine_bind.mpr ⟨?_, fun has _ => ?_⟩
    · rw [hasAccess, converted]
      exact fine_ok _
    · split
      · rw [isAdmin, converted]
        exact fine_ok _
      · exact fine_ok _
  · rw [hasAccess, lookupKey_of_lockIdOf storable found]
    exact fine_ok _

theorem calm_readOnly_of_changes (storable : db.Storable) (changes : Changes request) :
    Calm (ReadOnlyIfNoAdminAndUsers.hasPermission env.fields request db) ↔ ¬ NamesNoAccess request db := by
  have raises : Raises (ReadOnlyIfNoAdminAndUsers.hasPermission env.fields request db) := by
    rw [ReadOnlyIfNoAdminAndUsers.hasPermission, if_neg (Bool.eq_false_iff.mp changes.1), if_neg changes.2]
    refine raises_lockIdOf.bind fun lockId _ => raises_lookupKey.map.bind fun has _ => ?_
    split
    · exact raises_lookupKey.map
    · exact raises_ok true
  rw [raises.calm_iff, (fine_lookups_of_changes storable changes).1]

/-- A `DELETE` of an access is granted to an admin on its lock. -/
theorem readOnlyIfNoAdminAndUsers_of_admin {user : EsloqUser} {lockId : Nat} (storable : db.Storable)
    (caller : request.user = some user) (delete : request.method = .delete)
    (found : lockIdOf env.fields db (pkOrMinusOne request) = .ok lockId) (admin : AdminOn db user lockId) :
    ReadOnlyIfNoAdminAndUsers.hasPermission env.fields request db = .ok true := by
  have converted := lookupKey_of_lockIdOf storable found
  obtain ⟨access, isAccess, ofUser, ofLock, -⟩ := id admin
  rw [ReadOnlyIfNoAdminAndUsers.hasPermission, delete, if_neg (by decide), if_neg (by decide)]
  refine bind_eq_ok.mpr ⟨lockId, found, bind_eq_ok.mpr ⟨true, ?_, ?_⟩⟩
  · exact (hasAccess_iff caller converted).mpr ⟨access, isAccess, ofUser, ofLock⟩
  · rw [if_pos rfl]
    exact (isAdmin_iff caller converted).mpr admin

/-- The two classes that look a lock up fail exactly where it is not found. -/
theorem fine_lookups (storable : db.Storable) (object : ∃ entries, request.data = .fields entries) :
    (Fine (ReadOnlyIfNoAdminAndUsers.hasPermission env.fields request db) ↔ ¬ LookupFails env request db) ∧
      (Fine (HasAccessOrNoPost.hasPermission env.fields request db) ↔ ¬ LookupFails env request db) := by
  by_cases safe : request.method.safe = true
  · have finds : ¬ LookupFails env request db := by
      rintro (⟨changes, -⟩ | ⟨post, -⟩)
      · rw [changes.1] at safe
        cases safe
      · rw [post] at safe
        cases safe
    rw [ReadOnlyIfNoAdminAndUsers.hasPermission, HasAccessOrNoPost.hasPermission, if_pos safe, if_pos safe]
    exact ⟨iff_of_true (fine_ok true) finds, iff_of_true (fine_ok true) finds⟩
  · by_cases post : request.method = .post
    · obtain ⟨json, value⟩ := getOrMinusOne_eq_ok object "lock_id"
      have fails : LookupFails env request db ↔ Unkeyed env request.data := by
        rw [LookupFails, Changes, or_iff_right (fun both => both.1.2 post), and_iff_right post]
      rw [fails, readOnlyIfNoAdminAndUsers_of_post db post, hasAccessOrNoPost_of_post db post, value, fine_map]
      exact ⟨fine_lookupKey value, fine_map.trans (fine_lookupKey value)⟩
    · have changes : Changes request := ⟨Bool.eq_false_of_not_eq_true safe, post⟩
      have fails : LookupFails env request db ↔ NamesNoAccess request db := by
        rw [LookupFails, or_iff_left (fun both => post both.1), and_iff_right changes]
      rw [fails]
      exact fine_lookups_of_changes storable changes

/-- With an object as the body `PostOnlyForSelf` answers. -/
theorem postOnlyForSelf_eq_ok (object : ∃ entries, request.data = .fields entries) :
    ∃ granted, PostOnlyForSelf.hasPermission request db = .ok granted := by
  obtain ⟨entries, isObject⟩ := object
  rw [PostOnlyForSelf.hasPermission, isObject]
  split
  · cases request.user with
    | none => exact ⟨_, rfl⟩
    | some user => exact ⟨_, rfl⟩
  · exact ⟨true, rfl⟩

/-- A value that equals the number of a row is converted. -/
theorem lookupKey_of_equalsNumber_fits {number : Nat} {json : Json} (fit : fits number = true)
    (equal : equalsNumber number json = true) :
    lookupKey env.fields.integerOfText json = .ok (some (number : Int)) := by
  cases json with
  | bool value =>
      have converted : lookupKey env.fields.integerOfText (.bool value) =
          .ok (some (if value then 1 else 0)) := rfl
      rw [converted, lookupKey_of_equalsNumber equal converted]
  | int value =>
      have same : (number : Int) = value := of_decide_eq_true equal
      rw [lookupKey, ← same, parameter_of_fits fit]
  | float value =>
      have same : value.den = 1 ∧ value.num = number := of_decide_eq_true equal
      have number' : truncate value = number := by
        rw [truncate, same.1, same.2]
        exact Int.tdiv_one _
      rw [lookupKey, number', parameter_of_fits fit]
  | _ => cases equal

/-- The class grants a `POST` on a lock the caller may share. -/
theorem readOnlyIfNoAdminAndUsers_post_iff {user : EsloqUser} (caller : request.user = some user)
    (post : request.method = .post) (object : ∃ entries, request.data = .fields entries) :
    ReadOnlyIfNoAdminAndUsers.hasPermission env.fields request db = .ok true ↔
      MayShare env request db user := by
  obtain ⟨json, value⟩ := getOrMinusOne_eq_ok object "lock_id"
  have only : MayShare env request db user ↔ ∃ key, lookupKey env.fields.integerOfText json = .ok key ∧
      ((∃ lockId : Nat, key = some (lockId : Int) ∧ AdminOn db user lockId) ∨
        ∀ access ∈ db.lockAccesses.rows, some (access.lockId : Int) ≠ key) := by
    rw [MayShare, value]
    simp only [Except.ok.injEq, exists_and_left, exists_eq_left']
  rw [only, readOnlyIfNoAdminAndUsers_of_post db post, value]
  show (lookupKey env.fields.integerOfText json).map _ = _ ↔ _
  cases converted : lookupKey env.fields.integerOfText json with
  | error failure =>
      refine iff_of_false (fun failed => by cases failed) ?_
      rintro ⟨key, same, -⟩
      cases same
  | ok key =>
      rw [Except.map]
      simp only [Except.ok.injEq, exists_eq_left']
      by_cases used : (db.lockAccesses.rows.any fun access => some (access.lockId : Int) = key) = true
      · obtain ⟨access, isAccess, same⟩ := List.any_eq_true.mp used
        have ofLock := of_decide_eq_true same
        have isUsed : ¬ ∀ access ∈ db.lockAccesses.rows, some (access.lockId : Int) ≠ key :=
          fun unused => unused access isAccess ofLock
        have admin := @isAdmin_iff env.fields db request user access.lockId json caller (ofLock ▸ converted)
        rw [isAdmin, converted, Except.map, Except.ok.injEq] at admin
        rw [if_pos used, or_iff_left isUsed, admin]
        subst ofLock
        refine ⟨fun admin => ⟨_, rfl, admin⟩, ?_⟩
        rintro ⟨lockId, same, admin⟩
        rwa [Int.natCast_inj.mp (Option.some.inj same)]
      · rw [if_neg used]
        refine iff_of_true rfl (.inr fun access isAccess same => used ?_)
        exact List.any_eq_true.mpr ⟨access, isAccess, decide_eq_true same⟩

/-- `PostOnlyForSelf` grants a `POST` for the caller. -/
theorem postOnlyForSelf_post_iff {user : EsloqUser} (caller : request.user = some user)
    (post : request.method = .post) (object : ∃ entries, request.data = .fields entries) :
    PostOnlyForSelf.hasPermission request db = .ok true ↔ NamesSelf request user := by
  obtain ⟨value, has⟩ := get_eq_ok object "user_id"
  rw [PostOnlyForSelf.hasPermission, if_pos post, Data.getOrMinusOne, NamesSelf, has, caller]
  cases value with
  | none =>
      refine iff_of_false (fun same => ?_) ?_
      · have equal : equalsNumber user.id (.int (-1)) = true := Except.ok.inj same
        have negative : (user.id : Int) = -1 := of_decide_eq_true equal
        omega
      · rintro ⟨json, same, -⟩
        cases same
  | some json =>
      show Except.ok (equalsNumber user.id json) = .ok true ↔ _
      simp only [Except.ok.injEq, Option.some.injEq, exists_eq_left']

/-- `PostOnlyForSelf` escapes where the body does. -/
theorem calm_postOnlyForSelf (db : Database) (post : request.method = .post) :
    Calm (PostOnlyForSelf.hasPermission request db) ↔ Calm (request.data.get? "user_id") := by
  rw [PostOnlyForSelf.hasPermission, if_pos post, Data.getOrMinusOne]
  cases request.data.get? "user_id" with
  | error failure => exact calm_error.trans calm_error.symm
  | ok value =>
      refine iff_of_true ?_ (calm_ok value)
      cases request.user <;> exact calm_ok _

/-- A body that has been read before yields nothing, or escapes. -/
theorem calm_drained (name : String) : Calm (request.drained.data.get? name) ↔ ¬ Unreadable request := by
  rw [Unreadable]
  cases request.drained with
  | empty => exact iff_of_true (calm_ok _) (by rintro ⟨_, ⟨⟩⟩)
  | malformed status => exact iff_of_true (calm_api status) (by rintro ⟨_, ⟨⟩⟩)
  | unreadable error => exact iff_of_false (fun calm => calm error rfl) fun never => never ⟨error, rfl⟩

/-- The classes of a new access, of a new log and of a new registration. -/
theorem calm_lockAccessClasses (db : Database) (post : request.method = .post) :
    Calm (checkPermissions [ReadOnlyIfNoAdminAndUsers.hasPermission env.fields] request db) ↔
      ¬ Unkeyed env request.data := by
  rw [calm_checkPermissions_cons, (calm_lookups_of_post db post).1]
  exact and_iff_left fun _ => calm_ok ()

theorem calm_logClasses (db : Database) (post : request.method = .post) :
    Calm (checkPermissions
      [HasAccessOrNoPost.hasPermission env.fields, PostOnlyForSelf.hasPermission] request db) ↔
      ¬ Unkeyed env request.data := by
  rw [calm_checkPermissions_cons, (calm_lookups_of_post db post).2]
  refine and_iff_left fun granted => calm_checkPermissions_cons.mpr ⟨?_, fun _ => calm_ok ()⟩
  rw [hasAccessOrNoPost_of_post db post] at granted
  obtain ⟨json, value, -⟩ := bind_eq_ok.mp granted
  obtain ⟨value, has⟩ := Data.get_of_getOrMinusOne value "user_id"
  exact (calm_postOnlyForSelf db post).mpr (has ▸ calm_ok value)

theorem calm_registrationClasses (db : Database) (post : request.method = .post) :
    Calm (checkPermissions [PostOnlyForSelf.hasPermission] request db) ↔
      Calm (request.data.get? "user_id") := by
  rw [calm_checkPermissions_cons, calm_postOnlyForSelf db post]
  exact and_iff_left fun _ => calm_ok ()

/-- The two classes of a request's own URL grant it to its user. -/
theorem granted_of_own {user : EsloqUser} (own : OwnUrl request user) :
    IsAuthenticated.hasPermission request db = .ok true ∧
      AuthenticatedUserIsURLUser.hasPermission request db = .ok true := by
  rw [IsAuthenticated.hasPermission, AuthenticatedUserIsURLUser.hasPermission, own.1, own.2]
  exact ⟨rfl, congrArg Except.ok (decide_eq_true rfl)⟩

theorem fine_ownUrl : Fine (AuthenticatedUserIsURLUser.hasPermission request db) := by
  rw [AuthenticatedUserIsURLUser.hasPermission]
  split <;> exact fine_ok _

/-- The classes of a request's own URL let only its user pass. -/
theorem passes_ownUrl {rest : List (Permission Database EsloqUser)} {served : Prop} :
    Passes (IsAuthenticated.hasPermission :: AuthenticatedUserIsURLUser.hasPermission :: rest) request db
      served ↔ ∀ user, OwnUrl request user → Passes rest request db served := by
  constructor
  · rintro ⟨-, first⟩ user own
    exact (first (granted_of_own own).1).2 (granted_of_own own).2
  · refine fun owned => ⟨fine_ok _, fun authenticated => ⟨fine_ownUrl, fun same => ?_⟩⟩
    obtain ⟨user, own⟩ := caller_of_granted authenticated same
    exact owned user own

/-- A view for the user in the URL is served well where it is so for that user. -/
theorem owner_dispatch {view : ApiView} {rest : List (Permission Database EsloqUser)}
    {crash : EsloqUser → Condition} (accepted : request.refused = none)
    (classes : view.permissionClasses =
      IsAuthenticated.hasPermission :: AuthenticatedUserIsURLUser.hasPermission :: rest)
    (owned : ∀ user, OwnUrl request user →
      (Passes rest request db (WellServed db (view.handler request.method request db)) ↔
        ¬ crash user request db)) :
    WellServed db (view.dispatch request db) ↔ ¬ byOwner crash request db := by
  rw [View.wellServed_dispatch accepted, classes, passes_ownUrl, byOwner]
  simp only [not_exists, not_and]
  exact forall₂_congr owned

/-- A route on which nothing crashes. -/
theorem owner_dispatch_fine {view : ApiView} {rest : List (Permission Database EsloqUser)}
    (accepted : request.refused = none)
    (classes : view.permissionClasses =
      IsAuthenticated.hasPermission :: AuthenticatedUserIsURLUser.hasPermission :: rest)
    (owned : ∀ user, OwnUrl request user →
      Passes rest request db (WellServed db (view.handler request.method request db))) :
    WellServed db (view.dispatch request db) := by
  rw [View.wellServed_dispatch accepted, classes, passes_ownUrl]
  exact owned

/-- What the classes of a request's own URL leave of the others. -/
theorem calm_ownUrl {rest : List (Permission Database EsloqUser)} :
    Calm (checkPermissions (IsAuthenticated.hasPermission :: AuthenticatedUserIsURLUser.hasPermission :: rest)
      request db) ↔ ∀ user, OwnUrl request user → Calm (checkPermissions rest request db) := by
  have calmFirst : Calm (IsAuthenticated.hasPermission request db) := calm_ok _
  rw [calm_checkPermissions_cons, and_iff_right calmFirst, calm_checkPermissions_cons,
    and_iff_right fine_ownUrl.calm]
  constructor
  · intro granted user own
    exact granted (granted_of_own own).1 (granted_of_own own).2
  · intro owned authenticated same
    obtain ⟨user, own⟩ := caller_of_granted authenticated same
    exact owned user own

theorem checkPermissions_ownUrl {rest : List (Permission Database EsloqUser)} :
    checkPermissions (IsAuthenticated.hasPermission :: AuthenticatedUserIsURLUser.hasPermission :: rest)
      request db = .ok () ↔ ∃ user, OwnUrl request user ∧ checkPermissions rest request db = .ok () := by
  rw [checkPermissions_eq_ok, checkPermissions_eq_ok, List.forall_mem_cons, List.forall_mem_cons]
  constructor
  · rintro ⟨authenticated, same, granted⟩
    obtain ⟨user, own⟩ := caller_of_granted authenticated same
    exact ⟨user, own, granted⟩
  · rintro ⟨user, own, granted⟩
    exact ⟨(granted_of_own own).1, (granted_of_own own).2, granted⟩

/-- The answer to `OPTIONS` of a view for the user in the URL checks the permissions of its `POST`. -/
theorem wellServed_described {view : ApiView} {rest : List (Permission Database EsloqUser)} {user : EsloqUser}
    (classes : view.permissionClasses =
      IsAuthenticated.hasPermission :: AuthenticatedUserIsURLUser.hasPermission :: rest)
    (posts : (view.serializer.isSome && (view.actions.lookup .post).isSome) = true)
    (own : OwnUrl request user) :
    WellServed db (view.options request db) ↔
      Calm (checkPermissions rest { request with method := .post } db) := by
  rw [View.wellServed_options, imp_iff_right posts, classes, calm_ownUrl]
  exact ⟨fun every => every user own, fun calm _ _ => calm⟩

end Classes

/-! ### The query sets -/

section Reading

variable {env : Env} {request : ApiRequest} {db : Database} {user : EsloqUser}

theorem kwarg_own (arrives : Arrives env request db) (own : OwnUrl request user) :
    kwarg request.id = .ok (some (user.id : Int)) := by
  rw [own.2, kwarg, digitsValue_toString]
  exact if_pos (arrives.storable.users user (arrives.caller user own.1))

theorem queried_own {ρ : Type} {queryset : ApiRequest → Database → Except Failure (List ρ)}
    {rows : List ρ} (arrives : Arrives env request db) (own : OwnUrl request user)
    (same : queryset request db = (kwarg request.id).map fun _ => rows) :
    queryset request db = .ok rows := by
  rw [same, kwarg_own arrives own]
  rfl

theorem fine_kwarg {digits : String} : Fine (kwarg (some digits)) ↔ fits (digitsValue digits) = true :=
  fine_parameter

theorem largePk_iff {digits : String} (pk : request.pk = some digits) :
    LargePk request ↔ fits (digitsValue digits) = false := by
  rw [LargePk, pk]
  simp only [Option.some.injEq, exists_eq_left']

/-- A row is looked up under a number that is a key. -/
theorem fine_getObject {ρ υ : Type} [DecidableEq υ] {key : ρ → Nat} {columns : List (ρ → Option υ)}
    {table : Table key columns} {queryset : ApiRequest → Database → Except Failure (List ρ)}
    {shown : ρ → Bool} {digits : String} (pk : request.pk = some digits)
    (queried : queryset request db = .ok (table.rows.filter shown)) :
    Fine (getObject key queryset request db) ↔ ¬ LargePk request := by
  rw [getObject, fine_bind, and_iff_right (queried ▸ fine_ok _), largePk_iff pk, Bool.not_eq_false,
    ← fine_kwarg, pk]
  simp only [queried, Except.ok.injEq, forall_eq']
  rw [fine_bind]
  refine and_iff_left fun number converted => fine_getOr404 ?_ fun first isFirst second isSecond => ?_
  · exact (table.nodup_rows.filter _).filter _
  · rw [List.mem_filter, List.mem_filter, decide_eq_true_iff] at isFirst isSecond
    refine table.eq_of_key isFirst.1.1 isSecond.1.1 ?_
    exact Int.natCast_inj.mp (Option.some.inj (isFirst.2.trans isSecond.2.symm))

/-- The row under the number of the URL is found, if the query set shows it. -/
theorem getObject_of_mem {ρ υ : Type} [DecidableEq υ] {key : ρ → Nat} {columns : List (ρ → Option υ)}
    {table : Table key columns} {queryset : ApiRequest → Database → Except Failure (List ρ)}
    {shown : ρ → Bool} {row : ρ} (pk : request.pk.map digitsValue = some (key row))
    (queried : queryset request db = .ok (table.rows.filter shown)) (keyed : ¬ LargePk request)
    (member : row ∈ table.rows) (shows : shown row = true) :
    getObject key queryset request db = .ok row := by
  obtain ⟨digits, given, number⟩ := Option.map_eq_some_iff.mp pk
  rw [largePk_iff given, Bool.not_eq_false] at keyed
  have only : (table.rows.filter shown).filter (fun other => some (key other : Int) = some (key row : Int)) =
      [row] := by
    rw [List.filter_filter]
    refine filter_of_key member fun other isRow => ?_
    rw [Bool.and_eq_true, decide_eq_true_iff, Option.some.injEq, Int.natCast_inj]
    exact and_iff_left_of_imp fun same => table.eq_of_key isRow member same ▸ shows
  have converted : kwarg request.pk = .ok (some (key row : Int)) := by
    rw [given, kwarg, parameter_of_fits keyed, number]
  exact bind_eq_ok.mpr ⟨_, queried, bind_eq_ok.mpr ⟨_, converted, by rw [only, getOr404]⟩⟩

theorem wellServed_retrieve {ρ υ : Type} [DecidableEq υ] {key : ρ → Nat} {columns : List (ρ → Option υ)}
    {table : Table key columns} {queryset : ApiRequest → Database → Except Failure (List ρ)}
    {shown : ρ → Bool} {show' : ρ → Body} {digits : String} (pk : request.pk = some digits)
    (queried : queryset request db = .ok (table.rows.filter shown)) :
    WellServed db (retrieve key queryset show' request db) ↔ ¬ LargePk request :=
  wellServed_read.trans (fine_getObject pk queried)

theorem wellServed_listing {ρ : Type} {queryset : ApiRequest → Database → Except Failure (List ρ)}
    {show' : List ρ → Body} :
    WellServed db (listing queryset show' request db) ↔ Fine (queryset request db) := wellServed_read

/-- A number that is no key is not that of an access. -/
theorem lookupFails_of_largePk (arrives : Arrives env request db) (changes : Changes request)
    (large : LargePk request) : LookupFails env request db := by
  refine .inl ⟨changes, fun digits pk access isAccess keyed => ?_⟩
  have fit := arrives.storable.lockAccesses access isAccess
  rw [keyed, (largePk_iff pk).mp large] at fit
  cases fit

theorem wellServed_destroyAll {digits : String} {delete : Option Int → Database → Database}
    (pk : request.pk = some digits) :
    WellServed db (destroyAll delete request db) ↔ ¬ LargePk request := by
  rw [largePk_iff pk, Bool.not_eq_false, ← fine_kwarg, destroyAll, pk]
  cases kwarg (some digits) with
  | error failure => exact wellServed_error.trans fine_error.symm
  | ok key => exact iff_of_true ⟨Nat.le_of_ble_eq_true rfl, Nat.le_of_ble_eq_true rfl⟩ (fine_ok key)

/-- The two query parameters have to be there. -/
theorem fine_lookupParam {name : String} : Fine (lookupParam request name) ↔ ¬ NoParam request name := by
  rw [lookupParam, NoParam]
  cases queryParam request name with
  | none => exact iff_of_false (fun fine => fine_error.mp fine) fun never => never (.inl rfl)
  | some value =>
      simp only [reduceCtorEq, false_or, Option.some.injEq]
      cases last : value.toList.getLast? with
      | none =>
          have empty : value = "" := by
            rw [List.getLast?_eq_none_iff] at last
            exact String.toList_eq_nil_iff.mp last
          exact iff_of_false (fun fine => fine_error.mp fine) fun never => never empty
      | some c =>
          have filled : value ≠ "" := by
            rintro rfl
            cases last
          refine iff_of_true ?_ filled
          split
          · cases ‹some c = none›
          · exact fine_ok _
          · exact fine_ok _

theorem AllEsloqViewSet.fine_getQueryset :
    Fine (AllEsloqViewSet.getQueryset request db) ↔ ¬ NoParam request "mac" := by
  rw [AllEsloqViewSet.getQueryset, fine_bind, fine_lookupParam]
  refine and_iff_left fun mac _ => fine_bind.mpr ⟨?_, fun _ _ => fine_ok _⟩
  refine fine_getOr404 (db.locks.nodup_rows.filter _) fun first isFirst second isSecond => ?_
  rw [List.mem_filter, decide_eq_true_iff] at isFirst isSecond
  exact db.locks.eq_of_column List.mem_cons_self isFirst.1 isSecond.1 (congrArg some isFirst.2)
    (congrArg some isSecond.2)

theorem AllEsloqUserViewSet.fine_getQueryset :
    Fine (AllEsloqUserViewSet.getQueryset request db) ↔ ¬ NoParam request "email" := by
  rw [AllEsloqUserViewSet.getQueryset, fine_bind, fine_lookupParam]
  refine and_iff_left fun email _ => fine_bind.mpr ⟨?_, fun _ _ => fine_ok _⟩
  refine fine_getOr404 (db.users.nodup_rows.filter _) fun first isFirst second isSecond => ?_
  rw [List.mem_filter, decide_eq_true_iff] at isFirst isSecond
  exact db.users.eq_of_column (List.mem_cons_of_mem _ List.mem_cons_self) isFirst.1 isSecond.1
    (congrArg some isFirst.2) (congrArg some isSecond.2)

end Reading

end Esloq
