/-
**The permission classes (`permissions.py`).**

* `hasAccess`, `isAdmin`, `hasUsers` — the queries.
* one `hasPermission` for each class a view set uses.
* `AdminOn`, `AccessOn` — what the queries say of a user and a lock, and what each class has
  established once it grants a request.
-/

import Esloq.Lib.Rest
import Esloq.Server.Models

namespace Esloq

open Rest

/-- A request to the API. -/
abbrev ApiRequest := Rest.Request EsloqUser

/-! ### Queries -/

/-- `int` of the digits of an argument of the URL. -/
def digitsValue (digits : String) : Nat := Nat.ofDigitChars 10 digits.toList 0

theorem digitsValue_toString (number : Nat) : digitsValue (toString number) = number := by
  rw [digitsValue, Nat.toString_eq_repr, Nat.toList_repr]
  exact Nat.ofDigitChars_ten_toDigits

/-- `view.kwargs.get('pk', -1)`, as a number. -/
def pkOrMinusOne (request : ApiRequest) : Json :=
  match request.pk with
  | some digits => .int (digitsValue digits)
  | none => .int (-1)

/-- `request.user.id`. -/
def userIdOf (request : ApiRequest) : Option Nat := request.user.map EsloqUser.id

/-- `user_id=user_id, lock_id=lock_id`. -/
def LockAccess.isOf (userId : Option Nat) (lockId : Option Int) (access : LockAccess) : Bool :=
  some access.userId = userId ∧ some (access.lockId : Int) = lockId

/-- `hasAccess`. -/
def hasAccess (fields : Fields) (db : Database) (userId : Option Nat) (lockId : Json) :
    Except Failure Bool :=
  (lookupKey fields.integerOfText lockId).map fun key =>
    db.lockAccesses.rows.any (LockAccess.isOf userId key)

/-- `isAdmin`. -/
def isAdmin (fields : Fields) (db : Database) (userId : Option Nat) (lockId : Json) :
    Except Failure Bool :=
  (lookupKey fields.integerOfText lockId).map fun key =>
    db.lockAccesses.rows.any fun access => access.isOf userId key && access.isAdmin

/-- `hasUsers`. -/
def hasUsers (fields : Fields) (db : Database) (lockId : Json) : Except Failure Bool :=
  (lookupKey fields.integerOfText lockId).map fun key =>
    db.lockAccesses.rows.any fun access => some (access.lockId : Int) = key

/-- `LockAccess.objects.get(id=lock_access_id).lock_id.id`. -/
def lockIdOf (fields : Fields) (db : Database) (lockAccessId : Json) : Except Failure Nat := do
  let key ← lookupKey fields.integerOfText lockAccessId
  let access ← (getOne (db.lockAccesses.rows.filter fun access =>
    some (access.id : Int) = key)).mapError .escaped
  let lock ← (getOne (db.locks.rows.filter fun lock => lock.id = access.lockId)).mapError .escaped
  return lock.id

/-! ### Classes -/

/-- `permissions.IsAuthenticated`. -/
def IsAuthenticated.hasPermission : Permission Database EsloqUser := fun request _ =>
  .ok request.user.isSome

/-- `AuthenticatedUserIsURLUser`; `str(None)` is no number. -/
def AuthenticatedUserIsURLUser.hasPermission : Permission Database EsloqUser := fun request _ =>
  match request.id, request.user with
  | some id, some user => .ok (id = toString user.id)
  | some id, none => .ok (id = "None")
  | none, _ => .ok false

/-- `PostOnlyForSelf`. -/
def PostOnlyForSelf.hasPermission : Permission Database EsloqUser := fun request _ =>
  if request.method = .post then do
    let postUserId ← request.data.getOrMinusOne "user_id"
    match request.user with
    | some user => return equalsNumber user.id postUserId
    | none => return postUserId = .null
  else .ok true

/-- `IsAdmin`. -/
def IsAdmin.hasPermission (fields : Fields) : Permission Database EsloqUser := fun request db =>
  isAdmin fields db (userIdOf request) (pkOrMinusOne request)

/-- `IsAdminOrNoPatch`. -/
def IsAdminOrNoPatch.hasPermission (fields : Fields) : Permission Database EsloqUser :=
  fun request db =>
    if request.method = .patch then isAdmin fields db (userIdOf request) (pkOrMinusOne request)
    else .ok true

/-- `HasAccessOrNoPost`. -/
def HasAccessOrNoPost.hasPermission (fields : Fields) : Permission Database EsloqUser :=
  fun request db =>
    if request.method.safe then .ok true
    else if request.method = .post then do
      let lockId ← request.data.getOrMinusOne "lock_id"
      hasAccess fields db (userIdOf request) lockId
    else do
      let lockId ← lockIdOf fields db (pkOrMinusOne request)
      hasAccess fields db (userIdOf request) (.int lockId)

/-- `ReadOnlyIfNoAdminAndUsers`. -/
def ReadOnlyIfNoAdminAndUsers.hasPermission (fields : Fields) : Permission Database EsloqUser :=
  fun request db =>
    if request.method.safe then .ok true
    else if request.method = .post then do
      let lockId ← request.data.getOrMinusOne "lock_id"
      if ← hasUsers fields db lockId then isAdmin fields db (userIdOf request) lockId
      else return true
    else do
      let lockId ← lockIdOf fields db (pkOrMinusOne request)
      if ← hasAccess fields db (userIdOf request) (.int lockId) then
        isAdmin fields db (userIdOf request) (.int lockId)
      else return true

theorem hasAccessOrNoPost_of_post {fields : Fields} {request : ApiRequest} (db : Database)
    (post : request.method = .post) : HasAccessOrNoPost.hasPermission fields request db =
      request.data.getOrMinusOne "lock_id" >>= hasAccess fields db (userIdOf request) := by
  rw [HasAccessOrNoPost.hasPermission, post, if_neg (by decide), if_pos rfl]

/-! ### What the classes establish -/

/-- The user is admin on the lock. -/
def AdminOn (db : Database) (user : EsloqUser) (lockId : Nat) : Prop :=
  ∃ access ∈ db.lockAccesses.rows,
    access.userId = user.id ∧ access.lockId = lockId ∧ access.isAdmin = true

/-- The user has access on the lock. -/
def AccessOn (db : Database) (user : EsloqUser) (lockId : Nat) : Prop :=
  ∃ access ∈ db.lockAccesses.rows, access.userId = user.id ∧ access.lockId = lockId

section Granted

variable {fields : Fields} {db : Database} {request : ApiRequest} {user : EsloqUser} {lockId : Nat}
  {json : Json}

theorem isOf_iff {access : LockAccess} (caller : request.user = some user) :
    access.isOf (userIdOf request) (some (lockId : Int)) = true ↔
      access.userId = user.id ∧ access.lockId = lockId := by
  rw [LockAccess.isOf, decide_eq_true_iff, userIdOf, caller, Option.map_some, Option.some.injEq,
    Option.some.injEq, Int.natCast_inj]

theorem isAdmin_iff (caller : request.user = some user)
    (converted : lookupKey fields.integerOfText json = .ok (some (lockId : Int))) :
    isAdmin fields db (userIdOf request) json = .ok true ↔ AdminOn db user lockId := by
  rw [isAdmin, converted, Except.map, Except.ok.injEq, List.any_eq_true]
  refine exists_congr fun access => and_congr_right fun _ => ?_
  rw [Bool.and_eq_true, isOf_iff caller, and_assoc]

theorem hasAccess_iff (caller : request.user = some user)
    (converted : lookupKey fields.integerOfText json = .ok (some (lockId : Int))) :
    hasAccess fields db (userIdOf request) json = .ok true ↔ AccessOn db user lockId := by
  rw [hasAccess, converted, Except.map, Except.ok.injEq, List.any_eq_true]
  exact exists_congr fun access => and_congr_right fun _ => isOf_iff caller

theorem hasUsers_of_converted
    (converted : lookupKey fields.integerOfText json = .ok (some (lockId : Int))) :
    hasUsers fields db json = .ok (db.lockAccesses.rows.any fun access => access.lockId = lockId) := by
  rw [hasUsers, converted, Except.map]
  congr 2
  funext access
  rw [decide_eq_decide, Option.some.injEq, Int.natCast_inj]

theorem getOrMinusOne_of_get {data : Data} {name : String} (has : data.get? name = .ok (some json)) :
    data.getOrMinusOne name = .ok json := by
  rw [Data.getOrMinusOne, has]
  rfl

/-- The caller is the user in the URL. -/
theorem caller_of_granted (authenticated : IsAuthenticated.hasPermission request db = .ok true)
    (same : AuthenticatedUserIsURLUser.hasPermission request db = .ok true) :
    ∃ user, request.user = some user ∧ request.id = some (toString user.id) := by
  rw [IsAuthenticated.hasPermission, Except.ok.injEq, Option.isSome_iff_exists] at authenticated
  obtain ⟨user, caller⟩ := authenticated
  rw [AuthenticatedUserIsURLUser.hasPermission, caller] at same
  cases named : request.id with
  | none =>
      rw [named] at same
      cases same
  | some id =>
      rw [named] at same
      exact ⟨user, caller, congrArg some (of_decide_eq_true (Except.ok.inj same))⟩

/-- A `POST` is granted to an admin, and on a lock without accesses. -/
theorem readOnlyIfNoAdminAndUsers_post (caller : request.user = some user)
    (post : request.method = .post) (has : request.data.get? "lock_id" = .ok (some json))
    (converted : lookupKey fields.integerOfText json = .ok (some (lockId : Int)))
    (granted : ReadOnlyIfNoAdminAndUsers.hasPermission fields request db = .ok true) :
    AdminOn db user lockId ∨ ∀ access ∈ db.lockAccesses.rows, access.lockId ≠ lockId := by
  rw [ReadOnlyIfNoAdminAndUsers.hasPermission, post, if_neg (by decide), if_pos rfl,
    getOrMinusOne_of_get has] at granted
  obtain ⟨value, same, granted⟩ := bind_eq_ok.mp granted
  cases same
  rw [hasUsers_of_converted converted] at granted
  obtain ⟨used, same, granted⟩ := bind_eq_ok.mp granted
  cases same
  split at granted
  · exact .inl ((isAdmin_iff caller converted).mp granted)
  · rename_i unused
    refine .inr fun access member same => unused ?_
    exact List.any_eq_true.mpr ⟨access, member, decide_eq_true same⟩

/-- The lock of an access in the URL is that of the row under its key. -/
theorem lockIdOf_eq {digits : String} {access : LockAccess} (pk : request.pk = some digits)
    (member : access ∈ db.lockAccesses.rows) (keyed : access.id = digitsValue digits)
    (found : lockIdOf fields db (pkOrMinusOne request) = .ok lockId) : lockId = access.lockId := by
  rw [pkOrMinusOne, pk, lockIdOf] at found
  obtain ⟨key, converted, found⟩ := bind_eq_ok.mp found
  obtain ⟨row, isRow, found⟩ := bind_eq_ok.mp found
  obtain ⟨lock, isLock, found⟩ := bind_eq_ok.mp found
  cases found
  have ofRow := List.mem_filter.mp (mem_of_getOne (ok_of_mapError isRow))
  have ofLock := List.mem_filter.mp (mem_of_getOne (ok_of_mapError isLock))
  have rowKey : some (row.id : Int) = key := of_decide_eq_true ofRow.2
  rw [parameter_eq_ok converted, Option.some.injEq, Int.natCast_inj, ← keyed] at rowKey
  rw [of_decide_eq_true ofLock.2, db.lockAccesses.eq_of_key ofRow.1 member rowKey]

/-- A `DELETE` of an access is granted to a user with access on its lock only as an admin. -/
theorem readOnlyIfNoAdminAndUsers_delete {digits : String} {access : LockAccess}
    (caller : request.user = some user) (delete : request.method = .delete)
    (pk : request.pk = some digits) (member : access ∈ db.lockAccesses.rows)
    (keyed : access.id = digitsValue digits) (has : AccessOn db user access.lockId)
    (granted : ReadOnlyIfNoAdminAndUsers.hasPermission fields request db = .ok true) :
    AdminOn db user access.lockId := by
  rw [ReadOnlyIfNoAdminAndUsers.hasPermission, delete, if_neg (by decide), if_neg (by decide)]
    at granted
  obtain ⟨lockId, found, granted⟩ := bind_eq_ok.mp granted
  obtain rfl := lockIdOf_eq pk member keyed found
  obtain ⟨permitted, answered, granted⟩ := bind_eq_ok.mp granted
  have converted : lookupKey fields.integerOfText (.int access.lockId) =
      .ok (some (access.lockId : Int)) := parameter_of_map answered
  have permits := (hasAccess_iff caller converted).mpr has
  rw [answered, Except.ok.injEq] at permits
  rw [permits, if_pos rfl] at granted
  exact (isAdmin_iff caller converted).mp granted

theorem hasAccessOrNoPost_post (caller : request.user = some user) (post : request.method = .post)
    (has : request.data.get? "lock_id" = .ok (some json))
    (converted : lookupKey fields.integerOfText json = .ok (some (lockId : Int)))
    (granted : HasAccessOrNoPost.hasPermission fields request db = .ok true) :
    AccessOn db user lockId := by
  rw [HasAccessOrNoPost.hasPermission, post, if_neg (by decide), if_pos rfl,
    getOrMinusOne_of_get has] at granted
  obtain ⟨value, same, granted⟩ := bind_eq_ok.mp granted
  cases same
  exact (hasAccess_iff caller converted).mp granted

theorem postOnlyForSelf_post {userId : Nat} (caller : request.user = some user)
    (post : request.method = .post) (has : request.data.get? "user_id" = .ok (some json))
    (converted : lookupKey fields.integerOfText json = .ok (some (userId : Int)))
    (granted : PostOnlyForSelf.hasPermission request db = .ok true) : userId = user.id := by
  rw [PostOnlyForSelf.hasPermission, if_pos post, getOrMinusOne_of_get has] at granted
  obtain ⟨value, same, granted⟩ := bind_eq_ok.mp granted
  cases same
  rw [caller] at granted
  have key := lookupKey_of_equalsNumber (Except.ok.inj granted) converted
  exact Int.natCast_inj.mp (Option.some.inj key)

/-- The user is admin on the lock in the URL. -/
theorem admin_of_isAdmin {digits : String} (caller : request.user = some user)
    (pk : request.pk = some digits)
    (admin : isAdmin fields db (userIdOf request) (pkOrMinusOne request) = .ok true) :
    AdminOn db user (digitsValue digits) := by
  rw [pkOrMinusOne, pk] at admin
  have converted : lookupKey fields.integerOfText (.int (digitsValue digits)) =
      .ok (some (digitsValue digits : Int)) := parameter_of_map admin
  exact (isAdmin_iff caller converted).mp admin

end Granted

end Esloq
