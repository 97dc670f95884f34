/-
**What a user's reads depend on (`views.py`).**

* `SeesLockAccess`, `SeesLock`, `SeesLog`, `SeesUser` — the rows a user may see: the user's own
  accesses and those of the locks the user is admin on, the locks the user has access on, the logs of
  the locks the user is admin on, and the users of these.
* `SeesSame` — two databases in which a user sees the same rows, in the order of the tables.
* the `getQueryset_eq` lemmas — every query set consists of the rows the user may see.
* `Resource.view_agree`, `Resource.showsForm_agree` — the views answer alike in two such databases, and
  their pages show the same forms, but for those with accesses.
* `reads_agree` — the reply to a list or retrieve request is the same; `pages_show_others`: those pages.
-/

import Esloq.Server.Writes

namespace Esloq

open Rest

/-! ### The rows a user may see -/

section Sees

variable (db : Database) (user : EsloqUser)

instance decidableAdminOn (lockId : Nat) : Decidable (AdminOn db user lockId) :=
  List.decidableBEx (fun access : LockAccess =>
    access.userId = user.id ∧ access.lockId = lockId ∧ access.isAdmin = true) db.lockAccesses.rows

instance decidableAccessOn (lockId : Nat) : Decidable (AccessOn db user lockId) :=
  List.decidableBEx (fun access : LockAccess =>
    access.userId = user.id ∧ access.lockId = lockId) db.lockAccesses.rows

/-- The accesses of the user and those of the locks the user is admin on. -/
def SeesLockAccess (access : LockAccess) : Prop :=
  access.userId = user.id ∨ AdminOn db user access.lockId

/-- The locks the user has access on. -/
def SeesLock (lock : EsloqRow) : Prop := AccessOn db user lock.id

/-- The logs of the locks the user is admin on. -/
def SeesLog (log : Log) : Prop := AdminOn db user log.lockId

/-- The user and the users of the locks the user is admin on. -/
def SeesUser (other : EsloqUser) : Prop :=
  other.id = user.id ∨ ∃ access ∈ db.lockAccesses.rows,
    AdminOn db user access.lockId ∧ access.userId = other.id

instance decidableSeesLockAccess : DecidablePred (SeesLockAccess db user) := fun _ =>
  inferInstanceAs (Decidable (_ ∨ _))

instance decidableSeesLock : DecidablePred (SeesLock db user) := fun lock =>
  decidableAccessOn db user lock.id

instance decidableSeesLog : DecidablePred (SeesLog db user) := fun log =>
  decidableAdminOn db user log.lockId

instance decidableSeesUser : DecidablePred (SeesUser db user) := fun other =>
  have := List.decidableBEx (fun access : LockAccess =>
    AdminOn db user access.lockId ∧ access.userId = other.id) db.lockAccesses.rows
  inferInstanceAs (Decidable (_ ∨ _))

end Sees

/-- A user sees the same rows in two databases. -/
structure SeesSame (user : EsloqUser) (first second : Database) : Prop where
  lockAccesses : first.lockAccesses.rows.filter (SeesLockAccess first user ·) =
    second.lockAccesses.rows.filter (SeesLockAccess second user ·)
  locks : first.locks.rows.filter (SeesLock first user ·) =
    second.locks.rows.filter (SeesLock second user ·)
  logs : first.logs.rows.filter (SeesLog first user ·) =
    second.logs.rows.filter (SeesLog second user ·)
  users : first.users.rows.filter (SeesUser first user ·) =
    second.users.rows.filter (SeesUser second user ·)

/-! ### The query sets -/

section Querysets

variable {request : ApiRequest} {user : EsloqUser} (db : Database)

/-- A user in the URL stands for the number. -/
theorem kwarg_of_user (url : request.id = some (toString user.id)) {key : Option Int}
    (converted : kwarg request.id = .ok key) : key = some (user.id : Int) := by
  rw [url] at converted
  rw [kwarg_eq_ok converted, digitsValue_toString]

theorem EsloqViewSet.getQueryset_eq (url : request.id = some (toString user.id)) :
    EsloqViewSet.getQueryset request db =
      (kwarg request.id).map fun _ => db.locks.rows.filter (SeesLock db user ·) := by
  unfold EsloqViewSet.getQueryset
  cases converted : kwarg request.id with
  | error failure => rfl
  | ok key =>
      have own := kwarg_of_user url converted
      subst own
      refine congrArg Except.ok (List.filter_congr fun lock _ => ?_)
      rw [decide_eq_decide, List.mem_map]
      refine exists_congr fun access => ?_
      rw [List.mem_filter, decide_eq_true_iff, Option.some.injEq, Int.natCast_inj, and_assoc]

theorem LogViewSet.getQueryset_eq (url : request.id = some (toString user.id)) :
    LogViewSet.getQueryset request db =
      (kwarg request.id).map fun _ => db.logs.rows.filter (SeesLog db user ·) := by
  unfold LogViewSet.getQueryset
  cases converted : kwarg request.id with
  | error failure => rfl
  | ok key =>
      have own := kwarg_of_user url converted
      subst own
      refine congrArg Except.ok (List.filter_congr fun log _ => ?_)
      rw [decide_eq_decide]
      exact mem_adminLockIds

/-- The two united query sets: an access of the user that is an admin's is one of a lock the user is
admin on. -/
theorem LockAccessViewSet.getQueryset_eq (url : request.id = some (toString user.id)) :
    LockAccessViewSet.getQueryset request db =
      (kwarg request.id).map fun _ => db.lockAccesses.rows.filter (SeesLockAccess db user ·) := by
  unfold LockAccessViewSet.getQueryset
  cases converted : kwarg request.id with
  | error failure => rfl
  | ok key =>
      have own := kwarg_of_user url converted
      subst own
      refine congrArg Except.ok (List.filter_congr fun access member => ?_)
      rw [decide_eq_decide, mem_adminLockIds, Option.some.injEq, Int.natCast_inj]
      constructor
      · rintro (⟨ofUser, -⟩ | admin)
        · exact Or.inl ofUser
        · exact Or.inr admin
      · rintro (ofUser | admin)
        · by_cases isAdmin : access.isAdmin = true
          · exact Or.inr ⟨access, member, ofUser, rfl, isAdmin⟩
          · exact Or.inl ⟨ofUser, Bool.eq_false_of_not_eq_true isAdmin⟩
        · exact Or.inr admin

theorem EsloqUserViewSet.getQueryset_eq (url : request.id = some (toString user.id)) :
    EsloqUserViewSet.getQueryset request db =
      (kwarg request.id).map fun _ => db.users.rows.filter (SeesUser db user ·) := by
  unfold EsloqUserViewSet.getQueryset
  cases converted : kwarg request.id with
  | error failure => rfl
  | ok key =>
      have own := kwarg_of_user url converted
      subst own
      refine congrArg Except.ok (List.filter_congr fun other _ => ?_)
      rw [decide_eq_decide, List.mem_map, Option.some.injEq, Int.natCast_inj, or_comm]
      refine or_congr Iff.rfl (exists_congr fun access => ?_)
      rw [List.mem_filter, decide_eq_true_iff, mem_adminLockIds, and_assoc]

end Querysets

/-! ### Agreement -/

/-- A read is answered alike where its query set is. -/
theorem listing_agree {ρ : Type} {queryset : ApiRequest → Database → Except Failure (List ρ)}
    {show' : List ρ → Body} {request : ApiRequest} {first second : Database}
    (same : queryset request first = queryset request second) :
    (listing queryset show' request first).2 = (listing queryset show' request second).2 := by
  show (queryset request first).map _ = (queryset request second).map _
  rw [same]

theorem retrieve_agree {ρ : Type} {key : ρ → Nat}
    {queryset : ApiRequest → Database → Except Failure (List ρ)} {show' : ρ → Body}
    {request : ApiRequest} {first second : Database}
    (same : queryset request first = queryset request second) :
    (retrieve key queryset show' request first).2 = (retrieve key queryset show' request second).2 := by
  show (getObject key queryset request first).map _ = (getObject key queryset request second).map _
  unfold getObject
  rw [same]

/-- A request that reads. -/
def Reads (request : ApiRequest) : Prop := request.method = .get ∨ request.method = .head

theorem Reads.safe {request : ApiRequest} (reads : Reads request) : request.method.safe = true := by
  rcases reads with method | method
  · rw [method]
    rfl
  · rw [method]
    rfl

theorem Reads.handler {view : ApiView} {request : ApiRequest} (reads : Reads request)
    {action : ApiHandler} (serves : view.actions.lookup .get = some action) :
    view.handler request.method = action := by
  rcases reads with method | method
  · rw [method]
    show (view.actions.lookup .get).getD methodNotAllowed = action
    rw [serves, Option.getD_some]
  · rw [method]
    show (view.actions.lookup .get).getD methodNotAllowed = action
    rw [serves, Option.getD_some]

section Permissions

variable (env : Env) {request : ApiRequest} {first second : Database}

/-- The permission classes of the view sets that are read. -/
def readClasses : List (Permission Database EsloqUser) :=
  [IsAuthenticated.hasPermission, AuthenticatedUserIsURLUser.hasPermission,
    IsAdminOrNoPatch.hasPermission env.fields, ReadOnlyIfNoAdminAndUsers.hasPermission env.fields,
    HasAccessOrNoPost.hasPermission env.fields, PostOnlyForSelf.hasPermission]

/-- They do not look at the database for a safe method. -/
theorem permissions_agree (safe : request.method.safe = true)
    {permission : Permission Database EsloqUser} (member : permission ∈ readClasses env) :
    permission request first = permission request second := by
  have noPatch : request.method ≠ .patch := by
    intro patch
    rw [patch] at safe
    cases safe
  simp only [readClasses, List.mem_cons, List.not_mem_nil, or_false] at member
  rcases member with rfl | rfl | rfl | rfl | rfl | rfl
  · rfl
  · rfl
  · unfold IsAdminOrNoPatch.hasPermission
    rw [if_neg noPatch, if_neg noPatch]
  · unfold ReadOnlyIfNoAdminAndUsers.hasPermission
    rw [if_pos safe, if_pos safe]
  · unfold HasAccessOrNoPost.hasPermission
    rw [if_pos safe, if_pos safe]
  · rfl

/-- A view set under `users/<id>/` answers a read alike where the query set of its caller does. -/
theorem read_agree {view : ApiView} {action : ApiHandler} {user : EsloqUser}
    (caller : request.user = some user) (reads : Reads request)
    (serves : view.actions.lookup .get = some action)
    (classes : view.permissionClasses ⊆ readClasses env)
    (own : AuthenticatedUserIsURLUser.hasPermission ∈ view.permissionClasses)
    (actions : request.id = some (toString user.id) →
      (action request first).2 = (action request second).2) :
    (view.dispatch request first).2 = (view.dispatch request second).2 := by
  refine View.dispatch_agree (fun permission member => ?_) fun granted => ?_
  · exact permissions_agree env reads.safe (classes member)
  · rw [reads.handler serves]
    apply actions
    have url := granted _ own
    unfold AuthenticatedUserIsURLUser.hasPermission at url
    rw [caller] at url
    cases given : request.id with
    | none =>
        rw [given] at url
        cases url
    | some id =>
        rw [given] at url
        exact congrArg some (of_decide_eq_true (Except.ok.inj url))

/-- A read leaves the database. -/
theorem dispatch_fst_of_reads {view : ApiView} (reads : Reads request) (db : Database)
    (gets : ∀ action, (Method.get, action) ∈ view.actions → (action request db).1 = db)
    (others : Method.head ∉ view.actions.map Prod.fst) : (view.dispatch request db).1 = db := by
  refine @View.dispatch_holds _ _ _ view request db (· = db) rfl fun _ method action member serves => ?_
  have isGet : method = .get := by
    rcases serves with same | ⟨-, isGet⟩
    · rcases reads with read | read
      · exact same.symm.trans read
      · exact absurd (List.mem_map.mpr ⟨(method, action), member, same.symm.trans read⟩) others
    · exact isGet
  subst isGet
  exact gets action member

end Permissions

/-! ### Pages -/

section Own

variable {user : EsloqUser} {first second : Database}

/-- What a user's own accesses decide. -/
theorem any_own (same : SeesSame user first second) {condition : LockAccess → Bool}
    (own : ∀ access, condition access = true → access.userId = user.id) :
    first.lockAccesses.rows.any condition = second.lockAccesses.rows.any condition := by
  have ofSeen (db : Database) : db.lockAccesses.rows.any condition =
      (db.lockAccesses.rows.filter (SeesLockAccess db user ·)).any condition := by
    rw [List.any_filter]
    refine List.any_congr rfl fun access => ?_
    cases holds : condition access with
    | false => rw [Bool.and_false]
    | true =>
        have seen : SeesLockAccess db user access := .inl (own access holds)
        rw [decide_eq_true seen, Bool.and_true]
  rw [ofSeen first, ofSeen second, same.lockAccesses]

theorem isOf_own {request : ApiRequest} (caller : request.user = some user) {key : Option Int}
    {access : LockAccess} (isOf : access.isOf (userIdOf request) key = true) :
    access.userId = user.id := by
  rw [LockAccess.isOf, decide_eq_true_iff, userIdOf, caller] at isOf
  exact Option.some.inj isOf.1

theorem isAdmin_agree (same : SeesSame user first second) {fields : Fields} {request : ApiRequest}
    (caller : request.user = some user) (lockId : Json) :
    isAdmin fields first (userIdOf request) lockId = isAdmin fields second (userIdOf request) lockId := by
  rw [isAdmin, isAdmin]
  congr 1
  funext key
  exact any_own same fun access both => isOf_own caller (Bool.and_eq_true_iff.mp both).1

theorem hasAccess_agree (same : SeesSame user first second) {fields : Fields} {request : ApiRequest}
    (caller : request.user = some user) (lockId : Json) :
    hasAccess fields first (userIdOf request) lockId =
      hasAccess fields second (userIdOf request) lockId := by
  rw [hasAccess, hasAccess]
  congr 1
  funext key
  exact any_own same fun access isOf => isOf_own caller isOf

end Own

/-! ### Requests -/

/-- What is listed and retrieved under `users/<id>/`. -/
inductive Resource
  | locks
  | lockaccesses
  | logs
  | users
  deriving DecidableEq

/-- The view of a resource. -/
def Resource.view (env : Env) : Resource → (detail : Bool) → ApiView
  | .locks, false => lockList env
  | .locks, true => lockDetail env
  | .lockaccesses, false => lockaccessList env
  | .lockaccesses, true => lockaccessDetail env
  | .logs, false => logList env
  | .logs, true => logDetail env
  | .users, false => userList
  | .users, true => userDetail

section Agree

variable {request : ApiRequest} {user : EsloqUser} {first second : Database}

/-- Every view answers a read of the user alike in databases in which the user sees the same rows. -/
theorem Resource.view_agree (env : Env) (resource : Resource) (detail : Bool)
    (same : SeesSame user first second) (caller : request.user = some user) (reads : Reads request) :
    ((resource.view env detail).dispatch request first).2 =
      ((resource.view env detail).dispatch request second).2 := by
  have own : ∀ {classes : List (Permission Database EsloqUser)},
      AuthenticatedUserIsURLUser.hasPermission ∈
        IsAuthenticated.hasPermission :: AuthenticatedUserIsURLUser.hasPermission :: classes :=
    List.mem_cons_of_mem _ List.mem_cons_self
  cases resource with
  | locks =>
      have classes : EsloqViewSet.permissionClasses env ⊆ readClasses env := by
        simp [EsloqViewSet.permissionClasses, readClasses]
      have queried (url : request.id = some (toString user.id)) :
          EsloqViewSet.getQueryset request first = EsloqViewSet.getQueryset request second := by
        rw [EsloqViewSet.getQueryset_eq first url, EsloqViewSet.getQueryset_eq second url, same.locks]
      cases detail with
      | false => exact read_agree env caller reads rfl classes own fun url => listing_agree (queried url)
      | true => exact read_agree env caller reads rfl classes own fun url => retrieve_agree (queried url)
  | lockaccesses =>
      have classes : LockAccessViewSet.permissionClasses env ⊆ readClasses env := by
        simp [LockAccessViewSet.permissionClasses, readClasses]
      have queried (url : request.id = some (toString user.id)) :
          LockAccessViewSet.getQueryset request first =
            LockAccessViewSet.getQueryset request second := by
        rw [LockAccessViewSet.getQueryset_eq first url, LockAccessViewSet.getQueryset_eq second url,
          same.lockAccesses]
      cases detail with
      | false => exact read_agree env caller reads rfl classes own fun url => listing_agree (queried url)
      | true => exact read_agree env caller reads rfl classes own fun url => retrieve_agree (queried url)
  | logs =>
      have classes : LogViewSet.permissionClasses env ⊆ readClasses env := by
        simp [LogViewSet.permissionClasses, readClasses]
      have queried (url : request.id = some (toString user.id)) :
          LogViewSet.getQueryset request first = LogViewSet.getQueryset request second := by
        rw [LogViewSet.getQueryset_eq first url, LogViewSet.getQueryset_eq second url, same.logs]
      cases detail with
      | false => exact read_agree env caller reads rfl classes own fun url => listing_agree (queried url)
      | true => exact read_agree env caller reads rfl classes own fun url => retrieve_agree (queried url)
  | users =>
      have classes : EsloqUserViewSet.permissionClasses ⊆ readClasses env := by
        simp [EsloqUserViewSet.permissionClasses, readClasses]
      have queried (url : request.id = some (toString user.id)) :
          EsloqUserViewSet.getQueryset request first = EsloqUserViewSet.getQueryset request second := by
        rw [EsloqUserViewSet.getQueryset_eq first url, EsloqUserViewSet.getQueryset_eq second url,
          same.users]
      cases detail with
      | false => exact read_agree env caller reads rfl classes own fun url => listing_agree (queried url)
      | true => exact read_agree env caller reads rfl classes own fun url => retrieve_agree (queried url)

theorem Resource.dispatch_fst (env : Env) (resource : Resource) (detail : Bool) (reads : Reads request)
    (db : Database) : ((resource.view env detail).dispatch request db).1 = db := by
  refine dispatch_fst_of_reads reads db (fun action member => ?_) ?_
  · cases resource <;> cases detail <;>
      simp only [view, lockList, lockDetail, lockaccessList, lockaccessDetail, logList, logDetail, userList,
        userDetail, List.mem_cons, List.not_mem_nil, or_false, Prod.mk.injEq, reduceCtorEq, false_and,
        true_and] at member <;>
      rw [member] <;> rfl
  · cases resource <;> cases detail <;>
      simp [view, lockList, lockDetail, lockaccessList, lockaccessDetail, logList, logDetail, userList,
        userDetail]

theorem Resource.classes_subset (env : Env) (resource : Resource) (detail : Bool) :
    (resource.view env detail).permissionClasses ⊆ readClasses env := by
  cases resource <;> cases detail <;>
    simp [view, lockList, lockDetail, lockaccessList, lockaccessDetail, logList, logDetail, userList,
      userDetail, EsloqViewSet.permissionClasses, LockAccessViewSet.permissionClasses,
      LogViewSet.permissionClasses, EsloqUserViewSet.permissionClasses, readClasses]

/-- The forms with an unsafe method on a page without accesses: the change of a lock, and a new log. -/
theorem Resource.unsafe_form {env : Env} {resource : Resource} {detail : Bool} {form : Form}
    (other : resource ≠ .lockaccesses) (allowed : (resource.view env detail).allows form.method = true)
    (changes : form.method.safe = false) :
    resource = .locks ∧ detail = true ∧ form.method = .patch ∨
      resource = .logs ∧ detail = false ∧ form.method = .post := by
  cases resource <;> cases detail <;> cases form <;>
    simp_all [View.allows, view, lockList, lockDetail, logList, logDetail, userList, userDetail, Form.method,
      Method.safe]

/-- The forms of a page without accesses are the same in databases in which the user sees the same rows. -/
theorem Resource.showsForm_agree (env : Env) {resource : Resource} (detail : Bool)
    (other : resource ≠ .lockaccesses) (same : SeesSame user first second)
    (caller : request.user = some user) (form : Form) :
    (resource.view env detail).showsForm request first form =
      (resource.view env detail).showsForm request second form := by
  refine Rest.showsForm_agree fun allowed permission member => ?_
  cases safe : form.method.safe with
  | true => exact permissions_agree env safe (resource.classes_subset env detail member)
  | false =>
      rcases Resource.unsafe_form other allowed safe with ⟨rfl, rfl, patch⟩ | ⟨rfl, rfl, post⟩
      · simp only [view, lockDetail, EsloqViewSet.permissionClasses, List.mem_cons, List.not_mem_nil,
          or_false] at member
        rcases member with rfl | rfl | rfl
        · rfl
        · rfl
        · have method : (request.copyFor form).method = .patch := patch
          rw [IsAdminOrNoPatch.hasPermission, IsAdminOrNoPatch.hasPermission, if_pos method, if_pos method]
          exact isAdmin_agree same caller _
      · simp only [view, logList, LogViewSet.permissionClasses, List.mem_cons, List.not_mem_nil,
          or_false] at member
        rcases member with rfl | rfl | rfl | rfl
        · rfl
        · rfl
        · have method : (request.copyFor form).method = .post := post
          rw [hasAccessOrNoPost_of_post first method, hasAccessOrNoPost_of_post second method]
          cases (request.copyFor form).data.getOrMinusOne "lock_id" with
          | error failure => rfl
          | ok lockId => exact hasAccess_agree same caller lockId
        · rfl

/-- No user has access on the lock that a body without a `lock_id` names. -/
theorem hasAccess_minusOne {fields : Fields} (db : Database) (userId : Option Nat) :
    hasAccess fields db userId (.int (-1)) = .ok false := by
  show Except.ok (db.lockAccesses.rows.any (LockAccess.isOf userId (some (-1)))) = _
  refine congrArg Except.ok (List.any_eq_false.mpr fun access _ isOf => ?_)
  rw [LockAccess.isOf, decide_eq_true_iff, Option.some.injEq] at isOf
  omega

/-- A log cannot be posted with a body that has been read before. -/
theorem hasAccessOrNoPost_drained {fields : Fields} (reads : Reads request) (db : Database) :
    HasAccessOrNoPost.hasPermission fields (request.copyFor .post) db ≠ .ok true := by
  have notPost : request.method ≠ .post := by
    intro post
    have safe := reads.safe
    rw [post] at safe
    cases safe
  have data : (request.copyFor .post).data = request.drained.data := by
    rw [Request.copyFor, if_neg notPost, if_neg fun both => by cases both.1]
  have post : (request.copyFor .post).method = .post := rfl
  rw [hasAccessOrNoPost_of_post db post, data]
  cases request.drained with
  | empty =>
      show hasAccess fields db _ (.int (-1)) ≠ _
      rw [hasAccess_minusOne]
      intro same
      cases same
  | malformed status => exact fun same => by cases same
  | unreadable error => exact fun same => by cases same

/-- A page without accesses has no form for new values. -/
theorem Resource.no_new_values (env : Env) {resource : Resource} (detail : Bool)
    (other : resource ≠ .lockaccesses) (reads : Reads request) (db : Database) :
    (resource.view env detail).showsForm request db .post ≠ .ok true ∧
      (resource.view env detail).showsForm request db .put ≠ .ok true := by
  have closed {form : Form} (notAllowed : (resource.view env detail).allows form.method = false) :
      (resource.view env detail).showsForm request db form ≠ .ok true := by
    rw [showsForm_of_not_allowed notAllowed]
    intro same
    cases same
  have noPut : (resource.view env detail).allows Form.put.method = false := by
    cases resource <;> cases detail <;> rfl
  refine ⟨?_, closed noPut⟩
  cases allowed : (resource.view env detail).allows Form.post.method with
  | false => exact closed allowed
  | true =>
      obtain ⟨-, -, impossible⟩ | ⟨rfl, rfl, -⟩ := Resource.unsafe_form other allowed rfl
      · cases impossible
      · rw [View.showsForm, allowed, if_pos rfl]
        split
        · rename_i granted
          have permitted := checkPermissions_eq_ok.mp granted (HasAccessOrNoPost.hasPermission env.fields)
            (by simp [view, logList, LogViewSet.permissionClasses])
          exact absurd permitted (hasAccessOrNoPost_drained reads db)
        · exact fun same => by cases same
        · exact fun same => by cases same

/-- **Reads reveal nothing about locks the user has no part in.** On every path of a list or of a row, with
or without the suffix of a format: whatever the id and the key in the URL, a user's list or retrieve
request has the same outcome, status and body, in all databases in which the user sees the same rows, unless
it is for a page with accesses. -/
theorem reads_agree (env : Env) (resource : Resource) (detail : Bool) {path : List String} {kwargs : Kwargs}
    (leads : resolve (urlpatterns env) path = some (resource.view env detail, kwargs))
    (same : SeesSame user first second) (caller : request.user = some user) (reads : Reads request)
    (plain : resource = .lockaccesses → selectRenderer (request.withKwargs kwargs) ≠ .ok .browsable) :
    (getResponse env path request first).2 = (getResponse env path request second).2 := by
  have reads' : Reads (request.withKwargs kwargs) := reads
  rw [getResponse, getResponse, leads]
  refine View.respond_agree (resource.view_agree env detail same caller reads') fun browsable response => ?_
  have other : resource ≠ .lockaccesses := fun isAccesses => plain isAccesses browsable
  rw [resource.dispatch_fst env detail reads', resource.dispatch_fst env detail reads']
  exact browse_agree (Resource.showsForm_agree env detail other same caller)
    (Resource.no_new_values env detail other reads' second)

end Agree

/-- A household: a user and the lock the user is admin on. -/
def household : Database where
  users := ⟨[⟨1, none, "Ann", "A", "a@x"⟩], 2, by decide, List.pairwise_singleton _ _⟩
  locks := ⟨[⟨1, "00:00:00:00:00:01", Bytes.zeros 32, "Front", 0⟩], 2, by decide,
    List.pairwise_singleton _ _⟩
  lockAccesses := ⟨[⟨1, 1, 1, true⟩], 2, by decide, List.pairwise_singleton _ _⟩
  logs := ⟨[⟨1, 1, 1, 5, true⟩], 2, by decide, List.pairwise_singleton _ _⟩
  fcmRegistrations := sampleDatabase.fcmRegistrations

/-- The household beside another one. -/
def households : Database where
  users := ⟨[⟨1, none, "Ann", "A", "a@x"⟩, ⟨2, none, "Bob", "B", "b@x"⟩], 3, by decide,
    List.pairwise_pair.mpr ⟨by decide, by decide⟩⟩
  locks := ⟨[⟨1, "00:00:00:00:00:01", Bytes.zeros 32, "Front", 0⟩,
    ⟨2, "00:00:00:00:00:02", Bytes.zeros 32, "Back", 7⟩], 3, by decide,
    List.pairwise_pair.mpr ⟨by decide, by decide⟩⟩
  lockAccesses := ⟨[⟨1, 1, 1, true⟩, ⟨2, 2, 2, true⟩], 3, by decide,
    List.pairwise_pair.mpr ⟨by decide, by decide⟩⟩
  logs := ⟨[⟨1, 1, 1, 5, true⟩, ⟨2, 2, 2, 6, false⟩], 3, by decide,
    List.pairwise_pair.mpr ⟨by decide, by decide⟩⟩
  fcmRegistrations := sampleDatabase.fcmRegistrations

/-- The user of the household. -/
def ann : EsloqUser := ⟨1, none, "Ann", "A", "a@x"⟩

theorem sees_household : SeesSame ann household households :=
  ⟨by decide +kernel, by decide +kernel, by decide +kernel, by decide +kernel⟩

theorem reads_agree_households :
    (getResponse sampleEnv ["users", "1", "logs.api"] (jsonRequest .get (some ann) []) household).2 =
      (getResponse sampleEnv ["users", "1", "logs.api"] (jsonRequest .get (some ann) []) households).2 :=
  @reads_agree (jsonRequest .get (some ann) []) ann household households sampleEnv .logs false _
    ⟨some "1", none, some "api"⟩ rfl sees_household rfl (Or.inl rfl) (by decide)

/-- **The pages with accesses show the others.** The form for a new access offers all locks and all users,
and the page of a row that the user does not see cannot be made where there is none. -/
theorem pages_show_others : SeesSame ann household households ∧
    (getResponse sampleEnv ["users", "1", "lockaccesses.api"] (jsonRequest .get (some ann) []) household).2 ≠
      (getResponse sampleEnv ["users", "1", "lockaccesses.api"] (jsonRequest .get (some ann) [])
        households).2 ∧
    (getResponse sampleEnv ["users", "1", "lockaccesses", "2.api"] (jsonRequest .get (some ann) [])
        household).2 ≠
      (getResponse sampleEnv ["users", "1", "lockaccesses", "2.api"] (jsonRequest .get (some ann) [])
        households).2 :=
  ⟨sees_household, by decide +kernel, by decide +kernel⟩

end Esloq
