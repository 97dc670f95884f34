/-
**Which writes the API lets through.**

* `Written` — what a request does to the tables, in eight cases, each with what was established about the
  caller; `handle_written` covers all routes, methods and bodies.
* `Authorised` — every change of the accesses, logs and locks is one the caller may make.
* `writes_authorised` — it is so for every request in every state of the database.
-/

import Esloq.Server.Authentication
import Esloq.Server.Views

namespace Esloq

open Rest

/-- The caller is the user in the URL. -/
def IsUrlUser (path : List String) (caller : Option EsloqUser) (user : EsloqUser) : Prop :=
  caller = some user ∧ ∃ rest, path = "users" :: toString user.id :: rest

section Effect

variable (path : List String) (caller : Option EsloqUser) (method : Method)

/-- What a request does to the tables. -/
inductive Written (before : Database) : Database → Prop
  | nothing : Written before before
  | user (users) : Written before { before with users }
  | fcmRegistration (fcmRegistrations) : Written before { before with fcmRegistrations }
  | accessCreated (user : EsloqUser) (isUser : IsUrlUser path caller user) (post : method = .post)
      (access : LockAccess) (lockAccesses)
      (added : lockAccesses.rows = before.lockAccesses.rows ++ [access])
      (permitted : AdminOn before user access.lockId ∨
        ∀ other ∈ before.lockAccesses.rows, other.lockId ≠ access.lockId) :
      Written before { before with lockAccesses }
  | accessesDeleted (user : EsloqUser) (isUser : IsUrlUser path caller user)
      (condition : LockAccess → Bool)
      (permitted : ∀ access ∈ before.lockAccesses.rows, condition access = true →
        AdminOn before user access.lockId) :
      Written before { before with lockAccesses := before.lockAccesses.delete condition }
  | logCreated (user : EsloqUser) (isUser : IsUrlUser path caller user) (log : Log) (logs)
      (added : logs.rows = before.logs.rows ++ [log]) (permitted : AccessOn before user log.lockId)
      (own : log.userId = user.id) : Written before { before with logs }
  | logsDeleted (user : EsloqUser) (isUser : IsUrlUser path caller user) (condition : Log → Bool)
      (permitted : ∀ log ∈ before.logs.rows, condition log = true → AdminOn before user log.lockId) :
      Written before { before with logs := before.logs.delete condition }
  | lockSaved (user : EsloqUser) (isUser : IsUrlUser path caller user) (old new : EsloqRow) (locks)
      (isOld : old ∈ before.locks.rows)
      (kept : new.id = old.id ∧ new.mac = old.mac ∧ new.key = old.key)
      (saved : locks.rows = before.locks.rows.map fun lock => if lock.id = new.id then new else lock)
      (permitted : new.nonce = old.nonce ∧ AdminOn before user old.id ∨
        new.name = old.name ∧ AccessOn before user old.id) :
      Written before { before with locks }

end Effect

/-! ### One view each -/

section Views

variable {env : Env} {path : List String} {request : ApiRequest} {db : Database}

/-- Actions that only read write nothing. -/
theorem written_of_reads {view : ApiView}
    (reads : ∀ pair ∈ view.actions, ∃ answer, pair.2 = read answer) :
    Written path request.user request.method db (view.dispatch request db).1 := by
  refine View.dispatch_holds .nothing fun _ method action member _ => ?_
  obtain ⟨answer, isRead⟩ := reads (method, action) member
  rw [show action = read answer from isRead]
  exact .nothing

/-- The first argument of the URL is the second part of the path. -/
def UrlOf (path : List String) (request : ApiRequest) : Prop :=
  ∃ id rest, path = "users" :: id :: rest ∧ request.id = some id

/-- The caller of a view under `AuthenticatedUserIsURLUser` is the user in the URL. -/
theorem UrlOf.isUrlUser (url : UrlOf path request) {rest : List (Permission Database EsloqUser)}
    (granted : ∀ permission ∈ IsAuthenticated.hasPermission ::
      AuthenticatedUserIsURLUser.hasPermission :: rest, permission request db = .ok true) :
    ∃ user, IsUrlUser path request.user user ∧ request.id = some (toString user.id) ∧
      ∀ permission ∈ rest, permission request db = .ok true := by
  rw [List.forall_mem_cons, List.forall_mem_cons] at granted
  obtain ⟨authenticated, same, others⟩ := granted
  obtain ⟨user, caller, named⟩ := caller_of_granted authenticated same
  obtain ⟨id, tail, isPath, isId⟩ := url
  rw [named, Option.some.injEq] at isId
  exact ⟨user, ⟨caller, tail, by rw [isPath, isId]⟩, named, others⟩

theorem userAll_written :
    Written path request.user request.method db ((userAll env).dispatch request db).1 := by
  refine View.dispatch_holds .nothing fun _ method action member _ => ?_
  simp only [userAll, List.mem_cons, List.not_mem_nil, or_false, Prod.mk.injEq] at member
  rcases member with ⟨rfl, rfl⟩ | ⟨rfl, rfl⟩
  · rcases create_fst with same | ⟨new, after, body, -, saved, same⟩
    · rw [AllEsloqUserViewSet.create, same]
      exact .nothing
    · rw [AllEsloqUserViewSet.create, same, EsloqUserSerializer.save_spec saved]
      exact .user _
  · exact .nothing

theorem fcmregistrationList_written :
    Written path request.user request.method db ((fcmregistrationList env).dispatch request db).1 := by
  refine View.dispatch_holds .nothing fun _ method action member _ => ?_
  simp only [fcmregistrationList, List.mem_cons, List.not_mem_nil, or_false, Prod.mk.injEq] at member
  obtain ⟨rfl, rfl⟩ := member
  rcases create_fst with same | ⟨new, after, body, -, saved, same⟩
  · rw [FcmRegistrationViewSet.create, same]
    exact .nothing
  · rw [FcmRegistrationViewSet.create, same, FcmRegistrationSerializer.save_spec saved]
    exact .fcmRegistration _

theorem lockaccessList_written (url : UrlOf path request) :
    Written path request.user request.method db ((lockaccessList env).dispatch request db).1 := by
  refine View.dispatch_holds .nothing fun granted method action member serves => ?_
  simp only [lockaccessList, List.mem_cons, List.not_mem_nil, or_false, Prod.mk.injEq] at member
  rcases member with ⟨rfl, rfl⟩ | ⟨rfl, rfl⟩
  · exact .nothing
  · obtain ⟨user, isUser, -, others⟩ := url.isUrlUser granted
    have post : request.method = .post := serves.resolve_right fun head => by cases head.2
    rcases create_fst with same | ⟨new, after, body, valid, saved, same⟩
    · rw [LockAccessViewSet.create, same]
      exact .nothing
    · rw [LockAccessViewSet.create, same]
      obtain ⟨json, has, converted⟩ := (LockAccessSerializer.isValid_spec valid).1
      obtain ⟨frame, access, ofLock, -, added⟩ := LockAccessSerializer.save_spec saved
      rw [frame]
      refine .accessCreated user isUser post access after.lockAccesses added ?_
      rw [ofLock]
      exact readOnlyIfNoAdminAndUsers_post isUser.1 post has converted
        (others _ List.mem_cons_self)

/-- What the query set of the accesses shows a user: their own, and those of locks they are admin on. -/
theorem of_mem_lockAccesses {user : EsloqUser} {rows : List LockAccess} {access : LockAccess}
    (named : request.id = some (toString user.id))
    (queried : LockAccessViewSet.getQueryset request db = .ok rows) (member : access ∈ rows) :
    access ∈ db.lockAccesses.rows ∧ (access.userId = user.id ∨ AdminOn db user access.lockId) := by
  rw [LockAccessViewSet.getQueryset, named] at queried
  obtain ⟨userId, converted, queried⟩ := bind_eq_ok.mp queried
  cases queried
  rw [kwarg_eq_ok converted, digitsValue_toString, List.mem_filter, decide_eq_true_iff,
    Option.some.injEq, Int.natCast_inj, mem_adminLockIds] at member
  exact ⟨member.1, member.2.imp_left And.left⟩

/-- The row that a granted `DELETE` finds is of a lock on which the caller is admin: the permission class
lets a user without access pass, but the query set shows such a user no access of the lock. -/
theorem admin_of_found {fields : Fields} {user : EsloqUser} {access : LockAccess}
    (caller : request.user = some user) (named : request.id = some (toString user.id))
    (delete : request.method = .delete)
    (granted : ReadOnlyIfNoAdminAndUsers.hasPermission fields request db = .ok true)
    (found : getObject LockAccess.id LockAccessViewSet.getQueryset request db = .ok access) :
    access ∈ db.lockAccesses.rows ∧ AdminOn db user access.lockId := by
  obtain ⟨rows, digits, queried, pk, member, keyed⟩ := getObject_eq_ok found
  obtain ⟨inTable, shown⟩ := of_mem_lockAccesses named queried member
  refine ⟨inTable, shown.elim (fun own => ?_) id⟩
  exact readOnlyIfNoAdminAndUsers_delete caller delete pk inTable keyed ⟨access, inTable, own, rfl⟩
    granted

theorem lockaccessDetail_written (url : UrlOf path request) :
    Written path request.user request.method db ((lockaccessDetail env).dispatch request db).1 := by
  refine View.dispatch_holds .nothing fun granted method action member serves => ?_
  simp only [lockaccessDetail, List.mem_cons, List.not_mem_nil, or_false, Prod.mk.injEq] at member
  rcases member with ⟨rfl, rfl⟩ | ⟨rfl, rfl⟩
  · exact .nothing
  · obtain ⟨user, isUser, named, others⟩ := url.isUrlUser granted
    have delete : request.method = .delete := serves.resolve_right fun head => by cases head.2
    rcases destroy_fst with same | ⟨access, found, same⟩
    · rw [LockAccessViewSet.destroy, same]
      exact .nothing
    · rw [LockAccessViewSet.destroy, same]
      obtain ⟨inTable, admin⟩ := admin_of_found isUser.1 named delete (others _ List.mem_cons_self)
        found
      refine .accessesDeleted user isUser _ fun other isOther sameKey => ?_
      rwa [db.lockAccesses.eq_of_key isOther inTable (of_decide_eq_true sameKey)]

theorem logList_written (url : UrlOf path request) :
    Written path request.user request.method db ((logList env).dispatch request db).1 := by
  refine View.dispatch_holds .nothing fun granted method action member serves => ?_
  simp only [logList, List.mem_cons, List.not_mem_nil, or_false, Prod.mk.injEq] at member
  rcases member with ⟨rfl, rfl⟩ | ⟨rfl, rfl⟩
  · exact .nothing
  · obtain ⟨user, isUser, -, others⟩ := url.isUrlUser granted
    have post : request.method = .post := serves.resolve_right fun head => by cases head.2
    rcases create_fst with same | ⟨new, after, body, valid, saved, same⟩
    · rw [LogViewSet.create, same]
      exact .nothing
    · rw [LogViewSet.create, same]
      obtain ⟨⟨lock, hasLock, ofLock⟩, ⟨own, hasUser, ofUser⟩⟩ := LogSerializer.isValid_spec valid
      obtain ⟨frame, log, onLock, byUser, added⟩ := LogSerializer.save_spec saved
      rw [frame]
      refine .logCreated user isUser log after.logs added ?_ ?_
      · rw [onLock]
        exact hasAccessOrNoPost_post isUser.1 post hasLock ofLock (others _ List.mem_cons_self)
      · rw [byUser]
        exact postOnlyForSelf_post isUser.1 post hasUser ofUser
          (others _ (List.mem_cons_of_mem _ List.mem_cons_self))

/-- The two bulk deletions remove rows of the lock in the URL. -/
theorem destroyAll_written (url : UrlOf path request)
    (granted : ∀ permission ∈ [IsAuthenticated.hasPermission,
      AuthenticatedUserIsURLUser.hasPermission, IsAdmin.hasPermission env.fields],
      permission request db = .ok true)
    {delete : Option Int → Database → Database}
    (deletes : ∀ user lockId, IsUrlUser path request.user user → AdminOn db user lockId →
      Written path request.user request.method db (delete (some (lockId : Int)) db)) :
    Written path request.user request.method db (destroyAll delete request db).1 := by
  obtain ⟨user, isUser, -, others⟩ := url.isUrlUser granted
  rw [destroyAll]
  split
  · exact .nothing
  · rename_i lockId converted
    cases pk : request.pk with
    | none =>
        rw [pk] at converted
        cases converted
    | some digits =>
        rw [pk] at converted
        rw [kwarg_eq_ok converted]
        exact deletes user _ isUser (admin_of_isAdmin isUser.1 pk (others _ List.mem_cons_self))

theorem locklogs_written (url : UrlOf path request) :
    Written path request.user request.method db ((locklogs env).dispatch request db).1 := by
  refine View.dispatch_holds .nothing fun granted method action member _ => ?_
  simp only [locklogs, List.mem_cons, List.not_mem_nil, or_false, Prod.mk.injEq] at member
  obtain ⟨rfl, rfl⟩ := member
  refine destroyAll_written url granted fun user lockId isUser admin => ?_
  refine .logsDeleted user isUser _ fun log _ ofLock => ?_
  have same : some (log.lockId : Int) = some (lockId : Int) := of_decide_eq_true ofLock
  rwa [Int.natCast_inj.mp (Option.some.inj same)]

theorem locklockaccesses_written (url : UrlOf path request) :
    Written path request.user request.method db ((locklockaccesses env).dispatch request db).1 := by
  refine View.dispatch_holds .nothing fun granted method action member _ => ?_
  simp only [locklockaccesses, List.mem_cons, List.not_mem_nil, or_false, Prod.mk.injEq] at member
  obtain ⟨rfl, rfl⟩ := member
  refine destroyAll_written url granted fun user lockId isUser admin => ?_
  refine .accessesDeleted user isUser _ fun access _ ofLock => ?_
  have same : some (access.lockId : Int) = some (lockId : Int) := of_decide_eq_true ofLock
  rwa [Int.natCast_inj.mp (Option.some.inj same)]

theorem lockDetail_written (url : UrlOf path request) :
    Written path request.user request.method db ((lockDetail env).dispatch request db).1 := by
  refine View.dispatch_holds .nothing fun granted method action member serves => ?_
  simp only [lockDetail, List.mem_cons, List.not_mem_nil, or_false, Prod.mk.injEq] at member
  rcases member with ⟨rfl, rfl⟩ | ⟨rfl, rfl⟩
  · exact .nothing
  · obtain ⟨user, isUser, -, others⟩ := url.isUrlUser granted
    have patch : request.method = .patch := serves.resolve_right fun head => by cases head.2
    rcases partialUpdate_fst with same | ⟨lock, new, after, body, found, -, updated, same⟩
    · rw [EsloqViewSet.partialUpdate, same]
      exact .nothing
    · rw [EsloqViewSet.partialUpdate, same]
      obtain ⟨rows, digits, queried, pk, member, keyed⟩ := getObject_eq_ok found
      obtain ⟨userId, -, queried⟩ := bind_eq_ok.mp queried
      cases queried
      have granted := others _ List.mem_cons_self
      rw [IsAdminOrNoPatch.hasPermission, if_pos patch] at granted
      have admin := admin_of_isAdmin isUser.1 pk granted
      rw [← keyed] at admin
      obtain ⟨frame, name, saved⟩ := LockSerializer.update_spec updated
      rw [frame]
      exact .lockSaved user isUser lock { lock with name } after.locks
        (List.mem_of_mem_filter member) ⟨rfl, rfl, rfl⟩ saved (.inl ⟨rfl, admin⟩)

theorem ticket_written {user : EsloqUser} {lockId : Option Int}
    (isUser : IsUrlUser path request.user user)
    (permitted : ∀ id : Nat, some (id : Int) = lockId → AccessOn db user id) :
    Written path request.user request.method db (LockTicketViewSet.ticket env lockId db).1 := by
  rw [LockTicketViewSet.ticket]
  split
  · exact .nothing
  · rename_i lock found
    have ofLock := List.mem_filter.mp (mem_of_getOne found)
    have access := permitted lock.id (of_decide_eq_true ofLock.2)
    cases converted : parameter lock.raise.nonce with
    | error failure =>
        simp only [getlockticket, converted]
        exact .nothing
    | ok _ =>
        cases saved : db.locks.save lock.raise with
        | none =>
            simp only [getlockticket, converted, saved]
            exact .nothing
        | some locks =>
            have written : Written path request.user request.method db { db with locks } :=
              .lockSaved user isUser lock lock.raise locks ofLock.1 ⟨rfl, rfl, rfl⟩
                (Table.rows_of_save saved) (.inr ⟨rfl, access⟩)
            simp only [getlockticket, converted, saved]
            cases ticketOf env.box env.sessionKey lock.raise with
            | none => exact written
            | some ticket => exact written

theorem lockticketDetail_written (url : UrlOf path request) :
    Written path request.user request.method db ((lockticketDetail env).dispatch request db).1 := by
  refine View.dispatch_holds .nothing fun granted method action member _ => ?_
  simp only [lockticketDetail, List.mem_cons, List.not_mem_nil, or_false, Prod.mk.injEq] at member
  obtain ⟨rfl, rfl⟩ := member
  obtain ⟨user, isUser, named, -⟩ := url.isUrlUser granted
  rw [LockTicketViewSet.retrieve]
  split
  · exact .nothing
  · exact .nothing
  · rename_i userId lockId ofUser _
    split
    · exact .nothing
    · rename_i access found
      refine ticket_written isUser fun id isLock => ?_
      obtain ⟨member, both⟩ := List.mem_filter.mp (mem_of_getOr404 found)
      have both := of_decide_eq_true both
      rw [named] at ofUser
      rw [kwarg_eq_ok ofUser, digitsValue_toString, ← isLock, Option.some.injEq, Option.some.injEq,
        Int.natCast_inj, Int.natCast_inj] at both
      exact ⟨access, member, both⟩

/-- The first argument that a pattern under `base_url` takes is the second part of the path. -/
theorem urlOf_of_matchPath {segment : Segment} {pattern : List Segment} {suffixed : Bool}
    {ps : List String} {kwargs : Kwargs} (split : parts suffixed path = some (ps, kwargs.format))
    (matched : matchPath (baseUrl (segment :: pattern)) ps = some (kwargs.id, kwargs.pk)) :
    UrlOf path (request.withKwargs kwargs) := by
  obtain ⟨rest, rfl, matched⟩ := matchPath_literal.mp matched
  obtain ⟨id, rest, other, rfl, -, named, matched⟩ := matchPath_id.mp matched
  cases rest with
  | nil => cases segment <;> cases matched
  | cons next rest =>
      obtain ⟨after, isPath⟩ := dropLast_prefix_of_parts split
      exact ⟨id, (next :: rest).dropLast ++ after, isPath.symm, named⟩

end Views

/-! ### All routes -/

/-- A view that has one action, which reads. -/
theorem written_of_read {path : List String} {request : ApiRequest} {db : Database}
    {serializer : Option (FormFields Database)} (permissions : List (Permission Database EsloqUser))
    (answer : ApiRequest → Database → Except Failure (Response Body)) :
    Written path request.user request.method db
      ((⟨permissions, [(.get, read answer)], serializer⟩ : ApiView).dispatch request db).1 :=
  written_of_reads fun pair member => ⟨answer, by rw [List.mem_singleton.mp member]⟩

/-- **What a request does to the tables.** -/
theorem handle_written (env : Env) (path : List String) (request : ApiRequest) (db : Database) :
    Written path request.user request.method db (handle env path request db).1 := by
  rw [handle]
  cases resolved : resolve (urlpatterns env) path with
  | none => exact .nothing
  | some target =>
      obtain ⟨view, kwargs⟩ := target
      obtain ⟨pattern, suffixed, ps, member, split, matched⟩ := resolve_eq_some resolved
      show Written path (request.withKwargs kwargs).user (request.withKwargs kwargs).method db
        (view.dispatch (request.withKwargs kwargs) db).1
      simp only [patterns, List.mem_cons, List.not_mem_nil, or_false, Prod.mk.injEq] at member
      rcases member with ⟨rfl, rfl⟩ | ⟨rfl, rfl⟩ | ⟨rfl, rfl⟩ | ⟨rfl, rfl⟩ | ⟨rfl, rfl⟩ | ⟨rfl, rfl⟩ |
        ⟨rfl, rfl⟩ | ⟨rfl, rfl⟩ | ⟨rfl, rfl⟩ | ⟨rfl, rfl⟩ | ⟨rfl, rfl⟩ | ⟨rfl, rfl⟩ | ⟨rfl, rfl⟩ |
        ⟨rfl, rfl⟩
      · exact written_of_read _ _
      · exact lockDetail_written (urlOf_of_matchPath split matched)
      · exact locklogs_written (urlOf_of_matchPath split matched)
      · exact locklockaccesses_written (urlOf_of_matchPath split matched)
      · exact lockticketDetail_written (urlOf_of_matchPath split matched)
      · exact written_of_read _ _
      · exact userAll_written
      · exact written_of_read _ _
      · exact written_of_read _ _
      · exact lockaccessList_written (urlOf_of_matchPath split matched)
      · exact lockaccessDetail_written (urlOf_of_matchPath split matched)
      · exact logList_written (urlOf_of_matchPath split matched)
      · exact written_of_read _ _
      · exact fcmregistrationList_written

/-! ### Authorisation -/

/-- The accesses on a lock. -/
def accessesOn (db : Database) (lockId : Nat) : List LockAccess :=
  db.lockAccesses.rows.filter fun access => access.lockId = lockId

/-- Every change of a table is one the caller may make. -/
structure Authorised (path : List String) (caller : Option EsloqUser) (method : Method)
    (before after : Database) : Prop where
  accesses : ∀ lockId, accessesOn after lockId ≠ accessesOn before lockId →
    ∃ user, IsUrlUser path caller user ∧ (AdminOn before user lockId ∨
      accessesOn before lockId = [] ∧ method = .post ∧ ∃ access, accessesOn after lockId = [access])
  logsRemoved : ∀ log ∈ before.logs.rows, log ∉ after.logs.rows →
    ∃ user, IsUrlUser path caller user ∧ AdminOn before user log.lockId
  logsAdded : ∀ log ∈ after.logs.rows, log ∉ before.logs.rows →
    ∃ user, IsUrlUser path caller user ∧ AccessOn before user log.lockId ∧ log.userId = user.id
  names : ∀ old ∈ before.locks.rows, ∀ new ∈ after.locks.rows, new.id = old.id →
    new.name ≠ old.name → ∃ user, IsUrlUser path caller user ∧ AdminOn before user old.id
  nonces : ∀ old ∈ before.locks.rows, ∀ new ∈ after.locks.rows, new.id = old.id →
    new.nonce ≠ old.nonce → ∃ user, IsUrlUser path caller user ∧ AccessOn before user old.id
  locks : (after.locks.rows.map fun lock => (lock.id, lock.mac, lock.key)) =
    before.locks.rows.map fun lock => (lock.id, lock.mac, lock.key)

section Authorised

variable {path : List String} {caller : Option EsloqUser} {method : Method} {before after : Database}

theorem authorised_refl (db : Database) : Authorised path caller method db db where
  accesses _ changed := absurd rfl changed
  logsRemoved _ member gone := absurd member gone
  logsAdded _ member new := absurd member new
  names _ isOld _ isNew same changed :=
    absurd (congrArg EsloqRow.name (db.locks.eq_of_key isNew isOld same)) changed
  nonces _ isOld _ isNew same changed :=
    absurd (congrArg EsloqRow.nonce (db.locks.eq_of_key isNew isOld same)) changed
  locks := rfl

theorem accessesOn_of_added {db after : Database} {access : LockAccess}
    (added : after.lockAccesses.rows = db.lockAccesses.rows ++ [access]) (lockId : Nat) :
    accessesOn after lockId = accessesOn db lockId ++ if access.lockId = lockId then [access] else [] := by
  rw [accessesOn, added, List.filter_append, List.filter_singleton, accessesOn]
  by_cases same : access.lockId = lockId
  · rw [if_pos same, decide_eq_true same]
    rfl
  · rw [if_neg same, decide_eq_false same]
    rfl

theorem authorised_of_added {access : LockAccess} (user : EsloqUser)
    (isUser : IsUrlUser path caller user) (post : method = .post)
    (added : after.lockAccesses.rows = before.lockAccesses.rows ++ [access])
    (permitted : AdminOn before user access.lockId ∨
      ∀ other ∈ before.lockAccesses.rows, other.lockId ≠ access.lockId) (lockId : Nat)
    (changed : accessesOn after lockId ≠ accessesOn before lockId) :
    ∃ user, IsUrlUser path caller user ∧ (AdminOn before user lockId ∨
      accessesOn before lockId = [] ∧ method = .post ∧
        ∃ access, accessesOn after lockId = [access]) := by
  rw [accessesOn_of_added added lockId] at changed ⊢
  by_cases same : access.lockId = lockId
  · subst same
    refine ⟨user, isUser, permitted.imp_right fun unused => ?_⟩
    have empty : accessesOn before access.lockId = [] :=
      List.filter_eq_nil_iff.mpr fun other member => by
        simpa using unused other member
    exact ⟨empty, post, access, by rw [empty, if_pos rfl, List.nil_append]⟩
  · rw [if_neg same, List.append_nil] at changed
    exact absurd rfl changed

theorem authorised_of_deleted {condition : LockAccess → Bool} (user : EsloqUser)
    (isUser : IsUrlUser path caller user)
    (permitted : ∀ access ∈ before.lockAccesses.rows, condition access = true →
      AdminOn before user access.lockId) (lockId : Nat)
    (changed : accessesOn { before with lockAccesses := before.lockAccesses.delete condition } lockId ≠
      accessesOn before lockId) :
    ∃ user, IsUrlUser path caller user ∧ AdminOn before user lockId := by
  by_contra unpermitted
  refine changed ?_
  rw [accessesOn, accessesOn, Table.delete, List.filter_filter]
  refine List.filter_congr fun access member => ?_
  by_cases same : access.lockId = lockId
  · have kept : condition access = false := Bool.eq_false_iff.mpr fun removed =>
      unpermitted ⟨user, isUser, same ▸ permitted access member removed⟩
    rw [kept, Bool.not_false, Bool.and_true]
  · rw [decide_eq_false same, Bool.false_and]

/-- A row after a save is the saved row, and its old version is the one it replaced, or it is as
before. -/
theorem of_mem_saved {old new : EsloqRow} (isOld : old ∈ before.locks.rows) (sameId : new.id = old.id)
    {row row' : EsloqRow} (isRow : row ∈ before.locks.rows)
    (isRow' : row' ∈ before.locks.rows.map fun lock => if lock.id = new.id then new else lock)
    (same : row'.id = row.id) : row' = new ∧ row = old ∨ row' = row := by
  obtain ⟨lock, isLock, rfl⟩ := List.mem_map.mp isRow'
  by_cases replaced : lock.id = new.id
  · rw [if_pos replaced] at same ⊢
    exact .inl ⟨rfl, before.locks.eq_of_key isRow isOld (same.symm.trans sameId)⟩
  · rw [if_neg replaced] at same ⊢
    exact .inr (before.locks.eq_of_key isLock isRow same)

theorem Written.authorised (written : Written path caller method before after) :
    Authorised path caller method before after := by
  have same : Authorised path caller method before before := authorised_refl before
  cases written with
  | nothing => exact same
  | user => exact { same with }
  | fcmRegistration => exact { same with }
  | accessCreated user isUser post access lockAccesses added permitted =>
      exact { same with accesses := authorised_of_added user isUser post added permitted }
  | accessesDeleted user isUser condition permitted =>
      refine { same with accesses := fun lockId changed => ?_ }
      obtain ⟨user, isUser, admin⟩ := authorised_of_deleted user isUser permitted lockId changed
      exact ⟨user, isUser, .inl admin⟩
  | logCreated user isUser log logs added permitted own =>
      refine { same with
        logsRemoved := fun old member gone => ?_
        logsAdded := fun new member isNew => ?_ }
      · refine absurd ?_ gone
        rw [added]
        exact List.mem_append_left _ member
      · rw [added] at member
        obtain rfl := List.mem_singleton.mp ((List.mem_append.mp member).resolve_left isNew)
        exact ⟨user, isUser, permitted, own⟩
  | logsDeleted user isUser condition permitted =>
      refine { same with
        logsRemoved := fun old member gone => ⟨user, isUser, permitted old member ?_⟩
        logsAdded := fun new member isNew => absurd (Table.mem_delete.mp member).1 isNew }
      exact Bool.of_not_eq_false fun kept => gone (Table.mem_delete.mpr ⟨member, kept⟩)
  | lockSaved user isUser old new locks isOld kept saved permitted =>
      obtain ⟨sameId, sameMac, sameKey⟩ := kept
      refine { same with
        names := fun row isRow row' isRow' sameRow changed => ?_
        nonces := fun row isRow row' isRow' sameRow changed => ?_
        locks := ?_ }
      · rw [saved] at isRow'
        rcases of_mem_saved isOld sameId isRow isRow' sameRow with ⟨rfl, rfl⟩ | rfl
        · exact ⟨user, isUser, permitted.elim And.right fun kept => absurd kept.1 changed⟩
        · exact absurd rfl changed
      · rw [saved] at isRow'
        rcases of_mem_saved isOld sameId isRow isRow' sameRow with ⟨rfl, rfl⟩ | rfl
        · exact ⟨user, isUser, permitted.elim (fun kept => absurd kept.1 changed) And.right⟩
        · exact absurd rfl changed
      · rw [saved, List.map_map]
        refine List.map_congr_left fun row isRow => ?_
        by_cases replaced : row.id = new.id
        · obtain rfl := before.locks.eq_of_key isRow isOld (replaced.trans sameId)
          rw [Function.comp_apply, if_pos replaced, sameId, sameMac, sameKey]
        · rw [Function.comp_apply, if_neg replaced]

end Authorised

/-- **Every write is authorised.** For every state of the database and every request, of any method, path
and body and by any caller: the accesses of a lock change only at the hand of the user in the URL, who
is admin on it, or by a `POST` that adds the first; logs are removed by an admin of the lock, and added
by a user with access in their own name; a lock is renamed by an admin, and its nonce raised for a user
with access; and nothing else changes. -/
theorem writes_authorised (env : Env) (path : List String) (request : ApiRequest) (db : Database) :
    Authorised path request.user request.method db (handle env path request db).1 :=
  (handle_written env path request db).authorised

/-! ### A lock is claimed -/

/-- A field is absent, or its value is converted. -/
def sampleEntry {α : Type} (convert : Json → Entry α) (data : Data) (name : String) : Entry α :=
  match data.get? name with
  | .ok none => .absent
  | .ok (some json) => convert json
  | .error _ => .invalid

/-- A text of a length. -/
def sampleText (maxLength : Nat) : Json → Entry String
  | .text value => if value.length ≤ maxLength then .value value else .invalid
  | .surrogates => .raises .unicodeEncodeError
  | _ => .invalid

/-- Field conversions that take a JSON value of their own type. -/
def sampleFields : Fields where
  integerOfText _ := none
  boolean := sampleEntry fun
    | .bool value => .value value
    | .surrogates => .raises .unicodeEncodeError
    | _ => .invalid
  integer := sampleEntry fun
    | .int value => .value value
    | _ => .invalid
  text data name maxLength := sampleEntry (fun
    | .text value => if value.length ≤ maxLength then .value (.encoded value) else .invalid
    | .surrogates => .value .surrogates
    | _ => .invalid) data name
  uniqueText data name maxLength := sampleEntry (sampleText maxLength) data name
  nullableUniqueText data name maxLength := sampleEntry (fun
    | .null => .value none
    | json => match sampleText maxLength json with
        | .value value => .value (some value)
        | .raises error => .raises error
        | _ => .invalid) data name
  email data name maxLength := sampleEntry (sampleText maxLength) data name

def sampleEnv : Env := ⟨sampleFields, keyTag, (Bytes.zeros 32), 1⟩

/-- The first user and the first lock of the tests, without accesses. -/
def sampleDatabase : Database where
  users := sampleUsers
  locks := ⟨[⟨1, "00:00:00:00:00:01", (Bytes.zeros 32), "Lock One", 0⟩], 2, by decide,
    List.pairwise_singleton _ _⟩
  lockAccesses := ⟨[], 1, by decide, .nil⟩
  logs := ⟨[], 1, by decide, .nil⟩
  fcmRegistrations := ⟨[], 1, by decide, .nil⟩

/-- A request with an object as its body and no wish for a format. -/
def jsonRequest (method : Method) (user : Option EsloqUser) (entries : List (String × Json)) :
    ApiRequest where
  method
  user
  id := none
  pk := none
  format := none
  query := []
  accept := [⟨"*", "*", []⟩]
  data := .fields entries
  drained := .empty

example : (handle sampleEnv ["users", "1", "lockaccesses.json"]
    (jsonRequest .post (some sampleUser)
      [("is_admin", .bool true), ("lock_id", .int 1), ("user_id", .int 1)])
    sampleDatabase).1.lockAccesses.rows = [⟨1, 1, 1, true⟩] := by
  decide +kernel

end Esloq
