/-
**Which requests change the users and the accesses.**

* `PostsUser`, `PostsLockAccess`, `DeletesLockAccess` — the requests that reach the writing end of a view
  set: the route, the method, the permission classes and the serializer.
* `Changed` — what such a request does to the two tables; `handle_changed` covers all routes, methods and
  bodies, and the `handled` lemmas say that each of these requests does it.
-/

import Esloq.Server.Writes

namespace Esloq

open Rest

/-! ### The requests -/

section Requests

variable (env : Env) (path : List String) (request : ApiRequest) (db : Database)

/-- The request reaches the handler of a method of a view. -/
structure Reaches (view : ApiView) (method : Method) (request : ApiRequest) (db : Database) : Prop where
  method : request.method = method
  accepted : request.refused = none
  granted : view.Granted request db

/-- A `POST` of a valid user with names that have an encoding. -/
structure PostsUser (kwargs : Kwargs) (new : NewUser) : Prop where
  route : resolve (urlpatterns env) path = some (userAll env, kwargs)
  reaches : Reaches (userAll env) .post (request.withKwargs kwargs) db
  valid : EsloqUserSerializer.isValid env.fields request.data db = .ok new
  encoded : ∃ firstName lastName, new.firstName = .encoded firstName ∧ new.lastName = .encoded lastName

/-- A `POST` of a valid access. -/
structure PostsLockAccess (kwargs : Kwargs) (new : NewLockAccess) : Prop where
  route : resolve (urlpatterns env) path = some (lockaccessList env, kwargs)
  reaches : Reaches (lockaccessList env) .post (request.withKwargs kwargs) db
  valid : LockAccessSerializer.isValid env.fields request.data db = .ok new

/-- A `DELETE` of an access that the query set shows. -/
structure DeletesLockAccess (kwargs : Kwargs) (access : LockAccess) : Prop where
  route : resolve (urlpatterns env) path = some (lockaccessDetail env, kwargs)
  reaches : Reaches (lockaccessDetail env) .delete (request.withKwargs kwargs) db
  found : getObject LockAccess.id LockAccessViewSet.getQueryset (request.withKwargs kwargs) db =
    .ok access

/-- What a request does to the tables of users and accesses. -/
inductive Changed : Database → Prop
  | elsewhere {after : Database} (users : after.users = db.users)
      (lockAccesses : after.lockAccesses = db.lockAccesses) : Changed after
  | userCreated (kwargs : Kwargs) (new : NewUser) (posts : PostsUser env path request db kwargs new)
      (user : EsloqUser) (stored : user.firebaseId = new.firebaseId ∧ user.email = new.email) (users)
      (added : users.rows = db.users.rows ++ [user]) : Changed { db with users }
  | accessCreated (kwargs : Kwargs) (new : NewLockAccess)
      (posts : PostsLockAccess env path request db kwargs new) (isAdmin : Bool)
      (flag : new.isAdmin = some isAdmin) (lockAccesses)
      (added : lockAccesses.rows =
        db.lockAccesses.rows ++ [⟨db.lockAccesses.next, new.lock.id, new.user.id, isAdmin⟩]) :
      Changed { db with lockAccesses }
  | accessDeleted (kwargs : Kwargs) (access : LockAccess)
      (deletes : DeletesLockAccess env path request db kwargs access) :
      Changed { db with lockAccesses := db.lockAccesses.delete fun other => other.id = access.id }
  | accessesDeleted (lockId : Option Int) :
      Changed { db with lockAccesses :=
        db.lockAccesses.delete fun access => some (access.lockId : Int) = lockId }

end Requests

/-! ### Views that leave both tables -/

/-- The tables of users and accesses are the same. -/
structure Kept (before after : Database) : Prop where
  users : after.users = before.users
  lockAccesses : after.lockAccesses = before.lockAccesses

theorem kept_refl (db : Database) : Kept db db := ⟨rfl, rfl⟩

section Kept

variable {env : Env} {request : ApiRequest} {db : Database} {ν : Type}

theorem kept_of_create {validate : ApiRequest → Database → Except Failure ν}
    {save : ν → Database → Saved}
    (keeps : ∀ {new after body}, save new db = .ok (after, body) → Kept db after) :
    Kept db (Rest.create validate save request db).1 := by
  rcases create_fst with same | ⟨new, after, body, -, saved, same⟩
  · rw [same]
    exact kept_refl db
  · rw [same]
    exact keeps saved

/-- A view whose actions leave both tables does so. -/
theorem kept_of_actions {view : ApiView}
    (keeps : ∀ pair ∈ view.actions, Kept db (pair.2 request db).1) :
    Kept db (view.dispatch request db).1 :=
  View.dispatch_holds (kept_refl db) fun _ _ _ member _ => keeps _ member

/-- A view that has one action, which reads. -/
theorem kept_of_read {serializer : Option (FormFields Database)}
    (permissions : List (Permission Database EsloqUser))
    (answer : ApiRequest → Database → Except Failure (Response Body)) :
    Kept db ((⟨permissions, [(.get, read answer)], serializer⟩ : ApiView).dispatch request db).1 :=
  kept_of_actions (List.forall_mem_singleton.mpr (kept_refl db))

theorem lockDetail_kept : Kept db ((lockDetail env).dispatch request db).1 := by
  refine kept_of_actions ?_
  rw [lockDetail, List.forall_mem_cons, List.forall_mem_singleton]
  refine ⟨kept_refl db, ?_⟩
  rcases partialUpdate_fst with same | ⟨lock, name, after, body, -, -, updated, same⟩
  · rw [EsloqViewSet.partialUpdate, same]
    exact kept_refl db
  · rw [EsloqViewSet.partialUpdate, same, (LockSerializer.update_spec updated).1]
    exact ⟨rfl, rfl⟩

theorem locklogs_kept : Kept db ((locklogs env).dispatch request db).1 := by
  refine kept_of_actions ?_
  rw [locklogs, List.forall_mem_singleton]
  show Kept db (LockLogsViewSet.destroy request db).1
  rw [LockLogsViewSet.destroy, destroyAll]
  split
  · exact kept_refl db
  · exact ⟨rfl, rfl⟩

theorem lockticketDetail_kept : Kept db ((lockticketDetail env).dispatch request db).1 := by
  refine kept_of_actions ?_
  rw [lockticketDetail, List.forall_mem_singleton]
  show Kept db (LockTicketViewSet.retrieve env request db).1
  unfold LockTicketViewSet.retrieve
  split
  · exact kept_refl db
  · exact kept_refl db
  · split
    · exact kept_refl db
    · unfold LockTicketViewSet.ticket
      split
      · exact kept_refl db
      · dsimp only
        split
        · exact kept_refl db
        · exact kept_refl db
        · split <;> exact ⟨rfl, rfl⟩

theorem logList_kept : Kept db ((logList env).dispatch request db).1 := by
  refine kept_of_actions ?_
  rw [logList, List.forall_mem_cons, List.forall_mem_singleton]
  refine ⟨kept_refl db, kept_of_create fun saved => ?_⟩
  rw [(LogSerializer.save_spec saved).1]
  exact ⟨rfl, rfl⟩

theorem fcmregistrationList_kept : Kept db ((fcmregistrationList env).dispatch request db).1 := by
  refine kept_of_actions ?_
  rw [fcmregistrationList, List.forall_mem_singleton]
  refine kept_of_create fun saved => ?_
  rw [FcmRegistrationSerializer.save_spec saved]
  exact ⟨rfl, rfl⟩

end Kept

/-! ### Views that write them -/

/-- No row has the `firebase_id` or the e-mail of a valid user. -/
theorem EsloqUserSerializer.isValid_spec {fields : Fields} {data : Data} {db : Database}
    {new : NewUser} (valid : isValid fields data db = .ok new) :
    (new.firebaseId.isSome → ∀ user ∈ db.users.rows, user.firebaseId ≠ new.firebaseId) ∧
      ∀ user ∈ db.users.rows, user.email ≠ new.email := by
  obtain ⟨-, -, valid⟩ := bind_eq_ok.mp valid
  obtain ⟨firebaseId, -, valid⟩ := bind_eq_ok.mp valid
  obtain ⟨firstName, -, valid⟩ := bind_eq_ok.mp valid
  obtain ⟨lastName, -, valid⟩ := bind_eq_ok.mp valid
  obtain ⟨email, -, valid⟩ := bind_eq_ok.mp valid
  split at valid
  · cases valid
  · split at valid
    · cases valid
    · rename_i unique
      cases valid
      rw [not_or, not_and] at unique
      refine ⟨fun given user member same => unique.1 given ?_, fun user member same => unique.2 ?_⟩
      · exact List.any_eq_true.mpr ⟨user, member, decide_eq_true same⟩
      · exact List.any_eq_true.mpr ⟨user, member, decide_eq_true same⟩
  · cases valid

/-- A valid user whose names have an encoding is given a row. -/
theorem EsloqUserSerializer.save_of_valid {fields : Fields} {data : Data} {db : Database}
    {new : NewUser} (valid : isValid fields data db = .ok new) {firstName lastName : String}
    (first : new.firstName = .encoded firstName) (last : new.lastName = .encoded lastName) :
    ∃ users body, save new db = .ok ({ db with users }, body) ∧ users.rows =
      db.users.rows ++ [⟨db.users.next, new.firebaseId, firstName, lastName, new.email⟩] := by
  obtain ⟨ofId, ofEmail⟩ := isValid_spec valid
  have free : ∀ user ∈ db.users.rows, Table.clashes EsloqUser.columns user
      ⟨db.users.next, new.firebaseId, firstName, lastName, new.email⟩ = false := by
    refine fun user member => Table.clashes_eq_false fun column unique => ?_
    rcases List.mem_pair.mp unique with rfl | rfl
    · intro value ofUser ofNew
      exact ofId (Option.isSome_of_eq_some ofNew) user member (ofUser.trans ofNew.symm)
    · intro value ofUser ofNew
      exact ofEmail user member (Option.some.inj (ofUser.trans ofNew.symm))
  obtain ⟨users, inserted, added⟩ := Table.insert_of_free
    (fun _ => rfl : ∀ id, (EsloqUser.mk id new.firebaseId firstName lastName new.email).id = id) free
  refine ⟨users, .user ⟨db.users.next, new.firebaseId, firstName, lastName, new.email⟩, ?_, added⟩
  refine bind_eq_ok.mpr ⟨firstName, by rw [first, Text.encode], ?_⟩
  refine bind_eq_ok.mpr ⟨lastName, by rw [last, Text.encode], ?_⟩
  rw [inserted]
  rfl

/-- A text that has been encoded. -/
theorem eq_of_encode {text : Text} {encoded : String} (ok : text.encode = .ok encoded) :
    text = .encoded encoded := by
  cases text with
  | encoded text => rw [Except.ok.inj ok]
  | surrogates => cases ok

theorem EsloqUserSerializer.encoded_of_save {new : NewUser} {db after : Database} {body : Body}
    (saved : save new db = .ok (after, body)) :
    ∃ firstName lastName, new.firstName = .encoded firstName ∧ new.lastName = .encoded lastName := by
  obtain ⟨firstName, first, saved⟩ := bind_eq_ok.mp saved
  obtain ⟨lastName, last, -⟩ := bind_eq_ok.mp saved
  exact ⟨firstName, lastName, eq_of_encode first, eq_of_encode last⟩

/-- A valid access is given a row. -/
theorem LockAccessSerializer.save_of_valid {fields : Fields} {data : Data} {db : Database}
    {new : NewLockAccess} (valid : isValid fields data db = .ok new) {isAdmin : Bool}
    (flag : new.isAdmin = some isAdmin) :
    ∃ lockAccesses body, save new db = .ok ({ db with lockAccesses }, body) ∧ lockAccesses.rows =
      db.lockAccesses.rows ++ [⟨db.lockAccesses.next, new.lock.id, new.user.id, isAdmin⟩] := by
  have free : ∀ access ∈ db.lockAccesses.rows, Table.clashes LockAccess.columns access
      ⟨db.lockAccesses.next, new.lock.id, new.user.id, isAdmin⟩ = false := by
    refine fun access member => Table.clashes_eq_false fun column unique value ofAccess ofNew => ?_
    obtain rfl := List.mem_singleton.mp unique
    exact (isValid_spec valid).2 access member (Prod.mk.inj (Option.some.inj (ofAccess.trans ofNew.symm)))
  obtain ⟨lockAccesses, inserted, added⟩ := Table.insert_of_free
    (fun _ => rfl : ∀ id, (LockAccess.mk id new.lock.id new.user.id isAdmin).id = id) free
  refine ⟨lockAccesses, .lockAccess ⟨db.lockAccesses.next, new.lock.id, new.user.id, isAdmin⟩, ?_,
    added⟩
  rw [save, flag]
  simp only [inserted]

section Writing

variable {env : Env} {path : List String} {request : ApiRequest} {db : Database}

/-- A request that reaches a handler is handled by it. -/
theorem Reaches.dispatch {view : ApiView} {method : Method} (reaches : Reaches view method request db)
    {action : ApiHandler} (serves : view.actions.lookup method = some action)
    (plain : method ≠ .options ∧ method ≠ .head) : view.dispatch request db = action request db := by
  rw [View.dispatch, reaches.accepted]
  simp only [checkPermissions_eq_ok.mpr reaches.granted, reaches.method]
  rw [View.handler, serves, Option.getD_some]
  · exact plain.1
  · exact plain.2

/-- A view changes the tables only if a request reaches one of its handlers. -/
theorem View.dispatch_reaches {view : ApiView} {holds : Database → Prop} (before : holds db)
    (acts : ∀ method action, (method, action) ∈ view.actions →
      Reaches view method request db ∨ request.method = .head ∧ method = .get →
      holds (action request db).1) :
    holds (view.dispatch request db).1 := by
  cases refused : request.refused with
  | some status =>
      rw [View.dispatch, refused]
      exact before
  | none =>
      exact View.dispatch_holds before fun granted method action member serves =>
        acts method action member (serves.imp_left fun same => ⟨same, refused, granted⟩)

theorem userAll_changed {kwargs : Kwargs}
    (route : resolve (urlpatterns env) path = some (userAll env, kwargs)) :
    Changed env path request db ((userAll env).dispatch (request.withKwargs kwargs) db).1 := by
  refine View.dispatch_reaches (.elsewhere rfl rfl) fun method action member reaches => ?_
  simp only [userAll, List.mem_cons, List.not_mem_nil, or_false, Prod.mk.injEq] at member
  rcases member with ⟨rfl, rfl⟩ | ⟨rfl, rfl⟩
  · have reaches := reaches.resolve_right fun head => by cases head.2
    rcases create_fst with same | ⟨new, after, body, valid, saved, same⟩
    · rw [AllEsloqUserViewSet.create, same]
      exact .elsewhere rfl rfl
    · rw [AllEsloqUserViewSet.create, same]
      have encoded := EsloqUserSerializer.encoded_of_save saved
      obtain ⟨firstName, lastName, first, last⟩ := id encoded
      obtain ⟨users, body', saved', added⟩ := EsloqUserSerializer.save_of_valid valid first last
      rw [saved] at saved'
      cases saved'
      exact .userCreated kwargs new ⟨route, reaches, valid, encoded⟩ _ ⟨rfl, rfl⟩ users added
  · exact .elsewhere rfl rfl

theorem lockaccessList_changed {kwargs : Kwargs}
    (route : resolve (urlpatterns env) path = some (lockaccessList env, kwargs)) :
    Changed env path request db ((lockaccessList env).dispatch (request.withKwargs kwargs) db).1 := by
  refine View.dispatch_reaches (.elsewhere rfl rfl) fun method action member reaches => ?_
  simp only [lockaccessList, List.mem_cons, List.not_mem_nil, or_false, Prod.mk.injEq] at member
  rcases member with ⟨rfl, rfl⟩ | ⟨rfl, rfl⟩
  · exact .elsewhere rfl rfl
  · have reaches := reaches.resolve_right fun head => by cases head.2
    rcases create_fst with same | ⟨new, after, body, valid, saved, same⟩
    · rw [LockAccessViewSet.create, same]
      exact .elsewhere rfl rfl
    · rw [LockAccessViewSet.create, same]
      cases flag : new.isAdmin with
      | none =>
          rw [LockAccessSerializer.save, flag] at saved
          cases saved
      | some isAdmin =>
          obtain ⟨lockAccesses, body', saved', added⟩ :=
            LockAccessSerializer.save_of_valid valid flag
          rw [saved] at saved'
          cases saved'
          exact .accessCreated kwargs new ⟨route, reaches, valid⟩ isAdmin flag lockAccesses added

theorem lockaccessDetail_changed {kwargs : Kwargs}
    (route : resolve (urlpatterns env) path = some (lockaccessDetail env, kwargs)) :
    Changed env path request db
      ((lockaccessDetail env).dispatch (request.withKwargs kwargs) db).1 := by
  refine View.dispatch_reaches (.elsewhere rfl rfl) fun method action member reaches => ?_
  simp only [lockaccessDetail, List.mem_cons, List.not_mem_nil, or_false, Prod.mk.injEq] at member
  rcases member with ⟨rfl, rfl⟩ | ⟨rfl, rfl⟩
  · exact .elsewhere rfl rfl
  · have reaches := reaches.resolve_right fun head => by cases head.2
    rcases destroy_fst with same | ⟨access, found, same⟩
    · rw [LockAccessViewSet.destroy, same]
      exact .elsewhere rfl rfl
    · rw [LockAccessViewSet.destroy, same]
      exact .accessDeleted kwargs access ⟨route, reaches, found⟩

theorem locklockaccesses_changed {kwargs : Kwargs} :
    Changed env path request db
      ((locklockaccesses env).dispatch (request.withKwargs kwargs) db).1 := by
  refine View.dispatch_holds (.elsewhere rfl rfl) fun _ method action member _ => ?_
  rw [locklockaccesses, List.mem_singleton, Prod.mk.injEq] at member
  rw [member.2, LockLockAccessesViewSet.destroy, destroyAll]
  split
  · exact .elsewhere rfl rfl
  · exact .accessesDeleted _

end Writing

/-! ### All routes -/

/-- **What a request does to the tables of users and accesses.** -/
theorem handle_changed (env : Env) (path : List String) (request : ApiRequest) (db : Database) :
    Changed env path request db (handle env path request db).1 := by
  unfold handle
  cases resolved : resolve (urlpatterns env) path with
  | none => exact .elsewhere rfl rfl
  | some target =>
      obtain ⟨view, kwargs⟩ := target
      obtain ⟨pattern, -, -, member, -, -⟩ := resolve_eq_some resolved
      show Changed env path request db (view.dispatch (request.withKwargs kwargs) db).1
      have kept : Kept db (view.dispatch (request.withKwargs kwargs) db).1 →
          Changed env path request db (view.dispatch (request.withKwargs kwargs) db).1 :=
        fun kept => .elsewhere kept.users kept.lockAccesses
      simp only [patterns, List.mem_cons, List.not_mem_nil, or_false, Prod.mk.injEq] at member
      rcases member with ⟨-, rfl⟩ | ⟨-, rfl⟩ | ⟨-, rfl⟩ | ⟨-, rfl⟩ | ⟨-, rfl⟩ | ⟨-, rfl⟩ | ⟨-, rfl⟩ |
        ⟨-, rfl⟩ | ⟨-, rfl⟩ | ⟨-, rfl⟩ | ⟨-, rfl⟩ | ⟨-, rfl⟩ | ⟨-, rfl⟩ | ⟨-, rfl⟩
      · exact kept (kept_of_read _ _)
      · exact kept lockDetail_kept
      · exact kept locklogs_kept
      · exact locklockaccesses_changed
      · exact kept lockticketDetail_kept
      · exact kept (kept_of_read _ _)
      · exact userAll_changed resolved
      · exact kept (kept_of_read _ _)
      · exact kept (kept_of_read _ _)
      · exact lockaccessList_changed resolved
      · exact lockaccessDetail_changed resolved
      · exact kept logList_kept
      · exact kept (kept_of_read _ _)
      · exact kept fcmregistrationList_kept

/-- The users are as before, or one that was posted has been added. -/
theorem Changed.users {env : Env} {path : List String} {request : ApiRequest} {db after : Database}
    (changed : Changed env path request db after) : after.users.rows = db.users.rows ∨
      ∃ kwargs new user, PostsUser env path request db kwargs new ∧
        (user.firebaseId = new.firebaseId ∧ user.email = new.email) ∧
        after.users.rows = db.users.rows ++ [user] := by
  cases changed with
  | elsewhere users => exact .inl (congrArg Table.rows users)
  | userCreated kwargs new posts user stored users added =>
      exact .inr ⟨kwargs, new, user, posts, stored, added⟩
  | _ => exact .inl rfl

/-- An access that the query set shows is in the table. -/
theorem mem_of_getObject {request : ApiRequest} {db : Database} {access : LockAccess}
    (found : getObject LockAccess.id LockAccessViewSet.getQueryset request db = .ok access) :
    access ∈ db.lockAccesses.rows := by
  obtain ⟨rows, digits, queried, -, member, -⟩ := getObject_eq_ok found
  obtain ⟨userId, -, queried⟩ := bind_eq_ok.mp queried
  cases queried
  exact List.mem_of_mem_filter member

section Served

variable {env : Env} {path : List String} {request : ApiRequest} {db : Database}

/-- A valid user that is posted has a row afterwards. -/
theorem PostsUser.handled {kwargs : Kwargs} {new : NewUser}
    (posts : PostsUser env path request db kwargs new) :
    ∃ user, (user.firebaseId = new.firebaseId ∧ user.email = new.email) ∧
      (handle env path request db).1.users.rows = db.users.rows ++ [user] := by
  obtain ⟨firstName, lastName, first, last⟩ := posts.encoded
  obtain ⟨users, body, saved, added⟩ := EsloqUserSerializer.save_of_valid posts.valid first last
  have serves : (userAll env).actions.lookup .post = some (AllEsloqUserViewSet.create env) := rfl
  have valid : EsloqUserSerializer.isValid env.fields (request.withKwargs kwargs).data db = .ok new :=
    posts.valid
  refine ⟨⟨db.users.next, new.firebaseId, firstName, lastName, new.email⟩, ⟨rfl, rfl⟩, ?_⟩
  rw [handle, posts.route]
  dsimp only
  rw [posts.reaches.dispatch serves (by decide)]
  simp only [AllEsloqUserViewSet.create, Rest.create, valid, saved, added]

/-- A valid access that is posted has a row afterwards. -/
theorem PostsLockAccess.handled {kwargs : Kwargs} {new : NewLockAccess}
    (posts : PostsLockAccess env path request db kwargs new) {isAdmin : Bool}
    (flag : new.isAdmin = some isAdmin) :
    (handle env path request db).1.lockAccesses.rows =
      db.lockAccesses.rows ++ [⟨db.lockAccesses.next, new.lock.id, new.user.id, isAdmin⟩] := by
  obtain ⟨lockAccesses, body, saved, added⟩ := LockAccessSerializer.save_of_valid posts.valid flag
  have serves : (lockaccessList env).actions.lookup .post = some (LockAccessViewSet.create env) := rfl
  have valid : LockAccessSerializer.isValid env.fields (request.withKwargs kwargs).data db = .ok new :=
    posts.valid
  rw [handle, posts.route]
  dsimp only
  rw [posts.reaches.dispatch serves (by decide)]
  simp only [LockAccessViewSet.create, Rest.create, valid, saved, added]

/-- An access that is deleted has no row afterwards. -/
theorem DeletesLockAccess.handled {kwargs : Kwargs} {access : LockAccess}
    (deletes : DeletesLockAccess env path request db kwargs access) :
    (handle env path request db).1.lockAccesses =
      db.lockAccesses.delete fun other => other.id = access.id := by
  have serves : (lockaccessDetail env).actions.lookup .delete = some LockAccessViewSet.destroy := rfl
  rw [handle, deletes.route]
  dsimp only
  rw [deletes.reaches.dispatch serves (by decide)]
  simp only [LockAccessViewSet.destroy, Rest.destroy, deletes.found]

end Served

end Esloq
