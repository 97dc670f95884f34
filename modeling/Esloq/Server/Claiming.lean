/-
**Claiming and sharing a lock while others do (`LockAccessViewSet`, `LockLockAccessesViewSet`).**

The permission check of a request, the validation or the lookup, and the write are operations of their
own, and between them other requests go on.

* `AccessRequest.step` — the next operation of a request, from how far it has come; `steps_alone`: the
  three operations after each other are the request handled alone.
* `Considerate` — an operation that leaves the accesses of the users who wait for a lock, and does not add
  the first access to such a lock.
* `AccessRequest.Vouched` — the invariant: what the check of a waiting request has found still stands.
* `writes_considerate` — in every interleaving of considerate operations every write is made for an admin
  of the lock, or adds the first access, and a lock is claimed again only after it has been given up.
* `two_claimants` — two users both claim a lock.
-/

import Mathlib.Logic.Function.Basic
import Esloq.Lib.Prefixes
import Esloq.Server.Changes

namespace Esloq

open Rest Prefixes

/-! ### The operations of a request -/

/-- The requests that write accesses: a `POST` to `lockaccess_list`, and a `DELETE` to
`lockaccess_detail` or `locklockaccesses`. -/
inductive AccessKind
  | post
  | delete
  | deleteAll
  deriving DecidableEq

/-- The view of a request. -/
def AccessKind.view (env : Env) : AccessKind → ApiView
  | .post => lockaccessList env
  | .delete => lockaccessDetail env
  | .deleteAll => locklockaccesses env

/-- The method of a request. -/
def AccessKind.method : AccessKind → Method
  | .post => .post
  | .delete | .deleteAll => .delete

/-- A request that writes accesses. -/
structure AccessRequest where
  env : Env
  kind : AccessKind
  request : ApiRequest
  method : request.method = kind.method

/-- How far a request has come. -/
inductive Progress
  | received
  | granted
  | validated (new : NewLockAccess)
  | found (access : LockAccess)
  | bulk (lockId : Option Int)
  | ended

section Step

variable (r : AccessRequest)

/-- The permission check: content negotiation, then every permission class. -/
def AccessRequest.check (db : Database) : Progress :=
  match r.request.refused with
  | some _ => .ended
  | none =>
      match checkPermissions (r.kind.view r.env).permissionClasses r.request db with
      | .error _ => .ended
      | .ok () => .granted

/-- What is read before the write: the serializer, the lookup, or the lock in the URL. -/
def AccessRequest.prepare (db : Database) : Progress :=
  match r.kind with
  | .post =>
      match LockAccessSerializer.isValid r.env.fields r.request.data db with
      | .error _ => .ended
      | .ok new => .validated new
  | .delete =>
      match getObject LockAccess.id LockAccessViewSet.getQueryset r.request db with
      | .error _ => .ended
      | .ok access => .found access
  | .deleteAll =>
      match kwarg r.request.pk with
      | .error _ => .ended
      | .ok lockId => .bulk lockId

/-- The write. -/
def Progress.write (db : Database) : Progress → Database
  | .validated new =>
      match LockAccessSerializer.save new db with
      | .error _ => db
      | .ok (after, _) => after
  | .found access =>
      { db with lockAccesses := db.lockAccesses.delete fun other => other.id = access.id }
  | .bulk lockId =>
      { db with lockAccesses :=
          db.lockAccesses.delete fun access => some (access.lockId : Int) = lockId }
  | _ => db

/-- The next operation of a request. -/
def AccessRequest.step (progress : Progress) (db : Database) : Progress × Database :=
  match progress with
  | .received => (r.check db, db)
  | .granted => (r.prepare db, db)
  | progress => (.ended, progress.write db)

/-- The three operations after each other. -/
def AccessRequest.steps (db : Database) : Database :=
  let checked := r.step .received db
  let prepared := r.step checked.1 checked.2
  (r.step prepared.1 prepared.2).2

end Step

/-- A request that is not interrupted is handled as by its view. -/
theorem steps_alone (r : AccessRequest) (db : Database) :
    r.steps db = ((r.kind.view r.env).dispatch r.request db).1 := by
  rw [AccessRequest.steps, AccessRequest.step, AccessRequest.check]
  cases refused : r.request.refused with
  | some status =>
      rw [View.dispatch, refused]
      rfl
  | none =>
      cases checked : checkPermissions (r.kind.view r.env).permissionClasses r.request db with
      | error failure =>
          rw [View.dispatch, refused]
          simp only [checked]
          rfl
      | ok granted =>
          have reaches : Reaches (r.kind.view r.env) r.kind.method r.request db :=
            ⟨r.method, refused, checkPermissions_eq_ok.mp checked⟩
          simp only [AccessRequest.step, AccessRequest.prepare]
          cases kind : r.kind with
          | post =>
              rw [kind] at reaches
              replace reaches : Reaches (lockaccessList r.env) .post r.request db := reaches
              have serves : (lockaccessList r.env).actions.lookup .post =
                some (LockAccessViewSet.create r.env) := rfl
              rw [AccessKind.view, reaches.dispatch serves (by decide), LockAccessViewSet.create,
                Rest.create]
              cases LockAccessSerializer.isValid r.env.fields r.request.data db with
              | error failure => rfl
              | ok new =>
                  simp only [Progress.write]
                  cases LockAccessSerializer.save new db <;> rfl
          | delete =>
              rw [kind] at reaches
              replace reaches : Reaches (lockaccessDetail r.env) .delete r.request db := reaches
              have serves : (lockaccessDetail r.env).actions.lookup .delete =
                some LockAccessViewSet.destroy := rfl
              rw [AccessKind.view, reaches.dispatch serves (by decide), LockAccessViewSet.destroy,
                Rest.destroy]
              cases getObject LockAccess.id LockAccessViewSet.getQueryset r.request db <;> rfl
          | deleteAll =>
              rw [kind] at reaches
              replace reaches : Reaches (locklockaccesses r.env) .delete r.request db := reaches
              have serves : (locklockaccesses r.env).actions.lookup .delete =
                some LockLockAccessesViewSet.destroy := rfl
              rw [AccessKind.view, reaches.dispatch serves (by decide),
                LockLockAccessesViewSet.destroy, destroyAll]
              cases kwarg r.request.pk <;> rfl

/-! ### Requests that interleave -/

/-- The database, and how far every request has come. -/
structure Site (ι : Type) where
  db : Database
  progress : ι → Progress

section Site

variable {ι : Type} [DecidableEq ι] (requests : ι → AccessRequest)

/-- No request has been looked at. -/
def Site.start (db : Database) : Site ι := ⟨db, fun _ => .received⟩

/-- A request goes on by one operation. -/
def Site.step (i : ι) (site : Site ι) : Site ι :=
  let next := (requests i).step (site.progress i) site.db
  ⟨next.2, Function.update site.progress i next.1⟩

end Site

/-- What a request has been granted for, and its write has not been made yet. -/
def Progress.waiting : Progress → Bool
  | .received | .ended => false
  | _ => true

/-- The lock that the permission class of a request looks at: the one in the body, that of the access in
the URL, or the one in the URL. -/
def AccessRequest.lock (r : AccessRequest) (db : Database) : Option Nat :=
  match r.kind with
  | .post =>
      match r.request.data.get? "lock_id" with
      | .ok (some json) =>
          match lookupKey r.env.fields.integerOfText json with
          | .ok (some key) => key.toNat?
          | _ => none
      | _ => none
  | .delete =>
      (db.lockAccesses.rows.find? fun access =>
        r.request.pk.map digitsValue = some access.id).map LockAccess.lockId
  | .deleteAll => r.request.pk.map digitsValue

/-- The accesses of a user on a lock. -/
def accessesOf (db : Database) (user : EsloqUser) (lockId : Nat) : List LockAccess :=
  (accessesOn db lockId).filter fun access => access.userId = user.id

/-- A write that leaves the accesses of a user on a lock, and is not the first on the lock. -/
def Aside (user : EsloqUser) (lockId : Nat) (before after : Database) : Prop :=
  accessesOf after user lockId = accessesOf before user lockId ∧
    (accessesOn before lockId = [] → accessesOn after lockId = [])

/-- An operation that writes no accesses of another user who waits for a lock, and no first access to such
a lock. -/
def Considerate {ι : Type} [DecidableEq ι] (requests : ι → AccessRequest) (j : ι) (site : Site ι) : Prop :=
  ∀ i, i ≠ j → (site.progress i).waiting = true → ∀ user ∈ (requests i).request.user,
    ∀ lockId ∈ (requests i).lock site.db, Aside user lockId site.db (site.step requests j).db

instance (user : EsloqUser) (lockId : Nat) (before after : Database) :
    Decidable (Aside user lockId before after) :=
  inferInstanceAs (Decidable (_ ∧ _))

instance {ι : Type} [DecidableEq ι] [Fintype ι] (requests : ι → AccessRequest) (j : ι) (site : Site ι) :
    Decidable (Considerate requests j site) :=
  inferInstanceAs (Decidable (∀ i, i ≠ j → (site.progress i).waiting = true →
    ∀ user ∈ (requests i).request.user, ∀ lockId ∈ (requests i).lock site.db,
      Aside user lockId site.db (site.step requests j).db))

/-- The accesses of a lock change at the hand of an admin, or a `POST` adds the first. -/
def AccessRequest.Rightful (r : AccessRequest) (before after : Database) : Prop :=
  ∀ lockId, accessesOn after lockId ≠ accessesOn before lockId →
    ∃ user, r.request.user = some user ∧ (AdminOn before user lockId ∨
      r.kind = .post ∧ accessesOn before lockId = [])

/-- What a pending write has been read from. -/
def AccessRequest.ReadFrom (r : AccessRequest) : Progress → Prop
  | .validated new => r.kind = .post ∧
      ∃ db, LockAccessSerializer.isValid r.env.fields r.request.data db = .ok new
  | .found access => r.kind = .delete ∧ ∃ digits, r.request.pk = some digits ∧ access.id = digitsValue digits
  | .bulk lockId => r.kind = .deleteAll ∧ kwarg r.request.pk = .ok lockId
  | _ => True

/-! ### The lock of a request -/

section Lock

variable {r : AccessRequest} {db : Database} {lockId : Nat}

theorem AccessRequest.mem_lock_post (post : r.kind = .post) :
    lockId ∈ r.lock db ↔ ∃ json, r.request.data.get? "lock_id" = .ok (some json) ∧
      lookupKey r.env.fields.integerOfText json = .ok (some (lockId : Int)) := by
  rw [lock, post]
  cases given : r.request.data.get? "lock_id" with
  | error failure => simp
  | ok found =>
      cases found with
      | none => simp
      | some json =>
          cases converted : lookupKey r.env.fields.integerOfText json with
          | error failure => simp [converted]
          | ok key =>
              cases key with
              | none => simp [converted]
              | some key => simp [converted, Int.mem_toNat?]

theorem AccessRequest.mem_lock_delete (delete : r.kind = .delete) :
    lockId ∈ r.lock db ↔ ∃ access ∈ db.lockAccesses.rows,
      r.request.pk.map digitsValue = some access.id ∧ access.lockId = lockId := by
  rw [lock, delete]
  constructor
  · intro found
    obtain ⟨access, isFound, rfl⟩ := Option.map_eq_some_iff.mp found
    have keyed := List.find?_some isFound
    exact ⟨access, List.mem_of_find?_eq_some isFound, of_decide_eq_true keyed, rfl⟩
  · rintro ⟨access, member, keyed, rfl⟩
    refine Option.map_eq_some_iff.mpr ⟨access, ?_, rfl⟩
    cases found : db.lockAccesses.rows.find? fun access =>
        r.request.pk.map digitsValue = some access.id with
    | none => exact absurd (decide_eq_true keyed) (List.find?_eq_none.mp found access member)
    | some other =>
        have same := List.find?_some found
        rw [keyed, decide_eq_true_iff, Option.some.injEq] at same
        exact congrArg some
          (db.lockAccesses.eq_of_key (List.mem_of_find?_eq_some found) member same.symm)

theorem AccessRequest.mem_lock_deleteAll (deleteAll : r.kind = .deleteAll) :
    lockId ∈ r.lock db ↔ r.request.pk.map digitsValue = some lockId := by
  rw [lock, deleteAll]
  exact Option.mem_def

end Lock

/-! ### What a write leaves -/

/-- The accesses of a later state: a row that is new has a key that no earlier row had. -/
structure Later (before after : Database) : Prop where
  next : before.lockAccesses.next ≤ after.lockAccesses.next
  rows : ∀ row ∈ after.lockAccesses.rows,
    row ∈ before.lockAccesses.rows ∨ before.lockAccesses.next ≤ row.id

theorem Later.refl (db : Database) : Later db db := ⟨Nat.le_refl _, fun _ => .inl⟩

theorem later_of_delete (db : Database) (condition : LockAccess → Bool) :
    Later db { db with lockAccesses := db.lockAccesses.delete condition } :=
  ⟨Nat.le_refl _, fun _ member => .inl (Table.mem_delete.mp member).1⟩

theorem LockAccessSerializer.later_of_save {new : NewLockAccess} {db after : Database} {body : Body}
    (saved : save new db = .ok (after, body)) : Later db after := by
  rw [save] at saved
  split at saved
  · cases saved
  · split at saved
    · cases saved
    · rename_i inserted
      cases saved
      refine ⟨Table.next_of_insert inserted ▸ Nat.le_succ _, fun row member => ?_⟩
      rw [Table.rows_of_insert inserted] at member
      refine (List.mem_append.mp member).imp_right fun added => ?_
      rw [List.mem_singleton.mp added]

theorem step_later (r : AccessRequest) (progress : Progress) (db : Database) :
    Later db (r.step progress db).2 := by
  cases progress with
  | received | granted | ended => exact .refl db
  | validated new =>
      show Later db (Progress.write db (.validated new))
      rw [Progress.write]
      split
      · exact .refl db
      · rename_i saved
        exact LockAccessSerializer.later_of_save saved
  | found access => exact later_of_delete db _
  | bulk lockId => exact later_of_delete db _

section Aside

variable {user : EsloqUser} {lockId : Nat} {db after : Database}

theorem mem_accessesOf {access : LockAccess} : access ∈ accessesOf db user lockId ↔
    access ∈ db.lockAccesses.rows ∧ access.userId = user.id ∧ access.lockId = lockId := by
  simp only [accessesOf, accessesOn, List.mem_filter, decide_eq_true_iff, and_assoc]
  exact and_congr_right fun _ => and_comm

theorem Aside.mem_iff (aside : Aside user lockId db after) {access : LockAccess} :
    (access ∈ after.lockAccesses.rows ∧ access.userId = user.id ∧ access.lockId = lockId) ↔
      access ∈ db.lockAccesses.rows ∧ access.userId = user.id ∧ access.lockId = lockId := by
  rw [← mem_accessesOf, ← mem_accessesOf, aside.1]

/-- Who is admin on the lock, or has access, is so after a write that leaves them. -/
theorem Aside.adminOn_iff (aside : Aside user lockId db after) :
    AdminOn after user lockId ↔ AdminOn db user lockId := by
  constructor
  · rintro ⟨access, member, own, ofLock, admin⟩
    exact ⟨access, (aside.mem_iff.mp ⟨member, own, ofLock⟩).1, own, ofLock, admin⟩
  · rintro ⟨access, member, own, ofLock, admin⟩
    exact ⟨access, (aside.mem_iff.mpr ⟨member, own, ofLock⟩).1, own, ofLock, admin⟩

theorem Aside.accessOn_iff (aside : Aside user lockId db after) :
    AccessOn after user lockId ↔ AccessOn db user lockId :=
  exists_congr fun _ => aside.mem_iff

end Aside

/-! ### What a check establishes -/

/-- The user is admin on the lock, or the lock has no accesses yet and the request adds one, or the user
has none there and will find none to remove. -/
def AccessRequest.Stands (r : AccessRequest) (db : Database) (progress : Progress) (user : EsloqUser)
    (lockId : Nat) : Prop :=
  AdminOn db user lockId ∨ r.kind = .post ∧ accessesOn db lockId = [] ∨
    r.kind = .delete ∧ progress = .granted ∧ ¬ AccessOn db user lockId

/-- What a check has found, and still is so while the request waits. -/
structure AccessRequest.Vouched (r : AccessRequest) (db : Database) (progress : Progress) : Prop where
  caller : ∃ user, r.request.user = some user ∧ r.request.id = some (toString user.id)
  known : r.kind = .delete → ∀ digits ∈ r.request.pk, digitsValue digits < db.lockAccesses.next
  stands : ∀ user ∈ r.request.user, ∀ lockId ∈ r.lock db, r.Stands db progress user lockId

section Operation

variable {r : AccessRequest} {db : Database}

/-- The caller of a granted request is the user in its URL. -/
theorem AccessRequest.caller (granted : (r.kind.view r.env).Granted r.request db) :
    ∃ user, r.request.user = some user ∧ r.request.id = some (toString user.id) := by
  have both : IsAuthenticated.hasPermission r.request db = .ok true ∧
      AuthenticatedUserIsURLUser.hasPermission r.request db = .ok true := by
    cases kind : r.kind with
    | _ =>
        rw [kind] at granted
        exact ⟨granted _ List.mem_cons_self, granted _ (List.mem_cons_of_mem _ List.mem_cons_self)⟩
  exact caller_of_granted both.1 both.2

/-- The access in the URL of a request that is granted has a row. -/
theorem exists_of_lockIdOf {fields : Fields} {request : ApiRequest} {digits : String} {lockId : Nat}
    (pk : request.pk = some digits) (found : lockIdOf fields db (pkOrMinusOne request) = .ok lockId) :
    ∃ row ∈ db.lockAccesses.rows, row.id = digitsValue digits := by
  rw [pkOrMinusOne, pk, lockIdOf] at found
  obtain ⟨key, converted, found⟩ := bind_eq_ok.mp found
  obtain ⟨row, isRow, -⟩ := bind_eq_ok.mp found
  obtain ⟨member, keyed⟩ := List.mem_filter.mp (mem_of_getOne (ok_of_mapError isRow))
  have same : some (row.id : Int) = key := of_decide_eq_true keyed
  rw [parameter_eq_ok converted, Option.some.injEq, Int.natCast_inj] at same
  exact ⟨row, member, same⟩

theorem vouched_of_granted (granted : (r.kind.view r.env).Granted r.request db) :
    r.Vouched db .granted := by
  obtain ⟨user, caller, named⟩ := AccessRequest.caller granted
  refine ⟨⟨user, caller, named⟩, fun delete digits pk => ?_, fun user' isUser lockId isLock => ?_⟩
  · have method : r.request.method = .delete := by rw [r.method, delete]; rfl
    rw [delete] at granted
    have third := granted (ReadOnlyIfNoAdminAndUsers.hasPermission r.env.fields)
      (List.mem_cons_of_mem _ (List.mem_cons_of_mem _ List.mem_cons_self))
    rw [ReadOnlyIfNoAdminAndUsers.hasPermission, method, if_neg (by decide), if_neg (by decide)] at third
    obtain ⟨lockId, found, -⟩ := bind_eq_ok.mp third
    obtain ⟨row, member, keyed⟩ := exists_of_lockIdOf pk found
    exact keyed ▸ db.lockAccesses.below row member
  · obtain rfl : user = user' := Option.some.inj (caller.symm.trans isUser)
    cases kind : r.kind with
    | post =>
        have method : r.request.method = .post := by rw [r.method, kind]; rfl
        obtain ⟨json, has, converted⟩ := (AccessRequest.mem_lock_post kind).mp isLock
        rw [kind] at granted
        have third := granted (ReadOnlyIfNoAdminAndUsers.hasPermission r.env.fields)
          (List.mem_cons_of_mem _ (List.mem_cons_of_mem _ List.mem_cons_self))
        refine (readOnlyIfNoAdminAndUsers_post caller method has converted third).imp_right fun free => ?_
        exact .inl ⟨kind, List.filter_eq_nil_iff.mpr fun access member => by simpa using free access member⟩
    | delete =>
        have method : r.request.method = .delete := by rw [r.method, kind]; rfl
        obtain ⟨access, member, keyed, rfl⟩ := (AccessRequest.mem_lock_delete kind).mp isLock
        obtain ⟨digits, pk, same⟩ := Option.map_eq_some_iff.mp keyed
        rw [kind] at granted
        have third := granted (ReadOnlyIfNoAdminAndUsers.hasPermission r.env.fields)
          (List.mem_cons_of_mem _ (List.mem_cons_of_mem _ List.mem_cons_self))
        by_cases has : AccessOn db user access.lockId
        · exact .inl (readOnlyIfNoAdminAndUsers_delete caller method pk member same.symm has third)
        · exact .inr (.inr ⟨kind, rfl, has⟩)
    | deleteAll =>
        obtain ⟨digits, pk, rfl⟩ :=
          Option.map_eq_some_iff.mp ((AccessRequest.mem_lock_deleteAll kind).mp isLock)
        rw [kind] at granted
        exact .inl (admin_of_isAdmin caller pk (granted (IsAdmin.hasPermission r.env.fields)
          (List.mem_cons_of_mem _ (List.mem_cons_of_mem _ List.mem_cons_self))))

end Operation

/-! ### One operation -/

section Operation

variable {r : AccessRequest} {db : Database}

theorem readFrom_step {progress : Progress} (reads : r.ReadFrom progress) :
    r.ReadFrom (r.step progress db).1 := by
  cases progress with
  | received =>
      rw [AccessRequest.step, AccessRequest.check]
      split
      · trivial
      · split <;> trivial
  | granted =>
      rw [AccessRequest.step, AccessRequest.prepare]
      split
      · split
        · trivial
        · exact ⟨by assumption, db, by assumption⟩
      · rename_i delete
        split
        · trivial
        · rename_i access found
          obtain ⟨-, digits, -, pk, -, keyed⟩ := getObject_eq_ok found
          exact ⟨delete, digits, pk, keyed⟩
      · split
        · trivial
        · exact ⟨by assumption, by assumption⟩
  | _ => trivial

theorem AccessRequest.granted_of_check (waits : (r.check db).waiting = true) :
    r.check db = .granted ∧ (r.kind.view r.env).Granted r.request db := by
  rw [check] at waits ⊢
  cases refused : r.request.refused with
  | some status =>
      rw [refused] at waits
      cases waits
  | none =>
      rw [refused] at waits
      cases checked : checkPermissions (r.kind.view r.env).permissionClasses r.request db with
      | error failure =>
          rw [checked] at waits
          cases waits
      | ok granted => exact ⟨rfl, checkPermissions_eq_ok.mp checked⟩

/-- What a check has found is carried over by the request itself: a lookup that finds an access finds one
of a lock on which the user is admin. -/
theorem vouched_step {progress : Progress} (vouched : progress.waiting = true → r.Vouched db progress)
    (waits : (r.step progress db).1.waiting = true) :
    r.Vouched (r.step progress db).2 (r.step progress db).1 := by
  cases progress with
  | received =>
      obtain ⟨same, granted⟩ := AccessRequest.granted_of_check waits
      show r.Vouched db (r.check db)
      rw [same]
      exact vouched_of_granted granted
  | granted =>
      obtain ⟨caller, known, stands⟩ := vouched rfl
      refine ⟨caller, known, fun user isUser lockId isLock => ?_⟩
      rcases stands user isUser lockId isLock with admin | free | ⟨delete, -, none'⟩
      · exact .inl admin
      · exact .inr (.inl free)
      · refine .inl ?_
        replace waits : (r.prepare db).waiting = true := waits
        rw [AccessRequest.prepare, delete] at waits
        cases found : getObject LockAccess.id LockAccessViewSet.getQueryset r.request db with
        | error failure =>
            simp only [found] at waits
            cases waits
        | ok access =>
            obtain ⟨rows, digits, queried, pk, member, keyed⟩ := getObject_eq_ok found
            obtain ⟨user', isUser', named⟩ := caller
            obtain rfl : user = user' := Option.some.inj (isUser.symm.trans isUser')
            obtain ⟨inTable, shown⟩ := of_mem_lockAccesses named queried member
            obtain ⟨other, isOther, sameKey, rfl⟩ := (AccessRequest.mem_lock_delete delete).mp isLock
            rw [pk, Option.map_some, ← keyed, Option.some.injEq] at sameKey
            obtain rfl := db.lockAccesses.eq_of_key inTable isOther sameKey
            exact shown.resolve_left fun own => none' ⟨access, inTable, own, rfl⟩
  | _ => cases waits

/-- It is carried over by a write that leaves the user's accesses on the lock. -/
theorem vouched_aside {progress : Progress} {after : Database} (vouched : r.Vouched db progress)
    (later : Later db after)
    (aside : ∀ user ∈ r.request.user, ∀ lockId ∈ r.lock db, Aside user lockId db after) :
    r.Vouched after progress := by
  refine ⟨vouched.caller, fun delete digits pk => ?_, fun user isUser lockId isLock => ?_⟩
  · exact Nat.lt_of_lt_of_le (vouched.known delete digits pk) later.next
  · have before : lockId ∈ r.lock db := by
      cases kind : r.kind with
      | post => exact (AccessRequest.mem_lock_post kind).mpr ((AccessRequest.mem_lock_post kind).mp isLock)
      | deleteAll =>
          exact (AccessRequest.mem_lock_deleteAll kind).mpr
            ((AccessRequest.mem_lock_deleteAll kind).mp isLock)
      | delete =>
          obtain ⟨access, member, keyed, ofLock⟩ := (AccessRequest.mem_lock_delete kind).mp isLock
          obtain ⟨digits, pk, same⟩ := Option.map_eq_some_iff.mp keyed
          have known := vouched.known kind digits pk
          have old := (later.rows access member).resolve_right fun new => by omega
          exact (AccessRequest.mem_lock_delete kind).mpr ⟨access, old, keyed, ofLock⟩
    have aside := aside user isUser lockId before
    rcases vouched.stands user isUser lockId before with admin | ⟨post, free⟩ | ⟨delete, found, none'⟩
    · exact .inl (aside.adminOn_iff.mpr admin)
    · exact .inr (.inl ⟨post, aside.2 free⟩)
    · exact .inr (.inr ⟨delete, found, fun has => none' (aside.accessOn_iff.mp has)⟩)

/-- Rows that are removed for an admin of their locks. -/
theorem rightful_delete {user : EsloqUser} (caller : r.request.user = some user)
    {condition : LockAccess → Bool}
    (permitted : ∀ access ∈ db.lockAccesses.rows, condition access = true →
      AdminOn db user access.lockId) :
    r.Rightful db { db with lockAccesses := db.lockAccesses.delete condition } := by
  intro lockId changed
  obtain ⟨user', isUser, admin⟩ := authorised_of_deleted user
    (⟨caller, [], rfl⟩ : IsUrlUser ["users", toString user.id] r.request.user user) permitted lockId
    changed
  exact ⟨user', isUser.1, .inl admin⟩

theorem rightful_refl : r.Rightful db db := fun _ changed => absurd rfl changed

/-- A write for which the check still stands is rightful. -/
theorem rightful_step {progress : Progress} (reads : r.ReadFrom progress)
    (vouched : progress.waiting = true → r.Vouched db progress) :
    r.Rightful db (r.step progress db).2 := by
  cases progress with
  | received | granted | ended => exact rightful_refl
  | validated new =>
      obtain ⟨post, earlier, valid⟩ := reads
      obtain ⟨⟨user, caller, -⟩, -, stands⟩ := vouched rfl
      have stands := stands user caller new.lock.id
        ((AccessRequest.mem_lock_post post).mpr (LockAccessSerializer.isValid_spec valid).1)
      show r.Rightful db (Progress.write db (.validated new))
      rw [Progress.write]
      split
      · exact rightful_refl
      · rename_i after body saved
        obtain ⟨frame, access, ofLock, -, added⟩ := LockAccessSerializer.save_spec saved
        intro lockId changed
        rw [accessesOn_of_added added lockId] at changed
        split at changed
        · rename_i same
          obtain rfl : new.lock.id = lockId := ofLock.symm.trans same
          refine ⟨user, caller, stands.imp_right fun free => free.resolve_right fun delete => ?_⟩
          rw [post] at delete
          cases delete.1
        · exact absurd (List.append_nil _) changed
  | found access =>
      obtain ⟨delete, digits, pk, keyed⟩ := reads
      obtain ⟨⟨user, caller, -⟩, -, stands⟩ := vouched rfl
      refine rightful_delete caller fun other isOther sameKey => ?_
      have same : other.id = access.id := of_decide_eq_true sameKey
      have isLock := (AccessRequest.mem_lock_delete delete).mpr
        ⟨other, isOther, by rw [pk, Option.map_some, same, keyed], rfl⟩
      refine (stands user caller other.lockId isLock).resolve_right ?_
      rintro (⟨post, -⟩ | ⟨-, granted, -⟩)
      · rw [delete] at post
        cases post
      · cases granted
  | bulk lockId =>
      obtain ⟨deleteAll, converted⟩ := reads
      obtain ⟨⟨user, caller, -⟩, -, stands⟩ := vouched rfl
      refine rightful_delete caller fun access _ ofLock => ?_
      have same : some (access.lockId : Int) = lockId := of_decide_eq_true ofLock
      have isLock : access.lockId ∈ r.lock db := by
        rw [AccessRequest.mem_lock_deleteAll deleteAll]
        cases pk : r.request.pk with
        | none =>
            rw [pk] at converted
            cases converted
        | some digits =>
            rw [pk] at converted
            rw [kwarg_eq_ok converted, Option.some.injEq, Int.natCast_inj] at same
            rw [same, Option.map_some]
      refine (stands user caller access.lockId isLock).resolve_right ?_
      rintro (⟨post, -⟩ | ⟨delete, -⟩)
      · rw [deleteAll] at post
        cases post
      · rw [deleteAll] at delete
        cases delete

end Operation

/-! ### Interleavings -/

/-- A request changes the accesses of a lock on which its user is not admin. -/
def AccessRequest.Claims (r : AccessRequest) (before after : Database) (lockId : Nat) : Prop :=
  accessesOn after lockId ≠ accessesOn before lockId ∧
    ∀ user ∈ r.request.user, ¬ AdminOn before user lockId

section Interleavings

variable {ι : Type} [DecidableEq ι] {requests : ι → AccessRequest}

/-- Whatever waits has been read from some database, and its check still stands. -/
structure Site.Sound (requests : ι → AccessRequest) (site : Site ι) : Prop where
  reads : ∀ i, (requests i).ReadFrom (site.progress i)
  vouched : ∀ i, (site.progress i).waiting = true → (requests i).Vouched site.db (site.progress i)

omit [DecidableEq ι] in
theorem sound_start (db : Database) : (Site.start db : Site ι).Sound requests :=
  ⟨fun _ => trivial, fun _ waits => by cases waits⟩

theorem sound_step (j : ι) (site : Site ι) (sound : site.Sound requests)
    (considerate : Considerate requests j site) : (site.step requests j).Sound requests := by
  refine ⟨fun i => ?_, fun i waits => ?_⟩
  · show (requests i).ReadFrom (Function.update site.progress j _ i)
    by_cases same : i = j
    · subst same
      rw [Function.update_self]
      exact readFrom_step (sound.reads i)
    · rw [Function.update_of_ne same]
      exact sound.reads i
  · show (requests i).Vouched _ (Function.update site.progress j _ i)
    replace waits : (Function.update site.progress j _ i).waiting = true := waits
    by_cases same : i = j
    · subst same
      rw [Function.update_self] at waits ⊢
      exact vouched_step (sound.vouched i) waits
    · rw [Function.update_of_ne same] at waits ⊢
      exact vouched_aside (sound.vouched i waits) (step_later ..) (considerate i same waits)

/-- **Accesses change at the hand of an admin.** For all requests and every order of their operations in
which each is considerate of the requests under way: an access of a lock is added or removed only for a
user who is admin on it at that moment, or added by a `POST` where the lock has none; and between two
claims of a lock there is a moment at which it has none. -/
theorem writes_considerate (requests : ι → AccessRequest) (schedule : List ι) (db : Database)
    (considerate : ∀ done j, done ++ [j] <+: schedule →
      Considerate requests j (After (Site.step requests) done (.start db))) :
    (∀ done i, done ++ [i] <+: schedule → (requests i).Rightful
      (After (Site.step requests) done (.start db)).db
      (After (Site.step requests) (done ++ [i]) (.start db)).db) ∧
    ∀ lockId first i second j, first ++ [i] <+: second → second ++ [j] <+: schedule →
      (requests i).Claims (After (Site.step requests) first (.start db)).db
        (After (Site.step requests) (first ++ [i]) (.start db)).db lockId →
      (requests j).Claims (After (Site.step requests) second (.start db)).db
        (After (Site.step requests) (second ++ [j]) (.start db)).db lockId →
      ∃ middle, first ++ [i] <+: middle ∧ middle <+: second ∧
        accessesOn (After (Site.step requests) middle (.start db)).db lockId = [] := by
  have rightful : ∀ done i, done ++ [i] <+: schedule → (requests i).Rightful
      (After (Site.step requests) done (.start db)).db
      (After (Site.step requests) (done ++ [i]) (.start db)).db := by
    intro done i front
    have sound : (After (Site.step requests) done (.start db)).Sound requests := by
      refine after_holds_of (Site.step requests) (Site.Sound requests) (Considerate requests) sound_step
        done (sound_start db) fun earlier j begins => considerate earlier j ?_
      exact begins.trans ((List.prefix_append done [i]).trans front)
    rw [after_append]
    exact rightful_step (sound.reads i) (sound.vouched i)
  refine ⟨rightful, fun lockId first i second j earlier front _ claims => ?_⟩
  obtain ⟨user, caller, admin | ⟨-, free⟩⟩ := rightful second j front lockId claims.1
  · exact absurd admin (claims.2 user caller)
  · exact ⟨second, earlier, List.prefix_rfl, free⟩

end Interleavings

/-! ### Two claimants -/

/-- A user with an id and an address. -/
def userNamed (id : Nat) (email : String) : EsloqUser where
  id
  firebaseId := some email
  firstName := "User"
  lastName := "Name"
  email

/-- Four users, and one lock with some accesses. -/
def fourUsers (lockAccesses : Table LockAccess.id LockAccess.columns) : Database :=
  { sampleDatabase with
    users := ⟨[userNamed 1 "one@user.com", userNamed 2 "two@user.com", userNamed 3 "three@user.com",
      userNamed 4 "four@user.com"], 5, by decide, by decide⟩
    lockAccesses }

/-- A user with an id posts an access on the lock. -/
def accessPost (poster user : Nat) (email : String) (isAdmin : Bool) : AccessRequest where
  env := sampleEnv
  kind := .post
  request :=
    { jsonRequest .post (some (userNamed poster email))
        [("is_admin", .bool isAdmin), ("lock_id", .int 1), ("user_id", .int user)] with
      id := some (toString poster) }
  method := rfl

/-- Two admins share the lock, each with another user. -/
def sharers (second : Bool) : AccessRequest :=
  if second then accessPost 2 4 "two@user.com" false else accessPost 1 3 "one@user.com" false

/-- The accesses of the two admins. -/
def twoAdmins : Database :=
  fourUsers ⟨[⟨1, 1, 1, true⟩, ⟨2, 1, 2, true⟩], 3, by decide, by decide⟩

theorem writes_considerate_sharers : (sharers true).Rightful
    (After (Site.step sharers) [false, true, false, true, false] (.start twoAdmins)).db
    (After (Site.step sharers) [false, true, false, true, false, true] (.start twoAdmins)).db :=
  (writes_considerate sharers [false, true, false, true, false, true] twoAdmins
    (by decide +kernel)).1 [false, true, false, true, false] true List.prefix_rfl

/-- Two users ask to be admin on the lock. -/
def claimants (second : Bool) : AccessRequest :=
  if second then accessPost 2 2 "two@user.com" true else accessPost 1 1 "one@user.com" true

/-- Nobody has claimed the lock. -/
def unclaimed : Database := fourUsers sampleDatabase.lockAccesses

/-- **Two users claim a lock.** Both checks pass before the first write, and both users are admin on the
lock after the second. -/
theorem two_claimants :
    (After (Site.step claimants) [false, true, false, true, false, true]
      (.start unclaimed)).db.lockAccesses.rows = [⟨1, 1, 1, true⟩, ⟨2, 1, 2, true⟩] ∧
    ¬ (claimants true).Rightful
      (After (Site.step claimants) [false, true, false, true, false] (.start unclaimed)).db
      (After (Site.step claimants) [false, true, false, true, false, true] (.start unclaimed)).db := by
  refine ⟨by decide +kernel, fun rightful => ?_⟩
  obtain ⟨user, caller, permitted⟩ := rightful 1 (by decide +kernel)
  cases caller
  revert permitted
  unfold AdminOn
  decide +kernel

end Esloq
