/-
**Whether a lock in use has an admin (`LockAccessViewSet`, `LockLockAccessesViewSet`).**

* `Managed` — every lock with an access has one that is admin.
* `ApiCall.Orphans` — a request that leaves a lock without one: a `POST` of the first access without
  `is_admin`, or a `DELETE` of the only admin while others have access.
* `admins_kept_iff` — from a database without accesses, every state of a run is managed exactly if no
  request of it is one of these.
-/

import Esloq.Lib.Prefixes
import Esloq.Server.Changes

namespace Esloq

open Rest Prefixes

/-! ### Requests one at a time -/

/-- A request to a path. -/
structure ApiCall where
  env : Env
  path : List String
  request : ApiRequest

/-- The database after a request. -/
def ApiCall.handled (call : ApiCall) (db : Database) : Database :=
  (handle call.env call.path call.request db).1

/-- Every lock with an access has an admin. -/
def Managed (db : Database) : Prop :=
  ∀ access ∈ db.lockAccesses.rows, ∃ admin ∈ db.lockAccesses.rows,
    admin.lockId = access.lockId ∧ admin.isAdmin = true

instance (db : Database) : Decidable (Managed db) :=
  List.decidableBAll (fun access : LockAccess => ∃ admin ∈ db.lockAccesses.rows,
    admin.lockId = access.lockId ∧ admin.isAdmin = true) db.lockAccesses.rows

/-- A request that leaves a lock without an admin. -/
inductive ApiCall.Orphans (call : ApiCall) (db : Database) : Prop
  | claim (kwargs : Kwargs) (new : NewLockAccess)
      (posts : PostsLockAccess call.env call.path call.request db kwargs new)
      (plain : new.isAdmin = some false)
      (unused : ∀ access ∈ db.lockAccesses.rows, access.lockId ≠ new.lock.id)
  | removal (kwargs : Kwargs) (access : LockAccess)
      (deletes : DeletesLockAccess call.env call.path call.request db kwargs access)
      (last : ∀ other ∈ db.lockAccesses.rows, other.lockId = access.lockId → other.isAdmin = true →
        other.id = access.id)
      (used : ∃ other ∈ db.lockAccesses.rows, other.lockId = access.lockId ∧ other.id ≠ access.id)

/-! ### One request -/

section Step

variable {db after : Database}

theorem managed_of_same (same : after.lockAccesses = db.lockAccesses) (managed : Managed db) :
    Managed after := by
  rw [Managed, same]
  exact managed

/-- An access is added: it is that of an admin, or its lock has one already. -/
theorem managed_of_added {access : LockAccess}
    (added : after.lockAccesses.rows = db.lockAccesses.rows ++ [access]) (managed : Managed db)
    (kept : access.isAdmin = true ∨ ∃ other ∈ db.lockAccesses.rows, other.lockId = access.lockId) :
    Managed after := by
  have old : ∀ other ∈ db.lockAccesses.rows, ∃ admin ∈ after.lockAccesses.rows,
      admin.lockId = other.lockId ∧ admin.isAdmin = true := by
    intro other member
    obtain ⟨admin, isRow, onLock⟩ := managed other member
    exact ⟨admin, by rw [added]; exact List.mem_append_left _ isRow, onLock⟩
  intro row member
  rw [added] at member
  rcases List.mem_append.mp member with isOld | isNew
  · exact old row isOld
  · obtain rfl := List.mem_singleton.mp isNew
    rcases kept with admin | ⟨other, isOther, onLock⟩
    · exact ⟨row, by rw [added]; exact List.mem_append_right _ isNew, rfl, admin⟩
    · rw [← onLock]
      exact old other isOther

/-- Accesses are removed: those of a lock all or none, or not its last admin. -/
theorem managed_of_deleted {condition : LockAccess → Bool} (managed : Managed db)
    (kept : ∀ row ∈ db.lockAccesses.rows, condition row = false →
      ∀ admin ∈ db.lockAccesses.rows, admin.lockId = row.lockId → admin.isAdmin = true →
        condition admin = true → ∃ other ∈ db.lockAccesses.rows, other.lockId = row.lockId ∧
          other.isAdmin = true ∧ condition other = false) :
    Managed { db with lockAccesses := db.lockAccesses.delete condition } := by
  intro row member
  obtain ⟨isRow, stays⟩ := Table.mem_delete.mp member
  obtain ⟨admin, isAdmin, onLock, flag⟩ := managed row isRow
  cases removed : condition admin with
  | false => exact ⟨admin, Table.mem_delete.mpr ⟨isAdmin, removed⟩, onLock, flag⟩
  | true =>
      obtain ⟨other, isOther, onLock', flag', stays'⟩ :=
        kept row isRow stays admin isAdmin onLock flag removed
      exact ⟨other, Table.mem_delete.mpr ⟨isOther, stays'⟩, onLock', flag'⟩

/-- A request that leaves no lock without an admin. -/
theorem managed_of_changed {call : ApiCall} (managed : Managed db) (spares : ¬ call.Orphans db)
    (changed : Changed call.env call.path call.request db after) : Managed after := by
  cases changed with
  | elsewhere _ same => exact managed_of_same same managed
  | userCreated => exact managed
  | accessCreated kwargs new posts isAdmin flag lockAccesses added =>
      refine managed_of_added added managed ?_
      by_contra plain
      rw [not_or, Bool.not_eq_true] at plain
      obtain ⟨rfl, unused⟩ := plain
      exact spares (.claim kwargs new posts flag fun other member same => unused ⟨other, member, same⟩)
  | accessDeleted kwargs access deletes =>
      refine managed_of_deleted managed fun row isRow stays admin isAdmin onLock flag removed => ?_
      by_contra nobody
      have sameId : admin.id = access.id := of_decide_eq_true removed
      obtain rfl := db.lockAccesses.eq_of_key isAdmin (mem_of_getObject deletes.found) sameId
      refine spares (.removal kwargs admin deletes (fun other isOther onSame flag' => ?_)
        ⟨row, isRow, onLock.symm, of_decide_eq_false stays⟩)
      by_contra different
      exact nobody ⟨other, isOther, onSame.trans onLock, flag', decide_eq_false different⟩
  | accessesDeleted lockId =>
      refine managed_of_deleted managed fun row isRow stays admin isAdmin onLock flag removed => ?_
      rw [onLock, stays] at removed
      cases removed

/-- A request that leaves a lock without an admin. -/
theorem not_managed_of_orphans {call : ApiCall} (orphans : call.Orphans db) :
    ¬ Managed (call.handled db) := by
  cases orphans with
  | claim kwargs new posts plain unused =>
      intro managed
      have added := posts.handled plain
      obtain ⟨admin, isRow, onLock, flag⟩ := managed
        ⟨db.lockAccesses.next, new.lock.id, new.user.id, false⟩ (by
          rw [ApiCall.handled, added]
          exact List.mem_append_right _ (List.mem_singleton.mpr rfl))
      rw [ApiCall.handled, added] at isRow
      rcases List.mem_append.mp isRow with isOld | isNew
      · exact unused admin isOld onLock
      · rw [List.mem_singleton.mp isNew] at flag
        cases flag
  | removal kwargs access deletes last used =>
      intro managed
      obtain ⟨other, isOther, onLock, different⟩ := used
      have removed := deletes.handled
      rw [ApiCall.handled] at managed
      obtain ⟨admin, isRow, onLock', flag⟩ := managed other (by
        rw [removed]
        exact Table.mem_delete.mpr ⟨isOther, decide_eq_false different⟩)
      rw [removed] at isRow
      obtain ⟨isAdmin, stays⟩ := Table.mem_delete.mp isRow
      exact of_decide_eq_false stays (last admin isAdmin (onLock'.trans onLock) flag)

/-- A request keeps every lock managed exactly if it does not leave one without an admin. -/
theorem managed_iff (call : ApiCall) (db : Database) (managed : Managed db) :
    Managed (call.handled db) ↔ ¬ call.Orphans db := by
  constructor
  · exact fun kept orphans => not_managed_of_orphans orphans kept
  · exact fun spares =>
      managed_of_changed managed spares (handle_changed call.env call.path call.request db)

end Step

/-! ### Runs -/

/-- **A lock in use has an admin.** From a database without accesses, in every run of requests of any
method, path and body and by any caller, handled one at a time: after every beginning of the run every
lock with an access has one that is admin, exactly if no request of the run posts the first access of a
lock without `is_admin`, or deletes the only admin of a lock on which others have access. -/
theorem admins_kept_iff (calls : List ApiCall) (db : Database) (unused : db.lockAccesses.rows = []) :
    (∀ done, done <+: calls → Managed (After ApiCall.handled done db)) ↔
      ∀ done call, done ++ [call] <+: calls → ¬ call.Orphans (After ApiCall.handled done db) := by
  refine kept_iff ApiCall.handled managed_iff calls fun access member => ?_
  rw [unused] at member
  cases member

/-- The first user posts an access on the first lock. -/
def postAccess (isAdmin : Bool) : ApiCall where
  env := sampleEnv
  path := ["users", "1", "lockaccesses", ""]
  request := jsonRequest .post (some sampleUser)
    [("is_admin", .bool isAdmin), ("lock_id", .int 1), ("user_id", .int 1)]

theorem admins_kept_claimed :
    (∀ done, done <+: [postAccess true] → Managed (After ApiCall.handled done sampleDatabase)) ↔
      ∀ done call, done ++ [call] <+: [postAccess true] →
        ¬ call.Orphans (After ApiCall.handled done sampleDatabase) :=
  admins_kept_iff [postAccess true] sampleDatabase rfl

/-- **The first access is not that of an admin.** The lock has an access and no admin. -/
theorem first_access_plain :
    ¬ ∀ (calls : List ApiCall) (db : Database), db.lockAccesses.rows = [] →
      ∀ done, done <+: calls → Managed (After ApiCall.handled done db) := by
  intro every
  have managed := every [postAccess false] sampleDatabase rfl [postAccess false] List.prefix_rfl
  revert managed
  decide +kernel

end Esloq
