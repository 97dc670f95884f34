/-
**Which way the lock buttons turn the bolt (`LockControllerImpl.java`).**

* `LockControllerImpl.lock`, `unlock` — the request that is sent, by the orientation in the table.
* `DataInput.carried` — the orientations of a lock that a snapshot, an added lock or the message that
  adds the user to the lock has stored. An insert of a lock that is there is ignored.
* `Told` — beside the stored data, the first orientation that was carried since the lock was removed,
  and the latest.
* `lock_turns_as_first_told` — after every sequence of inputs in which no `removeUser` message names the
  user, the buttons of a listed lock turn as the first says, and not as the latest (`stale_orientation`).
-/

import Esloq.App.Repository
import Esloq.App.Service

namespace Esloq

open Keyed Machine Prefixes

/-! ### The buttons -/

namespace LockControllerImpl

variable (db : LocalDatabase) (lockMac : String)

/-- The request `lock` sends; `none` is the exception for a lock that is not found. -/
def lock : Option LockRequestCode :=
  (LocalDataServiceApi.locksClockwise db lockMac).map fun locksClockwise =>
    if locksClockwise then .rotateClockwise else .rotateCounterClockwise

/-- The request `unlock` sends. -/
def unlock : Option LockRequestCode :=
  (LocalDataServiceApi.locksClockwise db lockMac).map fun locksClockwise =>
    if locksClockwise then .rotateCounterClockwise else .rotateClockwise

end LockControllerImpl

/-- The lock is in the list that is shown: it has a row, and the stored user an access. -/
def LocalData.Listed (data : LocalData) (mac : String) : Prop :=
  ∃ lock ∈ data.db.locks, lock.mac = mac ∧
    ∃ access ∈ data.db.accesses, access.lockMac = lock.mac ∧ access.userId = data.userId

instance decidableListed (data : LocalData) (mac : String) : Decidable (data.Listed mac) :=
  inferInstanceAs (Decidable (∃ lock ∈ data.db.locks, lock.mac = mac ∧
    ∃ access ∈ data.db.accesses, access.lockMac = lock.mac ∧ access.userId = data.userId))

/-! ### The orientation a statement leaves -/

namespace Statement

variable (mac : String)

/-- The orientation of a lock a statement has inserted, unless the lock is there. -/
def offered : Statement → Option Bool
  | .insertLock row => if row.mac = mac then some row.lockClockwise else none
  | _ => none

/-- Whether a statement deletes a lock. -/
def deletes : Statement → Bool
  | .deleteLock removed => mac = removed
  | .deleteLocks => true
  | _ => false

/-- An insert gives a lock its orientation where it has none. -/
theorem locksClockwise_execute (statement : Statement) (db : LocalDatabase) :
    LocalDataServiceApi.locksClockwise (statement.execute db) mac =
      if statement.deletes mac then none
      else (LocalDataServiceApi.locksClockwise db mac).or (statement.offered mac) := by
  unfold LocalDataServiceApi.locksClockwise
  cases statement with
  | insertLock row =>
      show (lookup LockRow.mac mac (insertNew LockRow.mac row db.locks)).map _ = _
      rw [lookup_insertNew, Option.map_or]
      unfold offered
      by_cases same : row.mac = mac
      · simp [same, deletes]
      · simp [same, deletes]
  | deleteLock removed =>
      show (lookup LockRow.mac mac (without LockRow.mac removed db.locks)).map _ = _
      rw [lookup_without]
      by_cases same : mac = removed
      · simp [same, deletes]
      · simp [same, deletes, offered]
  | deleteLocks => rfl
  | insertUser row => exact Option.or_none.symm
  | insertAccess row =>
      show (lookup LockRow.mac mac (db.insertAccess row).locks).map _ = _
      rw [LocalDatabase.insertAccess_locks]
      exact Option.or_none.symm
  | insertLog row =>
      show (lookup LockRow.mac mac (db.insertLog row).locks).map _ = _
      rw [LocalDatabase.insertLog_locks]
      exact Option.or_none.symm
  | deleteAccess removed userId => exact Option.or_none.symm
  | deleteUsers => exact Option.or_none.symm
  | updateUser row => exact Option.or_none.symm

/-- Of the orientations offered the first stays, unless the lock has one. -/
theorem locksClockwise_after {statements : List Statement}
    (keep : ∀ statement ∈ statements, statement.deletes mac = false) (db : LocalDatabase) :
    LocalDataServiceApi.locksClockwise (After execute statements db) mac =
      (LocalDataServiceApi.locksClockwise db mac).or (statements.filterMap (offered mac)).head? := by
  induction statements generalizing db with
  | nil => exact Option.or_none.symm
  | cons statement statements later =>
      have others := later (fun other member => keep other (List.mem_cons_of_mem _ member))
        (statement.execute db)
      rw [after_cons, others, locksClockwise_execute, keep statement List.mem_cons_self,
        if_neg Bool.false_ne_true, Option.or_assoc]
      cases offer : statement.offered mac with
      | none => rw [Option.none_or, List.filterMap_cons_none offer]
      | some clockwise => rw [List.filterMap_cons_some offer, List.head?_cons, Option.some_or]

theorem offered_eq_nil {script : Script} (emits : script.Emits fun statement =>
    statement.offered mac = none) : script.events.filterMap (offered mac) = [] :=
  List.filterMap_eq_nil_iff.mpr emits

end Statement

/-! ### What the inputs carry -/

section Carried

variable {J : Type} (java : JavaText) (json : OrgJson J) (mac : String)

/-- A message of a command to the user about the lock, which names the user under `who`. -/
abbrev Message.Names (message : Message) (command who : String) (userId : Int32) : Prop :=
  message.isFor java (toString userId) = some true ∧ message.get "command" = some command ∧
    (message.get "lockMac").map java.toUpperCase = some mac ∧
    message.get who = some (toString userId)

namespace DataInput

/-- The orientations of the lock that an input carries, in order. -/
def carried (userId : Int32) : DataInput J → List Bool
  | .parseAndStore jsonObject =>
      if (json.getInt jsonObject "userId").isSome then
        (storeLocks java json jsonObject).events.filterMap (Statement.offered mac)
      else []
  | .addLock added _ lockClockwise => if java.toUpperCase added = mac then [lockClockwise] else []
  | .messageReceived message =>
      if message.Names java mac "addUser" "addUserId" userId then [message.boolean "lockClockwise"]
      else []
  | _ => []

/-- The orientation an entry of a snapshot gives the lock. -/
def entry (jsonLock : Option J) : Option Bool := do
  let lock ← jsonLock
  let text ← json.getString lock "lockMac"
  let lockClockwise ← json.getBoolean lock "lockClockwise"
  if java.toUpperCase text = mac then some lockClockwise else none

/-- A `removeUser` message that names the user. -/
def RemovesOwn (userId : Int32) : DataInput J → Prop
  | .messageReceived message => message.Names java mac "removeUser" "removeUserId" userId
  | _ => False

instance decidableRemovesOwn (userId : Int32) :
    (input : DataInput J) → Decidable (input.RemovesOwn java mac userId)
  | .messageReceived message =>
      inferInstanceAs (Decidable (message.Names java mac "removeUser" "removeUserId" userId))
  | .parseAndStore _ | .addLock _ _ _ | .addUser _ _ _ | .removeLock _ | .removeUser _ _ =>
      isFalse not_false

/-- Whether an input removes the lock. -/
def removes : DataInput J → Bool
  | .removeLock removed => mac = removed
  | _ => false

end DataInput

/-- The stored data, and what the inputs have carried for the lock: the first orientation since it was
removed, and the latest. -/
structure Told where
  data : LocalData
  first : Option Bool
  latest : Option Bool

/-- An empty database. -/
def Told.initial (userId : Int32) : Told := ⟨⟨userId, .empty⟩, none, none⟩

/-- An input that is no `removeUser` message that names the user. -/
def DataInput.Spares (input : DataInput J) (told : Told) : Prop :=
  ¬ input.RemovesOwn java mac told.data.userId

instance decidableSpares (input : DataInput J) (told : Told) :
    Decidable (input.Spares java mac told) :=
  inferInstanceAs (Decidable (¬ input.RemovesOwn java mac told.data.userId))

/-- What an input leaves. -/
def DataInput.tell (input : DataInput J) (told : Told) : Told where
  data := input.step java json told.data
  first :=
    if input.removes mac then none
    else told.first.or (input.carried java json mac told.data.userId).head?
  latest := (input.carried java json mac told.data.userId).getLast?.or told.latest

end Carried

/-! ### The orientations a script offers are those the input carries -/

section Offered

variable {J : Type} {java : JavaText} {json : OrgJson J} {mac : String} {userId : Int32}

/-- What the commands `addUser` and `removeUser` start with. -/
theorem Message.offered_addOwnLock (message : Message) (who : String) {rest : String → Script}
    (silent : ∀ lockMac, (rest lockMac).Emits fun statement => statement.offered mac = none) :
    (orThrow ((message.get "lockMac").map java.toUpperCase) .nullPointer fun lockMac =>
      (message.addOwnLock java (toString userId) who lockMac).andThen fun _ =>
        rest lockMac).events.filterMap (Statement.offered mac) =
      if (message.get "lockMac").map java.toUpperCase = some mac ∧
          message.get who = some (toString userId) then [message.boolean "lockClockwise"]
      else [] := by
  cases named : message.get "lockMac" with
  | none => simp [orThrow]
  | some text =>
      have others := Statement.offered_eq_nil mac (silent (java.toUpperCase text))
      unfold addOwnLock LocalDataServiceApi.addLock orThrow
      by_cases own : message.get who = some (toString userId)
      · by_cases same : java.toUpperCase text = mac
        · subst same
          simp [own, others, Statement.offered, java.toUpperCase_idem]
        · simp [own, others, Statement.offered, java.toUpperCase_idem, same]
      · simp [own, others]

/-- Messages that do not name the user under `removeUserId` offer what they carry. -/
theorem Message.offered_handleData (message : Message)
    (spared : ¬ message.Names java mac "removeUser" "removeUserId" userId) :
    (message.handleData java userId).events.filterMap (Statement.offered mac) =
      if message.Names java mac "addUser" "addUserId" userId then [message.boolean "lockClockwise"]
      else [] := by
  unfold Names at spared ⊢
  unfold handleData
  cases mine : message.isFor java (toString userId) with
  | none => simp [orThrow]
  | some isMine =>
      cases isMine with
      | false => simp [orThrow, Turn.pure]
      | true =>
          rw [mine] at spared
          show (message.command java (toString userId)).events.filterMap _ = _
          unfold command
          cases given : message.get "command" with
          | none => simp [Turn.pure]
          | some command =>
              rw [given] at spared
              simp only [Option.getD_some, Option.some.injEq, true_and] at spared ⊢
              split
              · simp only [String.reduceEq, false_and, if_false]
                exact Statement.offered_eq_nil mac (updateUser_emits fun _ => rfl)
              · simp only [true_and]
                refine message.offered_addOwnLock "addUserId" fun lockMac => ?_
                exact emits_orThrow fun added _ => addUserToLock_emits (fun _ => rfl) fun _ => rfl
              · simp only [true_and] at spared
                simp only [String.reduceEq, false_and, if_false]
                refine (message.offered_addOwnLock "removeUserId" fun lockMac => ?_).trans
                  (if_neg spared)
                exact emits_orThrow fun removed _ => removeUserFromLock_emits fun _ _ => rfl
              · simp only [String.reduceEq, false_and, if_false]
                exact Statement.offered_eq_nil mac (addLog_emits fun _ => rfl)
              · rename_i other _ _
                rw [if_neg fun names => other names.1]
                rfl

/-- The script of an input offers what the input carries. -/
theorem DataInput.offered_script (input : DataInput J) (spared : ¬ input.RemovesOwn java mac userId) :
    (input.script java json userId).events.filterMap (Statement.offered mac) =
      input.carried java json mac userId := by
  cases input with
  | parseAndStore jsonObject =>
      show (if _ then _ else _ : Script).events.filterMap _ = if _ then _ else _
      by_cases named : (json.getInt jsonObject "userId").isSome
      · rw [if_pos named, if_pos named]
      · rw [if_neg named, if_neg named]
        rfl
  | addLock added name lockClockwise =>
      show [_, _, _].filterMap _ = if java.toUpperCase added = mac then [lockClockwise] else []
      by_cases same : java.toUpperCase added = mac
      · simp [Statement.offered, same]
      · simp [Statement.offered, same]
  | addUser jsonObject added isAdmin =>
      simp only [script]
      cases jsonUser json jsonObject with
      | some user =>
          exact Statement.offered_eq_nil mac (addUserToLock_emits (fun _ => rfl) fun _ => rfl)
      | none => rfl
  | removeLock removed => rfl
  | removeUser removed lockMac =>
      exact Statement.offered_eq_nil mac (removeUserFromLock_emits fun _ _ => rfl)
  | messageReceived message => exact message.offered_handleData spared

/-- Only `removeLock` deletes the lock. -/
theorem DataInput.keeps_lock (input : DataInput J) (keep : input.removes mac = false) :
    ∀ statement ∈ (input.script java json userId).events, statement.deletes mac = false := by
  by_cases removal : ∃ removed, input = .removeLock removed
  · obtain ⟨removed, rfl⟩ := removal
    intro statement member
    rw [List.mem_singleton.mp member]
    exact keep
  · exact script_emits (fun removed same => removal ⟨removed, same⟩) (fun _ => rfl) (fun _ => rfl)
      (fun _ => rfl) (fun _ => rfl) (fun _ _ => rfl) fun _ => rfl

/-- What an input does to the orientation of the lock. -/
theorem DataInput.locksClockwise_step (input : DataInput J) (data : LocalData)
    (spared : ¬ input.RemovesOwn java mac data.userId) :
    LocalDataServiceApi.locksClockwise (input.step java json data).db mac =
      if input.removes mac then none
      else (LocalDataServiceApi.locksClockwise data.db mac).or
        (input.carried java json mac data.userId).head? := by
  unfold step
  by_cases removal : input.removes mac = true
  · rw [if_pos removal]
    cases input with
    | removeLock removed =>
        rw [of_decide_eq_true removal]
        exact (Statement.locksClockwise_execute removed (.deleteLock removed) data.db).trans
          (by simp [Statement.deletes])
    | _ => cases removal
  · have keep := eq_false_of_ne_true removal
    rw [if_neg removal, Statement.locksClockwise_after mac (input.keeps_lock keep),
      input.offered_script spared]

end Offered

/-! ### Every sequence -/

section Sequences

variable {J : Type} (java : JavaText) (json : OrgJson J) (mac : String)

/-- The orientation in the table is the first that was carried. -/
theorem first_is_stored (inputs : List (DataInput J)) (userId : Int32)
    (spared : ∀ done next, done ++ [next] <+: inputs →
      next.Spares java mac (After (DataInput.tell java json mac) done (.initial userId))) :
    let told := After (DataInput.tell java json mac) inputs (.initial userId)
    LocalDataServiceApi.locksClockwise told.data.db mac = told.first := by
  refine after_holds_of (DataInput.tell java json mac)
    (fun told => LocalDataServiceApi.locksClockwise told.data.db mac = told.first)
    (DataInput.Spares java mac) ?_ inputs rfl spared
  intro input told stored spares
  have stepped := @DataInput.locksClockwise_step J java json mac input told.data spares
  rw [stored] at stepped
  exact stepped

/-- A lock that is listed has an orientation. -/
theorem LocalData.Listed.locksClockwise {data : LocalData} {mac : String} (listed : data.Listed mac) :
    ∃ clockwise, LocalDataServiceApi.locksClockwise data.db mac = some clockwise := by
  obtain ⟨lock, member, named, -⟩ := listed
  have found : lookup LockRow.mac mac data.db.locks = some lock :=
    (lookup_eq_some data.db.lockKeys).mpr ⟨member, named⟩
  refine ⟨lock.lockClockwise, ?_⟩
  unfold LocalDataServiceApi.locksClockwise
  rw [found]
  rfl

/-- **The lock button turns as the first orientation says that was carried since the lock was removed,
and the unlock button the other way.** -/
theorem lock_turns_as_first_told (inputs : List (DataInput J)) (userId : Int32)
    (spared : ∀ done next, done ++ [next] <+: inputs →
      next.Spares java mac (After (DataInput.tell java json mac) done (.initial userId)))
    (listed : (After (DataInput.tell java json mac) inputs (.initial userId)).data.Listed mac) :
    let told := After (DataInput.tell java json mac) inputs (.initial userId)
    ∃ clockwise, told.first = some clockwise ∧
      LockControllerImpl.lock told.data.db mac =
        some (if clockwise then .rotateClockwise else .rotateCounterClockwise) ∧
      LockControllerImpl.unlock told.data.db mac =
        some (if clockwise then .rotateCounterClockwise else .rotateClockwise) := by
  obtain ⟨clockwise, found⟩ := listed.locksClockwise
  refine ⟨clockwise, ?_, ?_, ?_⟩
  · exact (first_is_stored java json mac inputs userId spared).symm.trans found
  · unfold LockControllerImpl.lock
    rw [found]
    rfl
  · unfold LockControllerImpl.unlock
    rw [found]
    rfl

end Sequences

/-- `lock_turns_as_first_told` after two snapshots that differ. -/
theorem lock_turns_as_first_told_snapshots :
    let told := After (DataInput.tell asciiText JsonValue.accessors "00:07:80:7E:C0:01")
      [.parseAndStore (sampleSnapshot "00:07:80:7E:C0:01" true),
        .parseAndStore (sampleSnapshot "00:07:80:7E:C0:01" false)] (.initial (-1))
    ∃ clockwise, told.first = some clockwise ∧
      LockControllerImpl.lock told.data.db "00:07:80:7E:C0:01" =
        some (if clockwise then .rotateClockwise else .rotateCounterClockwise) ∧
      LockControllerImpl.unlock told.data.db "00:07:80:7E:C0:01" =
        some (if clockwise then .rotateCounterClockwise else .rotateClockwise) :=
  lock_turns_as_first_told asciiText JsonValue.accessors _ _ _ (by decide +kernel)
    (by decide +kernel)

/-- After the second of two snapshots that differ the button turns as the first says. -/
theorem stale_orientation : ¬ ∀ inputs : List (DataInput JsonValue),
    let told := After (DataInput.tell asciiText JsonValue.accessors "00:07:80:7E:C0:01") inputs
      (.initial (-1))
    told.data.Listed "00:07:80:7E:C0:01" →
      (LockControllerImpl.lock told.data.db "00:07:80:7E:C0:01" = some .rotateClockwise ↔
        told.latest = some true) := fun every => by
  have same := every [.parseAndStore (sampleSnapshot "00:07:80:7E:C0:01" true),
    .parseAndStore (sampleSnapshot "00:07:80:7E:C0:01" false)] (by decide +kernel)
  exact absurd (same.mp (by decide +kernel)) (by decide +kernel)

end Esloq
