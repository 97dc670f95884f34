/-
**What requests save, and on what that fails.**

* `related_cases` — a related field fails on a number of more than 64 bits.
* the `fine_` lemmas — what a serializer refuses it answers, and what is valid can be saved: but an access
  without `is_admin`, and a log without `lock_state` or at a time no column holds (`isValid_of_null`, of the
  values that `isValid_eq_ok` gives).
* `ticket_served` — a ticket, of a lock with a row whose next nonce the column holds.
-/

import Esloq.Server.Crashes

namespace Esloq

open Rest

/-! ### The serializers -/

section Validation

variable {env : Env} {request : ApiRequest} {db : Database}

theorem fine_refused {α : Type} : Fine (throw (.api 400) : Except Failure α) :=
  fine_error.mpr ⟨Nat.le_refl _, Nat.le_of_ble_eq_true rfl⟩

theorem mapping_eq_ok (object : ∃ entries, request.data = .fields entries) :
    request.data.mapping = .ok () := by
  obtain ⟨entries, isObject⟩ := object
  rw [isObject]
  rfl

/-- The fields are read from an object. -/
theorem fine_mapped {α : Type} {next : Unit → Except Failure α}
    (object : ∃ entries, request.data = .fields entries) :
    Fine (request.data.mapping >>= next) ↔ Fine (next ()) := by
  rw [mapping_eq_ok object]
  rfl

theorem mapped_eq_ok {α : Type} {next : Unit → Except Failure α} {result : α}
    (object : ∃ entries, request.data = .fields entries) :
    request.data.mapping >>= next = .ok result ↔ next () = .ok result := by
  rw [mapping_eq_ok object]
  rfl

section Related

variable {ρ υ : Type} [DecidableEq υ] {key : ρ → Nat} {columns : List (ρ → Option υ)}
  {table : Table key columns} {name : String}

/-- A related field fails on a number of more than 64 bits only. -/
theorem related_cases (object : ∃ entries, request.data = .fields entries) :
    (∃ entry, related env.fields key table.rows request.data name = .ok entry) ∧
        ¬ LargeField env request name ∨
      related env.fields key table.rows request.data name = .error (.escaped .overflowError) ∧
        LargeField env request name := by
  obtain ⟨value, has⟩ := get_eq_ok object name
  rw [related, LargeField, has]
  cases value with
  | none =>
      refine .inl ⟨⟨.invalid, rfl⟩, ?_⟩
      rintro ⟨json, same, -⟩
      cases same
  | some json =>
      simp only [Except.ok.injEq, Option.some.injEq, exists_eq_left']
      cases converted : lookupKey env.fields.integerOfText json with
      | error failure =>
          rcases lookupKey_eq_error converted with rfl | rfl | rfl
          · exact .inr ⟨rfl, rfl⟩
          · exact .inl ⟨⟨.invalid, rfl⟩, fun same => by cases same⟩
          · exact .inl ⟨⟨.invalid, rfl⟩, fun same => by cases same⟩
      | ok number =>
          refine .inl ⟨?_, fun same => by cases same⟩
          dsimp only
          split
          · exact ⟨_, rfl⟩
          · exact ⟨_, rfl⟩

theorem fine_related (object : ∃ entries, request.data = .fields entries) :
    Fine (related env.fields key table.rows request.data name) ↔ ¬ LargeField env request name := by
  rcases @related_cases env request ρ υ _ key columns table name object with
    ⟨⟨entry, found⟩, within⟩ | ⟨failed, large⟩
  · exact iff_of_true (found ▸ fine_ok entry) within
  · rw [failed]
    exact iff_of_false (fun fine => fine_error.mp fine) fun never => never large

/-- A value that has been converted is no number of more than 64 bits. -/
theorem not_largeField {value : Json} {number : Option Int} (given : request.data.getOrMinusOne name = .ok value)
    (converted : lookupKey env.fields.integerOfText value = .ok number) : ¬ LargeField env request name := by
  rintro ⟨json, has, failed⟩
  rw [getOrMinusOne_of_get has, Except.ok.injEq] at given
  rw [given, converted] at failed
  cases failed

theorem related_iff {row : ρ} :
    related env.fields key table.rows request.data name = .ok (.value row) ↔
      row ∈ table.rows ∧ Names env request name (key row) := by
  refine ⟨related_eq_value, ?_⟩
  rintro ⟨isRow, json, has, converted⟩
  have found : table.rows.find? (fun other => some (key other : Int) = some (key row : Int)) = some row := by
    cases result : table.rows.find? fun other => some (key other : Int) = some (key row : Int) with
    | none => exact absurd (decide_eq_true rfl) (List.find?_eq_none.mp result row isRow)
    | some other =>
        have equal := List.find?_some result
        rw [decide_eq_true_iff, Option.some.injEq, Int.natCast_inj] at equal
        rw [table.eq_of_key (List.mem_of_find?_eq_some result) isRow equal]
  simp only [related, has, converted, found]

end Related

/-- Validation of an access fails on its flag and the number of its user only. -/
theorem LockAccessSerializer.fine_isValid (object : ∃ entries, request.data = .fields entries)
    (within : ¬ LargeField env request "lock_id") :
    Fine (isValid env.fields request.data db) ↔
      ¬ (env.fields.boolean request.data "is_admin").Fails ∧ ¬ LargeField env request "user_id" := by
  rw [isValid, fine_mapped object, fine_read_bind, fine_bind, fine_related object, and_iff_right within]
  refine and_congr_right fun _ => ?_
  constructor
  · intro located
    obtain ⟨⟨lock, ofLock⟩, -⟩ | ⟨-, large⟩ := @related_cases env request _ _ _ _ _ db.locks "lock_id" object
    · exact (fine_related object).mp (fine_bind.mp (located lock ofLock)).1
    · exact absurd large within
  · intro userWithin lock _
    refine fine_bind.mpr ⟨(fine_related object).mpr userWithin, fun user _ => ?_⟩
    split
    · exact fine_refused
    · split
      · exact fine_refused
      · exact fine_ok _
    · exact fine_refused

/-- An access is valid if the rows of its keys are there, without one yet, and its flag can be read. -/
theorem LockAccessSerializer.isValid_eq_ok (object : ∃ entries, request.data = .fields entries)
    {new : NewLockAccess} :
    isValid env.fields request.data db = .ok new ↔
      (new.lock ∈ db.locks.rows ∧ Names env request "lock_id" new.lock.id) ∧
      (new.user ∈ db.users.rows ∧ Names env request "user_id" new.user.id) ∧
      (∀ access ∈ db.lockAccesses.rows, ¬ (access.lockId = new.lock.id ∧ access.userId = new.user.id)) ∧
      (env.fields.boolean request.data "is_admin").Given new.isAdmin := by
  constructor
  · intro valid
    have free := (isValid_spec valid).2
    rw [isValid, mapped_eq_ok object, read_bind_eq_ok] at valid
    obtain ⟨converts, read⟩ := valid
    obtain ⟨_, ofLock, located⟩ := bind_eq_ok.mp read
    obtain ⟨_, ofUser, checked⟩ := bind_eq_ok.mp located
    split at checked
    · cases checked
    · rename_i lock user flagValid
      split at checked
      · cases checked
      · cases checked
        exact ⟨related_iff.mp ofLock, related_iff.mp ofUser, free, converts, flagValid, rfl⟩
    · cases checked
  · obtain ⟨lock, user, isAdmin⟩ := new
    rintro ⟨isLock, isUser, free, converts, flagValid, rfl⟩
    have unique : ¬ (db.lockAccesses.rows.any fun access =>
        access.lockId = lock.id ∧ access.userId = user.id) = true := by
      intro used
      obtain ⟨access, isAccess, same⟩ := List.any_eq_true.mp used
      exact free access isAccess (of_decide_eq_true same)
    rw [isValid, mapped_eq_ok object, read_bind_eq_ok]
    refine ⟨converts, bind_eq_ok.mpr ⟨.value lock, related_iff.mpr isLock, ?_⟩⟩
    refine bind_eq_ok.mpr ⟨.value user, related_iff.mpr isUser, ?_⟩
    cases flag : env.fields.boolean request.data "is_admin" with
    | invalid => exact absurd flag flagValid
    | absent => exact if_neg unique
    | value isAdmin => exact if_neg unique
    | raises error => exact absurd ⟨error, flag⟩ converts

/-- The access that would be saved with a null. -/
theorem LockAccessSerializer.isValid_of_null (object : ∃ entries, request.data = .fields entries) :
    (∃ new, isValid env.fields request.data db = .ok new ∧ new.isAdmin = none) ↔
      NullAdmin env request db := by
  constructor
  · rintro ⟨new, valid, null⟩
    obtain ⟨⟨isLock, namesLock⟩, ⟨isUser, namesUser⟩, free, given⟩ := (isValid_eq_ok object).mp valid
    exact ⟨⟨new.lock, isLock, new.user, isUser, namesLock, namesUser, free⟩, given.eq_none.mp null⟩
  · rintro ⟨⟨lock, isLock, user, isUser, namesLock, namesUser, free⟩, absent⟩
    exact ⟨⟨lock, user, none⟩, (isValid_eq_ok object).mpr
      ⟨⟨isLock, namesLock⟩, ⟨isUser, namesUser⟩, free, Entry.given_absent absent⟩, rfl⟩

/-- Validation of a log fails on its time and its state only. -/
theorem LogSerializer.fine_isValid (object : ∃ entries, request.data = .fields entries)
    (lockWithin : ¬ LargeField env request "lock_id") (userWithin : ¬ LargeField env request "user_id") :
    Fine (isValid env.fields request.data db) ↔ ¬ (env.fields.integer request.data "access_time").Fails ∧
      ¬ (env.fields.boolean request.data "lock_state").Fails := by
  rw [isValid, fine_mapped object, fine_read_bind, fine_read_bind]
  refine and_congr_right fun _ => and_iff_left ?_
  refine fine_bind.mpr ⟨(fine_related object).mpr lockWithin, fun lock _ => ?_⟩
  refine fine_bind.mpr ⟨(fine_related object).mpr userWithin, fun user _ => ?_⟩
  split
  · exact fine_refused
  · exact fine_refused
  · exact fine_ok _
  · exact fine_refused

/-- A log can be saved if its columns have values. -/
theorem LogSerializer.fine_save {now : Nat} {new : NewLog} :
    Fine (save now new db) ↔ ¬ (new.lockState = none ∨ fits (new.accessTime.getD now) = false) := by
  rw [save]
  cases fit : fits (new.accessTime.getD (now : Int)) with
  | false =>
      rw [parameter_of_large fit]
      exact iff_of_false (fun fine => fine_error.mp fine) fun never => never (.inr rfl)
  | true =>
      rw [parameter_of_fits fit]
      cases new.lockState with
      | none => exact iff_of_false (fun fine => fine_error.mp fine) fun never => never (.inl rfl)
      | some lockState =>
          have free : ∀ log ∈ db.logs.rows, Table.clashes Log.columns log
              ⟨db.logs.next, new.lock.id, new.user.id, new.accessTime.getD now, lockState⟩ = false :=
            fun _ _ => rfl
          obtain ⟨logs, inserted, -⟩ := Table.insert_of_free (fun _ => rfl : ∀ id,
            (Log.mk id new.lock.id new.user.id (new.accessTime.getD now) lockState).id = id) free
          dsimp only
          rw [inserted]
          exact iff_of_true (fine_ok _) (by simp)

/-- A log is valid if the rows of its keys are there and its other fields can be read. -/
theorem LogSerializer.isValid_eq_ok (object : ∃ entries, request.data = .fields entries) {new : NewLog} :
    isValid env.fields request.data db = .ok new ↔
      (new.lock ∈ db.locks.rows ∧ Names env request "lock_id" new.lock.id) ∧
      (new.user ∈ db.users.rows ∧ Names env request "user_id" new.user.id) ∧
      (env.fields.integer request.data "access_time").Given new.accessTime ∧
      (env.fields.boolean request.data "lock_state").Given new.lockState := by
  rw [isValid, mapped_eq_ok object, read_bind_eq_ok, read_bind_eq_ok]
  constructor
  · rintro ⟨timed, stated, read⟩
    obtain ⟨_, ofLock, located⟩ := bind_eq_ok.mp read
    obtain ⟨_, ofUser, checked⟩ := bind_eq_ok.mp located
    split at checked
    · cases checked
    · cases checked
    · rename_i lock user timeValid stateValid
      cases checked
      exact ⟨related_iff.mp ofLock, related_iff.mp ofUser, ⟨timed, timeValid, rfl⟩, stated, stateValid, rfl⟩
    · cases checked
  · obtain ⟨lock, user, accessTime, lockState⟩ := new
    rintro ⟨isLock, isUser, ⟨timed, timeValid, rfl⟩, stated, stateValid, rfl⟩
    refine ⟨timed, stated, bind_eq_ok.mpr ⟨.value lock, related_iff.mpr isLock, ?_⟩⟩
    refine bind_eq_ok.mpr ⟨.value user, related_iff.mpr isUser, ?_⟩
    split
    · exact absurd ‹_› timeValid
    · exact absurd ‹_› stateValid
    · rename_i sameLock sameUser _ _
      cases sameLock
      cases sameUser
      rfl
    · rename_i never _ _
      exact (never lock user rfl rfl).elim

/-- The log that would be saved with a null, or at a time no column holds. -/
theorem LogSerializer.isValid_of_null (object : ∃ entries, request.data = .fields entries)
    (timed : ¬ (env.fields.integer request.data "access_time").Fails)
    (stated : ¬ (env.fields.boolean request.data "lock_state").Fails)
    (isUser : ∃ user ∈ db.users.rows, Names env request "user_id" user.id) :
    (∃ new, isValid env.fields request.data db = .ok new ∧
      (new.lockState = none ∨ fits (new.accessTime.getD env.now) = false)) ↔ NullState env request db := by
  constructor
  · rintro ⟨new, valid, crash⟩
    obtain ⟨ofLock, -, time, state⟩ := (isValid_eq_ok object).mp valid
    rw [state.eq_none, time.2.2] at crash
    exact ⟨⟨new.lock, ofLock⟩, time.2.1, state.2.1, crash⟩
  · rintro ⟨⟨lock, ofLock⟩, timeValid, stateValid, crash⟩
    obtain ⟨user, ofUser⟩ := isUser
    have state : (env.fields.boolean request.data "lock_state").Given _ := ⟨stated, stateValid, rfl⟩
    rw [← state.eq_none] at crash
    exact ⟨⟨lock, user, _, _⟩,
      (isValid_eq_ok object).mpr ⟨ofLock, ofUser, ⟨timed, timeValid, rfl⟩, state⟩, crash⟩

/-- An access that may be posted is saved, but for these. -/
theorem LockAccessViewSet.create_served (object : ∃ entries, request.data = .fields entries)
    (within : ¬ LargeField env request "lock_id") :
    WellServed db (LockAccessViewSet.create env request db) ↔
      ¬ ((env.fields.boolean request.data "is_admin").Fails ∨ LargeField env request "user_id" ∨
        NullAdmin env request db) := by
  rw [LockAccessViewSet.create, wellServed_create, LockAccessSerializer.fine_isValid object within, not_or,
    not_or, ← LockAccessSerializer.isValid_of_null object, not_exists, and_assoc]
  refine and_congr_right fun _ => and_congr_right fun _ => forall_congr' fun new => ?_
  rw [not_and]
  refine imp_congr_right fun valid => ?_
  cases flag : new.isAdmin with
  | none =>
      rw [LockAccessSerializer.save, flag]
      exact iff_of_false (fun fine => fine_error.mp fine) fun never => never rfl
  | some isAdmin =>
      obtain ⟨lockAccesses, body, saved, -⟩ := LockAccessSerializer.save_of_valid valid flag
      rw [saved]
      exact iff_of_true (fine_ok _) fun same => by cases same

theorem EsloqUserSerializer.fine_isValid (object : ∃ entries, request.data = .fields entries) :
    Fine (EsloqUserSerializer.isValid env.fields request.data db) ↔
      ¬ (env.fields.nullableUniqueText request.data "firebase_id" 28).Fails ∧
      ¬ (env.fields.text request.data "first_name" 20).Fails ∧
      ¬ (env.fields.text request.data "last_name" 20).Fails ∧
      ¬ (env.fields.email request.data "email" 50).Fails := by
  rw [isValid, fine_mapped object, fine_read_bind, fine_read_bind, fine_read_bind, fine_read_bind]
  refine and_congr_right fun _ => and_congr_right fun _ => and_congr_right fun _ => and_iff_left ?_
  split
  · exact fine_refused
  · split
    · exact fine_refused
    · exact fine_ok _
  · exact fine_refused

/-- A valid user is saved if both names have an encoding. -/
theorem EsloqUserSerializer.fine_save {new : NewUser}
    (valid : EsloqUserSerializer.isValid env.fields request.data db = .ok new) :
    Fine (EsloqUserSerializer.save new db) ↔ ¬ (new.firstName = .surrogates ∨ new.lastName = .surrogates) := by
  constructor
  · rintro fine (first | last)
    · rw [save, first] at fine
      exact fine_error.mp fine
    · cases first : new.firstName with
      | surrogates =>
          rw [save, first] at fine
          exact fine_error.mp fine
      | encoded text =>
          rw [save, first, last] at fine
          exact fine_error.mp fine
  · intro encodable
    cases first : new.firstName with
    | surrogates => exact absurd (.inl first) encodable
    | encoded firstName =>
        cases last : new.lastName with
        | surrogates => exact absurd (.inr last) encodable
        | encoded lastName =>
            obtain ⟨users, body, saved, -⟩ := EsloqUserSerializer.save_of_valid valid first last
            exact saved ▸ fine_ok _

theorem AllEsloqUserViewSet.create_served (object : ∃ entries, request.data = .fields entries) :
    WellServed db (AllEsloqUserViewSet.create env request db) ↔ ¬ BadUser env request db := by
  rw [AllEsloqUserViewSet.create, wellServed_create, EsloqUserSerializer.fine_isValid object, BadUser]
  simp only [not_or, and_assoc]
  refine and_congr_right fun _ => and_congr_right fun _ => and_congr_right fun _ => and_congr_right fun _ => ?_
  rw [not_exists]
  refine forall_congr' fun new => ?_
  rw [not_and]
  exact imp_congr_right fun valid => EsloqUserSerializer.fine_save valid

theorem LockSerializer.fine_isValid {lock : EsloqRow} (object : ∃ entries, request.data = .fields entries) :
    Fine (LockSerializer.isValid env.fields request.data lock db) ↔
      ¬ (env.fields.text request.data "name" 20).Fails ∧
        ¬ (env.fields.uniqueText request.data "mac" 20).Fails := by
  rw [isValid, fine_mapped object, fine_read_bind, fine_read_bind]
  refine and_congr_right fun _ => and_iff_left ?_
  extract_lets freeMac
  split
  · exact fine_refused
  · exact fine_refused
  · split
    · exact fine_ok _
    · exact fine_refused
  · exact fine_ok _

/-- A lock can be saved under the `mac` it has. -/
theorem locks_save_of_mem {lock new : EsloqRow} (member : lock ∈ db.locks.rows) (sameId : new.id = lock.id)
    (sameMac : new.mac = lock.mac) : ∃ locks, db.locks.save new = some locks := by
  refine Table.save_of_mem member sameId fun column unique => ?_
  rw [List.mem_singleton.mp unique]
  exact congrArg some sameMac

theorem LockSerializer.fine_update {lock : EsloqRow} {name : Option Text} (member : lock ∈ db.locks.rows) :
    Fine (LockSerializer.update lock name db) ↔ name ≠ some .surrogates := by
  have saves : ∀ name', Fine (LockSerializer.update lock name db) ∨
      (name.getD (.encoded lock.name)).encode ≠ .ok name' := by
    intro name'
    by_cases encoded : (name.getD (.encoded lock.name)).encode = .ok name'
    · have kept : ({ lock with name := name' } : EsloqRow).id = lock.id := rfl
      obtain ⟨locks, saved⟩ := locks_save_of_mem member kept rfl
      rw [LockSerializer.update, encoded]
      dsimp only [bind, Except.bind]
      rw [saved]
      exact .inl (fine_ok _)
    · exact .inr encoded
  cases name with
  | none => exact iff_of_true ((saves lock.name).resolve_right fun other => other rfl) (by decide)
  | some name =>
      cases name with
      | encoded text => exact iff_of_true ((saves text).resolve_right fun other => other rfl) (by simp)
      | surrogates => exact iff_of_false (fun fine => fine_error.mp fine) fun other => other rfl

/-- A valid registration is given a row. -/
theorem FcmRegistrationSerializer.fine_save {new : NewFcmRegistration}
    (valid : isValid env.fields request.data db = .ok new) : Fine (save new db) := by
  obtain ⟨-, -, mapped⟩ := bind_eq_ok.mp valid
  obtain ⟨_, -, mapped⟩ := bind_eq_ok.mp mapped
  obtain ⟨_, -, checked⟩ := bind_eq_ok.mp mapped
  split at checked
  · rename_i user text
    obtain ⟨token, -, checked⟩ := bind_eq_ok.mp checked
    split at checked
    · cases checked
    · rename_i unique
      cases checked
      have free : ∀ registration ∈ db.fcmRegistrations.rows,
          Table.clashes FcmRegistration.columns registration
            ⟨db.fcmRegistrations.next, user.id, token⟩ = false := by
        refine fun registration member => Table.clashes_eq_false fun column isColumn value ofOld ofNew => ?_
        obtain rfl := List.mem_singleton.mp isColumn
        refine unique (List.any_eq_true.mpr ⟨registration, member, decide_eq_true ?_⟩)
        exact Prod.mk.inj (Option.some.inj (ofOld.trans ofNew.symm))
      obtain ⟨registrations, inserted, -⟩ := Table.insert_of_free
        (fun _ => rfl : ∀ id, (FcmRegistration.mk id user.id token).id = id) free
      rw [save, inserted]
      exact fine_ok _
  · cases checked

/-- A row below the bound has a ticket. -/
theorem ticketOf_eq_some (contract : env.box.Contract) {lock : EsloqRow} (below : fits lock.nonce = true) :
    ∃ ticket, ticketOf env.box env.sessionKey lock = some ticket := by
  have bound : lock.nonce < 9223372036854775808 := of_decide_eq_true below
  obtain ⟨c, sealed, -⟩ :=
    openPadded_sealPadded contract env.sessionKey (nonceOf lock.nonce) lock.key
  refine ⟨ticketMessage (nonceOf lock.nonce) c, ?_⟩
  rw [ticketOf, toBytes, if_pos (by omega), Option.bind_some, authEncrypt, sealed]
  rfl

theorem ticket_served (contract : env.box.Contract) {lockId : Nat} :
    WellServed db (LockTicketViewSet.ticket env (some (lockId : Int)) db) ↔
      ¬ ∀ lock ∈ db.locks.rows, lock.id = lockId → fits (lock.nonce + 1) = false := by
  by_cases missing : ∀ lock ∈ db.locks.rows, lock.id ≠ lockId
  · refine iff_of_false (fun served => ?_) fun never => never fun lock isLock same => ?_
    · have none' : db.locks.rows.filter (fun lock => some (lock.id : Int) = some (lockId : Int)) = [] := by
        refine List.filter_eq_nil_iff.mpr fun lock isLock => ?_
        rw [decide_eq_true_iff, Option.some.injEq, Int.natCast_inj]
        exact missing lock isLock
      rw [LockTicketViewSet.ticket, none'] at served
      exact served.1
    · exact absurd same (missing lock isLock)
  · simp only [ne_eq, not_forall, not_not] at missing
    obtain ⟨lock, isLock, rfl⟩ := missing
    have found : getOne (db.locks.rows.filter fun other => some (other.id : Int) = some (lock.id : Int)) =
        .ok lock := getOne_of_key isLock fun other => by
      rw [decide_eq_true_iff, Option.some.injEq, Int.natCast_inj]
    have only : (∀ other ∈ db.locks.rows, other.id = lock.id → fits (other.nonce + 1) = false) ↔
        fits lock.raise.nonce = false :=
      ⟨fun every => every lock isLock rfl, fun large other isOther same =>
        db.locks.eq_of_key isOther isLock same ▸ large⟩
    rw [only, LockTicketViewSet.ticket, found]
    dsimp only [getlockticket]
    cases fit : fits lock.raise.nonce with
    | false =>
        rw [parameter_of_large fit]
        exact iff_of_false (fun served => served.1) fun never => never rfl
    | true =>
        obtain ⟨ticket, issued⟩ := ticketOf_eq_some contract fit
        have sameId : lock.raise.id = lock.id := rfl
        obtain ⟨locks, saved⟩ := locks_save_of_mem isLock sameId rfl
        rw [parameter_of_fits fit, saved, issued]
        exact iff_of_true ⟨Nat.le_refl _, Nat.le_of_ble_eq_true rfl⟩ (by decide)

/-- The access of a user on a lock is found, if there is one. -/
theorem getOr404_access {user : EsloqUser} {lockId : Nat} {rows : List LockAccess}
    (queried : rows = db.lockAccesses.rows.filter fun access =>
      some (access.userId : Int) = some (user.id : Int) ∧ some (access.lockId : Int) = some (lockId : Int)) :
    AccessOn db user lockId ∧ (∃ access, getOr404 rows = .ok access) ∨
      ¬ AccessOn db user lockId ∧ getOr404 rows = .error (.api 404) := by
  have ofRows : ∀ access, access ∈ rows ↔
      access ∈ db.lockAccesses.rows ∧ access.userId = user.id ∧ access.lockId = lockId := by
    intro access
    rw [queried, List.mem_filter, decide_eq_true_iff, Option.some.injEq, Option.some.injEq, Int.natCast_inj,
      Int.natCast_inj]
  have nodup : rows.Nodup := queried ▸ db.lockAccesses.nodup_rows.filter _
  have alike : ∀ first ∈ rows, ∀ second ∈ rows, first = second := by
    intro first isFirst second isSecond
    have ⟨inFirst, userFirst, lockFirst⟩ := (ofRows first).mp isFirst
    have ⟨inSecond, userSecond, lockSecond⟩ := (ofRows second).mp isSecond
    refine db.lockAccesses.eq_of_column List.mem_cons_self inFirst inSecond rfl ?_
    rw [userFirst, lockFirst, userSecond, lockSecond]
  rcases getOr404_cases nodup alike with ⟨none', refused⟩ | ⟨access, isAccess, found⟩
  · refine .inr ⟨?_, refused⟩
    rintro ⟨access, member⟩
    have isAccess := (ofRows access).mpr member
    rw [none'] at isAccess
    cases isAccess
  · exact .inl ⟨⟨access, (ofRows access).mp isAccess⟩, access, found⟩

end Validation

end Esloq
