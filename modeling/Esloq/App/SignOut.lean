/-
**What one account leaves for the next (`HomePresenter.java`, `LockDataRepositoryImpl.java`,
`PreferencesServiceApiImpl.java`).**

A sign-in starts a fetch of the data and a registration of the device; their results arrive later, in any
order, whoever is signed in then. Beside the preferences and the tables the model keeps the account that
is signed in, the requests in flight, and what the server has returned to each account.

* `stored_tables` — what a response leaves: of rows with a key of their own the first whose key is free,
  and every log.
* `Installation.step` — a sign-in, a sign-out, or a result.
* `Installation.Isolated` — nothing is stored while nobody is signed in, and then only what the server has
  returned to the account. `HomeInput.Leaks` — a result of another account that adds a row, and a
  sign-in beside rows of another account.
* `sign_out_isolates_iff` — for every order of the inputs the tables are isolated after each exactly if
  none of them leaks, and the stored id is that of the account exactly if none of them misnames it.
-/

import Esloq.App.Repository

namespace Esloq

open Keyed Machine Prefixes

/-! ### The rows of a script -/

namespace Statement

/-- A lock that is inserted. -/
def lockRow : Statement → Option LockRow
  | .insertLock row => some row
  | _ => none

/-- An access that is inserted. -/
def accessRow : Statement → Option AccessRow
  | .insertAccess row => some row
  | _ => none

/-- A log that is inserted. -/
def logRow : Statement → Option LogRow
  | .insertLog row => some row
  | _ => none

/-- A row that is inserted refers to rows that were inserted before it. -/
def Refers (past : List Statement) : Statement → Prop
  | .insertLock _ | .insertUser _ => True
  | .insertAccess row =>
      (∃ lock, .insertLock lock ∈ past ∧ lock.mac = row.lockMac) ∧
        ∃ user, .insertUser user ∈ past ∧ user.id = row.userId
  | .insertLog row => ∃ lock, .insertLock lock ∈ past ∧ lock.mac = row.lockMac
  | _ => False

end Statement

/-- What statements that insert leave of the tables. -/
structure StoredAs (statements : List Statement) (before after : LocalDatabase) : Prop where
  locks : after.locks = insertAll LockRow.mac (statements.filterMap Statement.lockRow) before.locks
  accesses : after.accesses =
    insertAll AccessRow.key (statements.filterMap Statement.accessRow) before.accesses
  logs : after.logs = before.logs ++ statements.filterMap Statement.logRow
  lockKeys : ∀ row, .insertLock row ∈ statements → row.mac ∈ after.locks.map LockRow.mac
  userKeys : ∀ row, .insertUser row ∈ statements → row.id ∈ after.users.map UserRow.id

/-- The last of some statements is another one. -/
theorem of_mem_concat {statements : List Statement} {other statement : Statement}
    (member : other ∈ statements ++ [statement]) (apart : other ≠ statement) : other ∈ statements :=
  (List.mem_append.mp member).resolve_right fun last => apart (List.mem_singleton.mp last)

namespace StoredAs

variable {statements : List Statement} {before after : LocalDatabase}

theorem insertLock (stored : StoredAs statements before after) (row : LockRow) :
    StoredAs (statements ++ [.insertLock row]) before (after.insertLock row) := by
  have locks : (after.insertLock row).locks = insertNew LockRow.mac row after.locks := rfl
  constructor
  · simp [Statement.lockRow, locks, stored.locks, insertAll_concat]
  · show after.accesses = _
    simp [List.filterMap_cons, Statement.accessRow, stored.accesses]
  · show after.logs = _
    simp [List.filterMap_cons, Statement.logRow, stored.logs]
  · intro other member
    rw [locks, mem_map_insertNew]
    simp only [List.mem_append, List.mem_singleton, Statement.insertLock.injEq] at member
    exact member.imp (stored.lockKeys other) (congrArg LockRow.mac)
  · intro other member
    exact stored.userKeys other (of_mem_concat member (by simp))

theorem insertUser (stored : StoredAs statements before after) (row : UserRow) :
    StoredAs (statements ++ [.insertUser row]) before (after.insertUser row) := by
  have users : (after.insertUser row).users = insertNew UserRow.id row after.users := rfl
  constructor
  · show after.locks = _
    simp [List.filterMap_cons, Statement.lockRow, stored.locks]
  · show after.accesses = _
    simp [List.filterMap_cons, Statement.accessRow, stored.accesses]
  · show after.logs = _
    simp [List.filterMap_cons, Statement.logRow, stored.logs]
  · intro other member
    exact stored.lockKeys other (of_mem_concat member (by simp))
  · intro other member
    rw [users, mem_map_insertNew]
    simp only [List.mem_append, List.mem_singleton, Statement.insertUser.injEq] at member
    exact member.imp (stored.userKeys other) (congrArg UserRow.id)

theorem insertAccess (stored : StoredAs statements before after) {row : AccessRow}
    (refers : Statement.Refers statements (.insertAccess row)) :
    StoredAs (statements ++ [.insertAccess row]) before (after.insertAccess row) := by
  obtain ⟨⟨lock, ofLock, sameMac⟩, user, ofUser, sameId⟩ := refers
  have there : row.lockMac ∈ after.locks.map LockRow.mac ∧ row.userId ∈ after.users.map UserRow.id :=
    ⟨sameMac ▸ stored.lockKeys lock ofLock, sameId ▸ stored.userKeys user ofUser⟩
  have accesses : (after.insertAccess row).accesses = insertNew AccessRow.key row after.accesses := by
    unfold LocalDatabase.insertAccess
    rw [dif_pos there]
  have logs : (after.insertAccess row).logs = after.logs := by
    unfold LocalDatabase.insertAccess
    rw [dif_pos there]
  constructor
  · simp [List.filterMap_cons, Statement.lockRow, stored.locks]
  · simp [Statement.accessRow, accesses, stored.accesses, insertAll_concat]
  · simp [List.filterMap_cons, Statement.logRow, logs, stored.logs]
  · intro other member
    rw [LocalDatabase.insertAccess_locks]
    exact stored.lockKeys other (of_mem_concat member (by simp))
  · intro other member
    rw [LocalDatabase.insertAccess_users]
    exact stored.userKeys other (of_mem_concat member (by simp))

theorem insertLog (stored : StoredAs statements before after) {row : LogRow}
    (refers : Statement.Refers statements (.insertLog row)) :
    StoredAs (statements ++ [.insertLog row]) before (after.insertLog row) := by
  obtain ⟨lock, ofLock, sameMac⟩ := refers
  have there : row.lockMac ∈ after.locks.map LockRow.mac := sameMac ▸ stored.lockKeys lock ofLock
  have logs : (after.insertLog row).logs = after.logs ++ [row] := by
    unfold LocalDatabase.insertLog
    rw [dif_pos there]
  constructor
  · simp [List.filterMap_cons, Statement.lockRow, stored.locks]
  · simp [List.filterMap_cons, Statement.accessRow, stored.accesses]
  · simp [Statement.logRow, logs, stored.logs]
  · intro other member
    rw [LocalDatabase.insertLog_locks]
    exact stored.lockKeys other (of_mem_concat member (by simp))
  · intro other member
    rw [LocalDatabase.insertLog_users]
    exact stored.userKeys other (of_mem_concat member (by simp))

end StoredAs

/-- Of statements that refer to what they have inserted none fails. -/
theorem stored_tables {statements : List Statement} (refers : Always Statement.Refers statements)
    (db : LocalDatabase) : StoredAs statements db (After Statement.execute statements db) := by
  induction statements using List.reverseRecOn with
  | nil => exact ⟨rfl, rfl, (List.append_nil _).symm, nofun, nofun⟩
  | append_singleton statements statement later =>
      obtain ⟨earlier, ⟨refers, -⟩⟩ := (always_append _ _ _).mp refers
      have stored := later earlier
      rw [after_append]
      cases statement with
      | insertLock row => exact stored.insertLock row
      | insertUser row => exact stored.insertUser row
      | insertAccess row => exact stored.insertAccess refers
      | insertLog row => exact stored.insertLog refers
      | _ => exact refers.elim

/-! ### A response refers to what it has inserted -/

section Refers

variable {J : Type} {java : JavaText} {json : OrgJson J} {past : List Statement}

theorem refers_orThrow {α : Type} {value : Option α} {error : JavaError} {next : α → Script}
    (refers : ∀ found, value = some found → AlwaysFrom Statement.Refers past (next found).events) :
    AlwaysFrom Statement.Refers past (orThrow value error next).events := by
  cases value with
  | none => trivial
  | some found => exact refers found rfl

/-- A lock has been inserted. -/
def HasLock (lockMac : String) (past : List Statement) : Prop :=
  ∃ lock, .insertLock lock ∈ past ∧ lock.mac = lockMac

theorem HasLock.append {lockMac : String} (has : HasLock lockMac past) (more : List Statement) :
    HasLock lockMac (past ++ more) := by
  obtain ⟨lock, member, same⟩ := has
  exact ⟨lock, List.mem_append_left more member, same⟩

theorem refers_storeUser {lockMac : String} (has : HasLock lockMac past) (jsonUser : Option J) :
    AlwaysFrom Statement.Refers past (storeUser java json lockMac jsonUser).events := by
  refine refers_orThrow fun jsonUser _ => refers_orThrow fun text _ => ?_
  refine refers_orThrow fun userId _ => refers_orThrow fun name _ => refers_orThrow fun validated _ => ?_
  refine alwaysFrom_andThen ⟨trivial, trivial⟩ (refers_orThrow fun isAdmin _ => ?_)
  refine ⟨⟨has.append _, ⟨userId, some name, validated⟩, ?_, rfl⟩, trivial⟩
  exact List.mem_append_right past List.mem_cons_self

theorem refers_storeLog {lockMac : String} (has : HasLock (java.toUpperCase lockMac) past)
    (jsonLog : Option J) :
    AlwaysFrom Statement.Refers past (storeLog java json lockMac jsonLog).events := by
  refine refers_orThrow fun jsonLog _ => refers_orThrow fun userId _ => ?_
  refine refers_orThrow fun lockState _ => refers_orThrow fun timestamp _ => ?_
  exact ⟨has, trivial⟩

theorem refers_storeLock (jsonLock : Option J) :
    AlwaysFrom Statement.Refers past (storeLock java json jsonLock).events := by
  refine refers_orThrow fun jsonLock _ => refers_orThrow fun lockMac upper => ?_
  refine refers_orThrow fun jsonUsers _ => refers_orThrow fun name _ => ?_
  refine refers_orThrow fun lockClockwise _ => ?_
  obtain ⟨text, -, rfl⟩ := Option.map_eq_some_iff.mp upper
  let row : LockRow := ⟨java.toUpperCase (java.toUpperCase text), some name, lockClockwise⟩
  have member : .insertLock row ∈ past ++ [.insertLock row] :=
    List.mem_append_right past List.mem_cons_self
  refine alwaysFrom_andThen ⟨trivial, trivial⟩
    (alwaysFrom_andThen ?_ (refers_orThrow fun jsonLogs _ => ?_))
  · have has : HasLock (java.toUpperCase text) (past ++ [.insertLock row]) :=
      ⟨row, member, java.toUpperCase_idem text⟩
    exact alwaysFrom_run (HasLock (java.toUpperCase text)) (fun _ more good => good.append more)
      (fun jsonUser _ _ good => refers_storeUser good jsonUser) jsonUsers () has
  · have has : HasLock (java.toUpperCase (java.toUpperCase text)) (past ++ [.insertLock row]) :=
      ⟨row, member, rfl⟩
    exact alwaysFrom_run (HasLock (java.toUpperCase (java.toUpperCase text)))
      (fun _ more good => good.append more) (fun jsonLog _ _ good => refers_storeLog good jsonLog)
      jsonLogs () (has.append _)

theorem refers_storeLocks (jsonObject : J) :
    Always Statement.Refers (storeLocks java json jsonObject).events := by
  unfold storeLocks
  refine refers_orThrow fun jsonLocks _ => ?_
  exact alwaysFrom_run (fun _ => True) (fun _ _ _ => trivial)
    (fun jsonLock _ _ _ => refers_storeLock jsonLock) jsonLocks () trivial

end Refers

/-! ### The rows a response adds -/

/-- Every lock, access and log is one of some statements. -/
structure LocalDatabase.Only (allowed : Statement → Prop) (db : LocalDatabase) : Prop where
  locks : ∀ row ∈ db.locks, allowed (.insertLock row)
  accesses : ∀ row ∈ db.accesses, allowed (.insertAccess row)
  logs : ∀ row ∈ db.logs, allowed (.insertLog row)

/-- Some statements add a row that is not allowed: the first lock or the first access with a key that is
free, or a log. -/
def Adds (statements : List Statement) (allowed : Statement → Prop) (db : LocalDatabase) : Prop :=
  (∃ row, row.mac ∉ db.locks.map LockRow.mac ∧
    lookup LockRow.mac row.mac (statements.filterMap Statement.lockRow) = some row ∧
    ¬ allowed (.insertLock row)) ∨
  (∃ row, AccessRow.key row ∉ db.accesses.map AccessRow.key ∧
    lookup AccessRow.key row.key (statements.filterMap Statement.accessRow) = some row ∧
    ¬ allowed (.insertAccess row)) ∨
  ∃ row ∈ statements.filterMap Statement.logRow, ¬ allowed (.insertLog row)

/-- What is stored stays allowed exactly if no row is added that is not. -/
theorem StoredAs.only_iff {statements : List Statement} {before after : LocalDatabase}
    (stored : StoredAs statements before after) {allowed : Statement → Prop}
    (only : before.Only allowed) : after.Only allowed ↔ ¬ Adds statements allowed before := by
  have logs : (∀ row ∈ after.logs, allowed (.insertLog row)) ↔
      ¬ ∃ row ∈ statements.filterMap Statement.logRow, ¬ allowed (.insertLog row) := by
    rw [stored.logs, List.forall_mem_append, and_iff_right only.logs]
    simp only [not_exists, not_and, not_not]
  unfold Adds
  rw [not_or, not_or, ← forall_insertAll_iff only.locks, ← forall_insertAll_iff only.accesses, ← logs,
    ← stored.locks, ← stored.accesses]
  exact ⟨fun still => ⟨still.locks, still.accesses, still.logs⟩,
    fun ⟨locks, accesses, logs⟩ => ⟨locks, accesses, logs⟩⟩

/-- Statements that are allowed add no other row. -/
theorem not_adds {statements : List Statement} {allowed : Statement → Prop}
    (every : ∀ statement ∈ statements, allowed statement) (db : LocalDatabase) :
    ¬ Adds statements allowed db := by
  rintro (⟨row, -, first, foreign⟩ | ⟨row, -, first, foreign⟩ | ⟨row, member, foreign⟩)
  · obtain ⟨statement, member, inserts⟩ := List.mem_filterMap.mp (List.mem_of_find?_eq_some first)
    cases statement <;> cases inserts
    exact foreign (every _ member)
  · obtain ⟨statement, member, inserts⟩ := List.mem_filterMap.mp (List.mem_of_find?_eq_some first)
    cases statement <;> cases inserts
    exact foreign (every _ member)
  · obtain ⟨statement, member, inserts⟩ := List.mem_filterMap.mp member
    cases statement <;> cases inserts
    exact foreign (every _ member)

/-! ### The phone -/

/-- The preferences and the tables; the account that is signed in, the requests in flight with the account
of each fetch, and the responses the server has returned with the account of each. -/
structure Installation (J : Type) where
  signedIn : Bool
  reSignedIn : Bool
  data : LocalData
  current : Option Int32
  fetches : List Int32
  registrations : Nat
  returned : List (Int32 × J)

namespace Installation

variable {J : Type} (phone : Installation J)

/-- A new installation. -/
def initial : Installation J := ⟨false, false, ⟨-1, .empty⟩, none, [], 0, []⟩

def isSignedIn : Bool := phone.signedIn && phone.reSignedIn

def setSignedIn (signedIn : Bool) : Installation J :=
  { phone with signedIn := signedIn, reSignedIn := signedIn }

/-- It is stored where `setSignedIn` stores its value, too. -/
def setRegistrationTokenSentToServer (sentToServer : Bool) : Installation J :=
  { phone with signedIn := sentToServer }

def clearData : Installation J :=
  { phone with
    data.db := After Statement.execute LocalDataServiceApi.clearDatabase.events phone.data.db }

/-- `parseAndStore` of a response to an account. -/
def parseAndStore (java : JavaText) (json : OrgJson J) (account : Int32) (response : J) : Installation J :=
  { phone with
    data := (DataInput.parseAndStore response).step java json phone.data
    returned := (account, response) :: phone.returned }

/-- `onSignOut`; the requests in flight stay. -/
def onSignOut : Installation J := { phone.clearData.setSignedIn false with current := none }

/-- `signInSuccess` starts a fetch and a registration. -/
def signInSuccess (account : Int32) : Installation J :=
  { phone.setSignedIn true with
    current := some account
    fetches := account :: phone.fetches
    registrations := phone.registrations + 1 }

end Installation

/-- What can happen next; a result of a fetch is a response or a failure. -/
inductive HomeInput (J : Type)
  | signInSuccess (account : Int32)
  | onSignOut
  | fetchResult (account : Int32) (response : Option J)
  | registerResult (success : Bool)

section Steps

variable {J : Type} (java : JavaText) (json : OrgJson J)

/-- One input; a result arrives only of a request that is in flight. -/
def Installation.step (input : HomeInput J) (phone : Installation J) : Installation J :=
  match input with
  | .signInSuccess account => phone.signInSuccess account
  | .onSignOut => phone.onSignOut
  | .fetchResult account response =>
      if account ∈ phone.fetches then
        let waiting := { phone with fetches := phone.fetches.erase account }
        match response with
        | some response => waiting.parseAndStore java json account response
        | none => waiting
      else phone
  | .registerResult success =>
      if 0 < phone.registrations then
        { phone.setRegistrationTokenSentToServer success with
          registrations := phone.registrations - 1 }
      else phone

/-- A row that the server has returned to an account. -/
def Installation.Returned (phone : Installation J) (account : Int32) (statement : Statement) : Prop :=
  ∃ response, (account, response) ∈ phone.returned ∧
    statement ∈ (storeLocks java json response).events

/-- While nobody is signed in nothing is stored and the app says so; otherwise only what the server has
returned to the account is stored. -/
structure Installation.Isolated (phone : Installation J) : Prop where
  nobody : phone.current = none →
    phone.data.db.locks = [] ∧ phone.data.db.accesses = [] ∧ phone.data.db.logs = [] ∧
      phone.isSignedIn = false
  own : ∀ account, phone.current = some account → phone.data.db.Only (phone.Returned java json account)

/-- The stored id is that of the account. -/
def Installation.OwnId (phone : Installation J) : Prop :=
  ∀ account, phone.current = some account → phone.data.userId = account

/-- The rows there may be. -/
def Installation.Allowed (phone : Installation J) (statement : Statement) : Prop :=
  ∃ account, phone.current = some account ∧ phone.Returned java json account statement

namespace HomeInput

/-- The inputs that mix accounts: a sign-in beside rows that were not returned to the account, and a
result for another account than the one that is signed in, or for any while nobody is, that adds a row
which is not allowed. -/
def Leaks (phone : Installation J) : HomeInput J → Prop
  | .signInSuccess account => ¬ phone.data.db.Only (phone.Returned java json account)
  | .fetchResult account (some response) => account ∈ phone.fetches ∧ phone.current ≠ some account ∧
      (json.getInt response "userId").isSome ∧
      Adds (storeLocks java json response).events (phone.Allowed java json) phone.data.db
  | _ => False

/-- The inputs after which the stored id is of another account: a sign-in, and a result. -/
def Misnames (phone : Installation J) : HomeInput J → Prop
  | .signInSuccess account => phone.data.userId ≠ account
  | .fetchResult account (some response) => account ∈ phone.fetches ∧
      ∃ userId current, json.getInt response "userId" = some userId ∧ phone.current = some current ∧
        userId ≠ current
  | _ => False

end HomeInput

end Steps

/-! ### One input -/

section OneInput

variable {J : Type} {java : JavaText} {json : OrgJson J} {phone : Installation J}

theorem LocalDatabase.Only.mono {db : LocalDatabase} {allowed more : Statement → Prop}
    (only : db.Only allowed) (within : ∀ statement, allowed statement → more statement) :
    db.Only more where
  locks row member := within _ (only.locks row member)
  accesses row member := within _ (only.accesses row member)
  logs row member := within _ (only.logs row member)

theorem Installation.returned_parseAndStore (account : Int32) (response : J) {other : Int32}
    {statement : Statement} :
    (phone.parseAndStore java json account response).Returned java json other statement ↔
      account = other ∧ statement ∈ (storeLocks java json response).events ∨
        phone.Returned java json other statement := by
  unfold Returned parseAndStore
  simp only [List.mem_cons, Prod.mk.injEq]
  constructor
  · rintro ⟨found, ⟨rfl, rfl⟩ | old, member⟩
    · exact Or.inl ⟨rfl, member⟩
    · exact Or.inr ⟨found, old, member⟩
  · rintro (⟨rfl, member⟩ | ⟨found, old, member⟩)
    · exact ⟨response, Or.inl ⟨rfl, rfl⟩, member⟩
    · exact ⟨found, Or.inr old, member⟩

/-- Whether somebody is signed in is stored where only `setSignedIn` stores it. -/
theorem Installation.reSignedIn_step (input : HomeInput J) (flag : phone.reSignedIn = phone.current.isSome) :
    (phone.step java json input).reSignedIn = (phone.step java json input).current.isSome := by
  cases input with
  | signInSuccess account => rfl
  | onSignOut => rfl
  | fetchResult account response =>
      unfold Installation.step
      by_cases waiting : account ∈ phone.fetches
      · simp only [if_pos waiting]
        cases response with
        | none => exact flag
        | some response => exact flag
      · simp only [if_neg waiting]
        exact flag
  | registerResult success =>
      unfold Installation.step
      by_cases waiting : 0 < phone.registrations
      · simp only [if_pos waiting]
        exact flag
      · simp only [if_neg waiting]
        exact flag

/-- The flag leaves it to the tables. -/
theorem Installation.isolated_iff (flag : phone.reSignedIn = phone.current.isSome) :
    phone.Isolated java json ↔ phone.data.db.Only (phone.Allowed java json) := by
  unfold Allowed
  cases signed : phone.current with
  | none =>
      rw [signed] at flag
      have nobody : phone.isSignedIn = false := by
        unfold isSignedIn
        rw [flag]
        exact Bool.and_false _
      constructor
      · intro isolated
        obtain ⟨locks, accesses, logs, -⟩ := isolated.nobody signed
        exact ⟨by simp [locks], by simp [accesses], by simp [logs]⟩
      · intro only
        refine ⟨fun _ => ⟨?_, ?_, ?_, nobody⟩, fun account other => ?_⟩
        · exact List.eq_nil_iff_forall_not_mem.mpr fun row member => by
            simpa using only.locks row member
        · exact List.eq_nil_iff_forall_not_mem.mpr fun row member => by
            simpa using only.accesses row member
        · exact List.eq_nil_iff_forall_not_mem.mpr fun row member => by
            simpa using only.logs row member
        · cases signed.symm.trans other
  | some account =>
      constructor
      · exact fun isolated => (isolated.own account signed).mono fun statement returned =>
          ⟨account, rfl, returned⟩
      · intro only
        refine ⟨fun nobody => (by cases signed.symm.trans nobody), fun other same => ?_⟩
        refine only.mono fun statement allowed => ?_
        obtain ⟨found, current, returned⟩ := allowed
        have named : found = other :=
          (Option.some.inj current).symm.trans (Option.some.inj (signed.symm.trans same))
        exact named ▸ returned

/-- A response to the account that is signed in allows its rows. -/
theorem Installation.allowed_parseAndStore (account : Int32) (response : J) (statement : Statement) :
    (phone.parseAndStore java json account response).Allowed java json statement ↔
      phone.current = some account ∧ statement ∈ (storeLocks java json response).events ∨
        phone.Allowed java json statement := by
  unfold Allowed
  simp only [returned_parseAndStore]
  constructor
  · rintro ⟨found, current, ⟨rfl, member⟩ | old⟩
    · exact Or.inl ⟨current, member⟩
    · exact Or.inr ⟨found, current, old⟩
  · rintro (⟨current, member⟩ | ⟨found, current, old⟩)
    · exact ⟨account, current, Or.inl ⟨rfl, member⟩⟩
    · exact ⟨found, current, Or.inr old⟩

/-- A response to another account leaves only allowed rows unless it adds another. -/
theorem Installation.only_parseAndStore_iff (account : Int32) (response : J)
    (only : phone.data.db.Only (phone.Allowed java json)) :
    (phone.parseAndStore java json account response).data.db.Only
        ((phone.parseAndStore java json account response).Allowed java json) ↔
      ¬ (phone.current ≠ some account ∧ (json.getInt response "userId").isSome ∧
        Adds (storeLocks java json response).events (phone.Allowed java json) phone.data.db) := by
  have still : phone.data.db.Only
      ((phone.parseAndStore java json account response).Allowed java json) :=
    only.mono fun statement allowed =>
      (allowed_parseAndStore account response statement).mpr (Or.inr allowed)
  have db : (phone.parseAndStore java json account response).data.db =
      After Statement.execute (if (json.getInt response "userId").isSome then
        storeLocks java json response else .pure () : Script).events phone.data.db := rfl
  rw [db]
  by_cases named : (json.getInt response "userId").isSome
  · rw [if_pos named, (stored_tables (refers_storeLocks response) phone.data.db).only_iff still]
    by_cases current : phone.current = some account
    · refine iff_of_true (not_adds (fun statement member => ?_) phone.data.db) fun leaks => ?_
      · exact (allowed_parseAndStore account response statement).mpr (Or.inl ⟨current, member⟩)
      · exact leaks.1 current
    · have same : (phone.parseAndStore java json account response).Allowed java json =
          phone.Allowed java json := by
        funext statement
        refine propext ((allowed_parseAndStore account response statement).trans ?_)
        exact or_iff_right fun own => current own.1
      rw [same, ne_eq, and_iff_right current, and_iff_right named]
  · rw [if_neg named]
    exact iff_of_true still fun leaks => named leaks.2.1

/-- **One input leaves only allowed rows exactly if it does not mix accounts.** -/
theorem Installation.step_only_iff (input : HomeInput J)
    (only : phone.data.db.Only (phone.Allowed java json)) :
    (phone.step java json input).data.db.Only ((phone.step java json input).Allowed java json) ↔
      ¬ input.Leaks java json phone := by
  cases input with
  | signInSuccess account =>
      refine Iff.trans ?_ not_not.symm
      have allowed : (phone.signInSuccess account).Allowed java json =
          phone.Returned java json account := by
        funext statement
        refine propext ⟨?_, fun returned => ⟨account, rfl, returned⟩⟩
        rintro ⟨found, current, returned⟩
        obtain rfl : account = found := Option.some.inj current
        exact returned
      show (phone.signInSuccess account).data.db.Only ((phone.signInSuccess account).Allowed java json) ↔ _
      rw [allowed]
      rfl
  | onSignOut => exact iff_of_true ⟨nofun, nofun, nofun⟩ not_false
  | fetchResult account response =>
      unfold Installation.step
      by_cases waiting : account ∈ phone.fetches
      · simp only [if_pos waiting]
        cases response with
        | none => exact iff_of_true only not_false
        | some response =>
            let others : Installation J := { phone with fetches := phone.fetches.erase account }
            have stored := @only_parseAndStore_iff J java json others account response only
            refine stored.trans (not_congr ?_)
            exact (and_iff_right waiting).symm
      · simp only [if_neg waiting]
        cases response with
        | none => exact iff_of_true only not_false
        | some response => exact iff_of_true only fun leaks => waiting leaks.1
  | registerResult success =>
      unfold Installation.step
      refine iff_of_true ?_ not_false
      by_cases waiting : 0 < phone.registrations
      · simp only [if_pos waiting]
        exact only
      · simp only [if_neg waiting]
        exact only

/-- **One input leaves the stored id exactly if it does not store another or sign in another account.** -/
theorem Installation.step_ownId_iff (input : HomeInput J) (own : phone.OwnId) :
    (phone.step java json input).OwnId ↔ ¬ input.Misnames json phone := by
  cases input with
  | signInSuccess account =>
      refine Iff.trans ?_ not_not.symm
      constructor
      · exact fun own => own account rfl
      · intro same other current
        exact same.trans (Option.some.inj current)
  | onSignOut => exact iff_of_true nofun not_false
  | fetchResult account response =>
      unfold Installation.step
      by_cases waiting : account ∈ phone.fetches
      · simp only [if_pos waiting]
        cases response with
        | none => exact iff_of_true own not_false
        | some response =>
            show (∀ current, phone.current = some current →
              (json.getInt response "userId").getD phone.data.userId = current) ↔ _
            unfold HomeInput.Misnames
            cases named : json.getInt response "userId" with
            | none =>
                refine iff_of_true own ?_
                rintro ⟨-, userId, current, present, -⟩
                cases named.symm.trans present
            | some userId =>
                constructor
                · rintro same ⟨-, found, current, present, signed, other⟩
                  obtain rfl : userId = found := Option.some.inj (named.symm.trans present)
                  exact other (same current signed)
                · intro none current signed
                  by_contra other
                  exact none ⟨waiting, userId, current, named, signed, other⟩
      · simp only [if_neg waiting]
        cases response with
        | none => exact iff_of_true own not_false
        | some response => exact iff_of_true own fun misnames => waiting misnames.1
  | registerResult success =>
      unfold Installation.step
      refine iff_of_true ?_ not_false
      by_cases waiting : 0 < phone.registrations
      · simp only [if_pos waiting]
        exact own
      · simp only [if_neg waiting]
        exact own

end OneInput

/-! ### Every order -/

section Orders

variable {J : Type} (java : JavaText) (json : OrgJson J)

/-- **Sign-ins and sign-outs keep the accounts apart exactly if no input mixes them, and the stored id is
that of the account exactly if no input leaves another.** -/
theorem sign_out_isolates_iff (inputs : List (HomeInput J)) :
    ((∀ done, done <+: inputs → (After (Installation.step java json) done .initial).Isolated java json) ↔
      ∀ done next, done ++ [next] <+: inputs →
        ¬ next.Leaks java json (After (Installation.step java json) done .initial)) ∧
    ((∀ done, done <+: inputs → (After (Installation.step java json) done .initial).OwnId) ↔
      ∀ done next, done ++ [next] <+: inputs →
        ¬ next.Misnames json (After (Installation.step java json) done .initial)) := by
  constructor
  · have flag (done : List (HomeInput J)) :
        (After (Installation.step java json) done .initial).reSignedIn =
          (After (Installation.step java json) done .initial).current.isSome :=
      after_holds (Installation.step java json) (fun phone => phone.reSignedIn = phone.current.isSome)
        (fun input _ flag => Installation.reSignedIn_step input flag) done rfl
    have isolated (done : List (HomeInput J)) := @Installation.isolated_iff J java json _ (flag done)
    simp only [isolated]
    have nothing : (Installation.initial : Installation J).data.db.Only
        (Installation.initial.Allowed java json) := ⟨nofun, nofun, nofun⟩
    exact kept_iff (P := fun phone => phone.data.db.Only (phone.Allowed java json))
      (Installation.step java json) (fun input _ only => Installation.step_only_iff input only) inputs
      nothing
  · exact kept_iff (Installation.step java json)
      (fun input _ own => Installation.step_ownId_iff input own) inputs nofun

end Orders

/-- The data that the server returns to user 7 arrives after the user has signed out. -/
theorem late_response_is_stored : ¬ ∀ inputs : List (HomeInput JsonValue),
    ∀ done, done <+: inputs →
      (After (Installation.step asciiText JsonValue.accessors) done .initial).Isolated asciiText
          JsonValue.accessors ∧
        (After (Installation.step asciiText JsonValue.accessors) done .initial).OwnId := fun every => by
  have isolated := every [.signInSuccess 7, .onSignOut,
    .fetchResult 7 (some (sampleSnapshot "00:07:80:7E:C0:01" true))] _ List.prefix_rfl
  exact absurd (isolated.1.nobody (by decide +kernel)).1 (by decide +kernel)

end Esloq
