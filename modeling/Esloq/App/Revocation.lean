/-
**Whether the app keeps a lock that its user has no access to (`MyFirebaseMessagingService.java`,
`LocalDataServiceApiImpl.java`).**

* `LocalDatabase.Knows`, `Grants` — the keys of the tables of locks and of accesses, and what every
  statement does to them.
* `LocalDatabase.Grown` — what inserts for some locks can do: the other locks are as they were, and
  nothing goes.
* `LocalData.Covered` — every row of a lock, an access or a log is about a lock on which the stored user
  has an access.
* `DataInput.Uncovers` — the inputs that break it: a snapshot of another user, a lock that is added under
  a text in lower case, and whatever takes the user off a lock, since that leaves the row of the lock.
* `covered_iff_none_uncovers` — for every sequence of inputs the data is covered after each exactly if
  none of them is such an input.
-/

import Esloq.App.Repository

namespace Esloq

open Keyed Machine Prefixes

/-! ### The keys of the tables -/

namespace LocalDatabase

variable (db : LocalDatabase) {mac : String} {userId : Int32}

/-- There is a row of the lock. -/
def Knows (mac : String) : Prop := mac ∈ db.locks.map LockRow.mac

/-- There is a row of the access. -/
def Grants (mac : String) (userId : Int32) : Prop := (mac, userId) ∈ db.accesses.map AccessRow.key

instance decidableKnows (mac : String) : Decidable (db.Knows mac) :=
  inferInstanceAs (Decidable (mac ∈ db.locks.map LockRow.mac))

instance decidableGrants (mac : String) (userId : Int32) : Decidable (db.Grants mac userId) :=
  inferInstanceAs (Decidable ((mac, userId) ∈ db.accesses.map AccessRow.key))

theorem Grants.knows {db : LocalDatabase} (grants : db.Grants mac userId) : db.Knows mac := by
  obtain ⟨access, member, key⟩ := List.mem_map.mp grants
  obtain ⟨rfl, -⟩ := Prod.mk.inj key
  exact db.accessLocks access member

theorem knows_insertLock (row : LockRow) :
    (db.insertLock row).Knows mac ↔ db.Knows mac ∨ mac = row.mac := mem_map_insertNew

theorem knows_insertAccess (row : AccessRow) : (db.insertAccess row).Knows mac ↔ db.Knows mac := by
  unfold Knows
  rw [insertAccess_locks]

/-- An access is added where its lock and its user are there. -/
theorem grants_insertAccess (row : AccessRow) :
    (db.insertAccess row).Grants mac userId ↔ db.Grants mac userId ∨
      (mac = row.lockMac ∧ userId = row.userId) ∧ db.Knows row.lockMac ∧
        row.userId ∈ db.users.map UserRow.id := by
  unfold Grants insertAccess Knows
  by_cases refers : row.lockMac ∈ db.locks.map LockRow.mac ∧ row.userId ∈ db.users.map UserRow.id
  · rw [dif_pos refers, mem_map_insertNew, AccessRow.key, Prod.mk.injEq]
    exact or_congr_right (and_iff_left refers).symm
  · rw [dif_neg refers]
    exact (or_iff_left fun new => refers new.2).symm

theorem knows_insertLog (row : LogRow) : (db.insertLog row).Knows mac ↔ db.Knows mac := by
  unfold Knows
  rw [insertLog_locks]

theorem grants_insertLog (row : LogRow) :
    (db.insertLog row).Grants mac userId ↔ db.Grants mac userId := by
  unfold Grants
  rw [insertLog_accesses]

theorem knows_deleteLock (removed : String) :
    (db.deleteLock removed).Knows mac ↔ db.Knows mac ∧ mac ≠ removed := mem_map_without

theorem grants_deleteLock (removed : String) :
    (db.deleteLock removed).Grants mac userId ↔ db.Grants mac userId ∧ mac ≠ removed := by
  show (mac, userId) ∈ (without AccessRow.lockMac removed db.accesses).map AccessRow.key ↔ _
  unfold Grants
  simp only [List.mem_map, mem_without]
  constructor
  · rintro ⟨access, ⟨member, other⟩, key⟩
    obtain ⟨rfl, -⟩ := Prod.mk.inj key
    exact ⟨⟨access, member, key⟩, other⟩
  · rintro ⟨⟨access, member, key⟩, other⟩
    obtain ⟨rfl, -⟩ := Prod.mk.inj key
    exact ⟨access, ⟨member, other⟩, key⟩

theorem grants_deleteAccess (removed : String) (removedId : Int32) :
    (db.deleteAccess removed removedId).Grants mac userId ↔
      db.Grants mac userId ∧ ¬ (mac = removed ∧ userId = removedId) := by
  show (mac, userId) ∈ (without AccessRow.key (removed, removedId) db.accesses).map AccessRow.key ↔ _
  rw [mem_map_without, ne_eq, Prod.mk.injEq]
  rfl

/-! ### Inserts -/

/-- What inserts for the locks in a set can have done. -/
structure Grown (locks : String → Prop) (before after : LocalDatabase) : Prop where
  knows : ∀ mac, before.Knows mac → after.Knows mac
  known : ∀ mac, after.Knows mac → before.Knows mac ∨ locks mac
  grants : ∀ mac userId, before.Grants mac userId → after.Grants mac userId
  granted : ∀ mac userId, after.Grants mac userId → before.Grants mac userId ∨ locks mac
  users : ∀ userId ∈ before.users.map UserRow.id, userId ∈ after.users.map UserRow.id

theorem Grown.refl (locks : String → Prop) (db : LocalDatabase) : Grown locks db db where
  knows _ := id
  known _ := Or.inl
  grants _ _ := id
  granted _ _ := Or.inl
  users _ := id

theorem Grown.trans {locks : String → Prop} {first second third : LocalDatabase}
    (early : Grown locks first second) (late : Grown locks second third) : Grown locks first third where
  knows mac known := late.knows mac (early.knows mac known)
  known mac known := (late.known mac known).elim (early.known mac) Or.inr
  grants mac userId granted := late.grants mac userId (early.grants mac userId granted)
  granted mac userId granted := (late.granted mac userId granted).elim (early.granted mac userId) Or.inr
  users userId member := late.users userId (early.users userId member)

theorem Grown.mono {locks more : String → Prop} {before after : LocalDatabase}
    (grown : Grown locks before after) (within : ∀ mac, locks mac → more mac) :
    Grown more before after where
  knows := grown.knows
  known mac known := (grown.known mac known).imp_right (within mac)
  grants := grown.grants
  granted mac userId granted := (grown.granted mac userId granted).imp_right (within mac)
  users := grown.users

end LocalDatabase

/-- A statement that inserts, locks and accesses only for the locks in a set. -/
def Statement.InsertsFor (locks : String → Prop) : Statement → Prop
  | .insertLock row => locks row.mac
  | .insertAccess row => locks row.lockMac
  | .insertUser _ | .insertLog _ => True
  | _ => False

theorem Statement.InsertsFor.grown {locks : String → Prop} {statement : Statement}
    (inserts : statement.InsertsFor locks) (db : LocalDatabase) :
    LocalDatabase.Grown locks db (statement.execute db) := by
  cases statement with
  | insertLock row =>
      refine ⟨fun mac known => ?_, fun mac known => ?_, fun _ _ => id, fun _ _ => Or.inl, fun _ => id⟩
      · exact (db.knows_insertLock row).mpr (Or.inl known)
      · rcases (db.knows_insertLock row).mp known with old | rfl
        · exact Or.inl old
        · exact Or.inr inserts
  | insertUser row =>
      refine ⟨fun _ => id, fun _ => Or.inl, fun _ _ => id, fun _ _ => Or.inl, fun userId member => ?_⟩
      exact mem_map_insertNew.mpr (Or.inl member)
  | insertAccess row =>
      refine ⟨fun mac => (db.knows_insertAccess row).mpr, fun mac known => ?_, fun mac userId grants => ?_,
        fun mac userId granted => ?_, fun userId member => ?_⟩
      · exact Or.inl ((db.knows_insertAccess row).mp known)
      · exact (db.grants_insertAccess row).mpr (Or.inl grants)
      · rcases (db.grants_insertAccess row).mp granted with old | ⟨⟨rfl, -⟩, -⟩
        · exact Or.inl old
        · exact Or.inr inserts
      · show userId ∈ (db.insertAccess row).users.map UserRow.id
        rwa [LocalDatabase.insertAccess_users]
  | insertLog row =>
      refine ⟨fun mac => (db.knows_insertLog row).mpr, fun mac known => ?_,
        fun mac userId => (db.grants_insertLog row).mpr, fun mac userId granted => ?_,
        fun userId member => ?_⟩
      · exact Or.inl ((db.knows_insertLog row).mp known)
      · exact Or.inl ((db.grants_insertLog row).mp granted)
      · show userId ∈ (db.insertLog row).users.map UserRow.id
        rwa [LocalDatabase.insertLog_users]
  | _ => exact inserts.elim

theorem grown_after {locks : String → Prop} {script : Script}
    (inserts : script.Emits (Statement.InsertsFor locks)) (db : LocalDatabase) :
    LocalDatabase.Grown locks db (After Statement.execute script.events db) := by
  unfold Turn.Emits at inserts
  generalize script.events = statements at inserts ⊢
  induction statements generalizing db with
  | nil => exact .refl locks db
  | cons statement statements later =>
      have first := (inserts statement List.mem_cons_self).grown db
      refine first.trans (later (statement.execute db) fun other member => ?_)
      exact inserts other (List.mem_cons_of_mem statement member)

/-! ### What a snapshot leaves -/

section Snapshots

variable {J : Type} (java : JavaText) (json : OrgJson J)

/-- The user an entry of a lock names. -/
def namedUser (jsonUser : Option J) : Option Int32 :=
  (jsonUser.bind fun user => json.getString user "userId").bind java.integerValueOf

/-- The users of a lock. -/
def namedUsers (jsonLock : Option J) : List (Option Int32) :=
  ((jsonLock.bind fun lock => json.getJSONArray lock "users").getD []).map (namedUser java json)

/-- The MAC address of a lock. -/
def namedLock (jsonLock : Option J) : Option String :=
  (jsonLock.bind fun lock => json.getString lock "lockMac").map java.toUpperCase

variable {java json} {lockMac : String} {userId : Int32}

/-- What a user is stored as: a row, and an access. -/
theorem storeUser_ok {jsonUser : Option J} (ok : (storeUser java json lockMac jsonUser).fault = none) :
    ∃ row isAdmin, namedUser java json jsonUser = some row.id ∧
      (storeUser java json lockMac jsonUser).events =
        [.insertUser row, .insertAccess ⟨lockMac, row.id, isAdmin⟩] := by
  obtain ⟨user, rfl, isObject⟩ := ok_of_orThrow ok
  obtain ⟨text, named, ok⟩ := ok_of_orThrow isObject
  obtain ⟨number, value, ok⟩ := ok_of_orThrow ok
  obtain ⟨name, called, ok⟩ := ok_of_orThrow ok
  obtain ⟨validated, flag, ok⟩ := ok_of_orThrow ok
  obtain ⟨isAdmin, admin, -⟩ := ok_of_orThrow (Turn.ok_of_andThen ok).2
  refine ⟨⟨number, some name, validated⟩, isAdmin, ?_, ?_⟩
  · simp [namedUser, named, value]
  · simp only [storeUser, named, value, called, flag, admin, orThrow]
    rfl

/-- The user a stored entry names has an access. -/
theorem grants_storeUser {jsonUser : Option J} (named : namedUser java json jsonUser = some userId)
    (ok : (storeUser java json lockMac jsonUser).fault = none) {db : LocalDatabase}
    (known : db.Knows lockMac) :
    (After Statement.execute (storeUser java json lockMac jsonUser).events db).Grants lockMac userId := by
  obtain ⟨row, isAdmin, names, events⟩ := storeUser_ok ok
  obtain rfl : row.id = userId := Option.some.inj (names.symm.trans named)
  rw [events]
  refine ((db.insertUser row).grants_insertAccess _).mpr (Or.inr ⟨⟨rfl, rfl⟩, known, ?_⟩)
  exact mem_map_insertNew.mpr (Or.inr rfl)

theorem grants_storeUsers {jsonUsers : List (Option J)}
    (named : some userId ∈ jsonUsers.map (namedUser java json))
    (ok : (run (fun jsonUser _ => storeUser java json lockMac jsonUser) jsonUsers ()).fault = none)
    {db : LocalDatabase} (known : db.Knows lockMac) :
    (After Statement.execute
      (run (fun jsonUser _ => storeUser java json lockMac jsonUser) jsonUsers ()).events db).Grants
        lockMac userId := by
  induction jsonUsers generalizing db with
  | nil => cases named
  | cons jsonUser jsonUsers later =>
      obtain ⟨stored, others⟩ := Turn.ok_of_andThen ok
      have insertsOne : (storeUser java json lockMac jsonUser).Emits
          (Statement.InsertsFor (· = lockMac)) := storeUser_emits (fun _ => trivial) fun _ _ => rfl
      have insertsOthers : (run (fun jsonUser _ => storeUser java json lockMac jsonUser)
          jsonUsers ()).Emits (Statement.InsertsFor (· = lockMac)) :=
        .run (fun _ _ _ => storeUser_emits (fun _ => trivial) fun _ _ => rfl) ()
      rw [run_cons, Turn.andThen_of_ok stored, after_append]
      rcases List.mem_cons.mp named with this | another
      · exact (grown_after insertsOthers _).grants _ _ (grants_storeUser this.symm stored known)
      · exact later another others ((grown_after insertsOne db).knows _ known)

/-- A lock that is stored is there, and so are the accesses of its users. -/
theorem storeLock_leaves {jsonLock : Option J} (ok : (storeLock java json jsonLock).fault = none) :
    ∃ mac, namedLock java json jsonLock = some mac ∧
      (storeLock java json jsonLock).Emits (Statement.InsertsFor (· = mac)) ∧
      ∀ userId db, some userId ∈ namedUsers java json jsonLock →
        (After Statement.execute (storeLock java json jsonLock).events db).Grants mac userId := by
  obtain ⟨lock, text, jsonUsers, name, lockClockwise, jsonLogs, rfl, named, users, -, stored, events⟩ :=
    storeLock_ok ok
  have insertsLogs : (run (fun jsonLog _ => storeLog java json (java.toUpperCase text) jsonLog)
      jsonLogs ()).Emits (Statement.InsertsFor (· = java.toUpperCase text)) :=
    .run (fun _ _ _ => storeLog_emits fun _ _ => trivial) ()
  have insertsUsers : (run (fun jsonUser _ => storeUser java json (java.toUpperCase text) jsonUser)
      jsonUsers ()).Emits (Statement.InsertsFor (· = java.toUpperCase text)) :=
    .run (fun _ _ _ => storeUser_emits (fun _ => trivial) fun _ _ => rfl) ()
  refine ⟨java.toUpperCase text, by simp [namedLock, named], ?_, fun userId db listed => ?_⟩
  · intro statement member
    rw [events, List.mem_cons, List.mem_append] at member
    rcases member with rfl | early | late
    · exact rfl
    · exact insertsUsers statement early
    · exact insertsLogs statement late
  · rw [events, after_cons, after_append]
    refine (grown_after insertsLogs _).grants _ _ (grants_storeUsers ?_ stored ?_)
    · simpa [namedUsers, users] using listed
    · exact (db.knows_insertLock _).mpr (Or.inr rfl)

/-- The MAC addresses of the locks of a snapshot. -/
def snapshotMacs (java : JavaText) (json : OrgJson J) (jsonObject : J) : List String :=
  ((json.getJSONArray jsonObject "locks").getD []).filterMap (namedLock java json)

/-- What locks that are stored and all have the user leave. -/
theorem storeLock_run_leaves {jsonLocks : List (Option J)}
    (stored : ∀ jsonLock ∈ jsonLocks, (storeLock java json jsonLock).fault = none ∧
      some userId ∈ namedUsers java json jsonLock) (db : LocalDatabase) :
    let after := After Statement.execute
      (run (fun jsonLock _ => storeLock java json jsonLock) jsonLocks ()).events db
    LocalDatabase.Grown (· ∈ jsonLocks.filterMap (namedLock java json)) db after ∧
      ∀ mac ∈ jsonLocks.filterMap (namedLock java json), after.Grants mac userId := by
  induction jsonLocks generalizing db with
  | nil => exact ⟨.refl _ db, nofun⟩
  | cons jsonLock jsonLocks later =>
      obtain ⟨ok, listed⟩ := stored jsonLock List.mem_cons_self
      obtain ⟨mac, named, inserts, grants⟩ := storeLock_leaves ok
      obtain ⟨grown, others⟩ := later
        (fun other member => stored other (List.mem_cons_of_mem jsonLock member))
        (After Statement.execute (storeLock java json jsonLock).events db)
      rw [run_cons, Turn.andThen_of_ok ok, after_append, List.filterMap_cons_some named]
      refine ⟨((grown_after inserts db).mono ?_).trans (grown.mono ?_), ?_⟩
      · rintro _ rfl
        exact List.mem_cons_self
      · exact fun other member => List.mem_cons_of_mem mac member
      · intro other member
        rcases List.mem_cons.mp member with rfl | elsewhere
        · exact grown.grants _ _ (grants userId db listed)
        · exact others other elsewhere

end Snapshots

/-! ### Covered data -/

/-- Every row is about a lock on which the stored user has an access. -/
structure LocalData.Covered (data : LocalData) : Prop where
  locks : ∀ lock ∈ data.db.locks, data.db.Grants lock.mac data.userId
  accesses : ∀ access ∈ data.db.accesses, data.db.Grants access.lockMac data.userId
  logs : ∀ log ∈ data.db.logs, data.db.Grants log.lockMac data.userId

/-- A user has an access on every lock. -/
def LocalDatabase.CoveredFor (db : LocalDatabase) (userId : Int32) : Prop :=
  ∀ mac, db.Knows mac → db.Grants mac userId

/-- The foreign keys leave it to the locks. -/
theorem LocalData.covered_iff {data : LocalData} : data.Covered ↔ data.db.CoveredFor data.userId := by
  constructor
  · intro covered mac known
    obtain ⟨lock, member, rfl⟩ := List.mem_map.mp known
    exact covered.locks lock member
  · intro every
    exact ⟨fun lock member => every lock.mac (List.mem_map_of_mem member),
      fun access member => every access.lockMac (data.db.accessLocks access member),
      fun log member => every log.lockMac (data.db.logLocks log member)⟩

namespace LocalDatabase

variable {db : LocalDatabase} {userId : Int32}

/-- A lock of its own is new where it has no row. -/
theorem CoveredFor.insertLock_iff (covered : db.CoveredFor userId) (row : LockRow) :
    (db.insertLock row).CoveredFor userId ↔ db.Knows row.mac := by
  constructor
  · intro every
    have grants : db.Grants row.mac userId := every row.mac ((db.knows_insertLock row).mpr (Or.inr rfl))
    exact grants.knows
  · intro known mac new
    rcases (db.knows_insertLock row).mp new with old | rfl
    · exact covered mac old
    · exact covered row.mac known

/-- An access that is removed is one of another user, or of a lock that is not there. -/
theorem CoveredFor.deleteAccess_iff (covered : db.CoveredFor userId) (mac : String) (removed : Int32) :
    (db.deleteAccess mac removed).CoveredFor userId ↔ ¬ (removed = userId ∧ db.Knows mac) := by
  constructor
  · rintro every ⟨rfl, known⟩
    exact ((db.grants_deleteAccess mac removed).mp (every mac known)).2 ⟨rfl, rfl⟩
  · intro spared other known
    refine (db.grants_deleteAccess mac removed).mpr ⟨covered other known, ?_⟩
    rintro ⟨rfl, rfl⟩
    exact spared ⟨rfl, known⟩

/-- A lock, its user, and an access of the user. -/
theorem CoveredFor.addLock_iff (covered : db.CoveredFor userId) (lock : LockRow) (user : UserRow)
    (access : AccessRow) (own : access.userId = userId) (named : user.id = userId) :
    (((db.insertLock lock).insertUser user).insertAccess access).CoveredFor userId ↔
      lock.mac = access.lockMac ∨ db.Knows lock.mac := by
  have grants (mac : String) :
      (((db.insertLock lock).insertUser user).insertAccess access).Grants mac userId ↔
        db.Grants mac userId ∨ mac = access.lockMac ∧ (db.insertLock lock).Knows access.lockMac := by
    have there : access.userId ∈ ((db.insertLock lock).insertUser user).users.map UserRow.id :=
      mem_map_insertNew.mpr (Or.inr (own.trans named.symm))
    rw [grants_insertAccess]
    refine or_congr_right ⟨?_, ?_⟩
    · exact fun ⟨⟨same, _⟩, known, _⟩ => ⟨same, known⟩
    · exact fun ⟨same, known⟩ => ⟨⟨same, own.symm⟩, known, there⟩
  constructor
  · intro every
    have known := (db.knows_insertLock lock).mpr (Or.inr rfl)
    rcases (grants lock.mac).mp (every lock.mac ((knows_insertAccess _ access).mpr known)) with
      old | ⟨same, -⟩
    · exact Or.inr old.knows
    · exact Or.inl same
  · intro either mac known
    have within : (db.insertLock lock).Knows mac :=
      (knows_insertAccess ((db.insertLock lock).insertUser user) access).mp known
    rw [grants]
    rcases (db.knows_insertLock lock).mp within with old | rfl
    · exact Or.inl (covered mac old)
    · rcases either with same | old
      · exact Or.inr ⟨same, same ▸ within⟩
      · exact Or.inl (covered lock.mac old)

end LocalDatabase

/-- A statement that adds no lock and removes no access of the user. -/
def Statement.Keeps (userId : Int32) : Statement → Prop
  | .insertLock _ | .deleteLocks | .deleteUsers => False
  | .deleteAccess _ removed => removed ≠ userId
  | .insertUser _ | .insertAccess _ | .insertLog _ | .deleteLock _ | .updateUser _ => True

theorem Statement.Keeps.coveredFor {userId : Int32} {statement : Statement}
    (keeps : statement.Keeps userId) {db : LocalDatabase} (covered : db.CoveredFor userId) :
    (statement.execute db).CoveredFor userId := by
  intro mac known
  cases statement with
  | insertUser row => exact covered mac known
  | insertAccess row =>
      have old := (db.knows_insertAccess row).mp known
      exact (db.grants_insertAccess row).mpr (Or.inl (covered mac old))
  | insertLog row =>
      exact (db.grants_insertLog row).mpr (covered mac ((db.knows_insertLog row).mp known))
  | deleteLock removed =>
      obtain ⟨old, other⟩ := (db.knows_deleteLock removed).mp known
      exact (db.grants_deleteLock removed).mpr ⟨covered mac old, other⟩
  | deleteAccess removedMac removed =>
      exact (covered.deleteAccess_iff removedMac removed).mpr (fun own => keeps own.1) mac known
  | updateUser row => exact covered mac known
  | _ => exact keeps.elim

theorem coveredFor_after {userId : Int32} {script : Script}
    (keeps : script.Emits (Statement.Keeps userId)) {db : LocalDatabase}
    (covered : db.CoveredFor userId) :
    (After Statement.execute script.events db).CoveredFor userId := by
  unfold Turn.Emits at keeps
  generalize script.events = statements at keeps ⊢
  induction statements generalizing db with
  | nil => exact covered
  | cons statement statements later =>
      refine later ((keeps statement List.mem_cons_self).coveredFor covered) fun other member => ?_
      exact keeps other (List.mem_cons_of_mem statement member)

/-! ### The inputs that break it -/

section Uncovers

variable {J : Type} (java : JavaText) (json : OrgJson J)

/-- A message to the user that takes the user off a lock; the lock is there, or the message adds it. -/
def Message.Uncovers (message : Message) (data : LocalData) : Prop :=
  message.isFor java (toString data.userId) = some true ∧ message.get "command" = some "removeUser" ∧
    message.integer java "removeUserId" = some data.userId ∧
    ∃ mac, (message.get "lockMac").map java.toUpperCase = some mac ∧
      if data.userId < 0 then
        message.get "removeUserId" = some (toString data.userId) ∧ ¬ data.db.Knows mac
      else message.get "removeUserId" = some (toString data.userId) ∨ data.db.Knows mac

namespace DataInput

/-- A snapshot is stored without an exception, and each of its locks has its user. -/
def Proper : DataInput J → Prop
  | .parseAndStore jsonObject => ∀ userId, json.getInt jsonObject "userId" = some userId →
      ∀ jsonLock ∈ (json.getJSONArray jsonObject "locks").getD [],
        (storeLock java json jsonLock).fault = none ∧ some userId ∈ namedUsers java json jsonLock
  | _ => True

/-- The inputs that leave a lock on which the stored user has no access: a snapshot of a user without
an access on a lock that it does not name, a lock with a MAC address in lower case, and the removal of
the user from a lock. -/
def Uncovers (data : LocalData) : DataInput J → Prop
  | .parseAndStore jsonObject => ∃ lock ∈ data.db.locks,
      lock.mac ∉ snapshotMacs java json jsonObject ∧
        ¬ data.db.Grants lock.mac ((json.getInt jsonObject "userId").getD data.userId)
  | .addLock mac _ _ => java.toUpperCase mac ≠ mac ∧ ¬ data.db.Knows (java.toUpperCase mac)
  | .removeUser userId lockMac => userId = data.userId ∧ ¬ userId < 0 ∧ data.db.Knows lockMac
  | .messageReceived message => message.Uncovers java data
  | .addUser _ _ _ | .removeLock _ => False

end DataInput

end Uncovers

/-! ### One input -/

section Inputs

variable {J : Type} {java : JavaText} {json : OrgJson J}

theorem storeLocks_events (jsonObject : J) :
    (storeLocks java json jsonObject).events =
      (run (fun jsonLock _ => storeLock java json jsonLock)
        ((json.getJSONArray jsonObject "locks").getD []) ()).events := by
  unfold storeLocks
  cases json.getJSONArray jsonObject "locks" with
  | none => rfl
  | some jsonLocks => rfl

theorem coveredFor_parseAndStore_iff {jsonObject : J} {userId : Int32}
    (proper : ∀ jsonLock ∈ (json.getJSONArray jsonObject "locks").getD [],
      (storeLock java json jsonLock).fault = none ∧ some userId ∈ namedUsers java json jsonLock)
    (db : LocalDatabase) :
    (After Statement.execute (storeLocks java json jsonObject).events db).CoveredFor userId ↔
      ¬ ∃ lock ∈ db.locks, lock.mac ∉ snapshotMacs java json jsonObject ∧
        ¬ db.Grants lock.mac userId := by
  obtain ⟨grown, grants⟩ := storeLock_run_leaves proper db
  rw [storeLocks_events]
  constructor
  · rintro every ⟨lock, member, unlisted, without⟩
    have granted := every lock.mac (grown.knows lock.mac (List.mem_map_of_mem member))
    exact (grown.granted lock.mac userId granted).elim without unlisted
  · intro none mac known
    by_cases listed : mac ∈ snapshotMacs java json jsonObject
    · exact grants mac listed
    · obtain ⟨lock, member, rfl⟩ := List.mem_map.mp ((grown.known mac known).resolve_right listed)
      refine grown.grants lock.mac userId ?_
      by_contra without
      exact none ⟨lock, member, listed, without⟩

/-- The text of an id is read as the id. -/
theorem Message.integer_own {message : Message} {who : String} {userId : Int32}
    (own : message.get who = some (toString userId)) : message.integer java who = some userId := by
  unfold integer
  rw [own]
  exact java.integerValueOf_valueOf userId

variable {db : LocalDatabase} {userId : Int32}

/-- Of a message that adds the user to a lock the lock is stored with the access. -/
theorem Message.coveredFor_addUser (message : Message) (covered : db.CoveredFor userId) :
    (After Statement.execute (message.addUser java (toString userId)).events db).CoveredFor userId := by
  cases given : message.get "lockMac" with
  | none =>
      unfold addUser
      rw [given]
      exact covered
  | some text =>
      by_cases own : message.get "addUserId" = some (toString userId)
      · have adds := (covered.addLock_iff
          ⟨java.toUpperCase (java.toUpperCase text), message.get "lockName",
            message.boolean "lockClockwise"⟩
          ⟨userId, message.get "addUserName", message.boolean "addUserValidated"⟩
          ⟨java.toUpperCase text, userId, message.boolean "isAdmin"⟩ rfl rfl).mpr
            (Or.inl (java.toUpperCase_idem text))
        unfold addUser addOwnLock
        simp only [given, orThrow, Option.map_some, if_pos own, integer_own own]
        exact adds
      · unfold addUser addOwnLock
        simp only [if_neg own, Turn.pure_andThen]
        refine coveredFor_after (emits_orThrow fun lockMac _ => ?_) covered
        exact emits_orThrow fun added _ => addUserToLock_emits (fun _ => trivial) fun _ => trivial

/-- What a message that removes a user from a lock leaves. -/
theorem Message.coveredFor_removeUser_iff (message : Message) (covered : db.CoveredFor userId) :
    (After Statement.execute (message.removeUser java (toString userId)).events db).CoveredFor userId ↔
      ¬ (message.integer java "removeUserId" = some userId ∧
        ∃ mac, (message.get "lockMac").map java.toUpperCase = some mac ∧
          if userId < 0 then
            message.get "removeUserId" = some (toString userId) ∧ ¬ db.Knows mac
          else message.get "removeUserId" = some (toString userId) ∨ db.Knows mac) := by
  unfold removeUser addOwnLock
  cases given : message.get "lockMac" with
  | none => simpa [orThrow] using covered
  | some text =>
      by_cases own : message.get "removeUserId" = some (toString userId)
      · simp only [orThrow, Option.map_some, integer_own own, own, if_true, true_and, true_or,
          Option.some.injEq, exists_eq_left']
        unfold LocalDataServiceApi.removeUserFromLock
        by_cases negative : userId < 0
        · rw [if_pos negative, if_pos negative, not_not]
          refine (covered.insertLock_iff ⟨java.toUpperCase (java.toUpperCase text), _, _⟩).trans ?_
          show db.Knows (java.toUpperCase (java.toUpperCase text)) ↔ _
          rw [java.toUpperCase_idem]
        · rw [if_neg negative, if_neg negative, not_true_eq_false, iff_false]
          -- The lock is there now, and the access of the user is not.
          intro every
          let lock : LockRow := ⟨java.toUpperCase (java.toUpperCase text), message.get "lockName",
            message.boolean "lockClockwise"⟩
          have known : (db.insertLock lock).Knows (java.toUpperCase text) :=
            (db.knows_insertLock lock).mpr (Or.inr (java.toUpperCase_idem text).symm)
          have grants : ((db.insertLock lock).deleteAccess (java.toUpperCase text) userId).Grants
            (java.toUpperCase text) userId := every (java.toUpperCase text) known
          exact ((LocalDatabase.grants_deleteAccess _ _ _).mp grants).2 ⟨rfl, rfl⟩
      · simp only [orThrow, Option.map_some, own, if_false, false_and, false_or, Option.some.injEq,
          exists_eq_left', Turn.pure_andThen]
        unfold LocalDataServiceApi.removeUserFromLock
        cases named : message.integer java "removeUserId" with
        | none => simpa using covered
        | some removed =>
            simp only [Option.some.injEq]
            by_cases negative : removed < 0
            · rw [if_pos negative]
              refine iff_of_true covered ?_
              rintro ⟨rfl, known⟩
              rwa [if_pos negative] at known
            · rw [if_neg negative]
              refine (covered.deleteAccess_iff (java.toUpperCase text) removed).trans (not_congr ?_)
              refine and_congr_right ?_
              rintro rfl
              rw [if_neg negative]

/-- A message leaves the data covered exactly if it does not take the user off a lock. -/
theorem Message.coveredFor_handleData_iff (message : Message) (covered : db.CoveredFor userId) :
    (After Statement.execute (message.handleData java userId).events db).CoveredFor userId ↔
      ¬ message.Uncovers java ⟨userId, db⟩ := by
  unfold handleData Uncovers
  by_cases mine : message.isFor java (toString userId) = some true
  · rw [mine]
    show (After Statement.execute (message.command java (toString userId)).events db).CoveredFor
      userId ↔ _
    unfold command
    cases given : message.get "command" with
    | none => exact iff_of_true covered fun uncovers => by cases uncovers.2.1
    | some command =>
        simp only [Option.getD_some, Option.some.injEq, true_and]
        split
        · refine iff_of_true (coveredFor_after (updateUser_emits fun _ => trivial) covered) ?_
          exact fun uncovers => absurd uncovers.1 (by decide)
        · refine iff_of_true (message.coveredFor_addUser covered) ?_
          exact fun uncovers => absurd uncovers.1 (by decide)
        · rw [message.coveredFor_removeUser_iff covered]
          simp only [true_and]
        · refine iff_of_true (coveredFor_after (addLog_emits fun _ => trivial) covered) ?_
          exact fun uncovers => absurd uncovers.1 (by decide)
        · rename_i other _
          exact iff_of_true covered fun uncovers => other uncovers.1
  · refine iff_of_true ?_ fun uncovers => mine uncovers.1
    cases named : message.isFor java (toString userId) with
    | none => exact covered
    | some isMine =>
        cases isMine with
        | false => exact covered
        | true => exact absurd named mine

/-- **One input leaves the data covered exactly if it is not one that breaks it.** -/
theorem DataInput.step_covered_iff {input : DataInput J} (proper : input.Proper java json)
    {data : LocalData} (covered : data.Covered) :
    (input.step java json data).Covered ↔ ¬ input.Uncovers java json data := by
  rw [LocalData.covered_iff] at covered ⊢
  cases input with
  | parseAndStore jsonObject =>
      cases named : json.getInt jsonObject "userId" with
      | none =>
          simp only [step, script, userIdAfter, Uncovers, named, Option.isSome_none, Option.getD_none,
            Bool.false_eq_true, if_false]
          refine iff_of_true covered ?_
          rintro ⟨lock, member, -, without⟩
          exact without (covered lock.mac (List.mem_map_of_mem member))
      | some userId =>
          simp only [step, script, userIdAfter, Uncovers, named, Option.isSome_some, Option.getD_some,
            if_true]
          exact coveredFor_parseAndStore_iff (proper userId named) data.db
  | addLock mac name lockClockwise =>
      refine (covered.addLock_iff _ _ _ rfl rfl).trans ?_
      unfold Uncovers
      tauto
  | addUser jsonObject mac isAdmin =>
      refine iff_of_true ?_ not_false
      simp only [step, script]
      cases jsonUser json jsonObject with
      | none => exact covered
      | some user =>
          exact coveredFor_after (addUserToLock_emits (fun _ => trivial) fun _ => trivial) covered
  | removeLock mac =>
      have keeps : (LocalDataServiceApi.removeLock mac).Emits (Statement.Keeps data.userId) :=
        .single trivial
      exact iff_of_true (coveredFor_after keeps covered) not_false
  | removeUser removed lockMac =>
      simp only [step, script, userIdAfter, Uncovers]
      unfold LocalDataServiceApi.removeUserFromLock
      by_cases negative : removed < 0
      · rw [if_pos negative]
        exact iff_of_true covered fun uncovers => uncovers.2.1 negative
      · rw [if_neg negative]
        refine (covered.deleteAccess_iff lockMac removed).trans (not_congr ?_)
        rw [and_iff_right negative]
  | messageReceived message => exact message.coveredFor_handleData_iff covered

end Inputs

/-! ### Every sequence -/

/-- **The data is covered after every input of a sequence exactly if none is one that breaks it.** -/
theorem covered_iff_none_uncovers {J : Type} (java : JavaText) (json : OrgJson J)
    (inputs : List (DataInput J)) (proper : ∀ input ∈ inputs, input.Proper java json)
    {data : LocalData} (covered : data.Covered) :
    (∀ done, done <+: inputs → (After (DataInput.step java json) done data).Covered) ↔
      ∀ done next, done ++ [next] <+: inputs →
        ¬ next.Uncovers java json (After (DataInput.step java json) done data) :=
  kept_iff_of_allowed (DataInput.step java json) (DataInput.Proper java json)
    (fun _ _ proper covered => DataInput.step_covered_iff proper covered) inputs proper covered

theorem covered_empty (userId : Int32) : (⟨userId, .empty⟩ : LocalData).Covered := ⟨nofun, nofun, nofun⟩

/-- A snapshot, and a message that takes its user off its lock. -/
def revocation : List (DataInput JsonValue) :=
  [.parseAndStore (sampleSnapshot "00:07:80:7E:C0:01" true),
    .messageReceived [("userId", "7"), ("command", "removeUser"), ("lockMac", "00:07:80:7E:C0:01"),
      ("removeUserId", "7")]]

theorem revocation_proper : ∀ input ∈ revocation, input.Proper asciiText JsonValue.accessors := by
  intro input member
  rcases List.mem_pair.mp member with rfl | rfl
  · intro userId named
    obtain rfl : 7 = userId := Option.some.inj named
    decide +kernel
  · trivial

/-- `covered_iff_none_uncovers` of the revocation. -/
theorem covered_iff_none_uncovers_revocation :
    (∀ done, done <+: revocation →
      (After (DataInput.step asciiText JsonValue.accessors) done ⟨-1, .empty⟩).Covered) ↔
      ∀ done next, done ++ [next] <+: revocation →
        ¬ next.Uncovers asciiText JsonValue.accessors
          (After (DataInput.step asciiText JsonValue.accessors) done ⟨-1, .empty⟩) :=
  covered_iff_none_uncovers asciiText JsonValue.accessors revocation revocation_proper
    (covered_empty (-1))

/-- After a `removeUser` message for the user the lock is there, without an access of the user. -/
theorem revoked_lock_stays : ¬ ∀ inputs : List (DataInput JsonValue),
    (∀ input ∈ inputs, input.Proper asciiText JsonValue.accessors) →
      ∀ done, done <+: inputs →
        (After (DataInput.step asciiText JsonValue.accessors) done ⟨-1, .empty⟩).Covered :=
  fun every => by
    have covered := every revocation revocation_proper revocation List.prefix_rfl
    have known : (After (DataInput.step asciiText JsonValue.accessors) revocation
      ⟨-1, .empty⟩).db.Knows "00:07:80:7E:C0:01" := by decide +kernel
    exact absurd (LocalData.covered_iff.mp covered "00:07:80:7E:C0:01" known) (by decide +kernel)

end Esloq
