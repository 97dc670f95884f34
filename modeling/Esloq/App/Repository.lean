/-
**What the app stores of what it is told (`LockDataRepositoryImpl.java`,
`MyFirebaseMessagingService.java`).**

* `storeLocks` — `parseAndStore`: a snapshot of the server is stored lock by lock, until a field is
  missing.
* `Message.handleData` — a message of the server, for the users it names.
* `DataInput.step` — a snapshot, the success of a request to the server, or a message changes the stored
  user id and the tables (`LocalData`).
-/

import Esloq.App.LocalDatabase
import Esloq.Lib.Prefixes

namespace Esloq

open Keyed Machine Prefixes

/-- Go on with a value, or end with an exception. -/
def orThrow {α : Type} (value : Option α) (error : JavaError) (next : α → Script) : Script :=
  match value with
  | some value => next value
  | none => ⟨(), [], some error⟩

/-! ### Snapshots -/

/-- The accessors of `org.json`; `none` is a `JSONException`, also for an element of an array that is
no object. -/
structure OrgJson (J : Type) where
  getInt : J → String → Option Int32
  getLong : J → String → Option Int
  getString : J → String → Option String
  getBoolean : J → String → Option Bool
  getJSONObject : J → String → Option J
  getJSONArray : J → String → Option (List (Option J))

section Snapshots

variable {J : Type} (java : JavaText) (json : OrgJson J)

/-- The loop over the users of a lock. -/
def storeUser (lockMac : String) (jsonUser : Option J) : Script :=
  orThrow jsonUser .json fun jsonUser =>
  orThrow (json.getString jsonUser "userId") .json fun text =>
  orThrow (java.integerValueOf text) .numberFormat fun userId =>
  orThrow (json.getString jsonUser "name") .json fun name =>
  orThrow (json.getBoolean jsonUser "validated") .json fun validated =>
  (LocalDataServiceApi.addUser userId (some name) validated).andThen fun _ =>
  orThrow (json.getBoolean jsonUser "isAdmin") .json fun isAdmin =>
  LocalDataServiceApi.addLockAccess userId lockMac isAdmin

/-- The loop over the logs of a lock. -/
def storeLog (lockMac : String) (jsonLog : Option J) : Script :=
  orThrow jsonLog .json fun jsonLog =>
  orThrow (json.getInt jsonLog "userId") .json fun userId =>
  orThrow (json.getBoolean jsonLog "lockState") .json fun lockState =>
  orThrow (json.getLong jsonLog "timestamp") .json fun timestamp =>
  LocalDataServiceApi.addLogToLock java userId lockMac lockState timestamp

/-- The loop over the locks. -/
def storeLock (jsonLock : Option J) : Script :=
  orThrow jsonLock .json fun jsonLock =>
  orThrow ((json.getString jsonLock "lockMac").map java.toUpperCase) .json fun lockMac =>
  orThrow (json.getJSONArray jsonLock "users") .json fun jsonUsers =>
  orThrow (json.getString jsonLock "name") .json fun name =>
  orThrow (json.getBoolean jsonLock "lockClockwise") .json fun lockClockwise =>
  (LocalDataServiceApi.addLock java lockMac (some name) lockClockwise).andThen fun _ =>
  (run (fun jsonUser _ => storeUser java json lockMac jsonUser) jsonUsers ()).andThen fun _ =>
  orThrow (json.getJSONArray jsonLock "logs") .json fun jsonLogs =>
  run (fun jsonLog _ => storeLog java json lockMac jsonLog) jsonLogs ()

/-- `parseAndStore` after the user id has been stored; a `JSONException` is caught. -/
def storeLocks (jsonObject : J) : Script :=
  let script := orThrow (json.getJSONArray jsonObject "locks") .json fun jsonLocks =>
    run (fun jsonLock _ => storeLock java json jsonLock) jsonLocks ()
  ⟨(), script.events, script.fault.filter (· ≠ .json)⟩

end Snapshots

/-! ### Messages -/

/-- The data of a message, a map. -/
abbrev Message := List (String × String)

namespace Message

variable (java : JavaText) (message : Message)

/-- `data.get`. -/
def get (name : String) : Option String := message.lookup name

/-- `Integer.valueOf(data.get(name))`. -/
def integer (name : String) : Option Int32 := (message.get name).bind java.integerValueOf

/-- `Boolean.valueOf(data.get(name))`. -/
def boolean (name : String) : Bool := (message.get name).any fun text => text.toLower = "true"

/-- Whether the message is for a user; `none` is the exception where it names neither a user nor
users. -/
def isFor (myId : String) : Option Bool :=
  if message.get "userId" = some myId then some true
  else (message.get "userIds").map fun userIds => myId ∈ java.splitCommas userIds

/-- `addLock` where the user that is named under `who` is the one who is signed in. -/
def addOwnLock (myId who lockMac : String) : Script :=
  if message.get who = some myId then
    LocalDataServiceApi.addLock java lockMac (message.get "lockName") (message.boolean "lockClockwise")
  else .pure ()

/-- The command `updateUser`. -/
def updateUser : Script :=
  orThrow (message.integer java "userId") .numberFormat fun userId =>
  LocalDataServiceApi.updateUser userId (some ((message.get "firstName").getD "null")) true

/-- The command `addUser`. -/
def addUser (myId : String) : Script :=
  orThrow ((message.get "lockMac").map java.toUpperCase) .nullPointer fun lockMac =>
  (message.addOwnLock java myId "addUserId" lockMac).andThen fun _ =>
  orThrow (message.integer java "addUserId") .numberFormat fun addUserId =>
  LocalDataServiceApi.addUserToLock addUserId (message.get "addUserName")
    (message.boolean "addUserValidated") lockMac (message.boolean "isAdmin")

/-- The command `removeUser`; it adds the lock of the user who is signed in, as `addUser` does. -/
def removeUser (myId : String) : Script :=
  orThrow ((message.get "lockMac").map java.toUpperCase) .nullPointer fun lockMac =>
  (message.addOwnLock java myId "removeUserId" lockMac).andThen fun _ =>
  orThrow (message.integer java "removeUserId") .numberFormat fun removeUserId =>
  LocalDataServiceApi.removeUserFromLock removeUserId lockMac

/-- The command `addLog`. -/
def addLog : Script :=
  orThrow ((message.get "lockMac").map java.toUpperCase) .nullPointer fun lockMac =>
  orThrow (message.integer java "logUserId") .numberFormat fun logUserId =>
  orThrow ((message.get "timestamp").bind java.longValueOf) .numberFormat fun timestamp =>
  LocalDataServiceApi.addLogToLock java logUserId lockMac (message.boolean "lockState") timestamp

/-- The command of a message. -/
def command (myId : String) : Script :=
  match (message.get "command").getD "" with
  | "updateUser" => message.updateUser java
  | "addUser" => message.addUser java myId
  | "removeUser" => message.removeUser java myId
  | "addLog" => message.addLog java
  | _ => .pure ()

/-- `handleData`. -/
def handleData (userId : Int32) : Script :=
  orThrow (message.isFor java (toString userId)) .nullPointer fun mine =>
  if mine then message.command java (toString userId) else .pure ()

end Message

/-! ### Inputs -/

/-- The stored user id (`MY_USER_ID`) and the tables. -/
structure LocalData where
  userId : Int32
  db : LocalDatabase

/-- What changes the stored data: a snapshot, the success of a request, or a message. -/
inductive DataInput (J : Type)
  | parseAndStore (jsonObject : J)
  | addLock (mac : String) (name : Option String) (lockClockwise : Bool)
  | addUser (jsonObject : J) (mac : String) (isAdmin : Bool)
  | removeLock (mac : String)
  | removeUser (userId : Int32) (lockMac : String)
  | messageReceived (message : Message)

namespace DataInput

variable {J : Type} (java : JavaText) (json : OrgJson J)

/-- The user that `addUser` of the repository has added; a `JSONException` is caught. -/
def jsonUser (jsonObject : J) : Option UserRow := do
  let user ← json.getJSONObject jsonObject "user"
  let id ← json.getInt user "id"
  let firstName ← json.getString user "firstName"
  let validated ← json.getBoolean user "validated"
  return ⟨id, some firstName, validated⟩

/-- What an input executes, with the stored user id as it is then. -/
def script (userId : Int32) : DataInput J → Script
  | .parseAndStore jsonObject =>
      if (json.getInt jsonObject "userId").isSome then storeLocks java json jsonObject else .pure ()
  | .addLock mac name lockClockwise =>
      (LocalDataServiceApi.addLock java mac name lockClockwise).andThen fun _ =>
      LocalDataServiceApi.addUserToLock userId (some "me") true mac true
  | .addUser jsonObject mac isAdmin =>
      match jsonUser json jsonObject with
      | some user => LocalDataServiceApi.addUserToLock user.id user.name user.validated mac isAdmin
      | none => .pure ()
  | .removeLock mac => LocalDataServiceApi.removeLock mac
  | .removeUser userId lockMac => LocalDataServiceApi.removeUserFromLock userId lockMac
  | .messageReceived message => message.handleData java userId

/-- The stored user id after an input. -/
def userIdAfter (userId : Int32) : DataInput J → Int32
  | .parseAndStore jsonObject => (json.getInt jsonObject "userId").getD userId
  | _ => userId

/-- The stored data after an input; what comes before an exception stays. -/
def step (input : DataInput J) (data : LocalData) : LocalData where
  userId := input.userIdAfter json data.userId
  db := After Statement.execute (input.script java json data.userId).events data.db

end DataInput

/-! ### The statements of a script -/

section Emits

variable {J : Type} {java : JavaText} {json : OrgJson J} {P : Statement → Prop}

theorem emits_orThrow {α : Type} {value : Option α} {error : JavaError} {next : α → Script}
    (emits : ∀ found, value = some found → (next found).Emits P) :
    (orThrow value error next).Emits P := by
  cases value with
  | none => exact .silent
  | some found => exact emits found rfl

/-- A user, then an access of the user. -/
theorem storeUser_emits {lockMac : String} {jsonUser : Option J} (user : ∀ row, P (.insertUser row))
    (access : ∀ userId isAdmin, P (.insertAccess ⟨lockMac, userId, isAdmin⟩)) :
    (storeUser java json lockMac jsonUser).Emits P := by
  unfold storeUser
  refine emits_orThrow fun jsonUser _ => emits_orThrow fun text _ => ?_
  refine emits_orThrow fun userId _ => emits_orThrow fun name _ => emits_orThrow fun validated _ => ?_
  refine .andThen (.single (user _)) fun _ => emits_orThrow fun isAdmin _ => ?_
  exact .single (access userId isAdmin)

theorem storeLog_emits {lockMac : String} {jsonLog : Option J}
    (log : ∀ row, row.lockMac = java.toUpperCase lockMac → P (.insertLog row)) :
    (storeLog java json lockMac jsonLog).Emits P := by
  unfold storeLog
  refine emits_orThrow fun jsonLog _ => emits_orThrow fun userId _ => ?_
  refine emits_orThrow fun lockState _ => emits_orThrow fun timestamp _ => ?_
  exact .single (log _ rfl)

/-- A snapshot only inserts. -/
theorem storeLock_emits {jsonLock : Option J} (lock : ∀ row, P (.insertLock row))
    (user : ∀ row, P (.insertUser row)) (access : ∀ row, P (.insertAccess row))
    (log : ∀ row, P (.insertLog row)) : (storeLock java json jsonLock).Emits P := by
  unfold storeLock
  refine emits_orThrow fun jsonLock _ => emits_orThrow fun lockMac _ => ?_
  refine emits_orThrow fun jsonUsers _ => emits_orThrow fun name _ => ?_
  refine emits_orThrow fun lockClockwise _ => .andThen (.single (lock _)) fun _ => ?_
  refine .andThen (.run (fun jsonUser _ _ => storeUser_emits user fun _ _ => access _) _) fun _ => ?_
  refine emits_orThrow fun jsonLogs _ => ?_
  exact .run (fun jsonLog _ _ => storeLog_emits fun row _ => log row) _

theorem storeLocks_emits {jsonObject : J} (lock : ∀ row, P (.insertLock row))
    (user : ∀ row, P (.insertUser row)) (access : ∀ row, P (.insertAccess row))
    (log : ∀ row, P (.insertLog row)) : (storeLocks java json jsonObject).Emits P := by
  intro statement member
  unfold storeLocks at member
  refine emits_orThrow (fun jsonLocks _ => ?_) statement member
  exact .run (fun jsonLock _ _ => storeLock_emits lock user access log) _

theorem Message.addOwnLock_emits {message : Message} {myId who lockMac : String}
    (lock : ∀ row, P (.insertLock row)) : (message.addOwnLock java myId who lockMac).Emits P := by
  unfold Message.addOwnLock
  by_cases own : message.get who = some myId
  · rw [if_pos own]
    exact .single (lock _)
  · rw [if_neg own]
    exact .silent

theorem removeUserFromLock_emits {userId : Int32} {lockMac : String}
    (revoke : ∀ mac userId, P (.deleteAccess mac userId)) :
    (LocalDataServiceApi.removeUserFromLock userId lockMac).Emits P := by
  unfold LocalDataServiceApi.removeUserFromLock
  by_cases negative : userId < 0
  · rw [if_pos negative]
    exact .silent
  · rw [if_neg negative]
    exact .single (revoke _ _)

theorem addUserToLock_emits {userId : Int32} {name : Option String} {validated isAdmin : Bool}
    {mac : String} (user : ∀ row, P (.insertUser row)) (access : ∀ row, P (.insertAccess row)) :
    (LocalDataServiceApi.addUserToLock userId name validated mac isAdmin).Emits P :=
  .andThen (.single (user _)) fun _ => .single (access _)

theorem Message.updateUser_emits {message : Message} (change : ∀ row, P (.updateUser row)) :
    (message.updateUser java).Emits P := by
  refine emits_orThrow fun userId _ => ?_
  unfold LocalDataServiceApi.updateUser
  by_cases negative : userId < 0
  · rw [if_pos negative]
    exact .silent
  · rw [if_neg negative]
    exact .single (change _)

theorem Message.addLog_emits {message : Message} (log : ∀ row, P (.insertLog row)) :
    (message.addLog java).Emits P := by
  refine emits_orThrow fun lockMac _ => emits_orThrow fun logUserId _ => ?_
  exact emits_orThrow fun timestamp _ => .single (log _)

/-- A message inserts, removes accesses, and updates users. -/
theorem Message.handleData_emits {message : Message} {userId : Int32}
    (lock : ∀ row, P (.insertLock row)) (user : ∀ row, P (.insertUser row))
    (access : ∀ row, P (.insertAccess row)) (log : ∀ row, P (.insertLog row))
    (revoke : ∀ mac userId, P (.deleteAccess mac userId)) (change : ∀ row, P (.updateUser row)) :
    (message.handleData java userId).Emits P := by
  unfold Message.handleData
  refine emits_orThrow fun mine _ => ?_
  by_cases isMine : mine = true
  · rw [if_pos isMine]
    unfold Message.command
    split
    · exact updateUser_emits change
    · refine emits_orThrow fun lockMac _ => .andThen (addOwnLock_emits lock) fun _ => ?_
      exact emits_orThrow fun addUserId _ => addUserToLock_emits user access
    · refine emits_orThrow fun lockMac _ => .andThen (addOwnLock_emits lock) fun _ => ?_
      exact emits_orThrow fun removeUserId _ => removeUserFromLock_emits revoke
    · exact addLog_emits log
    · exact .silent
  · rw [if_neg isMine]
    exact .silent

/-- Only `removeLock` deletes a lock. -/
theorem DataInput.script_emits {input : DataInput J} {userId : Int32}
    (stays : ∀ mac, input ≠ .removeLock mac)
    (lock : ∀ row, P (.insertLock row)) (user : ∀ row, P (.insertUser row))
    (access : ∀ row, P (.insertAccess row)) (log : ∀ row, P (.insertLog row))
    (revoke : ∀ mac userId, P (.deleteAccess mac userId)) (change : ∀ row, P (.updateUser row)) :
    (input.script java json userId).Emits P := by
  cases input with
  | parseAndStore jsonObject =>
      show (if (json.getInt jsonObject "userId").isSome then _ else _ : Script).Emits P
      by_cases named : (json.getInt jsonObject "userId").isSome
      · rw [if_pos named]
        exact storeLocks_emits lock user access log
      · rw [if_neg named]
        exact .silent
  | addLock mac name lockClockwise =>
      exact .andThen (.single (lock _)) fun _ => addUserToLock_emits user access
  | addUser jsonObject mac isAdmin =>
      simp only [DataInput.script]
      cases DataInput.jsonUser json jsonObject with
      | some added => exact addUserToLock_emits user access
      | none => exact .silent
  | removeLock mac => exact absurd rfl (stays mac)
  | removeUser removed lockMac =>
      show (LocalDataServiceApi.removeUserFromLock removed lockMac).Emits P
      exact removeUserFromLock_emits revoke
  | messageReceived message =>
      show (message.handleData java userId).Emits P
      exact Message.handleData_emits lock user access log revoke change

end Emits

/-! ### Snapshots without an exception -/

section Stored

variable {J : Type} {java : JavaText} {json : OrgJson J}

theorem ok_of_orThrow {α : Type} {value : Option α} {error : JavaError} {next : α → Script}
    (ok : (orThrow value error next).fault = none) :
    ∃ found, value = some found ∧ (next found).fault = none := by
  cases value with
  | none => cases ok
  | some found => exact ⟨found, rfl, ok⟩

/-- What a lock is stored as: its row, its users, its logs. -/
theorem storeLock_ok {jsonLock : Option J} (ok : (storeLock java json jsonLock).fault = none) :
    ∃ lock text jsonUsers name lockClockwise jsonLogs, jsonLock = some lock ∧
      json.getString lock "lockMac" = some text ∧
      json.getJSONArray lock "users" = some jsonUsers ∧
      json.getBoolean lock "lockClockwise" = some lockClockwise ∧
      let lockMac := java.toUpperCase text
      let users := run (fun jsonUser _ => storeUser java json lockMac jsonUser) jsonUsers ()
      let logs := run (fun jsonLog _ => storeLog java json lockMac jsonLog) jsonLogs ()
      users.fault = none ∧
      (storeLock java json jsonLock).events =
        .insertLock ⟨lockMac, some name, lockClockwise⟩ :: (users.events ++ logs.events) := by
  obtain ⟨lock, rfl, isObject⟩ := ok_of_orThrow ok
  obtain ⟨lockMac, upper, ok⟩ := ok_of_orThrow isObject
  obtain ⟨text, mac, rfl⟩ := Option.map_eq_some_iff.mp upper
  obtain ⟨jsonUsers, users, ok⟩ := ok_of_orThrow ok
  obtain ⟨name, named, ok⟩ := ok_of_orThrow ok
  obtain ⟨lockClockwise, orientation, ok⟩ := ok_of_orThrow ok
  obtain ⟨stored, ok⟩ := Turn.ok_of_andThen (Turn.ok_of_andThen ok).2
  obtain ⟨jsonLogs, logs, -⟩ := ok_of_orThrow ok
  refine ⟨lock, text, jsonUsers, name, lockClockwise, jsonLogs, rfl, mac, users, orientation, stored, ?_⟩
  unfold storeLock LocalDataServiceApi.addLock
  simp only [mac, users, named, orientation, logs, orThrow, Option.map_some, Turn.emit_andThen,
    Turn.andThen_of_ok stored, java.toUpperCase_idem]
  rfl

end Stored

/-! ### ASCII texts and JSON values -/

namespace AsciiText

/-- The value of digits with an optional sign; `none` where another character is among them. -/
def integer (text : List Char) : Option Int :=
  match text with
  | '-' :: digits => (natural digits).map fun value => -(value : Int)
  | digits => (natural digits).map Int.ofNat
where
  natural (digits : List Char) : Option Nat :=
    if digits ≠ [] ∧ digits.all Char.isDigit then some (Nat.ofDigitChars 10 digits 0) else none

/-- `Integer.valueOf`. -/
def integerValueOf (text : String) : Option Int32 :=
  (integer text.toList).bind fun value =>
    if Int32.minValue.toInt ≤ value ∧ value ≤ Int32.maxValue.toInt then some (Int32.ofInt value)
    else none

theorem natural_toDigits (number : Nat) :
    integer.natural (Nat.toDigits 10 number) = some number := by
  unfold integer.natural
  have digits : (Nat.toDigits 10 number).all Char.isDigit := by
    rw [List.all_eq_true]
    exact fun digit member => Nat.isDigit_of_mem_toDigits (by decide) (by decide) member
  rw [if_pos ⟨Nat.toDigits_ne_nil, digits⟩, Nat.ofDigitChars_ten_toDigits]

theorem integer_minus (digits : List Char) :
    integer ('-' :: digits) = (integer.natural digits).map fun value => -(value : Int) := rfl

theorem integer_toString (number : Int) : integer (toString number).toList = some number := by
  cases number with
  | ofNat number =>
      have shown : (toString (Int.ofNat number)).toList = Nat.toDigits 10 number := by
        show (Int.repr _).toList = _
        simp [Int.repr]
      rw [shown]
      unfold integer
      split
      · rename_i digits minus
        have sign : '-' ∈ Nat.toDigits 10 number := minus ▸ List.mem_cons_self
        have digit := Nat.isDigit_of_mem_toDigits (by decide) (by decide) sign
        exact absurd digit (by decide)
      · rw [natural_toDigits]
        rfl
  | negSucc number =>
      have shown : (toString (Int.negSucc number)).toList = '-' :: Nat.toDigits 10 (number + 1) := by
        show (Int.repr _).toList = _
        simp [Int.repr]
      rw [shown, integer_minus, natural_toDigits]
      rfl

theorem integerValueOf_toString (number : Int32) : integerValueOf (toString number) = some number := by
  unfold integerValueOf
  have shown : toString number = toString number.toInt := rfl
  rw [shown, integer_toString, Option.bind_some,
    if_pos ⟨number.minValue_le_toInt, number.toInt_le⟩, Int32.ofInt_toInt]

theorem toUpper_not_lower (letter : Char) :
    ¬ ('a'.val ≤ letter.toUpper.val ∧ letter.toUpper.val ≤ 'z'.val) := by
  unfold Char.toUpper
  by_cases lower : 'a'.val ≤ letter.val ∧ letter.val ≤ 'z'.val
  · rw [dif_pos lower]
    simp only [UInt32.le_iff_toNat_le, UInt32.toNat_add] at lower ⊢
    have first : 'a'.val.toNat = 97 := by decide
    have last : 'z'.val.toNat = 122 := by decide
    have distance : ('A'.val - 'a'.val).toNat = 2 ^ 32 - 32 := by decide
    omega
  · rw [dif_neg lower]
    exact lower

theorem toUpper_toUpper (letter : Char) : letter.toUpper.toUpper = letter.toUpper := by
  conv_lhs => unfold Char.toUpper
  exact dif_neg (toUpper_not_lower letter)

end AsciiText

/-- The conversions of ASCII texts. -/
def asciiText : JavaText where
  toUpperCase text := String.ofList (text.toList.map Char.toUpper)
  toUpperCase_idem text := by
    rw [String.toList_ofList, List.map_map]
    congr 1
    exact List.map_congr_left fun letter _ => AsciiText.toUpper_toUpper letter
  integerValueOf := AsciiText.integerValueOf
  integerValueOf_valueOf := AsciiText.integerValueOf_toString
  longValueOf text := AsciiText.integer text.toList
  splitCommas text := (text.toList.splitOn ',').map fun part =>
    String.ofList (part.filter fun letter => !letter.isWhitespace)

/-- A JSON value. -/
inductive JsonValue
  | boolean (value : Bool)
  | number (value : Int)
  | text (value : String)
  | array (elements : List JsonValue)
  | object (fields : List (String × JsonValue))

namespace JsonValue

/-- A field of an object. -/
def field (name : String) : JsonValue → Option JsonValue
  | .object fields => fields.lookup name
  | _ => none

/-- A value that is an object. -/
def asObject : JsonValue → Option JsonValue
  | .object fields => some (.object fields)
  | _ => none

/-- The accessors; a number is read as a text, too. -/
def accessors : OrgJson JsonValue where
  getInt json name :=
    match json.field name with
    | some (.number value) => some (Int32.ofInt value)
    | _ => none
  getLong json name :=
    match json.field name with
    | some (.number value) => some value
    | _ => none
  getString json name :=
    match json.field name with
    | some (.text value) => some value
    | some (.number value) => some (toString value)
    | _ => none
  getBoolean json name :=
    match json.field name with
    | some (.boolean value) => some value
    | _ => none
  getJSONObject json name := (json.field name).bind asObject
  getJSONArray json name :=
    match json.field name with
    | some (.array elements) => some (elements.map asObject)
    | _ => none

end JsonValue

/-- A snapshot of user 7 with one lock. -/
def sampleSnapshot (mac : String) (lockClockwise : Bool) : JsonValue :=
  .object [("userId", .number 7), ("locks", .array [.object [("lockMac", .text mac),
    ("name", .text "door"), ("lockClockwise", .boolean lockClockwise),
    ("users", .array [.object [("userId", .number 7), ("name", .text "me"),
      ("validated", .boolean true), ("isAdmin", .boolean true)]]),
    ("logs", .array [])]])]

end Esloq
