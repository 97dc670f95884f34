/-
**Requests to view sets, as the web framework documents them.**

* `Json`, `Data` — what a request brings; `lookupKey` is the conversion of a value that a key column is
  compared with.
* `selectRenderer` — content negotiation between the two default renderers.
* `View.dispatch` — content negotiation, then every permission class, then the handler of the method.
* `list`, `retrieve`, `create`, `partialUpdate`, `destroy` — the generic handlers.
* `View.dispatch_holds` — what holds of the state before a request and after every handler that the
  permission classes let through holds after the request.
-/

import Mathlib.Logic.Basic

namespace Rest

theorem bind_eq_ok {ε α β : Type} {first : Except ε α} {next : α → Except ε β} {result : β} :
    first >>= next = .ok result ↔ ∃ value, first = .ok value ∧ next value = .ok result := by
  cases first with
  | error error =>
      refine iff_of_false (fun failed => ?_) ?_
      · cases failed
      · rintro ⟨_, failed, _⟩
        cases failed
  | ok value =>
      refine ⟨fun ok => ⟨value, rfl, ok⟩, ?_⟩
      rintro ⟨_, same, ok⟩
      cases same
      exact ok

theorem ok_of_mapError {ε ε' α : Type} {first : Except ε α} {rename : ε → ε'} {result : α}
    (ok : first.mapError rename = .ok result) : first = .ok result := by
  cases first with
  | error error => cases ok
  | ok value => exact congrArg Except.ok (Except.ok.inj ok)

/-! ### Values -/

/-- A JSON value. A text may hold half of a surrogate pair, and has no encoding then. Nothing reads the
elements of a list or an object in a field. -/
inductive Json
  | null
  | bool (value : Bool)
  | int (value : Int)
  | float (value : Rat)
  | nan
  | infinity
  | text (value : String)
  | surrogates
  | list
  | object
  deriving DecidableEq

/-- An exception. -/
inductive PyError
  | attributeError
  | indexError
  | keyError
  | typeError
  | valueError
  | overflowError
  | doesNotExist
  | multipleObjectsReturned
  | integrityError
  | decodeError
  | urlError
  | unicodeEncodeError
  | rawPostDataException
  deriving DecidableEq

/-- What ends a request early: an exception that the framework answers with a status, or any other,
which leaves the view. -/
inductive Failure
  | api (status : Nat)
  | escaped (error : PyError)
  deriving DecidableEq

/-- `request.data`: a JSON object, a form, another JSON value, a body that cannot be parsed, or one that
cannot be read. -/
inductive Data
  | fields (entries : List (String × Json))
  | form (entries : List (String × String))
  | value (json : Json)
  | malformed (status : Nat)
  | unreadable (error : PyError)
  deriving DecidableEq

/-- `dict.get`, of a form the last value. -/
def Data.get? (data : Data) (name : String) : Except Failure (Option Json) :=
  match data with
  | .fields entries => .ok (entries.lookup name)
  | .form entries => .ok ((entries.reverse.lookup name).map .text)
  | .value _ => .error (.escaped .attributeError)
  | .malformed status => .error (.api status)
  | .unreadable error => .error (.escaped error)

/-- `request.data.get(name, -1)`. -/
def Data.getOrMinusOne (data : Data) (name : String) : Except Failure Json :=
  (data.get? name).map (·.getD (.int (-1)))

/-- Data that yields one value yields others. -/
theorem Data.get_of_getOrMinusOne {data : Data} {name : String} {json : Json}
    (value : data.getOrMinusOne name = .ok json) (other : String) :
    ∃ value, data.get? other = .ok value := by
  cases data with
  | fields entries => exact ⟨_, rfl⟩
  | form entries => exact ⟨_, rfl⟩
  | _ => cases value

/-- `int(value)` of a finite number. -/
def truncate (value : Rat) : Int := value.num.tdiv value.den

/-- An integer of the database has 64 bits and a sign. -/
def fits : Int → Bool
  | .ofNat value => value < 9223372036854775808
  | .negSucc value => value < 9223372036854775808

/-- A number as a parameter of a statement. -/
def parameter (value : Int) : Except Failure (Option Int) :=
  if fits value then .ok (some value) else .error (.escaped .overflowError)

/-- What a key column is compared with: `int(value)`; nothing equals a null. -/
def lookupKey (integerOfText : String → Option Int) : Json → Except Failure (Option Int)
  | .null => .ok none
  | .bool value => .ok (some (if value then 1 else 0))
  | .int value => parameter value
  | .float value => parameter (truncate value)
  | .nan => .error (.escaped .valueError)
  | .infinity => .error (.escaped .overflowError)
  | .text value =>
      match integerOfText value with
      | some number => parameter number
      | none => .error (.escaped .valueError)
  | .surrogates => .error (.escaped .valueError)
  | .list | .object => .error (.escaped .typeError)

/-- `number == value`. -/
def equalsNumber (number : Nat) : Json → Bool
  | .bool value => number = if value then 1 else 0
  | .int value => (number : Int) = value
  | .float value => value.den = 1 ∧ value.num = number
  | _ => false

theorem parameter_eq_ok {value : Int} {key : Option Int} (converted : parameter value = .ok key) :
    key = some value := by
  rw [parameter] at converted
  split at converted
  · exact (Except.ok.inj converted).symm
  · cases converted

/-- A query that is answered has converted its parameter. -/
theorem parameter_of_map {α : Type} {value : Int} {answer : Option Int → α} {result : α}
    (answered : (parameter value).map answer = .ok result) : parameter value = .ok (some value) := by
  cases converted : parameter value with
  | error failure =>
      rw [converted] at answered
      cases answered
  | ok key => rw [parameter_eq_ok converted]

/-- A value that equals a number is converted to it. -/
theorem lookupKey_of_equalsNumber {integerOfText : String → Option Int} {number : Nat} {value : Json}
    {key : Option Int} (equal : equalsNumber number value = true)
    (converted : lookupKey integerOfText value = .ok key) : key = some (number : Int) := by
  cases value with
  | bool value =>
      have same : number = if value then 1 else 0 := of_decide_eq_true equal
      rw [lookupKey, Except.ok.injEq] at converted
      rw [← converted, same]
      cases value <;> rfl
  | int value =>
      have same : (number : Int) = value := of_decide_eq_true equal
      rw [parameter_eq_ok converted, same]
  | float value =>
      have same : value.den = 1 ∧ value.num = number := of_decide_eq_true equal
      rw [parameter_eq_ok converted, truncate, same.1, same.2]
      exact congrArg some (Int.tdiv_one number)
  | _ => cases equal

/-- What a serializer finds in a field: its conversion, a validator or the message of a refusal may raise. -/
inductive Entry (α : Type)
  | invalid
  | absent
  | value (a : α)
  | raises (error : PyError)
  deriving DecidableEq

/-- A field that is converted, with or without success. -/
def Entry.read {α : Type} : Entry α → Except Failure (Entry α)
  | .raises error => .error (.escaped error)
  | entry => .ok entry

/-- The value of a field, if it has one. -/
def Entry.given {α : Type} : Entry α → Option α
  | .value a => some a
  | _ => none

/-- A valid text: the database can encode it, or it holds half of a surrogate pair. -/
inductive Text
  | encoded (text : String)
  | surrogates
  deriving DecidableEq

/-- A text that is sent to the database. -/
def Text.encode : Text → Except Failure String
  | .encoded text => .ok text
  | .surrogates => .error (.escaped .unicodeEncodeError)

/-- The conversions of scalar fields, and `int` of a text. The validator of a unique field sends its text to
the database. -/
structure Fields where
  integerOfText : String → Option Int
  boolean : Data → String → Entry Bool
  integer : Data → String → Entry Int
  text : Data → String → (maxLength : Nat) → Entry Text
  uniqueText : Data → String → (maxLength : Nat) → Entry String
  nullableUniqueText : Data → String → (maxLength : Nat) → Entry (Option String)
  email : Data → String → (maxLength : Nat) → Entry String

/-- A serializer takes an object or a form. -/
def Data.mapping : Data → Except Failure Unit
  | .fields _ | .form _ => .ok ()
  | .value _ => .error (.api 400)
  | .malformed status => .error (.api status)
  | .unreadable error => .error (.escaped error)

/-- A required `PrimaryKeyRelatedField`: the row whose key the value is. -/
def related {ρ : Type} (fields : Fields) (key : ρ → Nat) (rows : List ρ) (data : Data) (name : String) :
    Except Failure (Entry ρ) :=
  match data.get? name with
  | .error failure => .error failure
  | .ok none => .ok .invalid
  | .ok (some json) =>
      match lookupKey fields.integerOfText json with
      | .error (.escaped .typeError) | .error (.escaped .valueError) => .ok .invalid
      | .error failure => .error failure
      | .ok number =>
          match rows.find? fun row => some (key row : Int) = number with
          | none => .ok .invalid
          | some row => .ok (.value row)

/-- The row of a related field is in the table, under the key the value is converted to. -/
theorem related_eq_value {ρ : Type} {fields : Fields} {key : ρ → Nat} {rows : List ρ} {data : Data}
    {name : String} {row : ρ} (found : related fields key rows data name = .ok (.value row)) :
    row ∈ rows ∧ ∃ json, data.get? name = .ok (some json) ∧
      lookupKey fields.integerOfText json = .ok (some (key row : Int)) := by
  rw [related] at found
  split at found
  · cases found
  · cases found
  · rename_i json has
    split at found
    · cases found
    · cases found
    · cases found
    · rename_i number converted
      split at found
      · cases found
      · rename_i row' isFound
        cases found
        have equal := List.find?_some isFound
        have same : some (key row : Int) = number := of_decide_eq_true equal
        exact ⟨List.mem_of_find?_eq_some isFound, json, has, by rw [converted, same]⟩

/-! ### Requests -/

/-- An HTTP method. -/
inductive Method
  | get
  | head
  | options
  | post
  | put
  | patch
  | delete
  | trace
  | other (name : String)
  deriving DecidableEq

/-- `SAFE_METHODS`. -/
def Method.safe : Method → Bool
  | .get | .head | .options => true
  | _ => false

/-- A media range of an `Accept` header: its two parts, and the names of its parameters. -/
structure MediaRange where
  mainType : String
  subType : String
  params : List String
  deriving DecidableEq

/-- The default renderers. -/
inductive Renderer
  | json
  | browsable
  deriving DecidableEq

/-- What a copy of a request finds in a body that has been read before: nothing, or something fails. -/
inductive Drained
  | empty
  | malformed (status : Nat)
  | unreadable (error : PyError)
  deriving DecidableEq

/-- `request.data` of such a copy. -/
def Drained.data : Drained → Data
  | .empty => .form []
  | .malformed status => .malformed status
  | .unreadable error => .unreadable error

/-- A request that has reached a view: `id`, `pk` and `format` are the arguments of the URL, `accept` the
ranges of its `Accept` header (`*/*` without one), and `data` and `drained` what its body yields to the
first and to every later reader. -/
structure Request (υ : Type) where
  method : Method
  user : Option υ
  id : Option String
  pk : Option String
  format : Option String
  query : List (String × String)
  accept : List MediaRange
  data : Data
  drained : Drained

/-- A response. -/
structure Response (β : Type) where
  status : Nat
  body : Option β
  deriving DecidableEq

/-- `has_permission`. -/
abbrev Permission (δ υ : Type) := Request υ → δ → Except Failure Bool

/-- A handler: the database after it, and how it ends. -/
abbrev Handler (δ υ β : Type) := Request υ → δ → δ × Except Failure (Response β)

/-- The fields of a serializer in a form: the options of its related fields, and the names of the fields
that show the value posted last. -/
structure FormFields (δ : Type) where
  choices : δ → List (List (Nat × String))
  repeated : List String

/-- A view set bound to a route. -/
structure View (δ υ β : Type) where
  permissionClasses : List (Permission δ υ)
  actions : List (Method × Handler δ υ β)
  /-- Its serializer in a form, if it has one, which the answer to `OPTIONS` describes too. -/
  serializer : Option (FormFields δ)

variable {δ υ β ρ ν : Type}

/-! ### Content negotiation -/

/-- The value of a query parameter. -/
def queryParam (request : Request υ) (name : String) : Option String :=
  request.query.reverse.lookup name

/-- `media_type_matches`, of a renderer without parameters in its own type. -/
def MediaRange.covers (range : MediaRange) (renderer : Renderer) : Bool :=
  let (mainType, subType) := match renderer with
    | .json => ("application", "json")
    | .browsable => ("text", "html")
  (range.subType = "*" ∨ range.subType = subType) ∧ (range.mainType = "*" ∨ range.mainType = mainType)

/-- `_MediaType.precedence`. -/
def MediaRange.precedence (range : MediaRange) : Nat :=
  if range.mainType = "*" then 0
  else if range.subType = "*" then 1
  else if range.params = [] ∨ range.params = ["q"] then 2
  else 3

/-- `filter_renderers`: the renderers of a format in the URL or the query. -/
def renderersOf (format : Option String) : Except Nat (List Renderer) :=
  match format with
  | none | some "" => .ok [.json, .browsable]
  | some "json" => .ok [.json]
  | some "api" => .ok [.browsable]
  | some _ => .error 404

/-- `DefaultContentNegotiation.select_renderer`: the first renderer that the most specific ranges cover, or
the status of the refusal. -/
def selectRenderer (request : Request υ) : Except Nat Renderer :=
  match renderersOf (request.format <|> queryParam request "format") with
  | .error status => .error status
  | .ok renderers =>
      match [3, 2, 1, 0].findSome? fun precedence => renderers.find? fun renderer =>
          request.accept.any fun range => range.precedence = precedence && range.covers renderer with
      | none => .error 406
      | some renderer => .ok renderer

/-- The status with which content negotiation refuses a request. -/
def Request.refused (request : Request υ) : Option Nat :=
  match selectRenderer request with
  | .error status => some status
  | .ok _ => none

theorem selectRenderer_eq_error {request : Request υ} {status : Nat}
    (refused : selectRenderer request = .error status) : status = 404 ∨ status = 406 := by
  unfold selectRenderer at refused
  split at refused
  · rename_i unknown
    unfold renderersOf at unknown
    split at unknown <;> cases unknown
    cases refused
    exact .inl rfl
  · split at refused
    · cases refused
      exact .inr rfl
    · cases refused

/-! ### Views -/

/-- `check_permissions`. -/
def checkPermissions : List (Permission δ υ) → Request υ → δ → Except Failure Unit
  | [], _, _ => .ok ()
  | permission :: rest, request, db =>
      match permission request db with
      | .error failure => .error failure
      | .ok false => .error (.api 403)
      | .ok true => checkPermissions rest request db

/-- `http_method_not_allowed`. -/
def methodNotAllowed : Handler δ υ β := fun _ db => (db, .error (.api 405))

/-- `options`: the metadata checks the permissions of the `POST` it describes. -/
def View.options (view : View δ υ β) : Handler δ υ β := fun request db =>
  if view.serializer.isSome && (view.actions.lookup .post).isSome then
    match checkPermissions view.permissionClasses { request with method := .post } db with
    | .error (.escaped error) => (db, .error (.escaped error))
    | _ => (db, .ok ⟨200, none⟩)
  else (db, .ok ⟨200, none⟩)

/-- The handler of a method; `HEAD` is served as `GET`. -/
def View.handler (view : View δ υ β) : Method → Handler δ υ β
  | .options => view.options
  | .head => (view.actions.lookup .get).getD methodNotAllowed
  | method => (view.actions.lookup method).getD methodNotAllowed

/-- `dispatch`. -/
def View.dispatch (view : View δ υ β) : Handler δ υ β := fun request db =>
  match request.refused with
  | some status => (db, .error (.api status))
  | none =>
      match checkPermissions view.permissionClasses request db with
      | .error failure => (db, .error failure)
      | .ok () => view.handler request.method request db

/-- Every permission class grants the request. -/
def View.Granted (view : View δ υ β) (request : Request υ) (db : δ) : Prop :=
  ∀ permission ∈ view.permissionClasses, permission request db = .ok true

theorem checkPermissions_eq_ok {permissions : List (Permission δ υ)} {request : Request υ} {db : δ} :
    checkPermissions permissions request db = .ok () ↔
      ∀ permission ∈ permissions, permission request db = .ok true := by
  induction permissions with
  | nil => simp [checkPermissions]
  | cons permission rest ih =>
      rw [checkPermissions, List.forall_mem_cons, ← ih]
      cases permission request db with
      | error failure => simp
      | ok granted => cases granted <;> simp

theorem checkPermissions_agree {permissions : List (Permission δ υ)} {request : Request υ}
    {first second : δ}
    (alike : ∀ permission ∈ permissions, permission request first = permission request second) :
    checkPermissions permissions request first = checkPermissions permissions request second := by
  induction permissions with
  | nil => rfl
  | cons permission rest ih =>
      have head := alike permission List.mem_cons_self
      have tail := ih fun other member => alike other (List.mem_cons_of_mem permission member)
      unfold checkPermissions
      rw [head, tail]

theorem View.options_fst (view : View δ υ β) (request : Request υ) (db : δ) :
    (view.options request db).1 = db := by
  rw [View.options]
  split
  · split <;> rfl
  · rfl

/-- **What a request preserves.** A property of the state before it and of the state after every
action that serves its method, once all permission classes have granted it. -/
theorem View.dispatch_holds {view : View δ υ β} {request : Request υ} {db : δ} {holds : δ → Prop}
    (before : holds db)
    (acts : view.Granted request db → ∀ method action, (method, action) ∈ view.actions →
      request.method = method ∨ request.method = .head ∧ method = .get →
      holds (action request db).1) :
    holds (view.dispatch request db).1 := by
  rw [View.dispatch]
  split
  · exact before
  · split
    · exact before
    · rename_i granted
      have acts := acts (checkPermissions_eq_ok.mp granted)
      have looked : ∀ method, request.method = method ∨ request.method = .head ∧ method = .get →
          holds (((view.actions.lookup method).getD methodNotAllowed) request db).1 := by
        intro method serves
        cases found : view.actions.lookup method with
        | none => exact before
        | some action =>
            obtain ⟨earlier, later, split, -⟩ := List.lookup_eq_some_iff.mp found
            have member : (method, action) ∈ view.actions := by
              rw [split]
              exact List.mem_append_right _ List.mem_cons_self
            exact acts method action member serves
      cases named : request.method with
      | options =>
          rw [View.handler, View.options_fst]
          exact before
      | head => exact looked .get (.inr ⟨named, rfl⟩)
      | _ => exact looked _ (.inl named)

/-- **What a request does not depend on.** Where the permission classes answer alike in two states,
and the handler of the method does so once they grant the request, so does the view. -/
theorem View.dispatch_agree {view : View δ υ β} {request : Request υ} {first second : δ}
    (permissions : ∀ permission ∈ view.permissionClasses,
      permission request first = permission request second)
    (handlers : view.Granted request first →
      (view.handler request.method request first).2 =
        (view.handler request.method request second).2) :
    (view.dispatch request first).2 = (view.dispatch request second).2 := by
  have alike := checkPermissions_agree permissions
  unfold View.dispatch
  split
  · rfl
  · rw [← alike]
    split
    · rfl
    · rename_i granted
      exact handlers (checkPermissions_eq_ok.mp granted)

/-! ### Generic handlers -/

/-- `get`: the one row of a query. -/
def getOne : List ρ → Except PyError ρ
  | [] => .error .doesNotExist
  | [row] => .ok row
  | _ => .error .multipleObjectsReturned

/-- `get_object_or_404`. -/
def getOr404 : List ρ → Except Failure ρ
  | [] => .error (.api 404)
  | [row] => .ok row
  | _ => .error (.escaped .multipleObjectsReturned)

/-- A handler that only reads. -/
def read (answer : Request υ → δ → Except Failure (Response β)) : Handler δ υ β :=
  fun request db => (db, answer request db)

/-- `CreateModelMixin.create`. -/
def create (validate : Request υ → δ → Except Failure ν) (save : ν → δ → Except Failure (δ × β)) :
    Handler δ υ β := fun request db =>
  match validate request db with
  | .error failure => (db, .error failure)
  | .ok validated =>
      match save validated db with
      | .error failure => (db, .error failure)
      | .ok (after, body) => (after, .ok ⟨201, some body⟩)

/-- `UpdateModelMixin.partial_update`. -/
def partialUpdate (getObject : Request υ → δ → Except Failure ρ)
    (validate : Request υ → ρ → δ → Except Failure ν) (update : ρ → ν → δ → Except Failure (δ × β)) :
    Handler δ υ β := fun request db =>
  match getObject request db with
  | .error failure => (db, .error failure)
  | .ok row =>
      match validate request row db with
      | .error failure => (db, .error failure)
      | .ok validated =>
          match update row validated db with
          | .error failure => (db, .error failure)
          | .ok (after, body) => (after, .ok ⟨200, some body⟩)

/-- `DestroyModelMixin.destroy`. -/
def destroy (getObject : Request υ → δ → Except Failure ρ) (delete : ρ → δ → δ) : Handler δ υ β :=
  fun request db =>
    match getObject request db with
    | .error failure => (db, .error failure)
    | .ok row => (delete row db, .ok ⟨204, none⟩)

section Handlers

variable {request : Request υ} {db : δ}

theorem mem_of_getOr404 {rows : List ρ} {row : ρ} (found : getOr404 rows = .ok row) : row ∈ rows := by
  match rows, found with
  | [_], found => exact List.mem_singleton.mpr (Except.ok.inj found).symm

theorem mem_of_getOne {rows : List ρ} {row : ρ} (found : getOne rows = .ok row) : row ∈ rows := by
  match rows, found with
  | [_], found => exact List.mem_singleton.mpr (Except.ok.inj found).symm

theorem create_fst {validate : Request υ → δ → Except Failure ν}
    {save : ν → δ → Except Failure (δ × β)} :
    (create validate save request db).1 = db ∨ ∃ validated after body,
      validate request db = .ok validated ∧ save validated db = .ok (after, body) ∧
        (create validate save request db).1 = after := by
  rw [create]
  cases valid : validate request db with
  | error failure => exact .inl rfl
  | ok validated =>
      cases saved : save validated db with
      | error failure => exact .inl (by simp only [saved])
      | ok pair => exact .inr ⟨validated, pair.1, pair.2, rfl, saved, by simp only [saved]⟩

theorem partialUpdate_fst {getObject : Request υ → δ → Except Failure ρ}
    {validate : Request υ → ρ → δ → Except Failure ν}
    {update : ρ → ν → δ → Except Failure (δ × β)} :
    (partialUpdate getObject validate update request db).1 = db ∨ ∃ row validated after body,
      getObject request db = .ok row ∧ validate request row db = .ok validated ∧
        update row validated db = .ok (after, body) ∧
        (partialUpdate getObject validate update request db).1 = after := by
  rw [partialUpdate]
  cases got : getObject request db with
  | error failure => exact .inl rfl
  | ok row =>
      cases valid : validate request row db with
      | error failure => exact .inl (by simp only [valid])
      | ok validated =>
          cases saved : update row validated db with
          | error failure => exact .inl (by simp only [valid, saved])
          | ok pair =>
              exact .inr ⟨row, validated, pair.1, pair.2, rfl, valid, saved,
                by simp only [valid, saved]⟩

theorem destroy_fst {getObject : Request υ → δ → Except Failure ρ} {delete : ρ → δ → δ} :
    ((destroy getObject delete : Handler δ υ β) request db).1 = db ∨ ∃ row,
      getObject request db = .ok row ∧
        ((destroy getObject delete : Handler δ υ β) request db).1 = delete row db := by
  rw [destroy]
  cases got : getObject request db with
  | error failure => exact .inl rfl
  | ok row => exact .inr ⟨row, rfl, rfl⟩

end Handlers

end Rest
