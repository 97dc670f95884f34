/-
**How requests to view sets end.**

* `Fine`, `WellServed` — a value or a refusal; a success, or a refusal that leaves the state.
* `Raises` — an outcome that fails only with exceptions.
* `wellServed_create`, `wellServed_partialUpdate`, … — when the generic handlers serve a request well.
* `Passes` — what the permission classes leave of a property of the handler.
* `View.wellServed_dispatch` — a view serves a request well exactly if the classes and then the handler
  of the method do so.
-/

import Esloq.Lib.Rest

namespace Rest

variable {δ υ β ρ ν : Type}

/-! ### Outcomes -/

/-- A refusal with a status of the client. -/
def Failure.Refuses : Failure → Prop
  | .api status => 400 ≤ status ∧ status < 500
  | .escaped _ => False

/-- A value, or a refusal. -/
def Fine {α : Type} (outcome : Except Failure α) : Prop :=
  ∀ failure, outcome = .error failure → failure.Refuses

/-- Every failure is an exception that leaves the view. -/
def Raises {α : Type} (outcome : Except Failure α) : Prop := ∀ status, outcome ≠ .error (.api status)

/-- No exception leaves the view. -/
def Calm {α : Type} (outcome : Except Failure α) : Prop := ∀ error, outcome ≠ .error (.escaped error)

/-- A status of success, or a refusal that leaves the state. -/
def WellServed (before : δ) (result : δ × Except Failure (Response β)) : Prop :=
  match result.2 with
  | .ok response => 200 ≤ response.status ∧ response.status < 300
  | .error failure => failure.Refuses ∧ result.1 = before

/-- What the permission classes leave of a property of the handler: it has to hold where all grant the
request; where one of them fails, it has to refuse. -/
def Passes : List (Permission δ υ) → Request υ → δ → Prop → Prop
  | [], _, _, served => served
  | permission :: rest, request, db, served =>
      Fine (permission request db) ∧ (permission request db = .ok true → Passes rest request db served)

/-- The conversion of a field raises. -/
def Entry.Fails {α : Type} (entry : Entry α) : Prop := ∃ error, entry = .raises error

theorem Entry.read_eq_ok {α : Type} {entry read : Entry α} :
    entry.read = .ok read ↔ read = entry ∧ ¬ entry.Fails := by
  cases entry with
  | raises error =>
      refine iff_of_false (fun same => ?_) fun both => both.2 ⟨error, rfl⟩
      cases same
  | _ =>
      refine ⟨fun same => ⟨(Except.ok.inj same).symm, ?_⟩, fun both => congrArg Except.ok both.1.symm⟩
      rintro ⟨_, ⟨⟩⟩

/-- A field that is converted and valid, and its value. -/
def Entry.Given {α : Type} (entry : Entry α) (value : Option α) : Prop :=
  ¬ entry.Fails ∧ entry ≠ .invalid ∧ value = entry.given

/-- A field that is converted and valid has no value where it is absent. -/
theorem Entry.Given.eq_none {α : Type} {entry : Entry α} {value : Option α} (given : entry.Given value) :
    value = none ↔ entry = .absent := by
  obtain ⟨converts, valid, rfl⟩ := given
  cases entry with
  | invalid => exact absurd rfl valid
  | absent => exact iff_of_true rfl rfl
  | value a => exact iff_of_false (Option.some_ne_none a) fun same => by cases same
  | raises error => exact absurd ⟨error, rfl⟩ converts

theorem Entry.given_absent {α : Type} {entry : Entry α} (absent : entry = .absent) : entry.Given none := by
  subst absent
  refine ⟨?_, fun same => ?_, rfl⟩
  · rintro ⟨_, ⟨⟩⟩
  · cases same

section Served

variable {request : Request υ} {db : δ}

theorem fine_ok {α : Type} (value : α) : Fine (.ok value : Except Failure α) := by
  intro failure failed
  cases failed

theorem fine_error {α : Type} {failure : Failure} :
    Fine (.error failure : Except Failure α) ↔ failure.Refuses :=
  ⟨fun fine => fine failure rfl, fun refuses _ same => Except.error.inj same ▸ refuses⟩

theorem fine_read {α : Type} {entry : Entry α} : Fine entry.read ↔ ¬ entry.Fails := by
  cases entry with
  | raises error => exact iff_of_false (fun fine => fine_error.mp fine) fun converts => converts ⟨error, rfl⟩
  | _ => exact iff_of_true (fine_ok _) (by rintro ⟨_, ⟨⟩⟩)

theorem fine_bind {α γ : Type} {first : Except Failure α} {next : α → Except Failure γ} :
    Fine (first >>= next) ↔ Fine first ∧ ∀ value, first = .ok value → Fine (next value) := by
  cases first with
  | error failure =>
      refine ⟨fun fine => ⟨fine_error.mpr (fine failure rfl), fun _ ok => by cases ok⟩, fun fine => ?_⟩
      exact fine_error.mpr (fine_error.mp fine.1)
  | ok value =>
      refine ⟨fun fine => ⟨fine_ok value, fun _ same => Except.ok.inj same ▸ fine⟩, fun fine => ?_⟩
      exact fine.2 value rfl

/-- A field is read, and the rest goes on with its entry. -/
theorem fine_read_bind {α γ : Type} {entry : Entry α} {next : Entry α → Except Failure γ} :
    Fine (entry.read >>= next) ↔ ¬ entry.Fails ∧ Fine (next entry) := by
  rw [fine_bind, fine_read]
  refine and_congr_right fun converts => ⟨fun every => ?_, fun fine read same => ?_⟩
  · exact every entry (Entry.read_eq_ok.mpr ⟨rfl, converts⟩)
  · rw [(Entry.read_eq_ok.mp same).1]
    exact fine

theorem read_bind_eq_ok {α γ : Type} {entry : Entry α} {next : Entry α → Except Failure γ} {result : γ} :
    entry.read >>= next = .ok result ↔ ¬ entry.Fails ∧ next entry = .ok result := by
  rw [bind_eq_ok]
  constructor
  · rintro ⟨read, same, ok⟩
    obtain ⟨rfl, converts⟩ := Entry.read_eq_ok.mp same
    exact ⟨converts, ok⟩
  · rintro ⟨converts, ok⟩
    exact ⟨entry, Entry.read_eq_ok.mpr ⟨rfl, converts⟩, ok⟩

theorem fine_map {α γ : Type} {outcome : Except Failure α} {f : α → γ} :
    Fine (outcome.map f) ↔ Fine outcome := by
  cases outcome with
  | error failure => exact fine_error.trans fine_error.symm
  | ok value => exact iff_of_true (fine_ok _) (fine_ok _)

theorem raises_ok {α : Type} (value : α) : Raises (.ok value : Except Failure α) := by
  intro status failed
  cases failed

theorem raises_escaped {α : Type} (error : PyError) :
    Raises (.error (.escaped error) : Except Failure α) := by
  intro status failed
  cases failed

theorem raises_mapError {α : Type} (outcome : Except PyError α) : Raises (outcome.mapError .escaped) := by
  cases outcome with
  | error error => exact raises_escaped error
  | ok value => exact raises_ok value

theorem Raises.bind {α γ : Type} {first : Except Failure α} {next : α → Except Failure γ}
    (raises : Raises first) (later : ∀ value, first = .ok value → Raises (next value)) :
    Raises (first >>= next) := by
  cases first with
  | error failure =>
      rintro status ⟨⟩
      exact raises status rfl
  | ok value => exact later value rfl

theorem Raises.map {α γ : Type} {outcome : Except Failure α} {f : α → γ} (raises : Raises outcome) :
    Raises (outcome.map f) := by
  cases outcome with
  | error failure =>
      rintro status ⟨⟩
      exact raises status rfl
  | ok value => exact raises_ok _

theorem raises_encode (text : Text) : Raises text.encode := by
  cases text with
  | encoded text => exact raises_ok text
  | surrogates => exact raises_escaped .unicodeEncodeError

/-- What fails only with exceptions is fine if it does not fail. -/
theorem Raises.fine_iff {α : Type} {outcome : Except Failure α} (raises : Raises outcome) :
    Fine outcome ↔ ∃ value, outcome = .ok value := by
  cases outcome with
  | ok value => exact iff_of_true (fine_ok value) ⟨value, rfl⟩
  | error failure =>
      cases failure with
      | api status => exact absurd rfl (raises status)
      | escaped error =>
          refine iff_of_false (fun fine => fine_error.mp fine) ?_
          rintro ⟨_, ⟨⟩⟩

/-- Of rows that are all the same and do not repeat there is none or one. -/
theorem getOr404_cases {rows : List ρ} (nodup : rows.Nodup)
    (alike : ∀ first ∈ rows, ∀ second ∈ rows, first = second) :
    rows = [] ∧ getOr404 rows = .error (.api 404) ∨ ∃ row ∈ rows, getOr404 rows = .ok row := by
  match rows, nodup, alike with
  | [], _, _ => exact .inl ⟨rfl, rfl⟩
  | [row], _, _ => exact .inr ⟨row, List.mem_singleton_self row, rfl⟩
  | first :: second :: rest, nodup, alike =>
      have same : first = second := alike first List.mem_cons_self second (by simp)
      simp [same] at nodup

theorem fine_getOr404 {rows : List ρ} (nodup : rows.Nodup)
    (alike : ∀ first ∈ rows, ∀ second ∈ rows, first = second) : Fine (getOr404 rows) := by
  rcases getOr404_cases nodup alike with ⟨-, missing⟩ | ⟨row, -, found⟩
  · rw [missing]
    exact fine_error.mpr ⟨Nat.le_of_ble_eq_true rfl, Nat.le_of_ble_eq_true rfl⟩
  · rw [found]
    exact fine_ok row

theorem wellServed_error {failure : Failure} :
    WellServed db ((db, .error failure) : δ × Except Failure (Response β)) ↔ failure.Refuses :=
  and_iff_left rfl

theorem wellServed_read {α : Type} {outcome : Except Failure α} {show' : α → β} :
    WellServed db (db, outcome.map fun value => ⟨200, some (show' value)⟩) ↔ Fine outcome := by
  cases outcome with
  | error failure => exact wellServed_error.trans fine_error.symm
  | ok value => exact iff_of_true ⟨Nat.le_refl _, Nat.lt_of_sub_eq_succ rfl⟩ (fine_ok _)

theorem wellServed_methodNotAllowed :
    WellServed db ((methodNotAllowed : Handler δ υ β) request db) :=
  wellServed_error.mpr ⟨Nat.le_of_ble_eq_true rfl, Nat.le_of_ble_eq_true rfl⟩

theorem wellServed_create {validate : Request υ → δ → Except Failure ν}
    {save : ν → δ → Except Failure (δ × β)} :
    WellServed db (create validate save request db) ↔
      Fine (validate request db) ∧ ∀ new, validate request db = .ok new → Fine (save new db) := by
  unfold create
  cases validate request db with
  | error failure =>
      refine wellServed_error.trans (fine_error.symm.trans (and_iff_left fun _ ok => ?_).symm)
      cases ok
  | ok new =>
      have only : (∀ other, (.ok new : Except Failure ν) = .ok other → Fine (save other db)) ↔
          Fine (save new db) := ⟨fun every => every new rfl, fun fine _ same => Except.ok.inj same ▸ fine⟩
      rw [only, and_iff_right (fine_ok new)]
      cases saved : save new db with
      | error failure =>
          simp only [saved]
          exact wellServed_error.trans fine_error.symm
      | ok pair =>
          simp only [saved]
          exact iff_of_true ⟨Nat.le_of_ble_eq_true rfl, Nat.le_of_ble_eq_true rfl⟩ (fine_ok pair)

theorem wellServed_partialUpdate {getObject : Request υ → δ → Except Failure ρ}
    {validate : Request υ → ρ → δ → Except Failure ν} {update : ρ → ν → δ → Except Failure (δ × β)} :
    WellServed db (partialUpdate getObject validate update request db) ↔
      Fine (getObject request db) ∧
        ∀ row, getObject request db = .ok row → Fine (validate request row db) ∧
          ∀ new, validate request row db = .ok new → Fine (update row new db) := by
  unfold partialUpdate
  cases getObject request db with
  | error failure =>
      refine wellServed_error.trans (fine_error.symm.trans (and_iff_left fun _ ok => ?_).symm)
      cases ok
  | ok row =>
      rw [and_iff_right (fine_ok row)]
      simp only [Except.ok.injEq, forall_eq']
      cases validate request row db with
      | error failure =>
          refine wellServed_error.trans (fine_error.symm.trans (and_iff_left fun _ ok => ?_).symm)
          cases ok
      | ok new =>
          rw [and_iff_right (fine_ok new)]
          simp only [Except.ok.injEq, forall_eq']
          cases update row new db with
          | error failure => exact wellServed_error.trans fine_error.symm
          | ok pair => exact iff_of_true ⟨Nat.le_refl _, Nat.le_of_ble_eq_true rfl⟩ (fine_ok pair)

theorem wellServed_destroy {getObject : Request υ → δ → Except Failure ρ} {delete : ρ → δ → δ} :
    WellServed db ((destroy getObject delete : Handler δ υ β) request db) ↔ Fine (getObject request db) := by
  unfold destroy
  cases getObject request db with
  | error failure => exact wellServed_error.trans fine_error.symm
  | ok row => exact iff_of_true ⟨Nat.le_of_ble_eq_true rfl, Nat.le_of_ble_eq_true rfl⟩ (fine_ok row)

/-- What the classes leave of a property is what their check leaves of it. -/
theorem passes_iff {permissions : List (Permission δ υ)} {served : Prop} :
    Passes permissions request db served ↔ Fine (checkPermissions permissions request db) ∧
      (checkPermissions permissions request db = .ok () → served) := by
  induction permissions with
  | nil => exact ⟨fun holds => ⟨fine_ok (), fun _ => holds⟩, fun holds => holds.2 rfl⟩
  | cons permission rest later =>
      unfold checkPermissions Passes
      cases permission request db with
      | error failure =>
          refine and_congr (fine_error.trans fine_error.symm) (iff_of_true ?_ ?_)
          · rintro ⟨⟩
          · rintro ⟨⟩
      | ok granted =>
          rw [and_iff_right (fine_ok granted)]
          cases granted with
          | false =>
              refine iff_of_true ?_ ⟨fine_error.mpr ?_, ?_⟩
              · rintro ⟨⟩
              · exact ⟨Nat.le_of_ble_eq_true rfl, Nat.le_of_ble_eq_true rfl⟩
              · rintro ⟨⟩
          | true => exact (imp_iff_right rfl).trans later

theorem calm_ok {α : Type} (value : α) : Calm (.ok value : Except Failure α) := by
  intro error failed
  cases failed

theorem calm_error {α : Type} {failure : Failure} :
    Calm (.error failure : Except Failure α) ↔ ∀ error, failure ≠ .escaped error :=
  forall_congr' fun _ => not_congr ⟨Except.error.inj, congrArg Except.error⟩

theorem calm_api {α : Type} (status : Nat) : Calm (.error (.api status) : Except Failure α) := by
  intro error failed
  cases failed

theorem Fine.calm {α : Type} {outcome : Except Failure α} (fine : Fine outcome) : Calm outcome :=
  fun error failed => fine (.escaped error) failed

/-- What fails only with exceptions is calm if it does not fail. -/
theorem Raises.calm_iff {α : Type} {outcome : Except Failure α} (raises : Raises outcome) :
    Calm outcome ↔ Fine outcome := by
  refine ⟨fun calm failure failed => ?_, Fine.calm⟩
  cases failure with
  | api status => exact absurd failed (raises status)
  | escaped error => exact absurd failed (calm error)

theorem calm_map {α γ : Type} {outcome : Except Failure α} {f : α → γ} :
    Calm (outcome.map f) ↔ Calm outcome := by
  cases outcome with
  | error failure => exact calm_error.trans calm_error.symm
  | ok value => exact iff_of_true (calm_ok _) (calm_ok _)

theorem calm_checkPermissions_cons {permission : Permission δ υ} {rest : List (Permission δ υ)} :
    Calm (checkPermissions (permission :: rest) request db) ↔ Calm (permission request db) ∧
      (permission request db = .ok true → Calm (checkPermissions rest request db)) := by
  rw [checkPermissions]
  cases permission request db with
  | error failure =>
      refine calm_error.trans (calm_error.symm.trans (and_iff_left fun ok => ?_).symm)
      cases ok
  | ok granted =>
      rw [and_iff_right (calm_ok granted)]
      cases granted with
      | false => exact iff_of_true (calm_api 403) fun ok => by cases ok
      | true => exact (imp_iff_right rfl).symm

theorem calm_checkPermissions {permissions : List (Permission δ υ)}
    (calm : ∀ permission ∈ permissions, Calm (permission request db)) :
    Calm (checkPermissions permissions request db) := by
  induction permissions with
  | nil => exact calm_ok ()
  | cons permission rest ih =>
      rw [List.forall_mem_cons] at calm
      exact calm_checkPermissions_cons.mpr ⟨calm.1, fun _ => ih calm.2⟩

/-- The answer to `OPTIONS`. -/
theorem View.wellServed_options {view : View δ υ β} :
    WellServed db (view.options request db) ↔
      ((view.serializer.isSome && (view.actions.lookup .post).isSome) = true →
        Calm (checkPermissions view.permissionClasses { request with method := .post } db)) := by
  have plain : WellServed db ((db, .ok ⟨200, none⟩) : δ × Except Failure (Response β)) :=
    ⟨Nat.le_refl _, Nat.le_of_ble_eq_true rfl⟩
  unfold View.options
  by_cases posts : (view.serializer.isSome && (view.actions.lookup .post).isSome) = true
  · rw [if_pos posts, imp_iff_right posts]
    cases checkPermissions view.permissionClasses { request with method := .post } db with
    | ok granted => exact iff_of_true plain (calm_ok granted)
    | error failure =>
        cases failure with
        | api status => exact iff_of_true plain (calm_api status)
        | escaped error => exact iff_of_false (fun served => served.1) fun never => never error rfl
  · rw [if_neg posts]
    exact iff_of_true plain fun served => absurd served posts

/-- A view without a `POST` is described without a check. -/
theorem View.wellServed_options_of_plain {view : View δ υ β}
    (plain : (view.serializer.isSome && (view.actions.lookup .post).isSome) = false) :
    WellServed db (view.options request db) := by
  unfold View.options
  rw [plain, if_neg Bool.false_ne_true]
  exact ⟨Nat.le_refl _, Nat.le_of_ble_eq_true rfl⟩

/-- A handler of a method that need not be served. -/
theorem wellServed_getD {action : Option (Handler δ υ β)} :
    WellServed db (action.getD methodNotAllowed request db) ↔
      ∀ handler, action = some handler → WellServed db (handler request db) := by
  cases action with
  | none =>
      refine iff_of_true (@wellServed_methodNotAllowed δ υ β request db) fun _ same => ?_
      cases same
  | some handler =>
      exact ⟨fun served _ same => Option.some.inj same ▸ served, fun every => every handler rfl⟩

/-- The view has one action for each of its methods, which are neither `HEAD` nor `OPTIONS`. -/
def View.Regular (view : View δ υ β) : Prop :=
  (view.actions.map Prod.fst).Nodup ∧
    .options ∉ view.actions.map Prod.fst ∧ .head ∉ view.actions.map Prod.fst

theorem View.Regular.of_methods {view : View δ υ β} (methods : List Method)
    (same : view.actions.map Prod.fst = methods)
    (regular : methods.Nodup ∧ .options ∉ methods ∧ .head ∉ methods) : view.Regular := by
  rw [View.Regular, same]
  exact regular

theorem View.Regular.lookup {view : View δ υ β} (regular : view.Regular) {method : Method}
    {action : Handler δ υ β} :
    view.actions.lookup method = some action ↔ (method, action) ∈ view.actions := by
  have distinct := regular.1
  generalize view.actions = actions at distinct ⊢
  clear regular
  induction actions with
  | nil => exact iff_of_false (fun found => by cases found) List.not_mem_nil
  | cons pair rest later =>
      obtain ⟨first, handler⟩ := pair
      rw [List.map_cons, List.nodup_cons] at distinct
      rw [List.mem_cons, Prod.mk.injEq]
      by_cases same : method = first
      · subst same
        rw [List.lookup_cons_self, Option.some.injEq]
        refine ⟨fun same => .inl ⟨rfl, same.symm⟩, fun either => either.elim (·.2.symm) fun member => ?_⟩
        exact absurd (List.mem_map_of_mem member) distinct.1
      · rw [List.lookup_cons, beq_eq_false_iff_ne.mpr same]
        exact (later distinct.2).trans (or_iff_right fun both => same both.1).symm

/-- The handler of a method is the metadata, or the action that serves it. -/
theorem View.wellServed_handler {view : View δ υ β} (regular : view.Regular) :
    WellServed db (view.handler request.method request db) ↔
      (request.method = .options → WellServed db (view.options request db)) ∧
        ∀ pair ∈ view.actions, request.method = pair.1 ∨ request.method = .head ∧ pair.1 = .get →
          WellServed db (pair.2 request db) := by
  have looked : ∀ method, (∀ action, view.actions.lookup method = some action →
      WellServed db (action request db)) ↔ ∀ pair ∈ view.actions, method = pair.1 →
        WellServed db (pair.2 request db) := by
    intro method
    refine ⟨fun served pair member same => ?_, fun served action found => ?_⟩
    · exact served pair.2 (regular.lookup.mpr (same ▸ member))
    · exact served (method, action) (regular.lookup.mp found) rfl
  by_cases options : request.method = .options
  · rw [options, View.handler, imp_iff_right rfl]
    refine (and_iff_left fun pair member serves => ?_).symm
    rcases serves with same | ⟨head, -⟩
    · exact absurd (same ▸ List.mem_map_of_mem member) regular.2.1
    · cases head
  · rw [and_iff_right fun same => absurd same options]
    by_cases head : request.method = .head
    · rw [head, View.handler, wellServed_getD, looked]
      refine forall₂_congr fun pair member => imp_congr_left ?_
      have other : Method.head ≠ pair.1 := fun same => regular.2.2 (same ▸ List.mem_map_of_mem member)
      rw [or_iff_right other, and_iff_right rfl]
      exact eq_comm
    · rw [View.handler.eq_3 view _ options head, wellServed_getD, looked]
      refine forall₂_congr fun pair member => imp_congr_left ?_
      exact (or_iff_left fun both => head both.1).symm

/-- The handler of a view that reads, and acts on one other method. -/
theorem View.wellServed_handler_get {view : View δ υ β} {reads acts : Handler δ υ β} {method : Method}
    (regular : view.Regular) (actions : view.actions = [(.get, reads), (method, acts)]) :
    WellServed db (view.handler request.method request db) ↔
      (request.method = .options → WellServed db (view.options request db)) ∧
        (request.method = .get ∨ request.method = .head → WellServed db (reads request db)) ∧
          (request.method = method → WellServed db (acts request db)) := by
  have other : method ≠ .get := by
    have distinct := regular.1
    rw [actions] at distinct
    exact fun same => (List.nodup_cons.mp distinct).1 (List.mem_singleton.mpr same.symm)
  rw [View.wellServed_handler regular, actions, List.forall_mem_cons, List.forall_mem_singleton,
    and_iff_left rfl, or_iff_left fun both : request.method = .head ∧ method = .get => other both.2]

/-- **A request that is not refused is served exactly if the permission classes and then the handler of
its method do so.** -/
theorem View.wellServed_dispatch {view : View δ υ β} (accepted : request.refused = none) :
    WellServed db (view.dispatch request db) ↔
      Passes view.permissionClasses request db
        (WellServed db (view.handler request.method request db)) := by
  unfold View.dispatch
  rw [accepted, passes_iff]
  dsimp only
  cases checkPermissions view.permissionClasses request db with
  | error failure =>
      refine wellServed_error.trans (fine_error.symm.trans (and_iff_left ?_).symm)
      rintro ⟨⟩
  | ok checked =>
      rw [and_iff_right (fine_ok checked)]
      exact (imp_iff_right rfl).symm

end Served

end Rest
