/-
**Responses, and the pages of the browsable renderer.**

The renderer that negotiation has chosen runs after the view. The browsable one asks the permission
classes, for each form of its page, whether the caller may send the request of the form.

* `View.showsForm`, `View.shownForms` — the forms of a page.
* `View.browse`, `View.respond` — a page, and what is sent for a request.
* `View.Browses` — when a page is made; `browse_eq_ok`.
* `Replied` — a status of success, or a refusal that leaves the state; `replied_respond`: a request is
  answered exactly if it is well served and its page, if it is to have one, is made.
* `View.respond_agree` — a reply does not depend on what neither the view nor its page depends on.
-/

import Mathlib.Data.List.Basic
import Esloq.Lib.Outcomes

namespace Rest

variable {δ υ β : Type}

/-! ### Forms -/

/-- A form of a page. -/
inductive Form
  | rawPost
  | rawPut
  | rawPatch
  | put
  | post
  | delete
  | options
  deriving DecidableEq

/-- The forms, in the order in which a page is made. -/
def Form.all : List Form := [.rawPost, .rawPut, .rawPatch, .put, .post, .delete, .options]

theorem Form.mem_all (form : Form) : form ∈ Form.all := by
  cases form <;> decide

/-- The method of the request that a form sends. -/
def Form.method : Form → Method
  | .rawPost | .post => .post
  | .rawPut | .put => .put
  | .rawPatch => .patch
  | .delete => .delete
  | .options => .options

/-- The data of a request once it has been read: a body that cannot be parsed counts as an empty form. -/
def Data.loaded : Data → Data
  | .malformed _ | .unreadable _ => .form []
  | data => data

/-- The copy of a request that stands for a form. Only the permissions of a `POST` read the body. A `POST`
hands its copies the data it has read; otherwise the first copy reads the body, unless the answer to
`OPTIONS` has done so. -/
def Request.copyFor (request : Request υ) (form : Form) : Request υ :=
  { request with
    method := form.method
    data :=
      if request.method = .post then request.data.loaded
      else if form = .rawPost ∧ request.method ≠ .options then request.data
      else request.drained.data }

/-- `allowed_methods`. -/
def View.allows (view : View δ υ β) (method : Method) : Bool :=
  method = .options ∨ (view.actions.lookup method).isSome

theorem allows_iff {view : View δ υ β} {method : Method} :
    view.allows method = true ↔ method = .options ∨ method ∈ view.actions.map Prod.fst := by
  rw [View.allows, decide_eq_true_iff, List.lookup_isSome_iff]
  refine or_congr_right ?_
  constructor
  · rintro ⟨pair, member, same⟩
    exact beq_iff_eq.mp same ▸ List.mem_map_of_mem member
  · intro member
    obtain ⟨pair, isAction, rfl⟩ := List.mem_map.mp member
    exact ⟨pair, isAction, beq_self_eq_true _⟩

/-- `show_form_for_method`. -/
def View.showsForm (view : View δ υ β) (request : Request υ) (db : δ) (form : Form) :
    Except PyError Bool :=
  if view.allows form.method then
    match checkPermissions view.permissionClasses (request.copyFor form) db with
    | .ok () => .ok true
    | .error (.api _) => .ok false
    | .error (.escaped error) => .error error
  else .ok false

/-- Those of some forms that are shown. -/
def View.shownForms (view : View δ υ β) (request : Request υ) (db : δ) :
    List Form → Except PyError (List Form)
  | [] => .ok []
  | form :: rest =>
      match view.showsForm request db form with
      | .error error => .error error
      | .ok shows => (view.shownForms request db rest).map fun more => if shows then form :: more else more

/-! ### Replies -/

/-- What a page has beside the response: the forms, and the options of the related fields in them. -/
structure Page where
  forms : List Form
  choices : List (List (Nat × String))
  deriving DecidableEq

/-- What is sent: the response of a handler or the status of a refusal, and the page around it. -/
structure Rendered (β : Type) where
  response : Except Nat (Response β)
  page : Option Page
  deriving DecidableEq

/-- `handle_exception`. -/
def handleException : Except Failure (Response β) → Except PyError (Except Nat (Response β))
  | .ok response => .ok (.ok response)
  | .error (.api status) => .ok (.error status)
  | .error (.escaped error) => .error error

/-- The values of some fields have an encoding. -/
def Data.encodable (data : Data) (names : List String) : Bool :=
  names.all fun name =>
    match data.get? name with
    | .ok (some .surrogates) => false
    | _ => true

/-- The form of a `POST` that the serializer refuses shows what was posted. -/
def View.repeats (view : View δ υ β) (request : Request υ) (forms : List Form) :
    Except Nat (Response β) → List String
  | .error 400 =>
      if request.method = .post ∧ .post ∈ forms then view.serializer.elim [] FormFields.repeated else []
  | _ => []

/-- `BrowsableAPIRenderer.render`: a page has content, so its status is not 204. -/
def View.browse (view : View δ υ β) (request : Request υ) (response : Except Nat (Response β)) (db : δ) :
    Except PyError (Rendered β) :=
  match view.shownForms request db Form.all with
  | .error error => .error error
  | .ok forms =>
      if request.data.encodable (view.repeats request forms response) then .ok {
        response := response.map fun response =>
          { response with status := if response.status = 204 then 200 else response.status }
        page := some ⟨forms, if .put ∈ forms ∨ .post ∈ forms then
          view.serializer.elim [] fun serializer => serializer.choices db else []⟩ }
      else .error .unicodeEncodeError

/-- A response in the renderer that negotiation has chosen. -/
def View.render (view : View δ υ β) (request : Request υ) (db : δ) (response : Except Nat (Response β)) :
    Except PyError (Rendered β) :=
  match selectRenderer request with
  | .ok .browsable => view.browse request response db
  | _ => .ok ⟨response, none⟩

/-- What is sent for a request. -/
def View.respond (view : View δ υ β) (request : Request υ) (db : δ) : δ × Except PyError (Rendered β) :=
  let handled := view.dispatch request db
  (handled.1, handleException handled.2 >>= view.render request handled.1)

section Forms

variable {view : View δ υ β} {request : Request υ} {db : δ}

theorem shownForms_eq_ok {list : List Form} :
    (∃ forms, view.shownForms request db list = .ok forms) ↔
      ∀ form ∈ list, ∃ shows, view.showsForm request db form = .ok shows := by
  induction list with
  | nil => exact iff_of_true ⟨[], rfl⟩ fun _ member => by cases member
  | cons form rest ih =>
      rw [List.forall_mem_cons, ← ih, View.shownForms]
      cases view.showsForm request db form with
      | error error => simp
      | ok shows =>
          rw [and_iff_right ⟨shows, rfl⟩]
          cases view.shownForms request db rest with
          | error error => simp [Except.map]
          | ok more => simp [Except.map]

theorem mem_shownForms {list forms : List Form} (shown : view.shownForms request db list = .ok forms)
    {form : Form} : form ∈ forms ↔ form ∈ list ∧ view.showsForm request db form = .ok true := by
  induction list generalizing forms with
  | nil =>
      cases shown
      simp
  | cons first rest ih =>
      rw [View.shownForms] at shown
      cases shows : view.showsForm request db first with
      | error error =>
          rw [shows] at shown
          cases shown
      | ok isShown =>
          rw [shows] at shown
          cases others : view.shownForms request db rest with
          | error error =>
              rw [others] at shown
              cases shown
          | ok more =>
              rw [others] at shown
              cases shown
              rw [List.mem_cons]
              by_cases same : form = first
              · subst same
                rw [shows]
                cases isShown with
                | true => simp
                | false =>
                    have := ih others
                    simp [this, shows]
              · cases isShown with
                | true => simp [same, ih others]
                | false => simp [same, ih others]

theorem shownForms_agree {first second : δ} {list : List Form}
    (alike : ∀ form ∈ list, view.showsForm request first form = view.showsForm request second form) :
    view.shownForms request first list = view.shownForms request second list := by
  induction list with
  | nil => rfl
  | cons form rest ih =>
      rw [List.forall_mem_cons] at alike
      rw [View.shownForms, View.shownForms, alike.1, ih alike.2]

/-- A form is asked for without an exception. -/
theorem showsForm_eq_ok {form : Form} : (∃ shows, view.showsForm request db form = .ok shows) ↔
    (view.allows form.method = true →
      Calm (checkPermissions view.permissionClasses (request.copyFor form) db)) := by
  rw [View.showsForm]
  by_cases allowed : view.allows form.method = true
  · rw [if_pos allowed, imp_iff_right allowed]
    cases checkPermissions view.permissionClasses (request.copyFor form) db with
    | ok granted => exact iff_of_true ⟨true, rfl⟩ fun _ failed => by cases failed
    | error failure =>
        cases failure with
        | api status => exact iff_of_true ⟨false, rfl⟩ fun _ failed => by cases failed
        | escaped error => exact iff_of_false (by rintro ⟨_, ⟨⟩⟩) fun calm => calm error rfl
  · rw [if_neg allowed]
    exact iff_of_true ⟨false, rfl⟩ fun isAllowed => absurd isAllowed allowed

/-- A form is shown if the classes grant its request. -/
theorem showsForm_eq_true {form : Form} (allowed : view.allows form.method = true) :
    view.showsForm request db form = .ok true ↔
      checkPermissions view.permissionClasses (request.copyFor form) db = .ok () := by
  rw [View.showsForm, if_pos allowed]
  cases checkPermissions view.permissionClasses (request.copyFor form) db with
  | ok granted => exact iff_of_true rfl rfl
  | error failure =>
      cases failure with
      | api status => exact iff_of_false (fun same => by cases same) fun granted => by cases granted
      | escaped error => exact iff_of_false (fun same => by cases same) fun granted => by cases granted

theorem showsForm_of_not_allowed {form : Form} (closed : view.allows form.method = false) (db : δ) :
    view.showsForm request db form = .ok false := by
  rw [View.showsForm, closed, if_neg Bool.false_ne_true]

end Forms

/-! ### When a page is made -/

/-- The page of a response can be made: no form raises, and what the form of a refused `POST` repeats has an
encoding. -/
structure View.Browses (view : View δ υ β) (request : Request υ) (response : Except Nat (Response β))
    (db : δ) : Prop where
  shown : ∀ form, view.allows form.method = true →
    Calm (checkPermissions view.permissionClasses (request.copyFor form) db)
  encoded : response = .error 400 → request.method = .post → view.showsForm request db .post = .ok true →
    request.data.encodable (view.serializer.elim [] FormFields.repeated) = true

theorem browse_eq_ok {view : View δ υ β} {request : Request υ} {response : Except Nat (Response β)}
    {db : δ} : (∃ reply, view.browse request response db = .ok reply) ↔
      view.Browses request response db := by
  have all : (∃ forms, view.shownForms request db Form.all = .ok forms) ↔
      ∀ form, view.allows form.method = true →
        Calm (checkPermissions view.permissionClasses (request.copyFor form) db) := by
    rw [shownForms_eq_ok]
    refine forall_congr' fun form => ?_
    rw [showsForm_eq_ok, imp_iff_right form.mem_all]
  unfold View.browse
  cases shown : view.shownForms request db Form.all with
  | error error =>
      refine iff_of_false (by rintro ⟨_, ⟨⟩⟩) fun browses => ?_
      obtain ⟨forms, isShown⟩ := all.mpr browses.shown
      cases shown.symm.trans isShown
  | ok forms =>
      have isPost : Form.post ∈ forms ↔ view.showsForm request db .post = .ok true :=
        (mem_shownForms shown).trans (and_iff_right Form.post.mem_all)
      have encoded : request.data.encodable (view.repeats request forms response) = true ↔
          (response = .error 400 → request.method = .post → view.showsForm request db .post = .ok true →
            request.data.encodable (view.serializer.elim [] FormFields.repeated) = true) := by
        unfold View.repeats
        split
        · rw [imp_iff_right rfl, ← isPost]
          split
          · rename_i both
            rw [imp_iff_right both.1, imp_iff_right both.2]
          · rename_i other
            exact iff_of_true rfl fun post shows => absurd ⟨post, shows⟩ other
        · rename_i other
          exact iff_of_true rfl fun refused => absurd refused other
      dsimp only
      by_cases holds : request.data.encodable (view.repeats request forms response) = true
      · rw [if_pos holds]
        exact iff_of_true ⟨_, rfl⟩ ⟨all.mp ⟨forms, shown⟩, encoded.mp holds⟩
      · rw [if_neg holds]
        exact iff_of_false (by rintro ⟨_, ⟨⟩⟩) fun browses => holds (encoded.mpr browses.encoded)

/-- Where there is no form for a `POST`, or it repeats nothing, only the forms can raise. -/
theorem browses_iff_shown {view : View δ υ β} {request : Request υ} {response : Except Nat (Response β)}
    {db : δ}
    (plain : view.allows .post = false ∨ view.serializer.elim [] FormFields.repeated = []) :
    view.Browses request response db ↔ ∀ form, view.allows form.method = true →
      Calm (checkPermissions view.permissionClasses (request.copyFor form) db) := by
  refine ⟨View.Browses.shown, fun shown => ⟨shown, fun _ _ shows => ?_⟩⟩
  rcases plain with closed | nothing
  · rw [@showsForm_of_not_allowed δ υ β view request .post closed db] at shows
    cases shows
  · rw [nothing]
    rfl

/-- The copies of a `POST` with an object are the request itself. -/
theorem copyFor_of_post {request : Request υ} {form : Form} (post : request.method = .post)
    (posts : form.method = .post) (object : request.data.loaded = request.data) :
    request.copyFor form = request := by
  rw [Request.copyFor, if_pos post, object, posts, ← post]

/-! ### Answers -/

/-- A status of success, or of a refusal that leaves the state. -/
def Proper (before after : δ) : Except Nat (Response β) → Prop
  | .ok response => 200 ≤ response.status ∧ response.status < 300
  | .error status => (400 ≤ status ∧ status < 500) ∧ after = before

/-- A status of success is sent, or a refusal that leaves the state. -/
def Replied (before : δ) (result : δ × Except PyError (Rendered β)) : Prop :=
  match result.2 with
  | .error _ => False
  | .ok reply => Proper before result.1 reply.response

section Answers

variable {view : View δ υ β} {request : Request υ} {before after db : δ}

theorem wellServed_iff_proper {outcome : Except Failure (Response β)} :
    WellServed before (after, outcome) ↔
      ∃ response, handleException outcome = .ok response ∧ Proper before after response := by
  cases outcome with
  | ok response =>
      refine ⟨fun served => ⟨.ok response, rfl, served⟩, ?_⟩
      rintro ⟨_, same, proper⟩
      cases same
      exact proper
  | error failure =>
      cases failure with
      | escaped error => exact iff_of_false (fun served => served.1) (by rintro ⟨_, ⟨⟩, -⟩)
      | api status =>
          refine ⟨fun served => ⟨.error status, rfl, served⟩, ?_⟩
          rintro ⟨_, same, proper⟩
          cases same
          exact proper

/-- A page has a proper status if its response has. -/
theorem proper_of_browse {response : Except Nat (Response β)} {reply : Rendered β}
    (made : view.browse request response db = .ok reply) :
    Proper before after reply.response ↔ Proper before after response := by
  unfold View.browse at made
  split at made
  · cases made
  · split at made
    · cases made
      cases response with
      | error status => exact Iff.rfl
      | ok response =>
          show 200 ≤ (if response.status = 204 then 200 else response.status) ∧
            (if response.status = 204 then 200 else response.status) < 300 ↔ _ ∧ _
          split
          · rename_i empty
            rw [empty]
            exact iff_of_true (by decide) (by decide)
          · exact Iff.rfl
    · cases made

theorem proper_of_render {response : Except Nat (Response β)} :
    (∃ reply, view.render request db response = .ok reply ∧ Proper before after reply.response) ↔
      Proper before after response ∧
        (selectRenderer request = .ok .browsable → view.Browses request response db) := by
  unfold View.render
  split
  · rename_i browsable
    rw [imp_iff_right browsable, ← browse_eq_ok]
    constructor
    · rintro ⟨reply, made, proper⟩
      exact ⟨(proper_of_browse made).mp proper, reply, made⟩
    · rintro ⟨proper, reply, made⟩
      exact ⟨reply, made, (proper_of_browse made).mpr proper⟩
  · rename_i other
    rw [and_iff_left fun browsable => absurd browsable other]
    refine ⟨?_, fun proper => ⟨_, rfl, proper⟩⟩
    rintro ⟨_, same, proper⟩
    cases same
    exact proper

theorem replied_iff {result : δ × Except PyError (Rendered β)} :
    Replied before result ↔ ∃ reply, result.2 = .ok reply ∧ Proper before result.1 reply.response := by
  unfold Replied
  cases result.2 with
  | error error => exact iff_of_false id (by rintro ⟨_, ⟨⟩, -⟩)
  | ok reply => simp

/-- **A request is answered exactly if the view serves it well and its page, if it is to have one, is
made.** -/
theorem replied_respond : Replied db (view.respond request db) ↔
    WellServed db (view.dispatch request db) ∧
      (selectRenderer request = .ok .browsable → ∀ response,
        handleException (view.dispatch request db).2 = .ok response →
        view.Browses request response (view.dispatch request db).1) := by
  rw [replied_iff, View.respond]
  generalize view.dispatch request db = handled
  obtain ⟨after, outcome⟩ := handled
  rw [wellServed_iff_proper]
  dsimp only
  cases handleException outcome with
  | error error => exact iff_of_false (by rintro ⟨_, ⟨⟩, -⟩) (by rintro ⟨⟨_, ⟨⟩, -⟩, -⟩)
  | ok response =>
      refine (@proper_of_render δ υ β view request db after after response).trans ?_
      simp only [Except.ok.injEq, exists_eq_left', forall_eq']

/-- A request that content negotiation refuses is answered with the status of the refusal. -/
theorem replied_of_refused {status : Nat} (refused : request.refused = some status) :
    Replied db (view.respond request db) := by
  have negotiated : selectRenderer request = .error status := by
    unfold Request.refused at refused
    split at refused
    · rename_i failed
      rw [failed, Option.some.inj refused]
    · cases refused
  have ends : view.dispatch request db = (db, .error (.api status)) := by rw [View.dispatch, refused]
  refine replied_respond.mpr ⟨ends ▸ wellServed_error.mpr ?_, fun browsable => ?_⟩
  · rcases selectRenderer_eq_error negotiated with rfl | rfl
    · exact ⟨Nat.le_of_ble_eq_true rfl, Nat.le_of_ble_eq_true rfl⟩
    · exact ⟨Nat.le_of_ble_eq_true rfl, Nat.le_of_ble_eq_true rfl⟩
  · cases negotiated.symm.trans browsable

/-- A refusal leaves the state. -/
theorem WellServed.left_of_refused {handled : δ × Except Failure (Response β)} {status : Nat}
    (served : WellServed db handled) (refused : handleException handled.2 = .ok (.error status)) :
    handled.1 = db := by
  have paired : WellServed db (handled.1, handled.2) := served
  obtain ⟨response, same, proper⟩ := wellServed_iff_proper.mp paired
  rw [refused, Except.ok.injEq] at same
  subst same
  exact proper.2

/-- A `POST` is refused with 400 where its serializer does so. -/
theorem create_refused_iff {ν : Type} {validate : Request υ → δ → Except Failure ν}
    {save : ν → δ → Except Failure (δ × β)} (saves : ∀ new, Raises (save new db)) :
    handleException (create validate save request db).2 = .ok (.error 400) ↔
      validate request db = .error (.api 400) := by
  rw [create]
  cases validate request db with
  | error failure =>
      cases failure with
      | api status =>
          refine ⟨fun same => ?_, fun same => ?_⟩
          · rw [Except.error.inj (Except.ok.inj same)]
          · cases same
            rfl
      | escaped error => exact iff_of_false (fun same => by cases same) fun same => by cases same
  | ok new =>
      refine iff_of_false (fun refused => ?_) fun same => by cases same
      dsimp only at refused
      cases saved : save new db with
      | ok pair =>
          rw [saved] at refused
          cases refused
      | error failure =>
          rw [saved] at refused
          cases failure with
          | api status => exact saves new status saved
          | escaped error => cases refused

/-- What a page repeats of a `POST` that is refused: that which the classes grant and the serializer does
not take. -/
theorem encoded_iff {ν : Type} {names : List String} {validate : Request υ → δ → Except Failure ν}
    {save : ν → δ → Except Failure (δ × β)} {response : Except Nat (Response β)}
    (accepted : request.refused = none) (object : request.data.loaded = request.data)
    (creates : view.actions.lookup .post = some (create validate save))
    (saves : ∀ new, Raises (save new db)) (served : WellServed db (view.dispatch request db))
    (handled : handleException (view.dispatch request db).2 = .ok response) :
    (response = .error 400 → request.method = .post →
        view.showsForm request (view.dispatch request db).1 .post = .ok true →
        request.data.encodable names = true) ↔
      (request.method = .post → checkPermissions view.permissionClasses request db = .ok () →
        validate request db = .error (.api 400) → request.data.encodable names = true) := by
  have allowed : view.allows Form.post.method = true := by
    rw [View.allows, Form.method, creates]
    rfl
  have shows (post : request.method = .post) : view.showsForm request db .post = .ok true ↔
      checkPermissions view.permissionClasses request db = .ok () := by
    rw [showsForm_eq_true allowed, copyFor_of_post post rfl object]
  have dispatched (post : request.method = .post)
      (granted : checkPermissions view.permissionClasses request db = .ok ()) :
      view.dispatch request db = create validate save request db := by
    rw [View.dispatch, accepted, granted, post]
    dsimp only [View.handler]
    rw [creates, Option.getD_some]
  constructor
  · intro encoded post granted refused
    have ends : view.dispatch request db = (db, .error (.api 400)) := by
      rw [dispatched post granted, create, refused]
    rw [ends] at handled encoded
    exact encoded (Except.ok.inj handled).symm post ((shows post).mpr granted)
  · intro encodes is400 post isShown
    subst is400
    rw [WellServed.left_of_refused served handled] at isShown
    have granted := (shows post).mp isShown
    rw [dispatched post granted] at handled
    exact encodes post granted ((create_refused_iff saves).mp handled)

end Answers

/-! ### Agreement -/

section Agreement

variable {view : View δ υ β} {request : Request υ} {first second : δ}

theorem showsForm_agree {form : Form}
    (alike : view.allows form.method = true → ∀ permission ∈ view.permissionClasses,
      permission (request.copyFor form) first = permission (request.copyFor form) second) :
    view.showsForm request first form = view.showsForm request second form := by
  rw [View.showsForm, View.showsForm]
  by_cases allowed : view.allows form.method = true
  · rw [checkPermissions_agree (alike allowed)]
  · rw [if_neg allowed, if_neg allowed]

/-- A page without a form for new values shows the same in two states if the same forms are shown. -/
theorem browse_agree {response : Except Nat (Response β)}
    (forms : ∀ form, view.showsForm request first form = view.showsForm request second form)
    (plain : view.showsForm request second .post ≠ .ok true ∧ view.showsForm request second .put ≠ .ok true) :
    view.browse request response first = view.browse request response second := by
  unfold View.browse
  rw [shownForms_agree fun form _ => forms form]
  cases shown : view.shownForms request second Form.all with
  | error error => rfl
  | ok shownForms =>
      have noChoice : ¬ (Form.put ∈ shownForms ∨ Form.post ∈ shownForms) :=
        not_or.mpr ⟨fun member => plain.2 ((mem_shownForms shown).mp member).2,
          fun member => plain.1 ((mem_shownForms shown).mp member).2⟩
      dsimp only
      rw [if_neg noChoice, if_neg noChoice]

/-- **What a reply does not depend on.** Where the view answers alike in two states, and makes the page of
its answer alike, the replies are the same. -/
theorem View.respond_agree
    (dispatched : (view.dispatch request first).2 = (view.dispatch request second).2)
    (pages : selectRenderer request = .ok .browsable → ∀ response,
      view.browse request response (view.dispatch request first).1 =
        view.browse request response (view.dispatch request second).1) :
    (view.respond request first).2 = (view.respond request second).2 := by
  unfold View.respond
  dsimp only
  rw [dispatched]
  cases handleException (view.dispatch request second).2 with
  | error error => rfl
  | ok response =>
      show view.render request _ response = view.render request _ response
      unfold View.render
      split
      · rename_i browsable
        exact pages browsable response
      · rfl

end Agreement

end Rest
