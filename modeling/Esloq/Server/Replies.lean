/-
**Every request is answered but those that crash.**

The page of a response asks the permission classes once more, for the request of each of its forms and in the
state that the view has left.

* `Paged` — the page of a view is made exactly outside a condition; one theorem for each route that has a
  condition, `read_paged` for those that only read.
* `namesNoAccess_after` — an access that has been deleted is looked up in vain by its own page.
* `served_iff` — a request to any route is answered with a success, or refused with a status of the client
  and the database left, exactly if it does not meet the conditions of its route.
-/

import Esloq.Server.Served

namespace Esloq

open Rest

/-! ### Pages -/

/-- The page of a well served request is made exactly where a condition does not hold. -/
def Paged (view : ApiView) (page : Condition) (request : ApiRequest) (db : Database) : Prop :=
  WellServed db (view.dispatch request db) → ∀ response,
    handleException (view.dispatch request db).2 = .ok response →
    (view.Browses request response (view.dispatch request db).1 ↔ ¬ page request db)

section Pages

variable {env : Env} {request : ApiRequest} {db after : Database} {view : ApiView}
  {rest : List (Permission Database EsloqUser)}

/-- The condition of a route and that of its page. -/
theorem replied_of_paged {crash page : Condition}
    (served : WellServed db (view.dispatch request db) ↔ ¬ crash request db)
    (paged : Paged view page request db) :
    Replied db (view.respond request db) ↔
      ¬ (crash request db ∨ Browsable request ∧ page request db) := by
  rw [replied_respond, not_or, ← served, not_and]
  refine and_congr_right fun well => imp_congr_right fun _ => ?_
  have paired : WellServed db ((view.dispatch request db).1, (view.dispatch request db).2) := well
  obtain ⟨response, handled, -⟩ := wellServed_iff_proper.mp paired
  rw [← paged well response handled, handled]
  simp only [Except.ok.injEq, forall_eq']

/-- A safe method is granted or denied by the classes of the view sets that are read. -/
theorem calm_of_safe (safe : request.method.safe = true)
    {classes : List (Permission Database EsloqUser)} (among : classes ⊆ readClasses env) :
    Calm (checkPermissions classes request db) := by
  have noPatch : request.method ≠ .patch := by
    intro patch
    rw [patch] at safe
    cases safe
  have noPost : request.method ≠ .post := by
    intro post
    rw [post] at safe
    cases safe
  refine calm_checkPermissions fun permission member => ?_
  have isOne := among member
  simp only [readClasses, List.mem_cons, List.not_mem_nil, or_false] at isOne
  rcases isOne with rfl | rfl | rfl | rfl | rfl | rfl
  · exact calm_ok _
  · exact fine_ownUrl.calm
  · rw [IsAdminOrNoPatch.hasPermission, if_neg noPatch]
    exact calm_ok true
  · rw [ReadOnlyIfNoAdminAndUsers.hasPermission, if_pos safe]
    exact calm_ok true
  · rw [HasAccessOrNoPost.hasPermission, if_pos safe]
    exact calm_ok true
  · rw [PostOnlyForSelf.hasPermission, if_neg noPost]
    exact calm_ok true

/-- The page of a view that only reads has a form for `OPTIONS` at most. -/
theorem read_paged {action : ApiHandler} (actions : view.actions = [(.get, action)])
    (among : view.permissionClasses ⊆ readClasses env) : Paged view never request db := by
  have safe : ∀ form : Form, view.allows form.method = true → form.method.safe = true := by
    intro form allowed
    rw [View.allows, actions] at allowed
    cases form with
    | options => rfl
    | _ => cases allowed
  intro _ response _
  have closed : view.allows .post = false := by
    rw [View.allows, actions]
    rfl
  rw [browses_iff_shown (.inl closed)]
  exact iff_of_true (fun form allowed => calm_of_safe (safe form allowed) among) id

/-- The forms of a page are asked for by the user in the URL. -/
theorem shown_ownUrl
    (classes : view.permissionClasses =
      IsAuthenticated.hasPermission :: AuthenticatedUserIsURLUser.hasPermission :: rest) :
    (∀ form : Form, view.allows form.method = true →
        Calm (checkPermissions view.permissionClasses (request.copyFor form) after)) ↔
      ∀ user, OwnUrl request user → ∀ form : Form, view.allows form.method = true →
        Calm (checkPermissions rest (request.copyFor form) after) := by
  rw [classes]
  constructor
  · intro shown user own form allowed
    exact calm_ownUrl.mp (shown form allowed) user own
  · intro shown form allowed
    exact calm_ownUrl.mpr fun user own => shown user own form allowed

/-- The page of a view that creates rows repeats what its serializer has refused. -/
theorem browses_iff_of_create {ν : Type} {names : List String} {response : Except Nat (Response Body)}
    {validate : ApiRequest → Database → Except Failure ν} {save : ν → Database → Saved}
    (arrives : Arrives env request db) (accepted : request.refused = none)
    (repeats : view.serializer.elim [] FormFields.repeated = names)
    (creates : view.actions.lookup .post = some (create validate save))
    (saves : ∀ new, Raises (save new db)) (well : WellServed db (view.dispatch request db))
    (handled : handleException (view.dispatch request db).2 = .ok response) :
    view.Browses request response (view.dispatch request db).1 ↔
      (∀ form : Form, view.allows form.method = true → Calm (checkPermissions view.permissionClasses
        (request.copyFor form) (view.dispatch request db).1)) ∧
      ¬ (checkPermissions view.permissionClasses request db = .ok () ∧
        Garbled request ((validate request db).map fun _ => ()) names) := by
  obtain ⟨entries, isObject⟩ := arrives.object
  have object : request.data.loaded = request.data := by
    rw [isObject]
    rfl
  have refused : (validate request db).map (fun _ => ()) = .error (.api 400) ↔
      validate request db = .error (.api 400) := by
    cases validate request db with
    | error failure => exact ⟨fun same => congrArg _ (Except.error.inj same), fun same => congrArg _ (Except.error.inj same)⟩
    | ok new => exact iff_of_false (fun same => by cases same) fun same => by cases same
  have garbled : ¬ (checkPermissions view.permissionClasses request db = .ok () ∧
      Garbled request ((validate request db).map fun _ => ()) names) ↔
      (request.method = .post → checkPermissions view.permissionClasses request db = .ok () →
        validate request db = .error (.api 400) → request.data.encodable names = true) := by
    rw [Garbled, refused, ← Bool.not_eq_true]
    tauto
  rw [garbled, ← encoded_iff accepted object creates saves well handled, ← repeats]
  exact ⟨fun browses => ⟨browses.shown, browses.encoded⟩, fun both => ⟨both.1, both.2⟩⟩

/-- The page of a view for the user in the URL that repeats nothing. -/
theorem owner_paged {page : EsloqUser → Condition}
    (classes : view.permissionClasses =
      IsAuthenticated.hasPermission :: AuthenticatedUserIsURLUser.hasPermission :: rest)
    (plain : view.allows .post = false ∨ view.serializer.elim [] FormFields.repeated = [])
    (owned : WellServed db (view.dispatch request db) → ∀ user, OwnUrl request user →
      ((∀ form : Form, view.allows form.method = true →
        Calm (checkPermissions rest (request.copyFor form) (view.dispatch request db).1)) ↔
      ¬ page user request db)) : Paged view (byOwner page) request db := by
  intro served response _
  rw [browses_iff_shown plain, shown_ownUrl classes, byOwner]
  simp only [not_exists, not_and]
  exact forall₂_congr (owned served)

/-- The page of a view for the user in the URL that creates rows. -/
theorem owner_paged_of_create {ν : Type} {names : List String} {page : EsloqUser → Condition}
    {validate : ApiRequest → Database → Except Failure ν} {save : ν → Database → Saved}
    (arrives : Arrives env request db) (accepted : request.refused = none)
    (classes : view.permissionClasses =
      IsAuthenticated.hasPermission :: AuthenticatedUserIsURLUser.hasPermission :: rest)
    (repeats : view.serializer.elim [] FormFields.repeated = names)
    (creates : view.actions.lookup .post = some (create validate save))
    (saves : ∀ new, Raises (save new db))
    (owned : WellServed db (view.dispatch request db) → ∀ user, OwnUrl request user →
      ((∀ form : Form, view.allows form.method = true →
        Calm (checkPermissions rest (request.copyFor form) (view.dispatch request db).1)) ∧
      ¬ (checkPermissions rest request db = .ok () ∧
        Garbled request ((validate request db).map fun _ => ()) names) ↔
      ¬ page user request db)) : Paged view (byOwner page) request db := by
  intro well response handled
  rw [browses_iff_of_create arrives accepted repeats creates saves well handled, shown_ownUrl classes, classes,
    checkPermissions_ownUrl, byOwner]
  constructor
  · rintro ⟨shown, encoded⟩ ⟨user, own, bad⟩
    exact (owned well user own).mp ⟨shown user own, fun both => encoded ⟨⟨user, own, both.1⟩, both.2⟩⟩ bad
  · intro spared
    refine ⟨fun user own => ((owned well user own).mpr fun bad => spared ⟨user, own, bad⟩).1, ?_⟩
    rintro ⟨⟨user, own, granted⟩, garbled⟩
    exact ((owned well user own).mpr fun bad => spared ⟨user, own, bad⟩).2 ⟨granted, garbled⟩

/-- The forms of a list: two for a `POST`, with the body as it was read, or as it is read again. -/
theorem shown_list {shows : Data → Prop}
    (posts : ∀ form : Form, view.allows form.method = true ↔ form = .rawPost ∨ form = .post ∨ form = .options)
    (calm : ∀ copy : ApiRequest, copy.method = .post →
      (Calm (checkPermissions rest copy after) ↔ shows copy.data))
    (safe : ∀ copy : ApiRequest, copy.method = .options → Calm (checkPermissions rest copy after))
    (object : ∃ entries, request.data = .fields entries)
    (read : request.method = .post ∨ request.method = .options → shows request.data) :
    (∀ form : Form, view.allows form.method = true →
        Calm (checkPermissions rest (request.copyFor form) after)) ↔
      ¬ (request.method ≠ .post ∧ ¬ (shows request.data ∧ shows request.drained.data)) := by
  obtain ⟨entries, isObject⟩ := object
  simp only [posts, forall_eq_or_imp, forall_eq]
  rw [calm (request.copyFor .rawPost) rfl, calm (request.copyFor .post) rfl,
    and_iff_left (safe (request.copyFor .options) rfl)]
  by_cases post : request.method = .post
  · have data (form : Form) : (request.copyFor form).data = request.data := by
      rw [Request.copyFor, if_pos post, isObject]
      rfl
    rw [data, data]
    exact iff_of_true ⟨read (.inl post), read (.inl post)⟩ fun both => both.1 post
  · have again : (request.copyFor .post).data = request.drained.data := by
      rw [Request.copyFor, if_neg post, if_neg fun both => by cases both.1]
    rw [again, and_iff_right post, not_not]
    refine and_congr_left fun drained => ?_
    by_cases options : request.method = .options
    · have first : (request.copyFor .rawPost).data = request.drained.data := by
        rw [Request.copyFor, if_neg post, if_neg fun both => both.2 options]
      rw [first]
      exact iff_of_true drained (read (.inr options))
    · have first : (request.copyFor .rawPost).data = request.data := by
        rw [Request.copyFor, if_neg post, if_pos ⟨rfl, options⟩]
      rw [first]

end Pages

/-! ### One page each -/

section Views

variable {env : Env} {request : ApiRequest} {db : Database}

theorem lockDetail_paged : Paged (lockDetail env) lockDetailPage request db := by
  refine owner_paged rfl (.inl rfl) fun _ user _ => ?_
  have patched (after : Database) : Calm (checkPermissions [IsAdminOrNoPatch.hasPermission env.fields]
      (request.copyFor .rawPatch) after) ↔ ¬ LargePk request := by
    have patch : (request.copyFor .rawPatch).method = .patch := rfl
    rw [calm_checkPermissions_cons, IsAdminOrNoPatch.hasPermission, if_pos patch]
    exact (and_iff_left fun _ => calm_ok ()).trans calm_isAdmin
  constructor
  · exact fun shown => (patched _).mp (shown .rawPatch rfl)
  · intro keyed form allowed
    cases form with
    | rawPatch => exact (patched _).mpr keyed
    | options => exact @calm_of_safe env _ _ rfl _ (by simp [readClasses])
    | _ => cases allowed

/-- The page of a lock's rows asks for the permission that the request has had. -/
theorem bulk_paged {view : ApiView} {delete : Option Int → Database → Database} {digits : String}
    {serializer : FormFields Database}
    (isView : view = ⟨[IsAuthenticated.hasPermission, AuthenticatedUserIsURLUser.hasPermission,
      IsAdmin.hasPermission env.fields], [(.delete, destroyAll delete)], some serializer⟩)
    (accepted : request.refused = none) (pk : request.pk = some digits) :
    Paged view never request db := by
  have nobody : byOwner (fun _ => never) request db ↔ never request db :=
    ⟨fun ⟨_, _, impossible⟩ => impossible, False.elim⟩
  have served := @bulk_served env request db view delete digits serializer isView accepted pk
  subst isView
  intro well response handled
  rw [← nobody]
  refine owner_paged rfl (.inl rfl) (fun well user own => iff_of_true (fun form _ => ?_) id) well response handled
  have keyed : ¬ LargePk request := fun large => served.mp well ⟨user, own, large⟩
  rw [calm_checkPermissions_cons, IsAdmin.hasPermission]
  exact ⟨calm_isAdmin.mpr keyed, fun _ => calm_ok ()⟩

/-- What a request to the row of an access does. -/
theorem lockaccessDetail_fst (env : Env) (request : ApiRequest) (db : Database) :
    ((lockaccessDetail env).dispatch request db).1 = db ∨
      request.method = .delete ∧ (lockaccessDetail env).Granted request db ∧
        ∃ row, getObject LockAccess.id LockAccessViewSet.getQueryset request db = .ok row ∧
          ((lockaccessDetail env).dispatch request db).1 =
            { db with lockAccesses := db.lockAccesses.delete fun access => access.id = row.id } := by
  refine @View.dispatch_holds Database EsloqUser Body (lockaccessDetail env) request db (fun after => after = db ∨
    request.method = .delete ∧ (lockaccessDetail env).Granted request db ∧
      ∃ row, getObject LockAccess.id LockAccessViewSet.getQueryset request db = .ok row ∧
        after = { db with lockAccesses := db.lockAccesses.delete fun access => access.id = row.id })
    (.inl rfl) fun granted method action member serves => ?_
  simp only [lockaccessDetail, List.mem_cons, List.not_mem_nil, or_false, Prod.mk.injEq] at member
  rcases member with ⟨rfl, rfl⟩ | ⟨rfl, rfl⟩
  · exact .inl rfl
  · have delete := serves.resolve_right fun head => by cases head.2
    exact destroy_fst.imp_right fun deleted => ⟨delete, granted, deleted⟩

/-- A `DELETE` by an admin leaves no row of the access. -/
theorem lockaccessDetail_of_admin {user : EsloqUser} {access : LockAccess} (arrives : Arrives env request db)
    (accepted : request.refused = none) (own : OwnUrl request user) (delete : request.method = .delete)
    (isAccess : access ∈ db.lockAccesses.rows) (number : request.pk.map digitsValue = some access.id)
    (located : ¬ NamesNoAccess request db) (admin : AdminOn db user access.lockId) :
    ((lockaccessDetail env).dispatch request db).1 =
      { db with lockAccesses := db.lockAccesses.delete fun other => other.id = access.id } := by
  obtain ⟨digits, pk, keyed⟩ := Option.map_eq_some_iff.mp number
  have queried := queried_own arrives own (LockAccessViewSet.getQueryset_eq db own.2)
  have fit : ¬ LargePk request := by
    rw [largePk_iff pk, keyed, arrives.storable.lockAccesses access isAccess]
    decide
  have found := getObject_of_mem number queried fit isAccess (decide_eq_true (.inr admin))
  obtain ⟨lockId, ofLock⟩ := raises_lockIdOf.fine_iff.mp ((@fine_lockIdOf request db env.fields arrives.storable).mpr located)
  have permitted : ReadOnlyIfNoAdminAndUsers.hasPermission env.fields request db = .ok true := by
    refine readOnlyIfNoAdminAndUsers_of_admin arrives.storable own.1 delete ofLock ?_
    rwa [lockIdOf_eq pk isAccess keyed.symm ofLock]
  have granted : (lockaccessDetail env).Granted request db := by
    rintro permission member
    simp only [lockaccessDetail, LockAccessViewSet.permissionClasses, List.mem_cons, List.not_mem_nil,
      or_false] at member
    rcases member with rfl | rfl | rfl
    · exact (@granted_of_own request db user own).1
    · exact (@granted_of_own request db user own).2
    · exact permitted
  have reaches : Reaches (lockaccessDetail env) .delete request db := ⟨delete, accepted, granted⟩
  have serves : (lockaccessDetail env).actions.lookup .delete = some LockAccessViewSet.destroy := rfl
  rw [reaches.dispatch serves (by decide), LockAccessViewSet.destroy, Rest.destroy, found]

/-- A `DELETE` that succeeds leaves no access under the last number of the URL. -/
theorem namesNoAccess_after {user : EsloqUser} {digits : String} (arrives : Arrives env request db)
    (accepted : request.refused = none) (pk : request.pk = some digits) (own : OwnUrl request user)
    (well : WellServed db ((lockaccessDetail env).dispatch request db)) :
    NamesNoAccess request ((lockaccessDetail env).dispatch request db).1 ↔
      NamesNoAccess request db ∨ request.method = .delete ∧ NamesAccess request db user := by
  have queried := queried_own arrives own (LockAccessViewSet.getQueryset_eq db own.2)
  constructor
  · intro none'
    rcases lockaccessDetail_fst env request db with left | ⟨delete, granted, row, found, -⟩
    · exact .inl (left ▸ none')
    · obtain ⟨rows, digits', queried', pk', isRow, number⟩ := getObject_eq_ok found
      rw [queried, Except.ok.injEq] at queried'
      obtain ⟨isAccess, sees⟩ := List.mem_filter.mp (queried'.symm ▸ isRow)
      have permitted := granted (ReadOnlyIfNoAdminAndUsers.hasPermission env.fields)
        (by simp [lockaccessDetail, LockAccessViewSet.permissionClasses])
      refine .inr ⟨delete, row, isAccess, by rw [pk', Option.map_some, number], ?_⟩
      rcases of_decide_eq_true sees with ofUser | admin
      · exact readOnlyIfNoAdminAndUsers_delete own.1 delete pk' isAccess number ⟨row, isAccess, ofUser, rfl⟩
          permitted
      · exact admin
  · rintro (none' | ⟨delete, access, isAccess, number, admin⟩)
    · rcases lockaccessDetail_fst env request db with left | ⟨-, -, row, -, left⟩
      · rw [left]
        exact none'
      · rw [left]
        exact fun digits pk other isOther => none' digits pk other (Table.mem_delete.mp isOther).1
    · have spared := (lockaccessDetail_served arrives accepted pk).mp well
      have located : ¬ NamesNoAccess request db := fun none' =>
        spared ⟨user, own, .inl (.inl ⟨by rw [Changes, delete]; decide, none'⟩)⟩
      rw [lockaccessDetail_of_admin arrives accepted own delete isAccess number located admin]
      intro digits' pk' other isOther keyed
      rw [pk', Option.map_some, Option.some.injEq, ← keyed] at number
      exact absurd (decide_eq_true number) (Bool.eq_false_iff.mp (Table.mem_delete.mp isOther).2)

theorem lockaccessDetail_paged {digits : String} (arrives : Arrives env request db)
    (accepted : request.refused = none) (pk : request.pk = some digits) :
    Paged (lockaccessDetail env) lockaccessDetailPage request db := by
  refine owner_paged rfl (.inl rfl) fun well user own => ?_
  rw [← namesNoAccess_after arrives accepted pk own well]
  have storable : ((lockaccessDetail env).dispatch request db).1.Storable := by
    rcases lockaccessDetail_fst env request db with left | ⟨-, -, row, -, left⟩
    · rw [left]
      exact arrives.storable
    · rw [left]
      exact ⟨arrives.storable.users, arrives.storable.locks, fun access member =>
        arrives.storable.lockAccesses access (Table.mem_delete.mp member).1⟩
  have deleted : Calm (checkPermissions [ReadOnlyIfNoAdminAndUsers.hasPermission env.fields]
      (request.copyFor .delete) ((lockaccessDetail env).dispatch request db).1) ↔
      ¬ NamesNoAccess request ((lockaccessDetail env).dispatch request db).1 := by
    have changes : Changes (request.copyFor .delete) := ⟨rfl, fun same => by cases same⟩
    rw [calm_checkPermissions_cons, calm_readOnly_of_changes storable changes]
    exact and_iff_left fun _ => calm_ok ()
  constructor
  · exact fun shown => deleted.mp (shown .delete rfl)
  · intro located form allowed
    cases form with
    | delete => exact deleted.mpr located
    | options => exact @calm_of_safe env _ _ rfl _ (by simp [readClasses])
    | _ => cases allowed

theorem raises_saveUser (new : NewUser) : Raises (EsloqUserSerializer.save new db) := by
  refine (raises_encode _).bind fun firstName _ => (raises_encode _).bind fun lastName _ => ?_
  split
  · exact raises_escaped .integrityError
  · exact raises_ok _

theorem raises_saveLog (now : Nat) (new : NewLog) : Raises (LogSerializer.save now new db) := by
  rw [LogSerializer.save]
  split
  · rename_i failed
    rw [parameter] at failed
    split at failed
    · cases failed
    · cases failed
      exact raises_escaped .overflowError
  · exact raises_escaped .integrityError
  · split
    · exact raises_escaped .integrityError
    · exact raises_ok _

theorem raises_saveFcmRegistration (new : NewFcmRegistration) :
    Raises (FcmRegistrationSerializer.save new db) := by
  rw [FcmRegistrationSerializer.save]
  split
  · exact raises_escaped .integrityError
  · exact raises_ok _

theorem userAll_paged (arrives : Arrives env request db) (accepted : request.refused = none) :
    Paged (userAll env) (userAllPage env) request db := by
  intro well response handled
  rw [browses_iff_of_create arrives accepted rfl rfl raises_saveUser well handled, userAllPage]
  have shown : ∀ form : Form, (userAll env).allows form.method = true → Calm (checkPermissions
      (userAll env).permissionClasses (request.copyFor form) ((userAll env).dispatch request db).1) :=
    fun _ _ => calm_ok ()
  rw [and_iff_right shown]
  exact not_congr (and_iff_right rfl)

/-- The forms of the lists. -/
theorem list_forms {view : ApiView}
    (methods : view.actions.map Prod.fst = [.get, .post] ∨ view.actions.map Prod.fst = [.post]) (form : Form) :
    view.allows form.method = true ↔ form = .rawPost ∨ form = .post ∨ form = .options := by
  rw [allows_iff]
  rcases methods with methods | methods <;> rw [methods] <;> cases form <;> decide

/-- The forms of a list that ask for the lock of a body. -/
theorem shown_locks {view : ApiView} {rest : List (Permission Database EsloqUser)} {after : Database}
    (arrives : Arrives env request db)
    (methods : view.actions.map Prod.fst = [.get, .post])
    (calm : ∀ copy : ApiRequest, copy.method = .post →
      (Calm (checkPermissions rest copy after) ↔ ¬ Unkeyed env copy.data))
    (among : rest ⊆ readClasses env)
    (read : request.method = .post ∨ request.method = .options → ¬ Unkeyed env request.data) :
    (∀ form : Form, view.allows form.method = true →
        Calm (checkPermissions rest (request.copyFor form) after)) ↔
      ¬ (request.method ≠ .post ∧ (Unkeyed env request.data ∨ Unreadable request)) := by
  have either : ¬ (¬ Unkeyed env request.data ∧ ¬ Unreadable request) ↔
      Unkeyed env request.data ∨ Unreadable request := or_iff_not_and_not.symm
  rw [@shown_list request _ _ _ (¬ Unkeyed env ·) (list_forms (.inl methods)) calm
    (fun copy options => calm_of_safe (options ▸ rfl) among) arrives.object read, unkeyed_drained, either]

theorem lockaccessList_paged (arrives : Arrives env request db) (accepted : request.refused = none) :
    Paged (lockaccessList env) (lockaccessListPage env) request db := by
  refine owner_paged rfl (.inr rfl) fun well user own => ?_
  have spared := (lockaccessList_served arrives accepted).mp well
  have keyed : request.method = .post ∨ request.method = .options → ¬ Unkeyed env request.data := by
    rintro (post | options) unkeyed
    · exact spared ⟨user, own, .inl (.inr ⟨post, unkeyed⟩)⟩
    · exact spared ⟨user, own, .inr (.inl ⟨options, unkeyed⟩)⟩
  have among : [ReadOnlyIfNoAdminAndUsers.hasPermission env.fields] ⊆ readClasses env := by
    simp [readClasses]
  exact shown_locks arrives rfl (fun copy post => calm_lockAccessClasses _ post) among keyed

theorem logList_paged (arrives : Arrives env request db) (accepted : request.refused = none) :
    Paged (logList env) (logListPage env) request db := by
  refine owner_paged_of_create arrives accepted rfl rfl rfl (raises_saveLog env.now) fun well user own => ?_
  have spared := (logList_served arrives accepted).mp well
  have keyed : request.method = .post ∨ request.method = .options → ¬ Unkeyed env request.data := by
    rintro (post | options) unkeyed
    · exact spared ⟨user, own, .inl (.inr ⟨post, unkeyed⟩)⟩
    · exact spared ⟨user, own, .inr (.inl ⟨options, unkeyed⟩)⟩
  have among : [HasAccessOrNoPost.hasPermission env.fields, PostOnlyForSelf.hasPermission] ⊆ readClasses env := by
    simp [readClasses]
  rw [shown_locks arrives rfl (fun copy post => calm_logClasses _ post) among keyed, ← not_or]
  refine not_congr (or_congr_right (and_congr_left fun garbled => ?_))
  rw [← mayLog_iff arrives own.1 garbled.1, checkPermissions_eq_ok, List.forall_mem_cons,
    List.forall_mem_singleton]

theorem fcmregistrationList_paged (arrives : Arrives env request db) (accepted : request.refused = none) :
    Paged (fcmregistrationList env) (fcmregistrationListPage env) request db := by
  refine owner_paged_of_create arrives accepted rfl rfl rfl raises_saveFcmRegistration fun _ user own => ?_
  obtain ⟨value, has⟩ := get_eq_ok arrives.object "user_id"
  have read : Calm (request.data.get? "user_id") := has ▸ calm_ok value
  have among : [PostOnlyForSelf.hasPermission] ⊆ readClasses env := by
    simp [readClasses]
  rw [@shown_list request _ _ _ (fun data => Calm (data.get? "user_id")) (list_forms (.inr rfl))
    (fun copy post => calm_registrationClasses _ post) (fun copy options => calm_of_safe (options ▸ rfl) among)
    arrives.object fun _ => read, and_iff_right read, calm_drained, not_not, ← not_or]
  refine not_congr (or_congr_right (and_congr_left fun garbled => ?_))
  rw [← @postOnlyForSelf_post_iff request db user own.1 garbled.1 arrives.object, checkPermissions_eq_ok,
    List.forall_mem_singleton]

end Views

/-! ### All routes -/

/-- The two conditions of a route are exact. -/
def Exact (env : Env) (pattern : List Segment) (view : ApiView) (conditions : Condition × Condition) : Prop :=
  ∀ request db, Arrives env request db → request.refused = none →
    (request.pk.isSome = true ↔ Segment.pk ∈ pattern) →
    (WellServed db (view.dispatch request db) ↔ ¬ conditions.1 request db) ∧
      Paged view conditions.2 request db

/-- A route with a number at its end, or in it. -/
theorem exact_of_pk {env : Env} {pattern : List Segment} {view : ApiView} {conditions : Condition × Condition}
    (member : Segment.pk ∈ pattern)
    (exact : ∀ request db digits, Arrives env request db → request.refused = none →
      request.pk = some digits → (WellServed db (view.dispatch request db) ↔ ¬ conditions.1 request db) ∧
        Paged view conditions.2 request db) :
    Exact env pattern view conditions := by
  intro request db arrives accepted pk
  obtain ⟨digits, given⟩ := Option.isSome_iff_exists.mp (pk.mpr member)
  exact exact request db digits arrives accepted given

theorem patterns_exact (env : Env) :
    List.Forall₂ (fun first second => first.1 = second.1 ∧ Exact env first.1 first.2 second.2)
      (patterns env) (crashes env) := by
  have nothing {served : Prop} (fine : served) : served ↔ ¬ False := iff_of_true fine id
  have inUrl (text : String) (rest : List Segment) : Segment.pk ∈ baseUrl (.literal text :: .pk :: rest) := by
    simp [baseUrl]
  have ownClasses : EsloqUserViewSet.permissionClasses ⊆ readClasses env := by
    simp [EsloqUserViewSet.permissionClasses, readClasses]
  refine .cons ⟨rfl, fun _ _ arrives accepted pk => ?_⟩ <| .cons ⟨rfl, exact_of_pk (inUrl _ _) ?_⟩ <|
    .cons ⟨rfl, exact_of_pk (inUrl _ _) ?_⟩ <| .cons ⟨rfl, exact_of_pk (inUrl _ _) ?_⟩ <|
    .cons ⟨rfl, exact_of_pk (inUrl _ _) ?_⟩ <| .cons ⟨rfl, fun _ _ _ accepted _ => ?_⟩ <|
    .cons ⟨rfl, fun _ _ arrives accepted _ => ?_⟩ <| .cons ⟨rfl, fun _ _ arrives accepted _ => ?_⟩ <|
    .cons ⟨rfl, exact_of_pk (inUrl _ _) ?_⟩ <| .cons ⟨rfl, fun _ _ arrives accepted _ => ?_⟩ <|
    .cons ⟨rfl, exact_of_pk (inUrl _ _) ?_⟩ <| .cons ⟨rfl, fun _ _ arrives accepted _ => ?_⟩ <|
    .cons ⟨rfl, exact_of_pk (inUrl _ _) ?_⟩ <| .cons ⟨rfl, fun _ _ arrives accepted _ => ?_⟩ .nil
  · have plain : Segment.pk ∉ baseUrl [.literal "locks"] := by decide
    have without := Option.not_isSome_iff_eq_none.mp fun given => plain (pk.mp given)
    exact ⟨nothing (lockList_served arrives accepted without),
      @read_paged env _ _ _ _ rfl (by simp [lockList, EsloqViewSet.permissionClasses, readClasses])⟩
  · exact fun _ _ _ arrives accepted pk => ⟨lockDetail_served arrives accepted pk, lockDetail_paged⟩
  · exact fun _ _ _ _ accepted pk => ⟨bulk_served rfl accepted pk, bulk_paged rfl accepted pk⟩
  · exact fun _ _ _ _ accepted pk => ⟨bulk_served rfl accepted pk, bulk_paged rfl accepted pk⟩
  · exact fun _ _ _ arrives accepted pk =>
      ⟨lockticketDetail_served arrives accepted pk, read_paged rfl ownClasses⟩
  · exact ⟨lockAll_served accepted, @read_paged env _ _ _ _ rfl (by simp [lockAll, readClasses])⟩
  · exact ⟨userAll_served arrives accepted, userAll_paged arrives accepted⟩
  · exact ⟨nothing (userList_served arrives accepted), read_paged rfl ownClasses⟩
  · exact fun _ _ _ arrives accepted pk =>
      ⟨userDetail_served arrives accepted pk, read_paged rfl ownClasses⟩
  · exact ⟨lockaccessList_served arrives accepted, lockaccessList_paged arrives accepted⟩
  · exact fun _ _ _ arrives accepted pk =>
      ⟨lockaccessDetail_served arrives accepted pk, lockaccessDetail_paged arrives accepted pk⟩
  · exact ⟨logList_served arrives accepted, logList_paged arrives accepted⟩
  · exact fun _ _ _ arrives accepted pk => ⟨logDetail_served arrives accepted pk,
      @read_paged env _ _ _ _ rfl (by simp [logDetail, LogViewSet.permissionClasses, readClasses])⟩
  · exact ⟨fcmregistrationList_served arrives accepted, fcmregistrationList_paged arrives accepted⟩

/-- **No request crashes the server but these.** In every state of the database and on every path, a
request by anybody with any method, query, format and object as its body is answered with a success, or
refused with a status of the client and the database left as it is, exactly if the request does not meet
the conditions of its route. -/
theorem served_iff (env : Env) (path : List String) (request : ApiRequest) (db : Database)
    (arrives : Arrives env request db) :
    Replied db (getResponse env path request db) ↔ ¬ Crashes env path request db := by
  unfold getResponse Crashes urlpatterns
  rcases resolve_beside path (patterns_exact env) with ⟨noView, noCrash⟩ |
    ⟨pattern, view, ⟨crash, page⟩, kwargs, exact, keyed, isView, isCrash⟩
  · rw [noView, noCrash]
    exact iff_of_true ⟨⟨Nat.le_of_ble_eq_true rfl, Nat.le_of_ble_eq_true rfl⟩, rfl⟩ id
  · rw [isView, isCrash]
    show Replied db (view.respond (request.withKwargs kwargs) db) ↔
      ¬ ((request.withKwargs kwargs).refused = none ∧ (crash (request.withKwargs kwargs) db ∨
        Browsable (request.withKwargs kwargs) ∧ page (request.withKwargs kwargs) db))
    cases accepted : (request.withKwargs kwargs).refused with
    | none =>
        have same : Arrives env (request.withKwargs kwargs) db :=
          ⟨arrives.contract, arrives.storable, arrives.caller, arrives.object⟩
        obtain ⟨served, paged⟩ := exact _ db same accepted keyed
        rw [and_iff_right rfl]
        exact replied_of_paged served paged
    | some status =>
        refine iff_of_true (replied_of_refused accepted) fun both => ?_
        cases both.1

theorem arrives_sample {method : Method} {user : Option EsloqUser} {entries : List (String × Json)}
    (caller : user ∈ [none, some sampleUser]) :
    Arrives sampleEnv (jsonRequest method user entries) sampleDatabase where
  contract := keyTag_contract
  storable := ⟨by decide, by decide, by decide⟩
  caller := by
    rintro other same
    rcases List.mem_pair.mp caller with rfl | rfl
    · cases same
    · rw [← Option.some.inj same]
      exact List.mem_singleton_self sampleUser
  object := ⟨entries, rfl⟩

theorem served_iff_own : Replied sampleDatabase
      (getResponse sampleEnv ["users", "1", "locks", ""] (jsonRequest .get (some sampleUser) [])
        sampleDatabase) ↔
    ¬ Crashes sampleEnv ["users", "1", "locks", ""] (jsonRequest .get (some sampleUser) []) sampleDatabase :=
  served_iff sampleEnv ["users", "1", "locks", ""] (jsonRequest .get (some sampleUser) []) sampleDatabase
    (arrives_sample (by decide))

/-- **A search without an address.** Anybody may list the users, and without `?email=` a `None` is indexed. -/
theorem search_without_address :
    ¬ ∀ (env : Env) (path : List String) (request : ApiRequest) (db : Database), Arrives env request db →
      Replied db (getResponse env path request db) := by
  intro every
  have served := every sampleEnv ["users", ""] (jsonRequest .get none []) sampleDatabase
    (arrives_sample (by decide))
  have raised : (getResponse sampleEnv ["users", ""] (jsonRequest .get none []) sampleDatabase).2 =
      .error .typeError := by
    decide +kernel
  rw [Replied, raised] at served
  exact served

end Esloq
