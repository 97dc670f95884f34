/-
**Every view serves the requests that do not crash it.**

* `EsloqViewSet.partialUpdate_served`, `LogViewSet.create_served`, `FcmRegistrationViewSet.create_served` — the
  handlers that save.
* one theorem for each route: a request is served with a success, or refused with a status of the client and
  the database left, exactly if it does not meet the first condition of its route.
-/

import Esloq.Server.Validation

namespace Esloq

open Rest

/-! ### One route each -/

section Views

variable {env : Env} {request : ApiRequest} {db : Database}

theorem lockList_served (arrives : Arrives env request db) (accepted : request.refused = none)
    (pk : request.pk = none) : WellServed db ((lockList env).dispatch request db) := by
  refine owner_dispatch_fine accepted rfl fun user own => ⟨?_, fun _ => ?_⟩
  · rw [IsAdminOrNoPatch.hasPermission]
    split
    · refine fine_isAdmin.mpr ?_
      rintro ⟨digits, some', -⟩
      cases pk.symm.trans some'
    · exact fine_ok true
  · refine (View.wellServed_handler (.of_methods [.get] rfl (by decide))).mpr ⟨fun _ => ?_, ?_⟩
    · exact View.wellServed_options_of_plain rfl
    · refine List.forall_mem_singleton.mpr fun _ => ?_
      rw [EsloqViewSet.list, wellServed_listing,
        queried_own arrives own (EsloqViewSet.getQueryset_eq db own.2)]
      exact fine_ok _

theorem userList_served (arrives : Arrives env request db) (accepted : request.refused = none) :
    WellServed db (userList.dispatch request db) := by
  refine owner_dispatch_fine accepted rfl fun user own => ?_
  refine (View.wellServed_handler (.of_methods [.get] rfl (by decide))).mpr ⟨fun _ => ?_, ?_⟩
  · exact View.wellServed_options_of_plain rfl
  · refine List.forall_mem_singleton.mpr fun _ => ?_
    rw [EsloqUserViewSet.list, wellServed_listing,
      queried_own arrives own (EsloqUserViewSet.getQueryset_eq db own.2)]
    exact fine_ok _

/-- The change of a lock by an admin. -/
theorem EsloqViewSet.partialUpdate_served {user : EsloqUser} {digits : String}
    (arrives : Arrives env request db) (own : OwnUrl request user) (pk : request.pk = some digits)
    (admin : AdminOn db user (digitsValue digits)) :
    WellServed db (EsloqViewSet.partialUpdate env request db) ↔
      ¬ LargePk request ∧ ¬ BadName env request db user := by
  have queried := queried_own arrives own (EsloqViewSet.getQueryset_eq db own.2)
  rw [EsloqViewSet.partialUpdate, wellServed_partialUpdate, fine_getObject pk queried]
  refine and_congr_right fun keyed => ?_
  constructor
  · rintro served ⟨lock, isLock, number, ⟨access, isAccess, ofUser, ofLock, -⟩, bad⟩
    have found := getObject_of_mem number queried keyed isLock (decide_eq_true ⟨access, isAccess, ofUser, ofLock⟩)
    obtain ⟨valid, updates⟩ := served lock found
    rw [LockSerializer.fine_isValid arrives.object] at valid
    rcases bad with named | addressed | unencodable
    · exact valid.1 named
    · exact valid.2 addressed
    · exact (LockSerializer.fine_update isLock).mp (updates _ unencodable) rfl
  · intro spared lock found
    obtain ⟨rows, digits', queried', pk', isRow, number⟩ := getObject_eq_ok found
    rw [pk, Option.some.injEq] at pk'
    rw [queried, Except.ok.injEq] at queried'
    have isLock := List.mem_of_mem_filter (queried' ▸ isRow)
    have named : request.pk.map digitsValue = some lock.id := by rw [pk, number, pk', Option.map_some]
    have ofLock : AdminOn db user lock.id := by rwa [number, ← pk']
    refine ⟨(LockSerializer.fine_isValid arrives.object).mpr ⟨fun fails => ?_, fun fails => ?_⟩,
      fun new valid => (LockSerializer.fine_update isLock).mpr ?_⟩
    · exact spared ⟨lock, isLock, named, ofLock, .inl fails⟩
    · exact spared ⟨lock, isLock, named, ofLock, .inr (.inl fails)⟩
    · rintro rfl
      exact spared ⟨lock, isLock, named, ofLock, .inr (.inr valid)⟩

theorem lockDetail_served {digits : String} (arrives : Arrives env request db)
    (accepted : request.refused = none) (pk : request.pk = some digits) :
    WellServed db ((lockDetail env).dispatch request db) ↔ ¬ lockDetailCrash env request db := by
  refine owner_dispatch accepted rfl fun user own => ?_
  have queried := queried_own arrives own (EsloqViewSet.getQueryset_eq db own.2)
  have served : WellServed db ((lockDetail env).handler request.method request db) ↔
      (Reads request → ¬ LargePk request) ∧
        (request.method = .patch → WellServed db (EsloqViewSet.partialUpdate env request db)) := by
    rw [View.wellServed_handler_get (.of_methods [.get, .patch] rfl (by decide)) rfl,
      and_iff_right fun _ => View.wellServed_options_of_plain rfl, EsloqViewSet.retrieve,
      wellServed_retrieve pk queried]
    exact Iff.rfl
  rw [served]
  show Fine _ ∧ (_ → _) ↔ _
  by_cases patch : request.method = .patch
  · have noRead : ¬ Reads request := by
      rw [Reads, patch]
      rintro (⟨⟨⟩⟩ | ⟨⟨⟩⟩)
    rw [IsAdminOrNoPatch.hasPermission, if_pos patch, fine_isAdmin, and_iff_right fun reads => absurd reads noRead,
      imp_iff_right patch, and_iff_right patch, or_iff_right noRead, and_iff_right patch, not_or]
    refine and_congr_right fun keyed => ⟨fun passes bad => ?_, fun spared granted => ?_⟩
    · obtain ⟨lock, -, number, admin, -⟩ := id bad
      rw [pk, Option.map_some, Option.some.injEq] at number
      rw [← number] at admin
      have converted : lookupKey env.fields.integerOfText (.int (digitsValue digits)) =
          .ok (some (digitsValue digits : Int)) := by
        rw [largePk_iff pk, Bool.not_eq_false] at keyed
        exact parameter_of_fits keyed
      have granted : isAdmin env.fields db (userIdOf request) (pkOrMinusOne request) = .ok true := by
        rw [pkOrMinusOne, pk]
        exact (isAdmin_iff own.1 converted).mpr admin
      exact ((EsloqViewSet.partialUpdate_served arrives own pk admin).mp (passes granted)).2 bad
    · exact (EsloqViewSet.partialUpdate_served arrives own pk (admin_of_isAdmin own.1 pk granted)).mpr
        ⟨keyed, spared⟩
  · rw [IsAdminOrNoPatch.hasPermission, if_neg patch, and_iff_right (fine_ok true), imp_iff_right rfl,
      or_iff_left patch, or_iff_left fun both => patch both.1, not_and]
    exact and_iff_left fun same => absurd same patch

theorem userDetail_served {digits : String} (arrives : Arrives env request db)
    (accepted : request.refused = none) (pk : request.pk = some digits) :
    WellServed db (userDetail.dispatch request db) ↔ ¬ userDetailCrash request db := by
  refine owner_dispatch accepted rfl fun user own => ?_
  have queried := queried_own arrives own (EsloqUserViewSet.getQueryset_eq db own.2)
  show WellServed db _ ↔ _
  rw [View.wellServed_handler (.of_methods [.get] rfl (by decide)),
    and_iff_right fun _ => View.wellServed_options_of_plain rfl]
  simp only [userDetail, List.mem_singleton, forall_eq, and_true]
  rw [EsloqUserViewSet.retrieve, wellServed_retrieve pk queried, not_and]
  exact Iff.rfl

/-- The two routes that delete all rows of a lock. -/
theorem bulk_served {view : ApiView} {delete : Option Int → Database → Database} {digits : String}
    {serializer : FormFields Database}
    (isView : view = ⟨[IsAuthenticated.hasPermission, AuthenticatedUserIsURLUser.hasPermission,
      IsAdmin.hasPermission env.fields], [(.delete, destroyAll delete)], some serializer⟩)
    (accepted : request.refused = none) (pk : request.pk = some digits) :
    WellServed db (view.dispatch request db) ↔ ¬ bulkCrash request db := by
  subst isView
  refine owner_dispatch accepted rfl fun user own => ?_
  show Fine _ ∧ (_ → _) ↔ _
  rw [IsAdmin.hasPermission, fine_isAdmin]
  refine and_iff_left_iff_imp.mpr fun keyed _ => ?_
  refine (View.wellServed_handler (.of_methods [.delete] rfl (by decide))).mpr ⟨fun _ => ?_, ?_⟩
  · exact View.wellServed_options_of_plain rfl
  · exact List.forall_mem_singleton.mpr fun _ => (wellServed_destroyAll pk).mpr keyed

theorem lockAll_served (accepted : request.refused = none) :
    WellServed db (lockAll.dispatch request db) ↔ ¬ lockAllCrash request db := by
  rw [View.wellServed_dispatch accepted]
  show Fine _ ∧ (_ → WellServed db _) ↔ _
  rw [View.wellServed_handler (.of_methods [.get] rfl (by decide)),
    and_iff_right fun _ => View.wellServed_options_of_plain rfl, IsAuthenticated.hasPermission,
    and_iff_right (fine_ok _), Except.ok.injEq]
  simp only [lockAll, List.mem_singleton, forall_eq, and_true]
  rw [AllEsloqViewSet.list, wellServed_listing, AllEsloqViewSet.fine_getQueryset, lockAllCrash,
    not_and, not_and]
  exact Iff.rfl

theorem userAll_served (arrives : Arrives env request db) (accepted : request.refused = none) :
    WellServed db ((userAll env).dispatch request db) ↔ ¬ userAllCrash env request db := by
  rw [View.wellServed_dispatch accepted]
  show WellServed db _ ↔ _
  have described : WellServed db ((userAll env).options request db) :=
    View.wellServed_options.mpr fun _ => calm_ok ()
  rw [View.wellServed_handler (.of_methods [.post, .get] rfl (by decide)), and_iff_right fun _ => described]
  simp only [userAll, List.mem_cons, List.not_mem_nil, forall_eq_or_imp, forall_eq, reduceCtorEq, and_false,
    or_false, and_true]
  rw [AllEsloqUserViewSet.create_served arrives.object, AllEsloqUserViewSet.list, wellServed_listing,
    AllEsloqUserViewSet.fine_getQueryset, userAllCrash, not_or, not_and, not_and, and_comm]
  exact Iff.rfl

theorem lockticketDetail_served {digits : String} (arrives : Arrives env request db)
    (accepted : request.refused = none) (pk : request.pk = some digits) :
    WellServed db ((lockticketDetail env).dispatch request db) ↔ ¬ lockticketCrash request db := by
  refine owner_dispatch accepted rfl fun user own => ?_
  show WellServed db _ ↔ _
  rw [View.wellServed_handler (.of_methods [.get] rfl (by decide)),
    and_iff_right fun _ => View.wellServed_options_of_plain rfl]
  simp only [lockticketDetail, List.mem_singleton, forall_eq, and_true]
  rw [not_and]
  refine imp_congr_right fun _ => ?_
  rw [not_or, LockTicketViewSet.retrieve, kwarg_own arrives own, pk, kwarg]
  cases fit : fits (digitsValue digits) with
  | false =>
      rw [parameter_of_large fit]
      exact iff_of_false (fun served => served.1) fun keyed => keyed.1 ((largePk_iff pk).mpr fit)
  | true =>
      have keyed : ¬ LargePk request := by
        rw [largePk_iff pk, fit]
        decide
      have noTicket : NoTicket request db user ↔ AccessOn db user (digitsValue digits) ∧
          ∀ lock ∈ db.locks.rows, lock.id = digitsValue digits → fits (lock.nonce + 1) = false := by
        rw [NoTicket, pk]
        simp only [Option.some.injEq, exists_eq_left']
      rw [parameter_of_fits fit, and_iff_right keyed, noTicket]
      dsimp only
      rcases @getOr404_access db user (digitsValue digits) _ rfl with ⟨has, access, found⟩ | ⟨hasNot, refused⟩
      · rw [found, and_iff_right has]
        exact ticket_served arrives.contract
      · rw [refused]
        refine iff_of_true ?_ fun both => hasNot both.1
        exact wellServed_error.mpr ⟨Nat.le_of_ble_eq_true rfl, Nat.le_of_ble_eq_true rfl⟩

theorem lockaccessDetail_served {digits : String} (arrives : Arrives env request db)
    (accepted : request.refused = none) (pk : request.pk = some digits) :
    WellServed db ((lockaccessDetail env).dispatch request db) ↔ ¬ detailCrash env request db := by
  refine owner_dispatch accepted rfl fun user own => ?_
  have queried := queried_own arrives own (LockAccessViewSet.getQueryset_eq db own.2)
  have handled : WellServed db ((lockaccessDetail env).handler request.method request db) ↔
      (Reads request → ¬ LargePk request) ∧ (request.method = .delete → ¬ LargePk request) := by
    rw [View.wellServed_handler_get (.of_methods [.get, .delete] rfl (by decide)) rfl,
      and_iff_right fun _ => View.wellServed_options_of_plain rfl, LockAccessViewSet.retrieve,
      wellServed_retrieve pk queried, LockAccessViewSet.destroy, wellServed_destroy,
      fine_getObject pk queried]
    exact Iff.rfl
  rw [handled]
  show Fine _ ∧ (_ → _) ↔ _
  rw [(fine_lookups arrives.storable arrives.object).1, not_or]
  refine and_congr_right fun finds => ⟨fun passes both => ?_, fun spared _ => ⟨?_, ?_⟩⟩
  · refine (passes ?_).1 both.1 both.2
    rw [ReadOnlyIfNoAdminAndUsers.hasPermission, if_pos both.1.safe]
  · exact fun reads large => spared ⟨reads, large⟩
  · intro delete large
    refine finds (lookupFails_of_largePk arrives ?_ large)
    rw [Changes, delete]
    decide

theorem logDetail_served {digits : String} (arrives : Arrives env request db)
    (accepted : request.refused = none) (pk : request.pk = some digits) :
    WellServed db ((logDetail env).dispatch request db) ↔ ¬ detailCrash env request db := by
  refine owner_dispatch accepted rfl fun user own => ?_
  have queried := queried_own arrives own (LogViewSet.getQueryset_eq db own.2)
  have handled : WellServed db ((logDetail env).handler request.method request db) ↔
      (Reads request → ¬ LargePk request) := by
    rw [View.wellServed_handler (.of_methods [.get] rfl (by decide)),
      and_iff_right fun _ => View.wellServed_options_of_plain rfl]
    simp only [logDetail, List.mem_singleton, forall_eq, and_true]
    rw [LogViewSet.retrieve, wellServed_retrieve pk queried]
    exact Iff.rfl
  rw [handled]
  show Fine _ ∧ (_ → Fine _ ∧ (_ → _)) ↔ _
  rw [(fine_lookups arrives.storable arrives.object).2, not_or]
  refine and_congr_right fun finds => ⟨fun passes both => ?_, fun spared _ => ⟨?_, fun _ => ?_⟩⟩
  · refine (passes ?_).2 ?_ both.1 both.2
    · rw [HasAccessOrNoPost.hasPermission, if_pos both.1.safe]
    · rw [PostOnlyForSelf.hasPermission, if_neg]
      intro post
      have safe := both.1.safe
      rw [post] at safe
      cases safe
  · obtain ⟨granted, answered⟩ := @postOnlyForSelf_eq_ok request db arrives.object
    exact answered ▸ fine_ok granted
  · exact fun reads large => spared ⟨reads, large⟩

theorem lockaccessList_served (arrives : Arrives env request db) (accepted : request.refused = none) :
    WellServed db ((lockaccessList env).dispatch request db) ↔ ¬ lockaccessListCrash env request db := by
  refine owner_dispatch accepted rfl fun user own => ?_
  have queried := queried_own arrives own (LockAccessViewSet.getQueryset_eq db own.2)
  have listed : WellServed db (LockAccessViewSet.list request db) := by
    rw [LockAccessViewSet.list, wellServed_listing, queried]
    exact fine_ok _
  have described : WellServed db ((lockaccessList env).options request db) ↔ ¬ Unkeyed env request.data :=
    (wellServed_described rfl rfl own).trans (calm_lockAccessClasses db rfl)
  have handled : WellServed db ((lockaccessList env).handler request.method request db) ↔
      (request.method = .options → ¬ Unkeyed env request.data) ∧
        (request.method = .post → WellServed db (LockAccessViewSet.create env request db)) := by
    rw [View.wellServed_handler_get (.of_methods [.get, .post] rfl (by decide)) rfl, described,
      and_iff_right fun _ => listed]
  rw [handled]
  show Fine _ ∧ (_ → _) ↔ _
  rw [(fine_lookups arrives.storable arrives.object).1, not_or, not_or]
  refine and_congr_right fun finds => ?_
  constructor
  · intro passes
    constructor
    · rintro ⟨options, unkeyed⟩
      refine (passes ?_).1 options unkeyed
      rw [ReadOnlyIfNoAdminAndUsers.hasPermission, options, if_pos (by decide)]
    · rintro ⟨post, shares, crash⟩
      obtain ⟨json, key, value, converted, -⟩ := id shares
      have granted := (readOnlyIfNoAdminAndUsers_post_iff own.1 post arrives.object).mpr shares
      have created := (passes granted).2 post
      rw [LockAccessViewSet.create_served arrives.object (not_largeField value converted)] at created
      exact created crash
  · rintro ⟨describes, posts⟩ granted
    refine ⟨fun options unkeyed => describes ⟨options, unkeyed⟩, fun post => ?_⟩
    have shares := (readOnlyIfNoAdminAndUsers_post_iff own.1 post arrives.object).mp granted
    obtain ⟨json, key, value, converted, -⟩ := id shares
    rw [LockAccessViewSet.create_served arrives.object (not_largeField value converted)]
    exact fun crash => posts ⟨post, shares, crash⟩

/-- The caller's own user is found under the number of the body. -/
theorem names_of_namesSelf {user : EsloqUser} (arrives : Arrives env request db)
    (caller : request.user = some user) (self : NamesSelf request user) :
    user ∈ db.users.rows ∧ Names env request "user_id" user.id := by
  obtain ⟨json, has, equal⟩ := self
  have isMember := arrives.caller user caller
  exact ⟨isMember, json, has, lookupKey_of_equalsNumber_fits (arrives.storable.users user isMember) equal⟩

theorem not_largeField_of_names {name : String} {key : Nat} (names : Names env request name key) :
    ¬ LargeField env request name := by
  obtain ⟨json, has, converted⟩ := names
  exact not_largeField (getOrMinusOne_of_get has) converted

/-- A granted log is saved, but for these. -/
theorem LogViewSet.create_served {user : EsloqUser} (arrives : Arrives env request db)
    (caller : request.user = some user) (self : NamesSelf request user)
    (within : ¬ LargeField env request "lock_id") :
    WellServed db (LogViewSet.create env request db) ↔
      ¬ ((env.fields.integer request.data "access_time").Fails ∨
        (env.fields.boolean request.data "lock_state").Fails ∨ NullState env request db) := by
  obtain ⟨isUser, named⟩ := names_of_namesSelf arrives caller self
  have saves : (∀ new, LogSerializer.isValid env.fields request.data db = .ok new →
      Fine (LogSerializer.save env.now new db)) ↔
      ¬ ∃ new, LogSerializer.isValid env.fields request.data db = .ok new ∧
        (new.lockState = none ∨ fits (new.accessTime.getD env.now) = false) := by
    simp only [LogSerializer.fine_save, not_exists, not_and]
  rw [LogViewSet.create, wellServed_create, saves,
    LogSerializer.fine_isValid arrives.object within (not_largeField_of_names named), not_or, not_or, and_assoc]
  refine and_congr_right fun timed => and_congr_right fun stated => not_congr ?_
  exact LogSerializer.isValid_of_null arrives.object timed stated ⟨user, isUser, named⟩

/-- A caller with access on the lock of the body has given a key. -/
theorem mayLog_iff {user : EsloqUser} (arrives : Arrives env request db) (caller : request.user = some user)
    (post : request.method = .post) :
    HasAccessOrNoPost.hasPermission env.fields request db = .ok true ∧
      PostOnlyForSelf.hasPermission request db = .ok true ↔ MayLog env request db user := by
  rw [postOnlyForSelf_post_iff caller post arrives.object, MayLog, hasAccessOrNoPost_of_post db post]
  refine and_congr_left fun _ => ?_
  obtain ⟨value, has⟩ := get_eq_ok arrives.object "lock_id"
  constructor
  · intro granted
    obtain ⟨json, given, granted⟩ := bind_eq_ok.mp granted
    obtain ⟨key, converted⟩ : ∃ key, lookupKey env.fields.integerOfText json = .ok key := by
      cases converted : lookupKey env.fields.integerOfText json with
      | error failure =>
          rw [hasAccess, converted] at granted
          cases granted
      | ok key => exact ⟨key, rfl⟩
    have found : ∃ access ∈ db.lockAccesses.rows, access.isOf (userIdOf request) key = true := by
      rw [hasAccess, converted] at granted
      exact List.any_eq_true.mp (Except.ok.inj granted)
    obtain ⟨access, isAccess, isOf⟩ := found
    have ofLock : some (access.lockId : Int) = key := (of_decide_eq_true isOf).2
    subst ofLock
    refine ⟨access.lockId, ?_, (hasAccess_iff caller converted).mp granted⟩
    cases value with
    | some json' =>
        rw [getOrMinusOne_of_get has, Except.ok.injEq] at given
        exact ⟨json, given ▸ has, converted⟩
    | none =>
        have minusOne : Json.int (-1) = json := by
          rw [Data.getOrMinusOne, has] at given
          exact Except.ok.inj given
        rw [← minusOne] at converted
        have negative : (-1 : Int) = access.lockId := Option.some.inj (Except.ok.inj converted)
        omega
  · rintro ⟨lockId, ⟨json, given, converted⟩, access⟩
    rw [getOrMinusOne_of_get given]
    exact (hasAccess_iff caller converted).mpr access

theorem logList_served (arrives : Arrives env request db) (accepted : request.refused = none) :
    WellServed db ((logList env).dispatch request db) ↔ ¬ logListCrash env request db := by
  refine owner_dispatch accepted rfl fun user own => ?_
  have queried := queried_own arrives own (LogViewSet.getQueryset_eq db own.2)
  have listed : WellServed db (LogViewSet.list request db) := by
    rw [LogViewSet.list, wellServed_listing, queried]
    exact fine_ok _
  have described : WellServed db ((logList env).options request db) ↔ ¬ Unkeyed env request.data :=
    (wellServed_described rfl rfl own).trans (calm_logClasses db rfl)
  have handled : WellServed db ((logList env).handler request.method request db) ↔
      (request.method = .options → ¬ Unkeyed env request.data) ∧
        (request.method = .post → WellServed db (LogViewSet.create env request db)) := by
    rw [View.wellServed_handler_get (.of_methods [.get, .post] rfl (by decide)) rfl, described,
      and_iff_right fun _ => listed]
  have created (mayLog : MayLog env request db user) :=
    LogViewSet.create_served arrives own.1 mayLog.2 (not_largeField_of_names mayLog.1.choose_spec.1)
  rw [handled]
  show Fine _ ∧ (_ → Fine _ ∧ (_ → _)) ↔ _
  rw [(fine_lookups arrives.storable arrives.object).2, not_or, not_or]
  refine and_congr_right fun finds => ?_
  obtain ⟨granted, answered⟩ := @postOnlyForSelf_eq_ok request db arrives.object
  have fineSelf : Fine (PostOnlyForSelf.hasPermission request db) := answered ▸ fine_ok granted
  constructor
  · intro passes
    constructor
    · rintro ⟨options, unkeyed⟩
      refine ((passes ?_).2 ?_).1 options unkeyed
      · rw [HasAccessOrNoPost.hasPermission, options, if_pos (by decide)]
      · rw [PostOnlyForSelf.hasPermission, options, if_neg (by decide)]
    · rintro ⟨post, mayLog, crash⟩
      obtain ⟨has, self⟩ := (mayLog_iff arrives own.1 post).mpr mayLog
      exact (created mayLog).mp (((passes has).2 self).2 post) crash
  · rintro ⟨describes, posts⟩ has
    refine ⟨fineSelf, fun self => ⟨fun options unkeyed => describes ⟨options, unkeyed⟩, fun post => ?_⟩⟩
    have mayLog := (mayLog_iff arrives own.1 post).mp ⟨has, self⟩
    exact (created mayLog).mpr fun crash => posts ⟨post, mayLog, crash⟩

/-- A registration of the caller is saved, but for a token that cannot be sent to the database. -/
theorem FcmRegistrationViewSet.create_served {user : EsloqUser} (arrives : Arrives env request db)
    (caller : request.user = some user) (self : NamesSelf request user) :
    WellServed db (FcmRegistrationViewSet.create env request db) ↔ ¬ BadToken env request := by
  obtain ⟨isUser, named⟩ := names_of_namesSelf arrives caller self
  have found := related_iff.mpr ⟨isUser, named⟩
  rw [FcmRegistrationViewSet.create, wellServed_create,
    and_iff_left fun new valid => FcmRegistrationSerializer.fine_save valid, BadToken, not_or]
  rw [FcmRegistrationSerializer.isValid, fine_mapped arrives.object, fine_read_bind]
  refine and_congr_right fun _ => ?_
  constructor
  · intro fine surrogates
    have encoded := (fine_bind.mp fine).2 _ found
    rw [surrogates] at encoded
    exact fine_error.mp encoded
  · intro encodable
    refine fine_bind.mpr ⟨(fine_related arrives.object).mpr (not_largeField_of_names named), fun user _ => ?_⟩
    cases user with
    | value user =>
        cases read : env.fields.text request.data "registration_token" 512 with
        | value text =>
            cases text with
            | surrogates => exact absurd read encodable
            | encoded token =>
                refine fine_bind.mpr ⟨fine_ok token, fun _ _ => ?_⟩
                split
                · exact fine_refused
                · exact fine_ok _
        | _ => exact fine_refused
    | _ => exact fine_refused

theorem fcmregistrationList_served (arrives : Arrives env request db) (accepted : request.refused = none) :
    WellServed db ((fcmregistrationList env).dispatch request db) ↔
      ¬ fcmregistrationListCrash env request db := by
  refine owner_dispatch accepted rfl fun user own => ?_
  obtain ⟨value, has⟩ := get_eq_ok arrives.object "user_id"
  have described : WellServed db ((fcmregistrationList env).options request db) :=
    (wellServed_described rfl rfl own).mpr ((calm_registrationClasses db rfl).mpr (has ▸ calm_ok value))
  obtain ⟨granted, answered⟩ := @postOnlyForSelf_eq_ok request db arrives.object
  show Fine _ ∧ (_ → WellServed db _) ↔ _
  rw [and_iff_right (answered ▸ fine_ok granted : Fine (PostOnlyForSelf.hasPermission request db)),
    View.wellServed_handler (.of_methods [.post] rfl (by decide)), and_iff_right fun _ => described]
  simp only [fcmregistrationList, List.mem_singleton, forall_eq, reduceCtorEq, and_false, or_false]
  constructor
  · rintro passes ⟨post, self, bad⟩
    have granted : PostOnlyForSelf.hasPermission request db = .ok true :=
      (postOnlyForSelf_post_iff own.1 post arrives.object).mpr self
    exact (FcmRegistrationViewSet.create_served arrives own.1 self).mp (passes granted post) bad
  · intro spared granted post
    have self := (postOnlyForSelf_post_iff own.1 post arrives.object).mp granted
    exact (FcmRegistrationViewSet.create_served arrives own.1 self).mpr fun bad => spared ⟨post, self, bad⟩

end Views

end Esloq
