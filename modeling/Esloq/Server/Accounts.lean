/-
**Whose e-mail an authenticated account has (`AllEsloqUserViewSet`, `FirebaseAuthentication`).**

Everyone can post a user, with any `firebase_id` and any e-mail; a request is authenticated as the user
whose `firebase_id` is the `sub` of its token. The e-mail a token vouches for is read nowhere, so it
stands beside the model as a function of the token.

* `UserCall.serve` — a request with its header: the route, content negotiation, the authentication and
  then the view.
* `hasAccount_iff` — the accounts are those that the requests of the run have posted.
* `accounts_posted` — the account of an authenticated request was posted with the token's `sub`, and its
  e-mail is the one posted; so it is the token's exactly if everyone who posts a `sub` posts the e-mail
  of the tokens that carry it.
-/

import Esloq.Lib.Prefixes
import Esloq.Server.Changes

namespace Esloq

open Rest Prefixes

/-! ### Requests with a header -/

/-- What the server keeps from one request to the next. -/
structure ServerState where
  db : Database
  /-- `firebase_certs.txt`. -/
  cached : Certs

/-- A request as it arrives: its user is not known yet. -/
structure UserCall where
  env : Env
  path : List String
  request : ApiRequest
  authHeader : Option String
  /-- What the certificate endpoint answers if it is asked. -/
  answer : Option Certs

section Serve

variable {PublicKey : Type} (jwt : Jwt PublicKey) (testCert : String)

/-- The certificates the code can reach during a request. -/
def UserCall.files (call : UserCall) (server : ServerState) : Certificates :=
  ⟨server.cached, testCert, call.answer⟩

/-- The request reaches a view, which authenticates it. -/
def UserCall.arrives (call : UserCall) : Bool :=
  match resolve (urlpatterns call.env) call.path with
  | none => false
  | some (_, kwargs) => (call.request.withKwargs kwargs).refused.isNone

/-- The authentication of a request, if it comes to that. -/
def UserCall.authentication (call : UserCall) (server : ServerState) :
    Certs × Except PyError (Option EsloqUser) :=
  if call.arrives then
    FirebaseAuthentication.authenticate jwt (call.files testCert server) server.db.users
      call.authHeader
  else (server.cached, .ok none)

/-- The server after a request. -/
def UserCall.serve (call : UserCall) (server : ServerState) : ServerState :=
  match call.authentication jwt testCert server with
  | (cached, .error _) => { server with cached }
  | (cached, .ok user) =>
      { db := (handle call.env call.path { call.request with user } server.db).1, cached }

/-- The request posts a user. -/
def UserCall.Creates (call : UserCall) (server : ServerState) (new : NewUser) : Prop :=
  ∃ cached user, call.authentication jwt testCert server = (cached, .ok user) ∧
    ∃ kwargs, PostsUser call.env call.path { call.request with user } server.db kwargs new

/-- The request presents a token that is accepted, with its `sub`. -/
def UserCall.Presents (call : UserCall) (server : ServerState) (token sub : String) : Prop :=
  call.arrives = true ∧ call.authHeader.bind bearerToken = some token ∧
    (verifyidtoken jwt (call.files testCert server) token).2 = .ok ⟨some sub⟩

end Serve

/-! ### What one request does -/

section Step

variable {PublicKey : Type} {jwt : Jwt PublicKey} {testCert : String}

/-- A token authenticates the user whose `firebase_id` is its `sub`. -/
theorem authenticateToken_iff {files : Certificates} {users : EsloqUsers} {token : String}
    {user : EsloqUser} :
    (∃ cached, FirebaseAuthentication.authenticateToken jwt files users token =
      (cached, .ok (some user))) ↔
      user ∈ users.rows ∧ ∃ sub, (verifyidtoken jwt files token).2 = .ok ⟨some sub⟩ ∧
        user.firebaseId = some sub := by
  unfold FirebaseAuthentication.authenticateToken
  obtain ⟨certs, idinfo⟩ := verifyidtoken jwt files token
  cases idinfo with
  | error error => cases error <;> simp
  | ok claims =>
      obtain ⟨sub | sub⟩ := claims
      · simp
      · dsimp only
        rcases getOne_firebaseId users sub with ⟨found, member, identified, got⟩ | ⟨unknown, got⟩
        · simp only [got]
          constructor
          · rintro ⟨cached, same⟩
            cases same
            exact ⟨member, sub, rfl, identified⟩
          · rintro ⟨isRow, other, same, ofUser⟩
            cases same
            obtain rfl := users.eq_of_column List.mem_cons_self member isRow identified ofUser
            exact ⟨certs, rfl⟩
        · simp only [got]
          constructor
          · rintro ⟨cached, same⟩
            cases same
          · rintro ⟨isRow, other, same, ofUser⟩
            cases same
            exact absurd ofUser (unknown user isRow)

/-- A request is authenticated as a user exactly if it presents the user's `sub`. -/
theorem authentication_iff {call : UserCall} {server : ServerState} {user : EsloqUser} :
    (∃ cached, call.authentication jwt testCert server = (cached, .ok (some user))) ↔
      user ∈ server.db.users.rows ∧
        ∃ token sub, call.Presents jwt testCert server token sub ∧ user.firebaseId = some sub := by
  unfold UserCall.authentication
  by_cases arrives : call.arrives = true
  · rw [if_pos arrives]
    cases bears : call.authHeader.bind bearerToken with
    | none =>
        have nothing : ∀ header token, call.authHeader = some header →
            bearerToken header ≠ some token := by
          intro header token same bearer
          rw [same, Option.bind_some, bearer] at bears
          cases bears
        rw [authenticate_of_no_token nothing]
        constructor
        · rintro ⟨cached, same⟩
          cases same
        · rintro ⟨-, token, sub, ⟨-, other, -⟩, -⟩
          rw [bears] at other
          cases other
    | some token =>
        obtain ⟨header, has, bearer⟩ := Option.bind_eq_some_iff.mp bears
        rw [has, authenticate_of_token bearer, authenticateToken_iff]
        refine and_congr_right fun _ => ?_
        constructor
        · rintro ⟨sub, verified, ofUser⟩
          exact ⟨token, sub, ⟨arrives, bears, verified⟩, ofUser⟩
        · rintro ⟨other, sub, ⟨-, same, verified⟩, ofUser⟩
          rw [bears] at same
          cases same
          exact ⟨sub, verified, ofUser⟩
  · rw [if_neg arrives]
    constructor
    · rintro ⟨cached, same⟩
      cases same
    · rintro ⟨-, token, sub, presents, -⟩
      exact absurd presents.1 arrives

/-- There is an account with a `firebase_id` and an e-mail. -/
def HasAccount (sub email : String) (server : ServerState) : Prop :=
  ∃ user ∈ server.db.users.rows, user.firebaseId = some sub ∧ user.email = email

/-- A request adds the account it posts. -/
theorem hasAccount_serve (sub email : String) (call : UserCall) (server : ServerState) :
    HasAccount sub email (call.serve jwt testCert server) ↔ HasAccount sub email server ∨
      ∃ new, call.Creates jwt testCert server new ∧ new.firebaseId = some sub ∧ new.email = email := by
  unfold UserCall.serve
  cases outcome : call.authentication jwt testCert server with
  | mk cached result =>
      cases result with
      | error error =>
          refine ⟨Or.inl, fun held => held.resolve_right ?_⟩
          rintro ⟨new, ⟨cached', user, same, -⟩, -⟩
          rw [outcome] at same
          cases same
      | ok user =>
          have changed := handle_changed call.env call.path { call.request with user } server.db
          unfold HasAccount
          constructor
          · rintro ⟨row, member, ofSub, ofEmail⟩
            rcases changed.users with same | ⟨kwargs, new, posted, posts, stored, added⟩
            · exact .inl ⟨row, same ▸ member, ofSub, ofEmail⟩
            · rw [added] at member
              rcases List.mem_append.mp member with isOld | isNew
              · exact .inl ⟨row, isOld, ofSub, ofEmail⟩
              · obtain rfl := List.mem_singleton.mp isNew
                exact .inr ⟨new, ⟨cached, user, outcome, kwargs, posts⟩, stored.1.symm.trans ofSub,
                  stored.2.symm.trans ofEmail⟩
          · rintro (⟨row, member, both⟩ | ⟨new, ⟨cached', user', same, kwargs, posts⟩, both⟩)
            · refine ⟨row, ?_, both⟩
              rcases changed.users with same | ⟨-, -, posted, -, -, added⟩
              · exact same ▸ member
              · rw [added]
                exact List.mem_append_left _ member
            · rw [outcome] at same
              cases same
              obtain ⟨posted, stored, added⟩ := posts.handled
              refine ⟨posted, ?_, stored.1.trans both.1, stored.2.trans both.2⟩
              rw [added]
              exact List.mem_append_right _ (List.mem_singleton.mpr rfl)

end Step

/-! ### Runs -/

section Runs

variable {PublicKey : Type} (jwt : Jwt PublicKey) (testCert : String)

/-- A request of a run has posted an account with a `firebase_id` and an e-mail. -/
def Posted (calls : List UserCall) (start : ServerState) (sub email : String) : Prop :=
  ∃ done call, done ++ [call] <+: calls ∧
    ∃ new, call.Creates jwt testCert (After (UserCall.serve jwt testCert) done start) new ∧
      new.firebaseId = some sub ∧ new.email = email

/-- The e-mail that a request's token vouches for is that of the user it is authenticated as. -/
def OwnsAccount (emailClaim : String → Option String) (call : UserCall) (server : ServerState) : Prop :=
  ∀ cached user, call.authentication jwt testCert server = (cached, .ok (some user)) →
    ∃ token, call.authHeader.bind bearerToken = some token ∧ emailClaim token = some user.email

/-- The accounts are those that have been posted. -/
theorem hasAccount_iff {start : ServerState} (empty : start.db.users.rows = [])
    (calls : List UserCall) (sub email : String) :
    HasAccount sub email (After (UserCall.serve jwt testCert) calls start) ↔
      Posted jwt testCert calls start sub email := by
  rw [grown_iff (UserCall.serve jwt testCert) (hasAccount_serve sub email), or_iff_right]
  · exact Iff.rfl
  · rintro ⟨user, member, -⟩
    rw [empty] at member
    cases member

/-- **Whose e-mail an authenticated account has.** From an empty user table, in every run of requests of
any method, path, body and header: a request is authenticated only as the user whose `firebase_id` is
the `sub` of the token it presents, and whose `firebase_id` and e-mail a request before it has posted.
So that e-mail is the one the token vouches for, in every authentication of the run, exactly if each
e-mail that was posted with the `sub` of a token presented later is the one that token vouches for. -/
theorem accounts_posted (emailClaim : String → Option String) (calls : List UserCall)
    {start : ServerState} (empty : start.db.users.rows = []) :
    (∀ done call, done ++ [call] <+: calls → ∀ cached user,
      call.authentication jwt testCert (After (UserCall.serve jwt testCert) done start) =
        (cached, .ok (some user)) →
      ∃ token sub, call.Presents jwt testCert (After (UserCall.serve jwt testCert) done start) token
        sub ∧ user.firebaseId = some sub ∧ Posted jwt testCert done start sub user.email) ∧
    ((∀ done call, done ++ [call] <+: calls →
      OwnsAccount jwt testCert emailClaim call (After (UserCall.serve jwt testCert) done start)) ↔
      ∀ done call, done ++ [call] <+: calls → ∀ token sub email,
        call.Presents jwt testCert (After (UserCall.serve jwt testCert) done start) token sub →
        Posted jwt testCert done start sub email → emailClaim token = some email) := by
  have posted : ∀ done call, done ++ [call] <+: calls → ∀ cached user,
      call.authentication jwt testCert (After (UserCall.serve jwt testCert) done start) =
        (cached, .ok (some user)) →
      ∃ token sub, call.Presents jwt testCert (After (UserCall.serve jwt testCert) done start) token
        sub ∧ user.firebaseId = some sub ∧ Posted jwt testCert done start sub user.email := by
    intro done call front cached user authenticated
    obtain ⟨member, token, sub, presents, ofSub⟩ := authentication_iff.mp ⟨cached, authenticated⟩
    refine ⟨token, sub, presents, ofSub, ?_⟩
    exact (hasAccount_iff jwt testCert empty done sub user.email).mp ⟨user, member, ofSub, rfl⟩
  refine ⟨posted, ?_, ?_⟩
  · intro owns done call front token sub email presents isPosted
    obtain ⟨user, member, ofSub, rfl⟩ := (hasAccount_iff jwt testCert empty done sub email).mpr isPosted
    obtain ⟨cached, authenticated⟩ := authentication_iff.mpr ⟨member, token, sub, presents, ofSub⟩
    obtain ⟨other, bears, claims⟩ := owns done call front cached user authenticated
    obtain rfl := Option.some.inj (presents.2.1.symm.trans bears)
    exact claims
  · intro same done call front cached user authenticated
    obtain ⟨token, sub, presents, -, isPosted⟩ := posted done call front cached user authenticated
    exact ⟨token, presents.2.1, same done call front token sub user.email presents isPosted⟩

end Runs

/-! ### An account under another's e-mail -/

/-- The library on tokens that are their own `sub`, under one certificate. -/
def subJwt : Jwt String where
  getUnverifiedHeader _ := some (some "kid")
  loadPemX509Certificate text := some text
  decode token _ _ _ := some ⟨some token⟩

/-- The e-mail a token vouches for. -/
def sampleEmail (token : String) : Option String := some (token ++ "@user.com")

/-- A server without users. -/
def emptyServer : ServerState where
  db := { sampleDatabase with users := ⟨[], 1, by decide, .nil⟩ }
  cached := [("kid", "securetoken.pem")]

/-- Someone posts an account with a `firebase_id` and an e-mail. -/
def postAccount (sub email : String) : UserCall where
  env := sampleEnv
  path := ["users", ""]
  request := jsonRequest .post none [("firebase_id", .text sub), ("first_name", .text "First"),
    ("last_name", .text "Last"), ("email", .text email)]
  authHeader := none
  answer := none

/-- Someone asks for the locks with a token. -/
def listLocks (token : String) : UserCall where
  env := sampleEnv
  path := ["locks", ""]
  request := jsonRequest .get none []
  authHeader := some ("Bearer " ++ token)
  answer := none

theorem accounts_posted_own :
    (∀ done call, done ++ [call] <+: [postAccount "one" "one@user.com", listLocks "one"] →
      OwnsAccount subJwt "cert.pem" sampleEmail call
        (After (UserCall.serve subJwt "cert.pem") done emptyServer)) ↔
      ∀ done call, done ++ [call] <+: [postAccount "one" "one@user.com", listLocks "one"] →
        ∀ token sub email, call.Presents subJwt "cert.pem"
          (After (UserCall.serve subJwt "cert.pem") done emptyServer) token sub →
        Posted subJwt "cert.pem" done emptyServer sub email → sampleEmail token = some email :=
  (accounts_posted subJwt "cert.pem" sampleEmail _ rfl).2

/-- **An account under another's e-mail.** The user "two" posts an account with their `firebase_id` and
the e-mail of "one", and is authenticated as it. -/
theorem account_of_other : emptyServer.db.users.rows = [] ∧
    ∃ calls call, calls ++ [call] <+: [postAccount "two" "one@user.com", listLocks "two"] ∧
      ¬ OwnsAccount subJwt "cert.pem" sampleEmail call
        (After (UserCall.serve subJwt "cert.pem") calls emptyServer) := by
  refine ⟨rfl, [postAccount "two" "one@user.com"], listLocks "two", List.prefix_rfl, fun owns => ?_⟩
  have authenticated : (listLocks "two").authentication subJwt "cert.pem"
      (After (UserCall.serve subJwt "cert.pem") [postAccount "two" "one@user.com"] emptyServer) =
        ([("kid", "securetoken.pem")],
          .ok (some ⟨1, some "two", "First", "Last", "one@user.com"⟩)) := by
    decide +kernel
  obtain ⟨token, bears, claims⟩ := owns _ _ authenticated
  have isToken : (listLocks "two").authHeader.bind bearerToken = some "two" := by decide +kernel
  rw [isToken] at bears
  cases bears
  revert claims
  decide

end Esloq
