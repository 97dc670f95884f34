/-
**Whose tokens the server believes (`FirebaseAuthentication.authenticate`, `_verifyidtoken`).**

* `verifyidtoken` — the certificate of the token's `kid` is looked up in the cached answer of the
  certificate endpoint, into which a test certificate is put under the `kid` "0", and if it is not
  there, in a new answer.
* `AuthenticatesVouched` — the request is authenticated as a user only if a certificate that the
  endpoint has served vouches for the user, and otherwise it is unauthenticated.
* `authenticates_vouched_iff` — it is so exactly on the headers that are `Sound`: no exception
  escapes, and the `kid` "0" leads to nobody the endpoint does not vouch for.
* `test_key_authenticates` — a token signed with the key of the test certificate is believed.
-/

import Esloq.Lib.Rest
import Esloq.Server.Models

namespace Esloq

open Rest

/-! ### The authentication class -/

/-- The text before the first occurrence of a text, and the text after it. -/
def cut (text : List Char) : List Char → Option (List Char × List Char)
  | [] => none
  | c :: rest =>
      if text.isPrefixOf (c :: rest) then some ([], (c :: rest).drop text.length)
      else (cut text rest).map fun (before, after) => (c :: before, after)

/-- `auth_header.split("Bearer ")[1]`; `none` is the `IndexError`. -/
def bearerToken (authHeader : String) : Option String :=
  (cut "Bearer ".toList authHeader.toList).map fun (_, rest) =>
    match cut "Bearer ".toList rest with
    | some (token, _) => String.ofList token
    | none => String.ofList rest

/-- The claims of a decoded token that are read. -/
structure Claims where
  sub : Option String
  deriving DecidableEq

/-- The functions of `jwt` and `x509` the code calls; `none` is an exception.
`getUnverifiedHeader` gives the `kid` of the header, and `decode` checks signature, audience, issuer
and expiry. -/
structure Jwt (PublicKey : Type) where
  getUnverifiedHeader : String → Option (Option String)
  loadPemX509Certificate : String → Option PublicKey
  decode : String → PublicKey → (audience issuer : String) → Option Claims

/-- An answer of the certificate endpoint: a certificate for each `kid`. -/
abbrev Certs := List (String × String)

/-- The certificates the code can reach: `firebase_certs.txt`, `cert.pem`, and what the endpoint
answers if it is asked. -/
structure Certificates where
  cached : Certs
  testCert : String
  answer : Option Certs

/-- The audience a token must be for. -/
def audience : String := "decoded-totem-95010"

/-- The issuer a token must be from. -/
def issuer : String := "https://securetoken.google.com/decoded-totem-95010"

/-- How `_verifyidtoken` fails. -/
inductive VerifyError
  | invalidSignature
  | raised (error : PyError)
  deriving DecidableEq

variable {PublicKey : Type}

/-- The part of `_verifyidtoken` that has the certificate. -/
def verifyWith (jwt : Jwt PublicKey) (certificateText token : String) : Except VerifyError Claims :=
  match jwt.loadPemX509Certificate certificateText with
  | none => .error (.raised .valueError)
  | some publicKey =>
      match jwt.decode token publicKey audience issuer with
      | none => .error .invalidSignature
      | some verifiedJwt => .ok verifiedJwt

/-- `certs["0"] = test_cert`, and the lookup in `certs`. -/
def Certificates.lookup (files : Certificates) (kid : String) : Option String :=
  if kid = "0" then some files.testCert else files.cached.lookup kid

/-- `_verifyidtoken`: the certificate file after it, and how it ends. -/
def verifyidtoken (jwt : Jwt PublicKey) (files : Certificates) (token : String) :
    Certs × Except VerifyError Claims :=
  match jwt.getUnverifiedHeader token with
  | none => (files.cached, .error (.raised .decodeError))
  | some kid =>
      match kid.bind files.lookup with
      | some certificateText => (files.cached, verifyWith jwt certificateText token)
      | none =>
          match files.answer with
          | none => (files.cached, .error (.raised .urlError))
          | some certs =>
              match kid.bind (fun kid => certs.lookup kid) with
              | none => (certs, .error (.raised .keyError))
              | some certificateText => (certs, verifyWith jwt certificateText token)

namespace FirebaseAuthentication

/-- The part of `authenticate` that has the token. -/
def authenticateToken (jwt : Jwt PublicKey) (files : Certificates) (users : EsloqUsers)
    (token : String) : Certs × Except PyError (Option EsloqUser) :=
  let (certs, idinfo) := verifyidtoken jwt files token
  match idinfo with
  | .error .invalidSignature => (certs, .ok none)
  | .error (.raised error) => (certs, .error error)
  | .ok ⟨none⟩ => (certs, .error .keyError)
  | .ok ⟨some firebaseId⟩ =>
      match getOne (users.rows.filter (·.firebaseId = some firebaseId)) with
      | .error .doesNotExist => (certs, .ok none)
      | .error error => (certs, .error error)
      | .ok user => (certs, .ok (some user))

/-- `FirebaseAuthentication.authenticate`: the certificate file after it, and the user, or nobody, or
the exception that escapes. -/
def authenticate (jwt : Jwt PublicKey) (files : Certificates) (users : EsloqUsers)
    (authHeader : Option String) : Certs × Except PyError (Option EsloqUser) :=
  match authHeader with
  | none => (files.cached, .ok none)
  | some header =>
      if header = "" then (files.cached, .ok none)
      else
        match bearerToken header with
        | none => (files.cached, .ok none)
        | some token => authenticateToken jwt files users token

end FirebaseAuthentication

/-! ### Vouching -/

/-- The endpoint vouches for a user with a token: a certificate that an answer has for the token's `kid`
verifies the token, whose `sub` is the user's. -/
def Vouched (jwt : Jwt PublicKey) (served : List Certs) (token : String) (user : EsloqUser) : Prop :=
  ∃ kid certs certificateText publicKey sub,
    jwt.getUnverifiedHeader token = some (some kid) ∧ certs ∈ served ∧
      certs.lookup kid = some certificateText ∧
      jwt.loadPemX509Certificate certificateText = some publicKey ∧
      jwt.decode token publicKey audience issuer = some ⟨some sub⟩ ∧ user.firebaseId = some sub

/-- The request is authenticated as a user the endpoint vouches for, or it is unauthenticated. The
endpoint has served the certificate file and what it answered earlier. -/
def AuthenticatesVouched (jwt : Jwt PublicKey) (files : Certificates) (users : EsloqUsers)
    (earlier : List Certs) (authHeader : Option String) : Prop :=
  match FirebaseAuthentication.authenticate jwt files users authHeader with
  | (_, .ok none) => True
  | (certs, .ok (some user)) => ∃ header token, authHeader = some header ∧
      bearerToken header = some token ∧ Vouched jwt (certs :: earlier) token user
  | (_, .error _) => False

/-- The certificate a `kid` selects: from the file with the test certificate, else from the answer. -/
def Certificates.select (files : Certificates) (kid : String) : Option String :=
  (files.lookup kid).or (files.answer.bind (·.lookup kid))

/-- The token's header names a `kid` that selects a certificate that loads, a token that verifies under
it has a `sub`, and under the `kid` "0" that is nobody's the endpoint does not vouch for. -/
def Sound (jwt : Jwt PublicKey) (files : Certificates) (users : EsloqUsers) (earlier : List Certs)
    (token : String) : Prop :=
  ∃ kid certificateText publicKey,
    jwt.getUnverifiedHeader token = some (some kid) ∧ files.select kid = some certificateText ∧
      jwt.loadPemX509Certificate certificateText = some publicKey ∧
      ∀ claims, jwt.decode token publicKey audience issuer = some claims →
        ∃ sub, claims.sub = some sub ∧ (kid = "0" → ∀ user ∈ users.rows,
          user.firebaseId = some sub → Vouched jwt (files.cached :: earlier) token user)

section Exact

variable {jwt : Jwt PublicKey} {files : Certificates} {users : EsloqUsers} {earlier : List Certs}
  {token : String}

/-- Where a certificate is selected, the token is decoded under it; unless it is the test certificate,
the certificate file has it afterwards. -/
theorem verifyidtoken_of_selected {kid certificateText : String}
    (named : jwt.getUnverifiedHeader token = some (some kid))
    (selected : files.select kid = some certificateText) :
    ∃ certs, verifyidtoken jwt files token = (certs, verifyWith jwt certificateText token) ∧
      (kid = "0" → certs = files.cached) ∧
      (kid ≠ "0" → certs.lookup kid = some certificateText) := by
  rw [Certificates.select] at selected
  rw [verifyidtoken, named]
  simp only [Option.bind_some]
  cases found : files.lookup kid with
  | some text =>
      obtain rfl : text = certificateText := by simpa [found] using selected
      refine ⟨files.cached, rfl, fun _ => rfl, fun other => ?_⟩
      rwa [Certificates.lookup, if_neg other] at found
  | none =>
      have other : kid ≠ "0" := by
        rintro rfl
        rw [Certificates.lookup, if_pos rfl] at found
        cases found
      rw [found, Option.none_or] at selected
      cases answered : files.answer with
      | none => simp [answered] at selected
      | some certs =>
          rw [answered, Option.bind_some] at selected
          refine ⟨certs, ?_, fun same => absurd same other, fun _ => selected⟩
          simp only [selected]

/-- Where none is selected, an exception escapes. -/
theorem verifyidtoken_of_unselected
    (unselected : ∀ kid certificateText, jwt.getUnverifiedHeader token = some (some kid) →
      files.select kid ≠ some certificateText) :
    ∃ certs error, verifyidtoken jwt files token = (certs, .error (.raised error)) := by
  rw [verifyidtoken]
  cases header : jwt.getUnverifiedHeader token with
  | none => exact ⟨_, _, rfl⟩
  | some kid =>
      have nothing : kid.bind files.lookup = none ∧
          ∀ certs, files.answer = some certs → kid.bind (fun kid => certs.lookup kid) = none := by
        cases kid with
        | none => exact ⟨rfl, fun _ _ => rfl⟩
        | some kid =>
            have absent : files.select kid = none :=
              Option.eq_none_iff_forall_ne_some.mpr fun text => unselected kid text header
            rw [Certificates.select, Option.or_eq_none_iff] at absent
            refine ⟨absent.1, fun certs answered => ?_⟩
            have second := absent.2
            rwa [answered, Option.bind_some] at second
      simp only [nothing.1]
      cases answered : files.answer with
      | none => exact ⟨_, _, rfl⟩
      | some certs =>
          simp only [nothing.2 certs answered]
          exact ⟨_, _, rfl⟩

/-- At most one user has a `firebase_id`. -/
theorem getOne_firebaseId (users : EsloqUsers) (sub : String) :
    (∃ user ∈ users.rows, user.firebaseId = some sub ∧
      getOne (users.rows.filter (·.firebaseId = some sub)) = .ok user) ∨
    ((∀ user ∈ users.rows, user.firebaseId ≠ some sub) ∧
      getOne (users.rows.filter (·.firebaseId = some sub)) = .error .doesNotExist) := by
  cases found : users.rows.filter (·.firebaseId = some sub) with
  | nil =>
      refine .inr ⟨fun user member same => ?_, rfl⟩
      exact List.filter_eq_nil_iff.mp found user member (decide_eq_true same)
  | cons user rest =>
      have isFound : ∀ other ∈ user :: rest, other ∈ users.rows ∧ other.firebaseId = some sub := by
        intro other member
        rw [← found, List.mem_filter] at member
        exact ⟨member.1, of_decide_eq_true member.2⟩
      have first := isFound user List.mem_cons_self
      cases rest with
      | nil => exact .inl ⟨user, first.1, first.2, rfl⟩
      | cons second rest =>
          have nodup : (user :: second :: rest).Nodup := found ▸ users.nodup_rows.filter _
          have isSecond := isFound second (List.mem_cons_of_mem _ List.mem_cons_self)
          have same := users.eq_of_column List.mem_cons_self first.1 isSecond.1 first.2 isSecond.2
          exact absurd (same ▸ List.mem_cons_self) (List.nodup_cons.mp nodup).1

theorem authenticate_of_token {header : String} (bearer : bearerToken header = some token) :
    FirebaseAuthentication.authenticate jwt files users (some header) =
      FirebaseAuthentication.authenticateToken jwt files users token := by
  have filled : header ≠ "" := by
    rintro rfl
    cases bearer
  rw [FirebaseAuthentication.authenticate, if_neg filled]
  simp only [bearer]

theorem authenticate_of_no_token {authHeader : Option String}
    (nothing : ∀ header token, authHeader = some header → bearerToken header ≠ some token) :
    FirebaseAuthentication.authenticate jwt files users authHeader = (files.cached, .ok none) := by
  cases authHeader with
  | none => rfl
  | some header =>
      have unread := Option.eq_none_iff_forall_ne_some.mpr fun token => nothing header token rfl
      rw [FirebaseAuthentication.authenticate]
      simp only [unread, ite_self]

/-- On a sound token only a vouched-for user is authenticated, and no exception escapes. -/
theorem authenticateToken_of_sound (sound : Sound jwt files users earlier token) :
    ∃ certs user, FirebaseAuthentication.authenticateToken jwt files users token = (certs, .ok user) ∧
      ∀ found, user = some found → Vouched jwt (certs :: earlier) token found := by
  obtain ⟨kid, text, publicKey, named, selected, loaded, decoded⟩ := sound
  obtain ⟨certs, verified, ofTest, ofServed⟩ := verifyidtoken_of_selected named selected
  rw [FirebaseAuthentication.authenticateToken, verified, verifyWith, loaded]
  cases decodes : jwt.decode token publicKey audience issuer with
  | none => exact ⟨certs, none, by simp only [decodes], fun _ none' => by cases none'⟩
  | some claims =>
      obtain ⟨sub, hasSub, onTest⟩ := decoded claims decodes
      obtain rfl : claims = ⟨some sub⟩ := by cases claims; cases hasSub; rfl
      simp only [decodes]
      rcases getOne_firebaseId users sub with ⟨user, member, identified, got⟩ | ⟨-, got⟩
      · refine ⟨certs, some user, by rw [got], fun found same => ?_⟩
        obtain rfl := Option.some.inj same
        by_cases zero : kid = "0"
        · rw [ofTest zero]
          exact onTest zero user member identified
        · exact ⟨kid, certs, text, publicKey, sub, named, List.mem_cons_self, ofServed zero, loaded,
            decodes, identified⟩
      · exact ⟨certs, none, by rw [got], fun _ none' => by cases none'⟩

/-- A token on which a vouched-for user is authenticated, or nobody, is sound. -/
theorem sound_of_authenticateToken {certs : Certs} {user : Option EsloqUser}
    (authenticated : FirebaseAuthentication.authenticateToken jwt files users token =
      (certs, .ok user))
    (vouched : ∀ found, user = some found → Vouched jwt (certs :: earlier) token found) :
    Sound jwt files users earlier token := by
  rw [FirebaseAuthentication.authenticateToken] at authenticated
  by_cases selects : ∃ kid text, jwt.getUnverifiedHeader token = some (some kid) ∧
      files.select kid = some text
  · obtain ⟨kid, text, named, selected⟩ := selects
    obtain ⟨certs', verified, ofTest, -⟩ := verifyidtoken_of_selected named selected
    rw [verified, verifyWith] at authenticated
    cases loaded : jwt.loadPemX509Certificate text with
    | none =>
        simp only [loaded] at authenticated
        cases authenticated
    | some publicKey =>
        refine ⟨kid, text, publicKey, named, selected, loaded, fun claims decodes => ?_⟩
        simp only [loaded, decodes] at authenticated
        cases claims with
        | mk sub =>
            cases sub with
            | none => cases authenticated
            | some sub =>
                refine ⟨sub, rfl, fun zero user' member identified => ?_⟩
                rcases getOne_firebaseId users sub with ⟨found, isFound, ofFound, got⟩ | ⟨unknown, -⟩
                · simp only [got] at authenticated
                  cases authenticated
                  obtain rfl := users.eq_of_column List.mem_cons_self isFound member ofFound identified
                  rw [← ofTest zero]
                  exact vouched found rfl
                · exact absurd identified (unknown user' member)
  · obtain ⟨_, _, raised⟩ := verifyidtoken_of_unselected fun kid text named selected =>
      selects ⟨kid, text, named, selected⟩
    rw [raised] at authenticated
    cases authenticated

end Exact

/-- **Whose tokens the server believes.** For all certificate files, answers of the endpoint and
headers: the request is authenticated only as a user for whom a served certificate vouches, and no
exception escapes, if and only if the token of the header, if it has one, is sound. -/
theorem authenticates_vouched_iff (jwt : Jwt PublicKey) (files : Certificates) (users : EsloqUsers)
    (earlier : List Certs) (authHeader : Option String) :
    AuthenticatesVouched jwt files users earlier authHeader ↔
      ∀ header token, authHeader = some header → bearerToken header = some token →
        Sound jwt files users earlier token := by
  rw [AuthenticatesVouched]
  constructor
  · rintro holds header token rfl bearer
    rw [authenticate_of_token bearer] at holds
    cases outcome : FirebaseAuthentication.authenticateToken jwt files users token with
    | mk certs result =>
        rw [outcome] at holds
        cases result with
        | error error => exact holds.elim
        | ok user =>
            refine sound_of_authenticateToken outcome fun found isFound => ?_
            obtain rfl := isFound
            obtain ⟨header', token', same, bearer', vouched⟩ := holds
            obtain rfl := Option.some.inj same
            obtain rfl := Option.some.inj (bearer.symm.trans bearer')
            exact vouched
  · intro sound
    by_cases bearing : ∃ header token, authHeader = some header ∧ bearerToken header = some token
    · obtain ⟨header, token, rfl, bearer⟩ := bearing
      obtain ⟨certs, user, outcome, vouched⟩ :=
        authenticateToken_of_sound (sound header token rfl bearer)
      rw [authenticate_of_token bearer, outcome]
      cases user with
      | none => trivial
      | some user => exact ⟨header, token, rfl, bearer, vouched user rfl⟩
    · rw [authenticate_of_no_token fun header token same bearer => bearing ⟨header, token, same, bearer⟩]
      trivial

/-! ### The test key -/

/-- The library on one token: its header names the `kid` "0" and it is signed with the key of the test
certificate. -/
def testJwt : Jwt String where
  getUnverifiedHeader token := if token = "signed-with-key.pem" then some (some "0") else none
  loadPemX509Certificate text := some text
  decode token publicKey _ _ :=
    if token = "signed-with-key.pem" ∧ publicKey = "cert.pem" then
      some ⟨some "1111111111111111111111111111"⟩
    else none

/-- The certificates of a server whose endpoint has served one certificate. -/
def sampleCertificates : Certificates where
  cached := [("0922463543f615fdd252c3acc48d2595d3ec7bee", "securetoken.pem")]
  testCert := "cert.pem"
  answer := some [("0922463543f615fdd252c3acc48d2595d3ec7bee", "securetoken.pem")]

/-- The first user of the tests. -/
def sampleUser : EsloqUser where
  id := 1
  firebaseId := some "1111111111111111111111111111"
  firstName := "User"
  lastName := "One"
  email := "one@user.com"

/-- A table with the first user. -/
def sampleUsers : EsloqUsers where
  rows := [sampleUser]
  next := 2
  below := by decide
  apart := List.pairwise_singleton _ _

/-- **The test key authenticates.** Whoever has the key in the repository is authenticated as any user;
and a token that is no token at all raises. -/
theorem test_key_authenticates :
    (FirebaseAuthentication.authenticate testJwt sampleCertificates sampleUsers
      (some "Bearer signed-with-key.pem")).2 = .ok (some sampleUser) ∧
    ¬ AuthenticatesVouched testJwt sampleCertificates sampleUsers []
      (some "Bearer signed-with-key.pem") ∧
    ¬ AuthenticatesVouched testJwt sampleCertificates sampleUsers [] (some "Bearer ?") := by
  refine ⟨by rfl, ?_, id⟩
  rintro ⟨header, token, same, bearer, kid, certs, text, publicKey, sub, named, served, listed, -⟩
  obtain rfl := Option.some.inj same
  obtain rfl : "signed-with-key.pem" = token := Option.some.inj bearer
  obtain rfl : "0" = kid := Option.some.inj (Option.some.inj named)
  obtain rfl := List.mem_singleton.mp served
  cases listed

end Esloq
