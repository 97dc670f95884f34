/-
**What the preferences remember (`PreferencesServiceApiImpl.java`, `HomePresenter.java`,
`MyFirebaseInstanceIDService.java`).**

* `Preferences` — the three keys, with the getters and setters of the source.
  `setRegistrationTokenSentToServer` writes the key of the sign-in.
* `SignInInput.step` — a sign-in, a sign-out, a new token, or the result of a registration that has been
  requested before, at any time.
* `Remembering.Remembers` — both getters return what was last set.
* `remembered_iff` — for every order of the inputs this is so after each exactly if no result overwrites
  something (`SignInInput.Overwrites`).
-/

import Esloq.Lib.Prefixes

namespace Esloq

open Prefixes

/-! ### The three keys -/

/-- `SIGNED_IN`, `RE_SIGNED_IN` and `SENT_TOKEN_TO_SERVER`; a key that is absent reads as false. -/
structure Preferences where
  signedIn : Bool
  reSignedIn : Bool
  sentTokenToServer : Bool
  deriving DecidableEq

namespace Preferences

/-- After the installation. -/
def absent : Preferences := ⟨false, false, false⟩

/-- `isSignedIn`. -/
def isSignedIn (preferences : Preferences) : Bool := preferences.signedIn && preferences.reSignedIn

/-- `setSignedIn`. -/
def setSignedIn (signedIn : Bool) (preferences : Preferences) : Preferences :=
  { preferences with signedIn := signedIn, reSignedIn := signedIn }

/-- `isRegistrationTokenSentToServer`. -/
def isRegistrationTokenSentToServer (preferences : Preferences) : Bool := preferences.sentTokenToServer

/-- `setRegistrationTokenSentToServer`. -/
def setRegistrationTokenSentToServer (sentToServer : Bool) (preferences : Preferences) : Preferences :=
  { preferences with signedIn := sentToServer }

theorem isSignedIn_setSignedIn (signedIn : Bool) (preferences : Preferences) :
    (preferences.setSignedIn signedIn).isSignedIn = signedIn := Bool.and_self signedIn

/-- What a result leaves of the sign-in. -/
theorem isSignedIn_setRegistrationTokenSentToServer (sent : Bool) (preferences : Preferences) :
    (preferences.setRegistrationTokenSentToServer sent).isSignedIn = (sent && preferences.reSignedIn) := rfl

end Preferences

/-! ### Sign-ins and registrations -/

/-- The preferences, the registrations whose results have not arrived, and what was last set. -/
structure Remembering where
  preferences : Preferences
  pending : Nat
  /-- The argument of the last `setSignedIn`. -/
  lastSignedIn : Bool
  /-- The argument of the last `setRegistrationTokenSentToServer`. -/
  lastSent : Bool
  deriving DecidableEq

/-- An input; a result is that of some registration that has been requested. -/
inductive SignInInput
  | signInSuccess
  | signInFailure
  | onSignOut
  | onTokenRefresh
  | registrationResult (success : Bool)
  deriving DecidableEq

namespace Remembering

/-- Some preferences, before anything is set; what they return counts as set. -/
def start (preferences : Preferences) : Remembering :=
  ⟨preferences, 0, preferences.isSignedIn, preferences.isRegistrationTokenSentToServer⟩

def setSignedIn (signedIn : Bool) (s : Remembering) : Remembering :=
  { s with preferences := s.preferences.setSignedIn signedIn, lastSignedIn := signedIn }

def setRegistrationTokenSentToServer (sent : Bool) (s : Remembering) : Remembering :=
  { s with preferences := s.preferences.setRegistrationTokenSentToServer sent, lastSent := sent }

/-- Both getters return what was last set. -/
structure Remembers (s : Remembering) : Prop where
  signedIn : s.preferences.isSignedIn = s.lastSignedIn
  sent : s.preferences.isRegistrationTokenSentToServer = s.lastSent

end Remembering

namespace SignInInput

/-- One input. A new token is registered while somebody is signed in. -/
def step (input : SignInInput) (s : Remembering) : Remembering :=
  match input with
  | .signInSuccess => { s.setSignedIn true with pending := s.pending + 1 }
  | .signInFailure | .onSignOut => s.setSignedIn false
  | .onTokenRefresh => if s.preferences.isSignedIn then { s with pending := s.pending + 1 } else s
  | .registrationResult success =>
      if s.pending = 0 then s
      else { s.setRegistrationTokenSentToServer success with pending := s.pending - 1 }

/-- The result of a registration that differs from the stored one, or changes whether somebody is signed
in. -/
def Overwrites (input : SignInInput) (s : Remembering) : Prop :=
  match input with
  | .registrationResult success =>
      s.pending ≠ 0 ∧ (success ≠ s.preferences.sentTokenToServer ∨
        (success && s.preferences.reSignedIn) ≠ s.preferences.isSignedIn)
  | _ => False

instance decidableOverwrites (s : Remembering) : (input : SignInInput) → Decidable (input.Overwrites s)
  | .registrationResult _ => inferInstanceAs (Decidable (_ ≠ 0 ∧ (_ ≠ _ ∨ _ ≠ _)))
  | .signInSuccess | .signInFailure | .onSignOut | .onTokenRefresh => isFalse not_false

/-! ### What a step keeps -/

variable {s : Remembering}

/-- Where both getters return what was last set, they do so after a step that does not overwrite. -/
theorem remembers_step_iff (input : SignInInput) (remembers : s.Remembers) :
    (input.step s).Remembers ↔ ¬ input.Overwrites s := by
  obtain ⟨signedIn, sent⟩ := remembers
  cases input with
  | signInSuccess =>
      refine iff_of_true ⟨?_, sent⟩ not_false
      exact s.preferences.isSignedIn_setSignedIn true
  | signInFailure | onSignOut =>
      refine iff_of_true ⟨?_, sent⟩ not_false
      exact s.preferences.isSignedIn_setSignedIn false
  | onTokenRefresh =>
      refine iff_of_true ?_ not_false
      unfold step
      by_cases there : s.preferences.isSignedIn = true
      · rw [if_pos there]
        exact ⟨signedIn, sent⟩
      · rw [if_neg there]
        exact ⟨signedIn, sent⟩
  | registrationResult success =>
      simp only [step]
      by_cases none' : s.pending = 0
      · rw [if_pos none']
        exact iff_of_true ⟨signedIn, sent⟩ fun overwrites => overwrites.1 none'
      · rw [if_neg none']
        constructor
        · rintro ⟨signedIn', sent'⟩ ⟨-, other | changed⟩
          · exact other sent'.symm
          · refine changed (Eq.trans ?_ signedIn.symm)
            exact signedIn'
        · intro kept
          have both := not_or.mp fun wrong => kept ⟨none', wrong⟩
          refine ⟨?_, (not_not.mp both.1).symm⟩
          exact (not_not.mp both.2).trans signedIn

end SignInInput

/-- **Sign-in and registration are remembered exactly if no result overwrites something.** -/
theorem remembered_iff (preferences : Preferences) (inputs : List SignInInput) :
    (∀ done, done <+: inputs →
        (After SignInInput.step done (Remembering.start preferences)).Remembers) ↔
      ∀ done next, done ++ [next] <+: inputs →
        ¬ next.Overwrites (After SignInInput.step done (Remembering.start preferences)) :=
  kept_iff SignInInput.step (fun input _ remembers => input.remembers_step_iff remembers) inputs ⟨rfl, rfl⟩

/-- After the installation every success of a registration overwrites, and so does a failure while somebody is
signed in: nothing ever writes `SENT_TOKEN_TO_SERVER`. -/
theorem overwrites_iff (inputs : List SignInInput) (success : Bool) :
    (SignInInput.registrationResult success).Overwrites
        (After SignInInput.step inputs (Remembering.start .absent)) ↔
      (After SignInInput.step inputs (Remembering.start .absent)).pending ≠ 0 ∧ (success = true ∨
        (After SignInInput.step inputs (Remembering.start .absent)).preferences.isSignedIn = true) := by
  have unsent : (After SignInInput.step inputs
      (Remembering.start .absent)).preferences.sentTokenToServer = false := by
    refine after_holds SignInInput.step (fun s => s.preferences.sentTokenToServer = false) ?_ inputs rfl
    intro input s unsent
    cases input with
    | signInSuccess | signInFailure | onSignOut => exact unsent
    | onTokenRefresh =>
        simp only [SignInInput.step]
        split <;> exact unsent
    | registrationResult success =>
        simp only [SignInInput.step]
        split <;> exact unsent
  unfold SignInInput.Overwrites
  simp only
  rw [unsent]
  cases success with
  | true => exact and_congr_right fun _ => iff_of_true (Or.inl Bool.true_eq_false.mp) (Or.inl rfl)
  | false =>
      refine and_congr_right fun _ => ⟨?_, ?_⟩
      · rintro (other | changed)
        · exact absurd rfl other
        · exact Or.inr (Bool.not_eq_false _ |>.mp fun out => changed out.symm)
      · rintro (success | there)
        · exact absurd success Bool.false_ne_true
        · refine Or.inr fun kept => ?_
          exact Bool.false_ne_true (kept.trans there)

/-- The registration of the device fails, and the user is signed out. -/
theorem failed_registration_signs_out :
    ¬ ∀ (preferences : Preferences) (inputs : List SignInInput), ∀ done, done <+: inputs →
      (After SignInInput.step done (Remembering.start preferences)).Remembers := by
  intro every
  have signedIn := (every .absent [.signInSuccess, .registrationResult false] _ (List.prefix_refl _)).signedIn
  revert signedIn
  decide

end Esloq
