/-
**The app's nonces climb as long as its increments do (`Cryptography.java`).**

* `AppPermitted` — what the two methods check, as a rule on traces: a request is encrypted under the
  increment of the stored nonce, a response is accepted only under the session key and above the
  stored nonce, and a broadcast directly follows the response it reports.
* `AppTracks` — the invariant: the stored nonce has no sign bit, and while every send started from a
  nonce that counts up it is at least every nonce used so far.
* `appRun_permitted` — every session follows the rule, whatever the network delivers and whatever is
  thrown.
* `numbers_climb` — so the nonces it uses strictly increase, requests and responses together.
-/

import Esloq.App.Service
import Esloq.Lib.HighWater

namespace Esloq

open Machine

/-- The number of the nonce an event uses. -/
def AppEvent.number : AppEvent → Option Nat
  | .encrypted _ _ nonce _ _ => some (nonceValue nonce)
  | .accepted _ msg _ => some (nonceValue (messageNonce msg))
  | _ => none

/-- Every send started from a nonce whose increment is larger. -/
def SendsCountUp (trace : List AppEvent) : Prop :=
  ∀ stored m, .sends stored m ∈ trace → App.countsUp stored = true

/-- The nonces the sends of a trace started from. -/
def sendNonces (trace : List AppEvent) : List Nonce :=
  trace.filterMap fun
    | .sends stored _ => some stored
    | _ => none

theorem sendsCountUp_iff {trace : List AppEvent} :
    SendsCountUp trace ↔ ∀ stored ∈ sendNonces trace, App.countsUp stored = true := by
  constructor
  · intro counts stored member
    obtain ⟨event, among, sends⟩ := List.mem_filterMap.mp member
    cases event <;> cases sends
    exact counts _ _ among
  · exact fun counts stored m member => counts stored (List.mem_filterMap.mpr ⟨_, member, rfl⟩)

instance (trace : List AppEvent) : Decidable (SendsCountUp trace) :=
  @decidable_of_iff _ _ sendsCountUp_iff.symm (List.decidableBAll _ (sendNonces trace))

theorem SendsCountUp.past {past events : List AppEvent} (counts : SendsCountUp (past ++ events)) :
    SendsCountUp past := fun stored m member => counts stored m (List.mem_append_left _ member)

/-- The rule every event follows. -/
def AppPermitted (box : Secretbox) (sessionKey : Key) (past : List AppEvent) : AppEvent → Prop
  | .encrypted key stored nonce m c =>
      key = sessionKey ∧ .sends stored m ∈ past ∧ nonce = App.incrementByteArray stored ∧
        sealPadded box (oneByte m) nonce key = some c ∧
        (SendsCountUp past → mark AppEvent.number 0 past ≤ nonceValue stored)
  | .accepted key msg rsp =>
      key = sessionKey ∧ messageByte box key msg = some rsp ∧
        (SendsCountUp past → mark AppEvent.number 0 past < nonceValue (messageNonce msg))
  | .broadcast action =>
      ∃ msg rsp code, past.getLast? = some (.accepted sessionKey msg rsp) ∧
        LockResponseCode.fromInteger (App.signedByte rsp) = some code ∧ code.action = some action
  | _ => True

/-- The app's session agrees with the trace. -/
structure AppTracks (sessionKey : Key) (past : List AppEvent) (app : App) : Prop where
  key : app.sessionKey = sessionKey
  unsigned : App.unsigned app.sessionNonce
  mark : SendsCountUp past → mark AppEvent.number 0 past ≤ nonceValue app.sessionNonce

section Rule

variable {box : Secretbox} {sessionKey : Key} {past : List AppEvent} {app : App}

/-- Events without a number, of a call that does not lower the nonce. -/
theorem AppTracks.silent (tracks : AppTracks sessionKey past app) {events : List AppEvent}
    {app' : App} (silent : ∀ event ∈ events, event.number = none)
    (key : app'.sessionKey = app.sessionKey) (unsigned : App.unsigned app'.sessionNonce)
    (raised : SendsCountUp (past ++ events) →
      nonceValue app.sessionNonce ≤ nonceValue app'.sessionNonce) :
    AppTracks sessionKey (past ++ events) app' := by
  refine ⟨key.trans tracks.key, unsigned, fun counts => ?_⟩
  rw [mark_append_of_none past silent]
  exact (tracks.mark counts.past).trans (raised counts)

/-- A send raises the nonce where it counts up. -/
theorem lt_incremented {events : List AppEvent} {m : UInt8}
    (counts : SendsCountUp (past ++ .sends app.sessionNonce m :: events)) :
    nonceValue app.sessionNonce < nonceValue app.incremented.sessionNonce :=
  App.lt_incrementByteArray_iff.mpr (counts _ m (by simp))

theorem sendEncryptedMessage_holds (m : UInt8) (tracks : AppTracks sessionKey past app) :
    (app.sendEncryptedMessage box m).Holds (AppTracks sessionKey) (AppPermitted box sessionKey)
      (fun _ _ => True) past := by
  have unsigned : App.unsigned app.incremented.sessionNonce :=
    App.unsigned_incrementByteArray tracks.unsigned
  rcases app.sendEncryptedMessage_cases box m with ⟨-, value, same⟩ | ⟨c, sealed, same⟩
  · rw [same]
    refine .emit ⟨trivial, trivial, trivial⟩ (tracks.silent (by simp [AppEvent.number]) rfl unsigned
      fun counts => (lt_incremented counts).le)
  · rw [same]
    have before : mark AppEvent.number 0 (past ++ [.sends app.sessionNonce m]) =
        mark AppEvent.number 0 past := mark_append_of_none past (by simp [AppEvent.number])
    refine .emit ⟨trivial, ⟨tracks.key, by simp, rfl, sealed, fun counts => ?_⟩, trivial, trivial⟩
      ⟨tracks.key, unsigned, fun counts => ?_⟩
    · rw [before]
      exact tracks.mark counts.past
    · have above := lt_incremented counts
      have below := tracks.mark counts.past
      rw [mark_append]
      simp only [mark, List.foldl_cons, List.foldl_nil, AppEvent.number, Option.getD_none,
        Option.getD_some] at below ⊢
      omega

theorem processMessage_holds (msg : Bytes 41) (tracks : AppTracks sessionKey past app) :
    (App.processMessage box msg app).Holds (AppTracks sessionKey) (AppPermitted box sessionKey)
      (fun _ _ => True) past := by
  rcases app.processMessage_cases box msg with
    ⟨-, same⟩ | ⟨valid, ⟨-, exception, same⟩ | ⟨rsp, code, opened, named, same⟩⟩
  · rw [same]
    exact .emit ⟨trivial, trivial⟩ (tracks.silent (by simp [AppEvent.number]) rfl tracks.unsigned
      fun _ => Nat.le_refl _)
  · rw [same]
    obtain ⟨plain, above⟩ := (App.isValidSessionNonce_iff tracks.unsigned).mp valid
    exact .emit ⟨trivial, trivial⟩ (tracks.silent (by simp [AppEvent.number]) rfl plain
      fun _ => above.le)
  · rw [same]
    obtain ⟨plain, above⟩ := (App.isValidSessionNonce_iff tracks.unsigned).mp valid
    have reports : ∀ event ∈ (code.action.map AppEvent.broadcast).toList, event.number = none := by
      cases code.action <;> simp [AppEvent.number]
    refine .emit ⟨⟨tracks.key, opened, fun counts => ?_⟩, ?_⟩ ⟨tracks.key, plain, fun counts => ?_⟩
    · exact lt_of_le_of_lt (tracks.mark counts) above
    · cases acts : code.action with
      | none => trivial
      | some action =>
          refine ⟨⟨msg, rsp, code, ?_, named, acts⟩, trivial⟩
          rw [List.getLast?_append, tracks.key]
          rfl
    · have below := tracks.mark counts.past
      rw [← List.append_assoc, mark_append_of_none _ reports, mark_append]
      simp only [mark, List.foldl_cons, List.foldl_nil, AppEvent.number,
        Option.getD_some] at below ⊢
      exact Nat.max_le.mpr ⟨below.trans above.le, Nat.le_refl _⟩

/-- Every call follows the rule. -/
theorem appStep_permitted (input : AppInput) :
    Sound (AppTracks sessionKey) (AppPermitted box sessionKey) (fun _ _ => True)
      (appStep box input) := by
  intro past app tracks
  rcases appStep_cases box input app with ⟨m, same⟩ | ⟨msg, same⟩ | ⟨incoming, events, same, throws⟩
  · rw [same]
    exact sendEncryptedMessage_holds m tracks
  · rw [same]
    exact processMessage_holds msg ⟨tracks.key, tracks.unsigned, tracks.mark⟩
  · rw [same]
    refine .emit ?_ (tracks.silent (fun event member => ?_) rfl tracks.unsigned fun _ => Nat.le_refl _)
    · refine alwaysFrom_mono (P := fun _ event => ∃ exception, event = .threw exception) ?_
        (alwaysFrom_forall.mpr throws)
      rintro _ _ ⟨exception, rfl⟩
      trivial
    · obtain ⟨exception, rfl⟩ := throws event member
      rfl

end Rule

/-- Every session follows the rule. -/
theorem appRun_permitted (box : Secretbox) (sessionKey : Key) (inputs : List AppInput) (app : App) :
    Always (AppPermitted box sessionKey)
      (appRun box inputs (app.setSessionKey sessionKey)).events := by
  have fresh : AppTracks sessionKey [] (app.setSessionKey sessionKey) :=
    ⟨rfl, App.unsigned_zeroNonce, fun _ => Nat.zero_le _⟩
  exact (Sound.run (fun input _ => appStep_permitted input) [] _ fresh).emits

section Climb

variable {box : Secretbox} {sessionKey : Key} {trace : List AppEvent}

/-- A number used while the sends count up is above the mark. -/
theorem AppPermitted.climbs {past : List AppEvent} {event : AppEvent}
    (permitted : AppPermitted box sessionKey past event) (counts : SendsCountUp past) {n : Nat}
    (numbered : event.number = some n) : mark AppEvent.number 0 past < n := by
  cases event with
  | encrypted key stored nonce m c =>
      cases numbered
      obtain ⟨-, sent, raised, -, below⟩ := permitted
      have above := App.lt_incrementByteArray_iff.mpr (counts stored m sent)
      rw [← raised] at above
      exact lt_of_le_of_lt (below counts) above
  | accepted key msg rsp =>
      cases numbered
      exact permitted.2.2 counts
  | _ => cases numbered

/-- **The nonces the app uses strictly increase.** -/
theorem numbers_climb (permitted : Always (AppPermitted box sessionKey) trace)
    (counts : SendsCountUp trace) : (trace.filterMap AppEvent.number).Pairwise (· < ·) := by
  refine pairwise_of_marks (always_iff_splits.mpr fun past event rest split n numbered => ?_)
  rw [split] at counts
  exact (permitted.at split).climbs counts.past numbered

end Climb

end Esloq
