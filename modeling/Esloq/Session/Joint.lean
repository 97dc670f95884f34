/-
**One session of the app beside the lock, over an adversarial network.**

The two sides share no state: an input is a call of the app's Bluetooth service or a pass of the
lock's main loop, in any order and with any content, so a network that drops, duplicates, reorders,
alters or injects messages is a list of inputs. The app starts right after `setSessionKey`, the lock
at power-up.

* `sessionTrace` — the events of a session.
* `app_permitted`, `lock_permitted` — each side follows its own rule.
* `IdealSession` — the assumption on the cryptography: what opens under the session key was sealed
  under it before, by one of the two sides.
-/

import Esloq.App.Climb
import Esloq.Firmware.Freshness
import Esloq.Lib.Beside

namespace Esloq

open Machine

/-- The events of a session of the app, next to a lock that is switched on. -/
def sessionTrace (box : Secretbox) (masterNonce : Nonce) (masterKey sessionKey : Key) (app : App)
    (inputs : List (AppInput ⊕ Iteration)) : List (AppEvent ⊕ Effect) :=
  (run (beside (appStep box) (loopBody box)) inputs
    (app.setSessionKey sessionKey, bootLock masterNonce masterKey)).events

section Sides

variable (box : Secretbox) (masterNonce : Nonce) (masterKey sessionKey : Key) (app : App)
  (inputs : List (AppInput ⊕ Iteration))

theorem app_permitted : Always (AppPermitted box sessionKey)
    (lefts (sessionTrace box masterNonce masterKey sessionKey app inputs)) := by
  obtain ⟨done, same⟩ := lefts_run (appStep box) (loopBody box) inputs
    (app.setSessionKey sessionKey, bootLock masterNonce masterKey)
  rw [sessionTrace, same]
  exact appRun_permitted box sessionKey done app

theorem lock_permitted : Always (Permitted box masterNonce masterKey)
    (rights (sessionTrace box masterNonce masterKey sessionKey app inputs)) := by
  obtain ⟨done, same⟩ := rights_run (appStep box) (loopBody box) inputs
    (app.setSessionKey sessionKey, bootLock masterNonce masterKey)
  rw [sessionTrace, same]
  exact (mainRun_permitted box masterNonce masterKey done).emits

end Sides

/-! ### Ideal authenticated encryption -/

/-- A message that is encrypted, with its key. -/
def sealedMessage : AppEvent ⊕ Effect → Option (Key × Bytes 41)
  | .inl (.encrypted key _ nonce _ c) => some (key, message nonce c)
  | .inr (.encrypted key _ nonce _ c) => some (key, message nonce c)
  | _ => none

/-- A message that authenticates, with its key. -/
def openedMessage : AppEvent ⊕ Effect → Option (Key × Bytes 41)
  | .inl (.accepted key msg _) => some (key, msg)
  | .inr (.requestDecrypted key msg _) => some (key, msg)
  | _ => none

/-- A message that authenticates under the session key was encrypted under it before. -/
def Unforged (sessionKey : Key) (past : List (AppEvent ⊕ Effect)) (event : AppEvent ⊕ Effect) :
    Prop :=
  ∀ pair ∈ (openedMessage event).toList, pair.1 = sessionKey → pair ∈ past.filterMap sealedMessage

instance (sessionKey : Key) (past : List (AppEvent ⊕ Effect)) (event : AppEvent ⊕ Effect) :
    Decidable (Unforged sessionKey past event) :=
  List.decidableBAll _ (openedMessage event).toList

/-- **Ideal authenticated encryption** for a session: ideal tickets, and nobody but the app and the
lock seals a message under the session key. -/
structure IdealSession (box : Secretbox) (masterKey sessionKey : Key) (issued : Bytes 72 → Prop)
    (trace : List (AppEvent ⊕ Effect)) : Prop
    extends IdealTickets box masterKey issued (rights trace) where
  unforged : Always (Unforged sessionKey) trace

section Ideal

variable {box : Secretbox} {masterKey sessionKey : Key} {issued : Bytes 72 → Prop}
  {trace past rest : List (AppEvent ⊕ Effect)}

/-- Who sealed a message that opens. -/
theorem sealed_of_opened (ideal : IdealSession box masterKey sessionKey issued trace)
    {event : AppEvent ⊕ Effect} (split : trace = past ++ event :: rest) {msg : Bytes 41}
    (opened : openedMessage event = some (sessionKey, msg)) :
    ∃ stored m,
      .inl (.encrypted sessionKey stored (messageNonce msg) m (messageCipher msg)) ∈ past ∨
        .inr (.encrypted sessionKey stored (messageNonce msg) m (messageCipher msg)) ∈ past := by
  have among := ideal.unforged.at split (sessionKey, msg) (by simp [opened]) rfl
  obtain ⟨sealing, member, sealed⟩ := List.mem_filterMap.mp among
  rcases sealing with (_ | ⟨key, stored, nonce, m, c⟩ | _ | _ | _ | _) |
    (_ | _ | _ | _ | _ | _ | _ | _ | _ | ⟨key, stored, nonce, m, c⟩ | _ | _)
  all_goals cases sealed
  · exact ⟨stored, m, Or.inl (by rwa [messageNonce_message, messageCipher_message])⟩
  · exact ⟨stored, m, Or.inr (by rwa [messageNonce_message, messageCipher_message])⟩

end Ideal

/-! ### A session to evaluate -/

/-- The notifications that carry a response of the lock. -/
def notifications (msg : Bytes 41) : List AppInput :=
  [0, 20, 40].map fun offset => .notified ((msg.toList.drop offset).take 20)

/-- The app before the session key is set. -/
def sampleApp : App := ⟨Bytes.zeros 32, zeroNonce, some []⟩

/-- The lock accepts a ticket and the app its answer. -/
def sampleOpening : List (AppInput ⊕ Iteration) :=
  (pass (.evtConnectionStatus 5) :: packets (sampleTicket 1).toList ++ [quietPass]).map .inr ++
    (notifications (sampleMessage 1 4)).map .inl

/-- The app asks the lock to lock, and the lock answers. -/
def sampleRequest : List (AppInput ⊕ Iteration) :=
  .inl .rotateClockwise :: (packets (sampleMessage 2 1).toList ++ [quietPass]).map .inr

/-- The events of the session under the sample keys. -/
def sampleTrace (inputs : List (AppInput ⊕ Iteration)) : List (AppEvent ⊕ Effect) :=
  sessionTrace keyTag zeroNonce sampleMasterKey sampleSessionKey sampleApp inputs

/-- Where one ticket is accepted, nothing is forged as soon as the trace says so. -/
theorem idealSession_sample {inputs : List (AppInput ⊕ Iteration)}
    (tickets : acceptedTickets (rights (sampleTrace inputs)) = [(sampleTicket 1, sampleSessionKey)])
    (unforged : Always (Unforged sampleSessionKey) (sampleTrace inputs)) :
    IdealSession keyTag sampleMasterKey sampleSessionKey (· = sampleTicket 1) (sampleTrace inputs) where
  tickets msg key accepted := by
    rw [← mem_acceptedTickets, tickets, List.mem_singleton] at accepted
    exact congrArg Prod.fst accepted
  distinctKeys _ _ _ first second _ _ := first.trans second.symm
  unforged := unforged

end Esloq
