/-
**What a rejected message leaves behind (`process_ticket_msg`, `process_request_msg`).**

Both processors store the nonce of a message before they authenticate it.

* `Rejects` — a call returns 1 (the nonce is not newer) or 2 (the authenticated decryption fails).
* `LeavesSecurityState` — the nonce in the EEPROM, the session key and the session nonce are as
  before the call, and the motor has not been called.
* `Ends` — the three ends of a call, the same for both processors (`ticket_ends`, `request_ends`): at the
  check of the nonce nothing has changed, at a failed decryption the stored nonce has risen.
* `rejected_leaves_security_state_iff` — a rejecting call leaves them alone unless the nonce is newer
  and the decryption fails.
-/

import Esloq.Firmware.Process

namespace Esloq

open Machine BigEndian

/-- The processor returns because the nonce is not newer or the authenticated decryption fails. -/
def Rejects (result : UInt8 × LockTurn) : Prop := result.1 = 1 ∨ result.1 = 2

instance decidableRejects (result : UInt8 × LockTurn) : Decidable (Rejects result) :=
  inferInstanceAs (Decidable (_ ∨ _))

/-- A turn that changes none of the state that decides which messages are accepted, and does not
move the motor. -/
structure LeavesSecurityState (l : Lock) (turn : LockTurn) : Prop where
  masterNonce : turn.state.masterNonceEeprom = l.masterNonceEeprom
  sessionKey : turn.state.sessionKey = l.sessionKey
  sessionNonce : turn.state.sessionNonce = l.sessionNonce
  motor : ∀ origin direction, Effect.rotate origin direction ∉ turn.events

section Rejected

variable (box : Secretbox) (lowBattery : Bool) (l : Lock)

/-- The shared end never rejects: it answers, or fails to encrypt. -/
theorem respond_not_rejects (state : State) (m : UInt8) (effects : List Effect) :
    ¬ Rejects (respond box state m l effects) := by
  unfold Rejects
  rcases respond_cases box l state m effects with ⟨-, answer⟩ | ⟨next, -, answer | ⟨c, -, answer⟩⟩
  · rw [answer]
    show ¬ ((0 : UInt8) = 1 ∨ (0 : UInt8) = 2)
    decide
  · rw [answer]
    show ¬ ((3 : UInt8) = 1 ∨ (3 : UInt8) = 2)
    decide
  · rw [answer]
    show ¬ ((0 : UInt8) = 1 ∨ (0 : UInt8) = 2)
    decide

/-! ### The three ends of a call -/

/-- A call stops at the check of the nonce, or it stores the nonce and stops at the decryption, or it
answers. -/
inductive Ends (stored : Lock → Nonce) (newer forged : Prop) (result : UInt8 × LockTurn) : Prop
  | old (isOld : ¬ newer) (rejects : Rejects result) (leaves : LeavesSecurityState l result.2)
  | forgery (isForged : forged) (rejects : Rejects result)
      (raised : nonceValue (stored l) < nonceValue (stored result.2.state))
  | accepted (genuine : ¬ forged) (accepts : ¬ Rejects result)

variable {l} in
/-- A rejecting call leaves the state alone exactly unless the message is forged. -/
theorem Ends.leaves_iff {stored : Lock → Nonce} {newer forged : Prop} {result : UInt8 × LockTurn}
    (ends : Ends l stored newer forged result) (older : forged → newer)
    (kept : LeavesSecurityState l result.2 → stored result.2.state = stored l) :
    (Rejects result → LeavesSecurityState l result.2) ↔ ¬ forged := by
  cases ends with
  | old isOld rejects leaves =>
      exact iff_of_true (fun _ => leaves) fun isForged => isOld (older isForged)
  | forgery isForged rejects raised =>
      refine iff_of_false (fun leaves => ?_) (not_not.mpr isForged)
      rw [kept (leaves rejects)] at raised
      exact absurd raised (lt_irrefl _)
  | accepted genuine accepts => exact iff_of_true (fun rejects => absurd rejects accepts) genuine

/-! ### Tickets -/

/-- The nonce of the buffered ticket is newer than the one in the EEPROM, and the ticket does not
authenticate. -/
def ForgedTicket : Prop :=
  isValidTicketNonce (ticketNonce l.msgBuf.data) l.masterNonceEeprom = true ∧
    ticketKey box l.masterKeyEeprom l.msgBuf.data = none

theorem ticket_ends :
    Ends l Lock.masterNonceEeprom
      (isValidTicketNonce (ticketNonce l.msgBuf.data) l.masterNonceEeprom = true)
      (ForgedTicket box l) (processTicketMsg box lowBattery l) := by
  rcases processTicketMsg_cases box lowBattery l with
    ⟨old, call⟩ | ⟨newer, ⟨forged, call⟩ | ⟨key, opens, call⟩⟩
  · refine .old (Bool.eq_false_iff.mp old) ?_ ?_ <;> rw [call]
    · exact Or.inl rfl
    · exact ⟨rfl, rfl, rfl, by simp [Turn.emit]⟩
  · refine .forgery ⟨newer, forged⟩ ?_ ?_ <;> rw [call]
    · exact Or.inr rfl
    · exact isValidTicketNonce_iff.mp newer
  · refine .accepted (fun forged => ?_) ?_
    · exact Option.some_ne_none key (opens.symm.trans forged.2)
    · rw [call]
      exact respond_not_rejects box _ _ _ _

/-! ### Requests -/

/-- The nonce of the buffered request is newer than the session nonce, and the request does not
authenticate. -/
def ForgedRequest : Prop :=
  isValidSessionNonce (messageNonce (bufferedRequest l)) l.sessionNonce = true ∧
    messageByte box l.sessionKey (bufferedRequest l) = none

theorem request_ends :
    Ends l Lock.sessionNonce
      (isValidSessionNonce (messageNonce (bufferedRequest l)) l.sessionNonce = true)
      (ForgedRequest box l) (processRequestMsg box l) := by
  rcases processRequestMsg_cases box l with
    ⟨old, call⟩ | ⟨newer, ⟨forged, call⟩ | ⟨request, opens, call⟩⟩
  · refine .old (Bool.eq_false_iff.mp old) ?_ ?_ <;> rw [call]
    · exact Or.inl rfl
    · exact ⟨rfl, rfl, rfl, by simp [Turn.emit]⟩
  · refine .forgery ⟨newer, forged⟩ ?_ ?_ <;> rw [call]
    · exact Or.inr rfl
    · exact isValidSessionNonce_iff.mp newer
  · refine .accepted (fun forged => ?_) ?_
    · exact Option.some_ne_none request (opens.symm.trans forged.2)
    · rw [call]
      exact respond_not_rejects box _ _ _ _

/-! ### Both -/

/-- **A rejecting call leaves the security state alone unless it rejects a forgery with a newer
nonce.** -/
theorem rejected_leaves_security_state_iff :
    ((Rejects (processTicketMsg box lowBattery l) →
        LeavesSecurityState l (processTicketMsg box lowBattery l).2) ↔ ¬ ForgedTicket box l) ∧
    ((Rejects (processRequestMsg box l) → LeavesSecurityState l (processRequestMsg box l).2) ↔
      ¬ ForgedRequest box l) :=
  ⟨(ticket_ends box lowBattery l).leaves_iff And.left LeavesSecurityState.masterNonce,
    (request_ends box l).leaves_iff And.left LeavesSecurityState.sessionNonce⟩

end Rejected

/-- A lock that has received 72 bytes `0xFF`. -/
def forgedLock : Lock :=
  { bootLock zeroNonce (List.Vector.replicate 32 7) with
    msgBuf := ⟨72, List.Vector.replicate 72 255⟩ }

/-- **A rejected forgery is not without consequences**: the EEPROM and the session nonce keep its
nonce, the largest there is. -/
theorem rejected_forgery_raises :
    (Rejects (processTicketMsg keyTag false forgedLock) ∧
      ¬ LeavesSecurityState forgedLock (processTicketMsg keyTag false forgedLock).2) ∧
    (Rejects (processRequestMsg keyTag forgedLock) ∧
      ¬ LeavesSecurityState forgedLock (processRequestMsg keyTag forgedLock).2) := by
  refine ⟨⟨by decide +kernel, fun leaves => ?_⟩, ⟨by decide +kernel, fun leaves => ?_⟩⟩
  · exact absurd leaves.masterNonce (by decide +kernel)
  · exact absurd leaves.sessionNonce (by decide +kernel)

end Esloq
