/-
**Which tickets of the server the lock honours (`getlockticket`, `process_ticket_msg`).**

* `issueTickets` — the tickets `getlockticket` issues one after the other for a row, each with the
  session key it returns; the nonces count up from the row's (`issueTickets_spec`).
* `honoured_iff_newest` — delivered completely, in any order and as often as one likes, a ticket is
  accepted exactly when its nonce is above that of every ticket delivered before it.
-/

import Esloq.Firmware.Lockout

namespace Esloq

open Machine

/-- The tickets issued one after the other for a row, for the session keys `urandom` returns. -/
def issueTickets (box : Secretbox) : EsloqRow → List Key → List (Option (Bytes 72) × Key)
  | _, [] => []
  | lock, sessionKey :: sessionKeys =>
      let (lock, ticket) := getlockticket box sessionKey lock
      (ticket, sessionKey) :: issueTickets box lock sessionKeys

/-- The ticket at an index carries the next nonce but that index, and seals its session key under the
key of the row. -/
theorem issueTickets_spec {box : Secretbox} (contract : box.Contract) :
    ∀ {sessionKeys : List Key} {lock : EsloqRow} {index : Nat} {ticket : Bytes 72}
      {sessionKey : Key},
      (issueTickets box lock sessionKeys)[index]? = some (some ticket, sessionKey) →
      nonceValue (ticketNonce ticket) = lock.nonce + index + 1 ∧
        ticketKey box lock.key ticket = some sessionKey
  | [], _, index, _, _, issued => by simp [issueTickets] at issued
  | key :: sessionKeys, lock, 0, ticket, sessionKey, issued => by
      rw [issueTickets, List.getElem?_cons_zero, Option.some.injEq, Prod.mk.injEq] at issued
      obtain ⟨isTicket, rfl⟩ := issued
      exact ticketOf_spec contract isTicket
  | key :: sessionKeys, lock, index + 1, ticket, sessionKey, issued => by
      rw [issueTickets, List.getElem?_cons_succ] at issued
      obtain ⟨nonce, opens⟩ := issueTickets_spec contract issued
      have raised : (getlockticket box key lock).1.nonce = lock.nonce + 1 := rfl
      refine ⟨?_, opens⟩
      omega

/-- Below 2^192 every ticket is issued, with the session keys in order. -/
theorem issueTickets_total {box : Secretbox} (contract : box.Contract) :
    ∀ {sessionKeys : List Key} {lock : EsloqRow} {index : Nat},
      lock.nonce + sessionKeys.length < 2 ^ 192 → ∀ inside : index < sessionKeys.length,
      ∃ ticket, (issueTickets box lock sessionKeys)[index]? = some (some ticket, sessionKeys[index])
  | [], _, _, _, inside => by simp at inside
  | key :: sessionKeys, lock, 0, bound, _ => by
      rw [List.length_cons] at bound
      have fits : lock.raise.nonce < 2 ^ 192 := by
        show lock.nonce + 1 < 2 ^ 192
        omega
      obtain ⟨c, sealed, -⟩ := openPadded_sealPadded contract key (nonceOf lock.raise.nonce) lock.key
      refine ⟨ticketMessage (nonceOf lock.raise.nonce) c, ?_⟩
      rw [issueTickets, List.getElem?_cons_zero, getlockticket, ticketOf, toBytes, if_pos fits,
        Option.bind_some, authEncrypt]
      simp only [EsloqRow.raise] at sealed ⊢
      rw [sealed]
      rfl
  | key :: sessionKeys, lock, index + 1, bound, inside => by
      rw [List.length_cons] at bound
      have later : lock.raise.nonce + sessionKeys.length < 2 ^ 192 := by
        show lock.nonce + 1 + sessionKeys.length < 2 ^ 192
        omega
      obtain ⟨ticket, issued⟩ :=
        issueTickets_total contract later (Nat.lt_of_succ_lt_succ inside)
      exact ⟨ticket, issued⟩

/-- **Tickets are honoured exactly when newest.** The server issues tickets one after the other for a
lock whose EEPROM nonce starts at 0. After any run of whole passes that leaves the lock in `CONNECTED`
with an empty buffer, one of them is written completely. Then `process_ticket_msg` is called with it,
and returns 0 exactly when its nonce is above that of every message handed over before; in that case
the lock holds the session key returned with the ticket, and the session nonce is 1. -/
theorem honoured_iff_newest (box : Secretbox) (contract : box.Contract) (lock : EsloqRow)
    (sessionKeys : List Key) (its delivery : List Iteration) (lowBattery : Bool) (index : Nat)
    (ticket : Bytes 72) (sessionKey : Key)
    (issued : (issueTickets box lock sessionKeys)[index]? = some (some ticket, sessionKey))
    (whole : ∀ it ∈ its, it.cut = none)
    (ok : (mainRun box its (bootLock zeroNonce lock.key)).fault = none)
    (connected : (mainRun box its (bootLock zeroNonce lock.key)).state.state = .connected)
    (empty : (mainRun box its (bootLock zeroNonce lock.key)).state.msgBuf.len = 0)
    (delivers : Delivers ticket.toList delivery) :
    let before := mainRun box its (bootLock zeroNonce lock.key)
    let l := (mainRun box (its ++ delivery) (bootLock zeroNonce lock.key)).state
    (fsmProcess box lowBattery l).events.head? = some (.ticketMsg ticket) ∧
    ((processTicketMsg box lowBattery l).1 = 0 ↔ ∀ msg, .ticketMsg msg ∈ before.events →
      nonceValue (ticketNonce msg) < nonceValue (ticketNonce ticket)) ∧
    ((processTicketMsg box lowBattery l).1 = 0 → Accepts box lowBattery l sessionKey) := by
  intro before l
  obtain ⟨nonce, opens⟩ := issueTickets_spec contract issued
  have marked : MarkIs zeroNonce lock.key before.events before.state := mainRun_marked whole ok
  obtain ⟨l', events, run, same, state, content⟩ := deliver_run box delivers
    (by rw [connected, List.Vector.toList_length]; rfl) empty
  have reached : l = l' := by
    show (mainRun box (its ++ delivery) (bootLock zeroNonce lock.key)).state = l'
    rw [mainRun_append, Turn.andThen_of_ok ok, run]
    rfl
  have data := data_of_content content
  rw [← data, ← marked.masterKey, ← same.masterKey] at opens
  -- the code is 0 exactly when the nonce is above the EEPROM, which is the mark of the run
  have newest : nonceValue l'.masterNonceEeprom < nonceValue (ticketNonce l'.msgBuf.data) ↔
      ∀ msg, .ticketMsg msg ∈ before.events →
        nonceValue (ticketNonce msg) < nonceValue (ticketNonce ticket) := by
    rw [same.masterNonce, marked.mark, mark_handedNonce_lt_iff, data, nonceValue_zeroNonce]
    exact and_iff_right (by omega)
  have accepted := code_eq_zero_iff contract lowBattery state opens
  rw [reached, ← newest]
  refine ⟨?_, accepted, fun code => accepts_of_fresh contract lowBattery state opens
    (accepted.mp code)⟩
  rw [← data]
  exact ticketMsg_first box lowBattery state

/-- The row of a lock for which no ticket has been issued. -/
def newRow : EsloqRow := { sampleRow with nonce := 0 }

/-- On a fresh connection the first ticket of a new lock is honoured. -/
theorem first_ticket_honoured :
    Accepts keyTag false (mainRun keyTag (sampleConnection ++ packets (sampleTicket 1).toList)
      (bootLock zeroNonce newRow.key)).state sampleSessionKey := by
  obtain ⟨-, newest, honoured⟩ := honoured_iff_newest keyTag keyTag_contract newRow
    [sampleSessionKey] sampleConnection (packets (sampleTicket 1).toList) false 0 (sampleTicket 1)
    sampleSessionKey (by decide +kernel) (by decide) (by decide +kernel) (by decide +kernel)
    (by decide +kernel) sample_delivers
  refine honoured (newest.mpr fun msg member => ?_)
  have handed : (mainRun keyTag sampleConnection (bootLock zeroNonce newRow.key)).events = [] := by
    decide +kernel
  rw [handed] at member
  cases member

end Esloq
