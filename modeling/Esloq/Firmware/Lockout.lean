/-
**When a stranger can lock the owners out (`process_ticket_msg`).**

The nonce of a ticket is written to the EEPROM before the ticket is authenticated. A message of 72
bytes that authenticates nothing therefore raises the mark that every later ticket has to pass
(`locked_out`).

* `MarkIs` — the invariant: on whole passes the EEPROM holds the largest nonce of all messages handed
  to `process_ticket_msg`, authentic or not.
* `accepts_iff` — a ticket of the server is accepted exactly when its nonce is above the EEPROM, and
  then its session key is installed under the session nonce 1.
* `accepted_iff_unspent` — after any run of an adversary the next genuine ticket is accepted exactly
  when every message handed over in the run had a smaller nonce.
-/

import Esloq.Firmware.Buffer
import Esloq.Firmware.Freshness
import Esloq.Server.Ticket

namespace Esloq

open Machine

/-! ### The mark in the EEPROM -/

/-- The number of a message handed to `process_ticket_msg`. -/
def Effect.handedNonce : Effect → Option Nat
  | .ticketMsg msg => some (nonceValue (ticketNonce msg))
  | _ => none

/-- The EEPROM holds the largest nonce handed to `process_ticket_msg`. -/
structure MarkIs (masterNonce : Nonce) (masterKey : Key) (past : List Effect) (l : Lock) : Prop where
  mark : nonceValue l.masterNonceEeprom =
    mark Effect.handedNonce (nonceValue masterNonce) past
  masterKey : l.masterKeyEeprom = masterKey

section Mark

variable {box : Secretbox} {masterNonce : Nonce} {masterKey : Key} {past : List Effect} {l : Lock}

/-- A turn that hands nothing over and leaves the EEPROM. -/
theorem MarkIs.turn (marked : MarkIs masterNonce masterKey past l) {turn : LockTurn}
    (silent : ∀ effect ∈ turn.events, effect.handedNonce = none)
    (nonce : turn.state.masterNonceEeprom = l.masterNonceEeprom)
    (key : turn.state.masterKeyEeprom = l.masterKeyEeprom) :
    turn.Holds (MarkIs masterNonce masterKey) (fun _ _ => True) (fun _ _ => True) past where
  emits := alwaysFrom_forall.mpr fun _ _ => trivial
  keeps _ := by
    refine ⟨?_, key.trans marked.masterKey⟩
    rw [mark_append, mark_of_none silent, nonce, marked.mark]
  stops _ _ := trivial

/-- The shared end of the processors keeps the mark its effects have reached. -/
theorem respond_marked {state : State} {m : UInt8} {effects : List Effect} {l' : Lock}
    (marked : MarkIs masterNonce masterKey (past ++ effects) l') :
    (respond box state m l' effects).2.Holds (MarkIs masterNonce masterKey) (fun _ _ => True)
      (fun _ _ => True) past := by
  have every : ∀ events : List Effect, AlwaysFrom (fun _ _ => True) past events :=
    fun events => alwaysFrom_forall.mpr fun _ _ => trivial
  rcases respond_cases box l' state m effects with
    ⟨-, same⟩ | ⟨next, -, same | ⟨c, -, same⟩⟩
  · rw [same]
    exact ⟨every _, fun ok => (by cases ok), fun _ _ => trivial⟩
  · rw [same]
    refine .emit (every _) ⟨?_, marked.masterKey⟩
    rw [← List.append_assoc, mark_append, ← marked.mark]
    exact (mark_of_none (by simp [Effect.handedNonce])).symm
  · rw [same]
    refine .emit (every _) ⟨?_, marked.masterKey⟩
    rw [← List.append_assoc, mark_append, ← marked.mark]
    exact (mark_of_none (by simp [Effect.handedNonce, sendResponse])).symm

theorem processTicketMsg_marked (lowBattery : Bool) (marked : MarkIs masterNonce masterKey past l) :
    (processTicketMsg box lowBattery l).2.Holds (MarkIs masterNonce masterKey) (fun _ _ => True)
      (fun _ _ => True) past := by
  have every : ∀ events : List Effect, AlwaysFrom (fun _ _ => True) past events :=
    fun events => alwaysFrom_forall.mpr fun _ _ => trivial
  have handed : ∀ rest : List Effect, (∀ effect ∈ rest, effect.handedNonce = none) →
      mark Effect.handedNonce (nonceValue masterNonce) (past ++ .ticketMsg l.msgBuf.data :: rest) =
        max (nonceValue l.masterNonceEeprom) (nonceValue (ticketNonce l.msgBuf.data)) := by
    intro rest silent
    rw [mark_append, ← marked.mark]
    exact mark_of_none silent
  rcases processTicketMsg_cases box lowBattery l with
    ⟨invalid, same⟩ | ⟨valid, ⟨-, same⟩ | ⟨key, -, same⟩⟩
  · have stale : ¬ nonceValue l.masterNonceEeprom < nonceValue (ticketNonce l.msgBuf.data) := by
      rw [← isValidTicketNonce_iff, invalid]
      exact Bool.false_ne_true
    rw [same]
    refine .emit (every _) ⟨?_, marked.masterKey⟩
    rw [handed _ (by simp [Effect.handedNonce])]
    omega
  · rw [isValidTicketNonce_iff] at valid
    rw [same]
    refine .emit (every _) ⟨?_, marked.masterKey⟩
    rw [handed _ (by simp [Effect.handedNonce])]
    exact (max_eq_right valid.le).symm
  · rw [isValidTicketNonce_iff] at valid
    rw [same]
    refine respond_marked ⟨?_, marked.masterKey⟩
    rw [handed _ (by simp [Effect.handedNonce])]
    exact (max_eq_right valid.le).symm

theorem processRequestMsg_marked (marked : MarkIs masterNonce masterKey past l) :
    (processRequestMsg box l).2.Holds (MarkIs masterNonce masterKey) (fun _ _ => True)
      (fun _ _ => True) past := by
  rcases processRequestMsg_cases box l with
    ⟨-, same⟩ | ⟨-, ⟨-, same⟩ | ⟨request, -, same⟩⟩
  · rw [same]
    exact marked.turn (by simp [Turn.emit, Effect.handedNonce]) rfl rfl
  · rw [same]
    exact marked.turn (by simp [Turn.emit, Effect.handedNonce]) rfl rfl
  · rw [same]
    refine respond_marked ⟨?_, marked.masterKey⟩
    rw [mark_append, ← marked.mark]
    refine (mark_of_none ?_).symm
    cases requestedRotation request <;> simp [Effect.handedNonce]

theorem fsmProcess_marked (lowBattery : Bool) :
    Sound (MarkIs masterNonce masterKey) (fun _ _ => True) (fun _ _ => True)
      (fsmProcess box lowBattery) := by
  have afterTicket : ∀ code, Sound (MarkIs masterNonce masterKey) (fun _ _ => True)
      (fun _ _ => True) (afterTicketMsg code) := by
    intro code past l marked
    unfold afterTicketMsg
    split
    · exact marked.turn (by simp [Turn.emit, Effect.handedNonce]) rfl rfl
    · exact .pure marked
  have afterRequest : ∀ code, Sound (MarkIs masterNonce masterKey) (fun _ _ => True)
      (fun _ _ => True) (afterRequestMsg code) := by
    intro code past l marked
    unfold afterRequestMsg
    split
    · exact marked.turn (by simp [Turn.emit, Effect.handedNonce]) rfl rfl
    · exact .pure marked
  intro past l marked
  rcases fsmProcess_cases box lowBattery l with
    ⟨-, same⟩ | ⟨-, same⟩ | ⟨-, same⟩ | ⟨-, state, command, -, same⟩ | ⟨-, -, -, same⟩
  · rw [same]
    exact (processTicketMsg_marked lowBattery marked).andThen (afterTicket _)
  · rw [same]
    exact (processRequestMsg_marked marked).andThen (afterRequest _)
  · rw [same]
    exact marked.turn (by simp [Turn.emit, Effect.handedNonce, setAdvParameters]) rfl rfl
  · rw [same]
    exact marked.turn (by simp [Turn.emit, Effect.handedNonce]) rfl rfl
  · rw [same]
    exact .pure marked

theorem processPacket_marked (received : Received) (press : Option Rotation) :
    Sound (MarkIs masterNonce masterKey) (fun _ _ => True) (fun _ _ => True)
      (processPacket received press) := by
  have button : Sound (MarkIs masterNonce masterKey) (fun _ _ => True) (fun _ _ => True)
      (processButton press) := by
    intro past l marked
    unfold processButton
    split
    · exact marked.turn (by simp [Turn.emit, Effect.handedNonce]) rfl rfl
    · exact .pure marked
  cases received with
  | timeout => exact button
  | msg msg =>
      refine Sound.andThen (fun past l marked => ?_) button
      have kept := bleHandler_untouched msg l
      refine marked.turn (fun effect member => ?_) kept.masterNonce kept.masterKey
      rcases bleHandler_event member with ⟨command, rfl⟩ | ⟨value, rfl⟩ <;> rfl
  | error =>
      intro past l marked
      rw [processPacket]
      exact marked.turn (by simp [Turn.emit, Effect.handedNonce]) rfl rfl

/-- Whole passes keep the mark. -/
theorem loopBody_marked {it : Iteration} (whole : it.cut = none) :
    Sound (MarkIs masterNonce masterKey) (fun _ _ => True) (fun _ _ => True)
      (loopBody box it) := by
  intro past l marked
  rw [loopBody_of_whole box whole]
  exact ((fsmProcess_marked it.lowBattery).andThen (processPacket_marked it.packet it.press)) past l
    marked

/-- After whole passes the EEPROM holds the mark of the run. -/
theorem mainRun_marked {its : List Iteration} (whole : ∀ it ∈ its, it.cut = none)
    (ok : (mainRun box its (bootLock masterNonce masterKey)).fault = none) :
    MarkIs masterNonce masterKey (mainRun box its (bootLock masterNonce masterKey)).events
      (mainRun box its (bootLock masterNonce masterKey)).state := by
  have holds : (mainRun box its (bootLock masterNonce masterKey)).Holds (MarkIs masterNonce masterKey)
      (fun _ _ => True) (fun _ _ => True) [] :=
    Sound.run (fun it member => loopBody_marked (whole it member)) [] _ ⟨rfl, rfl⟩
  exact holds.keeps ok

end Mark

/-- The mark is below a number exactly when the start and every message handed over is. -/
theorem mark_handedNonce_lt_iff {start bound : Nat} {trace : List Effect} :
    mark Effect.handedNonce start trace < bound ↔
      start < bound ∧ ∀ msg, .ticketMsg msg ∈ trace → nonceValue (ticketNonce msg) < bound := by
  rw [mark_lt_iff]
  refine and_congr_right fun _ => ⟨fun handed msg member => handed _ member _ rfl, ?_⟩
  intro handed effect member n isNonce
  cases effect with
  | ticketMsg msg =>
      cases isNonce
      exact handed msg member
  | _ => cases isNonce

/-! ### The next genuine ticket -/

/-- What acceptance of a ticket means: the code 0, the ticket's key, and the state that expects a
request. -/
def Accepts (box : Secretbox) (lowBattery : Bool) (l : Lock) (sessionKey : Key) : Prop :=
  (processTicketMsg box lowBattery l).1 = 0 ∧ (fsmProcess box lowBattery l).fault = none ∧
    (fsmProcess box lowBattery l).state.state = .requestW ∧
    (fsmProcess box lowBattery l).state.sessionKey = sessionKey ∧
    nonceValue (fsmProcess box lowBattery l).state.sessionNonce = 1

instance (box : Secretbox) (lowBattery : Bool) (l : Lock) (sessionKey : Key) :
    Decidable (Accepts box lowBattery l sessionKey) := inferInstanceAs (Decidable (_ ∧ _))

/-- The fields of a ticket of the server. -/
theorem ticketOf_spec {box : Secretbox} (contract : box.Contract) {sessionKey : Key}
    {lock : EsloqRow} {ticket : Bytes 72} (issued : ticketOf box sessionKey lock = some ticket) :
    nonceValue (ticketNonce ticket) = lock.nonce ∧
      ticketKey box lock.key ticket = some sessionKey := by
  unfold ticketOf toBytes at issued
  split at issued
  · rename_i fits
    obtain ⟨c, sealed, opened⟩ :=
      openPadded_sealPadded contract sessionKey (nonceOf lock.nonce) lock.key
    rw [Option.bind_some, authEncrypt, sealed, Option.map_some, Option.some.injEq] at issued
    subst issued
    refine ⟨by rw [ticketNonce_ticketMessage, nonceValue_nonceOf fits], ?_⟩
    rw [ticketKey, ticketNonce_ticketMessage, ticketCipher_ticketMessage]
    exact opened
  · cases issued

/-- In `TICKET` the first thing that happens is the call of `process_ticket_msg`. -/
theorem ticketMsg_first (box : Secretbox) (lowBattery : Bool) {l : Lock} (waiting : l.state = .ticket) :
    (fsmProcess box lowBattery l).events.head? = some (.ticketMsg l.msgBuf.data) := by
  have first : ∃ rest, (processTicketMsg box lowBattery l).2.events =
      .ticketMsg l.msgBuf.data :: rest := by
    rcases processTicketMsg_cases box lowBattery l with
      ⟨-, same⟩ | ⟨-, ⟨-, same⟩ | ⟨key, -, same⟩⟩
    · exact ⟨_, by rw [same]; rfl⟩
    · exact ⟨_, by rw [same]; rfl⟩
    · obtain ⟨rest, ends⟩ := effects_respond box (ticketAccepted l key) .requestW (ticketRsp lowBattery)
        [.ticketMsg l.msgBuf.data, .eepromUpdate (ticketNonce l.msgBuf.data),
          .ticketAccepted l.msgBuf.data key]
      exact ⟨_, by rw [same, ← ends]; rfl⟩
  obtain ⟨rest, events⟩ := first
  rw [fsmProcess_of_ticket box lowBattery waiting, Turn.events_andThen, events]
  rfl

/-- A message whose nonce is not above the EEPROM is rejected. -/
theorem processTicketMsg_of_stale (box : Secretbox) (lowBattery : Bool) {l : Lock}
    (stale : ¬ nonceValue l.masterNonceEeprom < nonceValue (ticketNonce l.msgBuf.data)) :
    (processTicketMsg box lowBattery l).1 = 1 := by
  rw [← isValidTicketNonce_iff] at stale
  rcases processTicketMsg_cases box lowBattery l with ⟨-, same⟩ | ⟨valid, -⟩
  · rw [same]
  · exact absurd valid stale

/-- A ticket of the server whose nonce is above the EEPROM is accepted. -/
theorem accepts_of_fresh {box : Secretbox} (contract : box.Contract) (lowBattery : Bool)
    {l : Lock} {sessionKey : Key} (waiting : l.state = .ticket)
    (opens : ticketKey box l.masterKeyEeprom l.msgBuf.data = some sessionKey)
    (fresh : nonceValue l.masterNonceEeprom < nonceValue (ticketNonce l.msgBuf.data)) :
    Accepts box lowBattery l sessionKey := by
  rw [← isValidTicketNonce_iff] at fresh
  obtain ⟨next, raised, one⟩ := incrementArray_of_ne zeroNonce_ne_lastNonce
  rw [nonceValue_zeroNonce] at one
  obtain ⟨c, sealed, -⟩ :=
    openPadded_sealPadded contract (oneByte (ticketRsp lowBattery)) next sessionKey
  have answered := respond_of_sealed .requestW (l := ticketAccepted l sessionKey) raised sealed
    [.ticketMsg l.msgBuf.data, .eepromUpdate (ticketNonce l.msgBuf.data),
      .ticketAccepted l.msgBuf.data sessionKey]
  rw [Accepts, fsmProcess_of_ticket box lowBattery waiting,
    processTicketMsg_of_opens box lowBattery l fresh opens, answered]
  exact ⟨rfl, rfl, rfl, rfl, one⟩

/-- For a ticket of the server that stands in the buffer the code is 0 exactly when its nonce is above
the EEPROM. -/
theorem code_eq_zero_iff {box : Secretbox} (contract : box.Contract) (lowBattery : Bool)
    {l : Lock} {sessionKey : Key} (waiting : l.state = .ticket)
    (opens : ticketKey box l.masterKeyEeprom l.msgBuf.data = some sessionKey) :
    (processTicketMsg box lowBattery l).1 = 0 ↔
      nonceValue l.masterNonceEeprom < nonceValue (ticketNonce l.msgBuf.data) := by
  refine ⟨fun code => ?_, fun fresh => (accepts_of_fresh contract lowBattery waiting opens fresh).1⟩
  by_contra stale
  rw [processTicketMsg_of_stale box lowBattery stale] at code
  exact absurd code (by decide)

/-- It is accepted then, and only then. -/
theorem accepts_iff {box : Secretbox} (contract : box.Contract) (lowBattery : Bool)
    {l : Lock} {sessionKey : Key} (waiting : l.state = .ticket)
    (opens : ticketKey box l.masterKeyEeprom l.msgBuf.data = some sessionKey) :
    Accepts box lowBattery l sessionKey ↔
      nonceValue l.masterNonceEeprom < nonceValue (ticketNonce l.msgBuf.data) :=
  ⟨fun accepts => (code_eq_zero_iff contract lowBattery waiting opens).mp accepts.1,
    accepts_of_fresh contract lowBattery waiting opens⟩

section Attack

variable {box : Secretbox} {masterNonce : Nonce} {masterKey : Key}

/-- A run whose writes fit and in which no request authenticates stays within the arrays. -/
theorem mainRun_inside {its : List Iteration}
    (fits : Always Fits (mainRun box its (bootLock masterNonce masterKey)).events)
    (noKey : ∀ key msg request, .requestDecrypted key msg request ∉
      (mainRun box its (bootLock masterNonce masterKey)).events) :
    (mainRun box its (bootLock masterNonce masterKey)).fault = none := by
  cases faulted : (mainRun box its (bootLock masterNonce masterKey)).fault with
  | none => rfl
  | some fault =>
      cases fault with
      | msgBuf => exact absurd faulted ((inside_iff_fits box masterNonce masterKey _).mpr fits).1
      | sessionNonce =>
          obtain ⟨key, msg, request, acted, -⟩ :=
            (mainRun_permitted box masterNonce masterKey its).stops _ faulted rfl
          rw [List.nil_append] at acted
          exact absurd acted (noKey key msg request)

/-- After a disconnect the lock is idle. -/
theorem idle_of_goodbye {attack : List Iteration} {goodbye : Iteration} {l : Lock}
    (whole : goodbye.cut = none) (disconnects : goodbye.packet = .msg .evtConnectionDisconnected)
    (ok : (mainRun box (attack ++ [goodbye]) l).fault = none) :
    Idle (mainRun box (attack ++ [goodbye]) l).state := by
  have single : run (loopBody box) [goodbye] = loopBody box goodbye :=
    funext fun l => run_single _ goodbye l
  have last : mainRun box (attack ++ [goodbye]) l =
      (mainRun box attack l).andThen (loopBody box goodbye) := by
    rw [← single]
    exact mainRun_append box attack [goodbye] l
  rw [last] at ok ⊢
  obtain ⟨here, later⟩ := Turn.ok_of_andThen ok
  rw [Turn.andThen_of_ok here]
  exact idle_of_disconnect whole disconnects later

end Attack

/-- **A genuine ticket is accepted exactly when nobody has spent a nonce as large.** The adversary's
run is any sequence of whole passes, with any messages, that writes no more than the buffer holds and
in which no request authenticates; it ends with a disconnect. The owner then connects and writes the
ticket completely, split in any way. The ticket's nonce is above the one the EEPROM held before. -/
theorem accepted_iff_unspent (box : Secretbox) (contract : box.Contract) (masterNonce : Nonce)
    (masterKey : Key) (attack : List Iteration) (goodbye : Iteration)
    (connection delivery : List Iteration) (lowBattery : Bool) (sessionKey : Key) (lock : EsloqRow)
    (ticket : Bytes 72)
    (whole : ∀ it ∈ attack ++ [goodbye], it.cut = none)
    (disconnects : goodbye.packet = .msg .evtConnectionDisconnected)
    (fits : Always Fits (mainRun box (attack ++ [goodbye]) (bootLock masterNonce masterKey)).events)
    (noKey : ∀ key msg request, .requestDecrypted key msg request ∉
      (mainRun box (attack ++ [goodbye]) (bootLock masterNonce masterKey)).events)
    (connects : Connects connection) (delivers : Delivers ticket.toList delivery)
    (issued : ticketOf box sessionKey lock = some ticket) (sameKey : lock.key = masterKey)
    (newest : nonceValue masterNonce < lock.nonce) :
    let attacked := mainRun box (attack ++ [goodbye]) (bootLock masterNonce masterKey)
    Accepts box lowBattery
        (mainRun box ((attack ++ [goodbye]) ++ (connection ++ delivery))
          (bootLock masterNonce masterKey)).state sessionKey ↔
      ∀ msg, .ticketMsg msg ∈ attacked.events → nonceValue (ticketNonce msg) < lock.nonce := by
  intro attacked
  have ok : attacked.fault = none := mainRun_inside fits noKey
  have marked : MarkIs masterNonce masterKey attacked.events attacked.state := mainRun_marked whole ok
  have idle : Idle attacked.state := idle_of_goodbye (whole goodbye (by simp)) disconnects ok
  -- the owner's connection and the packets of the ticket
  obtain ⟨l₁, events₁, run₁, same₁, state₁, empty₁⟩ := connect_run box connects idle
  obtain ⟨l₂, events₂, run₂, same₂, state₂, content⟩ := deliver_run box delivers
    (by rw [state₁, List.Vector.toList_length]; rfl) empty₁
  have reached : (mainRun box ((attack ++ [goodbye]) ++ (connection ++ delivery))
      (bootLock masterNonce masterKey)).state = l₂ := by
    rw [mainRun_append, Turn.andThen_of_ok ok, mainRun_append, run₁, Turn.emit_andThen, run₂]
    rfl
  have data := data_of_content content
  obtain ⟨nonce, opens⟩ := ticketOf_spec contract issued
  have key : l₂.masterKeyEeprom = lock.key := by
    rw [same₂.masterKey, same₁.masterKey, marked.masterKey, sameKey]
  rw [← data, ← key] at opens
  rw [reached, accepts_iff contract lowBattery state₂ opens, data, nonce, same₂.masterNonce,
    same₁.masterNonce, marked.mark, mark_handedNonce_lt_iff]
  exact and_iff_right newest

/-! ### An attack -/

/-- A stranger connects and writes 72 equal bytes. -/
def sampleAttack (byte : UInt8) : List Iteration :=
  pass (.evtConnectionStatus 5) :: packets (List.replicate 72 byte) ++ [quietPass]

/-- The stranger leaves. -/
def sampleGoodbye : Iteration := pass .evtConnectionDisconnected

/-- The owner connects. -/
def sampleConnection : List Iteration := [quietPass, pass (.evtConnectionStatus 5)]

/-- The row of the lock after its first ticket. -/
def sampleRow : EsloqRow := ⟨1, "00:07:80:00:00:01", sampleMasterKey, "lock", 1⟩

theorem sample_connects : Connects sampleConnection :=
  ⟨by decide, [quietPass], pass (.evtConnectionStatus 5), 5, rfl, rfl, by decide⟩

theorem sample_delivers : Delivers (sampleTicket 1).toList (packets (sampleTicket 1).toList) := by
  refine ⟨by decide +kernel, by decide +kernel, (packets (sampleTicket 1).toList).take 3,
    pass (.evtAttributesValue cLockReceive ((sampleTicket 1).toList.drop 60)), ?_, ?_⟩
  · decide +kernel
  · decide +kernel

/-- A message with the nonce 0 spends nothing: the owner's first ticket is accepted. -/
theorem accepted_after_sample_attack :
    Accepts keyTag false
      (mainRun keyTag ((sampleAttack 0 ++ [sampleGoodbye]) ++
          (sampleConnection ++ packets (sampleTicket 1).toList))
        (bootLock zeroNonce sampleMasterKey)).state sampleSessionKey := by
  have acted : actedRequests (mainRun keyTag (sampleAttack 0 ++ [sampleGoodbye])
      (bootLock zeroNonce sampleMasterKey)).events = [] := by decide +kernel
  have handed : (mainRun keyTag (sampleAttack 0 ++ [sampleGoodbye])
      (bootLock zeroNonce sampleMasterKey)).events.filterMap Effect.handedNonce = [0] := by
    decide +kernel
  refine (accepted_iff_unspent keyTag keyTag_contract zeroNonce sampleMasterKey (sampleAttack 0)
    sampleGoodbye sampleConnection (packets (sampleTicket 1).toList) false sampleSessionKey sampleRow
    (sampleTicket 1) (by decide +kernel) rfl (by decide +kernel) ?_ sample_connects sample_delivers
    (by decide +kernel) rfl (by decide +kernel)).mpr ?_
  · intro key msg request member
    have : (key, msg) ∈ ([] : List (Key × Bytes 41)) := acted ▸ mem_actedRequests.mpr ⟨request, member⟩
    cases this
  · intro msg member
    have : nonceValue (ticketNonce msg) ∈ [0] := handed ▸ List.mem_filterMap.mpr ⟨_, member, rfl⟩
    rw [List.mem_singleton.mp this]
    exact Nat.one_pos

/-- **One message locks the owners out.** Seventy-two bytes of `0xFF` authenticate nothing and are
rejected, and after them the owner's genuine ticket is rejected too. -/
theorem locked_out :
    ticketKey keyTag sampleMasterKey (List.Vector.replicate 72 255) = none ∧
    Always Fits (mainRun keyTag (sampleAttack 255 ++ [sampleGoodbye])
      (bootLock zeroNonce sampleMasterKey)).events ∧
    actedRequests (mainRun keyTag (sampleAttack 255 ++ [sampleGoodbye])
      (bootLock zeroNonce sampleMasterKey)).events = [] ∧
    ticketOf keyTag sampleSessionKey sampleRow = some (sampleTicket 1) ∧
    ¬ Accepts keyTag false
      (mainRun keyTag ((sampleAttack 255 ++ [sampleGoodbye]) ++
          (sampleConnection ++ packets (sampleTicket 1).toList))
        (bootLock zeroNonce sampleMasterKey)).state sampleSessionKey := by
  decide +kernel

end Esloq
