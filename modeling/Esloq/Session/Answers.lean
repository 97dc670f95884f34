/-
**Which answers of the lock the app believes (`handleMessage`).**

* `acceptedResponses`, `lockResponses` — the responses the app accepts in a session, and those the
  lock encrypts under its key.
* `accepts_only_lock_answers` — while every send starts from a nonce that counts up, what the app
  accepts is a subsequence of what the lock encrypted, without repetition.
* `old_answer_accepted` — a forged message that fails to decrypt leaves its nonce behind; the next
  send turns 255 to zero without a carry, and every old answer is fresh again.
-/

import Esloq.Session.Joint

namespace Esloq

open Machine

/-! ### Responses -/

/-- A response the app accepts. -/
def AppEvent.response : AppEvent → Option (Bytes 41 × UInt8)
  | .accepted _ msg rsp => some (msg, rsp)
  | _ => none

/-- A response the lock encrypts under a key. -/
def Effect.response (sessionKey : Key) : Effect → Option (Bytes 41 × UInt8)
  | .encrypted key _ nonce m c => if key = sessionKey then some (message nonce c, m) else none
  | _ => none

/-- The responses the app accepts, in order. -/
def acceptedResponses (trace : List (AppEvent ⊕ Effect)) : List (Bytes 41 × UInt8) :=
  (lefts trace).filterMap AppEvent.response

/-- The responses the lock encrypts under a key, in order. -/
def lockResponses (sessionKey : Key) (trace : List (AppEvent ⊕ Effect)) : List (Bytes 41 × UInt8) :=
  (rights trace).filterMap (Effect.response sessionKey)

/-- The number responses are ordered by. -/
def responseNumber (response : Bytes 41 × UInt8) : Nat := nonceValue (messageNonce response.1)

theorem mem_acceptedResponses {trace : List (AppEvent ⊕ Effect)} {msg : Bytes 41} {rsp : UInt8} :
    (msg, rsp) ∈ acceptedResponses trace ↔ ∃ key, .inl (.accepted key msg rsp) ∈ trace := by
  rw [acceptedResponses, List.mem_filterMap]
  constructor
  · rintro ⟨event, member, accepted⟩
    cases event <;> cases accepted
    exact ⟨_, mem_lefts.mp member⟩
  · rintro ⟨key, member⟩
    exact ⟨_, mem_lefts.mpr member, rfl⟩

theorem mem_lockResponses {sessionKey : Key} {trace : List (AppEvent ⊕ Effect)} {stored nonce : Nonce}
    {m : UInt8} {c : Bytes 17} (member : .inr (.encrypted sessionKey stored nonce m c) ∈ trace) :
    (message nonce c, m) ∈ lockResponses sessionKey trace :=
  List.mem_filterMap.mpr ⟨_, mem_rights.mpr member, if_pos rfl⟩

/-- Lists that are strictly ordered by a number are sublists as soon as they are subsets. -/
theorem sublist_of_subset_of_ordered {α : Type} {number : α → Nat} {first second : List α}
    (subset : first ⊆ second) (orderedFirst : first.Pairwise fun a b => number a < number b)
    (orderedSecond : second.Pairwise fun a b => number a < number b) : first.Sublist second := by
  have irreflexive : Std.Irrefl fun a b : α => number a < number b := ⟨fun _ => Nat.lt_irrefl _⟩
  have antisymmetric : Std.Antisymm fun a b : α => number a < number b :=
    ⟨fun _ _ less more => absurd less (Nat.lt_asymm more)⟩
  exact List.sublist_of_subperm_of_pairwise (List.subperm_of_subset orderedFirst.nodup subset)
    orderedFirst orderedSecond

section Answers

variable {box : Secretbox} {masterNonce : Nonce} {masterKey sessionKey : Key}
  {issued : Bytes 72 → Prop} {trace : List (AppEvent ⊕ Effect)}

/-- What the app accepts it has not encrypted itself: the lock has. -/
theorem lock_answered (contract : box.Contract)
    (app : Always (AppPermitted box sessionKey) (lefts trace))
    (lock : Always (Permitted box masterNonce masterKey) (rights trace))
    (ideal : IdealSession box masterKey sessionKey issued trace) (counts : SendsCountUp (lefts trace)) :
    acceptedResponses trace ⊆ lockResponses sessionKey trace := by
  rintro ⟨msg, rsp⟩ member
  obtain ⟨key, accepted⟩ := mem_acceptedResponses.mp member
  obtain ⟨past, rest, split⟩ := List.append_of_mem accepted
  obtain ⟨rfl, opened, above⟩ := app.at_left split
  rw [split, lefts_append] at counts
  obtain ⟨stored, m, mine | its⟩ := sealed_of_opened ideal split rfl
  · -- a request of the app is not above the mark, which counts it
    have below := (mark_lt_iff.mp (above counts.past)).2 _ (mem_lefts.mpr mine) _ rfl
    exact absurd below (Nat.lt_irrefl _)
  · obtain ⟨before, after, splitPast⟩ := List.append_of_mem its
    have whole : trace = before ++ .inr (.encrypted key stored (messageNonce msg) m
        (messageCipher msg)) :: (after ++ .inl (.accepted key msg rsp) :: rest) := by
      rw [split, splitPast, List.append_assoc, List.cons_append]
    obtain ⟨-, -, -, sealed⟩ := lock.at_right whole
    have read := messageByte_of_sealed contract sealed
    rw [message_split, opened] at read
    cases read
    have its' : .inr (.encrypted key stored (messageNonce msg) rsp (messageCipher msg)) ∈ trace := by
      rw [split]
      exact List.mem_append_left _ its
    have answer := mem_lockResponses its'
    rwa [message_split] at answer

theorem acceptedResponses_ordered (app : Always (AppPermitted box sessionKey) (lefts trace))
    (counts : SendsCountUp (lefts trace)) :
    (acceptedResponses trace).Pairwise fun a b => responseNumber a < responseNumber b := by
  refine List.pairwise_filterMap.mpr ((List.pairwise_filterMap.mp (numbers_climb app counts)).imp ?_)
  rintro first second climbs ⟨msg, rsp⟩ response ⟨msg', rsp'⟩ response'
  cases first <;> cases response
  cases second <;> cases response'
  exact climbs _ rfl _ rfl

theorem lockResponses_ordered (lock : Always (Permitted box masterNonce masterKey) (rights trace))
    (ideal : IdealTickets box masterKey issued (rights trace)) :
    (lockResponses sessionKey trace).Pairwise fun a b => responseNumber a < responseNumber b := by
  refine List.pairwise_filterMap.mpr ((nonces_increase lock ideal).imp ?_)
  rintro first second before ⟨msg, rsp⟩ response ⟨msg', rsp'⟩ response'
  cases first with
  | encrypted key stored nonce m c =>
      obtain ⟨rfl, same⟩ := Option.ite_none_right_eq_some.mp response
      cases same
      cases second with
      | encrypted key' stored' nonce' m' c' =>
          obtain ⟨rfl, same⟩ := Option.ite_none_right_eq_some.mp response'
          cases same
          rw [responseNumber, responseNumber, messageNonce_message, messageNonce_message]
          exact before _ _ _ rfl rfl
      | _ => cases response'
  | _ => cases response

end Answers

/-- **The app believes only fresh answers of the lock.** In every session whose sends start from
nonces that count up, over every network that cannot forge authenticated encryption: the responses
the app accepts are a subsequence of the responses the lock encrypted under the session key, no
message is accepted twice, and every broadcast directly follows the accepted response it reports. -/
theorem accepts_only_lock_answers (box : Secretbox) (contract : box.Contract) (masterNonce : Nonce)
    (masterKey sessionKey : Key) (app : App) (inputs : List (AppInput ⊕ Iteration))
    (issued : Bytes 72 → Prop)
    (ideal : IdealSession box masterKey sessionKey issued
      (sessionTrace box masterNonce masterKey sessionKey app inputs))
    (counts : SendsCountUp (lefts (sessionTrace box masterNonce masterKey sessionKey app inputs))) :
    let trace := sessionTrace box masterNonce masterKey sessionKey app inputs
    (acceptedResponses trace).Sublist (lockResponses sessionKey trace) ∧
    ((acceptedResponses trace).map Prod.fst).Nodup ∧
    ∀ past rest action, lefts trace = past ++ .broadcast action :: rest →
      ∃ before msg rsp code, past = before ++ [.accepted sessionKey msg rsp] ∧
        LockResponseCode.fromInteger (App.signedByte rsp) = some code ∧
        code.action = some action := by
  have permitted := app_permitted box masterNonce masterKey sessionKey app inputs
  have lock := lock_permitted box masterNonce masterKey sessionKey app inputs
  have ordered := acceptedResponses_ordered permitted counts
  refine ⟨sublist_of_subset_of_ordered (lock_answered contract permitted lock ideal counts) ordered
    (lockResponses_ordered lock ideal.toIdealTickets), ?_, ?_⟩
  · rw [List.Nodup, List.pairwise_map]
    refine ordered.imp ?_
    rintro ⟨msg, rsp⟩ ⟨msg', rsp'⟩ less same
    dsimp only at same
    subst same
    exact Nat.lt_irrefl _ less
  · intro past rest action split
    obtain ⟨msg, rsp, code, last, named, acts⟩ := permitted.at split
    obtain ⟨before, rfl⟩ := List.getLast?_eq_some_iff.mp last
    exact ⟨before, msg, rsp, code, rfl, named, acts⟩

/-- In a session in which the lock answers a ticket and a request, the app accepts both answers. -/
theorem accepts_sample_answers :
    let trace := sampleTrace
      (sampleOpening ++ sampleRequest ++ (notifications (sampleMessage 3 1)).map .inl)
    acceptedResponses trace = [(sampleMessage 1 4, 4), (sampleMessage 3 1, 1)] ∧
    (acceptedResponses trace).Sublist (lockResponses sampleSessionKey trace) ∧
    ((acceptedResponses trace).map Prod.fst).Nodup := by
  have holds := accepts_only_lock_answers keyTag keyTag_contract zeroNonce sampleMasterKey
    sampleSessionKey sampleApp
    (sampleOpening ++ sampleRequest ++ (notifications (sampleMessage 3 1)).map .inl)
    (· = sampleTicket 1) (idealSession_sample (by decide +kernel) (by decide +kernel))
    (by decide +kernel)
  exact ⟨by decide +kernel, holds.1, holds.2.1⟩

/-- A message under the nonce 255 that does not decrypt, a send, and the last answer once more. -/
def sampleReplay : List (AppInput ⊕ Iteration) :=
  sampleOpening ++ sampleRequest ++ ((notifications (sampleMessage 3 1)) ++
    notifications (message (nonceOf 255) (Bytes.zeros 17)) ++ [AppInput.rotateCounterClockwise] ++
    notifications (sampleMessage 3 1)).map .inl

/-- **An old answer is accepted again.** -/
theorem old_answer_accepted :
    keyTag.Contract ∧
    IdealSession keyTag sampleMasterKey sampleSessionKey (· = sampleTicket 1)
      (sampleTrace sampleReplay) ∧
    ¬ (acceptedResponses (sampleTrace sampleReplay)).Sublist
      (lockResponses sampleSessionKey (sampleTrace sampleReplay)) ∧
    ¬ ((acceptedResponses (sampleTrace sampleReplay)).map Prod.fst).Nodup :=
  ⟨keyTag_contract, idealSession_sample (by decide +kernel) (by decide +kernel), by decide +kernel,
    by decide +kernel⟩

end Esloq
