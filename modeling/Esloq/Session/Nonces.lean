/-
**When a nonce of a session is used twice (`process_request_msg`, `sendEncryptedMessage`).**

Both sides draw their nonces from one counter, which each advances on its own: the lock answers under
the nonce after that of the message it answers, the app asks under the nonce after its own.

* `Apart` — the condition on a step: the app does not ask from a nonce the lock has answered, and the
  lock does not answer a nonce the app has asked from. A nonce that ends in 127 does not matter, since
  the two increments differ there.
* `same_nonce_iff` — a request and an answer share their nonce exactly when they start from the same
  nonce, not ending in 127.
* `nonces_distinct_iff` — while every send starts from a nonce that counts up, no nonce is used twice
  exactly when every step is `Apart`.
* `nonce_used_twice` — an answer is lost, and the next request is encrypted under its nonce.
-/

import Esloq.Session.Joint

namespace Esloq

open Machine BigEndian

/-! ### Encryptions -/

/-- The nonce of an encryption under a key. -/
def usedNonce (sessionKey : Key) : AppEvent ⊕ Effect → Option Nonce
  | .inl (.encrypted key _ nonce _ _) => if key = sessionKey then some nonce else none
  | .inr (.encrypted key _ nonce _ _) => if key = sessionKey then some nonce else none
  | _ => none

/-- The nonces of all encryptions under a key, by either side. -/
def usedNonces (sessionKey : Key) (trace : List (AppEvent ⊕ Effect)) : List Nonce :=
  trace.filterMap (usedNonce sessionKey)

/-- The nonces the app has asked from. -/
def askedFrom (sessionKey : Key) (trace : List (AppEvent ⊕ Effect)) : List Nonce :=
  trace.filterMap fun
    | .inl (.encrypted key stored _ _ _) => if key = sessionKey then some stored else none
    | _ => none

/-- The nonces the lock has answered; an accepted ticket counts as the nonce zero. -/
def answeredFrom (sessionKey : Key) (trace : List (AppEvent ⊕ Effect)) : List Nonce :=
  trace.filterMap fun
    | .inr (.encrypted key stored _ _ _) => if key = sessionKey then some stored else none
    | _ => none

/-- Nobody starts from a nonce the other side has started from, unless it ends in 127. -/
def Apart (sessionKey : Key) (past : List (AppEvent ⊕ Effect)) : AppEvent ⊕ Effect → Prop
  | .inl (.encrypted key stored _ _ _) => key = sessionKey →
      stored ∈ answeredFrom sessionKey past → App.lastByte stored = App.byteMax
  | .inr (.encrypted key stored _ _ _) => key = sessionKey →
      stored ∈ askedFrom sessionKey past → App.lastByte stored = App.byteMax
  | _ => True

instance decidableApart (sessionKey : Key) (past : List (AppEvent ⊕ Effect)) :
    ∀ event, Decidable (Apart sessionKey past event)
  | .inl (.encrypted key stored _ _ _) => inferInstanceAs (Decidable (key = sessionKey →
      stored ∈ answeredFrom sessionKey past → App.lastByte stored = App.byteMax))
  | .inr (.encrypted key stored _ _ _) => inferInstanceAs (Decidable (key = sessionKey →
      stored ∈ askedFrom sessionKey past → App.lastByte stored = App.byteMax))
  | .inl (.sends ..) | .inl (.writes _) | .inl (.accepted ..) | .inl (.broadcast _)
  | .inl (.threw _) | .inr (.cmd _) | .inr (.received _) | .inr .resetMsgBuffer
  | .inr (.ticketMsg _) | .inr (.eepromUpdate _) | .inr (.ticketAccepted ..) | .inr (.requestMsg _)
  | .inr (.requestDecrypted ..) | .inr (.rotate ..) | .inr (.returned _) | .inr .softReset =>
      .isTrue trivial

theorem mem_askedFrom {sessionKey : Key} {trace : List (AppEvent ⊕ Effect)} {stored : Nonce} :
    stored ∈ askedFrom sessionKey trace ↔
      ∃ nonce m c, .inl (.encrypted sessionKey stored nonce m c) ∈ trace := by
  rw [askedFrom, List.mem_filterMap]
  constructor
  · rintro ⟨event | effect, member, asked⟩
    · cases event with
      | encrypted key stored' nonce m c =>
          obtain ⟨rfl, same⟩ := Option.ite_none_right_eq_some.mp asked
          cases same
          exact ⟨nonce, m, c, member⟩
      | _ => cases asked
    · cases asked
  · rintro ⟨nonce, m, c, member⟩
    exact ⟨_, member, if_pos rfl⟩

theorem mem_answeredFrom {sessionKey : Key} {trace : List (AppEvent ⊕ Effect)} {stored : Nonce} :
    stored ∈ answeredFrom sessionKey trace ↔
      ∃ nonce m c, .inr (.encrypted sessionKey stored nonce m c) ∈ trace := by
  rw [answeredFrom, List.mem_filterMap]
  constructor
  · rintro ⟨event | effect, member, answered⟩
    · cases answered
    · cases effect with
      | encrypted key stored' nonce m c =>
          obtain ⟨rfl, same⟩ := Option.ite_none_right_eq_some.mp answered
          cases same
          exact ⟨nonce, m, c, member⟩
      | _ => cases answered
  · rintro ⟨nonce, m, c, member⟩
    exact ⟨_, member, if_pos rfl⟩

section Session

variable {box : Secretbox} {masterNonce : Nonce} {masterKey sessionKey : Key}
  {issued : Bytes 72 → Prop} {trace : List (AppEvent ⊕ Effect)}

/-- A request of the app, its nonce and the ones before it. -/
theorem asked_spec (app : Always (AppPermitted box sessionKey) (lefts trace))
    (counts : SendsCountUp (lefts trace)) {key : Key} {stored nonce : Nonce} {m : UInt8}
    {c : Bytes 17} (asked : .inl (.encrypted key stored nonce m c) ∈ trace) :
    nonceValue stored < nonceValue nonce ∧
      (nonceValue nonce = nonceValue stored + 1 ↔ App.lastByte stored ≠ App.byteMax) := by
  obtain ⟨past, rest, split⟩ := List.append_of_mem asked
  obtain ⟨-, sent, rfl, -, -⟩ := app.at_left split
  rw [split, lefts_append] at counts
  have up := counts.past stored m sent
  exact ⟨App.lt_incrementByteArray_iff.mpr up, App.incrementByteArray_succ_iff up⟩

/-- Of two requests of the app the later one starts at or above the nonce of the earlier one. -/
theorem asked_order (app : Always (AppPermitted box sessionKey) (lefts trace))
    (counts : SendsCountUp (lefts trace)) {key key' : Key} {stored nonce stored' nonce' : Nonce}
    {m m' : UInt8} {c c' : Bytes 17} (first : .inl (.encrypted key stored nonce m c) ∈ trace)
    (second : .inl (.encrypted key' stored' nonce' m' c') ∈ trace) :
    nonce = nonce' ∨ nonceValue nonce ≤ nonceValue stored' ∨ nonceValue nonce' ≤ nonceValue stored := by
  have ordered : (lefts trace).Pairwise fun earlier later => ∀ key stored nonce m c n,
      later = .encrypted key stored nonce m c → earlier.number = some n → n ≤ nonceValue stored := by
    rw [← always_iff_pairwise, always_iff_splits]
    intro past event rest split earlier among key stored nonce m c n asks numbered
    subst asks
    rw [split] at counts
    have below := (app.at split).2.2.2.2 counts.past
    have := (mark_lt_iff.mp (Nat.lt_succ_of_le below)).2 earlier among n numbered
    omega
  rcases pairwise_total ordered (mem_lefts.mpr first) (mem_lefts.mpr second) with
    same | before | after
  · cases same
    exact Or.inl rfl
  · exact Or.inr (Or.inl (before _ _ _ _ _ _ rfl rfl))
  · exact Or.inr (Or.inr (after _ _ _ _ _ _ rfl rfl))

/-- An answer of the lock, its nonce and what it answers. -/
theorem answered_spec (lock : Always (Permitted box masterNonce masterKey) (rights trace))
    (ideal : IdealSession box masterKey sessionKey issued trace) {stored nonce : Nonce} {m : UInt8}
    {c : Bytes 17} (answered : .inr (.encrypted sessionKey stored nonce m c) ∈ trace) :
    nonceValue nonce = nonceValue stored + 1 ∧
      (stored = zeroNonce ∨
        ∃ before m c, .inl (.encrypted sessionKey before stored m c) ∈ trace) := by
  obtain ⟨past, rest, split⟩ := List.append_of_mem answered
  obtain ⟨-, answers, raised, -⟩ := lock.at_right split
  refine ⟨value_incrementArray raised, answers.imp_right ?_⟩
  rintro ⟨msg, request, acted, rfl⟩
  -- what it answers was sealed by the app, since the lock acts on nothing it has encrypted
  have acted' : .inr (.requestDecrypted sessionKey msg request) ∈ trace := by
    rw [split]
    exact List.mem_append_left _ (mem_rights.mp acted)
  obtain ⟨earlier, later, splitActed⟩ := List.append_of_mem acted'
  obtain ⟨before, m', mine | its⟩ := sealed_of_opened ideal splitActed rfl
  · refine ⟨before, m', messageCipher msg, ?_⟩
    rw [splitActed]
    exact List.mem_append_left _ mine
  · have its' : .inr (.encrypted sessionKey before (messageNonce msg) m' (messageCipher msg)) ∈
        trace := by
      rw [splitActed]
      exact List.mem_append_left _ its
    exact absurd (mem_rights.mpr its')
      (not_encrypted lock ideal.toIdealTickets (mem_rights.mpr acted'))

/-- **A request and an answer share their nonce exactly when they start from the same nonce**, not
ending in 127. -/
theorem same_nonce_iff (app : Always (AppPermitted box sessionKey) (lefts trace))
    (lock : Always (Permitted box masterNonce masterKey) (rights trace))
    (ideal : IdealSession box masterKey sessionKey issued trace) (counts : SendsCountUp (lefts trace))
    {asked askedNonce answered answerNonce : Nonce} {m m' : UInt8} {c c' : Bytes 17}
    (asks : .inl (.encrypted sessionKey asked askedNonce m c) ∈ trace)
    (answers : .inr (.encrypted sessionKey answered answerNonce m' c') ∈ trace) :
    askedNonce = answerNonce ↔ asked = answered ∧ App.lastByte asked ≠ App.byteMax := by
  obtain ⟨rises, byOne⟩ := asked_spec app counts asks
  obtain ⟨succ, origin⟩ := answered_spec lock ideal answers
  constructor
  · rintro rfl
    have atMost : nonceValue asked ≤ nonceValue answered := by omega
    have same : asked = answered := by
      refine bytes_eq_of_value (Nat.le_antisymm atMost ?_)
      rcases origin with rfl | ⟨before, m₀, c₀, earlier⟩
      · rw [show value zeroNonce.toList = 0 from nonceValue_zeroNonce]
        exact Nat.zero_le _
      · -- the request that was answered comes before the one under the same nonce
        have risesBefore := (asked_spec app counts earlier).1
        rcases asked_order app counts earlier asks with same | below | above
        · rw [same] at succ
          omega
        · exact below
        · omega
    subst same
    exact ⟨rfl, byOne.mp succ⟩
  · rintro ⟨rfl, free⟩
    exact bytes_eq_of_value ((byOne.mpr free).trans succ.symm)

/-- Two requests never share a nonce. -/
theorem requests_distinct (app : Always (AppPermitted box sessionKey) (lefts trace))
    (counts : SendsCountUp (lefts trace)) :
    (lefts trace).Pairwise fun first second =>
      ∀ n, first.number = some n → second.number ≠ some n := by
  refine (List.pairwise_filterMap.mp (numbers_climb app counts)).imp ?_
  exact fun climbs n first second => Nat.lt_irrefl n (climbs n first n second)

/-- Two answers never share a nonce. -/
theorem answers_distinct (lock : Always (Permitted box masterNonce masterKey) (rights trace))
    (ideal : IdealTickets box masterKey issued (rights trace)) :
    (rights trace).Pairwise fun first second =>
      ∀ used, lockLedger.uses first = some used → lockLedger.uses second ≠ some used := by
  refine (nonces_increase lock ideal).imp ?_
  exact fun before used first second => Nat.lt_irrefl used.2 (before _ _ _ first second)

theorem usedNonce_cases {event : AppEvent ⊕ Effect} {nonce : Nonce}
    (used : usedNonce sessionKey event = some nonce) : ∃ stored m c,
      event = .inl (.encrypted sessionKey stored nonce m c) ∨
        event = .inr (.encrypted sessionKey stored nonce m c) := by
  rcases event with event | effect
  · cases event with
    | encrypted key stored nonce' m c =>
        obtain ⟨rfl, same⟩ := Option.ite_none_right_eq_some.mp used
        cases same
        exact ⟨stored, m, c, Or.inl rfl⟩
    | _ => cases used
  · cases effect with
    | encrypted key stored nonce' m c =>
        obtain ⟨rfl, same⟩ := Option.ite_none_right_eq_some.mp used
        cases same
        exact ⟨stored, m, c, Or.inr rfl⟩
    | _ => cases used

/-- A request is apart if no encryption before it has used its nonce. -/
theorem apart_request_iff (app : Always (AppPermitted box sessionKey) (lefts trace))
    (lock : Always (Permitted box masterNonce masterKey) (rights trace))
    (ideal : IdealSession box masterKey sessionKey issued trace) (counts : SendsCountUp (lefts trace))
    {past rest : List (AppEvent ⊕ Effect)} {stored nonce : Nonce} {m : UInt8} {c : Bytes 17}
    (split : trace = past ++ .inl (.encrypted sessionKey stored nonce m c) :: rest) :
    Apart sessionKey past (.inl (.encrypted sessionKey stored nonce m c)) ↔
      ∀ earlier ∈ past, usedNonce sessionKey earlier ≠ some nonce := by
  have before : ∀ earlier ∈ past, earlier ∈ trace := fun earlier among => by
    rw [split]
    exact List.mem_append_left _ among
  have here : .inl (.encrypted sessionKey stored nonce m c) ∈ trace := by
    rw [split]
    simp
  constructor
  · intro apart earlier among used
    obtain ⟨stored', m', c', rfl | rfl⟩ := usedNonce_cases used
    · exact (always_iff_pairwise.mpr (requests_distinct app counts)).at_left split _
        (mem_lefts.mpr among) _ rfl rfl
    · obtain ⟨rfl, free⟩ := (same_nonce_iff app lock ideal counts here (before _ among)).mp rfl
      exact free (apart rfl (mem_answeredFrom.mpr ⟨_, _, _, among⟩))
  · intro distinct _ answered
    by_contra free
    obtain ⟨nonce', m', c', among⟩ := mem_answeredFrom.mp answered
    have same := (same_nonce_iff app lock ideal counts here (before _ among)).mpr ⟨rfl, free⟩
    exact distinct _ among (by rw [same]; exact if_pos rfl)

/-- An answer is apart if no encryption before it has used its nonce. -/
theorem apart_answer_iff (app : Always (AppPermitted box sessionKey) (lefts trace))
    (lock : Always (Permitted box masterNonce masterKey) (rights trace))
    (ideal : IdealSession box masterKey sessionKey issued trace) (counts : SendsCountUp (lefts trace))
    {past rest : List (AppEvent ⊕ Effect)} {stored nonce : Nonce} {m : UInt8} {c : Bytes 17}
    (split : trace = past ++ .inr (.encrypted sessionKey stored nonce m c) :: rest) :
    Apart sessionKey past (.inr (.encrypted sessionKey stored nonce m c)) ↔
      ∀ earlier ∈ past, usedNonce sessionKey earlier ≠ some nonce := by
  have before : ∀ earlier ∈ past, earlier ∈ trace := fun earlier among => by
    rw [split]
    exact List.mem_append_left _ among
  have here : .inr (.encrypted sessionKey stored nonce m c) ∈ trace := by
    rw [split]
    simp
  constructor
  · intro apart earlier among used
    obtain ⟨stored', m', c', rfl | rfl⟩ := usedNonce_cases used
    · obtain ⟨rfl, free⟩ := (same_nonce_iff app lock ideal counts (before _ among) here).mp rfl
      exact free (apart rfl (mem_askedFrom.mpr ⟨_, _, _, among⟩))
    · exact (always_iff_pairwise.mpr (answers_distinct lock ideal.toIdealTickets)).at_right
        split _ (mem_rights.mpr among) _ rfl rfl
  · intro distinct _ asked
    by_contra free
    obtain ⟨nonce', m', c', among⟩ := mem_askedFrom.mp asked
    have same := (same_nonce_iff app lock ideal counts (before _ among) here).mpr ⟨rfl, free⟩
    exact distinct _ among (by rw [same]; exact if_pos rfl)

/-- An event uses a nonce that was used before exactly when it is not apart. -/
theorem apart_iff (app : Always (AppPermitted box sessionKey) (lefts trace))
    (lock : Always (Permitted box masterNonce masterKey) (rights trace))
    (ideal : IdealSession box masterKey sessionKey issued trace) (counts : SendsCountUp (lefts trace))
    {past rest : List (AppEvent ⊕ Effect)} {event : AppEvent ⊕ Effect}
    (split : trace = past ++ event :: rest) :
    Apart sessionKey past event ↔ ∀ earlier ∈ past, ∀ nonce,
      usedNonce sessionKey earlier = some nonce → usedNonce sessionKey event ≠ some nonce := by
  -- an event that encrypts under the session key uses its nonce, and no other event uses any
  have uses : ∀ {nonce : Nonce}, usedNonce sessionKey event = some nonce →
      ((∀ earlier ∈ past, usedNonce sessionKey earlier ≠ some nonce) ↔ ∀ earlier ∈ past, ∀ nonce,
        usedNonce sessionKey earlier = some nonce → usedNonce sessionKey event ≠ some nonce) := by
    intro nonce used
    rw [used]
    refine forall₂_congr fun earlier _ => ⟨fun free nonce' used' same => ?_, fun free used' => ?_⟩
    · cases same
      exact free used'
    · exact free nonce used' rfl
  rcases event with event | effect
  · cases event with
    | encrypted key stored nonce m c =>
        by_cases other : key = sessionKey
        · subst other
          exact (apart_request_iff app lock ideal counts split).trans (uses (if_pos rfl))
        · exact iff_of_true (fun same => absurd same other) (by simp [usedNonce, other])
    | _ => exact iff_of_true trivial (by simp [usedNonce])
  · cases effect with
    | encrypted key stored nonce m c =>
        by_cases other : key = sessionKey
        · subst other
          exact (apart_answer_iff app lock ideal counts split).trans (uses (if_pos rfl))
        · exact iff_of_true (fun same => absurd same other) (by simp [usedNonce, other])
    | _ => exact iff_of_true trivial (by simp [usedNonce])

end Session

/-- **When a nonce of a session is used twice.** In every session whose sends start from nonces that
count up, over every network that cannot forge authenticated encryption: the nonces of all
encryptions under the session key, requests and answers together, are pairwise distinct exactly when
every step is apart. -/
theorem nonces_distinct_iff (box : Secretbox) (masterNonce : Nonce) (masterKey sessionKey : Key)
    (app : App) (inputs : List (AppInput ⊕ Iteration)) (issued : Bytes 72 → Prop)
    (ideal : IdealSession box masterKey sessionKey issued
      (sessionTrace box masterNonce masterKey sessionKey app inputs))
    (counts : SendsCountUp (lefts (sessionTrace box masterNonce masterKey sessionKey app inputs))) :
    let trace := sessionTrace box masterNonce masterKey sessionKey app inputs
    (usedNonces sessionKey trace).Nodup ↔ Always (Apart sessionKey) trace := by
  have permitted := app_permitted box masterNonce masterKey sessionKey app inputs
  have lock := lock_permitted box masterNonce masterKey sessionKey app inputs
  dsimp only
  rw [usedNonces, List.Nodup, List.pairwise_filterMap, ← always_iff_pairwise, always_iff_splits,
    always_iff_splits]
  refine forall₃_congr fun past event rest => forall_congr' fun split => ?_
  rw [apart_iff permitted lock ideal counts split]
  constructor
  · exact fun distinct earlier among nonce used same => distinct earlier among nonce used nonce same rfl
  · rintro distinct earlier among nonce used nonce' used' rfl
    exact distinct earlier among nonce used used'

/-- The answer to the first request arrives before the second request. -/
def sampleTurns : List (AppInput ⊕ Iteration) :=
  sampleOpening ++ sampleRequest ++ (notifications (sampleMessage 3 1)).map .inl ++
    [.inl .rotateCounterClockwise]

/-- In that session all nonces are distinct. -/
theorem nonces_distinct_in_sample :
    usedNonces sampleSessionKey (sampleTrace sampleTurns) =
      [nonceOf 1, nonceOf 2, nonceOf 3, nonceOf 4] ∧
    (usedNonces sampleSessionKey (sampleTrace sampleTurns)).Nodup := by
  have holds := nonces_distinct_iff keyTag zeroNonce sampleMasterKey sampleSessionKey sampleApp
    sampleTurns (· = sampleTicket 1) (idealSession_sample (by decide +kernel) (by decide +kernel))
    (by decide +kernel)
  exact ⟨by decide +kernel, holds.mpr (by decide +kernel)⟩

/-- The answer to the first request is lost, and the app asks for the opposite rotation. -/
def sampleLoss : List (AppInput ⊕ Iteration) :=
  sampleOpening ++ sampleRequest ++ [.inl .rotateCounterClockwise]

/-- **A nonce is used twice**: the lock's answer and the next request, with different plaintexts. -/
theorem nonce_used_twice :
    IdealSession keyTag sampleMasterKey sampleSessionKey (· = sampleTicket 1)
      (sampleTrace sampleLoss) ∧
    SendsCountUp (lefts (sampleTrace sampleLoss)) ∧
    ∃ c c' : Bytes 17,
      .inr (.encrypted sampleSessionKey (nonceOf 2) (nonceOf 3) Rotation.cw.rspCode c) ∈
        sampleTrace sampleLoss ∧
      .inl (.encrypted sampleSessionKey (nonceOf 2) (nonceOf 3)
        LockRequestCode.rotateCounterClockwise.byte c') ∈ sampleTrace sampleLoss ∧
      Rotation.cw.rspCode ≠ LockRequestCode.rotateCounterClockwise.byte :=
  ⟨idealSession_sample (by decide +kernel) (by decide +kernel), by decide +kernel,
    messageCipher (sampleMessage 3 1), messageCipher (sampleMessage 3 0),
    mem_rights.mp (by decide +kernel), mem_lefts.mp (by decide +kernel), by decide⟩

end Esloq
