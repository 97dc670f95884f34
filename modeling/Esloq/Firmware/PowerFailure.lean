/-
**A power failure while `process_ticket_msg` stores the nonce (`main.c`, `crypto.c`).**

`eeprom_update_block` writes the changed bytes of `master_nonce_eeprom` one after the other, and the
supply can fail between any two of them. `Lock.lean` has the update as one effect; here it is unfolded
into its byte writes.

* `microSteps` — the effects of `process_ticket_msg` with the update unfolded; all of them together
  leave the nonce that `eepromAfter` says (`foldl_microSteps`).
* `bootAfter` — the lock that boots after a failure.
* `bootAfter_nonce_iff` — the nonces it can find are those of an update that has come to some
  boundary between the bytes.
* `survives_failure_iff` — all of them are between the old nonce and the new one exactly if no byte of
  the new nonce is smaller than the byte it replaces.
-/

import Esloq.Firmware.Process
import Esloq.Lib.InPlace

namespace Esloq

open Machine BigEndian InPlace

/-! ### The update, byte by byte -/

/-- What happens between two moments at which the supply can fail. -/
inductive MicroStep
  | effect (effect : Effect)
  /-- A byte of `master_nonce_eeprom` is written. -/
  | byte (nonce : Nonce) (address : Fin 24)

/-- The EEPROM after a step. -/
def MicroStep.write (stored : Nonce) (step : MicroStep) : Nonce :=
  match step with
  | .effect _ => stored
  | .byte nonce address => copyCell nonce stored address

/-- `eeprom_update_block` on `master_nonce_eeprom`. -/
def eepromUpdateBlock (order : Order) (nonce stored : Nonce) : List MicroStep :=
  (changes order nonce stored).map (.byte nonce)

/-- Effects with the EEPROM updates unfolded. -/
def microSteps (order : Order) : Nonce → List Effect → List MicroStep
  | _, [] => []
  | stored, .eepromUpdate nonce :: rest =>
      eepromUpdateBlock order nonce stored ++ microSteps order nonce rest
  | stored, effect :: rest => .effect effect :: microSteps order stored rest

/-- The lock that boots after the supply has failed some steps into `process_ticket_msg`. -/
def bootAfter (box : Secretbox) (lowBattery : Bool) (order : Order) (l : Lock) (count : Nat) : Lock :=
  powerUp { l with
    masterNonceEeprom :=
      ((microSteps order l.masterNonceEeprom (processTicketMsg box lowBattery l).2.events).take
        count).foldl MicroStep.write l.masterNonceEeprom }

/-- Bytes written are cells copied. -/
theorem foldl_bytes (nonce stored : Nonce) (addresses : List (Fin 24)) :
    (addresses.map (.byte nonce)).foldl MicroStep.write stored = copied nonce stored addresses := by
  rw [List.foldl_map]
  rfl

/-- A whole update is the effect that the rest of the model knows. -/
theorem foldl_microSteps (order : Order) : ∀ (effects : List Effect) (stored : Nonce),
    (microSteps order stored effects).foldl MicroStep.write stored = eepromAfter stored effects
  | [], _ => rfl
  | effect :: rest, stored => by
      cases effect with
      | eepromUpdate nonce =>
          rw [microSteps, List.foldl_append, eepromUpdateBlock, foldl_bytes, copied_changes]
          exact foldl_microSteps order rest nonce
      | _ => exact foldl_microSteps order rest stored

/-! ### The nonces a boot can find -/

/-- A valid ticket is looked at, its nonce is stored, and no other nonce is. -/
theorem processTicketMsg_stores (box : Secretbox) (lowBattery : Bool) {l : Lock}
    (valid : isValidTicketNonce (ticketNonce l.msgBuf.data) l.masterNonceEeprom = true) :
    ∃ rest, (processTicketMsg box lowBattery l).2.events =
        .ticketMsg l.msgBuf.data :: .eepromUpdate (ticketNonce l.msgBuf.data) :: rest ∧
      ∀ effect ∈ rest, ∀ nonce, effect ≠ .eepromUpdate nonce := by
  rcases processTicketMsg_cases box lowBattery l with
    ⟨invalid, -⟩ | ⟨-, ⟨-, same⟩ | ⟨key, -, same⟩⟩
  · rw [valid] at invalid
    cases invalid
  · rw [same]
    exact ⟨_, rfl, by simp⟩
  · rw [same]
    obtain ⟨next, -, responds | ⟨c, -, responds⟩⟩ := respond_ticket_cases box lowBattery l key
    all_goals
      rw [responds]
      exact ⟨_, rfl, by simp [sendResponse]⟩

/-- Effects without an update write nothing. -/
theorem foldl_microSteps_of_none (order : Order) : ∀ {effects : List Effect} (stored other : Nonce)
    (count : Nat), (∀ effect ∈ effects, ∀ nonce, effect ≠ .eepromUpdate nonce) →
    ((microSteps order stored effects).take count).foldl MicroStep.write other = other
  | [], _, _, _, _ => by simp [microSteps]
  | effect :: rest, stored, other, count, none' => by
      have here := none' effect List.mem_cons_self
      have tail := fun count => foldl_microSteps_of_none order stored other count
        fun later member => none' later (List.mem_cons_of_mem effect member)
      have unfolded : microSteps order stored (effect :: rest) =
          .effect effect :: microSteps order stored rest := by
        cases effect with
        | eepromUpdate nonce => exact absurd rfl (here nonce)
        | _ => rfl
      cases count with
      | zero => rfl
      | succ count =>
          rw [unfolded, List.take_succ_cons, List.foldl_cons]
          exact tail count

/-- The nonces that a boot can find are those an update passes through. -/
theorem bootAfter_nonce_iff (box : Secretbox) (lowBattery : Bool) (order : Order) {l : Lock}
    (valid : isValidTicketNonce (ticketNonce l.msgBuf.data) l.masterNonceEeprom = true)
    (found : Nonce) :
    (∃ count, found = (bootAfter box lowBattery order l count).masterNonceEeprom) ↔
      ∃ boundary, found.toList =
        order.mixed (ticketNonce l.msgBuf.data) l.masterNonceEeprom boundary := by
  obtain ⟨rest, events, none'⟩ := processTicketMsg_stores box lowBattery valid
  rw [← exists_split_iff]
  have reads : ∀ count, (bootAfter box lowBattery order l (count + 1)).masterNonceEeprom =
      copied (ticketNonce l.msgBuf.data) l.masterNonceEeprom
        ((changes order (ticketNonce l.msgBuf.data) l.masterNonceEeprom).take count) := by
    intro count
    show ((microSteps order l.masterNonceEeprom (processTicketMsg box lowBattery l).2.events).take
      (count + 1)).foldl MicroStep.write l.masterNonceEeprom = _
    have unfolded : microSteps order l.masterNonceEeprom
        (processTicketMsg box lowBattery l).2.events =
          .effect (.ticketMsg l.msgBuf.data) ::
            (eepromUpdateBlock order (ticketNonce l.msgBuf.data) l.masterNonceEeprom ++
              microSteps order (ticketNonce l.msgBuf.data) rest) := by
      rw [events]
      rfl
    rw [unfolded, List.take_succ_cons, List.foldl_cons, eepromUpdateBlock, List.take_append,
      List.foldl_append, ← List.map_take, foldl_microSteps_of_none order _ _ _ none']
    exact foldl_bytes _ _ _
  constructor
  · rintro ⟨count, rfl⟩
    cases count with
    | zero => exact ⟨0, rfl⟩
    | succ count => exact ⟨count, reads count⟩
  · rintro ⟨count, rfl⟩
    exact ⟨count + 1, (reads count).symm⟩

/-! ### Between the old nonce and the new one -/

/-- Whichever way the bytes are written, one bound always holds and the other compares the rests. -/
theorem mixed_between_iff (order : Order) {source target : Nonce}
    (less : nonceValue target ≤ nonceValue source) (boundary : Nat) :
    (nonceValue target ≤ value (order.mixed source target boundary) ∧
        value (order.mixed source target boundary) ≤ nonceValue source) ↔
      value (target.toList.drop boundary) ≤ value (source.toList.drop boundary) := by
  have sized : target.toList.length = source.toList.length := target.2.trans source.2.symm
  have rests : (target.toList.drop boundary).length = (source.toList.drop boundary).length := by
    rw [List.length_drop, List.length_drop, sized]
  have fronts := value_take_le sized less boundary
  have targetSplit := congrArg value (List.take_append_drop boundary target.toList)
  have sourceSplit := congrArg value (List.take_append_drop boundary source.toList)
  cases order with
  | ascending =>
      have lower := (@value_append_le_iff_left _ _ (target.toList.drop boundary)).mpr fronts
      have upper := @value_append_le_iff_right (source.toList.take boundary) _ _ rests
      rw [targetSplit] at lower
      rw [sourceSplit] at upper
      exact ⟨fun both => upper.mp both.2, fun rest => ⟨lower, upper.mpr rest⟩⟩
  | descending =>
      have upper := (@value_append_le_iff_left _ _ (source.toList.drop boundary)).mpr fronts
      have lower := @value_append_le_iff_right (target.toList.take boundary) _ _ rests
      rw [sourceSplit] at upper
      rw [targetSplit] at lower
      exact ⟨fun both => lower.mp both.1, fun rest => ⟨lower.mpr rest, upper⟩⟩

/-- **A power failure leaves a nonce between the old and the new one exactly if no byte of the new one
is smaller than the byte it replaces.** -/
theorem survives_failure_iff (box : Secretbox) (lowBattery : Bool) (order : Order) (l : Lock)
    (valid : isValidTicketNonce (ticketNonce l.msgBuf.data) l.masterNonceEeprom = true) :
    (∀ count,
      nonceValue l.masterNonceEeprom ≤
          nonceValue (bootAfter box lowBattery order l count).masterNonceEeprom ∧
        nonceValue (bootAfter box lowBattery order l count).masterNonceEeprom ≤
          nonceValue (ticketNonce l.msgBuf.data)) ↔
      ∀ address,
        l.masterNonceEeprom.get address ≤ (ticketNonce l.msgBuf.data).get address := by
  have less := (isValidTicketNonce_iff.mp valid).le
  have found := bootAfter_nonce_iff box lowBattery order valid
  have sized : l.masterNonceEeprom.toList.length = (ticketNonce l.msgBuf.data).toList.length :=
    l.masterNonceEeprom.2.trans (ticketNonce l.msgBuf.data).2.symm
  have bytewise : (∀ address, l.masterNonceEeprom.get address ≤
      (ticketNonce l.msgBuf.data).get address) ↔
        List.Forall₂ (· ≤ ·) l.masterNonceEeprom.toList (ticketNonce l.msgBuf.data).toList := by
    rw [List.forall₂_iff_get]
    constructor
    · intro every
      refine ⟨sized, fun index inside _ => ?_⟩
      have here := every ⟨index, by rwa [List.Vector.toList_length] at inside⟩
      rwa [List.Vector.get_eq_get_toList, List.Vector.get_eq_get_toList] at here
    · rintro ⟨-, every⟩ address
      rw [List.Vector.get_eq_get_toList, List.Vector.get_eq_get_toList]
      exact every address.val _ _
  rw [bytewise, ← value_drop_le_iff sized]
  constructor
  · intro between boundary
    obtain ⟨count, same⟩ := (found ⟨_, order.length_mixed _ _ boundary⟩).mpr ⟨boundary, rfl⟩
    have both := between count
    rw [← same] at both
    exact (mixed_between_iff order less boundary).mp both
  · intro rests count
    obtain ⟨boundary, same⟩ := (found _).mp ⟨count, rfl⟩
    rw [nonceValue, nonceValue, same]
    exact (mixed_between_iff order less boundary).mpr (rests boundary)

/-! ### A carry -/

/-- A lock that has stored one nonce and has received a ticket with another. -/
def ticketReceived (stored next : Nat) : Lock :=
  { bootLock (nonceOf stored) (Bytes.zeros 32) with
    state := .ticket
    msgBuf := ⟨72, ticketMessage (nonceOf next) (Bytes.zeros (32 + 16))⟩ }

theorem survives_failure_same_row :
    isValidTicketNonce (ticketNonce (ticketReceived 3 4).msgBuf.data)
        (ticketReceived 3 4).masterNonceEeprom = true ∧
      ((∀ count,
        nonceValue (ticketReceived 3 4).masterNonceEeprom ≤
            nonceValue (bootAfter keyTag false .ascending (ticketReceived 3 4) count).masterNonceEeprom ∧
          nonceValue (bootAfter keyTag false .ascending (ticketReceived 3 4) count).masterNonceEeprom ≤
            nonceValue (ticketNonce (ticketReceived 3 4).msgBuf.data)) ↔
        ∀ address, (ticketReceived 3 4).masterNonceEeprom.get address ≤
          (ticketNonce (ticketReceived 3 4).msgBuf.data).get address) := by
  have valid : isValidTicketNonce (ticketNonce (ticketReceived 3 4).msgBuf.data)
      (ticketReceived 3 4).masterNonceEeprom = true := by decide +kernel
  exact ⟨valid, survives_failure_iff keyTag false .ascending (ticketReceived 3 4) valid⟩

/-- From 255 to 256 a failure after the first byte leaves 511 or 0: the next ticket is refused, or
every ticket so far is valid again. -/
theorem failure_in_carry :
    isValidTicketNonce (nonceOf 256) (nonceOf 255) = true ∧
      (bootAfter keyTag false .ascending (ticketReceived 255 256) 2).masterNonceEeprom = nonceOf 511 ∧
      isValidTicketNonce (nonceOf 257) (nonceOf 511) = false ∧
      (bootAfter keyTag false .descending (ticketReceived 255 256) 2).masterNonceEeprom = nonceOf 0 ∧
      isValidTicketNonce (nonceOf 255) (nonceOf 0) = true ∧
      ∀ order : Order, ¬ ∀ (l : Lock),
        isValidTicketNonce (ticketNonce l.msgBuf.data) l.masterNonceEeprom = true → ∀ count,
          nonceValue l.masterNonceEeprom ≤
              nonceValue (bootAfter keyTag false order l count).masterNonceEeprom ∧
            nonceValue (bootAfter keyTag false order l count).masterNonceEeprom ≤
              nonceValue (ticketNonce l.msgBuf.data) := by
  have above : (bootAfter keyTag false .ascending (ticketReceived 255 256) 2).masterNonceEeprom =
      nonceOf 511 := by decide +kernel
  have below : (bootAfter keyTag false .descending (ticketReceived 255 256) 2).masterNonceEeprom =
      nonceOf 0 := by decide +kernel
  have valid : isValidTicketNonce (ticketNonce (ticketReceived 255 256).msgBuf.data)
      (ticketReceived 255 256).masterNonceEeprom = true := by decide +kernel
  refine ⟨by decide +kernel, above, by decide +kernel, below, by decide +kernel, ?_⟩
  intro order between
  have bounds := between (ticketReceived 255 256) valid 2
  cases order with
  | ascending =>
      rw [above] at bounds
      exact absurd bounds.2 (by decide +kernel)
  | descending =>
      rw [below] at bounds
      exact absurd bounds.1 (by decide +kernel)

end Esloq
