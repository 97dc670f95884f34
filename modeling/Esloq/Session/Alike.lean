/-
**The nonce arithmetic of the app against that of the firmware (`Tools.java`, `Cryptography.java`,
`main.c`).**

* `increments_alike_iff` — below the last nonce the two increments agree, and add one, exactly on a
  nonce whose last byte is neither `0x7F` nor `0xFF`.
* `orders_alike_iff` — the two comparisons agree exactly on nonces whose top bits are equal: a
  `BigInteger` with the top bit set is negative.
-/

import Esloq.App.Nonce

namespace Esloq

open BigEndian

/-! ### Increment -/

/-- Below the last nonce the firmware's increment is the array worth one more. -/
theorem incrementArray_eq_some_iff {nonce raised : Nonce} (room : nonce ≠ lastNonce) :
    incrementArray nonce = some raised ↔ nonceValue raised = nonceValue nonce + 1 := by
  obtain ⟨next, found, value⟩ := incrementArray_of_ne room
  constructor
  · exact value_incrementArray
  · intro same
    rw [found]
    exact congrArg some (bytes_eq_of_value (value.trans same.symm))

/-- **App and firmware increment a nonce alike unless its last byte is `0x7F` or `0xFF`.** -/
theorem increments_alike_iff {nonce : Nonce} (room : nonce ≠ lastNonce) :
    (incrementArray nonce = some (App.incrementByteArray nonce) ∧
      nonceValue (App.incrementByteArray nonce) = nonceValue nonce + 1 ∧
      isGreaterThan (App.incrementByteArray nonce).toList nonce.toList = true) ↔
    App.lastByte nonce ≠ 127 ∧ App.lastByte nonce ≠ 255 := by
  have sized : (App.incrementByteArray nonce).toList.length = nonce.toList.length :=
    (App.incrementByteArray nonce).2.trans nonce.2.symm
  have adds := @App.incrementByteArray_adds_one_iff nonce
  rw [incrementArray_eq_some_iff room, isGreaterThan_iff sized]
  constructor
  · exact fun alike => adds.mp alike.1
  · intro plain
    have one := adds.mpr plain
    exact ⟨one, one, (Nat.lt_succ_self (nonceValue nonce)).trans_eq one.symm⟩

/-- A nonce with the one byte at its end. -/
def endingIn (byte : UInt8) : Nonce := ⟨List.replicate 23 0 ++ [byte], rfl⟩

theorem increments_alike_ending_in_5 :
    incrementArray (endingIn 5) = some (App.incrementByteArray (endingIn 5)) ∧
      nonceValue (App.incrementByteArray (endingIn 5)) = nonceValue (endingIn 5) + 1 ∧
      isGreaterThan (App.incrementByteArray (endingIn 5)).toList (endingIn 5).toList = true :=
  (increments_alike_iff (by decide)).mpr (by decide)

/-- **After `0x7F` the app skips to 256, after `0xFF` it falls back to 0.** -/
theorem increments_differ :
    (endingIn 127 ≠ lastNonce ∧ incrementArray (endingIn 127) = some (endingIn 128) ∧
      App.incrementByteArray (endingIn 127) ≠ endingIn 128 ∧
      nonceValue (App.incrementByteArray (endingIn 127)) = 256) ∧
    (endingIn 255 ≠ lastNonce ∧ App.incrementByteArray (endingIn 255) = zeroNonce ∧
      isGreaterThan (App.incrementByteArray (endingIn 255)).toList (endingIn 255).toList = false) := by
  decide +kernel

/-! ### Order -/

/-- The top bit of a nonce is worth 2^191. -/
theorem unsigned_iff {nonce : Nonce} : App.unsigned nonce ↔ nonceValue nonce < 128 * 256 ^ 23 := by
  obtain ⟨bytes, sized⟩ := nonce
  cases bytes with
  | nil => cases sized
  | cons byte rest =>
      have length : rest.length = 23 := Nat.succ.inj sized
      have bound := value_lt rest
      rw [length] at bound
      show byte.toNat < 128 ↔ value (byte :: rest) < _
      rw [value_cons, length]
      omega

theorem bigInteger_of_unsigned {nonce : Nonce} (plain : App.unsigned nonce) :
    App.bigInteger nonce.toList = nonceValue nonce := by
  unfold App.bigInteger
  rw [if_neg (not_le.mpr plain)]

theorem bigInteger_of_not_unsigned {nonce : Nonce} (signed : ¬ App.unsigned nonce) :
    App.bigInteger nonce.toList = (nonceValue nonce : Int) - (256 ^ 24 : Nat) := by
  unfold App.bigInteger
  rw [if_pos (not_lt.mp signed), List.Vector.toList_length]

/-- **App and firmware order two nonces alike exactly when their top bits are equal.** -/
theorem orders_alike_iff {nonce sessionNonce : Nonce} :
    ((App.isValidSessionNonce nonce sessionNonce = true ↔
        isValidSessionNonce nonce sessionNonce = true) ∧
      (App.isValidSessionNonce nonce sessionNonce = true ↔
        nonceValue sessionNonce < nonceValue nonce)) ↔
    (App.unsigned nonce ↔ App.unsigned sessionNonce) := by
  have bound : nonceValue nonce < 256 ^ 24 := lt_of_lt_of_eq (value_lt nonce.toList) (by simp)
  have stored : nonceValue sessionNonce < 256 ^ 24 :=
    lt_of_lt_of_eq (value_lt sessionNonce.toList) (by simp)
  rw [isValidSessionNonce_iff, and_self, App.isValidSessionNonce, decide_eq_true_iff]
  by_cases plain : App.unsigned nonce
  · by_cases storedPlain : App.unsigned sessionNonce
    · rw [bigInteger_of_unsigned plain, bigInteger_of_unsigned storedPlain, Nat.cast_lt]
      exact iff_of_true Iff.rfl (iff_of_true plain storedPlain)
    · rw [bigInteger_of_unsigned plain, bigInteger_of_not_unsigned storedPlain]
      have less := unsigned_iff.mp plain
      have storedMore := unsigned_iff.not.mp storedPlain
      refine iff_of_false ?_ fun alike => storedPlain (alike.mp plain)
      omega
  · by_cases storedPlain : App.unsigned sessionNonce
    · rw [bigInteger_of_not_unsigned plain, bigInteger_of_unsigned storedPlain]
      have more := unsigned_iff.not.mp plain
      have storedLess := unsigned_iff.mp storedPlain
      refine iff_of_false ?_ fun alike => plain (alike.mpr storedPlain)
      omega
    · rw [bigInteger_of_not_unsigned plain, bigInteger_of_not_unsigned storedPlain]
      refine iff_of_true ?_ (iff_of_false plain storedPlain)
      omega

/-- **The app takes a nonce with the top bit set for a negative number**: it rejects the larger one
and accepts the smaller. -/
theorem orders_differ :
    (isValidSessionNonce lastNonce (endingIn 1) = true ∧
      App.isValidSessionNonce lastNonce (endingIn 1) = false) ∧
    (isValidSessionNonce (endingIn 1) lastNonce = false ∧
      App.isValidSessionNonce (endingIn 1) lastNonce = true) := by
  decide +kernel

end Esloq
