/-
**The app's nonce arithmetic (`Tools.java`, `Cryptography.java`).**

A Java byte is signed: `Byte.MAX_VALUE` is 127, and a nonce is compared as a `BigInteger`, whose
sign is the top bit of the first byte.

* `incrementByteArray` — the recursion of `Tools` from the last byte down. It carries past 127 and
  past no other byte, so a byte 255 turns to zero without a carry. It raises the unsigned value
  exactly on a nonce that `countsUp` (`lt_incrementByteArray_iff`), and by one exactly when moreover
  the last byte is not 127 (`incrementByteArray_succ_iff`).
* `isValidSessionNonce` — on a stored nonce without a sign bit it is the unsigned order, and what it
  accepts has no sign bit either (`isValidSessionNonce_iff`).
-/

import Esloq.Firmware.Nonce

namespace Esloq

namespace App

open BigEndian

/-! ### Increment -/

/-- `Byte.MAX_VALUE`. -/
def byteMax : UInt8 := 127

/-- `Tools.incrementAtIndex`. -/
def incrementAtIndex {length : Nat} (array : Bytes length) :
    (index : Nat) → index < length → Bytes length
  | 0, inside =>
      if array.get ⟨0, inside⟩ = byteMax then array.set ⟨0, inside⟩ 0
      else array.set ⟨0, inside⟩ (array.get ⟨0, inside⟩ + 1)
  | index + 1, inside =>
      if array.get ⟨index + 1, inside⟩ = byteMax then
        incrementAtIndex (array.set ⟨index + 1, inside⟩ 0) index (Nat.lt_of_succ_lt inside)
      else array.set ⟨index + 1, inside⟩ (array.get ⟨index + 1, inside⟩ + 1)

/-- `Tools.incrementByteArray`. -/
def incrementByteArray {length : Nat} (array : Bytes (length + 1)) : Bytes (length + 1) :=
  incrementAtIndex array length (Nat.lt_succ_self length)

/-- The recursion raises the front up to its index; where the carry leaves the array the front is
zero. -/
theorem incrementAtIndex_eq {length : Nat} (array : Bytes length) (index : Nat)
    (inside : index < length) :
    (incrementAtIndex array index inside).toList =
      (bump byteMax (array.toList.take (index + 1))).getD (List.replicate (index + 1) 0) ++
        array.toList.drop (index + 1) := by
  refine toList_of_carries incrementAtIndex (fun array inside => ?_) (fun _ _ _ => rfl) array index inside
  unfold incrementAtIndex
  by_cases carries : array.get ⟨0, inside⟩ = byteMax
  · rw [if_pos carries, if_pos carries]
  · rw [if_neg carries, if_neg carries]

/-- The recursion is the successor that carries past 127, and all zeros where the carry leaves the
array. -/
theorem toList_incrementByteArray {length : Nat} (array : Bytes (length + 1)) :
    (incrementByteArray array).toList =
      (bump byteMax array.toList).getD (List.replicate (length + 1) 0) := by
  have whole : array.toList.length ≤ length + 1 := (List.Vector.toList_length array).le
  rw [incrementByteArray, incrementAtIndex_eq, List.take_of_length_le whole,
    List.drop_eq_nil_of_le whole, List.append_nil]

/-- The byte at which the carry stops exists and has room. -/
def countsUp (nonce : Nonce) : Bool :=
  match carryStop byteMax nonce.toList with
  | some byte => byte ≠ 255
  | none => false

/-- Incrementing a nonce raises it exactly when it counts up. -/
theorem lt_incrementByteArray_iff {nonce : Nonce} :
    nonceValue nonce < nonceValue (incrementByteArray nonce) ↔ countsUp nonce = true := by
  rw [nonceValue, nonceValue, toList_incrementByteArray, countsUp]
  cases stop : carryStop byteMax nonce.toList with
  | none =>
      rw [carryStop_eq_none.mp stop, Option.getD_none]
      simp
  | some byte =>
      cases bumped : bump byteMax nonce.toList with
      | none =>
          rw [carryStop_eq_none.mpr bumped] at stop
          cases stop
      | some raised =>
          rw [Option.getD_some, value_lt_bump_iff bumped, stop]
          simp

/-- The last byte of a nonce. -/
def lastByte (nonce : Nonce) : UInt8 := nonce.get 23

theorem toList_eq_concat_lastByte (nonce : Nonce) :
    nonce.toList = nonce.toList.take 23 ++ [lastByte nonce] := by
  have front := Bytes.take_succ_eq nonce (show 23 < 24 by decide)
  rw [List.take_of_length_le (List.Vector.toList_length nonce).le] at front
  exact front

/-- A nonce is raised by one exactly when its last byte neither carries nor overflows. -/
theorem incrementByteArray_adds_one_iff {nonce : Nonce} :
    nonceValue (incrementByteArray nonce) = nonceValue nonce + 1 ↔
      lastByte nonce ≠ byteMax ∧ lastByte nonce ≠ 255 := by
  have split := toList_eq_concat_lastByte nonce
  rw [nonceValue, nonceValue, toList_incrementByteArray]
  cases bumped : bump byteMax nonce.toList with
  | none =>
      have carries : lastByte nonce = byteMax :=
        bump_eq_none.mp bumped _ (split ▸ List.mem_append_right _ List.mem_cons_self)
      rw [Option.getD_none, show value (List.replicate (23 + 1) 0) = 0 from
        valueIn_replicate_zero 256 24]
      exact iff_of_false (Nat.succ_ne_zero _).symm fun both => both.1 carries
  | some raised =>
      rw [split] at bumped
      rw [Option.getD_some, split, value_bump_succ_iff (by decide) bumped]

/-- A nonce that counts up is raised by one exactly when its last byte does not carry. -/
theorem incrementByteArray_succ_iff {nonce : Nonce} (counts : countsUp nonce = true) :
    nonceValue (incrementByteArray nonce) = nonceValue nonce + 1 ↔ lastByte nonce ≠ byteMax := by
  rw [incrementByteArray_adds_one_iff]
  refine and_iff_left_of_imp fun free full => ?_
  unfold countsUp at counts
  rw [toList_eq_concat_lastByte nonce, carryStop_concat, if_neg free, full] at counts
  cases counts

/-! ### Comparison -/

/-- `new BigInteger(bytes)`: two's complement, most significant byte first. -/
def bigInteger (bytes : List UInt8) : Int :=
  if 128 ≤ (bytes.headD 0).toNat then (value bytes : Int) - (256 ^ bytes.length : Nat) else value bytes

/-- A nonce whose `BigInteger` is not negative. -/
def unsigned (nonce : Nonce) : Prop := (nonce.toList.headD 0).toNat < 128

/-- `isValidSessionNonce`: whether the nonce is above the session nonce. -/
def isValidSessionNonce (nonce sessionNonce : Nonce) : Bool :=
  bigInteger sessionNonce.toList < bigInteger nonce.toList

/-- Above a nonce without a sign bit there are only nonces without one, in unsigned order. -/
theorem isValidSessionNonce_iff {nonce sessionNonce : Nonce} (plain : unsigned sessionNonce) :
    isValidSessionNonce nonce sessionNonce = true ↔
      unsigned nonce ∧ nonceValue sessionNonce < nonceValue nonce := by
  have bound : nonceValue nonce < 256 ^ nonce.toList.length := value_lt nonce.toList
  have cast : (nonceValue nonce : Int) < (256 ^ nonce.toList.length : Nat) := Nat.cast_lt.mpr bound
  rw [isValidSessionNonce, decide_eq_true_iff, bigInteger, if_neg (not_le.mpr plain), bigInteger]
  by_cases negative : 128 ≤ (nonce.toList.headD 0).toNat
  · rw [if_pos negative]
    refine iff_of_false ?_ fun both => absurd both.1 (not_lt.mpr negative)
    rw [nonceValue] at cast
    omega
  · rw [if_neg negative, unsigned, Nat.cast_lt]
    exact (and_iff_right (not_le.mp negative)).symm

theorem unsigned_zeroNonce : unsigned zeroNonce := Nat.zero_lt_succ 127

/-- Incrementing gives no nonce a sign bit. -/
theorem unsigned_incrementByteArray {nonce : Nonce} (plain : unsigned nonce) :
    unsigned (incrementByteArray nonce) := by
  rw [unsigned, toList_incrementByteArray]
  cases bumped : bump byteMax nonce.toList with
  | none => exact Nat.zero_lt_succ 127
  | some raised => exact Nat.lt_succ_of_le (headD_bump_le bumped (Nat.le_of_lt_succ plain))

end App

end Esloq
