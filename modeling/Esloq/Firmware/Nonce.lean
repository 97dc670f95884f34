/-
**The firmware's nonce arithmetic (`main.c`, protocol support).**

* `isGreaterThan` — the byte-wise comparison; on arrays of one length it is the order of the
  unsigned big-endian values (`isGreaterThan_iff`).
* `incrementArray` — the carry loop from the last byte down. Its index is an unsigned byte and its
  condition always holds, so on an array of `0xFF` bytes the index wraps and the loop leaves the
  array: `none` stands for that access. Everywhere else it adds one (`value_incrementArray`).
-/

import Esloq.Crypto

namespace Esloq

open BigEndian

/-! ### Comparison -/

/-- Compute if `a` is greater than `b`. -/
def isGreaterThan : List UInt8 → List UInt8 → Bool
  | x :: a, y :: b =>
      if x < y then false
      else if x > y then true
      else isGreaterThan a b
  | _, _ => false

/-- On arrays of one length the comparison is the numeric order. -/
theorem isGreaterThan_iff : ∀ {a b : List UInt8}, a.length = b.length →
    (isGreaterThan a b = true ↔ value b < value a)
  | [], [], _ => by simp [isGreaterThan]
  | [], y :: b, sized => by simp at sized
  | x :: a, [], sized => by simp at sized
  | x :: a, y :: b, sized => by
      have sizedTail : a.length = b.length := by simpa using sized
      have tail := isGreaterThan_iff sizedTail
      rw [value, valueIn_cons_lt_iff sizedTail (fun byte _ => byte.toNat_lt)
        (fun byte _ => byte.toNat_lt), ← tail, isGreaterThan]
      rcases Nat.lt_trichotomy x.toNat y.toNat with less | same | more
      · have different : y ≠ x := by
          rintro rfl
          omega
        rw [if_pos (UInt8.lt_iff_toNat_lt.mpr less)]
        simp only [Bool.false_eq_true, different, false_and, or_false, false_iff, not_lt]
        omega
      · have equal : x = y := UInt8.toNat_inj.mp same
        subst equal
        simp
      · rw [if_neg (by rw [UInt8.lt_iff_toNat_lt]; omega), if_pos (UInt8.lt_iff_toNat_lt.mpr more)]
        simp [more]

/-- `is_valid_ticket_nonce`: whether the new nonce is above the last used one. -/
def isValidTicketNonce (nonce masterNonce : Nonce) : Bool :=
  isGreaterThan nonce.toList masterNonce.toList

/-- `is_valid_session_nonce`: whether the nonce is above the session nonce. -/
def isValidSessionNonce (nonce sessionNonce : Nonce) : Bool :=
  isGreaterThan nonce.toList sessionNonce.toList

/-- The number a nonce stands for in every comparison. -/
abbrev nonceValue (nonce : Nonce) : Nat := value nonce.toList

theorem isValidTicketNonce_iff {nonce masterNonce : Nonce} :
    isValidTicketNonce nonce masterNonce = true ↔ nonceValue masterNonce < nonceValue nonce :=
  isGreaterThan_iff (nonce.2.trans masterNonce.2.symm)

theorem isValidSessionNonce_iff {nonce sessionNonce : Nonce} :
    isValidSessionNonce nonce sessionNonce = true ↔ nonceValue sessionNonce < nonceValue nonce :=
  isGreaterThan_iff (nonce.2.trans sessionNonce.2.symm)

/-- The nonce of a number. -/
def nonceOf (number : Nat) : Nonce := ⟨encode 24 number, length_encode 24 number⟩

theorem nonceValue_nonceOf {number : Nat} (fits : number < 2 ^ 192) :
    nonceValue (nonceOf number) = number :=
  value_encode (lt_of_lt_of_eq fits (by norm_num))

/-! ### Increment -/

/-- The loop of `increment_array` from the index `i` down; `none` when it accesses the array out of
bounds. -/
def incrementArrayFrom {length : Nat} (array : Bytes length) : Nat → Option (Bytes length)
  | 0 =>
      if inside : 0 < length then
        -- after index 0 the unsigned index wraps to 255, past every array
        if array.get ⟨0, inside⟩ = 255 then none
        else some (array.set ⟨0, inside⟩ (array.get ⟨0, inside⟩ + 1))
      else none
  | i + 1 =>
      if inside : i + 1 < length then
        if array.get ⟨i + 1, inside⟩ = 255 then
          incrementArrayFrom (array.set ⟨i + 1, inside⟩ 0) i
        else some (array.set ⟨i + 1, inside⟩ (array.get ⟨i + 1, inside⟩ + 1))
      else none

/-- Increment byte array by one. -/
def incrementArray {length : Nat} (array : Bytes length) : Option (Bytes length) :=
  incrementArrayFrom array (length - 1)

/-- The loop raises the front up to its index and leaves what is behind it. -/
theorem incrementArrayFrom_eq {length : Nat} : ∀ (i : Nat) (array : Bytes length), i < length →
    (incrementArrayFrom array i).map List.Vector.toList =
      (bump 255 (array.toList.take (i + 1))).map (· ++ array.toList.drop (i + 1))
  | 0, array, inside => by
      rw [incrementArrayFrom, dif_pos inside, Bytes.take_succ_eq array inside, bump_concat]
      by_cases carries : array.get ⟨0, inside⟩ = 255
      · rw [if_pos carries, if_pos carries]
        rfl
      · rw [if_neg carries, if_neg carries, Option.map_some, Option.map_some, Bytes.toList_set_split]
  | i + 1, array, inside => by
      rw [incrementArrayFrom, dif_pos inside, Bytes.take_succ_eq array inside, bump_concat]
      by_cases carries : array.get ⟨i + 1, inside⟩ = 255
      · have sized : (array.toList.take (i + 1)).length = i + 1 := by
          rw [List.length_take, List.Vector.toList_length]
          omega
        rw [if_pos carries, if_pos carries,
          incrementArrayFrom_eq i (array.set ⟨i + 1, inside⟩ 0) (by omega), Bytes.toList_set_split,
          List.append_assoc, List.take_left' sized, List.drop_left' sized]
        cases bump 255 (array.toList.take (i + 1)) <;> simp
      · rw [if_neg carries, if_neg carries, Option.map_some, Option.map_some, Bytes.toList_set_split]

/-- The loop is the successor that carries past 255. -/
theorem incrementArray_eq {length : Nat} (array : Bytes length) :
    (incrementArray array).map List.Vector.toList = bump 255 array.toList := by
  unfold incrementArray
  rcases Nat.eq_zero_or_pos length with rfl | positive
  · have empty : array.toList = [] := List.length_eq_zero_iff.mp (List.Vector.toList_length array)
    rw [empty]
    rfl
  · have whole : array.toList.length ≤ length - 1 + 1 := by
      rw [List.Vector.toList_length]
      omega
    rw [incrementArrayFrom_eq _ array (by omega), List.take_of_length_le whole,
      List.drop_eq_nil_of_le whole]
    cases bump 255 array.toList <;> simp

theorem incrementArray_some {length : Nat} {array raised : Bytes length}
    (found : incrementArray array = some raised) : bump 255 array.toList = some raised.toList := by
  rw [← incrementArray_eq, found, Option.map_some]

theorem value_incrementArray {length : Nat} {array raised : Bytes length}
    (found : incrementArray array = some raised) :
    value raised.toList = value array.toList + 1 :=
  value_bump (incrementArray_some found)

/-- The loop leaves the array exactly on the array of `0xFF` bytes. -/
theorem incrementArray_eq_none {length : Nat} {array : Bytes length} :
    incrementArray array = none ↔ array = List.Vector.replicate length 255 := by
  rw [← Option.map_eq_none_iff (f := List.Vector.toList), incrementArray_eq, bump_eq_none]
  constructor
  · intro every
    exact Bytes.ext (List.eq_replicate_iff.mpr ⟨List.Vector.toList_length array, every⟩)
  · rintro rfl byte member
    exact List.eq_of_mem_replicate member

/-- The nonce no increment gets past. -/
def lastNonce : Nonce := List.Vector.replicate 24 255

/-- The session nonce of a fresh session. -/
def zeroNonce : Nonce := Bytes.zeros 24

theorem nonceValue_zeroNonce : nonceValue zeroNonce = 0 := valueIn_replicate_zero 256 24

theorem zeroNonce_ne_lastNonce : zeroNonce ≠ lastNonce := by decide

theorem incrementArray_of_ne {nonce : Nonce} (room : nonce ≠ lastNonce) :
    ∃ raised, incrementArray nonce = some raised ∧ nonceValue raised = nonceValue nonce + 1 := by
  cases found : incrementArray nonce with
  | none => exact absurd (incrementArray_eq_none.mp found) room
  | some raised => exact ⟨raised, rfl, value_incrementArray found⟩

end Esloq
