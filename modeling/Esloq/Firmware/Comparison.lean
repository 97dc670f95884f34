/-
**The loop of `is_greater_than`, its recursive reference, and the numbers the server encodes
(`main.c`, `getlockticket`).**

* `isGreaterThanLoop` — the loop with its `uint8_t` index and its result as a `uint8_t`; on arrays of the
  length passed it reads inside both and is the comparison `isGreaterThan` (`isGreaterThanLoop_eq`).
* `isGreaterThanRecursive` — the implementation kept under `#if 0`, which reads the first byte before it
  looks at the length; from one byte on it gives the same (`isGreaterThanRecursive_eq`).
* The comparison is a strict total order of the arrays of one length (`isGreaterThan_strictTotal`).
* `comparison_numeric` — both give the order of the unsigned big-endian values, on the server's encodings
  that of the numbers.
-/

import Esloq.Server.Ticket

namespace Esloq

open BigEndian

/-! ### The loop -/

/-- Below a length the unsigned index does not wrap. -/
theorem toNat_succ {i length : UInt8} (inside : i < length) : (i + 1).toNat = i.toNat + 1 := by
  have below := UInt8.lt_iff_toNat_lt.mp inside
  have := length.toNat_lt
  rw [UInt8.toNat_add, UInt8.toNat_one]
  omega

/-- The loop of `is_greater_than` from the index `i` on; `none` when it reads outside an array. -/
def isGreaterThanFrom (a b : List UInt8) (length i : UInt8) : Option UInt8 :=
  if i < length then
    match a[i.toNat]?, b[i.toNat]? with
    | some x, some y =>
        if x < y then some 0
        else if x > y then some 1
        else isGreaterThanFrom a b length (i + 1)
    | _, _ => none
  else some 0 -- nonce is equal to session nonce
termination_by length.toNat - i.toNat
decreasing_by
  rw [toNat_succ ‹i < length›]
  have := UInt8.lt_iff_toNat_lt.mp ‹i < length›
  omega

/-- `is_greater_than`. -/
def isGreaterThanLoop (a b : List UInt8) (length : UInt8) : Option UInt8 :=
  isGreaterThanFrom a b length 0

section Loop

variable {a b : List UInt8} {length i x y : UInt8}

/-- One pass: the bytes decide unless they are equal. -/
theorem isGreaterThanFrom_pass (inside : i < length) (readA : a[i.toNat]? = some x)
    (readB : b[i.toNat]? = some y) :
    isGreaterThanFrom a b length i =
      if x < y then some 0
      else if x > y then some 1
      else isGreaterThanFrom a b length (i + 1) := by
  rw [isGreaterThanFrom, if_pos inside, readA, readB]

theorem isGreaterThanFrom_done (outside : ¬ i < length) :
    isGreaterThanFrom a b length i = some 0 := by
  rw [isGreaterThanFrom, if_neg outside]

/-- What is left of an array at an index begins with the byte read there. -/
theorem drop_of_read {index : Nat} (read : a[index]? = some x) :
    a.drop index = x :: a.drop (index + 1) := by
  obtain ⟨inside, isByte⟩ := List.getElem?_eq_some_iff.mp read
  rw [List.drop_eq_getElem_cons inside, isByte]

theorem read_of_lt (sized : a.length = length.toNat) (inside : i < length) :
    ∃ x, a[i.toNat]? = some x :=
  ⟨_, List.getElem?_eq_getElem (sized ▸ UInt8.lt_iff_toNat_lt.mp inside)⟩

/-- From an index on the loop compares what is left of the arrays. -/
theorem isGreaterThanFrom_eq (sizedA : a.length = length.toNat) (sizedB : b.length = length.toNat) :
    isGreaterThanFrom a b length i =
      some (isGreaterThan (a.drop i.toNat) (b.drop i.toNat)).toUInt8 := by
  -- on the passes that are left
  induction left : length.toNat - i.toNat generalizing i with
  | zero =>
      have outside : ¬ i < length := by
        rw [UInt8.lt_iff_toNat_lt]
        omega
      have nothing : a.drop i.toNat = [] := List.drop_eq_nil_of_le (by omega)
      rw [isGreaterThanFrom_done outside, nothing]
      rfl
  | succ left ih =>
      have inside : i < length := by
        rw [UInt8.lt_iff_toNat_lt]
        omega
      obtain ⟨x, readA⟩ := read_of_lt sizedA inside
      obtain ⟨y, readB⟩ := read_of_lt sizedB inside
      have next := toNat_succ inside
      rw [isGreaterThanFrom_pass inside readA readB, drop_of_read readA, drop_of_read readB,
        isGreaterThan, ih (by omega), next]
      by_cases less : x < y
      · rw [if_pos less, if_pos less]
        rfl
      · rw [if_neg less, if_neg less]
        by_cases more : x > y
        · rw [if_pos more, if_pos more]
          rfl
        · rw [if_neg more, if_neg more]

/-- **The loop is the comparison**, with every read inside the arrays. -/
theorem isGreaterThanLoop_eq (sizedA : a.length = length.toNat) (sizedB : b.length = length.toNat) :
    isGreaterThanLoop a b length = some (isGreaterThan a b).toUInt8 :=
  isGreaterThanFrom_eq sizedA sizedB

end Loop

theorem isValidTicketNonce_loop (nonce masterNonce : Nonce) :
    isGreaterThanLoop nonce.toList masterNonce.toList 24 =
      some (isValidTicketNonce nonce masterNonce).toUInt8 :=
  isGreaterThanLoop_eq nonce.2 masterNonce.2

theorem isValidSessionNonce_loop (nonce sessionNonce : Nonce) :
    isGreaterThanLoop nonce.toList sessionNonce.toList 24 =
      some (isValidSessionNonce nonce sessionNonce).toUInt8 :=
  isGreaterThanLoop_eq nonce.2 sessionNonce.2

/-! ### The recursion -/

/-- The implementation under `#if 0`, on the arrays from their first byte on; `none` when there is none to
read. -/
def isGreaterThanRecursive : List UInt8 → List UInt8 → UInt8 → Option UInt8
  | x :: a, y :: b, length =>
      if x > y then some 1
      else if x < y then some 0
      else if length > 1 then isGreaterThanRecursive a b (length - 1)
      else some 0
  | _, _, _ => none

/-- On at least one byte the recursion is the comparison. -/
theorem isGreaterThanRecursive_eq : ∀ {a b : List UInt8} {length : UInt8},
    a.length = length.toNat → b.length = length.toNat → 0 < length →
    isGreaterThanRecursive a b length = some (isGreaterThan a b).toUInt8
  | [], _, length, sizedA, _, positive => by
      rw [UInt8.lt_iff_toNat_lt, ← sizedA] at positive
      cases positive
  | _ :: _, [], length, _, sizedB, positive => by
      rw [UInt8.lt_iff_toNat_lt, ← sizedB] at positive
      cases positive
  | x :: a, y :: b, length, sizedA, sizedB, positive => by
      rw [isGreaterThanRecursive, isGreaterThan]
      rw [List.length_cons] at sizedA sizedB
      by_cases more : x > y
      · rw [if_pos more, if_neg (UInt8.lt_asymm more), if_pos more]
        rfl
      · rw [if_neg more]
        by_cases less : x < y
        · rw [if_pos less, if_pos less]
          rfl
        · rw [if_neg less, if_neg less, if_neg more]
          by_cases longer : length > 1
          · have two : 1 < length.toNat := UInt8.lt_iff_toNat_lt.mp longer
            have lower : (length - 1).toNat = length.toNat - 1 :=
              UInt8.toNat_sub_of_le _ _ (UInt8.le_of_lt longer)
            rw [if_pos longer]
            refine isGreaterThanRecursive_eq (by omega) (by omega) ?_
            rw [UInt8.lt_iff_toNat_lt, lower]
            exact Nat.sub_pos_of_lt two
          · have one : ¬ 1 < length.toNat := fun two => longer (UInt8.lt_iff_toNat_lt.mpr two)
            have last : a = [] := List.length_eq_zero_iff.mp (by omega)
            rw [if_neg longer, last]
            rfl

/-! ### The order -/

theorem toUInt8_isGreaterThan {a b : List UInt8} (sized : a.length = b.length) :
    (isGreaterThan a b).toUInt8 = if value b < value a then 1 else 0 := by
  simp only [Bool.toUInt8, isGreaterThan_iff sized]

/-- The comparison is a strict total order of the arrays of one length. -/
theorem isGreaterThan_strictTotal (length : Nat) :
    IsStrictTotalOrder (Bytes length) fun a b => isGreaterThan a.toList b.toList = true := by
  have numeric : ∀ a b : Bytes length, isGreaterThan a.toList b.toList = true ↔
      value b.toList < value a.toList := fun a b => isGreaterThan_iff (a.2.trans b.2.symm)
  simp only [numeric]
  refine { trichotomous := fun a b notMore notLess => ?_, irrefl := fun a => ?_, trans := ?_ }
  · exact bytes_eq_of_value (Nat.le_antisymm (Nat.le_of_not_lt notMore) (Nat.le_of_not_lt notLess))
  · exact Nat.lt_irrefl (value a.toList)
  · intro a b c more further
    exact Nat.lt_trans further more

theorem isGreaterThanLoop_numeric {length : UInt8} (a b : Bytes length.toNat) :
    isGreaterThanLoop a.toList b.toList length =
      some (if value b.toList < value a.toList then 1 else 0) := by
  have sizedA := List.Vector.toList_length a
  have sizedB := List.Vector.toList_length b
  rw [isGreaterThanLoop_eq sizedA sizedB, toUInt8_isGreaterThan (sizedA.trans sizedB.symm)]

theorem isGreaterThanRecursive_eq_loop {length : UInt8} (positive : 0 < length)
    (a b : Bytes length.toNat) :
    isGreaterThanRecursive a.toList b.toList length = isGreaterThanLoop a.toList b.toList length := by
  have sizedA := List.Vector.toList_length a
  have sizedB := List.Vector.toList_length b
  rw [isGreaterThanRecursive_eq sizedA sizedB positive, isGreaterThanLoop_eq sizedA sizedB]

/-- On the encodings of two numbers the loop is their order. -/
theorem isGreaterThanLoop_nonceOf {i j : Nat} (fitsI : i < 2 ^ 192) (fitsJ : j < 2 ^ 192) :
    isGreaterThanLoop (nonceOf i).toList (nonceOf j).toList 24 = some (if j < i then 1 else 0) := by
  have compared : isGreaterThanLoop (nonceOf i).toList (nonceOf j).toList 24 =
      some (if nonceValue (nonceOf j) < nonceValue (nonceOf i) then 1 else 0) :=
    @isGreaterThanLoop_numeric 24 (nonceOf i) (nonceOf j)
  rw [compared, nonceValue_nonceOf fitsI, nonceValue_nonceOf fitsJ]

/-- **Nonce comparison is numeric order**: on arrays of one length, in the loop and in the recursion, and
on the 24 bytes the server makes of two numbers. -/
theorem comparison_numeric :
    (∀ length : UInt8, 0 < length → ∀ a b : Bytes length.toNat,
      isGreaterThanLoop a.toList b.toList length =
          some (if value b.toList < value a.toList then 1 else 0) ∧
        isGreaterThanRecursive a.toList b.toList length =
          isGreaterThanLoop a.toList b.toList length) ∧
      ∀ i < 2 ^ 192, ∀ j < 2 ^ 192, ∃ first second : Nonce,
        toBytes i = some first ∧ toBytes j = some second ∧
          isGreaterThanLoop first.toList second.toList 24 = some (if j < i then 1 else 0) := by
  constructor
  · intro length positive a b
    exact ⟨isGreaterThanLoop_numeric a b, isGreaterThanRecursive_eq_loop positive a b⟩
  · intro i fitsI j fitsJ
    exact ⟨nonceOf i, nonceOf j, if_pos fitsI, if_pos fitsJ, isGreaterThanLoop_nonceOf fitsI fitsJ⟩

/-- Two arrays that differ after an equal byte, and the encodings of 256 and 255. -/
theorem comparison_numeric_sample :
    (isGreaterThanLoop [7, 1, 0] [7, 0, 255] 3 =
        some (if value [7, 0, 255] < value [7, 1, 0] then 1 else 0) ∧
      isGreaterThanRecursive [7, 1, 0] [7, 0, 255] 3 = isGreaterThanLoop [7, 1, 0] [7, 0, 255] 3) ∧
      ∃ first second : Nonce, toBytes 256 = some first ∧ toBytes 255 = some second ∧
        isGreaterThanLoop first.toList second.toList 24 = some (if 255 < 256 then 1 else 0) :=
  ⟨comparison_numeric.1 3 (by decide) ⟨[7, 1, 0], rfl⟩ ⟨[7, 0, 255], rfl⟩,
    comparison_numeric.2 256 (by norm_num) 255 (by norm_num)⟩

end Esloq
