/-
**Byte arrays, and big-endian byte strings: their value, their order and their successor.**

* `Bytes n` — an array of `n` bytes; `Bytes.slice` copies a part out, `Bytes.splice` copies a
  string in, both only where they fit.
* `valueIn base bytes` — the number a byte string spells, most significant byte first. With every
  byte below `base` it is below `base ^ length` (`valueIn_lt`), it determines the string
  (`valueIn_injective`), and it is ordered by the first byte that differs
  (`valueIn_cons_lt_iff`).
* `value_drop_le_iff` — every rest of one string is at most that of another exactly if every byte is.
* `encode width n` — the fixed-width encoding; `value_encode` reads it back.
* `bump top bytes` — add one at the last byte, carrying past every byte equal to `top`; `none` when
  every byte is `top`. On strings of bytes at most `top` it is the successor in base `top + 1`
  (`valueIn_bump`). `toList_of_carries` reads a recursion over the indices of an array as `bump`.
* `carryStop top bytes` — the byte at which the carry stops. Raising a string raises its unsigned
  value unless that byte is 255 (`value_lt_bump_iff`), and by exactly one unless the last byte
  carries (`value_bump_succ_iff`).
-/

import Mathlib.Data.List.Induction
import Mathlib.Data.Nat.Digits.Lemmas
import Mathlib.Data.Vector.Basic
import Mathlib.Tactic.Ring

/-- A byte array of fixed length. -/
abbrev Bytes (length : Nat) := List.Vector UInt8 length

namespace Bytes

variable {size : Nat}

/-- The array of zeros. -/
def zeros (size : Nat) : Bytes size := List.Vector.replicate size 0

/-- The `length` bytes from `offset` on. -/
def slice (bytes : Bytes size) (offset length : Nat) (fits : offset + length ≤ size) :
    Bytes length :=
  ⟨(bytes.toList.drop offset).take length, by
    rw [List.length_take, List.length_drop, List.Vector.toList_length]
    omega⟩

/-- Overwrite the bytes from `offset` on with `data`. -/
def splice (bytes : Bytes size) (offset : Nat) (data : List UInt8)
    (fits : offset + data.length ≤ size) : Bytes size :=
  ⟨bytes.toList.take offset ++ data ++ bytes.toList.drop (offset + data.length), by
    rw [List.length_append, List.length_append, List.length_take, List.length_drop,
      List.Vector.toList_length]
    omega⟩

@[simp] theorem toList_slice (bytes : Bytes size) (offset length : Nat)
    (fits : offset + length ≤ size) :
    (bytes.slice offset length fits).toList = (bytes.toList.drop offset).take length := rfl

@[simp] theorem toList_splice (bytes : Bytes size) (offset : Nat) (data : List UInt8)
    (fits : offset + data.length ≤ size) :
    (bytes.splice offset data fits).toList =
      bytes.toList.take offset ++ data ++ bytes.toList.drop (offset + data.length) := rfl

@[simp] theorem toList_zeros (size : Nat) : (zeros size).toList = List.replicate size 0 := rfl

theorem ext {first second : Bytes size} (same : first.toList = second.toList) : first = second :=
  Subtype.ext same

/-- The front of an array up to an index is the front before it and the byte there. -/
theorem take_succ_eq {index : Nat} (bytes : Bytes size) (inside : index < size) :
    bytes.toList.take (index + 1) = bytes.toList.take index ++ [bytes.get ⟨index, inside⟩] := by
  rw [List.take_add_one]
  simp [List.Vector.get_eq_get_toList, inside]

/-- Setting a byte leaves the bytes before and after it. -/
theorem toList_set_split {index : Nat} (bytes : Bytes size) (inside : index < size) (byte : UInt8) :
    (bytes.set ⟨index, inside⟩ byte).toList =
      bytes.toList.take index ++ [byte] ++ bytes.toList.drop (index + 1) := by
  rw [List.Vector.toList_set, List.set_eq_take_append_cons_drop,
    if_pos (by rw [List.Vector.toList_length]; exact inside)]
  simp

/-- What precedes the place a string is copied to, and the string, are read back. -/
theorem take_splice (bytes : Bytes size) (offset : Nat) (data : List UInt8)
    (fits : offset + data.length ≤ size) :
    (bytes.splice offset data fits).toList.take (offset + data.length) =
      bytes.toList.take offset ++ data := by
  have lengthHead : (bytes.toList.take offset ++ data).length = offset + data.length := by
    rw [List.length_append, List.length_take, List.Vector.toList_length]
    omega
  rw [toList_splice, List.take_left' lengthHead]

/-- The front of a concatenation. -/
theorem slice_append_left {front back : Nat} (first : Bytes front) (second : Bytes back)
    (fits : 0 + front ≤ front + back) : slice (first ++ second) 0 front fits = first := by
  apply ext
  rw [toList_slice, List.Vector.toList_append, List.drop_zero,
    List.take_left' (List.Vector.toList_length first)]

/-- The rest of a concatenation. -/
theorem slice_append_right {front back : Nat} (first : Bytes front) (second : Bytes back)
    (fits : front + back ≤ front + back) : slice (first ++ second) front back fits = second := by
  apply ext
  rw [toList_slice, List.Vector.toList_append, List.drop_left' (List.Vector.toList_length first),
    List.take_of_length_le (List.Vector.toList_length second).le]

/-- An array is its front and its rest. -/
theorem slice_append_slice {front back : Nat} (bytes : Bytes (front + back)) :
    bytes.slice 0 front (by omega) ++ bytes.slice front back (Nat.le_refl _) = bytes := by
  have whole : (bytes.toList.drop front).length ≤ back := by
    rw [List.length_drop, List.Vector.toList_length]
    omega
  apply ext
  rw [List.Vector.toList_append, toList_slice, toList_slice, List.drop_zero,
    List.take_of_length_le whole, List.take_append_drop]

end Bytes

namespace BigEndian

/-! ### The value of a byte string -/

/-- The number a byte string spells in base `base`, most significant byte first. -/
def valueIn (base : Nat) (bytes : List UInt8) : Nat :=
  Nat.ofDigits base (bytes.reverse.map UInt8.toNat)

/-- The unsigned big-endian value. -/
abbrev value (bytes : List UInt8) : Nat := valueIn 256 bytes

@[simp] theorem valueIn_nil (base : Nat) : valueIn base [] = 0 := rfl

@[simp] theorem valueIn_cons (base : Nat) (byte : UInt8) (rest : List UInt8) :
    valueIn base (byte :: rest) = byte.toNat * base ^ rest.length + valueIn base rest := by
  unfold valueIn
  rw [List.reverse_cons, List.map_append, Nat.ofDigits_append]
  simp only [List.map_cons, List.map_nil, Nat.ofDigits_singleton, List.length_map,
    List.length_reverse]
  ring

@[simp] theorem valueIn_concat (base : Nat) (bytes : List UInt8) (last : UInt8) :
    valueIn base (bytes ++ [last]) = valueIn base bytes * base + last.toNat := by
  unfold valueIn
  rw [List.reverse_append]
  simp only [List.reverse_cons, List.reverse_nil, List.nil_append, List.singleton_append,
    List.map_cons, Nat.ofDigits_cons]
  ring

@[simp] theorem valueIn_replicate_zero (base count : Nat) :
    valueIn base (List.replicate count 0) = 0 := by
  unfold valueIn
  rw [List.reverse_replicate, List.map_replicate]
  exact Nat.ofDigits_replicate_zero

/-- Bytes below the base spell a number below the next power. -/
theorem valueIn_lt {base : Nat} : ∀ {bytes : List UInt8}, (∀ byte ∈ bytes, byte.toNat < base) →
    valueIn base bytes < base ^ bytes.length
  | [], _ => by simp
  | byte :: rest, digits => by
      have tail := valueIn_lt fun other member => digits other (List.mem_cons_of_mem byte member)
      have head := digits byte List.mem_cons_self
      rw [valueIn_cons, List.length_cons, pow_succ']
      calc byte.toNat * base ^ rest.length + valueIn base rest
          < byte.toNat * base ^ rest.length + base ^ rest.length := by omega
        _ = (byte.toNat + 1) * base ^ rest.length := by ring
        _ ≤ base * base ^ rest.length := Nat.mul_le_mul_right _ head

theorem value_lt (bytes : List UInt8) : value bytes < 256 ^ bytes.length :=
  valueIn_lt fun byte _ => byte.toNat_lt

/-- The first byte decides, and the rest only when it agrees. -/
theorem valueIn_cons_lt_iff {base : Nat} {x y : UInt8} {xs ys : List UInt8}
    (sized : xs.length = ys.length) (digitsX : ∀ byte ∈ xs, byte.toNat < base)
    (digitsY : ∀ byte ∈ ys, byte.toNat < base) :
    valueIn base (y :: ys) < valueIn base (x :: xs) ↔
      y.toNat < x.toNat ∨ (y = x ∧ valueIn base ys < valueIn base xs) := by
  have boundX := valueIn_lt digitsX
  have boundY := valueIn_lt digitsY
  rw [valueIn_cons, valueIn_cons, ← sized]
  rw [← sized] at boundY
  rcases lt_trichotomy y.toNat x.toNat with less | same | more
  · have gap : (y.toNat + 1) * base ^ xs.length ≤ x.toNat * base ^ xs.length :=
      Nat.mul_le_mul_right _ less
    rw [Nat.succ_mul] at gap
    exact iff_of_true (by omega) (Or.inl less)
  · have equal : y = x := UInt8.toNat_inj.mp same
    subst equal
    simp
  · have gap : (x.toNat + 1) * base ^ xs.length ≤ y.toNat * base ^ xs.length :=
      Nat.mul_le_mul_right _ more
    rw [Nat.succ_mul] at gap
    refine iff_of_false (by omega) ?_
    rintro (less | ⟨equal, _⟩)
    · omega
    · subst equal
      omega

/-- Strings of one length with the same value are equal. -/
theorem valueIn_injective {base : Nat} : ∀ {xs ys : List UInt8}, xs.length = ys.length →
    (∀ byte ∈ xs, byte.toNat < base) → (∀ byte ∈ ys, byte.toNat < base) →
    valueIn base xs = valueIn base ys → xs = ys
  | [], ys, sized, _, _, _ => (List.length_eq_zero_iff.mp sized.symm).symm
  | x :: xs, [], sized, _, _, _ => by simp at sized
  | x :: xs, y :: ys, sized, digitsX, digitsY, same => by
      have sizedTail : xs.length = ys.length := by simpa using sized
      have tailX := fun byte member => digitsX byte (List.mem_cons_of_mem x member)
      have tailY := fun byte member => digitsY byte (List.mem_cons_of_mem y member)
      have notLess := (valueIn_cons_lt_iff (x := x) (y := y) sizedTail tailX tailY).not.mp
        (by omega)
      have notMore := (valueIn_cons_lt_iff (x := y) (y := x) sizedTail.symm tailY tailX).not.mp
        (by omega)
      have head : x = y := UInt8.toNat_inj.mp (by omega)
      subst head
      rw [valueIn_cons, valueIn_cons, sizedTail] at same
      rw [valueIn_injective sizedTail tailX tailY (by omega)]

theorem value_injective {xs ys : List UInt8} (sized : xs.length = ys.length)
    (same : value xs = value ys) : xs = ys :=
  valueIn_injective sized (fun byte _ => byte.toNat_lt) (fun byte _ => byte.toNat_lt) same

theorem bytes_eq_of_value {length : Nat} {first second : Bytes length}
    (same : value first.toList = value second.toList) : first = second :=
  Subtype.ext (value_injective (first.2.trans second.2.symm) same)

/-! ### Fronts and rests -/

theorem value_cons (byte : UInt8) (rest : List UInt8) :
    value (byte :: rest) = byte.toNat * 256 ^ rest.length + value rest := valueIn_cons 256 byte rest

theorem value_append (first second : List UInt8) :
    value (first ++ second) = value first * 256 ^ second.length + value second := by
  induction first with
  | nil => simp [value]
  | cons byte rest ih =>
      rw [List.cons_append, value_cons, value_cons, ih, List.length_append, pow_add]
      ring

/-- A common front does not matter. -/
theorem value_append_le_iff_right {front first second : List UInt8}
    (sized : first.length = second.length) :
    value (front ++ first) ≤ value (front ++ second) ↔ value first ≤ value second := by
  rw [value_append, value_append, sized]
  omega

/-- Nor does a common rest. -/
theorem value_append_le_iff_left {first second rest : List UInt8} :
    value (first ++ rest) ≤ value (second ++ rest) ↔ value first ≤ value second := by
  have positive : 0 < 256 ^ rest.length := by positivity
  rw [value_append, value_append, Nat.add_le_add_iff_right, Nat.mul_le_mul_right_iff positive]

/-- The front of the smaller string is not larger. -/
theorem value_take_le {first second : List UInt8} (sized : first.length = second.length)
    (less : value first ≤ value second) (index : Nat) :
    value (first.take index) ≤ value (second.take index) := by
  by_contra larger
  have rest := value_lt (second.drop index)
  have lengths : (second.drop index).length = (first.drop index).length := by
    rw [List.length_drop, List.length_drop, sized]
  have gap : (value (second.take index) + 1) * 256 ^ (first.drop index).length ≤
      value (first.take index) * 256 ^ (first.drop index).length :=
    Nat.mul_le_mul_right _ (Nat.lt_of_not_le larger)
  rw [← List.take_append_drop index first, ← List.take_append_drop index second, value_append,
    value_append, lengths] at less
  rw [lengths] at rest
  rw [Nat.succ_mul] at gap
  omega

/-- Every rest of one string is at most that of another exactly if every byte is. -/
theorem value_drop_le_iff : ∀ {first second : List UInt8}, first.length = second.length →
    ((∀ index, value (first.drop index) ≤ value (second.drop index)) ↔
      List.Forall₂ (· ≤ ·) first second)
  | [], [], _ => by simp
  | [], y :: ys, sized => by simp at sized
  | x :: xs, [], sized => by simp at sized
  | x :: xs, y :: ys, sized => by
      have sizedTail : xs.length = ys.length := by simpa using sized
      have tail := value_drop_le_iff sizedTail
      rw [List.forall₂_cons, ← tail]
      have first_lt := value_lt xs
      have second_lt := value_lt ys
      rw [sizedTail] at first_lt
      constructor
      · intro every
        refine ⟨?_, fun index => every (index + 1)⟩
        have whole : value (x :: xs) ≤ value (y :: ys) := every 0
        rw [value_cons, value_cons, sizedTail] at whole
        by_contra larger
        have above : y.toNat + 1 ≤ x.toNat :=
          Nat.lt_of_not_le fun less => larger (UInt8.le_iff_toNat_le.mpr less)
        have gap := Nat.mul_le_mul_right (256 ^ ys.length) above
        rw [Nat.succ_mul] at gap
        omega
      · rintro ⟨head, rests⟩ index
        cases index with
        | zero =>
            have rest : value xs ≤ value ys := rests 0
            have front := Nat.mul_le_mul_right (256 ^ ys.length) (UInt8.le_iff_toNat_le.mp head)
            show value (x :: xs) ≤ value (y :: ys)
            rw [value_cons, value_cons, sizedTail]
            omega
        | succ index => exact rests index

/-! ### Fixed-width encodings -/

/-- The `width`-byte big-endian encoding of a number. -/
def encode : Nat → Nat → List UInt8
  | 0, _ => []
  | width + 1, number => encode width (number / 256) ++ [UInt8.ofNat number]

@[simp] theorem length_encode : ∀ width number : Nat, (encode width number).length = width
  | 0, _ => rfl
  | width + 1, number => by rw [encode, List.length_append, length_encode width]; rfl

theorem value_encode : ∀ {width number : Nat}, number < 256 ^ width →
    value (encode width number) = number
  | 0, number, bound => by
      have : number = 0 := by simpa using bound
      subst this
      rfl
  | width + 1, number, bound => by
      have high : number / 256 < 256 ^ width := by
        rw [pow_succ] at bound
        omega
      have spelled : valueIn 256 (encode width (number / 256)) = number / 256 := value_encode high
      rw [encode, value, valueIn_concat, spelled, UInt8.toNat_ofNat']
      omega

/-! ### Adding one -/

/-- Add one at the last byte; a byte equal to `top` turns to zero and carries. `none` when the
carry leaves the string. -/
def bump (top : UInt8) : List UInt8 → Option (List UInt8)
  | [] => none
  | byte :: rest =>
      match bump top rest with
      | some raised => some (byte :: raised)
      | none => if byte = top then none else some ((byte + 1) :: List.replicate rest.length 0)

theorem bump_length {top : UInt8} : ∀ {bytes raised : List UInt8}, bump top bytes = some raised →
    raised.length = bytes.length
  | [], raised, found => by cases found
  | byte :: rest, raised, found => by
      unfold bump at found
      split at found
      · rename_i tail bumped
        cases found
        simp [bump_length bumped]
      · split at found
        · cases found
        · cases found
          simp

/-- The carry leaves the string exactly when every byte is `top`. -/
theorem bump_eq_none {top : UInt8} : ∀ {bytes : List UInt8},
    bump top bytes = none ↔ ∀ byte ∈ bytes, byte = top
  | [] => by simp [bump]
  | byte :: rest => by
      have tail : bump top rest = none ↔ ∀ byte ∈ rest, byte = top := bump_eq_none
      unfold bump
      split
      · rename_i raised bumped
        rw [bumped] at tail
        simp only [reduceCtorEq, false_iff] at tail
        simp only [reduceCtorEq, List.forall_mem_cons, false_iff, not_and]
        exact fun _ => tail
      · rename_i bumped
        rw [bumped] at tail
        simp only [true_iff] at tail
        by_cases head : byte = top
        · simpa [head] using tail
        · simp [head]

/-- Peeling the last byte off: it is raised, or it carries into the rest. -/
theorem bump_concat (top : UInt8) : ∀ (bytes : List UInt8) (last : UInt8),
    bump top (bytes ++ [last]) =
      if last = top then (bump top bytes).map (· ++ [0]) else some (bytes ++ [last + 1])
  | [], last => by
      by_cases carries : last = top <;> simp [bump, carries]
  | byte :: rest, last => by
      rw [List.cons_append, bump, bump_concat top rest last]
      by_cases carries : last = top
      · rw [if_pos carries, if_pos carries]
        cases raised : bump top rest with
        | some tail => simp [bump, raised]
        | none =>
            by_cases head : byte = top
            · simp [bump, raised, head]
            · simp [bump, raised, head, List.replicate_add]
      · simp [carries]

theorem toNat_add_one {byte : UInt8} (room : byte.toNat < 255) :
    (byte + 1).toNat = byte.toNat + 1 := by
  rw [UInt8.toNat_add, UInt8.toNat_one]
  omega

theorem toNat_lt_of_ne {byte top : UInt8} (bounded : byte.toNat ≤ top.toNat) (different : byte ≠ top) :
    byte.toNat < top.toNat :=
  lt_of_le_of_ne bounded fun same => different (UInt8.toNat_inj.mp same)

/-- A byte below `top` has room for one more. -/
theorem toNat_raised {byte top : UInt8} (bounded : byte.toNat ≤ top.toNat) (different : byte ≠ top) :
    (byte + 1).toNat = byte.toNat + 1 := by
  have below := toNat_lt_of_ne bounded different
  have := top.toNat_lt
  exact toNat_add_one (by omega)

/-- Bytes at most `top` stay at most `top`. -/
theorem bump_le {top : UInt8} : ∀ {bytes raised : List UInt8},
    (∀ byte ∈ bytes, byte.toNat ≤ top.toNat) → bump top bytes = some raised →
    ∀ byte ∈ raised, byte.toNat ≤ top.toNat
  | [], raised, _, found => by cases found
  | byte :: rest, raised, digits, found => by
      have head := digits byte List.mem_cons_self
      have tail := fun other member => digits other (List.mem_cons_of_mem byte member)
      unfold bump at found
      split at found
      · rename_i lower bumped
        cases found
        intro other member
        rcases List.mem_cons.mp member with rfl | member
        · exact head
        · exact bump_le tail bumped other member
      · split at found
        · cases found
        · rename_i different
          cases found
          intro other member
          rcases List.mem_cons.mp member with rfl | member
          · rw [toNat_raised head different]
            exact toNat_lt_of_ne head different
          · rw [List.eq_of_mem_replicate member]
            exact Nat.zero_le _

/-- So does the first byte, whatever the others are. -/
theorem headD_bump_le {top : UInt8} {bytes raised : List UInt8} (found : bump top bytes = some raised)
    (head : (bytes.headD 0).toNat ≤ top.toNat) : (raised.headD 0).toNat ≤ top.toNat := by
  cases bytes with
  | nil => cases found
  | cons byte rest =>
      unfold bump at found
      split at found
      · cases found
        exact head
      · split at found
        · cases found
        · rename_i different
          cases found
          have bounded : byte.toNat ≤ top.toNat := head
          show (byte + 1).toNat ≤ top.toNat
          rw [toNat_raised bounded different]
          exact toNat_lt_of_ne bounded different

/-- A string of `top` bytes is one short of the next power. -/
theorem valueIn_all_top {top : UInt8} : ∀ {bytes : List UInt8}, (∀ byte ∈ bytes, byte = top) →
    valueIn (top.toNat + 1) bytes + 1 = (top.toNat + 1) ^ bytes.length
  | [], _ => by simp
  | byte :: rest, every => by
      have head := every byte List.mem_cons_self
      have tail := valueIn_all_top fun other member => every other (List.mem_cons_of_mem byte member)
      subst head
      rw [valueIn_cons, List.length_cons, pow_succ, Nat.mul_succ, Nat.mul_comm byte.toNat]
      omega

/-- Raising a string of bytes at most `top` is the successor in base `top + 1`. -/
theorem valueIn_bump {top : UInt8} : ∀ {bytes raised : List UInt8},
    (∀ byte ∈ bytes, byte.toNat ≤ top.toNat) → bump top bytes = some raised →
    valueIn (top.toNat + 1) raised = valueIn (top.toNat + 1) bytes + 1
  | [], raised, _, found => by cases found
  | byte :: rest, raised, digits, found => by
      have head := digits byte List.mem_cons_self
      have tail := fun other member => digits other (List.mem_cons_of_mem byte member)
      unfold bump at found
      split at found
      · rename_i lower bumped
        cases found
        rw [valueIn_cons, valueIn_cons, valueIn_bump tail bumped, bump_length bumped]
        omega
      · rename_i carried
        split at found
        · cases found
        · rename_i different
          cases found
          have full := valueIn_all_top (bump_eq_none.mp carried)
          rw [valueIn_cons, valueIn_cons, valueIn_replicate_zero, List.length_replicate,
            toNat_raised head different, Nat.succ_mul]
          omega

/-- With carries past 255 raising is the successor of the unsigned value. -/
theorem value_bump {bytes raised : List UInt8} (found : bump 255 bytes = some raised) :
    value raised = value bytes + 1 :=
  @valueIn_bump 255 _ _ (fun byte _ => Nat.le_of_lt_succ byte.toNat_lt) found

/-- A recursion from an index down that sets a byte equal to `top` to zero and goes on, and raises any
other, is `bump` on the front up to the index; where every byte of it is `top` the front is zero. -/
theorem toList_of_carries {size : Nat} {top : UInt8}
    (raise : Bytes size → (index : Nat) → index < size → Bytes size)
    (first : ∀ array inside, raise array 0 inside = array.set ⟨0, inside⟩
      (if array.get ⟨0, inside⟩ = top then 0 else array.get ⟨0, inside⟩ + 1))
    (later : ∀ array index inside, raise array (index + 1) inside =
      if array.get ⟨index + 1, inside⟩ = top then
        raise (array.set ⟨index + 1, inside⟩ 0) index (Nat.lt_of_succ_lt inside)
      else array.set ⟨index + 1, inside⟩ (array.get ⟨index + 1, inside⟩ + 1))
    (array : Bytes size) (index : Nat) (inside : index < size) :
    (raise array index inside).toList =
      (bump top (array.toList.take (index + 1))).getD (List.replicate (index + 1) 0) ++
        array.toList.drop (index + 1) := by
  induction index generalizing array with
  | zero =>
      rw [first, Bytes.take_succ_eq array inside, bump_concat, Bytes.toList_set_split]
      by_cases carries : array.get ⟨0, inside⟩ = top
      · rw [if_pos carries, if_pos carries]
        rfl
      · rw [if_neg carries, if_neg carries]
        rfl
  | succ index ih =>
      rw [later, Bytes.take_succ_eq array inside, bump_concat]
      by_cases carries : array.get ⟨index + 1, inside⟩ = top
      · have sized : (array.toList.take (index + 1)).length = index + 1 := by
          rw [List.length_take, List.Vector.toList_length]
          omega
        rw [if_pos carries, if_pos carries, ih, Bytes.toList_set_split, List.append_assoc,
          List.take_left' sized, List.drop_left' sized]
        cases bump top (array.toList.take (index + 1)) with
        | none => simp [@List.replicate_succ' (index + 1)]
        | some raised => simp
      · rw [if_neg carries, if_neg carries, Bytes.toList_set_split]
        rfl

/-! ### Where the carry stops -/

theorem value_concat (bytes : List UInt8) (last : UInt8) :
    value (bytes ++ [last]) = value bytes * 256 + last.toNat := valueIn_concat 256 bytes last

/-- The byte `bump` adds to: the last one that differs from `top`. -/
def carryStop (top : UInt8) (bytes : List UInt8) : Option UInt8 :=
  bytes.reverse.find? (· ≠ top)

theorem carryStop_concat (top : UInt8) (bytes : List UInt8) (last : UInt8) :
    carryStop top (bytes ++ [last]) = if last = top then carryStop top bytes else some last := by
  by_cases carries : last = top <;> simp [carryStop, carries]

theorem carryStop_eq_none {top : UInt8} {bytes : List UInt8} :
    carryStop top bytes = none ↔ bump top bytes = none := by
  simp [carryStop, bump_eq_none]

/-- A raised string has a larger value unless the byte at which the carry stops overflows. -/
theorem value_lt_bump_iff {top : UInt8} {bytes raised : List UInt8}
    (found : bump top bytes = some raised) :
    value bytes < value raised ↔ carryStop top bytes ≠ some 255 := by
  induction bytes using List.reverseRecOn generalizing raised with
  | nil => cases found
  | append_singleton bytes last ih =>
      rw [bump_concat] at found
      rw [carryStop_concat]
      by_cases carries : last = top
      · rw [if_pos carries] at found ⊢
        obtain ⟨higher, bumped, rfl⟩ := Option.map_eq_some_iff.mp found
        rw [← ih bumped, value_concat, value_concat]
        have := last.toNat_lt
        rw [UInt8.toNat_zero]
        omega
      · rw [if_neg carries] at found ⊢
        cases found
        rw [value_concat, value_concat]
        by_cases full : last = 255
        · subst full
          simp
        · have room := @toNat_raised last 255 (Nat.le_of_lt_succ last.toNat_lt) full
          simp only [room, ne_eq, Option.some.injEq, full, not_false_eq_true, iff_true]
          omega

/-- It is larger by one exactly when the last byte takes the one. -/
theorem value_bump_succ_iff {top last : UInt8} {bytes raised : List UInt8} (carrying : top ≠ 255)
    (found : bump top (bytes ++ [last]) = some raised) :
    value raised = value (bytes ++ [last]) + 1 ↔ last ≠ top ∧ last ≠ 255 := by
  have top_lt := top.toNat_lt
  have last_lt := last.toNat_lt
  have notTop : top.toNat ≠ 255 := fun same => carrying (UInt8.toNat_inj.mp same)
  rw [bump_concat] at found
  by_cases carries : last = top
  · rw [if_pos carries] at found
    obtain ⟨higher, bumped, rfl⟩ := Option.map_eq_some_iff.mp found
    rw [value_concat, value_concat, UInt8.toNat_zero, carries]
    simp only [ne_eq, not_true_eq_false, false_and, iff_false]
    omega
  · rw [if_neg carries] at found
    cases found
    rw [value_concat, value_concat]
    by_cases full : last = 255
    · subst full
      simp [Nat.add_assoc]
    · have room := @toNat_raised last 255 (Nat.le_of_lt_succ last.toNat_lt) full
      simp only [room, ne_eq, carries, not_false_eq_true, full, and_self, iff_true]
      omega

end BigEndian
