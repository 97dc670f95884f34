/-
**Little-endian byte strings: their value, and arithmetic on them byte by byte.**

* `value bytes` — the number a byte string spells, least significant byte first (`value_append`,
  `value_lt`); two strings of one length that spell the same number are equal (`value_injective`).
* `value_set` — what overwriting one byte does to the value, and `value_set_add` — what adding to
  one byte does to it, where the carry out of the byte is still owed to the next.
* `testBit_value` — the bits of the value are the bits of the bytes, so that an operation on every
  bit of two strings is that operation on their values (`value_zipWith`).
* `encode width n` — the string of `width` bytes that spells `n` modulo `256 ^ width`
  (`value_encode`).
-/

import Mathlib.Data.List.GetD
import Mathlib.Data.Nat.Digits.Lemmas
import Mathlib.Tactic.Ring

namespace LittleEndian

/-! ### The value of a byte string -/

/-- The number a byte string spells, least significant byte first. -/
def value (bytes : List UInt8) : Nat := Nat.ofDigits 256 (bytes.map UInt8.toNat)

@[simp] theorem value_nil : value [] = 0 := rfl

@[simp] theorem value_cons (byte : UInt8) (rest : List UInt8) :
    value (byte :: rest) = byte.toNat + 256 * value rest := by
  unfold value
  rw [List.map_cons, Nat.ofDigits_cons]

theorem value_append (low high : List UInt8) :
    value (low ++ high) = value low + 256 ^ low.length * value high := by
  unfold value
  rw [List.map_append, Nat.ofDigits_append, List.length_map]

theorem value_lt (bytes : List UInt8) : value bytes < 256 ^ bytes.length := by
  have bounded := @Nat.ofDigits_lt_base_pow_length 256 (bytes.map UInt8.toNat) (by decide) (by
    intro digit member
    obtain ⟨byte, _, rfl⟩ := List.mem_map.mp member
    exact byte.toNat_lt)
  rwa [List.length_map] at bounded

@[simp] theorem value_replicate_zero (count : Nat) : value (List.replicate count 0) = 0 := by
  unfold value
  rw [List.map_replicate]
  exact Nat.ofDigits_replicate_zero

/-- The value determines a string of known length. -/
theorem value_injective : ∀ {first second : List UInt8}, first.length = second.length →
    value first = value second → first = second
  | [], [], _, _ => rfl
  | [], _ :: _, sized, _ => by cases sized
  | _ :: _, [], sized, _ => by cases sized
  | x :: xs, y :: ys, sized, same => by
      rw [value_cons, value_cons] at same
      have boundX := x.toNat_lt
      have boundY := y.toNat_lt
      have head : x = y := UInt8.toNat_inj.mp (by omega)
      have tail : value xs = value ys := by omega
      rw [head, value_injective (Nat.succ.inj sized) tail]

/-- A string is its front and its rest. -/
theorem value_split (bytes : List UInt8) {index : Nat} (inside : index ≤ bytes.length) :
    value bytes = value (bytes.take index) + 256 ^ index * value (bytes.drop index) := by
  have parts := value_append (bytes.take index) (bytes.drop index)
  rwa [List.take_append_drop, List.length_take_of_le inside] at parts

/-- The byte at an index, between what is below and what is above it. -/
theorem value_split_at (bytes : List UInt8) {index : Nat} (inside : index < bytes.length) :
    value bytes = value (bytes.take index) + 256 ^ index * bytes[index].toNat +
      256 ^ (index + 1) * value (bytes.drop (index + 1)) := by
  rw [value_split bytes inside.le, List.drop_eq_getElem_cons inside, value_cons, pow_succ]
  ring

/-- The bytes are the digits of the value. -/
theorem getElem_eq_digit (bytes : List UInt8) {index : Nat} (inside : index < bytes.length) :
    bytes[index].toNat = value bytes / 256 ^ index % 256 := by
  have low := value_lt (bytes.take index)
  rw [List.length_take_of_le inside.le] at low
  have positive : 0 < 256 ^ index := Nat.pow_pos (by decide)
  rw [value_split bytes inside.le, Nat.add_mul_div_left _ _ positive, Nat.div_eq_of_lt low,
    Nat.zero_add, List.drop_eq_getElem_cons inside, value_cons, Nat.add_mul_mod_self_left,
    Nat.mod_eq_of_lt (UInt8.toNat_lt _)]

/-! ### Writing one byte -/

/-- Overwriting a byte exchanges its share of the value. -/
theorem value_set (bytes : List UInt8) {index : Nat} (inside : index < bytes.length)
    (byte : UInt8) :
    value (bytes.set index byte) + bytes[index].toNat * 256 ^ index =
      value bytes + byte.toNat * 256 ^ index := by
  have kept : index < (bytes.set index byte).length := by rwa [List.length_set]
  rw [value_split_at bytes inside, value_split_at (bytes.set index byte) kept,
    List.getElem_set_self, List.take_set, List.drop_set_of_lt (Nat.lt_succ_self index),
    List.set_eq_of_length_le (by rw [List.length_take_of_le inside.le])]
  ring

/-- A byte that is replaced by a sum's remainder owes the quotient to the byte after it. -/
theorem value_set_add (bytes : List UInt8) {index : Nat} (inside : index < bytes.length)
    {byte : UInt8} {added carry : Nat}
    (sum : bytes[index].toNat + added = byte.toNat + 256 * carry) :
    value (bytes.set index byte) + carry * 256 ^ (index + 1) =
      value bytes + added * 256 ^ index := by
  have written := value_set bytes inside byte
  have weighed := congrArg (· * 256 ^ index) sum
  simp only [Nat.add_mul] at weighed
  have next : carry * 256 ^ (index + 1) = 256 * carry * 256 ^ index := by
    rw [pow_succ]
    ring
  omega

/-! ### Bits -/

/-- The bits of the value are the bits of the bytes. -/
theorem testBit_value : ∀ (bytes : List UInt8) (position : Nat),
    (value bytes).testBit position = (bytes.getD (position / 8) 0).toNat.testBit (position % 8)
  | [], position => by simp
  | byte :: rest, position => by
      have small : byte.toNat < 2 ^ 8 := byte.toNat_lt
      rw [value_cons, Nat.add_comm, show 256 = 2 ^ 8 from rfl, Nat.testBit_two_pow_mul_add _ small]
      by_cases low : position < 8
      · rw [if_pos low, Nat.div_eq_of_lt low, Nat.mod_eq_of_lt low]
        rfl
      · have above : position / 8 = (position - 8) / 8 + 1 := by omega
        have within : position % 8 = (position - 8) % 8 := by omega
        rw [if_neg low, testBit_value rest, above, within]
        rfl

/-- An operation on the bits of all bytes is the operation on the bits of the value. -/
theorem value_zipWith {byteOp : UInt8 → UInt8 → UInt8} {op : Nat → Nat → Nat}
    (bit : Bool → Bool → Bool) (off : bit false false = false)
    (onBytes : ∀ x y i, (byteOp x y).toNat.testBit i = bit (x.toNat.testBit i) (y.toNat.testBit i))
    (onValues : ∀ m n i, (op m n).testBit i = bit (m.testBit i) (n.testBit i))
    {first second : List UInt8} (sized : first.length = second.length) :
    value (List.zipWith byteOp first second) = op (value first) (value second) := by
  apply Nat.eq_of_testBit_eq
  intro position
  rw [onValues, testBit_value, testBit_value, testBit_value, ← onBytes]
  by_cases inside : position / 8 < first.length
  · have here : position / 8 < second.length := sized ▸ inside
    rw [List.getD_eq_getElem?_getD, List.getD_eq_getElem?_getD, List.getD_eq_getElem?_getD,
      List.getElem?_zipWith_eq_some.mpr
        ⟨_, _, List.getElem?_eq_getElem inside, List.getElem?_eq_getElem here, rfl⟩,
      List.getElem?_eq_getElem inside, List.getElem?_eq_getElem here]
    rfl
  · have outside : second.length ≤ position / 8 := by omega
    have beyond : (List.zipWith byteOp first second).length ≤ position / 8 := by
      rw [List.length_zipWith]
      omega
    rw [List.getD_eq_default _ _ beyond, List.getD_eq_default _ _ outside,
      List.getD_eq_default _ _ (Nat.not_lt.mp inside), onBytes]
    simp [off]

theorem value_xor {first second : List UInt8} (sized : first.length = second.length) :
    value (List.zipWith (· ^^^ ·) first second) = value first ^^^ value second :=
  @value_zipWith (· ^^^ ·) (· ^^^ ·) xor rfl (fun _ _ _ => by simp) (fun _ _ _ => by simp) _ _ sized

theorem value_and {first second : List UInt8} (sized : first.length = second.length) :
    value (List.zipWith (· &&& ·) first second) = value first &&& value second :=
  @value_zipWith (· &&& ·) (· &&& ·) and rfl (fun _ _ _ => by simp) (fun _ _ _ => by simp) _ _ sized

/-! ### The fixed-width encoding -/

/-- The first `width` digits of a number in base 256. -/
def encode : Nat → Nat → List UInt8
  | 0, _ => []
  | width + 1, n => UInt8.ofNat n :: encode width (n / 256)

@[simp] theorem length_encode : ∀ width n, (encode width n).length = width
  | 0, _ => rfl
  | width + 1, n => congrArg Nat.succ (length_encode width (n / 256))

theorem value_encode : ∀ width n, value (encode width n) = n % 256 ^ width
  | 0, n => by rw [pow_zero, Nat.mod_one]; rfl
  | width + 1, n => by
      have parts : n % (256 * 256 ^ width) = n % 256 + 256 * (n / 256 % 256 ^ width) := Nat.mod_mul
      rw [encode, value_cons, value_encode width, UInt8.toNat_ofNat', pow_succ' 256 width, parts]

end LittleEndian
