/-
**The loop of `increment_array` and its recursive reference (`main.c`).**

* `incrementPass` — one pass of the loop with its `uint8_t` index, whose condition `i >= 0` always
  holds. `incrementLoop` makes a given number of passes.
* `incrementLoop_eq` — the loop is done one pass after the index has come down to zero, at the
  latest: it has returned what `incrementArray` gives, or accessed the array at index 255.
* `incrementRecursive` — the implementation kept under `#if 0`: the big-endian value plus one,
  modulo `256 ^ length` (`value_incrementRecursive`).
* `increment_loop_iff` — the loop returns the array of the recursion, with no access outside the
  array, unless every byte is `0xFF`.
-/

import Esloq.Firmware.Nonce

namespace Esloq

open BigEndian

/-! ### The loop -/

/-- How the loop stands after some passes. -/
inductive Pass (length : Nat)
  | again (array : Bytes length) (i : UInt8)
  | returned (array : Bytes length)
  /-- An access to `array[i]` with `i` not below the length. -/
  | outside
  deriving DecidableEq

/-- The body of the loop and the `i--` after it. -/
def incrementPass {length : Nat} (array : Bytes length) (i : UInt8) : Pass length :=
  if inside : i.toNat < length then
    if array.get ⟨i.toNat, inside⟩ = 255 then .again (array.set ⟨i.toNat, inside⟩ 0) (i - 1)
    else .returned (array.set ⟨i.toNat, inside⟩ (array.get ⟨i.toNat, inside⟩ + 1))
  else .outside

/-- At most so many passes from the index `i`. -/
def incrementPasses {length : Nat} : Nat → Bytes length → UInt8 → Pass length
  | 0, array, i => .again array i
  | passes + 1, array, i =>
      match incrementPass array i with
      | .again array i => incrementPasses passes array i
      | .returned array => .returned array
      | .outside => .outside

/-- `increment_array` for at most so many passes. -/
def incrementLoop {length : Nat} (passes : Nat) (array : Bytes length) : Pass length :=
  incrementPasses passes array (UInt8.ofNat length - 1)

/-- A loop that is done stays so. -/
theorem incrementPasses_done {length : Nat} {passes : Nat} {array : Bytes length} {i : UInt8}
    {result : Pass length} (done : incrementPasses passes array i = result)
    (finished : ∀ array i, result ≠ .again array i) (more : Nat) :
    incrementPasses (passes + more) array i = result := by
  induction passes generalizing array i with
  | zero => exact absurd done.symm (finished array i)
  | succ passes ih =>
      rw [Nat.succ_add]
      unfold incrementPasses at done ⊢
      split at done
      · exact ih done
      · exact done
      · exact done

section Passes

variable {length : Nat} {array : Bytes length}

theorem incrementPass_carries {index : UInt8} {i : Nat} (same : index.toNat = i)
    (inside : i < length) (full : array.get ⟨i, inside⟩ = 255) :
    incrementPass array index = .again (array.set ⟨i, inside⟩ 0) (index - 1) := by
  subst same
  unfold incrementPass
  rw [dif_pos inside, if_pos full]

theorem incrementPass_returns {index : UInt8} {i : Nat} (same : index.toNat = i)
    (inside : i < length) (room : array.get ⟨i, inside⟩ ≠ 255) :
    incrementPass array index = .returned (array.set ⟨i, inside⟩ (array.get ⟨i, inside⟩ + 1)) := by
  subst same
  unfold incrementPass
  rw [dif_pos inside, if_neg room]

/-- From an index inside an array of at most 255 bytes the loop is the loop on numbers: the index
after zero is 255, outside the array. -/
theorem incrementPasses_eq (short : length ≤ 255) {i : Nat} {index : UInt8}
    (same : index.toNat = i) (inside : i < length) :
    incrementPasses (i + 2) array index =
      match incrementArrayFrom array i with
      | some raised => .returned raised
      | none => .outside := by
  induction i generalizing array index with
  | zero =>
      unfold incrementPasses incrementArrayFrom
      rw [dif_pos inside]
      by_cases full : array.get ⟨0, inside⟩ = 255
      · have wrapped : index - 1 = 255 := by
          rw [UInt8.toNat_inj.mp (same.trans UInt8.toNat_zero.symm)]
          rfl
        have left : incrementPass (array.set ⟨0, inside⟩ 0) 255 = .outside :=
          dif_neg (not_lt.mpr short)
        rw [incrementPass_carries same inside full, wrapped, if_pos full]
        show (match incrementPass (array.set ⟨0, inside⟩ 0) 255 with
          | .again _ _ => _ | .returned _ => _ | .outside => _ : Pass length) = _
        rw [left]
      · rw [incrementPass_returns same inside full, if_neg full]
  | succ i ih =>
      unfold incrementPasses incrementArrayFrom
      rw [dif_pos inside]
      by_cases full : array.get ⟨i + 1, inside⟩ = 255
      · have lower : (index - 1).toNat = i := by
          have := index.toNat_lt
          rw [UInt8.toNat_sub, UInt8.toNat_one]
          omega
        rw [incrementPass_carries same inside full, if_pos full]
        exact ih lower (Nat.lt_of_succ_lt inside)
      · rw [incrementPass_returns same inside full, if_neg full]

/-- **The loop terminates**: after one pass more than the array is long it has returned, or left
the array. -/
theorem incrementLoop_eq (positive : 0 < length) (short : length ≤ 255) :
    incrementLoop (length + 1) array =
      match incrementArray array with
      | some raised => .returned raised
      | none => .outside := by
  have last : (UInt8.ofNat length - 1).toNat = length - 1 := by
    rw [UInt8.toNat_sub, UInt8.toNat_one, UInt8.toNat_ofNat']
    omega
  have passes : length + 1 = (length - 1) + 2 := by omega
  rw [incrementLoop, incrementArray, passes]
  exact incrementPasses_eq short last (by omega)

/-- What the loop returns, if it does. -/
theorem incrementLoop_returned_iff (positive : 0 < length) (short : length ≤ 255)
    {result : Bytes length} :
    (∃ passes, incrementLoop passes array = .returned result) ↔
      incrementArray array = some result := by
  have ends := @incrementLoop_eq length array positive short
  constructor
  · rintro ⟨passes, returned⟩
    have later := incrementPasses_done returned (fun _ _ => nofun) (length + 1)
    cases found : incrementArray array with
    | none =>
        rw [found] at ends
        have same := incrementPasses_done ends (fun _ _ => nofun) passes
        rw [Nat.add_comm, same] at later
        cases later
    | some raised =>
        rw [found] at ends
        have same := incrementPasses_done ends (fun _ _ => nofun) passes
        rw [Nat.add_comm, same] at later
        exact congrArg some (Pass.returned.inj later)
  · intro found
    rw [found] at ends
    exact ⟨length + 1, ends⟩

end Passes

/-! ### The recursive reference -/

/-- The implementation under `#if 0` from the index `length - 1` of its front down. -/
def incrementRecursiveFrom {size : Nat} (array : Bytes size) :
    (index : Nat) → index < size → Bytes size
  | 0, inside => array.set ⟨0, inside⟩ (array.get ⟨0, inside⟩ + 1)
  | index + 1, inside =>
      let raised := array.set ⟨index + 1, inside⟩ (array.get ⟨index + 1, inside⟩ + 1)
      if raised.get ⟨index + 1, inside⟩ = 0 then
        incrementRecursiveFrom raised index (Nat.lt_of_succ_lt inside)
      else raised

/-- The recursive implementation of `increment_array`. -/
def incrementRecursive {length : Nat} (array : Bytes length) (positive : 0 < length) :
    Bytes length :=
  incrementRecursiveFrom array (length - 1) (Nat.sub_one_lt_of_lt positive)

theorem add_one_eq_zero_iff {byte : UInt8} : byte + 1 = 0 ↔ byte = 255 := by
  constructor
  · intro zero
    have value : (byte.toNat + 1) % 256 = 0 := by
      rw [← UInt8.toNat_zero, ← zero, UInt8.toNat_add, UInt8.toNat_one]
    have := byte.toNat_lt
    exact UInt8.toNat_inj.mp (show byte.toNat = 255 by omega)
  · rintro rfl
    rfl

/-- The recursion raises the front up to its index; where the carry leaves the array the front is
zero. -/
theorem incrementRecursiveFrom_eq {size : Nat} (array : Bytes size) (index : Nat)
    (inside : index < size) :
    (incrementRecursiveFrom array index inside).toList =
      (bump 255 (array.toList.take (index + 1))).getD (List.replicate (index + 1) 0) ++
        array.toList.drop (index + 1) := by
  refine toList_of_carries incrementRecursiveFrom (fun array inside => ?_)
    (fun array index inside => ?_) array index inside
  · unfold incrementRecursiveFrom
    by_cases carries : array.get ⟨0, inside⟩ = 255
    · rw [if_pos carries, carries]
      rfl
    · rw [if_neg carries]
  · rw [incrementRecursiveFrom]
    simp only [List.Vector.get_set_same]
    by_cases carries : array.get ⟨index + 1, inside⟩ = 255
    · rw [if_pos (add_one_eq_zero_iff.mpr carries), if_pos carries, carries]
      rfl
    · rw [if_neg (add_one_eq_zero_iff.not.mpr carries), if_neg carries]

section Recursive

variable {length : Nat} (positive : 0 < length) (array : Bytes length)

theorem toList_incrementRecursive :
    (incrementRecursive array positive).toList =
      (bump 255 array.toList).getD (List.replicate length 0) := by
  have whole : array.toList.length ≤ length - 1 + 1 := by
    rw [List.Vector.toList_length]
    omega
  have again : length - 1 + 1 = length := by omega
  rw [incrementRecursive, incrementRecursiveFrom_eq, List.take_of_length_le whole,
    List.drop_eq_nil_of_le whole, List.append_nil, again]

/-- The recursion is the successor modulo `256 ^ length`, the array of `0xFF` bytes included. -/
theorem value_incrementRecursive :
    value (incrementRecursive array positive).toList = (value array.toList + 1) % 256 ^ length := by
  have sized : array.toList.length = length := List.Vector.toList_length array
  rw [toList_incrementRecursive]
  cases bumped : bump 255 array.toList with
  | none =>
      have full : value array.toList + 1 = 256 ^ array.toList.length :=
        @valueIn_all_top 255 _ (bump_eq_none.mp bumped)
      rw [Option.getD_none, full, sized, Nat.mod_self]
      exact valueIn_replicate_zero 256 length
  | some raised =>
      have bound := value_lt raised
      rw [bump_length bumped, sized, value_bump bumped] at bound
      rw [Option.getD_some, value_bump bumped, Nat.mod_eq_of_lt bound]

/-- Where the loop returns, it returns the array of the recursion. -/
theorem incrementArray_eq_recursive_iff :
    incrementArray array = some (incrementRecursive array positive) ↔
      array ≠ List.Vector.replicate length 255 := by
  constructor
  · rintro found rfl
    rw [incrementArray_eq_none.mpr rfl] at found
    cases found
  · intro room
    cases found : incrementArray array with
    | none => exact absurd (incrementArray_eq_none.mp found) room
    | some raised =>
        refine congrArg some (Bytes.ext ?_)
        rw [toList_incrementRecursive, incrementArray_some found, Option.getD_some]

end Recursive

/-! ### Both -/

/-- **The loop returns the array of the recursion unless every byte is `0xFF`**, for every length a
`uint8_t` can hold but zero. -/
theorem increment_loop_iff {length : Nat} (positive : 0 < length) (short : length ≤ 255)
    (array : Bytes length) :
    ((∃ passes, incrementLoop passes array = .returned (incrementRecursive array positive)) ∧
      value (incrementRecursive array positive).toList = (value array.toList + 1) % 256 ^ length) ↔
    array ≠ List.Vector.replicate length 255 := by
  rw [incrementLoop_returned_iff positive short, incrementArray_eq_recursive_iff]
  exact and_iff_left (value_incrementRecursive positive array)

/-- Three bytes, of which two carry. -/
def carryingArray : Bytes 3 := ⟨[1, 255, 255], rfl⟩

theorem increment_loop_carry :
    (∃ passes, incrementLoop passes carryingArray =
        .returned (incrementRecursive carryingArray (by decide))) ∧
      value (incrementRecursive carryingArray (by decide)).toList =
        (value carryingArray.toList + 1) % 256 ^ 3 :=
  (increment_loop_iff (by decide) (by decide) carryingArray).mpr (by decide)

/-- **On 24 bytes `0xFF` the loop leaves the array**, where the recursion gives 24 zero bytes. -/
theorem increment_loop_outside :
    incrementLoop 25 (List.Vector.replicate 24 255 : Bytes 24) = .outside ∧
      incrementRecursive (List.Vector.replicate 24 255 : Bytes 24) (by decide) = Bytes.zeros 24 ∧
      ¬ ∃ passes, incrementLoop passes (List.Vector.replicate 24 255 : Bytes 24) =
        .returned (incrementRecursive (List.Vector.replicate 24 255) (by decide)) := by
  refine ⟨by decide, by decide, ?_⟩
  rw [incrementLoop_returned_iff (by decide) (by decide)]
  decide

end Esloq
