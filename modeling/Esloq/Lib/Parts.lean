/-
**Arrays that are read and written in parts.**

A C array is a list; `read` and `store` are copies out of and into a part of it, and there is no result
where the part does not lie inside the array. `load` is `read` for an argument of known length.

* `read_append`, `load_front` — what a part of an array holds.
* `store_append`, `store_front` — a copy replaces the part and keeps the rest.
* `store_replicate` — a copy into an array of equal entries.
-/

import Mathlib.Data.Vector.Basic

namespace Parts

variable {α : Type}

/-- The entries of a part of an array. -/
def read (array : List α) (offset length : Nat) : Option (List α) :=
  if offset + length ≤ array.length then some ((array.drop offset).take length) else none

/-- The first entries of an array, with their number. -/
def load (array : List α) (length : Nat) : Option (List.Vector α length) :=
  if inside : length ≤ array.length then
    some ⟨array.take length, List.length_take_of_le inside⟩
  else none

/-- A copy into a part of an array. -/
def store (array : List α) (offset : Nat) (data : List α) : Option (List α) :=
  if offset + data.length ≤ array.length then
    some (array.take offset ++ data ++ array.drop (offset + data.length))
  else none

theorem read_append {front data back : List α} {offset length : Nat} (start : front.length = offset)
    (sized : data.length = length) : read (front ++ (data ++ back)) offset length = some data := by
  subst start sized
  have inside : front.length + data.length ≤ (front ++ (data ++ back)).length := by
    rw [List.length_append, List.length_append]
    omega
  unfold read
  rw [if_pos inside, List.drop_left, List.take_left]

theorem load_front {length : Nat} (data : List.Vector α length) (back : List α) :
    load (data.toList ++ back) length = some data := by
  have sized := data.toList_length
  have inside : length ≤ (data.toList ++ back).length := by
    rw [List.length_append]
    omega
  unfold load
  rw [dif_pos inside]
  refine congrArg some (Subtype.ext ?_)
  show (data.toList ++ back).take length = data.toList
  exact List.take_left' sized

theorem load_whole {length : Nat} (data : List.Vector α length) :
    load data.toList length = some data := by
  have whole := load_front data []
  rwa [List.append_nil] at whole

theorem store_append {front old data back : List α} {offset : Nat} (start : front.length = offset)
    (sized : old.length = data.length) :
    store (front ++ (old ++ back)) offset data = some (front ++ (data ++ back)) := by
  subst start
  have inside : front.length + data.length ≤ (front ++ (old ++ back)).length := by
    rw [List.length_append, List.length_append]
    omega
  unfold store
  rw [if_pos inside, List.take_left, ← sized, ← List.drop_drop, List.drop_left, List.drop_left,
    List.append_assoc]

/-- A copy to the front of an array. -/
theorem store_front {array data : List α} (inside : data.length ≤ array.length) :
    store array 0 data = some (data ++ array.drop data.length) := by
  unfold store
  rw [Nat.zero_add, if_pos inside]
  rfl

/-- A copy into an array of equal entries. -/
theorem store_replicate {size offset : Nat} (entry : α) {data : List α}
    (inside : offset + data.length ≤ size) :
    store (List.replicate size entry) offset data = some (List.replicate offset entry ++
      (data ++ List.replicate (size - (offset + data.length)) entry)) := by
  have parts : List.replicate size entry = List.replicate offset entry ++
      (List.replicate data.length entry ++ List.replicate (size - (offset + data.length)) entry) := by
    rw [List.replicate_append_replicate, List.replicate_append_replicate]
    congr 1
    omega
  rw [parts]
  exact store_append List.length_replicate List.length_replicate

end Parts
