/-
**Ring buffers.**

* `Ring.cell` — the cell some places after an index, past the last cell again from the first.
* `Ring.Holds cells start next queue` — the cells from `start` up to before `next` hold a queue, in
  order. `Holds.push` puts an item into the cell `next` where the queue does not fill the buffer, and
  `Holds.pop` takes the item in the cell `start`.
-/

import Mathlib.Data.List.OfFn
import Mathlib.Data.Nat.ModEq
import Mathlib.Data.Vector.Basic

namespace Ring

variable {α : Type} {capacity : Nat} [NeZero capacity]

/-- The cell `offset` places after `start`. -/
def cell (start offset : Nat) : Fin capacity :=
  ⟨(start + offset) % capacity, Nat.mod_lt _ (Nat.pos_of_neZero capacity)⟩

/-- Cells less than one round apart are different. -/
theorem cell_injective {start first second : Nat} (firstInside : first < capacity)
    (secondInside : second < capacity) (same : (cell start first : Fin capacity) = cell start second) :
    first = second := by
  have remainders : (start + first) % capacity = (start + second) % capacity :=
    congrArg Fin.val same
  exact (Nat.ModEq.add_left_cancel' start remainders).eq_of_lt_of_lt firstInside secondInside

/-- An offset counted from one cell later. -/
theorem cell_advance (start offset : Nat) :
    (cell ((start + 1) % capacity) offset : Fin capacity) = cell start (offset + 1) := by
  apply Fin.ext
  show ((start + 1) % capacity + offset) % capacity = (start + (offset + 1)) % capacity
  rw [Nat.mod_add_mod, Nat.add_assoc, Nat.add_comm 1 offset]

/-- The cells from `start` up to before `next` hold the queue. -/
structure Holds (cells : List.Vector α capacity) (start next : Nat) (queue : List α) : Prop where
  room : queue.length ≤ capacity
  next : next = (start + queue.length) % capacity
  items : ∀ (offset : Nat) (inside : offset < queue.length),
    cells.get (cell start offset) = queue[offset]

variable {cells : List.Vector α capacity} {start next : Nat} {queue : List α} {item : α}

theorem Holds.empty (cells : List.Vector α capacity) (inside : start < capacity) :
    Holds cells start start [] where
  room := Nat.zero_le _
  next := (Nat.mod_eq_of_lt inside).symm
  items offset below := absurd below (Nat.not_lt_zero offset)

/-- A new item goes into the cell `next`. -/
theorem Holds.push (holds : Holds cells start next queue) (free : queue.length < capacity) (item : α) :
    Holds (cells.set (cell next 0) item) start ((next + 1) % capacity) (queue ++ [item]) := by
  have target : (cell next 0 : Fin capacity) = cell start queue.length := by
    apply Fin.ext
    show (next + 0) % capacity = (start + queue.length) % capacity
    rw [holds.next, Nat.add_zero, Nat.mod_mod]
  refine ⟨?_, ?_, ?_⟩
  · rw [List.length_append]
    exact free
  · rw [holds.next, List.length_append, List.length_singleton, Nat.mod_add_mod, Nat.add_assoc]
  · intro offset inside
    rw [target]
    rw [List.length_append, List.length_singleton] at inside
    rcases Nat.lt_succ_iff_lt_or_eq.mp inside with older | newest
    · have different : (cell start queue.length : Fin capacity) ≠ cell start offset := by
        intro same
        have := cell_injective free (older.trans free) same
        omega
      rw [List.Vector.get_set_of_ne different, holds.items offset older,
        List.getElem_append_left older]
    · subst newest
      rw [List.Vector.get_set_same, List.getElem_concat_length rfl]

/-- The oldest item is in the cell `start`. -/
theorem Holds.front (holds : Holds cells start next (item :: queue)) :
    cells.get (cell start 0) = item :=
  holds.items 0 (Nat.succ_pos _)

/-- Taking the oldest item. -/
theorem Holds.pop (holds : Holds cells start next (item :: queue)) :
    Holds cells ((start + 1) % capacity) next queue := by
  refine ⟨(Nat.le_succ _).trans holds.room, ?_, ?_⟩
  · rw [holds.next, List.length_cons, Nat.mod_add_mod, Nat.add_assoc, Nat.add_comm 1 queue.length]
  · intro offset inside
    rw [cell_advance, holds.items (offset + 1) (Nat.succ_lt_succ inside), List.getElem_cons_succ]

end Ring
