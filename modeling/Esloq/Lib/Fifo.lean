/-
**What passes through a queue that may be cleared.**

* `Passes cleared entered taken waiting` — of what has been put into a queue some has been taken and some is
  waiting, in the order in which it was put; only what was cleared is lost.
* `Passes.put`, `Passes.take`, `Passes.clear` — one rule for each operation.
* `Passes.through` — two queues in a row, where what is taken from the first may be put into the second.
-/

import Mathlib.Data.List.Basic

namespace Fifo

variable {α β : Type} {cleared : Prop} {entered taken waiting : List α}

/-- Into a queue `entered` has been put, of which `taken` has been taken and `waiting` is left. -/
structure Passes (cleared : Prop) (entered taken waiting : List α) : Prop where
  order : List.Sublist (taken ++ waiting) entered
  whole : ¬ cleared → taken ++ waiting = entered

theorem Passes.empty : Passes cleared ([] : List α) [] [] := ⟨.slnil, fun _ => rfl⟩

/-- At most one element is put. -/
theorem Passes.put (passes : Passes cleared entered taken waiting) (new : Option α) :
    Passes cleared (entered ++ new.toList) taken (waiting ++ new.toList) where
  order := by
    rw [← List.append_assoc]
    exact passes.order.append (List.Sublist.refl _)
  whole kept := by rw [← List.append_assoc, passes.whole kept]

theorem Passes.take {first : α} (passes : Passes cleared entered taken (first :: waiting)) :
    Passes cleared entered (taken ++ [first]) waiting where
  order := by
    rw [List.append_assoc]
    exact passes.order
  whole kept := by
    rw [List.append_assoc]
    exact passes.whole kept

theorem Passes.clear (passes : Passes cleared entered taken waiting) {cleared' : Prop} (now : cleared') :
    Passes cleared' entered taken [] where
  order := (List.append_nil taken).symm ▸ (List.sublist_append_left taken waiting).trans passes.order
  whole kept := absurd now kept

/-- Whether a queue was cleared may be said in another way. -/
theorem Passes.of_iff (passes : Passes cleared entered taken waiting) {cleared' : Prop}
    (iff : cleared' ↔ cleared) : Passes cleared' entered taken waiting :=
  ⟨passes.order, fun kept => passes.whole fun was => kept (iff.mpr was)⟩

theorem Passes.taken_sublist (passes : Passes cleared entered taken waiting) : List.Sublist taken entered :=
  (List.sublist_append_left taken waiting).trans passes.order

/-- What is taken from the second queue comes in the order of the first. -/
theorem Passes.through {f : α → Option β} {taken' waiting' : List β}
    (first : Passes cleared entered taken waiting)
    (second : Passes cleared (taken.filterMap f) taken' waiting') :
    Passes cleared (entered.filterMap f) taken' (waiting' ++ waiting.filterMap f) where
  order := by
    have both := second.order.append (List.Sublist.refl (waiting.filterMap f))
    rw [← List.filterMap_append] at both
    rw [← List.append_assoc]
    exact both.trans (first.order.filterMap f)
  whole kept := by
    rw [← List.append_assoc, second.whole kept, ← List.filterMap_append, first.whole kept]

end Fifo
