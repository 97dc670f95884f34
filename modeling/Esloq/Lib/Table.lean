/-
**Tables with a primary key and unique columns.**

* `Table` — rows with distinct keys that agree on no unique column (where it is not null), and the
  key the next row is given.
* `insert`, `save`, `delete` — the writes; `insert` and `save` fail where a unique column would
  repeat.
* `eq_of_key`, `eq_of_column` — a query for a key or for a value of a unique column finds at most
  one row.
-/

import Mathlib.Data.List.Pairwise
import Mathlib.Data.List.Nodup

namespace Table

variable {ρ υ : Type} [DecidableEq υ]

/-- Two rows agree on a unique column. -/
def clashes (columns : List (ρ → Option υ)) (first second : ρ) : Bool :=
  columns.any fun column => (column first).isSome && column first == column second

/-- Two rows of one table. -/
def Apart (key : ρ → Nat) (columns : List (ρ → Option υ)) (first second : ρ) : Prop :=
  key first ≠ key second ∧ clashes columns first second = false

instance (key : ρ → Nat) (columns : List (ρ → Option υ)) (first second : ρ) :
    Decidable (Apart key columns first second) :=
  inferInstanceAs (Decidable (_ ∧ _))

theorem clashes_comm (columns : List (ρ → Option υ)) (first second : ρ) :
    clashes columns first second = clashes columns second first := by
  rw [clashes, clashes]
  congr 1
  funext column
  by_cases same : column first = column second
  · rw [same]
  · rw [beq_eq_false_iff_ne.mpr same, beq_eq_false_iff_ne.mpr (Ne.symm same), Bool.and_false,
      Bool.and_false]

theorem clashes_of_column {columns : List (ρ → Option υ)} {column : ρ → Option υ} {value : υ}
    {first second : ρ} (unique : column ∈ columns) (ofFirst : column first = some value)
    (ofSecond : column second = some value) : clashes columns first second = true := by
  refine List.any_eq_true.mpr ⟨column, unique, ?_⟩
  rw [ofFirst, ofSecond, Option.isSome_some, Bool.true_and, beq_self_eq_true]

theorem clashes_eq_false {columns : List (ρ → Option υ)} {first second : ρ}
    (differ : ∀ column ∈ columns, ∀ value, column first = some value → column second ≠ some value) :
    clashes columns first second = false := by
  rw [clashes, List.any_eq_false]
  intro column unique clash
  rw [Bool.and_eq_true, Option.isSome_iff_exists, beq_iff_eq] at clash
  obtain ⟨⟨value, ofFirst⟩, same⟩ := clash
  exact differ column unique value ofFirst (same.symm.trans ofFirst)

instance (key : ρ → Nat) (columns : List (ρ → Option υ)) : Std.Symm (Apart key columns) :=
  ⟨fun _ _ apart => ⟨apart.1.symm, (clashes_comm columns _ _).trans apart.2⟩⟩

end Table

/-- A table of a database. -/
structure Table {ρ υ : Type} [DecidableEq υ] (key : ρ → Nat) (columns : List (ρ → Option υ)) where
  rows : List ρ
  next : Nat
  below : ∀ row ∈ rows, key row < next
  apart : rows.Pairwise (Table.Apart key columns)

namespace Table

variable {ρ υ : Type} [DecidableEq υ] {key : ρ → Nat} {columns : List (ρ → Option υ)}

/-! ### Queries -/

theorem eq_of_key (table : Table key columns) {first second : ρ} (inFirst : first ∈ table.rows)
    (inSecond : second ∈ table.rows) (same : key first = key second) : first = second := by
  by_contra different
  exact (table.apart.forall inFirst inSecond different).1 same

theorem eq_of_column (table : Table key columns) {column : ρ → Option υ} (unique : column ∈ columns)
    {value : υ} {first second : ρ} (inFirst : first ∈ table.rows) (inSecond : second ∈ table.rows)
    (ofFirst : column first = some value) (ofSecond : column second = some value) :
    first = second := by
  by_contra different
  have clash := clashes_of_column unique ofFirst ofSecond
  rw [(table.apart.forall inFirst inSecond different).2] at clash
  cases clash

theorem nodup_rows (table : Table key columns) : table.rows.Nodup :=
  table.apart.imp fun apart same => apart.1 (congrArg key same)

/-! ### Writes -/

/-- `DELETE`: the rows of a condition are removed. -/
def delete (table : Table key columns) (condition : ρ → Bool) : Table key columns where
  rows := table.rows.filter fun row => !condition row
  next := table.next
  below row member := table.below row (List.mem_of_mem_filter member)
  apart := table.apart.filter _

/-- `INSERT`: a row under the next key, where it repeats no unique column. -/
def insert (table : Table key columns) (row : Nat → ρ) (keyed : ∀ id, key (row id) = id) :
    Option (Table key columns) :=
  if free : ∀ other ∈ table.rows, clashes columns other (row table.next) = false then
    some
      { rows := table.rows ++ [row table.next]
        next := table.next + 1
        below := by
          intro other member
          rcases List.mem_append.mp member with old | new
          · exact Nat.lt_succ_of_lt (table.below other old)
          · rw [List.mem_singleton.mp new, keyed]
            exact Nat.lt_succ_self _
        apart := by
          refine List.pairwise_append.mpr ⟨table.apart, List.pairwise_singleton _ _, ?_⟩
          intro other member added isRow
          rw [List.mem_singleton.mp isRow]
          refine ⟨?_, free other member⟩
          rw [keyed]
          exact Nat.ne_of_lt (table.below other member) }
  else none

/-- `UPDATE` of the row with the key of `row`, where that repeats no unique column. -/
def save (table : Table key columns) (row : ρ) : Option (Table key columns) :=
  if free : ∀ other ∈ table.rows, key other ≠ key row → clashes columns other row = false then
    some
      { rows := table.rows.map fun other => if key other = key row then row else other
        next := table.next
        below := by
          intro other member
          obtain ⟨old, isOld, rfl⟩ := List.mem_map.mp member
          by_cases same : key old = key row
          · rw [if_pos same, ← same]
            exact table.below old isOld
          · rw [if_neg same]
            exact table.below old isOld
        apart := by
          refine List.pairwise_map.mpr (table.apart.imp_of_mem ?_)
          intro first second inFirst inSecond apart
          by_cases isFirst : key first = key row
          · have other : key second ≠ key row := fun same => apart.1 (isFirst.trans same.symm)
            rw [if_pos isFirst, if_neg other]
            exact ⟨other.symm, (clashes_comm columns row second).trans (free second inSecond other)⟩
          · by_cases isSecond : key second = key row
            · rw [if_neg isFirst, if_pos isSecond]
              exact ⟨isFirst, free first inFirst isFirst⟩
            · rw [if_neg isFirst, if_neg isSecond]
              exact apart }
  else none

variable {table after : Table key columns}

theorem mem_delete {condition : ρ → Bool} {row : ρ} :
    row ∈ (table.delete condition).rows ↔ row ∈ table.rows ∧ condition row = false := by
  rw [delete, List.mem_filter, Bool.not_eq_true']

theorem rows_of_insert {row : Nat → ρ} {keyed : ∀ id, key (row id) = id}
    (inserted : table.insert row keyed = some after) :
    after.rows = table.rows ++ [row table.next] := by
  rw [insert] at inserted
  split at inserted
  · exact congrArg Table.rows (Option.some.inj inserted).symm
  · cases inserted

theorem next_of_insert {row : Nat → ρ} {keyed : ∀ id, key (row id) = id}
    (inserted : table.insert row keyed = some after) : after.next = table.next + 1 := by
  rw [insert] at inserted
  split at inserted
  · exact congrArg Table.next (Option.some.inj inserted).symm
  · cases inserted

/-- A row that repeats no unique column can be inserted. -/
theorem insert_of_free {row : Nat → ρ} (keyed : ∀ id, key (row id) = id)
    (free : ∀ other ∈ table.rows, clashes columns other (row table.next) = false) :
    ∃ after, table.insert row keyed = some after ∧ after.rows = table.rows ++ [row table.next] := by
  rw [insert, dif_pos free]
  exact ⟨_, rfl, rfl⟩

/-- A row of the table can be saved with the values it has in the unique columns. -/
theorem save_of_mem {row new : ρ} (member : row ∈ table.rows) (sameKey : key new = key row)
    (sameColumns : ∀ column ∈ columns, column new = column row) : ∃ after, table.save new = some after := by
  rw [save, dif_pos]
  · exact ⟨_, rfl⟩
  · intro other isOther different
    have apart := table.apart.forall isOther member fun same => different (same ▸ sameKey.symm)
    refine clashes_eq_false fun column unique value ofOther ofNew => ?_
    rw [sameColumns column unique] at ofNew
    have clash := clashes_of_column unique ofOther ofNew
    rw [apart.2] at clash
    cases clash

theorem rows_of_save {row : ρ} (saved : table.save row = some after) :
    after.rows = table.rows.map fun other => if key other = key row then row else other := by
  rw [save] at saved
  split at saved
  · exact congrArg Table.rows (Option.some.inj saved).symm
  · cases saved

end Table
