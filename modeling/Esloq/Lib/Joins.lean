/-
**Joins of tables, and sorted answers.**

* `innerJoin` — the pairs of rows of two tables that agree on a column. A condition on the left rows can be
  checked before (`filter_innerJoin`), and where the column is a key of the right table each left row has at
  most one partner (`innerJoin_eq_filterMap`).
* `SortedAnswer` — what a sorted query can answer: its rows, in an order in which no row stands before a smaller
  one. Rows that compare equal can stand in any order.
-/

import Esloq.Lib.Keyed
import Mathlib.Data.List.Perm.Basic

namespace Keyed

variable {ρ σ κ τ : Type} [DecidableEq κ] (column : ρ → κ) (key : σ → κ)

/-- `INNER JOIN`: the pairs of rows that agree. -/
def innerJoin (left : List ρ) (right : List σ) : List (ρ × σ) :=
  left.flatMap fun row => (right.filter fun other => key other = column row).map fun other => (row, other)

variable {column key} {left left' : List ρ} {right : List σ}

theorem filter_innerJoin (condition : ρ → Bool) :
    (innerJoin column key left right).filter (fun pair => condition pair.1) =
      innerJoin column key (left.filter condition) right := by
  induction left with
  | nil => rfl
  | cons row left later =>
      unfold innerJoin at later ⊢
      rw [List.flatMap_cons, List.filter_append, later, List.filter_map]
      by_cases holds : condition row
      · rw [List.filter_cons_of_pos holds, List.flatMap_cons, List.filter_eq_self.mpr]
        exact fun other _ => holds
      · have none' (others : List σ) : others.filter ((fun pair => condition pair.1) ∘ fun other => (row, other)) = [] :=
          List.filter_eq_nil_iff.mpr fun other _ => holds
        rw [List.filter_cons_of_neg holds, none', List.map_nil, List.nil_append]

theorem perm_innerJoin (same : left.Perm left') :
    (innerJoin column key left right).Perm (innerJoin column key left' right) := same.flatMap_right _

/-- The rows that agree with a value of a key. -/
theorem filter_eq_lookup (distinct : (right.map key).Nodup) (wanted : κ) :
    (right.filter fun other => key other = wanted) = (lookup key wanted right).toList := by
  induction right with
  | nil => rfl
  | cons row right later =>
      rw [List.map_cons, List.nodup_cons] at distinct
      have rest := later distinct.2
      unfold lookup at rest ⊢
      rw [List.filter_cons, List.find?_cons]
      by_cases same : key row = wanted
      · have none' : (right.filter fun other => key other = wanted) = [] := by
          refine List.filter_eq_nil_iff.mpr fun other member => ?_
          have apart : key other ≠ wanted := fun equal =>
            distinct.1 (same.trans equal.symm ▸ List.mem_map_of_mem member)
          simpa using apart
        simp [same, none']
      · simpa [same] using rest

/-- **A join with a key** gives each row the partner it refers to, if there is one. -/
theorem innerJoin_eq_filterMap (distinct : (right.map key).Nodup) :
    innerJoin column key left right =
      left.filterMap fun row => (lookup key (column row) right).map fun other => (row, other) := by
  unfold innerJoin
  rw [List.filterMap_eq_flatMap_toList]
  refine List.flatMap_congr fun row _ => ?_
  rw [filter_eq_lookup distinct]
  cases lookup key (column row) right with
  | none => rfl
  | some other => rfl

/-! ### Sorted answers -/

/-- An answer to a query with the rows, sorted. -/
structure SortedAnswer (order : τ → τ → Ordering) (rows answer : List τ) : Prop where
  perm : answer.Perm rows
  sorted : answer.Pairwise fun first second => order first second ≠ .gt

/-- Only which rows there are matters, and how often. -/
theorem sortedAnswer_congr {order : τ → τ → Ordering} {rows rows' : List τ} (same : rows.Perm rows')
    (answer : List τ) : SortedAnswer order rows answer ↔ SortedAnswer order rows' answer :=
  ⟨fun ⟨perm, sorted⟩ => ⟨perm.trans same, sorted⟩, fun ⟨perm, sorted⟩ => ⟨perm.trans same.symm, sorted⟩⟩

end Keyed
