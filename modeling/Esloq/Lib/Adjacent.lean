/-
**Neighbours in a list, and what is left of a list without repetition.**

* `pairs join` — what neighbours make together; it grows with the list (`pairs_mono`), keeps that of
  its parts (`pairs_append_sublist`) and names no more than the list does (`map_pairs_sublist`).
* `filter_key_eq` — a part of a list whose keys do not repeat is the entries with the keys of the part.
-/

import Mathlib.Data.List.Infix
import Mathlib.Data.List.Nodup

namespace Adjacent

variable {α β κ : Type}

section Pairs

variable (join : α → α → Option β)

/-- What neighbours make together, in order. -/
def pairs : List α → List β
  | [] => []
  | [_] => []
  | first :: second :: rest => (join first second).toList ++ pairs (second :: rest)

/-- What the neighbours at the front make. -/
theorem pairs_front {first second : α} {value : β} (joined : join first second = some value)
    (rest : List α) : pairs join (first :: second :: rest) = value :: pairs join (second :: rest) := by
  rw [pairs, joined]
  rfl

/-- More entries at the end leave what there is. -/
theorem pairs_mono (xs ys : List α) : pairs join xs <+: pairs join (xs ++ ys) := by
  induction xs using pairs.induct with
  | case1 => exact List.nil_prefix
  | case2 first => exact List.nil_prefix
  | case3 first second rest ih =>
      rw [List.cons_append, List.cons_append, pairs, pairs]
      exact (List.prefix_append_right_inj _).mpr ih

/-- More entries at the front leave what there is too. -/
theorem pairs_suffix (first : α) (ys : List α) : pairs join ys <:+ pairs join (first :: ys) := by
  cases ys with
  | nil => exact List.nil_suffix
  | cons second rest =>
      rw [pairs]
      exact List.suffix_append _ _

theorem pairs_append_sublist (xs ys : List α) :
    (pairs join xs ++ pairs join ys).Sublist (pairs join (xs ++ ys)) := by
  induction xs using pairs.induct with
  | case1 => exact List.Sublist.refl _
  | case2 first => exact (pairs_suffix join first ys).sublist
  | case3 first second rest ih =>
      rw [List.cons_append, List.cons_append, pairs, pairs, List.append_assoc]
      exact (List.append_sublist_append_left _).mpr ih

/-- Where the first of two neighbours has the name of what they make, the names are among those of the
list. -/
theorem map_pairs_sublist {key : β → κ} {name : α → Option κ}
    (named : ∀ first second value, join first second = some value → name first = some (key value))
    (xs : List α) : ((pairs join xs).map key).Sublist (xs.filterMap name) := by
  induction xs using pairs.induct with
  | case1 => exact List.nil_sublist _
  | case2 first => exact List.nil_sublist _
  | case3 first second rest ih =>
      rw [pairs, List.map_append]
      cases joined : join first second with
      | none => exact ih.trans ((List.sublist_cons_self _ _).filterMap _)
      | some value =>
          rw [List.filterMap_cons_some (named first second value joined)]
          exact ih.cons_cons _

end Pairs

/-- **Where no key repeats, a part of a list is the entries with its keys.** -/
theorem filter_key_eq {key : β → κ} {p : β → Bool} {part whole : List β}
    (inside : part.Sublist whole) (nodup : (whole.map key).Nodup)
    (picks : ∀ value ∈ whole, p value = true ↔ key value ∈ part.map key) : whole.filter p = part := by
  induction inside with
  | slnil => rfl
  | @cons part whole value inside ih =>
      obtain ⟨fresh, nodup⟩ := List.nodup_cons.mp nodup
      have absent : ¬ p value = true := fun picked =>
        fresh ((inside.map key).mem ((picks value List.mem_cons_self).mp picked))
      rw [List.filter_cons_of_neg absent]
      exact ih nodup fun other member => picks other (List.mem_cons_of_mem value member)
  | @cons_cons part whole value inside ih =>
      obtain ⟨fresh, nodup⟩ := List.nodup_cons.mp nodup
      rw [List.filter_cons_of_pos ((picks value List.mem_cons_self).mpr List.mem_cons_self)]
      refine congrArg (value :: ·) (ih nodup fun other member => ?_)
      have different : key other ≠ key value := fun same => fresh (by
        rw [← same]
        exact List.mem_map_of_mem member)
      rw [picks other (List.mem_cons_of_mem value member), List.map_cons, List.mem_cons,
        or_iff_right different]

end Adjacent
