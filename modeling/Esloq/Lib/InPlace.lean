/-
**Blocks that are copied in place, cell by cell.**

* `InPlace.Order` — the addresses of a block from the first up, or from the last down.
* `InPlace.copied source target addresses` — a block some of whose cells have been overwritten with
  those of another one; `get_copied` says which.
* `InPlace.changes` — the addresses an update that skips equal cells writes to. The blocks such an
  update passes through are the fronts of one block with the rest of the other
  (`exists_split_iff`).
-/

import Mathlib.Data.List.FinRange
import Mathlib.Data.Vector.Basic

namespace InPlace

variable {α : Type} {size : Nat}

/-- The direction in which a block is written. -/
inductive Order
  | ascending
  | descending
  deriving DecidableEq, Repr

/-- The addresses of a block in the order they are visited. -/
def Order.addresses (order : Order) (size : Nat) : List (Fin size) :=
  match order with
  | .ascending => List.finRange size
  | .descending => (List.finRange size).reverse

/-- Overwrite one cell with that of the source. -/
def copyCell (source target : List.Vector α size) (address : Fin size) : List.Vector α size :=
  target.set address (source.get address)

/-- The target after the cells at some addresses have been overwritten. -/
def copied (source target : List.Vector α size) (addresses : List (Fin size)) : List.Vector α size :=
  addresses.foldl (copyCell source) target

theorem get_copied (source : List.Vector α size) (address : Fin size) :
    ∀ (addresses : List (Fin size)) (target : List.Vector α size),
      (copied source target addresses).get address =
        if address ∈ addresses then source.get address else target.get address
  | [], target => by simp [copied]
  | first :: rest, target => by
      have later := get_copied source address rest (copyCell source target first)
      rw [copied, List.foldl_cons, ← copied, later]
      by_cases tail : address ∈ rest
      · rw [if_pos tail, if_pos (List.mem_cons_of_mem first tail)]
      · rw [if_neg tail]
        by_cases here : first = address
        · subst here
          rw [if_pos List.mem_cons_self, copyCell, List.Vector.get_set_same]
        · rw [if_neg (by simp [tail, Ne.symm here]), copyCell, List.Vector.get_set_of_ne here]

/-- The first `count` of the kept items are kept from some beginning of the list, and conversely. -/
theorem take_filter_iff (keep : α → Bool) (items kept : List α) :
    (∃ count, kept = (items.filter keep).take count) ↔
      ∃ visited, kept = (items.take visited).filter keep := by
  constructor
  · rintro ⟨count, rfl⟩
    induction items generalizing count with
    | nil => exact ⟨0, by simp⟩
    | cons item rest ih =>
        cases count with
        | zero => exact ⟨0, rfl⟩
        | succ count =>
            cases here : keep item with
            | true =>
                obtain ⟨visited, same⟩ := ih count
                refine ⟨visited + 1, ?_⟩
                rw [List.filter_cons_of_pos here, List.take_succ_cons, List.take_succ_cons,
                  List.filter_cons_of_pos here, same]
            | false =>
                obtain ⟨visited, same⟩ := ih (count + 1)
                refine ⟨visited + 1, ?_⟩
                rw [List.filter_cons_of_neg (by simp [here]), List.take_succ_cons,
                  List.filter_cons_of_neg (by simp [here]), same]
  · rintro ⟨visited, rfl⟩
    refine ⟨((items.take visited).filter keep).length, ?_⟩
    have split := congrArg (List.filter keep) (List.take_append_drop visited items)
    rw [List.filter_append] at split
    rw [← split, List.take_left' rfl]

/-! ### Interrupted copies -/

/-- A front of one block and the rest of the other: what an update that has come to `boundary`
leaves. -/
def Order.mixed (order : Order) (source target : List.Vector α size) (boundary : Nat) : List α :=
  match order with
  | .ascending => source.toList.take boundary ++ target.toList.drop boundary
  | .descending => target.toList.take boundary ++ source.toList.drop boundary

theorem Order.length_mixed (order : Order) (source target : List.Vector α size) (boundary : Nat) :
    (order.mixed source target boundary).length = size := by
  cases order <;>
  · simp only [Order.mixed, List.length_append, List.length_take, List.length_drop,
      List.Vector.toList_length]
    omega

theorem mem_take_finRange {address : Fin size} {boundary : Nat} :
    address ∈ (List.finRange size).take boundary ↔ address.val < boundary := by
  rw [List.mem_take_iff_getElem]
  constructor
  · rintro ⟨index, inside, same⟩
    rw [List.getElem_finRange] at same
    have := congrArg Fin.val same
    simp only [Fin.val_cast] at this
    omega
  · intro below
    refine ⟨address.val, ?_, ?_⟩
    · rw [List.length_finRange]
      have := address.isLt
      omega
    · rw [List.getElem_finRange]
      rfl

theorem mem_take_reverse_finRange {address : Fin size} {visited : Nat} :
    address ∈ (List.finRange size).reverse.take visited ↔ size - visited ≤ address.val := by
  have inside := address.isLt
  rw [List.take_reverse, List.mem_reverse, List.length_finRange, List.mem_drop_iff_getElem]
  constructor
  · rintro ⟨index, inside, same⟩
    rw [List.getElem_finRange] at same
    have := congrArg Fin.val same
    simp only [Fin.val_cast] at this
    omega
  · intro atLeast
    refine ⟨address.val - (size - visited), ?_, ?_⟩
    · rw [List.length_finRange]
      omega
    · rw [List.getElem_finRange]
      apply Fin.ext
      simp only [Fin.val_cast]
      omega

/-- A block whose cells come from one block below the boundary and from another above is their
mixture. -/
theorem toList_eq_mixed {found below above : List.Vector α size} {boundary : Nat}
    (cells : ∀ address, found.get address =
      if address.val < boundary then below.get address else above.get address) :
    found.toList = below.toList.take boundary ++ above.toList.drop boundary := by
  apply List.ext_getElem
  · simp only [List.Vector.toList_length, List.length_append, List.length_take, List.length_drop]
    omega
  · intro index inside inside'
    have here := cells ⟨index, by rwa [List.Vector.toList_length] at inside⟩
    simp only [List.Vector.get_eq_get_toList, List.get_eq_getElem, Fin.val_cast] at here
    rw [here]
    have sized := List.Vector.toList_length found
    have length : (below.toList.take boundary).length = min boundary size := by
      rw [List.length_take, List.Vector.toList_length]
    by_cases front : index < boundary
    · rw [if_pos front, List.getElem_append_left (by omega), List.getElem_take]
    · rw [if_neg front, List.getElem_append_right (by omega), List.getElem_drop]
      congr 1
      omega

/-- An update that has visited some addresses has come to a boundary. -/
theorem toList_copied (order : Order) (source target : List.Vector α size) (visited : Nat) :
    (copied source target ((order.addresses size).take visited)).toList =
      order.mixed source target
        (match order with | .ascending => visited | .descending => size - visited) := by
  cases order with
  | ascending =>
      refine toList_eq_mixed fun address => ?_
      rw [get_copied, Order.addresses]
      simp only [mem_take_finRange]
  | descending =>
      refine toList_eq_mixed fun address => ?_
      rw [get_copied, Order.addresses]
      simp only [mem_take_reverse_finRange]
      by_cases below : address.val < size - visited
      · rw [if_neg (by omega), if_pos below]
      · rw [if_pos (by omega), if_neg below]

/-! ### Updates -/

variable [DecidableEq α]

/-- The addresses at which the blocks differ, in the order they are visited. -/
def changes (order : Order) (source target : List.Vector α size) : List (Fin size) :=
  (order.addresses size).filter fun address => decide (source.get address ≠ target.get address)

/-- Skipping equal cells makes no difference. -/
theorem copied_filter (source target : List.Vector α size) (addresses : List (Fin size)) :
    copied source target
        (addresses.filter fun address => decide (source.get address ≠ target.get address)) =
      copied source target addresses := by
  apply List.Vector.ext
  intro address
  rw [get_copied, get_copied]
  by_cases differs : source.get address = target.get address
  · simp [differs]
  · simp [differs]

/-- A whole update leaves the source. -/
theorem copied_changes (order : Order) (source target : List.Vector α size) :
    copied source target (changes order source target) = source := by
  rw [changes, copied_filter]
  apply List.Vector.ext
  intro address
  rw [get_copied, if_pos]
  cases order <;> simp [Order.addresses]

/-- The blocks an update passes through are the fronts of one block with the rest of the other. -/
theorem exists_split_iff (order : Order) (source target found : List.Vector α size) :
    (∃ count, found = copied source target ((changes order source target).take count)) ↔
      ∃ boundary, found.toList = order.mixed source target boundary := by
  have steps : (∃ count, found = copied source target ((changes order source target).take count)) ↔
      ∃ visited, found = copied source target ((order.addresses size).take visited) := by
    constructor
    · rintro ⟨count, rfl⟩
      obtain ⟨visited, same⟩ := (take_filter_iff _ _ _).mp ⟨count, rfl⟩
      exact ⟨visited, by rw [changes, same, copied_filter]⟩
    · rintro ⟨visited, rfl⟩
      obtain ⟨count, same⟩ := (take_filter_iff
        (fun address => decide (source.get address ≠ target.get address))
        (order.addresses size) _).mpr ⟨visited, rfl⟩
      exact ⟨count, by rw [changes, ← same, copied_filter]⟩
  rw [steps]
  constructor
  · rintro ⟨visited, rfl⟩
    exact ⟨_, toList_copied order source target visited⟩
  · rintro ⟨boundary, same⟩
    cases order with
    | ascending =>
        exact ⟨boundary, Subtype.ext (same.trans (toList_copied .ascending source target _).symm)⟩
    | descending =>
        refine ⟨size - boundary,
          Subtype.ext (same.trans (Eq.trans ?_ (toList_copied .descending source target _).symm))⟩
        rcases Nat.le_total boundary size with inside | outside
        · rw [Nat.sub_sub_self inside]
        · simp only [Order.mixed]
          rw [Nat.sub_eq_zero_of_le outside, Nat.sub_zero,
            List.take_of_length_le (by rw [List.Vector.toList_length]; exact outside),
            List.drop_of_length_le (by rw [List.Vector.toList_length]; exact outside),
            List.take_of_length_le (by rw [List.Vector.toList_length]),
            List.drop_of_length_le (by rw [List.Vector.toList_length])]

end InPlace
