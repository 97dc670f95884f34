/-
**Lists of rows under a key of their own.**

* `insertNew` — an insert that is ignored where a row has the key already; `without` removes the rows
  of a key, `update` replaces them.
* `lookup` — the row of a key. `lookup_insertNew` and `lookup_without` say what an insert and a delete
  do to every key.
* `insertAll` — inserts one after the other; of the new rows the first with its key stays, and a second time
  they change nothing (`insertAll_insertAll`).
-/

import Mathlib.Data.List.Nodup

namespace Keyed

variable {ρ κ : Type} [DecidableEq κ] (key : ρ → κ)

/-- A row is added unless one has its key. -/
def insertNew (row : ρ) (rows : List ρ) : List ρ :=
  if key row ∈ rows.map key then rows else rows ++ [row]

/-- The rows of all keys but one. -/
def without (removed : κ) (rows : List ρ) : List ρ := rows.filter fun row => key row ≠ removed

/-- The row of a key is replaced. -/
def update (row : ρ) (rows : List ρ) : List ρ :=
  rows.map fun other => if key other = key row then row else other

/-- The row of a key. -/
def lookup (wanted : κ) (rows : List ρ) : Option ρ := rows.find? fun row => key row = wanted

/-- Rows are added one after the other. -/
def insertAll (news rows : List ρ) : List ρ := news.foldl (fun rows row => insertNew key row rows) rows

variable {key} {row other : ρ} {rows : List ρ} {removed wanted : κ}

/-! ### Inserts -/

theorem mem_insertNew :
    other ∈ insertNew key row rows ↔ other ∈ rows ∨ other = row ∧ key row ∉ rows.map key := by
  unfold insertNew
  by_cases taken : key row ∈ rows.map key
  · rw [if_pos taken]
    simp [taken]
  · rw [if_neg taken, List.mem_append, List.mem_singleton]
    simp [taken]

/-- The keys are those there were and that of the row. -/
theorem mem_map_insertNew :
    wanted ∈ (insertNew key row rows).map key ↔ wanted ∈ rows.map key ∨ wanted = key row := by
  unfold insertNew
  by_cases taken : key row ∈ rows.map key
  · rw [if_pos taken]
    refine ⟨Or.inl, ?_⟩
    rintro (member | rfl)
    · exact member
    · exact taken
  · rw [if_neg taken, List.map_append, List.mem_append]
    simp

theorem nodup_insertNew (distinct : (rows.map key).Nodup) :
    ((insertNew key row rows).map key).Nodup := by
  unfold insertNew
  by_cases taken : key row ∈ rows.map key
  · rw [if_pos taken]
    exact distinct
  · rw [if_neg taken, List.map_append]
    exact List.nodup_append.mpr ⟨distinct, List.nodup_singleton _, by
      intro first member second isRow same
      rw [List.map_singleton, List.mem_singleton] at isRow
      exact taken (isRow ▸ same ▸ member)⟩

/-! ### Deletes -/

theorem mem_without : row ∈ without key removed rows ↔ row ∈ rows ∧ key row ≠ removed := by
  unfold without
  rw [List.mem_filter, decide_eq_true_iff]

theorem mem_map_without :
    wanted ∈ (without key removed rows).map key ↔ wanted ∈ rows.map key ∧ wanted ≠ removed := by
  simp only [List.mem_map, mem_without]
  constructor
  · rintro ⟨row, ⟨member, different⟩, rfl⟩
    exact ⟨⟨row, member, rfl⟩, different⟩
  · rintro ⟨⟨row, member, rfl⟩, different⟩
    exact ⟨row, ⟨member, different⟩, rfl⟩

theorem nodup_without (distinct : (rows.map key).Nodup) :
    ((without key removed rows).map key).Nodup :=
  distinct.sublist (List.filter_sublist.map key)

/-! ### Updates -/

/-- An update changes no key. -/
theorem map_update : (update key row rows).map key = rows.map key := by
  unfold update
  rw [List.map_map]
  refine List.map_congr_left fun other _ => ?_
  by_cases same : key other = key row
  · simp [same]
  · simp [same]

/-! ### The row of a key -/

theorem lookup_eq_none : lookup key wanted rows = none ↔ wanted ∉ rows.map key := by
  unfold lookup
  rw [List.find?_eq_none, List.mem_map]
  simp

theorem key_of_lookup (found : lookup key wanted rows = some row) : key row = wanted := by
  unfold lookup at found
  exact of_decide_eq_true (List.find?_eq_some_iff_append.mp found).1

theorem lookup_eq_some (distinct : (rows.map key).Nodup) :
    lookup key wanted rows = some row ↔ row ∈ rows ∧ key row = wanted := by
  constructor
  · exact fun found => ⟨List.mem_of_find?_eq_some found, key_of_lookup found⟩
  · rintro ⟨member, rfl⟩
    cases found : lookup key (key row) rows with
    | none => exact absurd (List.mem_map_of_mem member) (lookup_eq_none.mp found)
    | some other =>
        have ofOther : other ∈ rows := List.mem_of_find?_eq_some found
        rw [List.inj_on_of_nodup_map distinct ofOther member (key_of_lookup found)]

/-- An ignored insert changes no key; another gives its key the row. -/
theorem lookup_insertNew :
    lookup key wanted (insertNew key row rows) =
      (lookup key wanted rows).or (if key row = wanted then some row else none) := by
  unfold insertNew
  by_cases taken : key row ∈ rows.map key
  · rw [if_pos taken]
    by_cases same : key row = wanted
    · cases found : lookup key wanted rows with
      | none => exact absurd (same ▸ taken) (lookup_eq_none.mp found)
      | some other => rfl
    · rw [if_neg same, Option.or_none]
  · rw [if_neg taken]
    unfold lookup
    rw [List.find?_append]
    by_cases same : key row = wanted
    · simp [same]
    · simp [same]

theorem lookup_without :
    lookup key wanted (without key removed rows) =
      if wanted = removed then none else lookup key wanted rows := by
  unfold lookup without
  rw [List.find?_filter]
  by_cases same : wanted = removed
  · rw [if_pos same, List.find?_eq_none]
    simp [same]
  · rw [if_neg same]
    congr 1
    funext row
    by_cases ofRow : key row = wanted
    · simp [ofRow, same]
    · simp [ofRow]

/-! ### Inserts of many rows -/

theorem insertAll_concat (news : List ρ) :
    insertAll key (news ++ [row]) rows = insertNew key row (insertAll key news rows) := by
  unfold insertAll
  rw [List.foldl_append]
  rfl

/-- A row is there if it was, or if its key was free and it is the first of the new rows with it. -/
theorem mem_insertAll {news : List ρ} :
    row ∈ insertAll key news rows ↔
      row ∈ rows ∨ key row ∉ rows.map key ∧ lookup key (key row) news = some row := by
  induction news generalizing rows with
  | nil => exact (or_iff_left fun new => Option.some_ne_none row new.2.symm).symm
  | cons new news later =>
      have first : insertAll key (new :: news) rows = insertAll key news (insertNew key new rows) := rfl
      have found : lookup key (key row) (new :: news) =
          if key new = key row then some new else lookup key (key row) news := by
        unfold lookup
        rw [List.find?_cons]
        by_cases same : key new = key row
        · simp [same]
        · simp [same]
      rw [first, later, mem_insertNew, mem_map_insertNew, found]
      by_cases same : key new = key row
      · rw [if_pos same, Option.some.injEq, same]
        constructor
        · rintro ((old | ⟨rfl, free⟩) | ⟨apart, -⟩)
          · exact Or.inl old
          · exact Or.inr ⟨free, rfl⟩
          · exact absurd (Or.inr rfl) apart
        · rintro (old | ⟨free, rfl⟩)
          · exact Or.inl (Or.inl old)
          · exact Or.inl (Or.inr ⟨rfl, free⟩)
      · have apart : ¬ key row = key new := fun equal => same equal.symm
        rw [if_neg same, not_or, and_iff_left apart, or_assoc]
        refine or_congr_right (or_iff_right ?_)
        rintro ⟨rfl, -⟩
        exact same rfl

/-- Of rows that differ in their keys each is the one with its key. -/
theorem lookup_eq_some_of_inj {news : List ρ} (apart : ∀ a ∈ news, ∀ b ∈ news, key a = key b → a = b) :
    lookup key (key row) news = some row ↔ row ∈ news := by
  refine ⟨List.mem_of_find?_eq_some, fun member => ?_⟩
  cases found : lookup key (key row) news with
  | none => exact absurd (List.mem_map_of_mem member) (lookup_eq_none.mp found)
  | some other =>
      rw [apart other (List.mem_of_find?_eq_some found) row member (key_of_lookup found)]

theorem mem_insertAll_of_inj {news : List ρ} (apart : ∀ a ∈ news, ∀ b ∈ news, key a = key b → a = b) :
    row ∈ insertAll key news rows ↔ row ∈ rows ∨ key row ∉ rows.map key ∧ row ∈ news := by
  rw [mem_insertAll, lookup_eq_some_of_inj apart]

theorem mem_map_insertAll {news : List ρ} :
    wanted ∈ (insertAll key news rows).map key ↔ wanted ∈ rows.map key ∨ wanted ∈ news.map key := by
  induction news generalizing rows with
  | nil => exact (or_iff_left List.not_mem_nil).symm
  | cons new news later =>
      show wanted ∈ (insertAll key news (insertNew key new rows)).map key ↔ _
      rw [later, mem_map_insertNew, List.map_cons, List.mem_cons, or_assoc]

/-- Rows whose keys are all taken change nothing. -/
theorem insertAll_of_taken {news : List ρ} (taken : ∀ row ∈ news, key row ∈ rows.map key) :
    insertAll key news rows = rows := by
  induction news with
  | nil => rfl
  | cons new news later =>
      have first : insertNew key new rows = rows := if_pos (taken new List.mem_cons_self)
      show insertAll key news (insertNew key new rows) = rows
      rw [first]
      exact later fun row member => taken row (List.mem_cons_of_mem new member)

/-- The same inserts a second time change nothing. -/
theorem insertAll_insertAll (news : List ρ) :
    insertAll key news (insertAll key news rows) = insertAll key news rows :=
  insertAll_of_taken fun _ member => mem_map_insertAll.mpr (Or.inr (List.mem_map_of_mem member))

/-- What holds of the rows holds after inserts exactly if no row is added of which it does not. -/
theorem forall_insertAll_iff {P : ρ → Prop} (every : ∀ row ∈ rows, P row) (news : List ρ) :
    (∀ row ∈ insertAll key news rows, P row) ↔
      ¬ ∃ row, key row ∉ rows.map key ∧ lookup key (key row) news = some row ∧ ¬ P row := by
  constructor
  · rintro still ⟨row, free, first, foreign⟩
    exact foreign (still row (mem_insertAll.mpr (Or.inr ⟨free, first⟩)))
  · intro none row member
    rcases mem_insertAll.mp member with old | ⟨free, first⟩
    · exact every row old
    · by_contra foreign
      exact none ⟨row, free, first, foreign⟩

end Keyed
