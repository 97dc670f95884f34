/-
**The double round of Salsa20 over any kind of words.**

A state is 16 words, four rows of four. A quarter round mixes four words by addition, exclusive or
and rotation.

* `columnRound`, `rowRound`, `doubleRound` — the quarter rounds on the columns and on the rows, each
  from the diagonal on.
* `columnRound_words` — what the columns hold after their round.
* `map_doubleRound` — a map that keeps the three operations on words keeps the double round, so two
  representations of words compute the same one.
* `transpose_columnRound` — transposing turns the round of the columns into that of the rows.
-/

import Mathlib.Data.Fintype.Basic
import Mathlib.Logic.Function.Iterate
import Mathlib.Tactic.FinCases

namespace Arx

/-- The operations on words. -/
structure Ops (W : Type) where
  add : W → W → W
  xor : W → W → W
  rotl : W → Nat → W

/-- Sixteen words, row by row. -/
abbrev Grid (W : Type) := Vector W 16

variable {W V : Type}

section Rounds

variable (ops : Ops W)

/-- The quarter round on four words. -/
def quarter (t0 t1 t2 t3 : W) : W × W × W × W :=
  let t1 := ops.xor t1 (ops.rotl (ops.add t0 t3) 7)
  let t2 := ops.xor t2 (ops.rotl (ops.add t1 t0) 9)
  let t3 := ops.xor t3 (ops.rotl (ops.add t2 t1) 13)
  let t0 := ops.xor t0 (ops.rotl (ops.add t3 t2) 18)
  (t0, t1, t2, t3)

/-- The quarter round on the words at four places. -/
def quarterAt (i0 i1 i2 i3 : Fin 16) (x : Grid W) : Grid W :=
  let t := quarter ops x[i0] x[i1] x[i2] x[i3]
  (((x.set i1 t.2.1).set i2 t.2.2.1).set i3 t.2.2.2).set i0 t.1

def columnRound (x : Grid W) : Grid W :=
  quarterAt ops 15 3 7 11 (quarterAt ops 10 14 2 6 (quarterAt ops 5 9 13 1 (quarterAt ops 0 4 8 12 x)))

def rowRound (x : Grid W) : Grid W :=
  quarterAt ops 15 12 13 14 (quarterAt ops 10 11 8 9 (quarterAt ops 5 6 7 4 (quarterAt ops 0 1 2 3 x)))

def doubleRound (x : Grid W) : Grid W := rowRound ops (columnRound ops x)

theorem quarterAt_other {i0 i1 i2 i3 : Fin 16} (x : Grid W) (i : Fin 16)
    (others : i ≠ i0 ∧ i ≠ i1 ∧ i ≠ i2 ∧ i ≠ i3) : (quarterAt ops i0 i1 i2 i3 x)[i] = x[i] := by
  obtain ⟨h0, h1, h2, h3⟩ := others
  have apart : ∀ {k : Fin 16}, i ≠ k → k.val ≠ i.val := fun different same =>
    different (Fin.ext same.symm)
  simp only [quarterAt, Fin.getElem_fin]
  rw [Vector.getElem_set_ne _ _ (apart h0), Vector.getElem_set_ne _ _ (apart h3),
    Vector.getElem_set_ne _ _ (apart h2), Vector.getElem_set_ne _ _ (apart h1)]

/-- Four places that differ hold the four words. -/
theorem quarterAt_mixed {i0 i1 i2 i3 : Fin 16} (x : Grid W) (apart : [i0, i1, i2, i3].Nodup) :
    let y := quarterAt ops i0 i1 i2 i3 x
    (y[i0], y[i1], y[i2], y[i3]) = quarter ops x[i0] x[i1] x[i2] x[i3] := by
  simp only [List.nodup_cons, List.mem_cons, List.not_mem_nil, or_false, not_or, Fin.ext_iff] at apart
  obtain ⟨⟨h01, h02, h03⟩, ⟨h12, h13⟩, h23, _⟩ := apart
  simp only [quarterAt, Fin.getElem_fin]
  rw [Vector.getElem_set_self, Vector.getElem_set_ne _ _ h01, Vector.getElem_set_ne _ _ (Ne.symm h13),
    Vector.getElem_set_ne _ _ (Ne.symm h12), Vector.getElem_set_self, Vector.getElem_set_ne _ _ h02,
    Vector.getElem_set_ne _ _ (Ne.symm h23), Vector.getElem_set_self, Vector.getElem_set_ne _ _ h03,
    Vector.getElem_set_self]

/-- The words that the round of the columns leaves, column by column. -/
theorem columnRound_words (x : Grid W) :
    let y := columnRound ops x
    (y[(0 : Fin 16)], y[(4 : Fin 16)], y[(8 : Fin 16)], y[(12 : Fin 16)]) =
        quarter ops x[(0 : Fin 16)] x[(4 : Fin 16)] x[(8 : Fin 16)] x[(12 : Fin 16)] ∧
      (y[(5 : Fin 16)], y[(9 : Fin 16)], y[(13 : Fin 16)], y[(1 : Fin 16)]) =
        quarter ops x[(5 : Fin 16)] x[(9 : Fin 16)] x[(13 : Fin 16)] x[(1 : Fin 16)] ∧
      (y[(10 : Fin 16)], y[(14 : Fin 16)], y[(2 : Fin 16)], y[(6 : Fin 16)]) =
        quarter ops x[(10 : Fin 16)] x[(14 : Fin 16)] x[(2 : Fin 16)] x[(6 : Fin 16)] ∧
      (y[(15 : Fin 16)], y[(3 : Fin 16)], y[(7 : Fin 16)], y[(11 : Fin 16)]) =
        quarter ops x[(15 : Fin 16)] x[(3 : Fin 16)] x[(7 : Fin 16)] x[(11 : Fin 16)] := by
  intro y
  -- The quarter rounds before a column's have not touched it, and those after it leave it.
  have other := @quarterAt_other W ops
  have mixed := @quarterAt_mixed W ops
  refine ⟨?_, ?_, ?_, ?_⟩
  · rw [← mixed x (by decide : [(0 : Fin 16), 4, 8, 12].Nodup)]
    simp only [y, columnRound]
    rw [other _ 0 (by decide), other _ 0 (by decide), other _ 0 (by decide),
      other _ 4 (by decide), other _ 4 (by decide), other _ 4 (by decide),
      other _ 8 (by decide), other _ 8 (by decide), other _ 8 (by decide),
      other _ 12 (by decide), other _ 12 (by decide), other _ 12 (by decide)]
  · have here := mixed (quarterAt ops 0 4 8 12 x) (by decide : [(5 : Fin 16), 9, 13, 1].Nodup)
    rw [other x 5 (by decide), other x 9 (by decide), other x 13 (by decide),
      other x 1 (by decide)] at here
    rw [← here]
    simp only [y, columnRound]
    rw [other _ 5 (by decide), other _ 5 (by decide), other _ 9 (by decide), other _ 9 (by decide),
      other _ 13 (by decide), other _ 13 (by decide), other _ 1 (by decide), other _ 1 (by decide)]
  · have here := mixed (quarterAt ops 5 9 13 1 (quarterAt ops 0 4 8 12 x))
      (by decide : [(10 : Fin 16), 14, 2, 6].Nodup)
    rw [other _ 10 (by decide), other x 10 (by decide), other _ 14 (by decide),
      other x 14 (by decide), other _ 2 (by decide), other x 2 (by decide), other _ 6 (by decide),
      other x 6 (by decide)] at here
    rw [← here]
    simp only [y, columnRound]
    rw [other _ 10 (by decide), other _ 14 (by decide), other _ 2 (by decide), other _ 6 (by decide)]
  · have here := mixed (quarterAt ops 10 14 2 6 (quarterAt ops 5 9 13 1 (quarterAt ops 0 4 8 12 x)))
      (by decide : [(15 : Fin 16), 3, 7, 11].Nodup)
    rw [other _ 15 (by decide), other _ 15 (by decide), other x 15 (by decide),
      other _ 3 (by decide), other _ 3 (by decide), other x 3 (by decide),
      other _ 7 (by decide), other _ 7 (by decide), other x 7 (by decide),
      other _ 11 (by decide), other _ 11 (by decide), other x 11 (by decide)] at here
    rw [← here]
    rfl

end Rounds

/-! ### Two representations of words -/

/-- A map that keeps the operations. -/
structure Keeps (first : Ops W) (second : Ops V) (f : W → V) : Prop where
  add : ∀ x y, f (first.add x y) = second.add (f x) (f y)
  xor : ∀ x y, f (first.xor x y) = second.xor (f x) (f y)
  rotl : ∀ x n, n < 32 → f (first.rotl x n) = second.rotl (f x) n

section Keeps

variable {first : Ops W} {second : Ops V} {f : W → V}

theorem Keeps.quarter (keeps : Keeps first second f) (t0 t1 t2 t3 : W) :
    quarter second (f t0) (f t1) (f t2) (f t3) =
      (quarter first t0 t1 t2 t3).map f (Prod.map f (Prod.map f f)) := by
  simp only [Arx.quarter, Prod.map_apply, keeps.xor, keeps.add, keeps.rotl _ 7 (by decide),
    keeps.rotl _ 9 (by decide), keeps.rotl _ 13 (by decide), keeps.rotl _ 18 (by decide)]

theorem map_quarterAt (keeps : Keeps first second f) (i0 i1 i2 i3 : Fin 16) (x : Grid W) :
    (quarterAt first i0 i1 i2 i3 x).map f = quarterAt second i0 i1 i2 i3 (x.map f) := by
  have word : ∀ i : Fin 16, (x.map f)[i] = f x[i] := fun i => Vector.getElem_map f i.isLt
  simp only [quarterAt, Vector.map_set, word, keeps.quarter, Prod.map_fst, Prod.map_snd]

theorem map_doubleRound (keeps : Keeps first second f) (x : Grid W) :
    (doubleRound first x).map f = doubleRound second (x.map f) := by
  simp only [doubleRound, rowRound, columnRound, map_quarterAt keeps]

/-- Any number of double rounds. -/
theorem map_iterate_doubleRound (keeps : Keeps first second f) (count : Nat) (x : Grid W) :
    ((doubleRound first)^[count] x).map f = (doubleRound second)^[count] (x.map f) := by
  induction count generalizing x with
  | zero => rfl
  | succ count ih =>
      rw [Function.iterate_succ_apply, Function.iterate_succ_apply, ih, map_doubleRound keeps]

end Keeps

/-! ### Rows and columns -/

/-- The words in another order. -/
def reindex (order : Fin 16 → Fin 16) (x : Grid W) : Grid W := Vector.ofFn fun i => x[order i]

theorem getElem_reindex (order : Fin 16 → Fin 16) (x : Grid W) (i : Fin 16) :
    (reindex order x)[i] = x[order i] := Vector.getElem_ofFn i.isLt

theorem reindex_set {order : Fin 16 → Fin 16} (injective : Function.Injective order) (x : Grid W)
    (i : Fin 16) (word : W) :
    reindex order (x.set (order i) word) = (reindex order x).set i word := by
  apply Vector.ext
  intro k inside
  have moved := getElem_reindex order (x.set (order i) word) ⟨k, inside⟩
  have plain := getElem_reindex order x ⟨k, inside⟩
  rw [Fin.getElem_fin] at moved plain
  rw [moved, Vector.getElem_set]
  by_cases here : i = ⟨k, inside⟩
  · subst here
    rw [if_pos rfl, Fin.getElem_fin, Vector.getElem_set_self]
  · have apart : (order i).val ≠ (order ⟨k, inside⟩).val := fun same =>
      here (injective (Fin.ext same))
    rw [if_neg fun same => here (Fin.ext same), Fin.getElem_fin, Vector.getElem_set_ne _ _ apart, plain,
      Fin.getElem_fin]

/-- A quarter round on reordered words is that on the words they were. -/
theorem reindex_quarterAt (ops : Ops W) {order : Fin 16 → Fin 16}
    (injective : Function.Injective order) (i0 i1 i2 i3 : Fin 16) (x : Grid W) :
    reindex order (quarterAt ops (order i0) (order i1) (order i2) (order i3) x) =
      quarterAt ops i0 i1 i2 i3 (reindex order x) := by
  simp only [quarterAt, reindex_set injective, getElem_reindex]

/-- The place of a word in the transposed state. -/
def transposed (i : Fin 16) : Fin 16 := ⟨4 * (i.val % 4) + i.val / 4, by omega⟩

theorem transposed_transposed (i : Fin 16) : transposed (transposed i) = i := by
  apply Fin.ext
  show 4 * ((4 * (i.val % 4) + i.val / 4) % 4) + (4 * (i.val % 4) + i.val / 4) / 4 = i.val
  omega

theorem transposed_injective : Function.Injective transposed :=
  Function.LeftInverse.injective transposed_transposed

/-- Exchange rows and columns. -/
def transpose (x : Grid W) : Grid W := reindex transposed x

theorem transpose_words (x : Grid W) :
    transpose x = #v[x[(0 : Fin 16)], x[(4 : Fin 16)], x[(8 : Fin 16)], x[(12 : Fin 16)],
      x[(1 : Fin 16)], x[(5 : Fin 16)], x[(9 : Fin 16)], x[(13 : Fin 16)],
      x[(2 : Fin 16)], x[(6 : Fin 16)], x[(10 : Fin 16)], x[(14 : Fin 16)],
      x[(3 : Fin 16)], x[(7 : Fin 16)], x[(11 : Fin 16)], x[(15 : Fin 16)]] := by
  have word : ∀ i : Fin 16, x[transposed i] = #v[x[(0 : Fin 16)], x[(4 : Fin 16)], x[(8 : Fin 16)],
      x[(12 : Fin 16)], x[(1 : Fin 16)], x[(5 : Fin 16)], x[(9 : Fin 16)], x[(13 : Fin 16)],
      x[(2 : Fin 16)], x[(6 : Fin 16)], x[(10 : Fin 16)], x[(14 : Fin 16)],
      x[(3 : Fin 16)], x[(7 : Fin 16)], x[(11 : Fin 16)], x[(15 : Fin 16)]][i] := by
    intro i
    fin_cases i <;> rfl
  apply Vector.ext
  intro i inside
  exact (getElem_reindex transposed x ⟨i, inside⟩).trans (word ⟨i, inside⟩)

theorem transpose_transpose (x : Grid W) : transpose (transpose x) = x := by
  apply Vector.ext
  intro k inside
  have outer := getElem_reindex transposed (transpose x) ⟨k, inside⟩
  have inner := getElem_reindex transposed x (transposed ⟨k, inside⟩)
  have back := congrArg (fun i : Fin 16 => x[i]) (transposed_transposed ⟨k, inside⟩)
  exact (outer.trans inner).trans back

/-- The columns are the rows of the transposed state. -/
theorem transpose_columnRound (ops : Ops W) (x : Grid W) :
    transpose (columnRound ops x) = rowRound ops (transpose x) := by
  have moved := @reindex_quarterAt W ops transposed transposed_injective
  unfold columnRound rowRound transpose
  rw [← moved 0 1 2 3 x, ← moved 5 6 7 4, ← moved 10 11 8 9, ← moved 15 12 13 14]
  rfl

/-- Two rounds of the columns with a transposition after each are a double round. -/
theorem transpose_columnRound_twice (ops : Ops W) (x : Grid W) :
    transpose (columnRound ops (transpose (columnRound ops x))) = doubleRound ops x := by
  rw [transpose_columnRound ops (transpose _), transpose_transpose]
  rfl

end Arx
