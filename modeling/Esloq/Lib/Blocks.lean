/-
**Messages in blocks, and the polynomial of their blocks.**

* `blocks size message` — the message in parts of `size` entries, the last one shorter.
* `mark block` — the number that a block of bytes spells with a 1 behind it.
* `polynomial r coefficients` — the sum of the coefficients times powers of `r`, the last of them
  times `r` itself. `polynomial_concat` is Horner's step, `foldl_horner` the loop of such steps, and
  `foldl_horner_mod` lets the loop run modulo a number.
-/

import Esloq.Lib.LittleEndian
import Mathlib.Algebra.BigOperators.Fin

namespace Blocks

/-! ### Blocks -/

section Blocks

variable {α : Type}

/-- A message in parts of `size` entries. -/
def blocks (size : Nat) (message : List α) : List (List α) :=
  if 0 < size ∧ 0 < message.length then
    message.take size :: blocks size (message.drop size)
  else []
termination_by message.length
decreasing_by
  rw [List.length_drop]
  omega

theorem blocks_nil (size : Nat) : blocks size ([] : List α) = [] := by
  unfold blocks
  exact if_neg fun both => absurd both.2 (Nat.lt_irrefl 0)

theorem blocks_of_pos {size : Nat} (positive : 0 < size) {message : List α}
    (nonempty : 0 < message.length) :
    blocks size message = message.take size :: blocks size (message.drop size) := by
  rw [blocks, if_pos ⟨positive, nonempty⟩]

end Blocks

/-! ### A mark behind every block -/

/-- The number that a block spells with a 1 behind it. -/
def mark (block : List UInt8) : Nat := LittleEndian.value block + 256 ^ block.length

theorem mark_lt {block : List UInt8} {size : Nat} (short : block.length ≤ size) :
    mark block < 2 * 256 ^ size := by
  have bound := LittleEndian.value_lt block
  have scale := Nat.pow_le_pow_right (show 0 < 256 by decide) short
  unfold mark
  omega

/-! ### The polynomial of the blocks -/

section Polynomial

variable {R : Type} [CommSemiring R]

/-- The first coefficient times the highest power of `r`, the last one times `r`. -/
def polynomial (r : R) (coefficients : List R) : R :=
  ∑ i : Fin coefficients.length, coefficients[i] * r ^ (coefficients.length - i.val)

@[simp] theorem polynomial_nil (r : R) : polynomial r [] = 0 := rfl

theorem polynomial_cons (r first : R) (rest : List R) :
    polynomial r (first :: rest) = first * r ^ (rest.length + 1) + polynomial r rest := by
  unfold polynomial
  show ∑ i : Fin (rest.length + 1), (first :: rest)[i.val] * r ^ (rest.length + 1 - i.val) = _
  rw [Fin.sum_univ_succ]
  refine congrArg₂ (· + ·) rfl (Finset.sum_congr rfl fun i _ => ?_)
  have power : rest.length + 1 - i.succ.val = rest.length - i.val := by
    rw [Fin.val_succ]
    omega
  rw [power]
  rfl

/-- Horner's step. -/
theorem polynomial_concat (r : R) (coefficients : List R) (last : R) :
    polynomial r (coefficients ++ [last]) = (polynomial r coefficients + last) * r := by
  induction coefficients with
  | nil =>
      rw [List.nil_append, polynomial_cons, polynomial_nil]
      simp
  | cons first rest ih =>
      rw [List.cons_append, polynomial_cons, polynomial_cons, ih, List.length_append,
        List.length_singleton]
      ring

end Polynomial

/-- A loop of Horner's steps computes the polynomial. -/
theorem foldl_horner {α : Type} (r : Nat) (number : α → Nat) (blocks : List α) :
    blocks.foldl (fun h block => (h + number block) * r) 0 = polynomial r (blocks.map number) := by
  induction blocks using List.reverseRecOn with
  | nil => rfl
  | append_singleton rest last ih =>
      rw [List.foldl_concat, List.map_append, List.map_singleton, polynomial_concat, ih]

/-- Up to a modulus the loop depends on its start up to the modulus. -/
theorem foldl_horner_mod {α : Type} (modulus r : Nat) (number : α → Nat) (blocks : List α)
    {first second : Nat} (same : first % modulus = second % modulus) :
    blocks.foldl (fun h block => (h + number block) * r) first % modulus =
      blocks.foldl (fun h block => (h + number block) * r) second % modulus := by
  induction blocks generalizing first second with
  | nil => exact same
  | cons block rest ih =>
      refine ih ?_
      show (first + number block) * r % modulus = (second + number block) * r % modulus
      rw [Nat.mul_mod, Nat.add_mod, same, ← Nat.add_mod, ← Nat.mul_mod]

end Blocks
