/-
**The big integers of the app's NaCl (`shared/bigint.c`).**

The app is built with a copy of NaCl for machines of 8 bits: a number is an array of bytes, least
significant first.

* `bigintAdd` — the sum and the carry out of it (`value_bigintAdd`).
* `bigintMul` — the product, row by row (`value_bigintMul`).
* `bigintSub` — the difference and the borrow, for a type `crypto_uint16` of any width. In 16 bits
  it is the difference (`value_bigintSub`). The header makes it `unsigned int`, and there the
  difference is right exactly if no byte before the last one borrows
  (`bigintSub_unsignedInt_iff`).
-/

import Esloq.Lib.BigEndian
import Esloq.Lib.LittleEndian

namespace Esloq.Nacl

open LittleEndian

/-! ### Addition -/

/-- The loop of `bigint_add` over the bytes that are left: what is written, and `tmp` at the end. -/
def addBytes : List UInt8 → List UInt8 → Nat → List UInt8 × Nat
  | x :: a, y :: b, tmp =>
      let tmp := x.toNat + y.toNat + tmp
      let rest := addBytes a b (tmp >>> 8)
      (UInt8.ofNat (tmp &&& 0xff) :: rest.1, rest.2)
  | _, _, tmp => ([], tmp)

theorem length_addBytes : ∀ {a b : List UInt8} (tmp : Nat), a.length = b.length →
    (addBytes a b tmp).1.length = a.length
  | [], _, _, _ => rfl
  | _ :: _, [], _, sized => by cases sized
  | _ :: _, _ :: _, _, sized => congrArg Nat.succ (length_addBytes _ (Nat.succ.inj sized))

/-- A number below 2^16 in two bytes. -/
theorem low_add_high (n : Nat) : (UInt8.ofNat (n &&& 0xff)).toNat + 256 * (n >>> 8) = n := by
  have low : n &&& 0xff = n % 256 := Nat.and_two_pow_sub_one_eq_mod n 8
  rw [UInt8.toNat_ofNat', low, Nat.shiftRight_eq_div_pow]
  omega

theorem value_addBytes : ∀ {a b : List UInt8} (tmp : Nat), a.length = b.length →
    value (addBytes a b tmp).1 + 256 ^ a.length * (addBytes a b tmp).2 = value a + value b + tmp
  | [], b, tmp, sized => by
      rw [List.length_eq_zero_iff.mp sized.symm]
      show 0 + 256 ^ 0 * tmp = 0 + 0 + tmp
      omega
  | _ :: _, [], _, sized => by cases sized
  | x :: a, y :: b, tmp, sized => by
      have later := @value_addBytes a b ((x.toNat + y.toNat + tmp) >>> 8) (Nat.succ.inj sized)
      have here := low_add_high (x.toNat + y.toNat + tmp)
      simp only [addBytes, value_cons, List.length_cons, pow_succ', Nat.mul_assoc]
      omega

variable {len : Nat}

/-- `bigint_add`: the array `r`, and the returned carry. -/
def bigintAdd (a b : Bytes len) : Bytes len × UInt8 :=
  (⟨(addBytes a.toList b.toList 0).1, by
    rw [length_addBytes 0 (by rw [List.Vector.toList_length, List.Vector.toList_length]),
      List.Vector.toList_length]⟩,
   UInt8.ofNat (addBytes a.toList b.toList 0).2)

theorem value_bigintAdd (a b : Bytes len) :
    value (bigintAdd a b).1.toList + 256 ^ len * (bigintAdd a b).2.toNat =
      value a.toList + value b.toList := by
  have sized : a.toList.length = b.toList.length := by
    rw [List.Vector.toList_length, List.Vector.toList_length]
  have sum := value_addBytes 0 sized
  have boundA := value_lt a.toList
  have boundB := value_lt b.toList
  rw [List.Vector.toList_length] at sum boundA boundB
  have carry : (addBytes a.toList b.toList 0).2 < 2 := by
    by_contra large
    have := Nat.mul_le_mul_left (256 ^ len) (Nat.not_lt.mp large)
    omega
  show value (addBytes a.toList b.toList 0).1 +
    256 ^ len * (UInt8.ofNat (addBytes a.toList b.toList 0).2).toNat = _
  rw [UInt8.toNat_ofNat', Nat.mod_eq_of_lt (by omega)]
  exact sum

/-- Without the carry the sum is taken modulo the size of the array. -/
theorem value_bigintAdd_mod (a b : Bytes len) :
    value (bigintAdd a b).1.toList = (value a.toList + value b.toList) % 256 ^ len := by
  have bound := value_lt (bigintAdd a b).1.toList
  rw [List.Vector.toList_length] at bound
  rw [← value_bigintAdd a b, Nat.add_mul_mod_self_left, Nat.mod_eq_of_lt bound]

/-! ### Multiplication -/

/-- The inner loop of `bigint_mul` for `a[i] = x`, with the store to `r[i+len]` behind it: `r` is the
array from `r[i+j]` on, `b` what is left of `b` from `b[j]` on. -/
def mulRow (x : UInt8) : List UInt8 → List UInt8 → Nat → List UInt8
  | z :: r, y :: b, t =>
      -- At most 255 + 255 * 255 + 255, which fits every `crypto_uint16`.
      let t := z.toNat + x.toNat * y.toNat + (t >>> 8)
      UInt8.ofNat (t &&& 0xff) :: mulRow x r b t
  | _ :: r, [], t => UInt8.ofNat (t >>> 8) :: r
  | [], _, _ => []

/-- The outer loop: `r` is the array from `r[i]` on, `a` what is left of `a` from `a[i]` on. -/
def mulRows (b : List UInt8) : List UInt8 → List UInt8 → List UInt8
  | x :: a, r =>
      match mulRow x r b 0 with
      | z :: r => z :: mulRows b a r
      | [] => []
  | [], r => r

theorem length_mulRow (x : UInt8) : ∀ (r b : List UInt8) (t : Nat),
    (mulRow x r b t).length = r.length
  | [], _, _ => by rw [mulRow]
  | _ :: _, [], _ => rfl
  | _ :: r, _ :: b, _ => congrArg Nat.succ (length_mulRow x r b _)

theorem length_mulRows (b : List UInt8) : ∀ (a r : List UInt8), (mulRows b a r).length = r.length
  | [], _ => rfl
  | x :: a, r => by
      have row := length_mulRow x r b 0
      unfold mulRows
      split
      · rename_i z rest made
        rw [made] at row
        rw [List.length_cons, length_mulRows b a rest]
        exact row
      · rename_i made
        rw [made] at row
        exact row

/-- `bigint_mul`. -/
def bigintMul (a b : Bytes len) : Bytes (2 * len) :=
  ⟨mulRows b.toList a.toList (List.replicate (2 * len) 0), by
    rw [length_mulRows, List.length_replicate]⟩

/-- Behind the byte that a row ends in nothing changes. -/
theorem drop_mulRow (x : UInt8) : ∀ (r b : List UInt8) (t : Nat),
    (mulRow x r b t).drop (b.length + 1) = r.drop (b.length + 1)
  | [], _, _ => by rw [mulRow]
  | _ :: _, [], _ => rfl
  | _ :: r, _ :: b, _ => drop_mulRow x r b _

/-- A row adds the product of one byte, where the byte it ends in is still zero. -/
theorem value_mulRow (x : UInt8) : ∀ {r b : List UInt8} (t : Nat), t < 2 ^ 16 →
    b.length < r.length → (∀ byte ∈ r.drop b.length, byte = 0) →
    value (mulRow x r b t) = value r + x.toNat * value b + (t >>> 8)
  | [], _, _, _, room, _ => absurd room (Nat.not_lt_zero _)
  | z :: r, [], t, small, _, zeros => by
      have zero : z = 0 := zeros z List.mem_cons_self
      have high : t >>> 8 < 256 := by
        rw [Nat.shiftRight_eq_div_pow]
        omega
      rw [mulRow, value_cons, value_cons, UInt8.toNat_ofNat', Nat.mod_eq_of_lt high, zero]
      simp
      omega
  | z :: r, y :: b, t, small, room, zeros => by
      have product : x.toNat * y.toNat ≤ 255 * 255 :=
        Nat.mul_le_mul (Nat.le_of_lt_succ x.toNat_lt) (Nat.le_of_lt_succ y.toNat_lt)
      have bound := z.toNat_lt
      have high : t >>> 8 < 256 := by
        rw [Nat.shiftRight_eq_div_pow]
        omega
      have later := @value_mulRow x r b (z.toNat + x.toNat * y.toNat + (t >>> 8)) (by omega)
        (Nat.lt_of_succ_lt_succ room) zeros
      have here := low_add_high (z.toNat + x.toNat * y.toNat + (t >>> 8))
      rw [mulRow, value_cons, value_cons, value_cons, later, Nat.mul_add x.toNat,
        Nat.mul_left_comm x.toNat 256]
      omega

/-- The rows together add the product. -/
theorem value_mulRows (b : List UInt8) : ∀ {a r : List UInt8}, a.length + b.length ≤ r.length →
    (∀ byte ∈ r.drop b.length, byte = 0) →
    value (mulRows b a r) = value r + value a * value b
  | [], r, _, _ => by
      rw [mulRows, value_nil]
      omega
  | x :: a, r, room, zeros => by
      have wide : b.length < r.length := by
        rw [List.length_cons] at room
        omega
      have row := value_mulRow x 0 (by decide) wide zeros
      have kept := drop_mulRow x r b 0
      have sized := length_mulRow x r b 0
      unfold mulRows
      split
      · rename_i z rest made
        rw [made] at row kept sized
        have still : ∀ byte ∈ rest.drop b.length, byte = 0 := by
          intro byte member
          refine zeros byte ?_
          have behind : byte ∈ r.drop (b.length + 1) := by
            rw [← kept]
            exact member
          rw [Nat.add_comm, ← List.drop_drop] at behind
          exact List.mem_of_mem_drop (by rwa [List.drop_drop, Nat.add_comm, ← List.drop_drop] at behind)
        have later := @value_mulRows b a rest (by
          rw [List.length_cons] at room sized
          omega) still
        rw [value_cons] at row ⊢
        rw [value_cons, later, Nat.add_mul, Nat.mul_assoc]
        omega
      · rename_i made
        rw [made] at sized
        rw [← sized] at wide
        exact absurd wide (Nat.not_lt_zero _)

theorem value_bigintMul (a b : Bytes len) :
    value (bigintMul a b).toList = value a.toList * value b.toList := by
  have rows := @value_mulRows b.toList a.toList (List.replicate (2 * len) 0) (by
    rw [List.Vector.toList_length, List.Vector.toList_length, List.length_replicate]
    omega) (by
    intro byte member
    exact List.eq_of_mem_replicate (List.mem_of_mem_drop member))
  rw [value_replicate_zero, Nat.zero_add] at rows
  exact rows

/-! ### Subtraction -/

/-- The loop of `bigint_sub` over the bytes that are left, for a type `crypto_uint16` of `width` bits. -/
def subBytes {width : Nat} : List UInt8 → List UInt8 → BitVec width → List UInt8 × BitVec width
  | x :: a, y :: b, tmp =>
      let tmp := BitVec.ofNat width x.toNat - BitVec.ofNat width y.toNat - tmp
      let rest := subBytes a b (tmp >>> 15)
      (UInt8.ofNat (tmp &&& BitVec.ofNat width 0xff).toNat :: rest.1, rest.2)
  | _, _, tmp => ([], tmp)

theorem length_subBytes {width : Nat} : ∀ {a b : List UInt8} (tmp : BitVec width),
    a.length = b.length → (subBytes a b tmp).1.length = a.length
  | [], _, _, _ => rfl
  | _ :: _, [], _, sized => by cases sized
  | _ :: _, _ :: _, _, sized => congrArg Nat.succ (length_subBytes _ (Nat.succ.inj sized))

/-- `bigint_sub`: the array `r`, and the returned borrow. -/
def bigintSub (width : Nat) (a b : Bytes len) : Bytes len × UInt8 :=
  (⟨(subBytes a.toList b.toList (BitVec.ofNat width 0)).1, by
    rw [length_subBytes _ (by rw [List.Vector.toList_length, List.Vector.toList_length]),
      List.Vector.toList_length]⟩,
   UInt8.ofNat (subBytes a.toList b.toList (BitVec.ofNat width 0)).2.toNat)

/-- One byte in 16 bits: bit 15 is the borrow. -/
theorem sub_byte_16 (x y : UInt8) {tmp : BitVec 16} (borrow : tmp.toNat ≤ 1) :
    let difference := BitVec.ofNat 16 x.toNat - BitVec.ofNat 16 y.toNat - tmp
    (difference >>> 15).toNat ≤ 1 ∧
      x.toNat + 256 * (difference >>> 15).toNat =
        y.toNat + tmp.toNat + (UInt8.ofNat (difference &&& 0xff#16).toNat).toNat := by
  intro difference
  have boundX := x.toNat_lt
  have boundY := y.toNat_lt
  have low : (difference &&& 0xff#16).toNat = difference.toNat % 256 := by
    rw [BitVec.toNat_and]
    exact Nat.and_two_pow_sub_one_eq_mod _ 8
  have exact16 : difference.toNat = (65536 - tmp.toNat + (65536 - y.toNat + x.toNat) % 65536) % 65536 := by
    simp only [difference, BitVec.toNat_sub, BitVec.toNat_ofNat]
    omega
  rw [UInt8.toNat_ofNat', low, BitVec.toNat_ushiftRight, Nat.shiftRight_eq_div_pow, exact16]
  omega

theorem value_subBytes_16 : ∀ {a b : List UInt8} {tmp : BitVec 16}, a.length = b.length →
    tmp.toNat ≤ 1 →
    value a + 256 ^ a.length * (subBytes a b tmp).2.toNat =
      value b + value (subBytes a b tmp).1 + tmp.toNat
  | [], b, tmp, sized, _ => by
      rw [List.length_eq_zero_iff.mp sized.symm]
      show 0 + 256 ^ 0 * tmp.toNat = 0 + 0 + tmp.toNat
      omega
  | _ :: _, [], _, sized, _ => by cases sized
  | x :: a, y :: b, tmp, sized, borrow => by
      obtain ⟨small, here⟩ := sub_byte_16 x y borrow
      have later := value_subBytes_16 (Nat.succ.inj sized) small
      simp only [subBytes, value_cons, List.length_cons, pow_succ', Nat.mul_assoc]
      omega

/-- **In 16 bits `bigint_sub` is the difference**, and returns 1 exactly if it borrows. -/
theorem value_bigintSub (a b : Bytes len) :
    value a.toList + 256 ^ len * (bigintSub 16 a b).2.toNat =
      value b.toList + value (bigintSub 16 a b).1.toList := by
  have sized : a.toList.length = b.toList.length := by
    rw [List.Vector.toList_length, List.Vector.toList_length]
  have difference := @value_subBytes_16 a.toList b.toList 0#16 sized (by decide)
  have boundB := value_lt b.toList
  have boundR := value_lt (subBytes a.toList b.toList 0#16).1
  rw [length_subBytes _ sized] at boundR
  rw [List.Vector.toList_length] at difference boundB boundR
  have borrow : (subBytes a.toList b.toList 0#16).2.toNat < 2 := by
    by_contra large
    have := Nat.mul_le_mul_left (256 ^ len) (Nat.not_lt.mp large)
    simp only [BitVec.toNat_ofNat, Nat.zero_mod] at difference
    omega
  show value a.toList + 256 ^ len * (UInt8.ofNat _).toNat = _ + value (subBytes a.toList b.toList 0#16).1
  rw [UInt8.toNat_ofNat', Nat.mod_eq_of_lt (by omega)]
  exact difference

/-- One byte in 32 bits: without a borrow nothing is owed; with one, 2^17 - 1. -/
theorem sub_byte_32 (x y : UInt8) :
    let difference := BitVec.ofNat 32 x.toNat - BitVec.ofNat 32 y.toNat - 0#32
    (UInt8.ofNat (difference &&& 0xff#32).toNat).toNat = (x.toNat + 256 - y.toNat) % 256 ∧
      difference >>> 15 = if y.toNat ≤ x.toNat then 0#32 else 0x1ffff#32 := by
  intro difference
  have boundX := x.toNat_lt
  have boundY := y.toNat_lt
  have low : (difference &&& 0xff#32).toNat = difference.toNat % 256 := by
    rw [BitVec.toNat_and]
    exact Nat.and_two_pow_sub_one_eq_mod _ 8
  have exact32 : difference.toNat = (4294967296 - y.toNat + x.toNat) % 4294967296 := by
    simp only [difference, BitVec.toNat_sub, BitVec.toNat_ofNat]
    omega
  constructor
  · rw [UInt8.toNat_ofNat', low, exact32]
    omega
  · apply BitVec.eq_of_toNat_eq
    rw [BitVec.toNat_ushiftRight, Nat.shiftRight_eq_div_pow, exact32]
    by_cases enough : y.toNat ≤ x.toNat
    · rw [if_pos enough, BitVec.toNat_ofNat]
      omega
    · rw [if_neg enough, BitVec.toNat_ofNat]
      omega

/-- The byte after a borrow is too large by two. -/
theorem sub_byte_borrowed (x y : UInt8) :
    (UInt8.ofNat ((BitVec.ofNat 32 x.toNat - BitVec.ofNat 32 y.toNat - 0x1ffff#32) &&&
      0xff#32).toNat).toNat = (x.toNat + 257 - y.toNat) % 256 := by
  have boundX := x.toNat_lt
  have boundY := y.toNat_lt
  rw [UInt8.toNat_ofNat', BitVec.toNat_and]
  have low := Nat.and_two_pow_sub_one_eq_mod
    (BitVec.ofNat 32 x.toNat - BitVec.ofNat 32 y.toNat - 0x1ffff#32).toNat 8
  rw [show (0xff#32).toNat = 2 ^ 8 - 1 from rfl, low]
  simp only [BitVec.toNat_sub, BitVec.toNat_ofNat]
  omega

/-- The difference of two strings of one length, modulo the size of the array. -/
def difference (a b : List UInt8) : Nat :=
  (value a + 256 ^ a.length - value b) % 256 ^ a.length

theorem difference_cons {x y : UInt8} {a b : List UInt8} (sized : a.length = b.length)
    (enough : y.toNat ≤ x.toNat) :
    difference (x :: a) (y :: b) = x.toNat - y.toNat + 256 * difference a b := by
  have boundX := x.toNat_lt
  have boundB := value_lt b
  rw [← sized] at boundB
  unfold difference
  rw [value_cons, value_cons, List.length_cons, pow_succ', Nat.mod_mul]
  have whole : x.toNat + 256 * value a + 256 * 256 ^ a.length - (y.toNat + 256 * value b) =
      x.toNat - y.toNat + 256 * (value a + 256 ^ a.length - value b) := by omega
  rw [whole, Nat.add_mul_mod_self_left, Nat.mod_eq_of_lt (by omega),
    Nat.add_mul_div_left _ _ (by decide), Nat.div_eq_of_lt (by omega), Nat.zero_add]

/-- With a borrow out of the first byte, the second is one less. -/
theorem difference_borrowed {x y x' y' : UInt8} {a b : List UInt8} (sized : a.length = b.length)
    (less : x.toNat < y.toNat) :
    difference (x :: x' :: a) (y :: y' :: b) / 256 % 256 = (x'.toNat + 255 - y'.toNat) % 256 := by
  have boundX := x.toNat_lt
  have boundY := y.toNat_lt
  have boundX' := x'.toNat_lt
  have boundY' := y'.toNat_lt
  have boundB := value_lt b
  rw [← sized] at boundB
  unfold difference
  simp only [value_cons, List.length_cons]
  have size : 256 ^ (a.length + 1 + 1) = 256 * 256 * 256 ^ a.length := by ring
  rw [size, ← Nat.mod_mul_right_div_self, Nat.mod_mod_of_dvd _ (Dvd.intro _ rfl)]
  omega

theorem subBytes_right_iff : ∀ {a b : List UInt8}, a.length = b.length →
    (value (subBytes a b 0#32).1 = difference a b ↔
      ∀ k < a.length, value (b.take k) ≤ value (a.take k))
  | [], b, sized => by
      rw [List.length_eq_zero_iff.mp sized.symm]
      exact iff_of_true rfl fun _ outside => absurd outside (Nat.not_lt_zero _)
  | _ :: _, [], sized => by cases sized
  | x :: a, y :: b, sized => by
      have tails := Nat.succ.inj sized
      have boundX := x.toNat_lt
      have boundY := y.toNat_lt
      obtain ⟨byte, owed⟩ := sub_byte_32 x y
      by_cases enough : y.toNat ≤ x.toNat
      · rw [if_pos enough] at owed
        have later := subBytes_right_iff tails
        simp only [subBytes, value_cons]
        rw [owed, byte, difference_cons tails enough]
        have head : (x.toNat + 256 - y.toNat) % 256 = x.toNat - y.toNat := by omega
        rw [head, Nat.add_left_cancel_iff, Nat.mul_left_cancel_iff (by decide), later]
        constructor
        · intro fine k inside
          cases k with
          | zero => exact Nat.le_refl _
          | succ k =>
              have below := fine k (Nat.lt_of_succ_lt_succ inside)
              rw [List.take_succ_cons, List.take_succ_cons, value_cons, value_cons]
              omega
        · intro fine k inside
          have below := fine (k + 1) (Nat.succ_lt_succ inside)
          rw [List.take_succ_cons, List.take_succ_cons, value_cons, value_cons] at below
          omega
      · rw [if_neg enough] at owed
        have less := Nat.not_le.mp enough
        simp only [subBytes, value_cons]
        rw [owed, byte]
        match a, b, tails with
        | [], [], _ =>
            -- The only byte may borrow.
            refine iff_of_true ?_ fun k inside => ?_
            · simp only [subBytes, difference, value_cons, value_nil, List.length_cons,
                List.length_nil]
              omega
            · rw [show k = 0 from Nat.lt_one_iff.mp inside]
              exact Nat.le_refl _
        | x' :: a, y' :: b, tails =>
            refine iff_of_false (fun same => ?_) fun fine => ?_
            · have wrong := sub_byte_borrowed x' y'
              have second := congrArg (· / 256 % 256) same
              simp only [subBytes, value_cons] at second
              rw [difference_borrowed (Nat.succ.inj tails) less, wrong] at second
              have boundX' := x'.toNat_lt
              have boundY' := y'.toNat_lt
              omega
            · have below := fine 1 (by simp)
              simp only [List.take_succ_cons, List.take_zero, value_cons, value_nil] at below
              omega

/-- **With `crypto_uint16` an `unsigned int` of 32 bits, as the header has it, `bigint_sub` is the
difference exactly if no byte before the last one borrows.** -/
theorem bigintSub_unsignedInt_iff (a b : Bytes len) :
    value (bigintSub 32 a b).1.toList =
        (value a.toList + 256 ^ len - value b.toList) % 256 ^ len ↔
      ∀ k < len, value (b.toList.take k) ≤ value (a.toList.take k) := by
  have right := @subBytes_right_iff a.toList b.toList (by
    rw [List.Vector.toList_length, List.Vector.toList_length])
  unfold difference at right
  rwa [List.Vector.toList_length] at right

end Esloq.Nacl
