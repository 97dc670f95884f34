/-
**The authenticator of the app's NaCl (`crypto_onetimeauth/poly1305.c`).**

A number of 136 bits is an array of 17 bytes; carries are found by comparing bytes.

* `onetimeauth` — `crypto_onetimeauth_poly1305`: block by block `add` and `mulmod`, then `freeze`.
* `value_add`, `value_freeze`, `value_mulmod` — the three are addition, the remainder, and
  multiplication modulo `2 ^ 130 - 5`, as long as the accumulator stays below `99 * 2 ^ 128`; each
  turn of the loop keeps it there.
* `value_onetimeauth` — for every message and key the result is the polynomial of the message's
  blocks at the clamped first half of the key, modulo `2 ^ 130 - 5`, plus the second half, modulo
  `2 ^ 128`.
-/

import Esloq.Lib.Blocks
import Esloq.Nacl.Bigint

namespace Esloq.Nacl.Poly1305

open LittleEndian Blocks

/-! ### The functions -/

/-- The loop of `add` over the bytes that are left. -/
def addLoop : List UInt8 → List UInt8 → UInt8 → List UInt8
  | th :: h, x :: xs, c =>
      let sum := th + (x + c)
      let c := if sum < th ∨ sum < x ∨ (c ≠ 0 ∧ sum = th) then 1 else 0
      sum :: addLoop h xs c
  | _, _, _ => []

theorem length_addLoop : ∀ {h x : List UInt8} (c : UInt8), h.length = x.length →
    (addLoop h x c).length = h.length
  | [], _, _, _ => rfl
  | _ :: _, [], _, sized => by cases sized
  | _ :: _, _ :: _, _, sized => congrArg Nat.succ (length_addLoop _ (Nat.succ.inj sized))

/-- `add`. -/
def add (h x : Bytes 17) : Bytes 17 := ⟨addLoop h.toList x.toList 0, by
  rw [length_addLoop 0 (by rw [List.Vector.toList_length, List.Vector.toList_length]),
    List.Vector.toList_length]⟩

variable {size : Nat}

/-- A loop `h[k] += c; c = (h[k] == 0) && c` over `count` bytes from `k` on. -/
def carryUp (h : Bytes size) (k : Nat) : (count : Nat) → k + count ≤ size → UInt8 → Bytes size
  | 0, _, _ => h
  | count + 1, fits, c =>
      let byte := h.get ⟨k, by omega⟩ + c
      let c := if byte = 0 ∧ c ≠ 0 then 1 else 0
      carryUp (h.set ⟨k, by omega⟩ byte) (k + 1) count (by omega) c

/-- `minusp`. -/
def minusp : Bytes 17 := ⟨[5, 0, 0, 0, 0, 0, 0, 0, 0, 0, 0, 0, 0, 0, 0, 0, 252], rfl⟩

/-- The first part of `freeze`, which leaves `horig`: what is above 2^130 comes back five times. -/
def foldTop (h : Bytes 17) : Bytes 17 :=
  let t := ((h.get 16).toNat >>> 2) * 5
  let h := h.set 16 (h.get 16 &&& 0x3)
  let h := h.set 0 (h.get 0 + UInt8.ofNat (t &&& 0xff))
  carryUp h 1 16 (by decide) (if (h.get 0).toNat < t &&& 0xff then 1 else 0)

/-- The last loop of `freeze`: `horig` where the mask is set, else `h`. -/
def select (negative : UInt8) (h horig : Bytes 17) : Bytes 17 :=
  ⟨List.zipWith (fun byte orig => byte ^^^ (negative &&& (orig ^^^ byte))) h.toList horig.toList, by
    rw [List.length_zipWith, List.Vector.toList_length, List.Vector.toList_length]
    rfl⟩

/-- `freeze`. -/
def freeze (h : Bytes 17) : Bytes 17 :=
  let horig := foldTop h
  let h := add horig minusp
  let negative := -(h.get 16 >>> 7)
  select negative h horig

/-- One turn of the loop of `mulmod`, for the byte `i + 16`. -/
def reduceByte (hr : Bytes 34) (i : Fin 16) : Bytes 34 :=
  let low := hr.get ⟨i.val + 16, by omega⟩
  let high := hr.get ⟨i.val + 17, by omega⟩
  let t := (low.toNat >>> 2) ^^^ ((high.toNat &&& 0x3) <<< 6)
  let hr := hr.set ⟨i.val + 16, by omega⟩ (low &&& 0x3)
  let hr := hr.set ⟨i.val + 17, by omega⟩ (high &&& 0xfc)
  let t := t * 5
  let thr := hr.get ⟨i.val, by omega⟩
  let sum := thr + UInt8.ofNat (t &&& 0xff)
  let hr := hr.set ⟨i.val, by omega⟩ sum
  let c := if sum.toNat < t &&& 0xff ∨ sum < thr then 1 else 0
  let thr := hr.get ⟨i.val + 1, by omega⟩
  let sum := thr + UInt8.ofNat ((t >>> 8) + c)
  let hr := hr.set ⟨i.val + 1, by omega⟩ sum
  let c := if sum.toNat < t >>> 8 ∨ sum < thr then 1 else 0
  carryUp hr (i.val + 2) (15 - i.val) (by omega) c

/-- `mulmod`. -/
def mulmod (h r : Bytes 17) : Bytes 17 :=
  let hr : Bytes 34 := bigintMul h r
  let hr := (List.finRange 16).foldl reduceByte hr
  let t := ((hr.get 32).toNat >>> 2) * 5
  Bytes.slice (hr.set 16 (hr.get 16 + UInt8.ofNat (t &&& 0xff))) 0 17 (by decide)

/-- The array `r`: the first half of the key, with 22 bits cleared. -/
def clamped (k : Bytes 32) : Bytes 17 :=
  ⟨[k.get 0, k.get 1, k.get 2, k.get 3 &&& 15, k.get 4 &&& 252, k.get 5, k.get 6, k.get 7 &&& 15,
    k.get 8 &&& 252, k.get 9, k.get 10, k.get 11 &&& 15, k.get 12 &&& 252, k.get 13, k.get 14,
    k.get 15 &&& 15, 0], rfl⟩

/-- The array `c` for a block: up to 16 bytes, a 1 behind them, zeros. -/
def padded (block : List UInt8) (short : block.length ≤ 16) : Bytes 17 :=
  ⟨block ++ 1 :: List.replicate (16 - block.length) 0, by
    rw [List.length_append, List.length_cons, List.length_replicate]
    omega⟩

/-- The loop over the message. -/
def authenticate (r h : Bytes 17) (message : List UInt8) : Bytes 17 :=
  if 0 < message.length then
    authenticate r (mulmod (add h (padded (message.take 16) (List.length_take_le _ _))) r)
      (message.drop 16)
  else h
termination_by message.length
decreasing_by
  rw [List.length_drop]
  omega

/-- `crypto_onetimeauth_poly1305`. -/
def onetimeauth (message : List UInt8) (k : Bytes 32) : Bytes 16 :=
  let h := freeze (authenticate (clamped k) (Bytes.zeros 17) message)
  let c : Bytes 17 := k.slice 16 16 (by decide) ++ Bytes.zeros 1
  (add h c).slice 0 16 (by decide)

/-! ### Carries by comparison -/

/-- A carry is seen in a sum that is smaller than what was added, or stayed the same. -/
theorem add_byte (th x : UInt8) {c : UInt8} (carry : c.toNat ≤ 1) :
    let sum := th + (x + c)
    let next : UInt8 := if sum < th ∨ sum < x ∨ (c ≠ 0 ∧ sum = th) then 1 else 0
    next.toNat ≤ 1 ∧ sum.toNat + 256 * next.toNat = th.toNat + x.toNat + c.toNat := by
  intro sum next
  have boundTh := th.toNat_lt
  have boundX := x.toNat_lt
  have exactSum : sum.toNat = (th.toNat + (x.toNat + c.toNat) % 256) % 256 := by
    show (th + (x + c)).toNat = _
    rw [UInt8.toNat_add, UInt8.toNat_add]
  have zero : c = 0 ↔ c.toNat = 0 := UInt8.toNat_inj.symm
  have still : sum = th ↔ sum.toNat = th.toNat := UInt8.toNat_inj.symm
  by_cases seen : sum < th ∨ sum < x ∨ (c ≠ 0 ∧ sum = th)
  · have one : next = 1 := if_pos seen
    rw [UInt8.lt_iff_toNat_lt, UInt8.lt_iff_toNat_lt, ne_eq, zero, still] at seen
    rw [one, UInt8.toNat_one]
    omega
  · have none' : next = 0 := if_neg seen
    rw [UInt8.lt_iff_toNat_lt, UInt8.lt_iff_toNat_lt, ne_eq, zero, still] at seen
    rw [none', UInt8.toNat_zero]
    omega

theorem value_addLoop : ∀ {h x : List UInt8} {c : UInt8}, h.length = x.length → c.toNat ≤ 1 →
    ∃ carry, value (addLoop h x c) + 256 ^ h.length * carry = value h + value x + c.toNat
  | [], x, c, sized, _ => by
      rw [List.length_eq_zero_iff.mp sized.symm]
      refine ⟨c.toNat, ?_⟩
      show 0 + 256 ^ 0 * c.toNat = 0 + 0 + c.toNat
      omega
  | _ :: _, [], _, sized, _ => by cases sized
  | th :: h, x :: xs, c, sized, bounded => by
      obtain ⟨small, here⟩ := add_byte th x bounded
      obtain ⟨carry, later⟩ := value_addLoop (Nat.succ.inj sized) small
      refine ⟨carry, ?_⟩
      simp only [addLoop, value_cons, List.length_cons, pow_succ', Nat.mul_assoc]
      omega

/-- `add` is addition modulo 2^136. -/
theorem value_add (h x : Bytes 17) :
    value (add h x).toList = (value h.toList + value x.toList) % 256 ^ 17 := by
  have sized : h.toList.length = x.toList.length := by
    rw [List.Vector.toList_length, List.Vector.toList_length]
  obtain ⟨carry, sum⟩ := @value_addLoop h.toList x.toList 0 sized (by decide)
  have bound := value_lt (add h x).toList
  rw [List.Vector.toList_length] at bound sum
  have whole : value h.toList + value x.toList =
      value (add h x).toList + 256 ^ 17 * carry := by
    rw [UInt8.toNat_zero] at sum
    exact sum.symm
  rw [whole, Nat.add_mul_mod_self_left, Nat.mod_eq_of_lt bound]

/-- Overwriting a byte of an array with a sum's remainder. -/
theorem value_set_sum (x : Bytes size) (i : Fin size) {byte : UInt8} {added carry : Nat}
    (sum : (x.get i).toNat + added = byte.toNat + 256 * carry) :
    value (x.set i byte).toList + carry * 256 ^ (i.val + 1) =
      value x.toList + added * 256 ^ i.val := by
  have inside : i.val < x.toList.length := by
    rw [List.Vector.toList_length]
    exact i.isLt
  rw [List.Vector.get_eq_get_toList] at sum
  rw [List.Vector.toList_set]
  exact value_set_add x.toList inside sum

/-- Overwriting a byte of an array with a part of it. -/
theorem value_set_part (x : Bytes size) (i : Fin size) {byte : UInt8} {removed : Nat}
    (part : byte.toNat + removed = (x.get i).toNat) :
    value (x.set i byte).toList + removed * 256 ^ i.val = value x.toList := by
  have inside : i.val < x.toList.length := by
    rw [List.Vector.toList_length]
    exact i.isLt
  have written := value_set x.toList inside byte
  have old : x.toList[i.val].toNat = byte.toNat + removed := by
    rw [part, List.Vector.get_eq_get_toList]
    rfl
  rw [old, Nat.add_mul] at written
  rw [List.Vector.toList_set]
  omega

/-- The carry through `count` bytes: it comes out behind them, and nothing else changes there. -/
theorem value_carryUp (count : Nat) : ∀ (h : Bytes size) (k : Nat) (fits : k + count ≤ size) {c : UInt8},
    c.toNat ≤ 1 →
    (∃ carry, value (carryUp h k count fits c).toList + carry * 256 ^ (k + count) =
      value h.toList + c.toNat * 256 ^ k) ∧
    ∀ j, k + count ≤ j → (carryUp h k count fits c).toList.drop j = h.toList.drop j := by
  induction count with
  | zero => exact fun h k fits c _ => ⟨⟨c.toNat, rfl⟩, fun _ _ => rfl⟩
  | succ count ih =>
      intro h k fits c bounded
      have boundByte := (h.get ⟨k, by omega⟩).toNat_lt
      generalize byteSum : h.get ⟨k, by omega⟩ + c = byte
      have exactByte : byte.toNat = ((h.get ⟨k, by omega⟩).toNat + c.toNat) % 256 := by
        rw [← byteSum, UInt8.toNat_add]
      generalize nextCarry : (if byte = 0 ∧ c ≠ 0 then (1 : UInt8) else 0) = next
      have zero : c = 0 ↔ c.toNat = 0 := UInt8.toNat_inj.symm
      have wrapped : byte = 0 ↔ byte.toNat = 0 := UInt8.toNat_inj.symm
      have step : next.toNat ≤ 1 ∧
          (h.get ⟨k, by omega⟩).toNat + c.toNat = byte.toNat + 256 * next.toNat := by
        by_cases carried : byte = 0 ∧ c ≠ 0
        · rw [if_pos carried] at nextCarry
          rw [ne_eq, zero, wrapped] at carried
          rw [← nextCarry, UInt8.toNat_one]
          omega
        · rw [if_neg carried] at nextCarry
          rw [ne_eq, zero, wrapped] at carried
          rw [← nextCarry, UInt8.toNat_zero]
          omega
      obtain ⟨small, sum⟩ := step
      have here := value_set_sum h ⟨k, by omega⟩ sum
      obtain ⟨⟨carry, later⟩, kept⟩ := ih (h.set ⟨k, by omega⟩ byte) (k + 1) (by omega) small
      have unfolded : carryUp h k (count + 1) fits c =
          carryUp (h.set ⟨k, by omega⟩ byte) (k + 1) count (by omega) next := by
        simp only [carryUp, byteSum, nextCarry]
      rw [unfolded]
      refine ⟨⟨carry, ?_⟩, fun j beyond => ?_⟩
      · rw [show k + (count + 1) = k + 1 + count by omega, later]
        exact here
      · rw [kept j (by omega), List.Vector.toList_set, List.drop_set_of_lt (show k < j by omega)]

/-! ### One turn of the reduction -/

/-- A carry is seen in a sum that is smaller than the byte, or than what was added. -/
theorem carried_iff (thr : UInt8) {added compared : Nat} (small : added < 256) (below : compared ≤ added) :
    ((thr + UInt8.ofNat added).toNat < compared ∨ thr + UInt8.ofNat added < thr) ↔
      256 ≤ thr.toNat + added := by
  have bound := thr.toNat_lt
  have sum : (thr + UInt8.ofNat added).toNat = (thr.toNat + added) % 256 := by
    rw [UInt8.toNat_add, UInt8.toNat_ofNat', Nat.mod_eq_of_lt (show added < 2 ^ 8 from small)]
  rw [UInt8.lt_iff_toNat_lt, sum]
  omega

/-- The sum and the carry of such an addition. -/
theorem sum_carried (thr : UInt8) {added : Nat} (small : added < 256) {carry : Nat}
    (seen : carry = if 256 ≤ thr.toNat + added then 1 else 0) :
    thr.toNat + added = (thr + UInt8.ofNat added).toNat + 256 * carry := by
  have bound := thr.toNat_lt
  rw [UInt8.toNat_add, UInt8.toNat_ofNat', Nat.mod_eq_of_lt (show added < 2 ^ 8 from small), seen]
  split <;> omega

theorem and_three (n : Nat) : n &&& 3 = n % 4 := Nat.and_two_pow_sub_one_eq_mod n 2

theorem and_255 (n : Nat) : n &&& 0xff = n % 256 := Nat.and_two_pow_sub_one_eq_mod n 8

theorem and_252 : ∀ n < 256, n &&& 252 = n - n % 4 := by decide +kernel

theorem xor_shiftLeft_six : ∀ low < 64, ∀ high < 4, low ^^^ (high <<< 6) = low + 64 * high := by
  decide +kernel

/-- The eight bits that a turn takes from two bytes. -/
def taken (low high : Nat) : Nat := low / 4 + 64 * (high % 4)

theorem taken_eq (low high : UInt8) :
    (low.toNat >>> 2) ^^^ ((high.toNat &&& 0x3) <<< 6) = taken low.toNat high.toNat := by
  have bound := low.toNat_lt
  rw [Nat.shiftRight_eq_div_pow, and_three,
    xor_shiftLeft_six _ (by omega) _ (Nat.mod_lt _ (by decide))]
  rfl

theorem taken_lt (low high : UInt8) : taken low.toNat high.toNat < 256 := by
  have bound := low.toNat_lt
  unfold taken
  omega

/-- The array with the eight bits taken out. -/
def maskBytes (hr : Bytes 34) (i : Fin 16) : Bytes 34 :=
  (hr.set ⟨i.val + 16, by omega⟩ (hr.get ⟨i.val + 16, by omega⟩ &&& 0x3)).set ⟨i.val + 17, by omega⟩
    (hr.get ⟨i.val + 17, by omega⟩ &&& 0xfc)

theorem value_maskBytes (hr : Bytes 34) (i : Fin 16) :
    value (maskBytes hr i).toList +
        4 * taken (hr.get ⟨i.val + 16, by omega⟩).toNat (hr.get ⟨i.val + 17, by omega⟩).toNat *
          256 ^ (i.val + 16) = value hr.toList := by
  generalize lowByte : hr.get ⟨i.val + 16, by omega⟩ = low
  generalize highByte : hr.get ⟨i.val + 17, by omega⟩ = high
  have boundHigh := high.toNat_lt
  have lowPart : (low &&& 0x3).toNat + 4 * (low.toNat / 4) =
      (hr.get ⟨i.val + 16, by omega⟩).toNat := by
    rw [lowByte, UInt8.toNat_and]
    show (low.toNat &&& 3) + _ = _
    rw [and_three]
    omega
  have first := value_set_part hr ⟨i.val + 16, by omega⟩ lowPart
  have other : (⟨i.val + 16, by omega⟩ : Fin 34) ≠ ⟨i.val + 17, by omega⟩ := fun same =>
    absurd (congrArg Fin.val same) (by simp)
  have highPart : (high &&& 0xfc).toNat + high.toNat % 4 =
      ((hr.set ⟨i.val + 16, by omega⟩ (low &&& 0x3)).get ⟨i.val + 17, by omega⟩).toNat := by
    rw [List.Vector.get_set_of_ne other, highByte, UInt8.toNat_and]
    show (high.toNat &&& 252) + _ = _
    rw [and_252 _ boundHigh]
    omega
  have second := value_set_part _ ⟨i.val + 17, by omega⟩ highPart
  have scale : 256 ^ (i.val + 17) = 256 * 256 ^ (i.val + 16) := pow_succ' _ _
  unfold maskBytes taken
  rw [lowByte, highByte]
  simp only at first second
  rw [scale] at second
  have shares : 4 * (low.toNat / 4 + 64 * (high.toNat % 4)) * 256 ^ (i.val + 16) =
      4 * (low.toNat / 4) * 256 ^ (i.val + 16) + high.toNat % 4 * (256 * 256 ^ (i.val + 16)) := by
    ring
  omega

/-- A turn takes eight bits out and adds five times their value 16 bytes below. -/
theorem value_reduceByte (hr : Bytes 34) (i : Fin 16) :
    (∃ carry, value (reduceByte hr i).toList + carry * 256 ^ 17 = value (maskBytes hr i).toList +
      5 * taken (hr.get ⟨i.val + 16, by omega⟩).toNat (hr.get ⟨i.val + 17, by omega⟩).toNat *
        256 ^ i.val) ∧
    (reduceByte hr i).toList.drop 17 = (maskBytes hr i).toList.drop 17 := by
  generalize lowByte : hr.get ⟨i.val + 16, by omega⟩ = low
  generalize highByte : hr.get ⟨i.val + 17, by omega⟩ = high
  have small := taken_lt low high
  generalize bits : taken low.toNat high.toNat = t at small
  have lowAdd : t * 5 &&& 0xff = t * 5 % 256 := and_255 _
  have highAdd : (t * 5) >>> 8 = t * 5 / 256 := Nat.shiftRight_eq_div_pow _ 8
  generalize maskedArray : maskBytes hr i = masked
  -- The first addition, at byte `i`.
  generalize thr0Eq : masked.get ⟨i.val, by omega⟩ = thr0
  generalize carry0Eq : (if 256 ≤ thr0.toNat + t * 5 % 256 then 1 else 0) = carry0
  have carry0_le : carry0 ≤ 1 := by
    rw [← carry0Eq]
    split <;> omega
  have sum0 := sum_carried thr0 (show t * 5 % 256 < 256 from Nat.mod_lt _ (by decide)) carry0Eq.symm
  generalize written0 : masked.set ⟨i.val, by omega⟩ (thr0 + UInt8.ofNat (t * 5 % 256)) = array0
  rw [← congrArg UInt8.toNat thr0Eq] at sum0
  have value0 := value_set_sum masked ⟨i.val, by omega⟩ sum0
  -- The second, at byte `i + 1`.
  generalize thr1Eq : array0.get ⟨i.val + 1, by omega⟩ = thr1
  generalize carry1Eq : (if 256 ≤ thr1.toNat + (t * 5 / 256 + carry0) then 1 else 0) = carry1
  have carry1_le : carry1 ≤ 1 := by
    rw [← carry1Eq]
    split <;> omega
  have sum1 := sum_carried thr1 (show t * 5 / 256 + carry0 < 256 by omega) carry1Eq.symm
  generalize written1 : array0.set ⟨i.val + 1, by omega⟩ (thr1 + UInt8.ofNat (t * 5 / 256 + carry0)) =
    array1
  rw [← congrArg UInt8.toNat thr1Eq] at sum1
  have value1 := value_set_sum array0 ⟨i.val + 1, by omega⟩ sum1
  rw [written0] at value0
  rw [written1] at value1
  -- The carry through the bytes up to 16.
  have asByte : (UInt8.ofNat carry1).toNat = carry1 := by
    rw [UInt8.toNat_ofNat', Nat.mod_eq_of_lt (by omega)]
  obtain ⟨⟨carry, value2⟩, kept⟩ := value_carryUp (15 - i.val) array1 (i.val + 2) (by omega)
    (show (UInt8.ofNat carry1).toNat ≤ 1 by omega)
  have unfolded : reduceByte hr i = carryUp array1 (i.val + 2) (15 - i.val) (by omega)
      (UInt8.ofNat carry1) := by
    have maskedEq : (hr.set ⟨i.val + 16, by omega⟩ (low &&& 0x3)).set ⟨i.val + 17, by omega⟩
        (high &&& 0xfc) = masked := by
      rw [← maskedArray, maskBytes, lowByte, highByte]
    have ofCarry1 : UInt8.ofNat carry1 =
        if 256 ≤ thr1.toNat + (t * 5 / 256 + carry0) then 1 else 0 := by
      rw [← carry1Eq]
      split <;> rfl
    have seen0 := carried_iff thr0 (Nat.mod_lt (t * 5) (show 256 > 0 by decide)) (Nat.le_refl _)
    have seen1 := carried_iff thr1 (show t * 5 / 256 + carry0 < 256 by omega)
      (Nat.le_add_right (t * 5 / 256) carry0)
    unfold reduceByte
    simp only [lowByte, highByte, taken_eq, bits, lowAdd, highAdd, maskedEq, thr0Eq, seen0, carry0Eq,
      written0, thr1Eq, written1, seen1, ofCarry1]
  rw [unfolded]
  refine ⟨⟨carry, ?_⟩, ?_⟩
  · have last : 256 ^ (i.val + 2 + (15 - i.val)) = 256 ^ 17 := by
      rw [show i.val + 2 + (15 - i.val) = 17 by omega]
    have scale1 : 256 ^ (i.val + 1) = 256 * 256 ^ i.val := pow_succ' _ _
    have scale2 : 256 ^ (i.val + 1 + 1) = 256 * (256 * 256 ^ i.val) := by rw [pow_succ', scale1]
    rw [last, asByte] at value2
    simp only [scale1, scale2] at value0 value1 value2
    have shares : 5 * t * 256 ^ i.val =
        t * 5 % 256 * 256 ^ i.val + t * 5 / 256 * (256 * 256 ^ i.val) := by
      calc 5 * t * 256 ^ i.val = (t * 5 % 256 + 256 * (t * 5 / 256)) * 256 ^ i.val := by
            rw [Nat.mod_add_div, Nat.mul_comm 5]
        _ = _ := by ring
    simp only [Nat.add_mul] at value1
    omega
  · rw [kept 17 (by omega), ← written1, List.Vector.toList_set,
      List.drop_set_of_lt (show i.val + 1 < 17 by omega), ← written0, List.Vector.toList_set,
      List.drop_set_of_lt (show i.val < 17 by omega)]

/-! ### The reduction -/

/-- The lower half of the array of a product. -/
def lowHalf (hr : Bytes 34) : Nat := value (hr.toList.take 17)

/-- The upper half. -/
def highHalf (hr : Bytes 34) : Nat := value (hr.toList.drop 17)

theorem value_halves (hr : Bytes 34) : value hr.toList = lowHalf hr + 256 ^ 17 * highHalf hr :=
  value_split hr.toList (by rw [List.Vector.toList_length]; decide)

theorem lowHalf_lt (hr : Bytes 34) : lowHalf hr < 256 ^ 17 := by
  have bound := value_lt (hr.toList.take 17)
  rwa [List.length_take_of_le (by rw [List.Vector.toList_length]; decide)] at bound

/-- A byte as a digit of the whole number. -/
theorem get_eq_digit (x : Bytes size) {i : Nat} (inside : i < size) :
    (x.get ⟨i, inside⟩).toNat = value x.toList / 256 ^ i % 256 := by
  rw [List.Vector.get_eq_get_toList]
  exact getElem_eq_digit x.toList (by rw [List.Vector.toList_length]; exact inside)

/-- A byte of the upper half as a digit of it. -/
theorem get_high_eq_digit (hr : Bytes 34) {j : Nat} (inside : j + 17 < 34) :
    (hr.get ⟨j + 17, inside⟩).toNat = highHalf hr / 256 ^ j % 256 := by
  have bound := lowHalf_lt hr
  rw [get_eq_digit, value_halves, pow_add, Nat.mul_comm (256 ^ j), ← Nat.div_div_eq_div_mul,
    Nat.add_mul_div_left _ _ (Nat.pow_pos (by decide)), Nat.div_eq_of_lt bound, Nat.zero_add]

/-- Taking bits out of the upper half leaves the lower one. -/
theorem maskBytes_high (hr : Bytes 34) {j q : Nat} (inside : j + 1 < 16)
    (cleared : highHalf hr = 4 * 256 ^ j * q) :
    lowHalf (maskBytes hr ⟨j + 1, inside⟩) = lowHalf hr ∧
      highHalf (maskBytes hr ⟨j + 1, inside⟩) = 4 * 256 ^ (j + 1) * (q / 256) := by
  have whole := value_maskBytes hr ⟨j + 1, inside⟩
  have positive : 0 < 256 ^ j := Nat.pow_pos (by decide)
  have lowByte := @get_high_eq_digit hr j (by omega)
  have highByte := @get_high_eq_digit hr (j + 1) (by omega)
  have quotient : highHalf hr / 256 ^ j = 4 * q := by
    rw [cleared, Nat.mul_comm 4, Nat.mul_assoc, Nat.mul_div_cancel_left _ positive]
  rw [quotient] at lowByte
  rw [pow_succ, ← Nat.div_div_eq_div_mul, quotient] at highByte
  have bits : taken (hr.get ⟨j + 1 + 16, by omega⟩).toNat (hr.get ⟨j + 1 + 17, by omega⟩).toNat =
      q % 256 := by
    rw [taken, highByte]
    simp only [Nat.add_assoc, Nat.reduceAdd]
    rw [lowByte]
    omega
  have weight : 4 * (q % 256) * 256 ^ (j + 1 + 16) = 256 ^ 17 * (4 * (256 ^ j * (q % 256))) := by
    rw [show j + 1 + 16 = 17 + j by omega, pow_add]
    ring
  rw [value_halves, value_halves, bits, weight, cleared] at whole
  have boundMasked := lowHalf_lt (maskBytes hr ⟨j + 1, inside⟩)
  have bound := lowHalf_lt hr
  have parts : 4 * 256 ^ j * q = 4 * (256 ^ j * (q % 256)) + 4 * 256 ^ (j + 1) * (q / 256) := by
    calc 4 * 256 ^ j * q = 4 * 256 ^ j * (q % 256 + 256 * (q / 256)) := by rw [Nat.mod_add_div]
      _ = _ := by rw [pow_succ]; ring
  rw [parts] at whole
  omega

/-- Taking bits out of both halves. -/
theorem maskBytes_middle (hr : Bytes 34) :
    lowHalf (maskBytes hr 0) < 4 * 256 ^ 16 ∧
      highHalf (maskBytes hr 0) = 4 * (highHalf hr / 4) := by
  have whole : value (maskBytes hr 0).toList +
      4 * taken (hr.get ⟨16, by decide⟩).toNat (hr.get ⟨17, by decide⟩).toNat * 256 ^ 16 =
        value hr.toList := value_maskBytes hr 0
  have highByte : (hr.get ⟨17, by decide⟩).toNat = highHalf hr / 256 ^ 0 % 256 :=
    @get_high_eq_digit hr 0 (by decide)
  have boundMasked := lowHalf_lt (maskBytes hr 0)
  have bound := lowHalf_lt hr
  rw [taken, get_eq_digit, highByte, value_halves, value_halves, pow_zero, Nat.div_one] at whole
  omega

/-- What holds before the turn for the byte `i + 16`. -/
structure Reducing (product i : Nat) (hr : Bytes 34) : Prop where
  /-- The array holds the product up to multiples of the modulus. -/
  congruent : value hr.toList % (2 ^ 130 - 5) = product % (2 ^ 130 - 5)
  /-- The lower half has room for what is still added to it. -/
  low : 0 < i → lowHalf hr < (4 + 5 * i) * 256 ^ 16
  high : highHalf hr ≤ product / 256 ^ 17
  /-- The bits taken so far are gone. -/
  cleared : 0 < i → 4 * 256 ^ (i - 1) ∣ highHalf hr

theorem Reducing.step {product : Nat} {hr : Bytes 34} {i : Fin 16} (inv : Reducing product i.val hr) :
    Reducing product (i.val + 1) (reduceByte hr i) := by
  have masked : lowHalf (maskBytes hr i) < (4 + 5 * i.val) * 256 ^ 16 ∧
      highHalf (maskBytes hr i) ≤ highHalf hr ∧ 4 * 256 ^ i.val ∣ highHalf (maskBytes hr i) := by
    match i with
    | ⟨0, _⟩ =>
        obtain ⟨low, high⟩ := maskBytes_middle hr
        refine ⟨low, ?_, ⟨highHalf hr / 4, ?_⟩⟩
        · show highHalf (maskBytes hr 0) ≤ _
          omega
        · rw [pow_zero, Nat.mul_one]
          exact high
    | ⟨j + 1, inside⟩ =>
        obtain ⟨q, cleared⟩ := inv.cleared (Nat.succ_pos j)
        obtain ⟨low, high⟩ := maskBytes_high hr inside cleared
        refine ⟨?_, ?_, ⟨_, high⟩⟩
        · rw [low]
          exact inv.low (Nat.succ_pos j)
        · rw [high]
          have smaller : 256 * (q / 256) ≤ q := Nat.mul_div_le q 256
          calc 4 * 256 ^ (j + 1) * (q / 256) = 4 * 256 ^ j * (256 * (q / 256)) := by
                rw [pow_succ]
                ring
            _ ≤ 4 * 256 ^ j * q := Nat.mul_le_mul_left _ smaller
            _ = highHalf hr := cleared.symm
  obtain ⟨room, smaller, divides⟩ := masked
  obtain ⟨⟨carry, added⟩, kept⟩ := value_reduceByte hr i
  have removed := value_maskBytes hr i
  have small := taken_lt (hr.get ⟨i.val + 16, by omega⟩) (hr.get ⟨i.val + 17, by omega⟩)
  generalize taken (hr.get ⟨i.val + 16, by omega⟩).toNat (hr.get ⟨i.val + 17, by omega⟩).toNat = t
    at added removed small
  have sameHigh : highHalf (reduceByte hr i) = highHalf (maskBytes hr i) := congrArg value kept
  have bound := lowHalf_lt (reduceByte hr i)
  -- What is added stays below 2^136, so that no carry is lost.
  have scale : 256 ^ i.val ≤ 256 ^ 15 := Nat.pow_le_pow_right (by decide) (by omega)
  have product5 : 5 * t * 256 ^ i.val ≤ 5 * 255 * 256 ^ 15 :=
    Nat.mul_le_mul (Nat.mul_le_mul_left 5 (by omega)) scale
  have last := i.isLt
  have none' : carry = 0 := by
    by_contra some'
    have := Nat.mul_le_mul_right (256 ^ 17) (Nat.one_le_iff_ne_zero.mpr some')
    rw [value_halves, value_halves, sameHigh] at added
    omega
  rw [none', Nat.zero_mul, Nat.add_zero] at added
  refine ⟨?_, fun _ => ?_, ?_, fun _ => ?_⟩
  · rw [← inv.congruent, ← removed, added]
    have whole : value (maskBytes hr i).toList + 4 * t * 256 ^ (i.val + 16) =
        value (maskBytes hr i).toList + 5 * t * 256 ^ i.val + (2 ^ 130 - 5) * (t * 256 ^ i.val) := by
      rw [pow_add, Nat.add_assoc]
      refine congrArg _ ?_
      have sum : 4 * 256 ^ 16 = 5 + (2 ^ 130 - 5) := by decide
      calc 4 * t * (256 ^ i.val * 256 ^ 16) = 4 * 256 ^ 16 * (t * 256 ^ i.val) := by ring
        _ = (5 + (2 ^ 130 - 5)) * (t * 256 ^ i.val) := by rw [sum]
        _ = _ := by rw [Nat.add_mul, Nat.mul_assoc 5]
    rw [whole, Nat.add_mul_mod_self_left]
  · rw [value_halves, value_halves, sameHigh] at added
    omega
  · rw [sameHigh]
    exact smaller.trans inv.high
  · rw [sameHigh]
    exact divides

/-- What holds after all turns. -/
theorem reducing_fold {product : Nat} {hr : Bytes 34} (start : Reducing product 0 hr) :
    Reducing product 16 ((List.finRange 16).foldl reduceByte hr) := by
  have prefixes : ∀ count, (inside : count ≤ 16) →
      Reducing product count (((List.finRange 16).take count).foldl reduceByte hr) := by
    intro count
    induction count with
    | zero => exact fun _ => start
    | succ count ih =>
        intro inside
        have here : (List.finRange 16).take (count + 1) =
            (List.finRange 16).take count ++ [⟨count, inside⟩] := by
          rw [List.take_add_one, List.getElem?_eq_getElem (by rw [List.length_finRange]; exact inside),
            List.getElem_finRange]
          rfl
        rw [here, List.foldl_concat]
        exact @Reducing.step product _ ⟨count, inside⟩ (ih (by omega))
  have whole := prefixes 16 (Nat.le_refl 16)
  rwa [List.take_of_length_le (by rw [List.length_finRange])] at whole

theorem lowHalf_eq_slice (hr : Bytes 34) : value (hr.slice 0 17 (by decide)).toList = lowHalf hr := by
  rw [Bytes.toList_slice, List.drop_zero]
  rfl

/-- **`mulmod` multiplies modulo 2^130 - 5**, and leaves a number below `99 * 2 ^ 128`, whatever the
accumulator is. -/
theorem value_mulmod (h r : Bytes 17) (small : value r.toList < 2 ^ 124) :
    value (mulmod h r).toList % (2 ^ 130 - 5) = value h.toList * value r.toList % (2 ^ 130 - 5) ∧
      value (mulmod h r).toList < 99 * 256 ^ 16 := by
  have product := value_bigintMul h r
  have boundH := value_lt h.toList
  rw [List.Vector.toList_length] at boundH
  have bounded : value h.toList * value r.toList < 256 ^ 17 * 2 ^ 124 := Nat.mul_lt_mul'' boundH small
  generalize value h.toList * value r.toList = n at product bounded ⊢
  have start : Reducing n 0 (bigintMul h r) := by
    have halves := value_halves (bigintMul h r)
    have low := lowHalf_lt (bigintMul h r)
    refine ⟨congrArg (· % _) product, fun absent => absurd absent (Nat.lt_irrefl 0), ?_,
      fun absent => absurd absent (Nat.lt_irrefl 0)⟩
    omega
  have reduced := reducing_fold start
  generalize array : (List.finRange 16).foldl reduceByte (bigintMul h r) = hr at reduced
  obtain ⟨congruent, low, high, cleared⟩ := reduced
  have room := low (by decide)
  obtain ⟨q, quotient⟩ := cleared (by decide)
  simp only [Nat.reduceSub] at quotient
  have few : q < 4 := by
    by_contra many
    have := Nat.mul_le_mul_left (4 * 256 ^ 15) (Nat.not_lt.mp many)
    omega
  -- Two bits are left above 2^258; their fivefold goes to byte 16.
  have top : (hr.get 32).toNat = 4 * q := by
    have digit : (hr.get 32).toNat = highHalf hr / 256 ^ 15 % 256 := @get_high_eq_digit hr 15 (by decide)
    rw [quotient] at digit
    omega
  have added : ((hr.get 32).toNat >>> 2) * 5 &&& 0xff = 5 * q := by
    rw [top, Nat.shiftRight_eq_div_pow, and_255]
    omega
  have halves := value_halves hr
  have byte : (hr.get 16).toNat < 84 := by
    have digit : (hr.get 16).toNat = value hr.toList / 256 ^ 16 % 256 :=
      @get_eq_digit 34 hr 16 (by decide)
    have quotient16 : lowHalf hr / 256 ^ 16 < 84 := Nat.div_lt_of_lt_mul (by omega)
    rw [digit, halves, show 256 ^ 17 * highHalf hr = 256 ^ 16 * (256 * highHalf hr) by omega,
      Nat.add_mul_div_left _ _ (by decide), Nat.add_mul_mod_self_left]
    exact (Nat.mod_le _ _).trans_lt quotient16
  have sum : (hr.get 16).toNat + 5 * q = (hr.get 16 + UInt8.ofNat (5 * q)).toNat + 256 * 0 := by
    rw [UInt8.toNat_add, UInt8.toNat_ofNat']
    omega
  have written := value_set_sum hr 16 sum
  generalize set16 : hr.set 16 (hr.get 16 + UInt8.ofNat (5 * q)) = final at written
  have sameHigh : highHalf final = highHalf hr := by
    unfold highHalf
    rw [← set16, List.Vector.toList_set, List.drop_set_of_lt (by decide)]
  have whole : mulmod h r = Bytes.slice final 0 17 (by decide) := by
    unfold mulmod
    simp only [array, added, set16]
  have total : value hr.toList + 5 * q * 256 ^ 16 = lowHalf final + 256 ^ 17 * highHalf final := by
    rw [← value_halves]
    exact written.symm
  rw [sameHigh, halves] at total
  rw [whole, lowHalf_eq_slice]
  constructor
  · have value16 : value hr.toList = lowHalf final + (2 ^ 130 - 5) * (q * 256 ^ 16) := by
      rw [quotient] at total
      rw [halves, quotient]
      omega
    rw [← congruent, value16, Nat.add_mul_mod_self_left]
  · omega

/-- `minusp` is what is left of 2^136 without the modulus. -/
theorem value_minusp : value minusp.toList = 2 ^ 136 - (2 ^ 130 - 5) := by decide

/-- A mask that is clear keeps the array. -/
theorem select_zero (h horig : Bytes 17) : select 0 h horig = h := by
  apply Bytes.ext
  show List.zipWith _ h.toList horig.toList = h.toList
  apply List.ext_getElem
  · rw [List.length_zipWith, List.Vector.toList_length, List.Vector.toList_length, Nat.min_self]
  · intro i _ _
    rw [List.getElem_zipWith, UInt8.zero_and, UInt8.xor_zero]

/-- One that is set exchanges it. -/
theorem select_full (h horig : Bytes 17) : select 255 h horig = horig := by
  have all : ∀ z : UInt8, 255 &&& z = z := fun z => by
    apply UInt8.toNat_inj.mp
    rw [UInt8.toNat_and, Nat.and_comm]
    exact (and_255 z.toNat).trans (Nat.mod_eq_of_lt z.toNat_lt)
  apply Bytes.ext
  show List.zipWith _ h.toList horig.toList = horig.toList
  apply List.ext_getElem
  · rw [List.length_zipWith, List.Vector.toList_length, List.Vector.toList_length, Nat.min_self]
  · intro i _ _
    rw [List.getElem_zipWith, all, UInt8.xor_comm, UInt8.xor_assoc, UInt8.xor_self, UInt8.xor_zero]

theorem value_foldTop (h : Bytes 17) (room : value h.toList < 99 * 256 ^ 16) :
    value (foldTop h).toList = value h.toList % 2 ^ 130 + 5 * (value h.toList / 2 ^ 130) := by
  have top : (h.get 16).toNat = value h.toList / 256 ^ 16 := by
    have digit : (h.get 16).toNat = value h.toList / 256 ^ 16 % 256 := @get_eq_digit 17 h 16 (by decide)
    omega
  have quarter : (h.get 16).toNat / 4 = value h.toList / 2 ^ 130 := by
    rw [top]
    omega
  have added : ((h.get 16).toNat >>> 2) * 5 &&& 0xff = 5 * (value h.toList / 2 ^ 130) := by
    rw [Nat.shiftRight_eq_div_pow, and_255]
    show (h.get 16).toNat / 4 * 5 % 256 = _
    rw [quarter]
    omega
  have part : (h.get 16 &&& 0x3).toNat + 4 * (value h.toList / 2 ^ 130) = (h.get 16).toNat := by
    rw [UInt8.toNat_and, ← quarter]
    show ((h.get 16).toNat &&& 3) + _ = _
    rw [and_three]
    omega
  have masked : value (h.set 16 (h.get 16 &&& 0x3)).toList +
      4 * (value h.toList / 2 ^ 130) * 256 ^ 16 = value h.toList := value_set_part h 16 part
  generalize maskedArray : h.set 16 (h.get 16 &&& 0x3) = array at masked
  generalize five : 5 * (value h.toList / 2 ^ 130) = d at added ⊢
  have small : d < 256 := by omega
  generalize carryEq : (if 256 ≤ (array.get 0).toNat + d then 1 else 0) = carry
  have carry_le : carry ≤ 1 := by
    rw [← carryEq]
    split <;> omega
  have sum := sum_carried (array.get 0) small carryEq.symm
  have written : value (array.set 0 (array.get 0 + UInt8.ofNat d)).toList + carry * 256 ^ 1 =
      value array.toList + d * 256 ^ 0 := value_set_sum array 0 sum
  generalize newByte : array.get 0 + UInt8.ofNat d = byte at sum written
  have bound := byte.toNat_lt
  have boundOld := (array.get 0).toNat_lt
  have seen : (if byte.toNat < d then (1 : UInt8) else 0) = UInt8.ofNat carry := by
    rw [← carryEq] at sum ⊢
    by_cases carried : 256 ≤ (array.get 0).toNat + d
    · rw [if_pos carried] at sum ⊢
      rw [if_pos (by omega)]
      rfl
    · rw [if_neg carried] at sum ⊢
      rw [if_neg (by omega)]
      rfl
  have unfolded : foldTop h = carryUp (array.set 0 byte) 1 16 (by decide) (UInt8.ofNat carry) := by
    unfold foldTop
    simp only [added, maskedArray, newByte, List.Vector.get_set_same, seen]
  have asByte : (UInt8.ofNat carry).toNat = carry := by
    rw [UInt8.toNat_ofNat', Nat.mod_eq_of_lt (by omega)]
  obtain ⟨⟨last, carried⟩, _⟩ := value_carryUp 16 (array.set 0 byte) 1 (by decide)
    (show (UInt8.ofNat carry).toNat ≤ 1 by omega)
  rw [← unfolded, asByte] at carried
  have none' : last = 0 := by
    by_contra some'
    have := Nat.mul_le_mul_right (256 ^ 17) (Nat.one_le_iff_ne_zero.mpr some')
    omega
  rw [none'] at carried
  omega

/-- The mask that `freeze` makes of the top bit of a difference. -/
theorem negative_eq (difference : Bytes 17) :
    -(difference.get 16 >>> 7) = if 2 ^ 135 ≤ value difference.toList then 255 else 0 := by
  have top : (difference.get 16).toNat = value difference.toList / 256 ^ 16 % 256 :=
    @get_eq_digit 17 _ 16 (by decide)
  have bound := value_lt difference.toList
  rw [List.Vector.toList_length] at bound
  have shifted : (difference.get 16 >>> 7).toNat = (difference.get 16).toNat / 128 := by
    rw [UInt8.toNat_shiftRight]
    exact Nat.shiftRight_eq_div_pow _ 7
  by_cases high : 2 ^ 135 ≤ value difference.toList
  · have one : difference.get 16 >>> 7 = 1 := UInt8.toNat_inj.mp (by
      rw [shifted, top, UInt8.toNat_one]
      omega)
    rw [if_pos high, one]
    rfl
  · have zero : difference.get 16 >>> 7 = 0 := UInt8.toNat_inj.mp (by
      rw [shifted, top, UInt8.toNat_zero]
      omega)
    rw [if_neg high, zero]
    rfl

/-- **`freeze` takes the remainder modulo 2^130 - 5.** -/
theorem value_freeze (h : Bytes 17) (room : value h.toList < 99 * 256 ^ 16) :
    value (freeze h).toList = value h.toList % (2 ^ 130 - 5) := by
  have folded := value_foldTop h room
  have difference := value_add (foldTop h) minusp
  have negative := negative_eq (add (foldTop h) minusp)
  unfold freeze
  simp only [negative]
  rw [value_minusp, folded] at difference
  have parts := Nat.mod_add_div (value h.toList) (2 ^ 130)
  have small := Nat.mod_lt (value h.toList) (show 2 ^ 130 > 0 by decide)
  generalize value h.toList / 2 ^ 130 = a at *
  generalize value h.toList % 2 ^ 130 = b at *
  have multiple : value h.toList = b + 5 * a + (2 ^ 130 - 5) * a := by omega
  by_cases below : b + 5 * a < 2 ^ 130 - 5
  · have borrowed : 2 ^ 135 ≤ value (add (foldTop h) minusp).toList := by
      rw [difference]
      omega
    rw [if_pos borrowed, select_full, folded, multiple, Nat.add_mul_mod_self_left,
      Nat.mod_eq_of_lt below]
  · have kept : value (add (foldTop h) minusp).toList = b + 5 * a - (2 ^ 130 - 5) := by
      rw [difference]
      omega
    rw [if_neg (by rw [kept]; omega), select_zero, kept, multiple, Nat.add_mul_mod_self_left,
      Nat.mod_eq_sub_mod (Nat.not_lt.mp below), Nat.mod_eq_of_lt (by omega)]

/-! ### The authenticator -/

/-- The mask of the first half of a key. -/
def clampMask : List UInt8 := [255, 255, 255, 15, 252, 255, 255, 15, 252, 255, 255, 15, 252, 255, 255, 15]

theorem and_full (x : UInt8) : x &&& 255 = x := by
  apply UInt8.toNat_inj.mp
  rw [UInt8.toNat_and]
  exact (and_255 x.toNat).trans (Nat.mod_eq_of_lt x.toNat_lt)

theorem toList_clamped (k : Bytes 32) :
    (clamped k).toList = List.zipWith (· &&& ·) (k.toList.take 16) clampMask ++ [0] := by
  have bytes : k.toList = List.ofFn k.get := by
    rw [← List.Vector.toList_ofFn, List.Vector.ofFn_get]
  have front : k.toList.take 16 = [k.get 0, k.get 1, k.get 2, k.get 3, k.get 4, k.get 5, k.get 6,
      k.get 7, k.get 8, k.get 9, k.get 10, k.get 11, k.get 12, k.get 13, k.get 14, k.get 15] := by
    rw [bytes]
    rfl
  rw [front]
  simp only [clampMask, List.zipWith_cons_cons, List.zipWith_nil_right, and_full]
  rfl

/-- The first half of the key, with 22 bits cleared. -/
theorem value_clamped (k : Bytes 32) :
    value (clamped k).toList =
      value (k.toList.take 16) &&& 0x0ffffffc0ffffffc0ffffffc0fffffff := by
  have sized : (k.toList.take 16).length = clampMask.length := by
    rw [List.length_take, List.Vector.toList_length]
    rfl
  have mask : value clampMask = 0x0ffffffc0ffffffc0ffffffc0fffffff := by decide
  rw [toList_clamped, value_append, value_and sized, mask]
  rfl

theorem value_clamped_lt (k : Bytes 32) : value (clamped k).toList < 2 ^ 124 := by
  rw [value_clamped]
  exact Nat.and_le_right.trans_lt (by decide)

/-- The array for a block holds the block's number. -/
theorem value_padded (block : List UInt8) (short : block.length ≤ 16) :
    value (padded block short).toList = mark block := by
  show value (block ++ 1 :: List.replicate (16 - block.length) 0) = _
  rw [value_append, value_cons, value_replicate_zero]
  exact congrArg _ (Nat.mul_one _)

/-- One turn of the loop is one of Horner's steps. -/
theorem value_turn {r h : Bytes 17} (small : value r.toList < 2 ^ 124)
    (room : value h.toList < 99 * 256 ^ 16) (block : List UInt8) (short : block.length ≤ 16) :
    value (mulmod (add h (padded block short)) r).toList % (2 ^ 130 - 5) =
        (value h.toList + mark block) * value r.toList % (2 ^ 130 - 5) ∧
      value (mulmod (add h (padded block short)) r).toList < 99 * 256 ^ 16 := by
  have sum := value_add h (padded block short)
  have bound := mark_lt short
  rw [value_padded, Nat.mod_eq_of_lt (by omega)] at sum
  have product := value_mulmod (add h (padded block short)) r small
  rwa [sum] at product

/-- The loop runs Horner's steps on the blocks, from any accumulator. -/
theorem value_authenticate {r : Bytes 17} (small : value r.toList < 2 ^ 124) (message : List UInt8) :
    ∀ {h : Bytes 17}, value h.toList < 99 * 256 ^ 16 →
      value (authenticate r h message).toList < 99 * 256 ^ 16 ∧
        value (authenticate r h message).toList % (2 ^ 130 - 5) =
          (blocks 16 message).foldl (fun acc block => (acc + mark block) * value r.toList)
            (value h.toList) % (2 ^ 130 - 5) := by
  generalize measured : message.length = length
  induction length using Nat.strong_induction_on generalizing message with
  | _ length ih =>
    intro h room
    unfold authenticate
    by_cases nonempty : 0 < message.length
    · obtain ⟨congruent, below⟩ := value_turn small room (message.take 16) (List.length_take_le _ _)
      obtain ⟨bounded, later⟩ := ih (message.drop 16).length (by rw [List.length_drop]; omega)
        (message.drop 16) rfl below
      rw [if_pos nonempty, blocks_of_pos (by decide) nonempty, List.foldl_cons]
      exact ⟨bounded, later.trans (foldl_horner_mod _ _ mark _ congruent)⟩
    · rw [if_neg nonempty, List.length_eq_zero_iff.mp (Nat.eq_zero_of_not_pos nonempty), blocks_nil]
      exact ⟨room, rfl⟩

/-- The first 16 bytes. -/
theorem value_front (x : Bytes 17) :
    value (x.slice 0 16 (by decide)).toList = value x.toList % 256 ^ 16 := by
  have sized : (x.toList.take 16).length = 16 := by
    rw [List.length_take, List.Vector.toList_length]
    rfl
  have low := value_lt (x.toList.take 16)
  have parts := value_split x.toList (show 16 ≤ x.toList.length by
    rw [List.Vector.toList_length]
    decide)
  rw [sized] at low
  rw [Bytes.toList_slice, List.drop_zero, parts, Nat.add_mul_mod_self_left, Nat.mod_eq_of_lt low]

/-- **The result is Poly1305, for every message and key**: the polynomial of the message's blocks at
the clamped first half of the key, modulo 2^130 - 5, plus the second half, modulo 2^128. -/
theorem value_onetimeauth (message : List UInt8) (k : Bytes 32) :
    value (onetimeauth message k).toList =
      (polynomial (value (k.toList.take 16) &&& 0x0ffffffc0ffffffc0ffffffc0fffffff)
          ((blocks 16 message).map mark) % (2 ^ 130 - 5) +
        value (k.toList.drop 16)) % 2 ^ 128 := by
  have zero : value (Bytes.zeros 17).toList = 0 := value_replicate_zero 17
  obtain ⟨room, congruent⟩ := value_authenticate (value_clamped_lt k) message
    (show value (Bytes.zeros 17).toList < 99 * 256 ^ 16 by rw [zero]; decide)
  have frozen := value_freeze _ room
  rw [congruent, zero, foldl_horner, value_clamped] at frozen
  have second : value (k.slice 16 16 (by decide) ++ Bytes.zeros 1 : Bytes 17).toList =
      value (k.toList.drop 16) := by
    have rest : (k.toList.drop 16).take 16 = k.toList.drop 16 := by
      rw [List.take_of_length_le (by rw [List.length_drop, List.Vector.toList_length])]
    rw [List.Vector.toList_append, value_append, Bytes.toList_slice, rest, Bytes.toList_zeros,
      value_replicate_zero, Nat.mul_zero, Nat.add_zero]
  have sum := value_add (freeze (authenticate (clamped k) (Bytes.zeros 17) message))
    (k.slice 16 16 (by decide) ++ Bytes.zeros 1)
  rw [frozen, second] at sum
  refine (value_front _).trans ?_
  rw [sum, show 256 ^ 17 = 256 ^ 16 * 256 from rfl, Nat.mod_mul_right_mod,
    show 256 ^ 16 = 2 ^ 128 by decide]

end Esloq.Nacl.Poly1305
