/-
**The two cores of the app's NaCl (`crypto_core/salsa20.c`, `crypto_core/hsalsa20.c`).**

`salsa20.c` keeps a word in four bytes and rotates it byte by byte; `hsalsa20.c` keeps words in
`crypto_uint32` and has one kind of round, which transposes the state as it goes.

* `Salsa20.core` — `crypto_core_salsa20`; its rounds are the double rounds on 32-bit words
  (`words_salsa20Rounds`).
* `Hsalsa20.core` — `crypto_core_hsalsa20`, for a `crypto_uint32` of any width: the header makes it
  `unsigned long`, which has 32 bits in the builds for `armeabi`, `armeabi-v7a`, `x86` and `mips`,
  and 64 in those for `x86_64` and `mips64`.
* `hsalsa20_eq_salsa20` — with 32 bits the two cores agree: what `hsalsa20.c` returns is what
  `salsa20.c` returns less the words of the constant and of the input.
-/

import Esloq.Lib.Arx
import Esloq.Nacl.Bigint
import Mathlib.Data.List.OfFn

namespace Esloq.Nacl

open LittleEndian Arx

variable {size : Nat}

/-! ### Words of four bytes -/

/-- `myu32`. -/
abbrev Myu32 := Bytes 4

namespace Salsa20

/-- `myu32_load_littleendian`. -/
def load (x : Bytes size) (offset : Nat) (fits : offset + 4 ≤ size) : Myu32 := x.slice offset 4 fits

/-- `myu32_xor`. -/
def xor (x y : Myu32) : Myu32 := ⟨List.zipWith (· ^^^ ·) x.toList y.toList, by
  rw [List.length_zipWith, List.Vector.toList_length, List.Vector.toList_length]
  rfl⟩

/-- `myu32_add`. -/
def add (x y : Myu32) : Myu32 := (bigintAdd x y).1

/-- An index masked with 3. -/
def masked (i : Nat) : Fin 4 := ⟨i &&& 3, Nat.lt_of_le_of_lt Nat.and_le_right (by decide)⟩

/-- `myu32_rol`. -/
def rol (r : Myu32) (n : Nat) : Myu32 :=
  let u := (32 - n) >>> 3
  let l := (32 - n) &&& 7
  List.Vector.ofFn fun i : Fin 4 =>
    UInt8.ofNat (((r.get (masked (i + u + 1))).toNat <<< (8 - l)) |||
      ((r.get (masked (i + u))).toNat >>> l))

/-- The variables are numbered below 16. -/
theorem numbered (i : Fin 16) : i.val < 16 := i.isLt

/-- `quarterround`, on four of the sixteen variables. -/
def quarterround (x : Vector Myu32 16) (a b c d : Fin 16) : Vector Myu32 16 :=
  let t := rol (add (x.get a) (x.get b)) 7
  let x := x.set c (xor (x.get c) t) (numbered c)
  let t := rol (add (x.get c) (x.get a)) 9
  let x := x.set d (xor (x.get d) t) (numbered d)
  let t := rol (add (x.get d) (x.get c)) 13
  let x := x.set b (xor (x.get b) t) (numbered b)
  let t := rol (add (x.get b) (x.get d)) 18
  x.set a (xor (x.get a) t) (numbered a)

-- The numerals in a turn number variables.
local instance sixteen : NeZero 16 := ⟨by decide⟩

/-- One turn of the loop of `crypto_core_salsa20`. -/
def twoRounds (x : Vector Myu32 16) : Vector Myu32 16 :=
  let x := quarterround x 0 12 4 8
  let x := quarterround x 5 1 9 13
  let x := quarterround x 10 6 14 2
  let x := quarterround x 15 11 3 7
  let x := quarterround x 0 3 1 2
  let x := quarterround x 5 4 6 7
  let x := quarterround x 10 9 11 8
  quarterround x 15 14 12 13

/-- `ROUNDS`. -/
def rounds : Nat := 20

/-- `x0` to `x15`, and `j0` to `j15`. -/
def start (input : Bytes 16) (k : Bytes 32) (c : Bytes 16) : Vector Myu32 16 :=
  #v[load c 0 (by decide), load k 0 (by decide), load k 4 (by decide), load k 8 (by decide),
    load k 12 (by decide), load c 4 (by decide), load input 0 (by decide), load input 4 (by decide),
    load input 8 (by decide), load input 12 (by decide), load c 8 (by decide), load k 16 (by decide),
    load k 20 (by decide), load k 24 (by decide), load k 28 (by decide), load c 12 (by decide)]

/-- The sixteen stores of `myu32_store_littleendian`. -/
def store (x : Vector Myu32 16) : Bytes 64 := ⟨x.toList.flatMap List.Vector.toList, by
  rw [List.length_flatMap]
  simp only [List.Vector.toList_length, List.map_const', List.sum_replicate, Vector.length_toList]
  rfl⟩

/-- `crypto_core_salsa20`. -/
def core (input : Bytes 16) (k : Bytes 32) (c : Bytes 16) : Bytes 64 :=
  let j := start input k c
  let x := twoRounds^[rounds / 2] j
  store (Vector.zipWith add x j)

end Salsa20

/-! ### Words of 32 bits or more -/

namespace Hsalsa20

variable {width : Nat}

/-- `L32`. -/
def l32 (x : BitVec width) (c : Nat) : BitVec width := (x <<< c) ||| (x >>> (32 - c))

/-- `ld32(x + offset)`. -/
def ld32 (x : Bytes size) (offset : Nat) (fits : offset + 4 ≤ size) : BitVec width :=
  let byte := fun (i : Nat) (inside : i < 4) =>
    BitVec.ofNat width (x.get ⟨offset + i, by omega⟩).toNat
  let u := byte 3 (by decide)
  let u := (u <<< 8) ||| byte 2 (by decide)
  let u := (u <<< 8) ||| byte 1 (by decide)
  (u <<< 8) ||| byte 0 (by decide)

/-- The loop of `st32`, for the bytes that are left. -/
def st32 : Nat → BitVec width → List UInt8
  | 0, _ => []
  | left + 1, u => UInt8.ofNat u.toNat :: st32 left (u >>> 8)

/-- The first loop of `core`: the constant, the key and the input, word by word. -/
def start (input : Bytes 16) (k : Bytes 32) (c : Bytes 16) : Vector (BitVec width) 16 :=
  (List.finRange 4).foldl (fun x (i : Fin 4) =>
    let x := x.set (5 * i.val) (ld32 c (4 * i.val) (by omega))
    let x := x.set (1 + i.val) (ld32 k (4 * i.val) (by omega))
    let x := x.set (6 + i.val) (ld32 input (4 * i.val) (by omega))
    x.set (11 + i.val) (ld32 k (16 + 4 * i.val) (by omega))) (Vector.replicate 16 0)

/-- One column of a round: four words of `x` are mixed and written to a row of `w`. -/
def column (x w : Vector (BitVec width) 16) (j : Fin 4) : Vector (BitVec width) 16 :=
  let t0 := x[(5 * j.val + 4 * 0) % 16]
  let t1 := x[(5 * j.val + 4 * 1) % 16]
  let t2 := x[(5 * j.val + 4 * 2) % 16]
  let t3 := x[(5 * j.val + 4 * 3) % 16]
  let t1 := t1 ^^^ l32 (t0 + t3) 7
  let t2 := t2 ^^^ l32 (t1 + t0) 9
  let t3 := t3 ^^^ l32 (t2 + t1) 13
  let t0 := t0 ^^^ l32 (t3 + t2) 18
  let w := w.set (4 * j.val + (j.val + 0) % 4) t0
  let w := w.set (4 * j.val + (j.val + 1) % 4) t1
  let w := w.set (4 * j.val + (j.val + 2) % 4) t2
  w.set (4 * j.val + (j.val + 3) % 4) t3

/-- A round; every word of `w` is written. -/
def round (x : Vector (BitVec width) 16) : Vector (BitVec width) 16 :=
  (List.finRange 4).foldl (column x) (Vector.replicate 16 0)

/-- The loop that takes the constant and the input off again. -/
def takeOff (input c : Bytes 16) (x : Vector (BitVec width) 16) : Vector (BitVec width) 16 :=
  (List.finRange 4).foldl (fun x (i : Fin 4) =>
    let x := x.set (5 * i.val) (x[5 * i.val] - ld32 c (4 * i.val) (by omega))
    x.set (6 + i.val) (x[6 + i.val] - ld32 input (4 * i.val) (by omega))) x

/-- The last loop: the words 0, 5, 10 and 15 and then 6 to 9. -/
def output (x : Vector (BitVec width) 16) : Bytes 32 :=
  ⟨((List.finRange 4).flatMap fun i : Fin 4 => st32 4 x[5 * i.val]) ++
    ((List.finRange 4).flatMap fun i : Fin 4 => st32 4 x[6 + i.val]), rfl⟩

/-- `crypto_core_hsalsa20`, with `crypto_uint32` of `width` bits. -/
def core (width : Nat) (input : Bytes 16) (k : Bytes 32) (c : Bytes 16) : Bytes 32 :=
  let y : Vector (BitVec width) 16 := start input k c
  let x := round^[20] y
  output (takeOff input c (Vector.zipWith (· + ·) x y))

end Hsalsa20

/-! ### Four bytes as a word -/

/-- The word that four bytes hold. -/
def word (x : Myu32) : BitVec 32 := BitVec.ofNat 32 (value x.toList)

theorem word_add (x y : Myu32) : word (Salsa20.add x y) = word x + word y := by
  apply BitVec.eq_of_toNat_eq
  have sum := value_bigintAdd_mod x y
  unfold word Salsa20.add
  rw [sum, BitVec.toNat_add, BitVec.toNat_ofNat, BitVec.toNat_ofNat, BitVec.toNat_ofNat,
    ← Nat.add_mod]
  exact Nat.mod_mod _ _

theorem word_xor (x y : Myu32) : word (Salsa20.xor x y) = word x ^^^ word y := by
  have both := @value_xor x.toList y.toList (by
    rw [List.Vector.toList_length, List.Vector.toList_length])
  unfold word
  rw [← BitVec.ofNat_xor, ← both]
  rfl

/-- A bit of four bytes, counted around. -/
def bit (x : Myu32) (position : Nat) : Bool :=
  (x.get (Salsa20.masked (position / 8))).toNat.testBit (position % 8)

theorem masked_eq {i k : Nat} (same : i % 4 = k % 4) : Salsa20.masked i = Salsa20.masked k := by
  apply Fin.ext
  show i &&& 2 ^ 2 - 1 = k &&& 2 ^ 2 - 1
  rw [Nat.and_two_pow_sub_one_eq_mod, Nat.and_two_pow_sub_one_eq_mod]
  exact same

theorem masked_val (i : Fin 4) : Salsa20.masked i.val = i := by
  apply Fin.ext
  show i.val &&& 2 ^ 2 - 1 = i.val
  rw [Nat.and_two_pow_sub_one_eq_mod]
  exact Nat.mod_eq_of_lt i.isLt

theorem getLsbD_word (x : Myu32) {position : Nat} (inside : position < 32) :
    (word x).getLsbD position = bit x position := by
  have byte : position / 8 < 4 := by omega
  have here : x.toList.getD (position / 8) 0 = x.get (Salsa20.masked (position / 8)) := by
    rw [masked_val ⟨position / 8, byte⟩, List.Vector.get_eq_get_toList,
      List.getD_eq_getElem _ _ (by rwa [List.Vector.toList_length])]
    rfl
  rw [word, BitVec.getLsbD_ofNat, decide_eq_true inside, Bool.true_and, testBit_value, here]
  rfl

/-- A byte of the rotated word, bit by bit. -/
theorem testBit_rol (r : Myu32) {n : Nat} (i : Fin 4) {j : Nat} (inside : j < 8) :
    ((Salsa20.rol r n).get i).toNat.testBit j = bit r (8 * i.val + j + (32 - n)) := by
  have bytes : (32 - n) >>> 3 = (32 - n) / 8 := Nat.shiftRight_eq_div_pow _ 3
  have bits : (32 - n) &&& 7 = (32 - n) % 8 := Nat.and_two_pow_sub_one_eq_mod _ 3
  unfold Salsa20.rol bit
  rw [List.Vector.get_ofFn, bytes, bits, UInt8.toNat_ofNat', Nat.testBit_mod_two_pow,
    decide_eq_true inside, Bool.true_and, Nat.testBit_or, Nat.testBit_shiftLeft,
    Nat.testBit_shiftRight]
  by_cases low : j + (32 - n) % 8 < 8
  · have source : Salsa20.masked (i.val + (32 - n) / 8) =
        Salsa20.masked ((8 * i.val + j + (32 - n)) / 8) := masked_eq (by omega)
    have place : (32 - n) % 8 + j = (8 * i.val + j + (32 - n)) % 8 := by omega
    rw [decide_eq_false (by omega), Bool.false_and, Bool.false_or, source, place]
  · have source : Salsa20.masked (i.val + (32 - n) / 8 + 1) =
        Salsa20.masked ((8 * i.val + j + (32 - n)) / 8) := masked_eq (by omega)
    have place : j - (8 - (32 - n) % 8) = (8 * i.val + j + (32 - n)) % 8 := by omega
    have beyond : (r.get (Salsa20.masked (i.val + (32 - n) / 8))).toNat.testBit ((32 - n) % 8 + j) =
        false := by
      apply Nat.testBit_lt_two_pow
      calc (r.get (Salsa20.masked (i.val + (32 - n) / 8))).toNat < 2 ^ 8 := UInt8.toNat_lt _
        _ ≤ 2 ^ ((32 - n) % 8 + j) := Nat.pow_le_pow_right (by decide) (by omega)
    rw [decide_eq_true (by omega), Bool.true_and, beyond, Bool.or_false, source, place]

/-- The rotation byte by byte is the rotation of the word. -/
theorem word_rol (r : Myu32) {n : Nat} (inside : n < 32) :
    word (Salsa20.rol r n) = Hsalsa20.l32 (word r) n := by
  apply BitVec.eq_of_getLsbD_eq
  intro p small
  have split : p = 8 * (p / 8) + p % 8 := by omega
  have rotated := @testBit_rol r n ⟨p / 8, by omega⟩ (p % 8) (Nat.mod_lt _ (by decide))
  rw [getLsbD_word _ small, bit, masked_val ⟨p / 8, by omega⟩, rotated]
  show bit r (8 * (p / 8) + p % 8 + (32 - n)) = _
  rw [← split, Hsalsa20.l32, BitVec.getLsbD_or, BitVec.getLsbD_shiftLeft, BitVec.getLsbD_ushiftRight,
    decide_eq_true small, Bool.true_and]
  by_cases wraps : p < n
  · have around := @getLsbD_word r (32 - n + p) (by omega)
    rw [decide_eq_true wraps, around, Nat.add_comm p]
    rfl
  · have above : (word r).getLsbD (32 - n + p) = false := BitVec.getLsbD_of_ge _ _ (by omega)
    have turned : Salsa20.masked ((p + (32 - n)) / 8) = Salsa20.masked ((p - n) / 8) :=
      masked_eq (by omega)
    have place : (p + (32 - n)) % 8 = (p - n) % 8 := by omega
    rw [decide_eq_false wraps, getLsbD_word r (by omega), above, Bool.or_false, bit, bit, turned, place]
    rfl

/-! ### The rounds on bytes are double rounds on words -/

/-- The operations of `salsa20.c`. -/
def bytesOps : Ops Myu32 := ⟨Salsa20.add, Salsa20.xor, Salsa20.rol⟩

/-- The operations of `hsalsa20.c`. -/
def wordOps (width : Nat) : Ops (BitVec width) := ⟨(· + ·), (· ^^^ ·), Hsalsa20.l32⟩

theorem keeps_word : Keeps bytesOps (wordOps 32) word where
  add := word_add
  xor := word_xor
  rotl x _ inside := word_rol x inside

/-- A quarter round in place, on four different variables. -/
theorem quarterround_eq (x : Vector Myu32 16) {a b c d : Fin 16} (apart : [a, b, c, d].Nodup) :
    Salsa20.quarterround x a b c d = quarterAt bytesOps a c d b x := by
  simp only [List.nodup_cons, List.mem_cons, List.not_mem_nil, or_false, not_or, Fin.ext_iff] at apart
  obtain ⟨⟨ab, ac, ad⟩, ⟨bc, bd⟩, cd, _⟩ := apart
  have read : ∀ (y : Vector Myu32 16) (i : Fin 16), y.get i = y[i.val] := fun _ _ => rfl
  -- A word that a step reads was written by an earlier one or is still that of `x`.
  simp only [Salsa20.quarterround, quarterAt, quarter, bytesOps, read, Fin.getElem_fin,
    Vector.getElem_set_self, Vector.getElem_set_ne _ _ cd, Vector.getElem_set_ne _ _ bd,
    Vector.getElem_set_ne _ _ (Ne.symm ab), Vector.getElem_set_ne _ _ (Ne.symm ac),
    Vector.getElem_set_ne _ _ (Ne.symm ad), Vector.getElem_set_ne _ _ (Ne.symm bc),
    Vector.getElem_set_ne _ _ (Ne.symm bd), Vector.getElem_set_ne _ _ (Ne.symm cd)]

theorem twoRounds_eq (x : Vector Myu32 16) : Salsa20.twoRounds x = doubleRound bytesOps x := by
  simp only [Salsa20.twoRounds, doubleRound, columnRound, rowRound]
  rw [quarterround_eq x (by decide), quarterround_eq _ (by decide), quarterround_eq _ (by decide),
    quarterround_eq _ (by decide), quarterround_eq _ (by decide), quarterround_eq _ (by decide),
    quarterround_eq _ (by decide), quarterround_eq _ (by decide)]

/-- **The rounds of `salsa20.c`, on bytes, are double rounds on words of 32 bits.** -/
theorem words_salsa20Rounds (x : Vector Myu32 16) (count : Nat) :
    (Salsa20.twoRounds^[count] x).map word = (doubleRound (wordOps 32))^[count] (x.map word) := by
  have same : Salsa20.twoRounds = doubleRound bytesOps := funext twoRounds_eq
  rw [same]
  exact map_iterate_doubleRound keeps_word count x

/-! ### The rounds that transpose -/

section Transposing

variable {width : Nat} (x : Vector (BitVec width) 16)

/-- One column, mixed. -/
def mixed (j : Fin 4) : BitVec width × BitVec width × BitVec width × BitVec width :=
  quarter (wordOps width) x[(5 * j.val + 4 * 0) % 16] x[(5 * j.val + 4 * 1) % 16]
    x[(5 * j.val + 4 * 2) % 16] x[(5 * j.val + 4 * 3) % 16]

theorem column_eq (w : Vector (BitVec width) 16) (j : Fin 4) :
    Hsalsa20.column x w j =
      (((w.set (4 * j.val + (j.val + 0) % 4) (mixed x j).1).set (4 * j.val + (j.val + 1) % 4)
        (mixed x j).2.1).set (4 * j.val + (j.val + 2) % 4) (mixed x j).2.2.1).set
          (4 * j.val + (j.val + 3) % 4) (mixed x j).2.2.2 := rfl

/-- The words that a round leaves, row by row. -/
theorem round_eq : Hsalsa20.round x =
    #v[(mixed x 0).1, (mixed x 0).2.1, (mixed x 0).2.2.1, (mixed x 0).2.2.2,
      (mixed x 1).2.2.2, (mixed x 1).1, (mixed x 1).2.1, (mixed x 1).2.2.1,
      (mixed x 2).2.2.1, (mixed x 2).2.2.2, (mixed x 2).1, (mixed x 2).2.1,
      (mixed x 3).2.1, (mixed x 3).2.2.1, (mixed x 3).2.2.2, (mixed x 3).1] := by
  show Hsalsa20.column x (Hsalsa20.column x (Hsalsa20.column x (Hsalsa20.column x
    (Vector.replicate 16 0) 0) 1) 2) 3 = _
  rw [column_eq, column_eq, column_eq, column_eq]
  rfl

/-- **A round of `hsalsa20.c` is the round of the columns, transposed.** -/
theorem round_eq_transpose : Hsalsa20.round x = transpose (columnRound (wordOps width) x) := by
  obtain ⟨c0, c1, c2, c3⟩ := columnRound_words (wordOps width) x
  have m0 : mixed x 0 = _ := c0.symm
  have m1 : mixed x 1 = _ := c1.symm
  have m2 : mixed x 2 = _ := c2.symm
  have m3 : mixed x 3 = _ := c3.symm
  rw [round_eq, transpose_words, m0, m1, m2, m3]

/-- Two rounds are a double round. -/
theorem iterate_round (count : Nat) :
    Hsalsa20.round^[2 * count] x = (doubleRound (wordOps width))^[count] x := by
  have twice : Hsalsa20.round^[2] = doubleRound (wordOps width) := by
    funext y
    show Hsalsa20.round (Hsalsa20.round y) = _
    rw [round_eq_transpose, round_eq_transpose, transpose_columnRound_twice]
  rw [Function.iterate_mul, twice]

end Transposing

/-! ### What the cores return, word by word -/

/-- Four bytes of an array. -/
theorem toList_slice_four (x : Bytes size) (offset : Nat) (fits : offset + 4 ≤ size) :
    (x.slice offset 4 fits).toList =
      [x.get ⟨offset, by omega⟩, x.get ⟨offset + 1, by omega⟩, x.get ⟨offset + 2, by omega⟩,
        x.get ⟨offset + 3, by omega⟩] := by
  have sized := x.toList_length
  have byte : ∀ (i : Nat) (inside : i < size), x.get ⟨i, inside⟩ = x.toList[i] := fun i inside =>
    List.Vector.get_eq_get_toList x ⟨i, inside⟩
  rw [Bytes.toList_slice, List.drop_eq_getElem_cons (by omega), List.drop_eq_getElem_cons (by omega),
    List.drop_eq_getElem_cons (by omega), List.drop_eq_getElem_cons (by omega)]
  simp only [byte]
  rfl

/-- A byte shifted into a word that has room for it. -/
theorem shiftLeft_or_byte {u : BitVec 32} {low : Nat} (value : u.toNat = low) (room : low < 2 ^ 24)
    (byte : UInt8) :
    ((u <<< 8) ||| BitVec.ofNat 32 byte.toNat).toNat = byte.toNat + 256 * low := by
  have small := byte.toNat_lt
  rw [BitVec.toNat_or, BitVec.toNat_shiftLeft, value, BitVec.toNat_ofNat, Nat.mod_eq_of_lt (by omega),
    Nat.shiftLeft_eq, Nat.mod_eq_of_lt (by omega), ← Nat.shiftLeft_eq,
    ← Nat.shiftLeft_add_eq_or_of_lt (by omega), Nat.shiftLeft_eq]
  omega

/-- `ld32` reads the word that `myu32_load_littleendian` keeps in bytes. -/
theorem ld32_eq (x : Bytes size) (offset : Nat) (fits : offset + 4 ≤ size) :
    Hsalsa20.ld32 x offset fits = word (Salsa20.load x offset fits) := by
  apply BitVec.eq_of_toNat_eq
  have b0 := (x.get ⟨offset, by omega⟩).toNat_lt
  have b1 := (x.get ⟨offset + 1, by omega⟩).toNat_lt
  have b2 := (x.get ⟨offset + 2, by omega⟩).toNat_lt
  have b3 := (x.get ⟨offset + 3, by omega⟩).toNat_lt
  have top : (BitVec.ofNat 32 (x.get ⟨offset + 3, by omega⟩).toNat).toNat =
      (x.get ⟨offset + 3, by omega⟩).toNat := by
    rw [BitVec.toNat_ofNat, Nat.mod_eq_of_lt (by omega)]
  have two := shiftLeft_or_byte top (by omega) (x.get ⟨offset + 2, by omega⟩)
  have three := shiftLeft_or_byte two (by omega) (x.get ⟨offset + 1, by omega⟩)
  have four := shiftLeft_or_byte three (by omega) (x.get ⟨offset, by omega⟩)
  refine four.trans ?_
  rw [word, BitVec.toNat_ofNat, Salsa20.load, toList_slice_four]
  simp only [value_cons, value_nil]
  omega

/-- The word at a multiple of four. -/
def wordAt (x : Bytes size) (i : Nat) (fits : 4 * i + 4 ≤ size) : BitVec 32 :=
  Hsalsa20.ld32 x (4 * i) fits

/-- A part of words that are stored one after the other. -/
theorem take_drop_flatMap {α : Type} {bytes : α → List UInt8} (sized : ∀ u, (bytes u).length = 4) :
    ∀ (words : List α) (i : Nat) (inside : i < words.length),
      ((words.flatMap bytes).drop (4 * i)).take 4 = bytes words[i]
  | [], _, inside => absurd inside (Nat.not_lt_zero _)
  | u :: words, 0, _ => by
      rw [List.flatMap_cons]
      exact List.take_left' (sized u)
  | u :: words, i + 1, inside => by
      rw [List.flatMap_cons, Nat.mul_succ, Nat.add_comm, ← List.drop_drop, List.drop_left' (sized u)]
      exact take_drop_flatMap sized words i (Nat.lt_of_succ_lt_succ inside)

/-- The state that both cores start from, in words. -/
def startWords (input : Bytes 16) (k : Bytes 32) (c : Bytes 16) : Grid (BitVec 32) :=
  (Salsa20.start input k c).map word

/-- The state after all rounds. -/
def mixedWords (input : Bytes 16) (k : Bytes 32) (c : Bytes 16) : Grid (BitVec 32) :=
  (doubleRound (wordOps 32))^[10] (startWords input k c)

theorem start_words (input : Bytes 16) (k : Bytes 32) (c : Bytes 16) :
    (Hsalsa20.start input k c : Vector (BitVec 32) 16) =
      #v[Hsalsa20.ld32 c 0 (by decide), Hsalsa20.ld32 k 0 (by decide), Hsalsa20.ld32 k 4 (by decide),
        Hsalsa20.ld32 k 8 (by decide), Hsalsa20.ld32 k 12 (by decide), Hsalsa20.ld32 c 4 (by decide),
        Hsalsa20.ld32 input 0 (by decide), Hsalsa20.ld32 input 4 (by decide),
        Hsalsa20.ld32 input 8 (by decide), Hsalsa20.ld32 input 12 (by decide),
        Hsalsa20.ld32 c 8 (by decide), Hsalsa20.ld32 k 16 (by decide),
        Hsalsa20.ld32 k 20 (by decide), Hsalsa20.ld32 k 24 (by decide),
        Hsalsa20.ld32 k 28 (by decide), Hsalsa20.ld32 c 12 (by decide)] := rfl

theorem start_eq (input : Bytes 16) (k : Bytes 32) (c : Bytes 16) :
    Hsalsa20.start input k c = startWords input k c := by
  rw [start_words]
  simp only [ld32_eq, startWords, Salsa20.start, Vector.map_mk, List.map_toArray, List.map_cons,
    List.map_nil]

/-- `crypto_core_salsa20` returns the state after all rounds plus the state before them. -/
theorem salsa20_words (input : Bytes 16) (k : Bytes 32) (c : Bytes 16) (i : Nat) (inside : i < 16) :
    wordAt (Salsa20.core input k c) i (by omega) =
      (mixedWords input k c)[i] + (startWords input k c)[i] := by
  have rounds := words_salsa20Rounds (Salsa20.start input k c) 10
  have part := @take_drop_flatMap Myu32 List.Vector.toList (fun u => u.toList_length)
    (Vector.zipWith Salsa20.add (Salsa20.twoRounds^[10] (Salsa20.start input k c))
      (Salsa20.start input k c)).toList i (by rwa [Vector.length_toList])
  rw [wordAt, ld32_eq]
  have here : Salsa20.load (Salsa20.core input k c) (4 * i) (by omega) =
      Salsa20.add (Salsa20.twoRounds^[10] (Salsa20.start input k c))[i] (Salsa20.start input k c)[i] := by
    apply Bytes.ext
    refine part.trans ?_
    rw [Vector.getElem_toList, Vector.getElem_zipWith]
  rw [here, word_add]
  refine congr (congrArg _ ?_) ?_
  · unfold mixedWords startWords
    rw [← rounds]
    exact (Vector.getElem_map word inside).symm
  · exact (Vector.getElem_map word inside).symm

/-- `st32` writes the digits of a word. -/
theorem st32_eq : ∀ (left : Nat) (u : BitVec 32), Hsalsa20.st32 left u = encode left u.toNat
  | 0, _ => rfl
  | left + 1, u => by
      rw [Hsalsa20.st32, encode, st32_eq left, BitVec.toNat_ushiftRight, Nat.shiftRight_eq_div_pow]

theorem word_st32 (u : BitVec 32) (x : Myu32) (stored : x.toList = Hsalsa20.st32 4 u) : word x = u := by
  apply BitVec.eq_of_toNat_eq
  rw [word, stored, st32_eq, value_encode, BitVec.toNat_ofNat]
  have := u.isLt
  omega

/-- What the loop takes off. -/
theorem takeOff_words (input c : Bytes 16) (x : Vector (BitVec 32) 16) (i : Fin 4) :
    (Hsalsa20.takeOff input c x)[5 * i.val] = x[5 * i.val] - Hsalsa20.ld32 c (4 * i.val) (by omega) ∧
      (Hsalsa20.takeOff input c x)[6 + i.val] =
        x[6 + i.val] - Hsalsa20.ld32 input (4 * i.val) (by omega) := by
  have unrolled : List.finRange 4 = [0, 1, 2, 3] := rfl
  unfold Hsalsa20.takeOff
  rw [unrolled]
  match i with
  | 0 | 1 | 2 | 3 => constructor <;> simp [Vector.getElem_set]

/-- The words that `core` stores, in order. -/
def stored (x : Vector (BitVec 32) 16) : List (BitVec 32) :=
  [x[0], x[5], x[10], x[15], x[6], x[7], x[8], x[9]]

theorem wordAt_output (x : Vector (BitVec 32) 16) (i : Fin 4) :
    wordAt (Hsalsa20.output x) i.val (by omega) = x[5 * i.val] ∧
      wordAt (Hsalsa20.output x) (4 + i.val) (by omega) = x[6 + i.val] := by
  have part := @take_drop_flatMap (BitVec 32) (Hsalsa20.st32 4) (fun _ => rfl) (stored x)
  have front : (stored x)[i.val]? = some x[5 * i.val] := by
    fin_cases i <;> rfl
  have back : (stored x)[4 + i.val]? = some x[6 + i.val] := by
    fin_cases i <;> rfl
  obtain ⟨inFront, front⟩ := List.getElem?_eq_some_iff.mp front
  obtain ⟨inBack, back⟩ := List.getElem?_eq_some_iff.mp back
  rw [wordAt, wordAt, ld32_eq, ld32_eq, ← front, ← back]
  exact ⟨word_st32 _ _ (part i.val inFront), word_st32 _ _ (part (4 + i.val) inBack)⟩

/-- Where the constant and the input stand. -/
theorem startWords_words (input : Bytes 16) (k : Bytes 32) (c : Bytes 16) (i : Fin 4) :
    (startWords input k c)[5 * i.val] = wordAt c i.val (by omega) ∧
      (startWords input k c)[6 + i.val] = wordAt input i.val (by omega) := by
  rw [← start_eq, start_words]
  fin_cases i <;> exact ⟨rfl, rfl⟩

/-- `crypto_core_hsalsa20` returns eight words of the state after all rounds. -/
theorem hsalsa20_words (input : Bytes 16) (k : Bytes 32) (c : Bytes 16) (i : Fin 4) :
    wordAt (Hsalsa20.core 32 input k c) i.val (by omega) = (mixedWords input k c)[5 * i.val] ∧
      wordAt (Hsalsa20.core 32 input k c) (4 + i.val) (by omega) =
        (mixedWords input k c)[6 + i.val] := by
  obtain ⟨constant, nonce⟩ := startWords_words input k c i
  have rounds : Hsalsa20.round^[20] (startWords input k c) = mixedWords input k c :=
    iterate_round (startWords input k c) 10
  have taken := takeOff_words input c (Vector.zipWith (· + ·) (mixedWords input k c)
    (startWords input k c)) i
  rw [Vector.getElem_zipWith, Vector.getElem_zipWith, constant, nonce] at taken
  have stored := wordAt_output (Hsalsa20.takeOff input c (Vector.zipWith (· + ·)
    (mixedWords input k c) (startWords input k c))) i
  have whole : Hsalsa20.core 32 input k c = Hsalsa20.output (Hsalsa20.takeOff input c
      (Vector.zipWith (· + ·) (mixedWords input k c) (startWords input k c))) := by
    show Hsalsa20.output (Hsalsa20.takeOff input c (Vector.zipWith (· + ·)
      (Hsalsa20.round^[20] (Hsalsa20.start input k c)) (Hsalsa20.start input k c))) = _
    rw [start_eq, rounds]
  rw [whole, stored.1, stored.2, taken.1, taken.2]
  exact ⟨BitVec.add_sub_cancel _ _, BitVec.add_sub_cancel _ _⟩

/-- **With words of 32 bits the two cores agree**: `hsalsa20.c` returns the words of `salsa20.c` at
the places of the constant and of the input, less the constant and the input. -/
theorem hsalsa20_eq_salsa20 (input : Bytes 16) (k : Bytes 32) (c : Bytes 16) (i : Fin 4) :
    wordAt (Hsalsa20.core 32 input k c) i.val (by omega) =
        wordAt (Salsa20.core input k c) (5 * i.val) (by omega) - wordAt c i.val (by omega) ∧
      wordAt (Hsalsa20.core 32 input k c) (4 + i.val) (by omega) =
        wordAt (Salsa20.core input k c) (6 + i.val) (by omega) - wordAt input i.val (by omega) := by
  obtain ⟨constant, nonce⟩ := startWords_words input k c i
  obtain ⟨front, back⟩ := hsalsa20_words input k c i
  have here := salsa20_words input k c (5 * i.val) (by omega)
  have there := salsa20_words input k c (6 + i.val) (by omega)
  rw [constant] at here
  rw [nonce] at there
  rw [front, back, here, there]
  exact ⟨(BitVec.add_sub_cancel _ _).symm, (BitVec.add_sub_cancel _ _).symm⟩

-- `L32` shifts the carries beyond 32 bits back in, so the builds with 64 bits derive other keys.
example : Hsalsa20.core 64 (Bytes.zeros 16) ⟨List.replicate 32 1, rfl⟩ (Bytes.zeros 16) ≠
    Hsalsa20.core 32 (Bytes.zeros 16) ⟨List.replicate 32 1, rfl⟩ (Bytes.zeros 16) := by
  decide +kernel

end Esloq.Nacl
