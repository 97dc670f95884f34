/-
**The stream cipher of the app's NaCl (`crypto_stream/salsa20.c`, `crypto_stream/xsalsa20.c`).**

The message is combined with blocks of 64 bytes, each made from the nonce and a counter of 8 bytes.

* `streamSalsa20Xor` — `crypto_stream_salsa20_xor`: whole blocks while there are 64 bytes, then what
  is left; without a message the blocks themselves.
* `keystream` — byte `i` is byte `i % 64` of the block for the counter `i / 64`; with it a message of any
  length is combined, and without a message it is written (`streamSalsa20Xor_eq_mapIdx`).
* `streamXsalsa20Xor` — `crypto_stream_xsalsa20_xor`, under the key that `hsalsa20.c` makes of the
  first 16 bytes of the nonce; twice is nothing (`streamXsalsa20Xor_involutive`).
-/

import Esloq.Crypto
import Esloq.Nacl.Core

namespace Esloq.Nacl

open LittleEndian

/-- The constant of both stream ciphers, `expand 32-byte k`. -/
def sigma : Bytes 16 :=
  ⟨[0x65, 0x78, 0x70, 0x61, 0x6e, 0x64, 0x20, 0x33, 0x32, 0x2d, 0x62, 0x79, 0x74, 0x65, 0x20, 0x6b],
    rfl⟩

/-! ### The blocks -/

/-- What is written for a block `x`: combined with the message, if there is one, else itself. -/
def combine (m : Option (List UInt8)) (x : List UInt8) : List UInt8 :=
  match m with
  | some m => List.zipWith (· ^^^ ·) m x
  | none => x

/-- The array `u`, which holds one. -/
def one : Bytes 8 := ⟨[1, 0, 0, 0, 0, 0, 0, 0], rfl⟩

/-- `bigint_add(z+8,z+8,u,8)`. -/
def raiseCounter (z : Bytes 16) : Bytes 16 :=
  z.slice 0 8 (by decide) ++ (bigintAdd (z.slice 8 8 (by decide)) one).1

/-- The loop of `crypto_stream_salsa20_xor`, and the part of a block behind it. -/
def blocksFrom (k : Bytes 32) (m : Option (List UInt8)) (mlen : Nat) (z : Bytes 16) : List UInt8 :=
  let x := (Salsa20.core z k sigma).toList
  if 64 ≤ mlen then
    combine (m.map (List.take 64)) x ++ blocksFrom k (m.map (List.drop 64)) (mlen - 64) (raiseCounter z)
  else if 0 < mlen then combine (m.map (List.take mlen)) (x.take mlen)
  else []
termination_by mlen

/-- `crypto_stream_salsa20_xor`; a message that is `NULL` is `none`. -/
def streamSalsa20Xor (m : Option (List UInt8)) (mlen : Nat) (n : Bytes 8) (k : Bytes 32) : List UInt8 :=
  blocksFrom k m mlen (n ++ Bytes.zeros 8)

/-- `crypto_stream_salsa20`. -/
def streamSalsa20 (clen : Nat) (n : Bytes 8) (k : Bytes 32) : List UInt8 := streamSalsa20Xor none clen n k

/-- The key for the last 8 bytes of a nonce, `crypto_uint32` having `width` bits. -/
def subkey (width : Nat) (n : Nonce) (k : Key) : Bytes 32 :=
  Hsalsa20.core width (n.slice 0 16 (by decide)) k sigma

/-- `crypto_stream_xsalsa20_xor` on a message. -/
def streamXsalsa20Xor (width : Nat) (m : List UInt8) (n : Nonce) (k : Key) : List UInt8 :=
  streamSalsa20Xor (some m) m.length (n.slice 16 8 (by decide)) (subkey width n k)

/-- `crypto_stream_xsalsa20`. -/
def streamXsalsa20 (width clen : Nat) (n : Nonce) (k : Key) : List UInt8 :=
  streamSalsa20 clen (n.slice 16 8 (by decide)) (subkey width n k)

/-- The part of a nonce that the stream counts blocks behind. -/
def lastEight (n : Nonce) : Bytes 8 := n.slice 16 8 (by decide)

/-! ### The keystream -/

/-- A counter, least significant byte first. -/
def counterBytes (counter : Nat) : Bytes 8 := ⟨encode 8 counter, length_encode 8 counter⟩

/-- The input to the core for a block. -/
def blockInput (n : Bytes 8) (counter : Nat) : Bytes 16 := n ++ counterBytes counter

/-- The counter goes up by one, around at 2^64. -/
theorem raiseCounter_blockInput (n : Bytes 8) (counter : Nat) :
    raiseCounter (blockInput n counter) = blockInput n (counter + 1) := by
  unfold raiseCounter blockInput
  rw [Bytes.slice_append_left, Bytes.slice_append_right]
  congr 1
  apply Bytes.ext
  apply value_injective
  · rw [List.Vector.toList_length, List.Vector.toList_length]
  · rw [value_bigintAdd_mod]
    show (value (encode 8 counter) + 1) % 256 ^ 8 = value (encode 8 (counter + 1))
    rw [value_encode, value_encode]
    omega

/-- The keystream of a nonce and a key. -/
def keystream (n : Bytes 8) (k : Bytes 32) (i : Nat) : UInt8 :=
  (Salsa20.core (blockInput n (i / 64)) k sigma).get ⟨i % 64, Nat.mod_lt _ (by decide)⟩

/-- The part of a keystream from a byte on. -/
def keystreamFrom (n : Bytes 8) (k : Bytes 32) (start length : Nat) : List UInt8 :=
  (List.range length).map fun i => keystream n k (start + i)

@[simp] theorem length_keystreamFrom (n : Bytes 8) (k : Bytes 32) (start length : Nat) :
    (keystreamFrom n k start length).length = length := by
  rw [keystreamFrom, List.length_map, List.length_range]

theorem keystreamFrom_add (n : Bytes 8) (k : Bytes 32) (start front back : Nat) :
    keystreamFrom n k start (front + back) =
      keystreamFrom n k start front ++ keystreamFrom n k (start + front) back := by
  unfold keystreamFrom
  rw [List.range_add, List.map_append, List.map_map]
  refine congrArg _ (List.map_congr_left fun i _ => ?_)
  show keystream n k (start + (front + i)) = keystream n k (start + front + i)
  rw [Nat.add_assoc]

/-- The front of an array, byte by byte. -/
theorem take_eq_map_get (x : Bytes 64) {length : Nat} (short : length ≤ 64) :
    x.toList.take length =
      (List.range length).map fun i => x.get ⟨i % 64, Nat.mod_lt _ (by decide)⟩ := by
  have sized := x.toList_length
  apply List.ext_getElem
  · rw [List.length_take, List.length_map, List.length_range]
    omega
  · intro i inTake inRange
    rw [List.length_map, List.length_range] at inRange
    have place : i % 64 = i := Nat.mod_eq_of_lt (by omega)
    simp only [List.getElem_take, List.getElem_map, List.getElem_range, place]
    exact (List.Vector.get_eq_get_toList x ⟨i, by omega⟩).symm

/-- The front of a block is the keystream from the block's start on. -/
theorem take_core (n : Bytes 8) (k : Bytes 32) (counter : Nat) {length : Nat} (short : length ≤ 64) :
    (Salsa20.core (blockInput n counter) k sigma).toList.take length =
      keystreamFrom n k (64 * counter) length := by
  rw [take_eq_map_get _ short]
  apply List.map_congr_left
  intro i inside
  have small := List.mem_range.mp inside
  have block : (64 * counter + i) / 64 = counter := by omega
  have place : (64 * counter + i) % 64 = i % 64 := by omega
  simp only [keystream, block, place]

/-- What the loop writes from a block on. -/
theorem blocksFrom_none (n : Bytes 8) (k : Bytes 32) (mlen counter : Nat) :
    blocksFrom k none mlen (blockInput n counter) = keystreamFrom n k (64 * counter) mlen := by
  induction mlen using Nat.strong_induction_on generalizing counter with
  | _ mlen ih =>
    have whole := take_core n k counter (Nat.le_refl 64)
    rw [List.take_of_length_le (List.Vector.toList_length _).le] at whole
    unfold blocksFrom
    by_cases full : 64 ≤ mlen
    · have later := ih (mlen - 64) (by omega) (counter + 1)
      have parts := keystreamFrom_add n k (64 * counter) 64 (mlen - 64)
      rw [show 64 + (mlen - 64) = mlen by omega] at parts
      simp only [if_pos full, Option.map_none, combine]
      rw [raiseCounter_blockInput, later, whole, parts, Nat.mul_succ]
    · by_cases some' : 0 < mlen
      · simp only [if_neg full, if_pos some', Option.map_none, combine]
        exact take_core n k counter (by omega)
      · simp only [if_neg full, if_neg some']
        rw [Nat.eq_zero_of_not_pos some']
        rfl

theorem blocksFrom_some (n : Bytes 8) (k : Bytes 32) (m : List UInt8) (counter : Nat) :
    blocksFrom k (some m) m.length (blockInput n counter) =
      List.zipWith (· ^^^ ·) m (keystreamFrom n k (64 * counter) m.length) := by
  generalize sized : m.length = mlen
  induction mlen using Nat.strong_induction_on generalizing counter m with
  | _ mlen ih =>
    have whole := take_core n k counter (Nat.le_refl 64)
    rw [List.take_of_length_le (List.Vector.toList_length _).le] at whole
    unfold blocksFrom
    by_cases full : 64 ≤ mlen
    · have later := ih (mlen - 64) (by omega) (m.drop 64) (counter + 1) (by rw [List.length_drop, sized])
      have parts := keystreamFrom_add n k (64 * counter) 64 (mlen - 64)
      rw [show 64 + (mlen - 64) = mlen by omega] at parts
      have front : (m.take 64).length = (keystreamFrom n k (64 * counter) 64).length := by
        rw [List.length_take, length_keystreamFrom]
        omega
      simp only [if_pos full, Option.map_some, combine]
      rw [raiseCounter_blockInput, later, whole, parts, Nat.mul_succ, ← List.zipWith_append front,
        List.take_append_drop]
    · by_cases some' : 0 < mlen
      · simp only [if_neg full, if_pos some', Option.map_some, combine]
        rw [take_core n k counter (by omega), List.take_of_length_le (by omega)]
      · simp only [if_neg full, if_neg some']
        rw [List.length_eq_zero_iff.mp (sized.trans (Nat.eq_zero_of_not_pos some'))]
        rfl

/-- Without a message the bytes of the keystream are written. -/
theorem streamSalsa20_eq (clen : Nat) (n : Bytes 8) (k : Bytes 32) :
    streamSalsa20 clen n k = keystreamFrom n k 0 clen :=
  blocksFrom_none n k clen 0

/-- A message is combined with them. -/
theorem streamSalsa20Xor_eq (m : List UInt8) (n : Bytes 8) (k : Bytes 32) :
    streamSalsa20Xor (some m) m.length n k =
      List.zipWith (· ^^^ ·) m (keystreamFrom n k 0 m.length) :=
  blocksFrom_some n k m 0

/-- **Byte `i` of a message is combined with byte `i` of the keystream**, for any length; without a message
the keystream itself is written. -/
theorem streamSalsa20Xor_eq_mapIdx (m : List UInt8) (n : Bytes 8) (k : Bytes 32) :
    streamSalsa20Xor (some m) m.length n k = m.mapIdx (fun i byte => byte ^^^ keystream n k i) ∧
      streamSalsa20 m.length n k = (List.range m.length).map (keystream n k) := by
  constructor
  · rw [streamSalsa20Xor_eq]
    apply List.ext_getElem
    · rw [List.length_zipWith, length_keystreamFrom, Nat.min_self, List.length_mapIdx]
    · intro i _ inside
      simp only [List.getElem_zipWith, List.getElem_mapIdx, keystreamFrom, List.getElem_map,
        List.getElem_range, Nat.zero_add]
  · rw [streamSalsa20_eq, keystreamFrom]
    apply List.map_congr_left
    intro i _
    rw [Nat.zero_add]

/-! ### Both directions -/

/-- Combining twice with one keystream. -/
theorem zipWith_xor_twice (m x : List UInt8) (sized : m.length ≤ x.length) :
    List.zipWith (· ^^^ ·) (List.zipWith (· ^^^ ·) m x) x = m := by
  apply List.ext_getElem
  · rw [List.length_zipWith, List.length_zipWith]
    omega
  · intro i _ inside
    rw [List.getElem_zipWith, List.getElem_zipWith, UInt8.xor_assoc, UInt8.xor_self, UInt8.xor_zero]

variable {width : Nat} (n : Nonce) (k : Key)

theorem length_streamXsalsa20Xor (m : List UInt8) : (streamXsalsa20Xor width m n k).length = m.length := by
  rw [streamXsalsa20Xor, streamSalsa20Xor_eq, List.length_zipWith, length_keystreamFrom, Nat.min_self]

/-- **Encrypting and decrypting are one function, its own inverse**, for a message of any length. -/
theorem streamXsalsa20Xor_involutive (m : List UInt8) :
    streamXsalsa20Xor width (streamXsalsa20Xor width m n k) n k = m := by
  have sized := @length_streamXsalsa20Xor width n k m
  unfold streamXsalsa20Xor at sized ⊢
  rw [streamSalsa20Xor_eq, sized, streamSalsa20Xor_eq]
  exact zipWith_xor_twice _ _ (by rw [length_keystreamFrom])

/-- What is written for the front of a message depends on the front only. -/
theorem streamXsalsa20Xor_append (front back : List UInt8) :
    (streamXsalsa20Xor width (front ++ back) n k).take front.length =
      streamXsalsa20Xor width front n k := by
  unfold streamXsalsa20Xor
  rw [streamSalsa20Xor_eq, streamSalsa20Xor_eq, List.length_append, keystreamFrom_add,
    List.zipWith_append (by rw [length_keystreamFrom]), List.take_left']
  rw [List.length_zipWith, length_keystreamFrom, Nat.min_self]

/-- Over zeros the stream itself is written. -/
theorem streamXsalsa20Xor_zeros (clen : Nat) :
    streamXsalsa20Xor width (List.replicate clen 0) n k = streamXsalsa20 width clen n k := by
  unfold streamXsalsa20Xor streamXsalsa20
  rw [streamSalsa20Xor_eq, streamSalsa20_eq, List.length_replicate]
  apply List.ext_getElem
  · rw [List.length_zipWith, List.length_replicate, length_keystreamFrom, Nat.min_self]
  · intro i _ inside
    rw [List.getElem_zipWith, List.getElem_replicate, UInt8.zero_xor]

end Esloq.Nacl
