/-
**The three crypto wrappers (`crypto.c`, `naclmodule.c`, `crypto_nacl_jni.c`).**

The lock, the server and the app each copy a message behind zeros into an array of their own, call NaCl,
and copy the result out of another one. A copy or a call that leaves its array has no result.

* `callBox` — `crypto_secretbox` or `crypto_secretbox_open` on arrays.
* `Firmware.cryptoAuthEncrypt` … `Jni.decrypt` — the wrappers, with their own arrays and their own way to
  report a failure.
* `wrappers_interoperate` — on messages of 1 to 40 bytes all three are `sealPadded` and `openPadded`.
-/

import Esloq.Crypto
import Esloq.Lib.Parts

namespace Esloq

open Parts

/-! ### NaCl on arrays -/

/-- One of the two functions of NaCl. -/
abbrev BoxFunction := {length : Nat} → Bytes length → Nonce → Key → Option (Bytes length)

/-- A call of `crypto_secretbox(out, input, len, n, k)` or its inverse: the returned value, and `out`, which
is written where the value is 0. -/
def callBox (function : BoxFunction) (out input : List UInt8) (len : Nat) (n k : List UInt8) :
    Option (Int × List UInt8) := do
  let input ← load input len
  let n ← load n 24
  let k ← load k 32
  match (function input n k).map List.Vector.toList with
  | none => some (-1, out)
  | some output =>
      let out ← store out 0 output
      some (0, out)

/-- An array of zeros. -/
def zeroBytes (size : Nat) : List UInt8 := List.replicate size 0

theorem length_zeroBytes (size : Nat) : (zeroBytes size).length = size := List.length_replicate

/-- An array that has not been written. -/
def unwritten (stale : Nat → UInt8) (size : Nat) : List UInt8 := (List.range size).map stale

/-! ### The firmware -/

namespace Firmware

/-- `CRYPTO_MAX_MLEN`. -/
def cryptoMaxMlen : Nat := 40

/-- `CRYPTO_MAX_CLEN`. -/
def cryptoMaxClen : Nat := cryptoMaxMlen + 16

/-- `crypto_auth_encrypt`: the returned value, and the array `c`. -/
def cryptoAuthEncrypt (box : Secretbox) (c m : List UInt8) (mlen : UInt8) (n k : List UInt8) :
    Option (Int × List UInt8) := do
  let m ← read m 0 mlen.toNat
  let mSecretbox ← store (zeroBytes (cryptoMaxMlen + 32)) 32 m
  let (returnValue, cSecretbox) ←
    callBox box.cryptoSecretbox (zeroBytes (cryptoMaxClen + 16)) mSecretbox (mlen.toNat + 32) n k
  let sealed ← read cSecretbox 16 (mlen.toNat + 16)
  let c ← store c 0 sealed
  some (returnValue, c)

/-- `crypto_auth_decrypt`: the returned value, and the array `m`. -/
def cryptoAuthDecrypt (box : Secretbox) (m c : List UInt8) (clen : UInt8) (n k : List UInt8) :
    Option (Int × List UInt8) := do
  let c ← read c 0 clen.toNat
  let cSecretbox ← store (zeroBytes (cryptoMaxClen + 16)) 16 c
  let (returnValue, mSecretbox) ←
    callBox box.cryptoSecretboxOpen (zeroBytes (cryptoMaxMlen + 32)) cSecretbox (clen.toNat + 16) n k
  -- A negative difference is a length above every array.
  if clen.toNat < 16 then none
  else
    let opened ← read mSecretbox 32 (clen.toNat - 16)
    let m ← store m 0 opened
    some (returnValue, m)

end Firmware

/-! ### The server -/

namespace Server

/-- `auth_encrypt` of the Python module; `none` is the return of `NULL`. -/
def authEncrypt (box : Secretbox) (m n k : List UInt8) : Option (Option (List UInt8)) := do
  let clen := m.length + 16
  let mSecretbox ← store (zeroBytes (32 + m.length)) 32 m
  let (returnValue, c) ← callBox box.cryptoSecretbox (zeroBytes (16 + clen)) mSecretbox (m.length + 32) n k
  if returnValue ≠ 0 then some none
  else
    let sealed ← read c 16 clen
    some (some sealed)

/-- `auth_decrypt`. The lengths are unsigned, so `crypto_secretbox_ZEROBYTES + mlen` is `clen + 16` also where
`mlen` wraps; the last 16 bytes of `m` are not initialised. -/
def authDecrypt (box : Secretbox) (stale : Nat → UInt8) (c n k : List UInt8) :
    Option (Option (List UInt8)) := do
  let clen := c.length
  let cSecretbox ← store (zeroBytes (16 + clen)) 16 c
  let (returnValue, m) ← callBox box.cryptoSecretboxOpen (zeroBytes clen ++ unwritten stale 16)
    cSecretbox (clen + 16) n k
  if returnValue ≠ 0 then some none
  -- A wrapped `mlen` is a length above every array.
  else if clen < 16 then none
  else
    let opened ← read m 32 (clen - 16)
    some (some opened)

end Server

/-! ### The app -/

namespace Jni

/-- `Java_com_esloq_esloqapp_Cryptography_encrypt`; a failure is the empty array. -/
def encrypt (box : Secretbox) (stale : Nat → UInt8) (message nonce key : List UInt8) :
    Option (List UInt8) := do
  let mlen := message.length
  let clen := mlen + 16
  if mlen = 0 ∨ nonce.length ≠ 24 ∨ key.length ≠ 32 then some []
  else
    let m ← store (unwritten stale (32 + mlen)) 0 (zeroBytes 32)
    let m ← store m 32 message
    let (returnValue, c) ← callBox box.cryptoSecretbox (unwritten stale (16 + clen)) m (32 + mlen) nonce key
    if returnValue ≠ 0 then some []
    else
      read c 16 clen

/-- `Java_com_esloq_esloqapp_Cryptography_decrypt`. The array for the plaintext is declared before the lengths
are checked; they are unsigned, so it has `clen + 16` bytes also where `mlen` wraps. -/
def decrypt (box : Secretbox) (stale : Nat → UInt8) (ciphertext nonce key : List UInt8) :
    Option (List UInt8) := do
  let clen := ciphertext.length
  if clen ≤ 16 ∨ nonce.length ≠ 24 ∨ key.length ≠ 32 then some []
  else
    let mlen := clen - 16
    let c ← store (unwritten stale (16 + clen)) 0 (zeroBytes 16)
    let c ← store c 16 ciphertext
    let (returnValue, m) ←
      callBox box.cryptoSecretboxOpen (unwritten stale (clen + 16)) c (16 + clen) nonce key
    if returnValue ≠ 0 then some []
    else
      read m 32 mlen

end Jni

/-! ### Calls on padded messages -/

section Calls

variable {box : Secretbox} {mlen len : Nat} {m : Bytes mlen} {c : Bytes (mlen + 16)} {nonce : Nonce}
  {key : Key} {n k out back : List UInt8}

/-- A call whose arrays are long enough. -/
theorem callBox_eq (function : BoxFunction) {length : Nat} (padded : Bytes length)
    (sized : len = length) (holdsNonce : load n 24 = some nonce) (holdsKey : load k 32 = some key)
    (room : len ≤ out.length) :
    callBox function out (padded.toList ++ back) len n k = some
      (match (function padded nonce key).map List.Vector.toList with
        | none => (-1, out)
        | some output => (0, output ++ out.drop len)) := by
  subst sized
  unfold callBox
  rw [load_front, holdsNonce, holdsKey]
  simp only [Option.bind_eq_bind, Option.bind_some]
  cases called : function padded nonce key with
  | none => rfl
  | some output =>
      have inside : output.toList.length ≤ out.length := by
        rw [List.Vector.toList_length]
        exact room
      simp only [Option.map_some]
      rw [store_front inside, List.Vector.toList_length]
      rfl

/-- Sealing a padded message leaves 16 bytes and the ciphertext. -/
theorem callBox_seal (sealed : sealPadded box m nonce key = some c) (sized : len = 32 + mlen)
    (holdsNonce : load n 24 = some nonce) (holdsKey : load k 32 = some key)
    (room : len ≤ out.length) :
    ∃ front, front.length = 16 ∧
      callBox box.cryptoSecretbox out (zeroBytes 32 ++ (m.toList ++ back)) len n k =
        some (0, front ++ (c.toList ++ out.drop len)) := by
  unfold sealPadded at sealed
  obtain ⟨boxed, called, rfl⟩ := Option.map_eq_some_iff.mp sealed
  have whole : (boxed.toList.drop 16).length ≤ mlen + 16 := by
    rw [List.length_drop, List.Vector.toList_length]
    omega
  have parts : boxed.toList =
      boxed.toList.take 16 ++ (boxed.slice 16 (mlen + 16) (by omega)).toList := by
    show _ = boxed.toList.take 16 ++ (boxed.toList.drop 16).take (mlen + 16)
    rw [List.take_of_length_le whole, List.take_append_drop]
  refine ⟨boxed.toList.take 16, ?_, ?_⟩
  · rw [List.length_take, List.Vector.toList_length]
    omega
  · rw [← List.append_assoc]
    refine (callBox_eq _ (padPlaintext m) sized holdsNonce holdsKey room).trans ?_
    rw [called, ← List.append_assoc, ← parts]
    rfl

/-- Opening a padded ciphertext leaves 32 bytes and the message. -/
theorem callBox_open (opened : openPadded box c nonce key = some m) (sized : len = 32 + mlen)
    (holdsNonce : load n 24 = some nonce) (holdsKey : load k 32 = some key)
    (room : len ≤ out.length) :
    ∃ front, front.length = 32 ∧
      callBox box.cryptoSecretboxOpen out (zeroBytes 16 ++ (c.toList ++ back)) len n k =
        some (0, front ++ (m.toList ++ out.drop len)) := by
  unfold openPadded at opened
  obtain ⟨unboxed, called, rfl⟩ := Option.map_eq_some_iff.mp opened
  have whole : (unboxed.toList.drop 32).length ≤ mlen := by
    rw [List.length_drop, List.Vector.toList_length]
    omega
  have parts : unboxed.toList =
      unboxed.toList.take 32 ++ (unboxed.slice 32 mlen (by omega)).toList := by
    show _ = unboxed.toList.take 32 ++ (unboxed.toList.drop 32).take mlen
    rw [List.take_of_length_le whole, List.take_append_drop]
  refine ⟨unboxed.toList.take 32, ?_, ?_⟩
  · rw [List.length_take, List.Vector.toList_length]
    omega
  · rw [← List.append_assoc]
    refine (callBox_eq _ (padCiphertext c) sized holdsNonce holdsKey room).trans ?_
    rw [called, ← List.append_assoc, ← parts]
    rfl

/-- A ciphertext that does not open leaves the array. -/
theorem callBox_rejected (rejected : openPadded box c nonce key = none) (sized : len = 32 + mlen)
    (holdsNonce : load n 24 = some nonce) (holdsKey : load k 32 = some key)
    (room : len ≤ out.length) :
    callBox box.cryptoSecretboxOpen out (zeroBytes 16 ++ (c.toList ++ back)) len n k =
      some (-1, out) := by
  rw [← List.append_assoc]
  refine (callBox_eq _ (padCiphertext c) sized holdsNonce holdsKey room).trans ?_
  unfold openPadded at rejected
  rw [Option.map_eq_none_iff.mp rejected]
  rfl

end Calls

/-! ### The firmware's wrappers -/

section Firmware

variable {box : Secretbox} {mlen : Nat} {m : Bytes mlen} {c : Bytes (mlen + 16)} {nonce : Nonce}
  {key : Key} {out input n k : List UInt8}

theorem toNat_ofNat_of_le {count bound : Nat} (short : count ≤ bound) (small : bound < 256) :
    (UInt8.ofNat count).toNat = count := by
  rw [UInt8.toNat_ofNat']
  exact Nat.mod_eq_of_lt (short.trans_lt small)

/-- `crypto_auth_encrypt` writes the ciphertext and returns 0. -/
theorem firmware_encrypt (short : mlen ≤ 40) (sealed : sealPadded box m nonce key = some c)
    (holdsMessage : read input 0 mlen = some m.toList) (holdsNonce : load n 24 = some nonce)
    (holdsKey : load k 32 = some key) (room : mlen + 16 ≤ out.length) :
    Firmware.cryptoAuthEncrypt box out input (UInt8.ofNat mlen) n k =
      some (0, c.toList ++ out.drop (mlen + 16)) := by
  have size : (UInt8.ofNat mlen).toNat = mlen := toNat_ofNat_of_le short (by decide)
  have fits : 32 + m.toList.length ≤ Firmware.cryptoMaxMlen + 32 := by
    rw [List.Vector.toList_length]
    show 32 + mlen ≤ 40 + 32
    omega
  have length : mlen + 32 ≤ (zeroBytes (Firmware.cryptoMaxClen + 16)).length := by
    rw [length_zeroBytes]
    show mlen + 32 ≤ 40 + 16 + 16
    omega
  obtain ⟨front, sixteen, called⟩ := @callBox_seal box mlen (mlen + 32) m c nonce key n k
    (zeroBytes (Firmware.cryptoMaxClen + 16))
    (List.replicate (Firmware.cryptoMaxMlen + 32 - (32 + m.toList.length)) 0)
    sealed (Nat.add_comm _ _) holdsNonce holdsKey length
  unfold Firmware.cryptoAuthEncrypt
  rw [size, holdsMessage]
  simp only [Option.bind_eq_bind, Option.bind_some]
  rw [zeroBytes, store_replicate 0 fits]
  simp only [Option.bind_some]
  rw [← zeroBytes, called]
  simp only [Option.bind_some]
  rw [read_append sixteen c.toList_length]
  have inside : c.toList.length ≤ out.length := by
    rw [List.Vector.toList_length]
    exact room
  show (store out 0 c.toList).bind _ = _
  rw [store_front inside, List.Vector.toList_length]
  rfl

/-- The call in `crypto_auth_decrypt`, on the padded ciphertext. -/
theorem firmware_decrypt_eq (short : mlen ≤ 40) (holdsCiphertext : read input 0 (mlen + 16) = some c.toList) :
    Firmware.cryptoAuthDecrypt box out input (UInt8.ofNat (mlen + 16)) n k =
      (callBox box.cryptoSecretboxOpen (zeroBytes 72)
          (zeroBytes 16 ++ (c.toList ++ zeroBytes (72 - (16 + (mlen + 16))))) (mlen + 16 + 16) n k).bind
        fun called => (read called.2 32 mlen).bind fun opened =>
          (store out 0 opened).bind fun m => some (called.1, m) := by
  have size : (UInt8.ofNat (mlen + 16)).toNat = mlen + 16 :=
    toNat_ofNat_of_le (Nat.add_le_add_right short 16) (by decide)
  have fits : 16 + c.toList.length ≤ Firmware.cryptoMaxClen + 16 := by
    rw [List.Vector.toList_length]
    show 16 + (mlen + 16) ≤ 40 + 16 + 16
    omega
  unfold Firmware.cryptoAuthDecrypt
  rw [size, holdsCiphertext]
  simp only [Option.bind_eq_bind, Option.bind_some]
  have long : ¬ mlen + 16 < 16 := by omega
  rw [zeroBytes, store_replicate 0 fits, List.Vector.toList_length, Option.bind_some]
  simp only [if_neg long]
  rfl

/-- `crypto_auth_decrypt` writes the message and returns 0. -/
theorem firmware_decrypt (short : mlen ≤ 40) (opened : openPadded box c nonce key = some m)
    (holdsCiphertext : read input 0 (mlen + 16) = some c.toList) (holdsNonce : load n 24 = some nonce)
    (holdsKey : load k 32 = some key) (room : mlen ≤ out.length) :
    Firmware.cryptoAuthDecrypt box out input (UInt8.ofNat (mlen + 16)) n k =
      some (0, m.toList ++ out.drop mlen) := by
  have length : mlen + 16 + 16 ≤ (zeroBytes 72).length := by
    rw [length_zeroBytes]
    omega
  obtain ⟨front, size, called⟩ := @callBox_open box mlen (mlen + 16 + 16) m c nonce key n k
    (zeroBytes 72) (zeroBytes (72 - (16 + (mlen + 16)))) opened (by omega) holdsNonce holdsKey length
  rw [firmware_decrypt_eq short holdsCiphertext, called, Option.bind_some,
    read_append size m.toList_length]
  have inside : m.toList.length ≤ out.length := by
    rw [List.Vector.toList_length]
    exact room
  show (store out 0 m.toList).bind _ = _
  rw [store_front inside, List.Vector.toList_length]
  rfl

/-- On any other ciphertext it writes zeros and returns -1. -/
theorem firmware_rejected (short : mlen ≤ 40) (rejected : openPadded box c nonce key = none)
    (holdsCiphertext : read input 0 (mlen + 16) = some c.toList) (holdsNonce : load n 24 = some nonce)
    (holdsKey : load k 32 = some key) (room : mlen ≤ out.length) :
    Firmware.cryptoAuthDecrypt box out input (UInt8.ofNat (mlen + 16)) n k =
      some (-1, zeroBytes mlen ++ out.drop mlen) := by
  have length : mlen + 16 + 16 ≤ (zeroBytes 72).length := by
    rw [length_zeroBytes]
    omega
  have parts : zeroBytes 72 = zeroBytes 32 ++ (zeroBytes mlen ++ zeroBytes (40 - mlen)) := by
    unfold zeroBytes
    rw [List.replicate_append_replicate, List.replicate_append_replicate]
    congr 1
    omega
  have sized := length_zeroBytes mlen
  rw [firmware_decrypt_eq short holdsCiphertext,
    callBox_rejected rejected (by omega) holdsNonce holdsKey length, Option.bind_some]
  simp only
  rw [parts, read_append (length_zeroBytes 32) sized]
  have inside : (zeroBytes mlen).length ≤ out.length := by
    rw [sized]
    exact room
  show (store out 0 (zeroBytes mlen)).bind _ = _
  rw [store_front inside, sized]
  rfl

end Firmware

/-! ### The server's wrappers -/

section Server

variable {box : Secretbox} {mlen : Nat} {m : Bytes mlen} {c : Bytes (mlen + 16)} {nonce : Nonce} {key : Key}

/-- `auth_encrypt` returns the ciphertext. -/
theorem server_encrypt (sealed : sealPadded box m nonce key = some c) :
    Server.authEncrypt box m.toList nonce.toList key.toList = some (some c.toList) := by
  have fits : 32 + m.toList.length ≤ 32 + mlen := by rw [List.Vector.toList_length]
  have length : mlen + 32 ≤ (zeroBytes (16 + (mlen + 16))).length := by
    rw [length_zeroBytes]
    omega
  have padded : store (zeroBytes (32 + mlen)) 32 m.toList = _ := store_replicate 0 fits
  obtain ⟨front, size, called⟩ := @callBox_seal box mlen (mlen + 32) m c nonce key nonce.toList
    key.toList (zeroBytes (16 + (mlen + 16))) (zeroBytes (32 + mlen - (32 + m.toList.length)))
    sealed (Nat.add_comm _ _) (load_whole nonce) (load_whole key) length
  unfold Server.authEncrypt
  simp only [List.Vector.toList_length, Option.bind_eq_bind]
  rw [padded, Option.bind_some]
  refine (congrArg (Option.bind · _) called).trans ?_
  simp only [Option.bind_some, ne_eq, not_true_eq_false, if_false]
  rw [read_append size c.toList_length]
  rfl

/-- The call in `auth_decrypt`. -/
theorem server_decrypt_eq (stale : Nat → UInt8) :
    Server.authDecrypt box stale c.toList nonce.toList key.toList =
      (callBox box.cryptoSecretboxOpen (zeroBytes (mlen + 16) ++ unwritten stale 16)
          (zeroBytes 16 ++ (c.toList ++ [])) (mlen + 16 + 16) nonce.toList key.toList).bind fun called =>
        if called.1 ≠ 0 then some none
        else (read called.2 32 mlen).bind fun opened => some (some opened) := by
  have fits : 16 + c.toList.length ≤ 16 + (mlen + 16) := by rw [List.Vector.toList_length]
  have padded : store (zeroBytes (16 + (mlen + 16))) 16 c.toList = _ := store_replicate 0 fits
  have long : ¬ mlen + 16 < 16 := by omega
  have none' : 16 + (mlen + 16) - (16 + c.toList.length) = 0 := by
    rw [List.Vector.toList_length]
    exact Nat.sub_self _
  rw [none'] at padded
  unfold Server.authDecrypt
  simp only [List.Vector.toList_length, Option.bind_eq_bind, if_neg long]
  rw [padded, Option.bind_some]
  rfl

theorem length_unwritten (stale : Nat → UInt8) (size : Nat) : (unwritten stale size).length = size := by
  rw [unwritten, List.length_map, List.length_range]

/-- `auth_decrypt` returns the message. -/
theorem server_decrypt (stale : Nat → UInt8) (opened : openPadded box c nonce key = some m) :
    Server.authDecrypt box stale c.toList nonce.toList key.toList = some (some m.toList) := by
  have length : mlen + 16 + 16 ≤ (zeroBytes (mlen + 16) ++ unwritten stale 16).length := by
    rw [List.length_append, length_zeroBytes, length_unwritten]
  obtain ⟨front, size, called⟩ := @callBox_open box mlen (mlen + 16 + 16) m c nonce key nonce.toList
    key.toList _ [] opened (by omega) (load_whole nonce) (load_whole key) length
  rw [server_decrypt_eq, called]
  simp only [Option.bind_some, ne_eq, not_true_eq_false, if_false]
  rw [read_append size m.toList_length]
  rfl

/-- On any other ciphertext it returns `NULL`. -/
theorem server_rejected (stale : Nat → UInt8) (rejected : openPadded box c nonce key = none) :
    Server.authDecrypt box stale c.toList nonce.toList key.toList = some none := by
  have length : mlen + 16 + 16 ≤ (zeroBytes (mlen + 16) ++ unwritten stale 16).length := by
    rw [List.length_append, length_zeroBytes, length_unwritten]
  rw [server_decrypt_eq, callBox_rejected rejected (by omega) (load_whole nonce) (load_whole key) length]
  rfl

end Server

/-! ### The app's wrappers -/

section Jni

variable {box : Secretbox} {mlen : Nat} {m : Bytes mlen} {c : Bytes (mlen + 16)} {nonce : Nonce} {key : Key}

/-- Zeros and a message in an array of that length. -/
theorem store_padded (stale : Nat → UInt8) {size zeros : Nat} {data : List UInt8}
    (whole : zeros + data.length = size) :
    ((store (unwritten stale size) 0 (zeroBytes zeros)).bind fun array => store array zeros data) =
      some (zeroBytes zeros ++ (data ++ [])) := by
  have room : (zeroBytes zeros).length ≤ (unwritten stale size).length := by
    rw [length_zeroBytes, length_unwritten]
    omega
  have rest : ((unwritten stale size).drop zeros).length = data.length := by
    rw [List.length_drop, length_unwritten]
    omega
  rw [store_front room, length_zeroBytes, Option.bind_some]
  have stored := @store_append UInt8 (zeroBytes zeros) _ data [] zeros (length_zeroBytes zeros) rest
  rwa [List.append_nil] at stored

/-- `encrypt` returns the ciphertext of a message that is not empty. -/
theorem jni_encrypt (stale : Nat → UInt8) (positive : 1 ≤ mlen)
    (sealed : sealPadded box m nonce key = some c) :
    Jni.encrypt box stale m.toList nonce.toList key.toList = some c.toList := by
  have length : 32 + mlen ≤ (unwritten stale (16 + (mlen + 16))).length := by
    rw [length_unwritten]
    omega
  have padded := @store_padded stale (32 + mlen) 32 m.toList (by rw [List.Vector.toList_length])
  obtain ⟨front, size, called⟩ := @callBox_seal box mlen (32 + mlen) m c nonce key nonce.toList
    key.toList (unwritten stale (16 + (mlen + 16))) [] sealed rfl (load_whole nonce) (load_whole key) length
  have checked : ¬ (mlen = 0 ∨ 24 ≠ 24 ∨ 32 ≠ 32) := by omega
  unfold Jni.encrypt
  simp only [List.Vector.toList_length, Option.bind_eq_bind, if_neg checked]
  rw [← Option.bind_assoc, padded, Option.bind_some, called]
  simp only [Option.bind_some, ne_eq, not_true_eq_false, if_false]
  rw [read_append size c.toList_length]

/-- The call in `decrypt`. -/
theorem jni_decrypt_eq (stale : Nat → UInt8) (positive : 1 ≤ mlen) :
    Jni.decrypt box stale c.toList nonce.toList key.toList =
      (callBox box.cryptoSecretboxOpen (unwritten stale (mlen + 16 + 16)) (zeroBytes 16 ++ (c.toList ++ []))
          (16 + (mlen + 16)) nonce.toList key.toList).bind fun called =>
        if called.1 ≠ 0 then some []
        else read called.2 32 mlen := by
  have padded := @store_padded stale (16 + (mlen + 16)) 16 c.toList (by rw [List.Vector.toList_length])
  have checked : ¬ (mlen + 16 ≤ 16 ∨ 24 ≠ 24 ∨ 32 ≠ 32) := by omega
  unfold Jni.decrypt
  simp only [List.Vector.toList_length, Option.bind_eq_bind, if_neg checked]
  rw [← Option.bind_assoc, padded, Option.bind_some]
  rfl

/-- `decrypt` returns the message. -/
theorem jni_decrypt (stale : Nat → UInt8) (positive : 1 ≤ mlen)
    (opened : openPadded box c nonce key = some m) :
    Jni.decrypt box stale c.toList nonce.toList key.toList = some m.toList := by
  have length : 16 + (mlen + 16) ≤ (unwritten stale (mlen + 16 + 16)).length := by
    rw [length_unwritten]
    omega
  obtain ⟨front, size, called⟩ := @callBox_open box mlen (16 + (mlen + 16)) m c nonce key nonce.toList
    key.toList _ [] opened (by omega) (load_whole nonce) (load_whole key) length
  rw [jni_decrypt_eq stale positive, called]
  simp only [Option.bind_some, ne_eq, not_true_eq_false, if_false]
  rw [read_append size m.toList_length]

/-- On any other ciphertext it returns the empty array. -/
theorem jni_rejected (stale : Nat → UInt8) (positive : 1 ≤ mlen)
    (rejected : openPadded box c nonce key = none) :
    Jni.decrypt box stale c.toList nonce.toList key.toList = some [] := by
  have length : 16 + (mlen + 16) ≤ (unwritten stale (mlen + 16 + 16)).length := by
    rw [length_unwritten]
    omega
  rw [jni_decrypt_eq stale positive,
    callBox_rejected rejected (by omega) (load_whole nonce) (load_whole key) length]
  rfl

end Jni

/-! ### All three -/

section All

variable (box : Secretbox) {mlen : Nat} (m : Bytes mlen) (c : Bytes (mlen + 16)) (nonce : Nonce) (key : Key)

/-- All wrappers turn a message into the same ciphertext, whatever their arrays held before; the firmware
reads and writes through pointers into longer arrays. -/
structure AllEncrypt : Prop where
  server : Server.authEncrypt box m.toList nonce.toList key.toList = some (some c.toList)
  app : ∀ stale, Jni.encrypt box stale m.toList nonce.toList key.toList = some c.toList
  lock : ∀ out input n k, read input 0 mlen = some m.toList → load n 24 = some nonce →
    load k 32 = some key → mlen + 16 ≤ out.length →
    Firmware.cryptoAuthEncrypt box out input (UInt8.ofNat mlen) n k =
      some (0, c.toList ++ out.drop (mlen + 16))

/-- All wrappers recover a message from a ciphertext. -/
structure AllDecrypt : Prop where
  server : ∀ stale,
    Server.authDecrypt box stale c.toList nonce.toList key.toList = some (some m.toList)
  app : ∀ stale, Jni.decrypt box stale c.toList nonce.toList key.toList = some m.toList
  lock : ∀ out input n k, read input 0 (mlen + 16) = some c.toList → load n 24 = some nonce →
    load k 32 = some key → mlen ≤ out.length →
    Firmware.cryptoAuthDecrypt box out input (UInt8.ofNat (mlen + 16)) n k =
      some (0, m.toList ++ out.drop mlen)

/-- All wrappers report a failure: `NULL`, the empty array, and -1 with zeros for a message. -/
structure AllReject : Prop where
  server : ∀ stale, Server.authDecrypt box stale c.toList nonce.toList key.toList = some none
  app : ∀ stale, Jni.decrypt box stale c.toList nonce.toList key.toList = some []
  lock : ∀ out input n k, read input 0 (mlen + 16) = some c.toList → load n 24 = some nonce →
    load k 32 = some key → mlen ≤ out.length →
    Firmware.cryptoAuthDecrypt box out input (UInt8.ofNat (mlen + 16)) n k =
      some (-1, zeroBytes mlen ++ out.drop mlen)

end All

/-- **The wrappers interoperate on messages of 1 to 40 bytes**, where all three are linked to one library. (The
app's 64-bit builds link another build of NaCl than the lock, `Nacl.nacl 64` instead of `Nacl.nacl 32`.) -/
theorem wrappers_interoperate (box : Secretbox) (contract : box.Contract) {mlen : Nat}
    (positive : 1 ≤ mlen) (short : mlen ≤ 40) (nonce : Nonce) (key : Key) :
    (∀ m : Bytes mlen, ∃ c, AllEncrypt box m c nonce key ∧ AllDecrypt box m c nonce key) ∧
      ∀ c : Bytes (mlen + 16), openPadded box c nonce key = none → AllReject box c nonce key := by
  constructor
  · intro m
    obtain ⟨c, sealed, opened⟩ := openPadded_sealPadded contract m nonce key
    refine ⟨c, ⟨server_encrypt sealed, fun stale => jni_encrypt stale positive sealed, ?_⟩,
      ⟨fun stale => server_decrypt stale opened, fun stale => jni_decrypt stale positive opened, ?_⟩⟩
    · exact fun out input n k holds => firmware_encrypt short sealed holds
    · exact fun out input n k holds => firmware_decrypt short opened holds
  · intro c rejected
    refine ⟨fun stale => server_rejected stale rejected,
      fun stale => jni_rejected stale positive rejected, ?_⟩
    exact fun out input n k holds => firmware_rejected short rejected holds

/-- The byte 7, and 17 zeros, which do not open. -/
theorem wrappers_interoperate_keyTag :
    (∃ c, AllEncrypt keyTag ⟨[7], rfl⟩ c (Bytes.zeros 24) ⟨List.replicate 32 1, rfl⟩ ∧
        AllDecrypt keyTag ⟨[7], rfl⟩ c (Bytes.zeros 24) ⟨List.replicate 32 1, rfl⟩) ∧
      @AllReject keyTag 1 (Bytes.zeros 17) (Bytes.zeros 24) ⟨List.replicate 32 1, rfl⟩ := by
  have both := @wrappers_interoperate keyTag keyTag_contract 1 (by decide) (by decide) (Bytes.zeros 24)
    ⟨List.replicate 32 1, rfl⟩
  exact ⟨both.1 ⟨[7], rfl⟩, both.2 (Bytes.zeros 17) (by decide)⟩

end Esloq
