/-
**The secretbox of the app's NaCl (`crypto_secretbox/xsalsa20poly1305.c`, `crypto_verify/verify.c`).**

The parameter `Secretbox` of the model is here the library that is linked into the app.

* `vn` — the comparison that does not stop at a difference: 0 on equal arrays, else -1 (`vn_eq`).
* `cryptoSecretbox`, `cryptoSecretboxOpen` — the stream cipher over the whole message, the authenticator
  over what is behind its first 32 bytes, under these as the key.
* `cryptoSecretboxOpen_iff_sealed` — what opens is what was sealed, but for its first 16 bytes, which are not
  looked at.
* `nacl_contract` — behind the wrappers' zeros the library keeps `Secretbox.Contract`.
* `jni_decrypt_eq_some_iff` — the app decrypts what it encrypts, and nothing else.
-/

import Esloq.Wrappers
import Esloq.Nacl.Stream
import Esloq.Nacl.Poly1305

namespace Esloq.Nacl

open Poly1305

/-! ### The comparison -/

section Comparison

variable {size : Nat}

/-- The loop of `vn`, over the bytes that are left. -/
def differences : List UInt8 → List UInt8 → UInt32 → UInt32
  | x :: xs, y :: ys, d => differences xs ys (d ||| (x ^^^ y).toUInt32)
  | _, _, d => d

/-- `(1 & ((d - 1) >> 8)) - 1`, returned as an `int`. -/
def verdict (d : UInt32) : Int := (((1 : UInt32) &&& ((d - 1) >>> 8)) - 1).toInt32.toInt

/-- `vn`. -/
def vn (x y : Bytes size) : Int := verdict (differences x.toList y.toList 0)

/-- No bit is lost, and none is set but where there is a difference. -/
theorem differences_eq : ∀ {x y : List UInt8} (d : UInt8), x.length = y.length →
    ∃ d' : UInt8, differences x y d.toUInt32 = d'.toUInt32 ∧ (d' = 0 ↔ d = 0 ∧ x = y)
  | [], [], d, _ => ⟨d, rfl, by rw [and_iff_left rfl]⟩
  | [], _ :: _, _, sized => nomatch sized
  | _ :: _, [], _, sized => nomatch sized
  | x :: xs, y :: ys, d, sized => by
    obtain ⟨d', rest, zero⟩ := differences_eq (d ||| (x ^^^ y)) (Nat.succ.inj sized)
    refine ⟨d', ?_, ?_⟩
    · rw [differences, ← rest, UInt8.toUInt32_or]
    · rw [zero, UInt8.or_eq_zero_iff, UInt8.xor_eq_zero_iff, List.cons.injEq, and_assoc]

theorem verdict_eq (d : UInt8) : verdict d.toUInt32 = if d = 0 then 0 else -1 := by
  have every : ∀ d < 256, verdict (UInt8.ofNat d).toUInt32 = if UInt8.ofNat d = 0 then 0 else -1 := by
    decide +kernel
  have self := every d.toNat d.toNat_lt
  rwa [UInt8.ofNat_toNat] at self

/-- **The comparison is 0 on equal arrays, else -1.** -/
theorem vn_eq (x y : Bytes size) : vn x y = if x = y then 0 else -1 := by
  obtain ⟨d, loop, zero⟩ := @differences_eq x.toList y.toList 0
    (by rw [List.Vector.toList_length, List.Vector.toList_length])
  have same : d = 0 ↔ x = y := by
    rw [zero, and_iff_right rfl]
    exact ⟨Bytes.ext, congrArg _⟩
  unfold vn
  refine (congrArg verdict loop).trans ?_
  rw [verdict_eq]
  exact if_congr same rfl rfl

theorem vn_eq_zero_iff (x y : Bytes size) : vn x y = 0 ↔ x = y := by
  rw [vn_eq]
  by_cases same : x = y
  · rw [if_pos same, iff_true_right same]
  · rw [if_neg same, iff_false_right same]
    decide

end Comparison

/-! ### The two functions -/

/-- `crypto_onetimeauth_poly1305_verify`, which calls `crypto_verify_16`. -/
def onetimeauthVerify (h : Bytes 16) (input : List UInt8) (k : Bytes 32) : Int := vn h (onetimeauth input k)

section Functions

variable (width : Nat)

/-- `crypto_secretbox_xsalsa20poly1305` on a message of `mlen` bytes, `crypto_uint32` having `width` bits. -/
def cryptoSecretbox {mlen : Nat} (m : Bytes mlen) (n : Nonce) (k : Key) : Option (Bytes mlen) :=
  if short : mlen < 32 then none
  else
    let c : Bytes mlen := ⟨streamXsalsa20Xor width m.toList n k, by
      rw [length_streamXsalsa20Xor, List.Vector.toList_length]⟩
    let c : Bytes mlen := c.splice 16
      (onetimeauth (c.toList.drop 32) (c.slice 0 32 (by omega))).toList (by
        rw [List.Vector.toList_length]
        omega)
    some (c.splice 0 (List.replicate 16 0) (by
      rw [List.length_replicate]
      omega))

/-- The array `x`, the first 32 bytes of the stream: the authenticator's key. -/
def authenticatorKey (n : Nonce) (k : Key) : Bytes 32 := ⟨streamXsalsa20 width 32 n k, by
  rw [← streamXsalsa20Xor_zeros, length_streamXsalsa20Xor, List.length_replicate]⟩

/-- `crypto_secretbox_xsalsa20poly1305_open`. -/
def cryptoSecretboxOpen {clen : Nat} (c : Bytes clen) (n : Nonce) (k : Key) : Option (Bytes clen) :=
  if short : clen < 32 then none
  else if onetimeauthVerify (c.slice 16 16 (by omega)) (c.toList.drop 32) (authenticatorKey width n k) ≠ 0 then
    none
  else
    let m : Bytes clen := ⟨streamXsalsa20Xor width c.toList n k, by
      rw [length_streamXsalsa20Xor, List.Vector.toList_length]⟩
    some (m.splice 0 (List.replicate 32 0) (by
      rw [List.length_replicate]
      omega))

/-- The library. -/
def nacl : Secretbox where
  cryptoSecretbox := cryptoSecretbox width
  cryptoSecretboxOpen := cryptoSecretboxOpen width

end Functions

/-! ### What they write -/

section Written

variable {width size : Nat} {n : Nonce} {k : Key}

/-- What is behind the first 32 bytes, combined with the stream. -/
def body (width : Nat) (n : Nonce) (k : Key) (data : List UInt8) : List UInt8 :=
  List.zipWith (· ^^^ ·) data
    (keystreamFrom (lastEight n) (subkey width n k) 32 data.length)

/-- The authenticator of a ciphertext's body. -/
def tag (width : Nat) (n : Nonce) (k : Key) (data : List UInt8) : List UInt8 :=
  (onetimeauth data (authenticatorKey width n k)).toList

/-- What is behind the place a string was copied to. -/
theorem drop_splice (x : Bytes size) (offset : Nat) (data : List UInt8)
    (fits : offset + data.length ≤ size) :
    (x.splice offset data fits).toList.drop offset = data ++ x.toList.drop (offset + data.length) := by
  have front : (x.toList.take offset).length = offset := by
    rw [List.length_take, List.Vector.toList_length]
    omega
  rw [Bytes.toList_splice, List.append_assoc, List.drop_left' front]

theorem length_body (data : List UInt8) : (body width n k data).length = data.length := by
  rw [body, List.length_zipWith, length_keystreamFrom, Nat.min_self]

theorem length_tag (data : List UInt8) : (tag width n k data).length = 16 := List.Vector.toList_length _

theorem body_body (data : List UInt8) : body width n k (body width n k data) = data := by
  have sized := @length_body width n k data
  unfold body at sized ⊢
  rw [sized]
  exact zipWith_xor_twice _ _ (by rw [length_keystreamFrom])

/-- Behind 32 bytes, whatever they are, the stream is the body's. -/
theorem drop_streamXsalsa20Xor (m : List UInt8) (long : 32 ≤ m.length) :
    (streamXsalsa20Xor width m n k).drop 32 = body width n k (m.drop 32) := by
  have parts := keystreamFrom_add (lastEight n) (subkey width n k) 0 32 (m.length - 32)
  rw [show 32 + (m.length - 32) = m.length by omega] at parts
  unfold streamXsalsa20Xor body
  rw [← lastEight, streamSalsa20Xor_eq, parts, List.drop_zipWith, List.drop_left' (length_keystreamFrom _ _ _ _),
    List.length_drop, Nat.zero_add]

/-- Over 32 zeros the stream is the authenticator's key. -/
theorem take_streamXsalsa20Xor {m : List UInt8} (zeros : m.take 32 = List.replicate 32 0) :
    (streamXsalsa20Xor width m n k).take 32 = (authenticatorKey width n k).toList := by
  have front := @streamXsalsa20Xor_append width n k (m.take 32) (m.drop 32)
  rw [List.take_append_drop, zeros, List.length_replicate, streamXsalsa20Xor_zeros] at front
  exact front

/-- An array whose front is cleared. -/
theorem toList_cleared (x : Bytes size) (count : Nat)
    (fits : 0 + (List.replicate count (0 : UInt8)).length ≤ size) :
    (x.splice 0 (List.replicate count 0) fits).toList = List.replicate count 0 ++ x.toList.drop count := by
  have whole := drop_splice x 0 (List.replicate count 0) fits
  rwa [List.drop_zero, List.length_replicate, Nat.zero_add] at whole

/-- A ciphertext after its tag and its zeros are written. -/
theorem toList_tagged (c : Bytes size) (h : Bytes 16) (fits : 16 + h.toList.length ≤ size)
    (fits' : 0 + (List.replicate 16 (0 : UInt8)).length ≤ size) :
    ((c.splice 16 h.toList fits).splice 0 (List.replicate 16 0) fits').toList =
      List.replicate 16 0 ++ h.toList ++ c.toList.drop 32 := by
  rw [toList_cleared, drop_splice, List.Vector.toList_length, ← List.append_assoc]

/-- Behind 32 zeros a message becomes zeros, the tag of its body, and the body. -/
theorem cryptoSecretbox_eq_some {m : Bytes size} (long : 32 ≤ size)
    (zeros : m.toList.take 32 = List.replicate 32 0) :
    ∃ c, cryptoSecretbox width m n k = some c ∧
      c.toList = List.replicate 16 0 ++ tag width n k (body width n k (m.toList.drop 32)) ++
        body width n k (m.toList.drop 32) := by
  have whole : 32 ≤ m.toList.length := by
    rw [List.Vector.toList_length]
    exact long
  have front := @take_streamXsalsa20Xor width n k _ zeros
  have back := @drop_streamXsalsa20Xor width n k m.toList whole
  unfold cryptoSecretbox
  rw [dif_neg (Nat.not_lt.mpr long)]
  refine ⟨_, rfl, ?_⟩
  have sized : (streamXsalsa20Xor width m.toList n k).length = size := by
    rw [length_streamXsalsa20Xor, List.Vector.toList_length]
  have key : Bytes.slice (⟨streamXsalsa20Xor width m.toList n k, sized⟩ : Bytes size) 0 32 (by omega) =
      authenticatorKey width n k := Bytes.ext front
  refine (toList_tagged _ _ _ _).trans ?_
  rw [key]
  show _ ++ (onetimeauth ((streamXsalsa20Xor width m.toList n k).drop 32) _).toList ++
    (streamXsalsa20Xor width m.toList n k).drop 32 = _
  rw [back]
  rfl

/-- What opens, and to what: the 16 bytes before the body are its tag; the first 16 may be anything. -/
theorem cryptoSecretboxOpen_eq_some_iff {c m : Bytes size} :
    cryptoSecretboxOpen width c n k = some m ↔
      32 ≤ size ∧ (c.toList.drop 16).take 16 = tag width n k (c.toList.drop 32) ∧
        m.toList = List.replicate 32 0 ++ body width n k (c.toList.drop 32) := by
  unfold cryptoSecretboxOpen
  by_cases long : 32 ≤ size
  · have whole : 32 ≤ c.toList.length := by
      rw [List.Vector.toList_length]
      exact long
    have opened := @drop_streamXsalsa20Xor width n k c.toList whole
    have checked : onetimeauthVerify (c.slice 16 16 (by omega)) (c.toList.drop 32)
        (authenticatorKey width n k) = 0 ↔
          (c.toList.drop 16).take 16 = tag width n k (c.toList.drop 32) := by
      unfold onetimeauthVerify
      rw [vn_eq_zero_iff]
      exact ⟨congrArg List.Vector.toList, fun same => Bytes.ext same⟩
    rw [dif_neg (Nat.not_lt.mpr long), and_iff_right long, ← checked]
    by_cases verified : onetimeauthVerify (c.slice 16 16 (by omega)) (c.toList.drop 32)
        (authenticatorKey width n k) = 0
    · rw [if_neg (not_not_intro verified), and_iff_right verified, Option.some.injEq]
      have sized : (streamXsalsa20Xor width c.toList n k).length = size := by
        rw [length_streamXsalsa20Xor, List.Vector.toList_length]
      have written := @toList_cleared size ⟨streamXsalsa20Xor width c.toList n k, sized⟩ 32 (by
        rw [List.length_replicate]
        omega)
      rw [← opened, eq_comm]
      constructor
      · rintro rfl
        exact written
      · intro same
        exact Bytes.ext (same.trans written.symm)
    · rw [if_pos verified]
      exact ⟨nofun, fun ⟨zero, _⟩ => absurd zero verified⟩
  · rw [dif_pos (Nat.not_le.mp long)]
    exact ⟨nofun, fun ⟨fits, _⟩ => absurd fits long⟩

/-- The first 16 bytes of a ciphertext are not looked at. -/
theorem cryptoSecretboxOpen_congr {c c' : Bytes size} (same : c.toList.drop 16 = c'.toList.drop 16) :
    cryptoSecretboxOpen width c n k = cryptoSecretboxOpen width c' n k := by
  have back : c.toList.drop 32 = c'.toList.drop 32 := by
    have later := congrArg (List.drop 16) same
    rwa [List.drop_drop, List.drop_drop] at later
  apply Option.ext
  intro m
  rw [cryptoSecretboxOpen_eq_some_iff, cryptoSecretboxOpen_eq_some_iff, same, back]

end Written

/-! ### The contract -/

section Contract

variable (width : Nat)

theorem drop_sealed {tag body : List UInt8} (sized : tag.length = 16) :
    (List.replicate 16 0 ++ tag ++ body).drop 16 = tag ++ body ∧
      (List.replicate 16 0 ++ tag ++ body).drop 32 = body := by
  constructor
  · rw [List.append_assoc, List.drop_left' List.length_replicate]
  · rw [List.drop_left']
    rw [List.length_append, List.length_replicate, sized]

/-- What is sealed opens. -/
theorem open_sealed {size : Nat} {m c : Bytes size} {n : Nonce} {k : Key} (long : 32 ≤ size)
    (zeros : m.toList.take 32 = List.replicate 32 0) (sealed : cryptoSecretbox width m n k = some c) :
    cryptoSecretboxOpen width c n k = some m := by
  obtain ⟨c', sealed', parts⟩ := @cryptoSecretbox_eq_some width size n k m long zeros
  rw [sealed, Option.some.injEq] at sealed'
  subst sealed'
  have tagged := @length_tag width n k (body width n k (m.toList.drop 32))
  obtain ⟨behind, last⟩ := @drop_sealed _ (body width n k (m.toList.drop 32)) tagged
  rw [cryptoSecretboxOpen_eq_some_iff]
  refine ⟨long, ?_, ?_⟩
  · rw [parts, behind, last, List.take_left' tagged]
  · rw [parts, last, body_body, ← zeros, List.take_append_drop]

/-- What opens was sealed, but for its first 16 bytes. -/
theorem sealed_open {size : Nat} {m c : Bytes size} {n : Nonce} {k : Key}
    (opened : cryptoSecretboxOpen width c n k = some m) :
    m.toList.take 32 = List.replicate 32 0 ∧
      ∃ c', cryptoSecretbox width m n k = some c' ∧ c'.toList.take 16 = List.replicate 16 0 ∧
        c'.toList.drop 16 = c.toList.drop 16 := by
  obtain ⟨long, tagged, written⟩ := cryptoSecretboxOpen_eq_some_iff.mp opened
  have zeros : m.toList.take 32 = List.replicate 32 0 := by
    rw [written, List.take_left' List.length_replicate]
  have back : m.toList.drop 32 = body width n k (c.toList.drop 32) := by
    rw [written, List.drop_left' List.length_replicate]
  obtain ⟨c', sealed, parts⟩ := @cryptoSecretbox_eq_some width size n k m long zeros
  refine ⟨zeros, c', sealed, ?_, ?_⟩
  · rw [parts, List.append_assoc, List.take_left' List.length_replicate]
  · have rest := @List.drop_drop UInt8 16 16 c.toList
    rw [parts, (drop_sealed (length_tag _)).1, back, body_body, ← tagged, ← rest, List.take_append_drop]

/-- **What opens is what was sealed, but for the first 16 bytes**, which are not looked at. -/
theorem cryptoSecretboxOpen_iff_sealed {size : Nat} (c m : Bytes size) (n : Nonce) (k : Key) :
    cryptoSecretboxOpen width c n k = some m ↔
      m.toList.take 32 = List.replicate 32 0 ∧
        ∃ c', cryptoSecretbox width m n k = some c' ∧ c'.toList.drop 16 = c.toList.drop 16 := by
  constructor
  · intro opened
    obtain ⟨zeros, c', sealed, -, behind⟩ := sealed_open width opened
    exact ⟨zeros, c', sealed, behind⟩
  · rintro ⟨zeros, c', sealed, behind⟩
    have long : 32 ≤ size := by
      by_contra short
      unfold cryptoSecretbox at sealed
      rw [dif_pos (Nat.not_le.mp short)] at sealed
      cases sealed
    rw [← cryptoSecretboxOpen_congr behind]
    exact open_sealed width long zeros sealed

/-- **The vendored library keeps the contract.** -/
theorem nacl_contract : (nacl width).Contract where
  seals := by
    intro size padded n k long zeros
    obtain ⟨c, sealed, parts⟩ := @cryptoSecretbox_eq_some width size n k padded long zeros
    have front : c.toList.take 16 = List.replicate 16 0 := by
      rw [parts, List.append_assoc, List.take_left' List.length_replicate]
    exact ⟨c, sealed, front, open_sealed width long zeros sealed⟩
  opens := by
    intro size c padded n k front opened
    obtain ⟨zeros, c', sealed, front', behind⟩ := sealed_open width opened
    have same : c' = c := by
      apply Bytes.ext
      rw [← List.take_append_drop 16 c'.toList, front', behind, ← front, List.take_append_drop]
    exact ⟨zeros, same ▸ sealed⟩

end Contract

/-! ### Behind the wrappers -/

section Padded

variable (width : Nat) {mlen : Nat} (n : Nonce) (k : Key)

theorem toList_ne_nil (m : Bytes (mlen + 1)) : m.toList ≠ [] := by
  intro empty
  have sized := m.toList_length
  rw [empty] at sized
  cases sized

/-- What is returned for a ciphertext without a body is no message. -/
theorem jni_decrypt_long {box : Secretbox} {stale : Nat → UInt8} {m : Bytes (mlen + 1)}
    {c n k : List UInt8} (decrypted : Jni.decrypt box stale c n k = some m.toList) : 16 < c.length := by
  by_contra short
  unfold Jni.decrypt at decrypted
  have refused : c.length ≤ 16 ∨ n.length ≠ 24 ∨ k.length ≠ 32 := Or.inl (Nat.not_lt.mp short)
  simp only [if_pos refused, Option.some.injEq] at decrypted
  exact toList_ne_nil m decrypted.symm

/-- **The app decrypts exactly what it encrypts**: `decrypt` returns a message that is not empty for its
ciphertext, and for no other array of bytes, whatever the arrays on the stack held before. -/
theorem jni_decrypt_eq_some_iff (stale stale' : Nat → UInt8) (m : Bytes (mlen + 1)) (c : List UInt8) :
    Jni.decrypt (nacl width) stale c n.toList k.toList = some m.toList ↔
      Jni.encrypt (nacl width) stale' m.toList n.toList k.toList = some c := by
  constructor
  · intro decrypted
    obtain ⟨clen, sized⟩ := Nat.exists_eq_add_of_lt (jni_decrypt_long decrypted)
    obtain ⟨c, rfl⟩ : ∃ c' : Bytes (clen + 1 + 16), c'.toList = c := ⟨⟨c, by omega⟩, rfl⟩
    have positive : 1 ≤ clen + 1 := Nat.le_add_left 1 clen
    cases opened : openPadded (nacl width) c n k with
    | none =>
        rw [jni_rejected stale positive opened, Option.some.injEq] at decrypted
        exact absurd decrypted.symm (toList_ne_nil m)
    | some m' =>
        rw [jni_decrypt stale positive opened, Option.some.injEq] at decrypted
        obtain rfl : clen = mlen := by
          have lengths := congrArg List.length decrypted
          rw [List.Vector.toList_length, List.Vector.toList_length] at lengths
          exact Nat.succ.inj lengths
        obtain rfl : m' = m := Bytes.ext decrypted
        exact jni_encrypt stale' positive (sealPadded_openPadded (nacl_contract width) opened)
  · intro encrypted
    obtain ⟨c', sealed, opened⟩ := openPadded_sealPadded (nacl_contract width) m n k
    rw [jni_encrypt stale' (Nat.le_add_left 1 mlen) sealed, Option.some.injEq] at encrypted
    subst encrypted
    exact jni_decrypt stale (Nat.le_add_left 1 mlen) opened

end Padded

end Esloq.Nacl
