/-
**Authenticated encryption as the three programs use it.**

The lock, the server and the app all wrap NaCl's `crypto_secretbox`, each in a build of its own, of which only
the app's is part of the repository: `Secretbox` is the pair of library functions, a parameter of the model,
and `Secretbox.Contract` is their documented padding contract (`Nacl.nacl_contract`: the app's library keeps
it).

* `sealPadded`, `openPadded` — what all three wrappers do with it: 32 zero bytes before the
  plaintext, 16 before the ciphertext.
* `openPadded_sealPadded`, `sealPadded_openPadded` — under the contract the two are inverse.
* `keyTag` — a small secretbox that keeps the contract, for evaluating the model.
-/

import Esloq.Lib.BigEndian

namespace Esloq

/-- An array of `NONCE_LEN` (`crypto_secretbox_NONCEBYTES`) bytes. -/
abbrev Nonce := Bytes 24

/-- An array of `KEY_LEN` (`crypto_secretbox_KEYBYTES`) bytes. -/
abbrev Key := Bytes 32

/-! ### The library -/

/-- NaCl's `crypto_secretbox` and `crypto_secretbox_open` on padded messages. Both write as many
bytes as they read; `none` is the return value `-1`. -/
structure Secretbox where
  cryptoSecretbox : {length : Nat} → Bytes length → Nonce → Key → Option (Bytes length)
  cryptoSecretboxOpen : {length : Nat} → Bytes length → Nonce → Key → Option (Bytes length)

/-- The library's padding contract: a message behind 32 zero bytes is sealed to a ciphertext behind
16 zero bytes, opening inverts sealing, and behind 16 zero bytes nothing else opens. -/
structure Secretbox.Contract (box : Secretbox) : Prop where
  seals : ∀ {length : Nat} (padded : Bytes length) (nonce : Nonce) (key : Key),
    32 ≤ length → padded.toList.take 32 = List.replicate 32 0 →
    ∃ c, box.cryptoSecretbox padded nonce key = some c ∧
      c.toList.take 16 = List.replicate 16 0 ∧
      box.cryptoSecretboxOpen c nonce key = some padded
  opens : ∀ {length : Nat} (c padded : Bytes length) (nonce : Nonce) (key : Key),
    c.toList.take 16 = List.replicate 16 0 → box.cryptoSecretboxOpen c nonce key = some padded →
    padded.toList.take 32 = List.replicate 32 0 ∧
      box.cryptoSecretbox padded nonce key = some c

/-! ### The wrappers -/

section Wrappers

variable (box : Secretbox) {mlen : Nat}

/-- A message behind 32 zero bytes. -/
def padPlaintext (m : Bytes mlen) : Bytes (32 + mlen) :=
  ⟨List.replicate 32 0 ++ m.toList, by
    rw [List.length_append, List.length_replicate, List.Vector.toList_length]⟩

/-- A ciphertext behind 16 zero bytes. -/
def padCiphertext (c : Bytes (mlen + 16)) : Bytes (32 + mlen) :=
  ⟨List.replicate 16 0 ++ c.toList, by
    rw [List.length_append, List.length_replicate, List.Vector.toList_length]
    omega⟩

/-- Authenticated encryption: pad, seal, drop the zeros in front of the ciphertext. -/
def sealPadded (m : Bytes mlen) (n : Nonce) (k : Key) : Option (Bytes (mlen + 16)) :=
  (box.cryptoSecretbox (padPlaintext m) n k).map fun cSecretbox =>
    cSecretbox.slice 16 (mlen + 16) (by omega)

/-- Authenticated decryption: pad, open, drop the zeros in front of the plaintext. -/
def openPadded (c : Bytes (mlen + 16)) (n : Nonce) (k : Key) : Option (Bytes mlen) :=
  (box.cryptoSecretboxOpen (padCiphertext c) n k).map fun mSecretbox =>
    mSecretbox.slice 32 mlen (by omega)

theorem take_padPlaintext (m : Bytes mlen) :
    (padPlaintext m).toList.take 32 = List.replicate 32 0 := by
  show (List.replicate 32 0 ++ m.toList).take 32 = _
  rw [List.take_left' List.length_replicate]

theorem take_padCiphertext (c : Bytes (mlen + 16)) :
    (padCiphertext c).toList.take 16 = List.replicate 16 0 := by
  show (List.replicate 16 0 ++ c.toList).take 16 = _
  rw [List.take_left' List.length_replicate]

theorem slice_padPlaintext (m : Bytes mlen) (fits : 32 + mlen ≤ 32 + mlen) :
    (padPlaintext m).slice 32 mlen fits = m := by
  apply Bytes.ext
  show ((List.replicate 32 0 ++ m.toList).drop 32).take mlen = m.toList
  rw [List.drop_left' List.length_replicate,
    List.take_of_length_le (List.Vector.toList_length m).le]

/-- A padded ciphertext is its zeros and its slice. -/
theorem padCiphertext_slice (c : Bytes (32 + mlen))
    (zeros : c.toList.take 16 = List.replicate 16 0)
    (fits : 16 + (mlen + 16) ≤ 32 + mlen) :
    padCiphertext (c.slice 16 (mlen + 16) fits) = c := by
  apply Bytes.ext
  have whole : (c.toList.drop 16).length ≤ mlen + 16 := by
    rw [List.length_drop, List.Vector.toList_length]
    omega
  show List.replicate 16 0 ++ (c.toList.drop 16).take (mlen + 16) = c.toList
  rw [List.take_of_length_le whole, ← zeros, List.take_append_drop]

variable {box}

/-- Sealing never fails, and opening under the same nonce and key returns the message. -/
theorem openPadded_sealPadded (contract : box.Contract) (m : Bytes mlen) (n : Nonce) (k : Key) :
    ∃ c, sealPadded box m n k = some c ∧ openPadded box c n k = some m := by
  obtain ⟨sealed, boxed, zeros, opened⟩ :=
    contract.seals (padPlaintext m) n k (Nat.le_add_right _ _) (take_padPlaintext m)
  refine ⟨sealed.slice 16 (mlen + 16) _, by rw [sealPadded, boxed]; rfl, ?_⟩
  rw [openPadded, padCiphertext_slice sealed zeros, opened, Option.map_some, slice_padPlaintext]

/-- Only what was sealed opens. -/
theorem sealPadded_openPadded (contract : box.Contract) {c : Bytes (mlen + 16)} {n : Nonce}
    {k : Key} {m : Bytes mlen} (opened : openPadded box c n k = some m) :
    sealPadded box m n k = some c := by
  unfold openPadded at opened
  obtain ⟨padded, unboxed, rfl⟩ := Option.map_eq_some_iff.mp opened
  obtain ⟨zeros, boxed⟩ := contract.opens _ _ _ _ (take_padCiphertext c) unboxed
  have same : padPlaintext (padded.slice 32 mlen (by omega)) =
      padded := by
    apply Bytes.ext
    have whole : (padded.toList.drop 32).length ≤ mlen := by
      rw [List.length_drop, List.Vector.toList_length]
      omega
    show List.replicate 32 0 ++ (padded.toList.drop 32).take mlen = padded.toList
    rw [List.take_of_length_le whole, ← zeros, List.take_append_drop]
  rw [sealPadded, same, boxed, Option.map_some]
  refine congrArg some (Bytes.ext ?_)
  show ((List.replicate 16 0 ++ c.toList).drop 16).take (mlen + 16) = c.toList
  rw [List.drop_left' List.length_replicate,
    List.take_of_length_le (List.Vector.toList_length c).le]

end Wrappers

/-! ### A secretbox to evaluate with -/

/-- The 32 bytes in front of a message that `keyTag` seals: 16 zeros and half of the key. -/
def keyTagHeader (key : Key) : Bytes 32 := ⟨List.replicate 16 0 ++ key.toList.take 16, by
  rw [List.length_append, List.length_replicate, List.length_take, List.Vector.toList_length]
  rfl⟩

/-- Exchange a known header of 32 bytes for another one. -/
def exchangeHeader (expected replacement : Bytes 32) {length : Nat} (bytes : Bytes length) :
    Option (Bytes length) :=
  if known : bytes.toList.take 32 = expected.toList then
    some ⟨replacement.toList ++ bytes.toList.drop 32, by
      have header := congrArg List.length known
      rw [List.length_take, List.Vector.toList_length, List.Vector.toList_length] at header
      rw [List.length_append, List.length_drop, List.Vector.toList_length, List.Vector.toList_length]
      omega⟩
  else none

/-- A secretbox whose authenticator is half of the key and which encrypts nothing. -/
def keyTag : Secretbox where
  cryptoSecretbox padded _ key := exchangeHeader (Bytes.zeros 32) (keyTagHeader key) padded
  cryptoSecretboxOpen c _ key := exchangeHeader (keyTagHeader key) (Bytes.zeros 32) c

theorem exchangeHeader_inverse {expected replacement : Bytes 32} {length : Nat}
    {bytes exchanged : Bytes length}
    (found : exchangeHeader expected replacement bytes = some exchanged) :
    bytes.toList.take 32 = expected.toList ∧ exchanged.toList.take 32 = replacement.toList ∧
      exchangeHeader replacement expected exchanged = some bytes := by
  unfold exchangeHeader at found
  split at found
  · rename_i known
    cases found
    have header : (replacement.toList ++ bytes.toList.drop 32).take 32 = replacement.toList :=
      List.take_left' (List.Vector.toList_length replacement)
    refine ⟨known, header, (dif_pos header).trans (congrArg some (Bytes.ext ?_))⟩
    show expected.toList ++ (replacement.toList ++ bytes.toList.drop 32).drop 32 = bytes.toList
    rw [List.drop_left' (List.Vector.toList_length replacement), ← known, List.take_append_drop]
  · cases found

theorem keyTag_contract : keyTag.Contract where
  seals padded nonce key _ zeros := by
    have known : padded.toList.take 32 = (Bytes.zeros 32).toList := zeros
    have sealed : ∃ c, exchangeHeader (Bytes.zeros 32) (keyTagHeader key) padded = some c :=
      ⟨_, dif_pos known⟩
    obtain ⟨c, sealed⟩ := sealed
    obtain ⟨_, header, opened⟩ := exchangeHeader_inverse sealed
    refine ⟨c, sealed, ?_, opened⟩
    have front := congrArg (List.take 16) header
    rw [List.take_take] at front
    exact front.trans (List.take_left' List.length_replicate)
  opens c padded nonce key _ opened := by
    obtain ⟨_, zeros, sealed⟩ := exchangeHeader_inverse opened
    exact ⟨zeros, sealed⟩

end Esloq
