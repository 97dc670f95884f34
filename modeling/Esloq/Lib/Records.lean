/-
**Records of a length, a type and data.**

A record is one byte that counts the rest of it, a byte for its type, and its data; a length of zero ends
the records early.

* `encode`, `parse` — records one after the other, and back.
* `parse_encode` — what is written is read back, if every length fits its byte.
* `complete_take_encode` — of a beginning of what is written, the records are read that are complete.
-/

import Mathlib.Data.List.Basic

namespace Records

/-- A type and its data. -/
abbrev Record := UInt8 × List UInt8

/-- The bytes of a record. -/
def Record.bytes (record : Record) : List UInt8 :=
  UInt8.ofNat (record.2.length + 1) :: record.1 :: record.2

/-- The bytes of records. -/
def encode (records : List Record) : List UInt8 := records.flatMap Record.bytes

/-- The records of some bytes; `none` where a length runs over the end. -/
def parse : List UInt8 → Option (List Record)
  | [] => some []
  | length :: rest =>
      if length = 0 then some []
      else if rest.length < length.toNat then none
      else
        match rest.take length.toNat with
        | [] => none
        | type :: data => (parse (rest.drop length.toNat)).map ((type, data) :: ·)
termination_by bytes => bytes.length
decreasing_by
  rw [List.length_drop, List.length_cons]
  omega

/-- The length byte says how long the rest is. -/
theorem toNat_length (record : Record) (fits : record.2.length < 255) :
    (UInt8.ofNat (record.2.length + 1)).toNat = (record.1 :: record.2).length := by
  rw [UInt8.toNat_ofNat', List.length_cons]
  exact Nat.mod_eq_of_lt (Nat.succ_lt_succ fits)

/-- The record at the front is read, and then the others. -/
theorem parse_bytes (record : Record) (fits : record.2.length < 255) (rest : List UInt8) :
    parse (record.bytes ++ rest) = (parse rest).map (record :: ·) := by
  obtain ⟨type, data⟩ := record
  have length := toNat_length (type, data) fits
  have nonzero : UInt8.ofNat (data.length + 1) ≠ 0 := by
    intro zero
    rw [zero] at length
    cases length
  have room : ¬ (type :: data ++ rest).length < (type :: data).length := by
    rw [List.length_append]
    omega
  show parse (UInt8.ofNat (data.length + 1) :: (type :: data ++ rest)) = _
  rw [parse, if_neg nonzero, length, if_neg room, List.take_left, List.drop_left]

/-- **What is written is read back.** -/
theorem parse_encode (records : List Record) (fits : ∀ record ∈ records, record.2.length < 255) :
    parse (encode records) = some records := by
  induction records with
  | nil =>
      show parse [] = some []
      rw [parse]
  | cons record records later =>
      show parse (record.bytes ++ encode records) = _
      rw [parse_bytes record (fits record List.mem_cons_self),
        later fun other member => fits other (List.mem_cons_of_mem record member)]
      rfl

/-! ### Complete records -/

/-- The records that are complete; a length of zero ends them. -/
def complete : List UInt8 → List Record
  | [] => []
  | length :: rest =>
      if rest.length < length.toNat then []
      else
        match rest.take length.toNat with
        | [] => []
        | type :: data => (type, data) :: complete (rest.drop length.toNat)
termination_by bytes => bytes.length
decreasing_by
  rw [List.length_drop, List.length_cons]
  omega

/-- The record at the front is complete, and the others are behind it. -/
theorem complete_bytes (record : Record) (fits : record.2.length < 255) (rest : List UInt8) :
    complete (record.bytes ++ rest) = record :: complete rest := by
  obtain ⟨type, data⟩ := record
  have length := toNat_length (type, data) fits
  have room : ¬ (type :: data ++ rest).length < (type :: data).length := by
    rw [List.length_append]
    omega
  show complete (UInt8.ofNat (data.length + 1) :: (type :: data ++ rest)) = _
  rw [complete, length, if_neg room, List.take_left, List.drop_left]

/-- A record is not complete before its last byte. -/
theorem complete_take_bytes {record : Record} (fits : record.2.length < 255) {count : ℕ}
    (short : count < record.bytes.length) : complete (record.bytes.take count) = [] := by
  obtain ⟨type, data⟩ := record
  cases count with
  | zero =>
      show complete [] = []
      rw [complete]
  | succ count =>
      have length := toNat_length (type, data) fits
      have missing : ((type :: data).take count).length < (type :: data).length := by
        have less : count < (type :: data).length := Nat.lt_of_succ_lt_succ short
        rw [List.length_take]
        omega
      show complete (UInt8.ofNat (data.length + 1) :: (type :: data).take count) = []
      rw [complete, length, if_pos missing]

/-- **Of a beginning of what is written the records are complete whose last byte is in it**, and no others. -/
theorem complete_take_encode (records : List Record) (fits : ∀ record ∈ records, record.2.length < 255)
    (count : ℕ) :
    ∃ done rest, records = done ++ rest ∧ complete ((encode records).take count) = done ∧
      (rest = [] ↔ (encode records).length ≤ count) := by
  induction records generalizing count with
  | nil =>
      refine ⟨[], [], rfl, ?_, iff_of_true rfl (Nat.zero_le _)⟩
      rw [show encode [] = [] from rfl, List.take_nil, complete]
  | cons record records ih =>
      have fit := fits record List.mem_cons_self
      have bytes : encode (record :: records) = record.bytes ++ encode records := rfl
      rw [bytes, List.length_append]
      by_cases whole : record.bytes.length ≤ count
      · obtain ⟨done, rest, split, read, all⟩ :=
          ih (fun other member => fits other (List.mem_cons_of_mem record member)) (count - record.bytes.length)
        refine ⟨record :: done, rest, ?_, ?_, all.trans ?_⟩
        · rw [split, List.cons_append]
        · rw [List.take_append, List.take_of_length_le whole, complete_bytes record fit, read]
        · omega
      · refine ⟨[], record :: records, rfl, ?_, iff_of_false (List.cons_ne_nil _ _) ?_⟩
        · rw [List.take_append_of_le_length (by omega)]
          exact complete_take_bytes fit (by omega)
        · omega

end Records
