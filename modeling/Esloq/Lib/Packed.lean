/-
**Packed structures: integers, arrays of a fixed length, and arrays behind their length.**

Numbers are little-endian. An array behind its length can only be read if the length fits its width.

* `Field.Fits` — what a field can hold.
* `Field.head`, `Field.tail` — a field in two parts, the second the elements of an array of variable
  length. `encode` puts the fields one behind the other.
* `read` — the values of some fields, and the bytes behind them (`read_encode`).
* `ArrayLast` — only the last field is of variable length; all tails are then behind all heads
  (`encode_eq_heads_append`), and shorter than a length can say (`length_tails_lt`).
-/

import Esloq.Lib.LittleEndian
import Mathlib.Data.List.Forall2

namespace Packed

/-- A field of a packed structure. -/
inductive Field
  /-- An integer of so many bytes. -/
  | int (width : ℕ)
  /-- An array of a fixed length. -/
  | raw (length : ℕ)
  /-- An array behind its length, a number of so many bytes. -/
  | array (width : ℕ)
  deriving DecidableEq

/-- What a field holds. -/
inductive Value
  | int (value : ℕ)
  | raw (bytes : List UInt8)
  | array (bytes : List UInt8)
  deriving DecidableEq

/-- The value can be read back from the field. -/
def Field.Fits : Field → Value → Prop
  | .int width, .int value => value < 256 ^ width
  | .raw length, .raw bytes => bytes.length = length
  | .array width, .array bytes => bytes.length < 256 ^ width
  | _, _ => False

/-- The bytes of a field whose number is known from the field alone. -/
def Field.head : Field → Value → List UInt8
  | .int width, .int value => LittleEndian.encode width value
  | .raw _, .raw bytes => bytes
  | .array width, .array bytes => LittleEndian.encode width bytes.length
  | _, _ => []

/-- The elements of an array behind its length. -/
def Field.tail : Value → List UInt8
  | .array bytes => bytes
  | _ => []

/-- The length of the head. -/
def Field.size : Field → ℕ
  | .int width => width
  | .raw length => length
  | .array width => width

/-- The field is of variable length. -/
def Field.isArray : Field → Bool
  | .array _ => true
  | _ => false

/-- The bytes of some fields. -/
def encode : List Field → List Value → List UInt8
  | field :: fields, value :: values => field.head value ++ Field.tail value ++ encode fields values
  | _, _ => []

/-- The heads of some fields. -/
def heads : List Field → List Value → List UInt8
  | field :: fields, value :: values => field.head value ++ heads fields values
  | _, _ => []

/-- So many bytes, and those behind them. -/
def split (count : ℕ) (bytes : List UInt8) : Option (List UInt8 × List UInt8) :=
  if bytes.length < count then none else some (bytes.take count, bytes.drop count)

/-- Read a field. -/
def Field.read : Field → List UInt8 → Option (Value × List UInt8)
  | .int width, bytes => (split width bytes).map fun (number, rest) => (.int (LittleEndian.value number), rest)
  | .raw length, bytes => (split length bytes).map fun (data, rest) => (.raw data, rest)
  | .array width, bytes =>
      (split width bytes).bind fun (number, rest) =>
        (split (LittleEndian.value number) rest).map fun (data, rest) => (.array data, rest)

/-- Read some fields. -/
def read : List Field → List UInt8 → Option (List Value × List UInt8)
  | [], bytes => some ([], bytes)
  | field :: fields, bytes =>
      (field.read bytes).bind fun (value, rest) =>
        (read fields rest).map fun (values, rest) => (value :: values, rest)

/-! ### What is written is read back -/

theorem split_append {count : ℕ} {data : List UInt8} (sized : data.length = count) (rest : List UInt8) :
    split count (data ++ rest) = some (data, rest) := by
  subst sized
  have room : ¬ (data ++ rest).length < data.length := by
    rw [List.length_append]
    omega
  rw [split, if_neg room, List.take_left, List.drop_left]

/-- A field is read back. -/
theorem Field.read_append {field : Field} {value : Value} (fits : field.Fits value) (rest : List UInt8) :
    field.read (field.head value ++ Field.tail value ++ rest) = some (value, rest) := by
  have number {width value : ℕ} (small : value < 256 ^ width) :
      LittleEndian.value (LittleEndian.encode width value) = value := by
    rw [LittleEndian.value_encode, Nat.mod_eq_of_lt small]
  match field, value, fits with
  | .int width, .int value, small =>
      show (split width (LittleEndian.encode width value ++ [] ++ rest)).map _ = _
      rw [List.append_nil, split_append (LittleEndian.length_encode _ _)]
      show some (Value.int (LittleEndian.value _), rest) = _
      rw [number small]
  | .raw length, .raw bytes, sized =>
      show (split length (bytes ++ [] ++ rest)).map _ = _
      rw [List.append_nil, split_append sized]
      rfl
  | .array width, .array bytes, small =>
      show (split width (LittleEndian.encode width bytes.length ++ bytes ++ rest)).bind _ = _
      rw [List.append_assoc, split_append (LittleEndian.length_encode _ _), Option.bind_some]
      show (split (LittleEndian.value _) (bytes ++ rest)).map _ = _
      rw [number small, split_append rfl]
      rfl

/-- **What is written is read back**, whatever is behind it. -/
theorem read_encode {fields : List Field} {values : List Value} (fits : List.Forall₂ Field.Fits fields values)
    (rest : List UInt8) : read fields (encode fields values ++ rest) = some (values, rest) := by
  induction fits with
  | nil => rfl
  | cons fit fits ih =>
      rename_i field value fields values
      rw [encode, List.append_assoc, read, Field.read_append fit, Option.bind_some]
      show (read fields (encode fields values ++ rest)).map _ = _
      rw [ih]
      rfl

/-! ### Heads and tails -/

/-- The fields of variable length have no field behind them. -/
def ArrayLast : List Field → Prop
  | [] => True
  | field :: fields => (field.isArray = true → fields = []) ∧ ArrayLast fields

instance decidableArrayLast : DecidablePred ArrayLast
  | [] => isTrue trivial
  | field :: fields =>
      have := decidableArrayLast fields
      inferInstanceAs (Decidable ((field.isArray = true → fields = []) ∧ ArrayLast fields))

theorem Field.length_head {field : Field} {value : Value} (fits : field.Fits value) :
    (field.head value).length = field.size := by
  match field, value, fits with
  | .int _, .int _, _ => exact LittleEndian.length_encode _ _
  | .raw _, .raw _, sized => exact sized
  | .array _, .array _, _ => exact LittleEndian.length_encode _ _

theorem Field.tail_eq_nil {field : Field} {value : Value} (fits : field.Fits value)
    (fixed : field.isArray = false) : Field.tail value = [] := by
  match field, value, fits with
  | .int _, .int _, _ => rfl
  | .raw _, .raw _, _ => rfl
  | .array _, .array _, _ => cases fixed

/-- The length of the heads is that of the fields. -/
theorem length_heads {fields : List Field} {values : List Value}
    (fits : List.Forall₂ Field.Fits fields values) :
    (heads fields values).length = (fields.map Field.size).sum := by
  induction fits with
  | nil => rfl
  | cons fit _ ih => rw [heads, List.length_append, Field.length_head fit, ih, List.map_cons, List.sum_cons]

/-- Where an array can only be last its elements are behind all heads. -/
theorem encode_eq_heads_append {fields : List Field} {values : List Value}
    (fits : List.Forall₂ Field.Fits fields values) (last : ArrayLast fields) :
    encode fields values = heads fields values ++ values.flatMap Field.tail := by
  induction fits with
  | nil => rfl
  | cons fit fits ih =>
      rename_i field value fields values
      rw [encode, heads, ih last.2, List.flatMap_cons]
      cases array : field.isArray with
      | false => rw [Field.tail_eq_nil fit array, List.append_nil, List.nil_append, List.append_assoc]
      | true =>
          have none' : fields = [] := last.1 array
          subst none'
          cases fits
          simp only [heads, List.flatMap_nil, List.append_nil]

/-- An array is shorter than its length can say. -/
theorem length_tails_lt {fields : List Field} {values : List Value}
    (fits : List.Forall₂ Field.Fits fields values) (last : ArrayLast fields) {bound : ℕ} (some' : 0 < bound)
    (narrow : ∀ width, .array width ∈ fields → 256 ^ width ≤ bound) :
    (values.flatMap Field.tail).length < bound := by
  induction fits with
  | nil => exact some'
  | cons fit fits ih =>
      rename_i field value fields values
      rw [List.flatMap_cons]
      cases array : field.isArray with
      | false =>
          rw [Field.tail_eq_nil fit array, List.nil_append]
          exact ih last.2 fun width member => narrow width (List.mem_cons_of_mem _ member)
      | true =>
          have none' : fields = [] := last.1 array
          subst none'
          cases fits
          rw [List.flatMap_nil, List.append_nil]
          match field, value, fit with
          | .array width, .array data, small => exact Nat.lt_of_lt_of_le small (narrow width List.mem_cons_self)

end Packed
