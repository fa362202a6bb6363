import MatrixSteps.Contract.Schema
import MatrixSteps.Matrix.Basic

/-!
The libraries the contracts rest on, and what their documentation promises of them.

Loading a payload validates each record with a JSON Schema validator, then reads its fields with a
model library in lax mode; writing a matrix dumps its fields. These are the host's libraries, so
here they are parameters (`Libraries`), each with the part of its documented behaviour that the
contracts use as a named property:

- `Draft202012`: validation under draft 2020-12 with the host's types. A string has a least length;
  an integer is an integer, or a double without a fractional part (booleans are neither); a number
  is any integer or double; an array has a least number of items, each valid, and may allow
  `null`; an object has its required properties, and every field it has is a property, valid
  under that property's schema. An object's field is its last occurrence, as parsing keeps it.
- `LaxReading`: an integer field takes an integer, or a double without a fractional part as its
  value; a float field takes a double as it is, and an integer as the nearest double, refusing an
  integer whose nearest double is an infinity; a string field takes a text.
- `Dumps`: a matrix is written as its declared fields in order (`record`), its cells as JSON
  numbers and absent steps as `null`.
-/

namespace MatrixSteps

/-- A validator of JSON Schema, the lax readers of a model library for the field types of a
matrix, and the dump of a matrix as a record under its id. -/
structure Libraries where
  valid : Schema → Json → Bool
  int? : Json → Option Int
  float? : Json → Option Float
  str? : Json → Option String
  dump : String → Matrix → Json

/-- Validation under JSON Schema draft 2020-12, for the keywords of the contracts. -/
structure Draft202012 (valid : Schema → Json → Bool) : Prop where
  string : ∀ minLength v, valid (.string minLength) v = true ↔
    ∃ s, v = .str s ∧ minLength ≤ s.length
  integer : ∀ minimum v, valid (.integer minimum) v = true ↔
    (∃ i, v = .int i ∧ minimum ≤ i) ∨
      ∃ x, v = .float x ∧ (Binary.parts x).isIntegral = true ∧ (Binary.parts x).atLeast minimum = true
  number : ∀ v, valid .number v = true ↔ (∃ i, v = .int i) ∨ ∃ x, v = .float x
  array : ∀ minItems items orNull v, valid (.array minItems items orNull) v = true ↔
    (orNull = true ∧ v = .null) ∨
      ∃ vs, v = .arr vs ∧ minItems ≤ vs.length ∧ ∀ w ∈ vs, valid items w = true
  object : ∀ properties v, valid (.object properties) v = true ↔
    ∃ fields, v = .obj fields ∧ properties.present fields = true ∧
      ∀ key w, (Json.obj fields).field? key = some w →
        ∃ s, properties.schemaOf? key = some s ∧ valid s w = true

/-- Lax reading of the fields of a matrix, on the values the matrix schema admits there. -/
structure LaxReading (lib : Libraries) : Prop where
  int_of_int : ∀ i, lib.int? (.int i) = some i
  int_of_float : ∀ x, lib.int? (.float x) = (Binary.parts x).toInt?
  float_of_float : ∀ x, lib.float? (.float x) = some x
  float_of_int : ∀ i, lib.float? (.int i) = Binary.ofInt? i
  str_of_str : ∀ s, lib.str? (.str s) = some s

namespace Contract

/-- The record of a matrix under the given id: its declared fields, in order. -/
def record (id : String) (m : Matrix) : Json :=
  .obj [("id", .str id), ("name", .str m.name), ("rows", .int m.rows), ("cols", .int m.cols),
    ("data", .arr (m.cells.map fun row => .arr (row.map .float))),
    ("steps", match m.steps with
      | some steps => .arr (steps.map .str)
      | none => .null)]

end Contract

/-- Dumping a matrix writes its record. -/
def Dumps (dump : String → Matrix → Json) : Prop := ∀ id m, dump id m = Contract.record id m

end MatrixSteps
