import MatrixSteps.Json.Basic
import MatrixSteps.Number.Binary

/-!
The part of JSON Schema (draft 2020-12) that the matrix contracts use, and the two contracts.

- A string may have a least length, in characters.
- An integer is a number with no fractional part, also when written with one (`2.0`), and has a
  least value.
- A number is any number, NaN and the infinities included. Booleans are not numbers.
- An array may have a least number of items and a schema for every item, and may allow `null` in
  its place.
- An object lists its properties with their schemas and which of them are required, and admits
  no other property. A field of an object is its last occurrence.

`Schema.accepts` validates a value under a schema of this part.
-/

namespace MatrixSteps

mutual

/-- A schema of the contracts' subset of JSON Schema. -/
inductive Schema where
  | string (minLength : Nat)
  | integer (minimum : Int)
  | number
  | array (minItems : Nat) (items : Schema) (orNull : Bool)
  | object (properties : Properties)

/-- The properties of an object schema: name, schema, and whether the property is required. -/
inductive Properties where
  | nil
  | cons (name : String) (schema : Schema) (required : Bool) (rest : Properties)

end

namespace Properties

/-- Every required property is among the fields. -/
def present : Properties → List (String × Json) → Bool
  | .nil, _ => true
  | .cons name _ required rest, fields =>
      (!required || fields.any (·.1 == name)) && rest.present fields

/-- The schema of the property `key`, if the object schema lists it. -/
def schemaOf? : Properties → String → Option Schema
  | .nil, _ => none
  | .cons name s _ rest, key => if name == key then some s else rest.schemaOf? key

end Properties

/-- The integer value of a JSON value whose type is integer: an integer, or a double without a
fractional part. -/
def Schema.integral? : Json → Option (Binary.Parts ⊕ Int)
  | .int i => some (.inr i)
  | .float x => if (Binary.parts x).isIntegral then some (.inl (Binary.parts x)) else none
  | _ => none

mutual

/-- The value is valid under the schema. -/
def Schema.accepts : Schema → Json → Bool
  | .string minLength, .str s => minLength ≤ s.length
  | .integer minimum, v =>
      match Schema.integral? v with
      | some (.inr i) => minimum ≤ i
      | some (.inl p) => p.atLeast minimum
      | none => false
  | .number, .int _ => true
  | .number, .float _ => true
  | .array _ _ true, .null => true
  | .array minItems items _, .arr vs => minItems ≤ vs.length && vs.all fun v => items.accepts v
  | .object properties, .obj fields =>
      properties.present fields &&
        fields.all fun (key, _) => ((Json.obj fields).field? key).all (properties.admits key)
  | _, _ => false

/-- The field `key` is one of the properties, and `v` is valid under its schema. -/
def Properties.admits : Properties → String → Json → Bool
  | .nil, _, _ => false
  | .cons name s _ rest, key, v => if name == key then s.accepts v else rest.admits key v

end

namespace Schema

/-- The properties of an object schema from a list of names, schemas and whether required. -/
def properties : List (String × Schema × Bool) → Properties
  | [] => .nil
  | (name, s, required) :: rest => .cons name s required (properties rest)

/-- The contract of a single matrix. -/
def matrix : Schema :=
  .object (properties
    [("id", .string 1, true), ("name", .string 0, true), ("rows", .integer 1, true),
      ("cols", .integer 1, true), ("data", .array 1 (.array 1 .number false) false, true),
      ("steps", .array 0 (.string 0) true, false)])

def trace : Schema := .array 0 matrix false

end Schema

end MatrixSteps
