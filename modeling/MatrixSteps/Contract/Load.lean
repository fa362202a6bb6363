import MatrixSteps.Contract.Libraries
import MatrixSteps.Text.Blank
import MatrixSteps.Number.Decimal

/-!
Loading matrices from payloads, and writing them back.

A payload is a list of matrix records. Each record is validated against `Schema.matrix` and then
read as a matrix with the libraries' lax readers: rows and columns as integers, cells as doubles,
steps as texts or absent. A record must also be well-shaped. Records are taken one at a time, so
the first record that fails decides the failure, whether it fails the schema or the shape.

`Libraries.reference` are the validator and readers this library runs with: `Schema.accepts`, and
integer fields that accept an integer, a boolean (`true` is one), a double without a fractional
part, or a text holding an integer (`Contract.integerText?`).
-/

namespace MatrixSteps

/-- Why a record is refused. -/
inductive LoadFault where
  /-- It does not follow the matrix schema. -/
  | schema
  /-- It does not describe a well-shaped matrix. -/
  | model
  deriving DecidableEq, Repr

namespace Contract

def signed (negative : Bool) (n : Nat) : Int := if negative then -(n : Int) else n

/-- The sign of an integer text and what follows it: one `-` or `+` at most. -/
def splitSign (cs : List Char) : Bool × List Char :=
  match cs with
  | '-' :: rest => (true, rest)
  | '+' :: rest => (false, rest)
  | _ => (false, cs)

/-- The text after its leading zeros, with the underscores among them. When nothing or a point
follows them, the last of them stays, so `000` reads as `0` and `00.0` as `0.0`. -/
def dropLeadingZeros : List Char → List Char
  | '0' :: rest =>
      let isFill (c : Char) : Bool := c == '0' || c == '_'
      let last := (rest.takeWhile isFill).getLast?.getD '0'
      match rest.dropWhile isFill with
      | [] => [last]
      | '.' :: fraction => last :: '.' :: fraction
      | tail => tail
  | cs => cs

/-- The whole part of a number text: the text itself when it has no point, or the text before
the point when one or more zeros, and nothing else, follow it. -/
def wholePart? (cs : List Char) : Option (List Char) :=
  match cs.dropWhile (· != '.') with
  | [] => some cs
  | _ :: fraction =>
      if !fraction.isEmpty && fraction.all (· == '0') then some (cs.takeWhile (· != '.'))
      else none

/-- The value of digits in groups separated by single underscores: every group is a nonempty run
of decimal digits. -/
def groupedDigits? (cs : List Char) : Option Nat :=
  if (cs.splitOn '_').all fun group => !group.isEmpty && group.all Char.isDigit then
    some (Decimal.digitsValue (cs.filter Char.isDigit))
  else none

/-- An integer written as text, as an integer field reads it: white space trimmed from both ends,
then a sign, then digits grouped by underscores, and perhaps a point followed by zeros. Leading
zeros may be separated by any underscores, since they are dropped first. -/
def integerText? (s : String) : Option Int := do
  let (negative, rest) := splitSign (Text.trimWhiteSpace s).toList
  let whole ← wholePart? (dropLeadingZeros rest)
  return signed negative (← groupedDigits? whole)

/-- The value of an integer field, read leniently: an integer; a boolean, `true` being one; a
double without a fractional part; or a text that `integerText?` reads. -/
def laxInt? : Json → Option Int
  | .int i => some i
  | .bool b => some (if b then 1 else 0)
  | .float x => (Binary.parts x).toInt?
  | .str s => integerText? s
  | _ => none

/-- The steps of a record: absent or `null`, or a list of texts. -/
def steps? (lib : Libraries) : Option Json → Option (Option (List String))
  | none => some none
  | some .null => some none
  | some (.arr items) => (items.mapM lib.str?).map some
  | some _ => none

def cells? (lib : Libraries) (data : Json) : Option (List (List Float)) := do
  let rows ← data.arr?
  rows.mapM fun row => do (← row.arr?).mapM lib.float?

/-- A record that follows the schema, read as a matrix with its id, if it is well-shaped. -/
def readRecord? (lib : Libraries) (record : Json) : Option Entry := do
  let id ← lib.str? (← record.field? "id")
  let name ← lib.str? (← record.field? "name")
  let rows ← lib.int? (← record.field? "rows")
  let cols ← lib.int? (← record.field? "cols")
  let cells ← cells? lib (← record.field? "data")
  let steps ← steps? lib (record.field? "steps")
  let m ← Matrix.build? name rows cols cells steps
  return ⟨.given id, m⟩

/-- One record, validated against the schema and then read. -/
def loadRecord (lib : Libraries) (record : Json) : Except LoadFault Entry :=
  if !lib.valid Schema.matrix record then .error .schema
  else
    match readRecord? lib record with
    | some e => .ok e
    | none => .error .model

/-- The matrices of a payload, in order; the first record that is refused decides the failure. -/
def load (lib : Libraries) (records : List Json) : Except LoadFault (List Entry) :=
  records.mapM (loadRecord lib)

end Contract

/-- The libraries this library runs with. -/
def Libraries.reference : Libraries :=
  ⟨Schema.accepts, Contract.laxInt?, Json.toFloat?, Json.str?, Contract.record⟩

end MatrixSteps
