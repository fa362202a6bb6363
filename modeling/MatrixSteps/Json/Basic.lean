import MatrixSteps.Number.Binary

/-!
JSON values as payloads carry them. A number keeps the form it was written in: an integer literal
stays an integer of any size, and a literal with a fraction or an exponent is a double. In exchanged
data the non-finite doubles are spelled as the strings `"NaN"`, `"Infinity"` and `"-Infinity"`.
-/

namespace MatrixSteps

/-- A JSON value. Objects keep their fields in the order written; when a key is repeated, the
last occurrence is the one that counts (`Json.field?`). -/
inductive Json where
  | null
  | bool (b : Bool)
  | int (i : Int)
  | float (x : Float)
  | str (s : String)
  | arr (items : List Json)
  | obj (fields : List (String × Json))
  deriving Inhabited, Repr

/-- Why a value stands for no double. -/
inductive NumberFault where
  /-- It is neither a number nor the spelling of a non-finite double. -/
  | notNumber
  /-- It is an integer too large in magnitude for a finite double. -/
  | outOfRange
  deriving DecidableEq, Repr

namespace Json

/-- The value under `key` in an object: the last field of that name. -/
def field? (j : Json) (key : String) : Option Json :=
  match j with
  | .obj fields => (fields.reverse.find? (·.1 == key)).map (·.2)
  | _ => none

/-- The spelling of a non-finite double in exchanged data. -/
def specialFloat? (s : String) : Option Float :=
  if s == "NaN" then some (0.0 / 0.0)
  else if s == "Infinity" then some (1.0 / 0.0)
  else if s == "-Infinity" then some (-1.0 / 0.0)
  else none

/-- The double a value stands for: a double, an integer converted to the nearest double, or the
spelling of a non-finite double. An integer beyond the finite doubles stands for none. -/
def toFloat : Json → Except NumberFault Float
  | .int i => match Binary.ofInt? i with
    | some x => .ok x
    | none => .error .outOfRange
  | .float x => .ok x
  | .str s => match specialFloat? s with
    | some x => .ok x
    | none => .error .notNumber
  | _ => .error .notNumber

def toFloat? (j : Json) : Option Float := j.toFloat.toOption

def str? : Json → Option String
  | .str s => some s
  | _ => none

def arr? : Json → Option (List Json)
  | .arr items => some items
  | _ => none

def int? : Json → Option Int
  | .int i => some i
  | _ => none

end Json

end MatrixSteps
