import MatrixSteps.Json.Basic
import MatrixSteps.Number.Notation

/-!
Writing JSON text on one line. Doubles are written in `Notation.exchange`: the shortest digits
that read back, `6.0` for a whole number, and `-0.0` apart from `0.0`. A non-finite double is
written as the string `"NaN"`, `"Infinity"` or `"-Infinity"`. In strings, the quote, the backslash
and the control characters are escaped, and every other character is written as it is.
-/

namespace MatrixSteps

namespace Json

def hexDigit (n : Nat) : Char :=
  if n < 10 then Char.ofNat ('0'.toNat + n) else Char.ofNat ('a'.toNat + n - 10)

/-- The written form of one character inside a string. -/
def escapeChar (c : Char) : List Char :=
  if c == '"' then ['\\', '"']
  else if c == '\\' then ['\\', '\\']
  else if c == '\n' then ['\\', 'n']
  else if c == '\r' then ['\\', 'r']
  else if c == '\t' then ['\\', 't']
  else if c.toNat < 0x20 then ['\\', 'u', '0', '0', hexDigit (c.toNat / 16), hexDigit (c.toNat % 16)]
  else [c]

def quote (s : String) : String :=
  String.ofList ('"' :: s.toList.flatMap escapeChar ++ ['"'])

/-- A double as exchanged: a number if finite, else the spelling of its kind as a string. -/
def floatText (x : Float) : String :=
  match Binary.parts x with
  | .finite .. => Notation.exchange.render x
  | _ => quote (Notation.exchange.render x)

mutual

/-- The text of a value. -/
def render : Json → String
  | .null => "null"
  | .bool b => if b then "true" else "false"
  | .int i => toString i
  | .float x => floatText x
  | .str s => quote s
  | .arr items => "[" ++ renderItems items ++ "]"
  | .obj fields => "\x7b" ++ renderFields fields ++ "\x7d"

/-- The items of an array, separated by commas. -/
def renderItems : List Json → String
  | [] => ""
  | [item] => render item
  | item :: rest => render item ++ "," ++ renderItems rest

/-- The fields of an object, separated by commas. -/
def renderFields : List (String × Json) → String
  | [] => ""
  | [(key, value)] => quote key ++ ":" ++ render value
  | (key, value) :: rest => quote key ++ ":" ++ render value ++ "," ++ renderFields rest

end

end Json

end MatrixSteps
