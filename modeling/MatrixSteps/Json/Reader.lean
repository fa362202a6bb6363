import MatrixSteps.Json.Basic
import MatrixSteps.Number.Decimal

/-!
Reading JSON text. The grammar is standard JSON, with the words `NaN`, `Infinity` and `-Infinity`
also read as doubles. A number without a fraction or an exponent is read as an integer; any other
number is read as the nearest double (`1e400` is an infinity). An escaped surrogate pair is joined
into one character, and a surrogate that stands alone becomes the replacement character.

Each reading function returns the value read and the rest of the text. The nesting of arrays and
objects is bounded by a fuel argument, which `Json.parse?` sets from the length of the text.
-/

namespace MatrixSteps

namespace Json

def skipSpace (cs : List Char) : List Char :=
  cs.dropWhile fun c => c == ' ' || c == '\t' || c == '\n' || c == '\r'

/-- The value of a hexadecimal digit. -/
def hexValue? (c : Char) : Option Nat :=
  if '0' ≤ c && c ≤ '9' then some (c.toNat - '0'.toNat)
  else if 'a' ≤ c && c ≤ 'f' then some (c.toNat - 'a'.toNat + 10)
  else if 'A' ≤ c && c ≤ 'F' then some (c.toNat - 'A'.toNat + 10)
  else none

/-- The code unit written by four hexadecimal digits. -/
def unit? (a b c d : Char) : Option Nat := do
  let a ← hexValue? a
  let b ← hexValue? b
  let c ← hexValue? c
  let d ← hexValue? d
  pure (((a * 16 + b) * 16 + c) * 16 + d)

/-- The replacement character, for a surrogate that stands alone. -/
def replacement : Char := Char.ofNat 0xFFFD

/-- The character of a code unit that is not part of a surrogate pair. -/
def single (unit : Nat) : Char :=
  if 0xD800 ≤ unit && unit < 0xE000 then replacement else Char.ofNat unit

/-- Joins each escaped surrogate pair among the code units of a string into one character. -/
def joinSurrogates : List Nat → List Char
  | [] => []
  | unit :: rest =>
      match rest with
      | low :: more =>
          if 0xD800 ≤ unit && unit < 0xDC00 && 0xDC00 ≤ low && low < 0xE000 then
            Char.ofNat (0x10000 + (unit - 0xD800) * 0x400 + (low - 0xDC00)) :: joinSurrogates more
          else single unit :: joinSurrogates (low :: more)
      | [] => [single unit]
termination_by units => units.length

/-- The character an escape letter stands for. -/
def escaped? : Char → Option Char
  | '"' => some '"'
  | '\\' => some '\\'
  | '/' => some '/'
  | 'b' => some (Char.ofNat 8)
  | 'f' => some (Char.ofNat 12)
  | 'n' => some '\n'
  | 'r' => some '\r'
  | 't' => some '\t'
  | _ => none

/-- Reads the body of a string up to its closing quote, as code units: a `\u` escape gives its
unit, any other character its code point. The units read so far are `acc`, in reverse. -/
def readUnits (acc : List Nat) : List Char → Option (List Nat × List Char)
  | [] => none
  | '"' :: rest => some (acc.reverse, rest)
  | '\\' :: 'u' :: a :: b :: c :: d :: rest =>
      match unit? a b c d with
      | some unit => readUnits (unit :: acc) rest
      | none => none
  | '\\' :: e :: rest =>
      match escaped? e with
      | some c => readUnits (c.toNat :: acc) rest
      | none => none
  | c :: rest => if c.toNat < 0x20 then none else readUnits (c.toNat :: acc) rest

def readString (cs : List Char) : Option (String × List Char) :=
  (readUnits [] cs).map fun (units, rest) => (String.ofList (joinSurrogates units), rest)

/-- Reads a number or a special double at the start of the text. -/
def readNumber (cs : List Char) : Option (Json × List Char) :=
  match cs with
  | 'N' :: 'a' :: 'N' :: rest => some (.float (0.0 / 0.0), rest)
  | 'I' :: 'n' :: 'f' :: 'i' :: 'n' :: 'i' :: 't' :: 'y' :: rest => some (.float (1.0 / 0.0), rest)
  | '-' :: 'I' :: 'n' :: 'f' :: 'i' :: 'n' :: 'i' :: 't' :: 'y' :: rest =>
      some (.float (-1.0 / 0.0), rest)
  | _ =>
      match Numeral.scan cs with
      | none => none
      | some (n, rest) =>
          if n.integral then
            let magnitude : Int := n.value.digits
            some (.int (if n.negative then -magnitude else magnitude), rest)
          else some (.float n.toFloat, rest)

/-- The fields with `(key, value)` added: a new key goes last, and a repeated key keeps its place
and takes the new value. -/
def setField (fields : List (String × Json)) (key : String) (value : Json) : List (String × Json) :=
  if fields.any (·.1 == key) then fields.map fun (k, v) => if k == key then (k, value) else (k, v)
  else fields ++ [(key, value)]

mutual

/-- Reads one value, after optional whitespace. -/
def readValue : Nat → List Char → Option (Json × List Char)
  | 0, _ => none
  | fuel + 1, cs =>
      match skipSpace cs with
      | 'n' :: 'u' :: 'l' :: 'l' :: rest => some (.null, rest)
      | 't' :: 'r' :: 'u' :: 'e' :: rest => some (.bool true, rest)
      | 'f' :: 'a' :: 'l' :: 's' :: 'e' :: rest => some (.bool false, rest)
      | '"' :: rest => (readString rest).map fun (s, rest) => (.str s, rest)
      | '[' :: rest =>
          match skipSpace rest with
          | ']' :: more => some (.arr [], more)
          | _ => readItems fuel [] rest
      | '{' :: rest =>
          match skipSpace rest with
          | '}' :: more => some (.obj [], more)
          | _ => readFields fuel [] rest
      | other => readNumber other

/-- Reads the items of a nonempty array after its opening bracket, the items read so far being
`acc` in reverse. -/
def readItems : Nat → List Json → List Char → Option (Json × List Char)
  | 0, _, _ => none
  | fuel + 1, acc, cs =>
      match readValue fuel cs with
      | none => none
      | some (item, rest) =>
          match skipSpace rest with
          | ',' :: more => readItems fuel (item :: acc) more
          | ']' :: more => some (.arr (item :: acc).reverse, more)
          | _ => none

/-- Reads the fields of a nonempty object after its opening brace, the fields read so far being
`acc`. -/
def readFields : Nat → List (String × Json) → List Char → Option (Json × List Char)
  | 0, _, _ => none
  | fuel + 1, acc, cs =>
      match skipSpace cs with
      | '"' :: afterQuote =>
          match readString afterQuote with
          | none => none
          | some (key, rest) =>
              match skipSpace rest with
              | ':' :: afterColon =>
                  match readValue fuel afterColon with
                  | none => none
                  | some (value, rest) =>
                      match skipSpace rest with
                      | ',' :: more => readFields fuel (setField acc key value) more
                      | '}' :: more => some (.obj (setField acc key value), more)
                      | _ => none
              | _ => none
      | _ => none

end

/-- Reads a whole text as one JSON value, allowing whitespace around it. -/
def parse? (s : String) : Option Json :=
  let cs := s.toList
  match readValue (2 * cs.length + 2) cs with
  | some (j, rest) => if (skipSpace rest).isEmpty then some j else none
  | none => none

end Json

end MatrixSteps
