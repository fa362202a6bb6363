import MatrixSteps.Number.Decimal
import MatrixSteps.Text.Blank

/-!
Reading a double from text, as the number conversion reads it. First every character is put in
ASCII: a blank becomes a space, a decimal digit of any script its ASCII digit, and any other
character from `0x7F` on a `?` that no numeral holds. An underscore must then stand between two
digits, and is dropped. Spaces and the ASCII layout characters around the text are ignored. What is
left is one optional sign followed by `inf`, `infinity` or `nan` in any case, or by a decimal
numeral: digits with perhaps a point, at least one digit in all, and perhaps an exponent of `e` or
`E`, an optional sign and digits. Its value is the double nearest to the numeral.
-/

namespace MatrixSteps

namespace FloatLiteral

/-- The zeros of the runs of ten decimal digits, zero to nine, of the Unicode Character Database
(version 14.0). -/
def decimalZeros : List Nat := [
    0x30, 0x660, 0x6F0, 0x7C0, 0x966, 0x9E6, 0xA66, 0xAE6, 0xB66, 0xBE6, 0xC66, 0xCE6, 0xD66,
    0xDE6, 0xE50, 0xED0, 0xF20, 0x1040, 0x1090, 0x17E0, 0x1810, 0x1946, 0x19D0, 0x1A80, 0x1A90,
    0x1B50, 0x1BB0, 0x1C40, 0x1C50, 0xA620, 0xA8D0, 0xA900, 0xA9D0, 0xA9F0, 0xAA50, 0xABF0,
    0xFF10, 0x104A0, 0x10D30, 0x11066, 0x110F0, 0x11136, 0x111D0, 0x112F0, 0x11450, 0x114D0,
    0x11650, 0x116C0, 0x11730, 0x118E0, 0x11950, 0x11C50, 0x11D50, 0x11DA0, 0x16A60, 0x16AC0,
    0x16B50, 0x1D7CE, 0x1D7D8, 0x1D7E2, 0x1D7EC, 0x1D7F6, 0x1E140, 0x1E2F0, 0x1E950, 0x1FBF0]

/-- The value of a decimal digit of any script. -/
def digitValue? (c : Char) : Option Nat :=
  (decimalZeros.find? fun z => z ≤ c.toNat && c.toNat < z + 10).map (c.toNat - ·)

/-- A character put in ASCII. -/
def asciiForm (c : Char) : Char :=
  if c.toNat < 0x7F then c
  else if Text.isBlank c then ' '
  else match digitValue? c with
    | some d => Char.ofNat ('0'.toNat + d)
    | none => '?'

/-- Every underscore comes right after an ASCII digit and right before one; `previous` is the
character before the list. -/
def underscoresBetweenDigits (previous : Char) : List Char → Bool
  | [] => true
  | c :: rest =>
      (c != '_' || previous.isDigit && (rest.head?.map Char.isDigit).getD false) &&
        underscoresBetweenDigits c rest

/-- The ASCII layout characters that are ignored around a numeral: space, tab, line feed, vertical
tab, form feed and carriage return. -/
def isLayout (c : Char) : Bool := c == ' ' || ('\t' ≤ c && c ≤ '\r')

/-- One optional sign: whether it is a minus, and what follows it. -/
def sign : List Char → Bool × List Char
  | '-' :: rest => (true, rest)
  | '+' :: rest => (false, rest)
  | cs => (false, cs)

/-- The text put in ASCII, its underscores checked and dropped and the layout around it removed:
its sign, and what follows the sign. -/
def body? (s : String) : Option (Bool × List Char) :=
  let cs := s.toList.map asciiForm
  if underscoresBetweenDigits ' ' cs then
    some (sign (((cs.filter (· != '_')).dropWhile isLayout).reverse.dropWhile isLayout).reverse)
  else none

/-- An exponent, and whether one is written: nothing at all, or `e` or `E`, an optional sign and
digits, with nothing after them. -/
def exponent? : List Char → Option (Int × Bool)
  | [] => some (0, false)
  | e :: rest =>
      if e == 'e' || e == 'E' then
        let (minus, ds) := sign rest
        if !ds.isEmpty && ds.all Char.isDigit then
          let magnitude : Int := Decimal.digitsValue ds
          some (if minus then -magnitude else magnitude, true)
        else none
      else none

/-- The numeral a text spells: digits, perhaps a point and digits, at least one digit in all, and
an exponent. -/
def numeral? (s : String) : Option Numeral := do
  let (negative, cs) ← body? s
  let whole := cs.takeWhile Char.isDigit
  let (point, fraction, afterFraction) := match cs.dropWhile Char.isDigit with
    | '.' :: rest => (true, rest.takeWhile Char.isDigit, rest.dropWhile Char.isDigit)
    | afterWhole => (false, [], afterWhole)
  if whole.isEmpty && fraction.isEmpty then none
  let (power, written) ← exponent? afterFraction
  return ⟨negative, ⟨Decimal.digitsValue (whole ++ fraction), power - fraction.length⟩,
    !(point || written)⟩

/-- The non-finite double a text names: `inf`, `infinity` or `nan` in any case, after the sign. -/
def special? (s : String) : Option Float := do
  let (negative, cs) ← body? s
  let name := String.ofList (cs.map Char.toLower)
  let x ← if name == "inf" || name == "infinity" then some (1.0 / 0.0)
    else if name == "nan" then some (0.0 / 0.0) else none
  return if negative then -x else x

/-- The double a text reads as, if any: the double nearest to the numeral it spells, or the
non-finite double it names. -/
def read? (s : String) : Option Float :=
  match numeral? s with
  | some n => some n.toFloat
  | none => special? s

end FloatLiteral

end MatrixSteps
