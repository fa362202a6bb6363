import MatrixSteps.Number.Shortest

/-!
Writing a double as text. The digits are always the shortest that read back
(`Shortest.digits`). A `Notation` record decides the rest:
- positional or scientific, by the exponent of the leading digit;
- whether a whole number keeps a `.0`;
- the width of the exponent;
- the spelling of zero, NaN and the infinities.

Two notations are used. `Notation.narration` writes the numbers inside step narrations, names and
messages. `Notation.exchange` writes cell values in data exchanged with callers.
-/

namespace MatrixSteps

/-- How a double is written. A finite nonzero value whose leading digit has exponent in
`[lowest, highest]` is written positionally, and in scientific notation otherwise. -/
structure Notation where
  lowest : Int
  highest : Int
  /-- A whole number written positionally ends in `.0`. -/
  pointZero : Bool
  /-- Least number of exponent digits; shorter exponents are padded with zeros. -/
  exponentWidth : Nat
  /-- Zero keeps its sign. -/
  signedZero : Bool
  nan : String
  infinity : String

namespace Notation

/-- Numbers in narrations: positional from `1e-6` up to below `1e21`, without `.0`, exponent
unpadded (`1e-7`, `1.5e+21`), zero of either sign as `0`. -/
def narration : Notation :=
  { lowest := -6, highest := 20, pointZero := false, exponentWidth := 1, signedZero := false,
    nan := "NaN", infinity := "Infinity" }

/-- Cell values in exchanged data: positional from `1e-4` up to below `1e16`, a whole number with
`.0`, exponent of at least two digits (`1e-05`, `1e+25`), and `-0.0` kept apart from `0.0`. -/
def exchange : Notation :=
  { lowest := -4, highest := 15, pointZero := true, exponentWidth := 2, signedZero := true,
    nan := "NaN", infinity := "Infinity" }

/-- Positional text of the digit string `ds` whose leading digit has exponent `E`. -/
def positional (n : Notation) (ds : List Char) (E : Int) : List Char :=
  if 0 ≤ E then
    let wholeCount := E.toNat + 1
    if ds.length ≤ wholeCount then
      ds ++ List.replicate (wholeCount - ds.length) '0' ++ (if n.pointZero then ['.', '0'] else [])
    else
      ds.take wholeCount ++ '.' :: ds.drop wholeCount
  else
    '0' :: '.' :: List.replicate ((-E).toNat - 1) '0' ++ ds

/-- Scientific text of the digit string `ds` whose leading digit has exponent `E`. -/
def scientific (n : Notation) (ds : List Char) (E : Int) : List Char :=
  let mantissa := match ds with
    | [] => ['0']
    | [d] => [d]
    | d :: rest => d :: '.' :: rest
  let power := Nat.toDigits 10 E.natAbs
  let padded := List.replicate (n.exponentWidth - power.length) '0' ++ power
  mantissa ++ 'e' :: (if E < 0 then '-' else '+') :: padded

/-- Text of the finite value `(-1)^negative · m · 2^e`. -/
def finite (n : Notation) (negative : Bool) (m : Nat) (e : Int) : String :=
  if m = 0 then
    if negative && n.signedZero then "-" ++ zeroText else zeroText
  else
    let d := Shortest.digits m e
    let ds := Nat.toDigits 10 d.digits
    let E := d.leadingExponent
    let body := if n.lowest ≤ E && E ≤ n.highest then n.positional ds E else n.scientific ds E
    String.ofList (if negative then '-' :: body else body)
where
  zeroText : String := if n.pointZero then "0.0" else "0"

/-- Text of a double. -/
def render (n : Notation) (x : Float) : String :=
  match Binary.parts x with
  | .nan => n.nan
  | .infinity negative => if negative then "-" ++ n.infinity else n.infinity
  | .finite negative m e => n.finite negative m e

end Notation

end MatrixSteps
