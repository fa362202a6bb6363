import MatrixSteps.Number.Binary

/-!
Decimal numbers `digits · 10^exponent`. Such a number is read from numeral text, and turned into the
nearest double. The numeral syntax is the one of data files: an optional minus, digits, an optional
fraction after a point, and an optional exponent after `e` or `E`.
-/

-- Powers of naturals and integers are the core's `Nat.pow` and `Int.pow`, also where other
-- instances of powers are in scope.
attribute [local instance(1100)] instPowNat

namespace MatrixSteps

/-- The nonnegative number `digits · 10^exponent`. -/
structure Decimal where
  digits : Nat
  exponent : Int
  deriving Repr, DecidableEq, Inhabited

namespace Decimal

def toFloat (negative : Bool) (d : Decimal) : Float :=
  Binary.nearest negative (d.digits * 10 ^ d.exponent.toNat) (10 ^ (-d.exponent).toNat)

def digitsValue (cs : List Char) : Nat :=
  cs.foldl (fun acc c => 10 * acc + (c.toNat - '0'.toNat)) 0

/-- The number of decimal digits of `n`, with one digit for zero. -/
def width (n : Nat) : Nat := (Nat.toDigits 10 n).length

/-- Removes trailing zero digits, raising the exponent to match; zero stays `0 · 10^0`. -/
def normalize (d : Decimal) : Decimal :=
  if d.digits = 0 then ⟨0, 0⟩ else go d.digits d.exponent d.digits
where
  /-- Divides out factors of ten; `fuel` bounds the number of divisions. -/
  go (digits : Nat) (exponent : Int) : Nat → Decimal
    | 0 => ⟨digits, exponent⟩
    | fuel + 1 =>
        if digits % 10 = 0 then go (digits / 10) (exponent + 1) fuel else ⟨digits, exponent⟩

/-- The exponent of the leading digit: `d` lies in `[10^e, 10^(e+1))` for nonzero digits. -/
def leadingExponent (d : Decimal) : Int := d.exponent + width d.digits - 1

end Decimal

/-- A numeral read from text: its sign, and whether it was written with a fraction or an
exponent (a *float literal*) or as a bare integer. -/
structure Numeral where
  negative : Bool
  value : Decimal
  integral : Bool
  deriving Repr, DecidableEq

namespace Numeral

/-- Reads the longest numeral at the start of `cs`: `-? digits (. digits)? ([eE] [+-]? digits)?`.
Returns the numeral and the rest of the input, or `none` if no digits start it. -/
def scan (cs : List Char) : Option (Numeral × List Char) :=
  let (negative, afterSign) := match cs with
    | '-' :: rest => (true, rest)
    | _ => (false, cs)
  let whole := afterSign.takeWhile Char.isDigit
  let afterWhole := afterSign.dropWhile Char.isDigit
  if whole.isEmpty then none else
  let (fraction, afterFraction) := match afterWhole with
    | '.' :: rest =>
        let ds := rest.takeWhile Char.isDigit
        if ds.isEmpty then ([], afterWhole) else (ds, rest.dropWhile Char.isDigit)
    | _ => ([], afterWhole)
  let hasPoint := !fraction.isEmpty
  let (power, hasExponent, rest) := match afterFraction with
    | e :: more =>
        if e = 'e' || e = 'E' then
          let (minus, body) := match more with
            | '-' :: r => (true, r)
            | '+' :: r => (false, r)
            | r => (false, r)
          let ds := body.takeWhile Char.isDigit
          if ds.isEmpty then ((0 : Int), false, afterFraction)
          else
            let magnitude : Int := Decimal.digitsValue ds
            (if minus then -magnitude else magnitude, true, body.dropWhile Char.isDigit)
        else (0, false, afterFraction)
    | [] => (0, false, afterFraction)
  let digits := Decimal.digitsValue (whole ++ fraction)
  some (⟨negative, ⟨digits, power - fraction.length⟩, !(hasPoint || hasExponent)⟩, rest)

def toFloat (n : Numeral) : Float := n.value.toFloat n.negative

end Numeral

end MatrixSteps
