/-!
Doubles read exactly. A double is decoded from its 64 bits into a sign, an integer significand
and a power of two (`Binary.Parts`). In the other direction, `Binary.nearest` chooses the double
nearest to a ratio of natural numbers: a tie goes to the even significand, and a value beyond the
largest finite double becomes an infinity. `Binary.ofInt?` converts an integer the same way, but
refuses one whose nearest double would be an infinity. All arithmetic here is on `Nat` and `Int`, so
every comparison of a double with a number is exact.
-/

-- Powers of naturals and integers are the core's `Nat.pow` and `Int.pow`, also where other
-- instances of powers are in scope; an exponent written as a numeral is given its type, so that
-- the instance is chosen by it and not by a default.
attribute [local instance(1100)] instPowNat

namespace MatrixSteps

/-- A double as its bits describe it: a NaN, a signed infinity, or the finite value
`(-1)^negative · significand · 2^exponent`. -/
inductive Binary.Parts where
  | nan
  | infinity (negative : Bool)
  | finite (negative : Bool) (significand : Nat) (exponent : Int)
  deriving Repr, DecidableEq, Inhabited

namespace Binary

def fractionBits : Nat := 52

/-- Exponent of the last place of subnormal doubles: the smallest positive double is `2^-1074`. -/
def leastExponent : Int := -1074

/-- Decodes the bits of a double. Normal values get their hidden leading bit, so the significand
of a finite nonzero normal value lies in `[2^52, 2^53)`. -/
def decode (bits : UInt64) : Parts :=
  let raw : Nat := bits.toNat
  let negative := raw / 2 ^ (63 : Nat) == 1
  let biased : Nat := raw / 2 ^ fractionBits % 2 ^ (11 : Nat)
  let fraction : Nat := raw % 2 ^ fractionBits
  if biased == 2047 then
    if fraction == 0 then .infinity negative else .nan
  else if biased == 0 then
    .finite negative fraction leastExponent
  else
    .finite negative (fraction + 2 ^ fractionBits) ((biased : Int) - 1075)

def parts (x : Float) : Parts := decode x.toBits

/-- Bits of the finite double `(-1)^negative · significand · 2^exponent`, for a significand below
`2^53` whose exponent is `leastExponent` unless the significand is normal. -/
def encode (negative : Bool) (significand : Nat) (exponent : Int) : UInt64 :=
  let sign : Nat := if negative then 2 ^ (63 : Nat) else 0
  if significand < 2 ^ fractionBits then
    (sign + significand).toUInt64
  else
    (sign + (exponent + 1075).toNat * 2 ^ fractionBits + (significand - 2 ^ fractionBits)).toUInt64

def infinityBits (negative : Bool) : UInt64 :=
  ((if negative then 2 ^ (63 : Nat) else 0) + 2047 * 2 ^ fractionBits : Nat).toUInt64

/-- Quotient and remainder of `num / (den · 2^exponent)`, for an exponent of either sign:
the remainder is measured against the returned divisor. -/
def scaledDivision (num den : Nat) (exponent : Int) : Nat × Nat × Nat :=
  let top := num * 2 ^ (-exponent).toNat
  let bottom := den * 2 ^ exponent.toNat
  (top / bottom, top % bottom, bottom)

/-- Rounds a quotient with remainder `rem` against divisor `divisor` to the nearest integer,
a tie going to the even neighbour. -/
def roundEven (quotient rem divisor : Nat) : Nat :=
  if 2 * rem < divisor then quotient
  else if divisor < 2 * rem then quotient + 1
  else if quotient % 2 == 0 then quotient else quotient + 1

/-- The exponent of the last place of the double nearest to `num / den`: 53 significant bits,
but never below `leastExponent`. -/
def placeExponent (num den : Nat) : Int :=
  let guess : Int := (num.log2 : Int) - den.log2 - 53
  -- `num / den` lies in `[2^(guess + 52), 2^(guess + 54))`; one more bit if it reaches `2^53`.
  let exponent := if (scaledDivision num den guess).1 < 2 ^ (53 : Nat) then guess else guess + 1
  max exponent leastExponent

/-- The double nearest to `num / den`, with the given sign; a tie goes to the even significand and
a value beyond the largest finite double is an infinity. -/
def nearest (negative : Bool) (num den : Nat) : Float :=
  let exponent := placeExponent num den
  let (quotient, rem, divisor) := scaledDivision num den exponent
  let rounded := roundEven quotient rem divisor
  -- Rounding up may carry into a new bit.
  let (significand, exponent) :=
    if rounded == 2 ^ (53 : Nat) then (2 ^ (52 : Nat), exponent + 1) else (rounded, exponent)
  if exponent > 971 then Float.ofBits (infinityBits negative)
  else Float.ofBits (encode negative significand exponent)

/-- A finite value `significand · 2^exponent`, compared exactly with an integer. -/
def compareInt (negative : Bool) (significand : Nat) (exponent : Int) (n : Int) : Ordering :=
  let magnitude : Int := significand * 2 ^ exponent.toNat
  let scale : Int := 2 ^ (-exponent).toNat
  let value := if negative then -magnitude else magnitude
  compare value (n * scale)

end Binary

namespace Binary.Parts

def isFinite : Parts → Bool
  | .finite .. => true
  | _ => false

/-- The value is a whole number (finite, without a fractional part). -/
def isIntegral : Parts → Bool
  | .finite _ significand exponent =>
      0 ≤ exponent || significand % 2 ^ (-exponent).toNat == 0
  | _ => false

/-- The value is strictly greater than the integer `n`, compared exactly; a NaN is greater than
nothing and positive infinity is greater than everything. -/
def exceeds (n : Int) : Parts → Bool
  | .nan => false
  | .infinity negative => !negative
  | .finite negative significand exponent =>
      Binary.compareInt negative significand exponent n == .gt

/-- The value is at least the integer `n`, compared exactly. -/
def atLeast (n : Int) : Parts → Bool
  | .nan => false
  | .infinity negative => !negative
  | .finite negative significand exponent =>
      Binary.compareInt negative significand exponent n != .lt

/-- The value is below zero; negative zero and NaN are not. -/
def isNegative : Parts → Bool
  | .finite negative significand _ => negative && significand != 0
  | .infinity negative => negative
  | .nan => false

def isPositiveInteger (p : Parts) : Bool := p.isIntegral && p.atLeast 1

/-- The value as an integer, when it is a whole number. -/
def toInt? : Parts → Option Int
  | p@(.finite negative significand exponent) =>
      if p.isIntegral then
        let magnitude : Int := significand * 2 ^ exponent.toNat / 2 ^ (-exponent).toNat
        some (if negative then -magnitude else magnitude)
      else none
  | _ => none

/-- The whole part of a finite nonnegative value, as a natural number. -/
def wholePart : Parts → Nat
  | .finite false significand exponent =>
      significand * 2 ^ exponent.toNat / 2 ^ (-exponent).toNat
  | _ => 0

end Binary.Parts

/-- The double nearest to the integer `i`, or `none` when that double is an infinity: the
magnitude of `i` is at least `2^1024 - 2^970`, the midpoint above the largest finite double, where
the tie goes up to the even significand. -/
def Binary.ofInt? (i : Int) : Option Float :=
  let x := Binary.nearest (i < 0) i.natAbs 1
  if (Binary.parts x).isFinite then some x else none

end MatrixSteps
