import MatrixSteps.Number.Decimal

/-!
Rounding a double to a number of decimal places, half away from zero, on the exact binary value of
the double (so `2.675`, stored a little below `2.675`, rounds to `2.67`). The rounded decimal is read
back to the nearest double and keeps the sign, zero included.

The last place of a rounding is the power of ten `10^-places`, and decimal exponents have a range:
- a place count beyond `Places.scaleLimit` in either direction is refused as invalid;
- a last place above `10^maxExponent` overflows;
- a last place below `10^tinyExponent` is raised to it, so every nonzero double is then refused
  and zero stays zero.

A rounding has a coefficient: the rounded value in units of the last place. It may have at most
`Places.precision` digits; a rounding that needs more is refused as invalid. Values that are not
finite, and magnitudes from `Places.ceiling` up, are returned as they are.
-/

-- Powers of naturals and integers are the core's `Nat.pow` and `Int.pow`, also where other
-- instances of powers are in scope; an exponent written as a numeral is given its type, so that
-- the instance is chosen by it and not by a default.
attribute [local instance(1100)] instPowNat

namespace MatrixSteps

/-- Why a rounding is refused. -/
inductive RoundingFault where
  /-- The place count is beyond the scale limit, or the coefficient needs too many digits. -/
  | invalid
  /-- The last place lies above the largest decimal exponent. -/
  | overflow
  deriving DecidableEq, Repr

namespace Places

/-- Most significant digits a rounded coefficient may have. -/
def precision : Nat := 28

/-- From this magnitude on, values are left as they are. -/
def ceiling : Nat := 10 ^ (21 : Nat)

/-- Largest decimal exponent of a rounding's last place. -/
def maxExponent : Int := 999999

/-- Smallest decimal exponent of a last place: the last place of the smallest number with
`precision` digits whose leading digit is at `10^-maxExponent`. -/
def tinyExponent : Int := -maxExponent - precision + 1

/-- Largest place count, in either direction, that a rounding accepts. -/
def scaleLimit : Int := 2 * (maxExponent + precision)

/-- The decimal exponent of the last place for `places` decimal places. -/
def lastPlace (places : Int) : Except RoundingFault Int :=
  if scaleLimit < places.natAbs then .error .invalid
  else if maxExponent < -places then .error .overflow
  else .ok (max (-places) tinyExponent)

/-- `⌊m · 2^e / 10^q + 1/2⌋`: the magnitude `m · 2^e` rounded to a multiple of `10^q`, a half away
from zero, in units of `10^q`. -/
def coefficient (m : Nat) (e : Int) (q : Int) : Nat :=
  let num := m * 2 ^ e.toNat * 10 ^ (-q).toNat
  let den := 2 ^ (-e).toNat * 10 ^ q.toNat
  (2 * num + den) / (2 * den)

/-- The finite value `(-1)^negative · m · 2^e` rounded to a multiple of `10^q`; refused when the
coefficient needs more than `precision` digits. -/
def roundFinite (negative : Bool) (m : Nat) (e : Int) (q : Int) : Except RoundingFault Float :=
  let c := coefficient m e q
  if 10 ^ precision ≤ c then .error .invalid
  else .ok (Decimal.toFloat negative ⟨c, q⟩)

/-- Rounding leaves the value as it is, whatever the places: the value is not finite, or its
magnitude is at least `ceiling`. -/
def keeps (x : Float) : Bool :=
  match Binary.parts x with
  | .finite _ m e => Binary.compareInt false m e ceiling != .lt
  | _ => true

/-- Rounds to `places` decimal places, half away from zero, on the exact value. -/
def round? (places : Int) (x : Float) : Except RoundingFault Float :=
  match Binary.parts x with
  | .finite negative m e =>
      if Binary.compareInt false m e ceiling == .lt then do
        roundFinite negative m e (← lastPlace places)
      else .ok x
  | _ => .ok x

def cellPlaces : Int := 4

/-- A cell rounded to `cellPlaces` places. At four places no finite value below `ceiling` has a
coefficient beyond the precision, so the fallback to `x` is never taken. -/
def roundCell (x : Float) : Float := (round? cellPlaces x).toOption.getD x

end Places

end MatrixSteps
