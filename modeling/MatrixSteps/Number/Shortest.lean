import MatrixSteps.Number.Decimal

/-!
The shortest decimal that reads back as a given double.

A finite positive double `m · 2^e` is the nearest double to every real in an interval around it. The
interval reaches halfway to each neighbouring double, and its ends are included exactly when `m` is
even, because reading rounds a tie to the even significand. For `1, 2, …, 17` significant digits,
the two neighbours of the value on that decimal grid are tested, and the first grid with a
neighbour inside the interval gives the digits. If both neighbours are inside, the nearer one is
taken, and of two equally near the even one. Seventeen digits always suffice.
-/

-- Powers of naturals and integers are the core's `Nat.pow` and `Int.pow`, also where other
-- instances of powers are in scope.
attribute [local instance(1100)] instPowNat

namespace MatrixSteps

namespace Shortest

/-- Compares `a · 10^t` with `b · 2^k` exactly. -/
def compareScaled (a : Nat) (t : Int) (b : Nat) (k : Int) : Ordering :=
  compare (a * 10 ^ t.toNat * 2 ^ (-k).toNat) (b * 2 ^ k.toNat * 10 ^ (-t).toNat)

/-- `⌊m · 2^e / 10^t⌋`. -/
def gridFloor (m : Nat) (e t : Int) : Nat :=
  m * 2 ^ e.toNat * 10 ^ (-t).toNat / (2 ^ (-e).toNat * 10 ^ t.toNat)

/-- The interval of reals that read back as the positive double `m · 2^e`, in quarter units
`2^(e-2)`: its ends, and whether they belong to it. -/
structure Interval where
  low : Nat
  high : Nat
  closed : Bool

/-- The reading interval of `m · 2^e`. The gap below is half as wide when `m` is the least normal
significand, since the double below then has a finer spacing. -/
def interval (m : Nat) (e : Int) : Interval :=
  let narrow := m == 2 ^ Binary.fractionBits && e > Binary.leastExponent
  { low := if narrow then 4 * m - 1 else 4 * m - 2, high := 4 * m + 2, closed := m % 2 == 0 }

/-- The grid point `c · 10^t` lies in the reading interval of `m · 2^e`. -/
def inside (m : Nat) (e : Int) (c : Nat) (t : Int) : Bool :=
  let i := interval m e
  let above := compareScaled c t i.low (e - 2)
  let below := compareScaled c t i.high (e - 2)
  (above == .gt || (i.closed && above == .eq)) && (below == .lt || (i.closed && below == .eq))

/-- The exponent of the leading decimal digit of `m · 2^e` (for `m > 0`): the `E` with
`10^E ≤ m · 2^e < 10^(E+1)`. It starts from an estimate through `log10 2` and corrects it by exact
comparisons. -/
def leadingExponent (m : Nat) (e : Int) : Int :=
  let bits : Int := (m.log2 : Int) + e
  let guess : Int := (bits * 30103).fdiv 100000
  adjust guess 4
where
  /-- Moves the estimate at most `fuel` steps toward the exact exponent. -/
  adjust (E : Int) : Nat → Int
    | 0 => E
    | fuel + 1 =>
        if compareScaled 1 E m e == .gt then adjust (E - 1) fuel
        else if compareScaled 1 (E + 1) m e != .gt then adjust (E + 1) fuel
        else E

/-- Of the grid points `c · 10^t` and `(c+1) · 10^t` around `m · 2^e`, the one to write, if any
reads back: the nearer of the two, and the even one at equal distance. -/
def pick (m : Nat) (e : Int) (t : Int) : Option Nat :=
  let c := gridFloor m e t
  let lower := inside m e c t
  let upper := inside m e (c + 1) t
  if lower && upper then
    -- Compare the value with the midpoint `(2c+1)/2 · 10^t`.
    match compareScaled (2 * c + 1) t m (e + 1) with
    | .gt => some c
    | .lt => some (c + 1)
    | .eq => some (if c % 2 == 0 then c else c + 1)
  else if lower then some c
  else if upper then some (c + 1)
  else none

/-- Tries grids of `n, n+1, …` significant digits, with `fuel` grids left. -/
def search (m : Nat) (e E : Int) (n : Nat) : Nat → Decimal
  | 0 =>
      -- Unreachable for doubles: seventeen digits always read back.
      let t := E - 16
      ⟨gridFloor m e t, t⟩
  | fuel + 1 =>
      let t := E - (n : Int) + 1
      match pick m e t with
      | some c => ⟨c, t⟩
      | none => search m e E (n + 1) fuel

/-- The shortest decimal that reads back as `m · 2^e` (`m > 0`), without trailing zeros. -/
def digits (m : Nat) (e : Int) : Decimal :=
  (search m e (leadingExponent m e) 1 17).normalize

end Shortest

end MatrixSteps
