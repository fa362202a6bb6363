import MatrixSteps.Matrix.Narration
import MatrixSteps.Number.Places
import MatrixSteps.Fault

/-!
Products of matrices, row by column, each cell rounded to `Places.cellPlaces` places once its sum
is complete. A chain of products goes from left to right, and its narration collects the steps of
each product. A power `Mⁿ` multiplies the previous power by `M` again, `n - 1` times, and records
every partial power.
-/

namespace MatrixSteps

namespace Matrix

/-- The row-by-column product of `a` and `b`, for `a.cols = b.rows`. -/
def productOf (a b : Matrix) : Matrix :=
  let total (i j : Nat) : Float :=
    (List.range a.cols).foldl (fun acc k => acc + a.cell i k * b.cell k j) 0.0
  let cell (i j : Nat) : Float := Places.roundCell (total i j)
  { name := "(" ++ a.name ++ " · " ++ b.name ++ ")"
    rows := a.rows
    cols := b.cols
    cells := Narration.gridOf a.rows b.cols cell
    steps := some (("Row-by-column product (" ++ a.name ++ " x " ++ b.name ++ "):") ::
      Narration.overCells a.rows b.cols fun i j =>
        Narration.cellName "c" i j ++ " = " ++
          String.intercalate " + " ((List.range a.cols).map fun k =>
            "(" ++ Narration.number (a.cell i k) ++ " · " ++ Narration.number (b.cell k j) ++ ")") ++
          " = " ++ Narration.number (cell i j)) }

/-- The product of two matrices whose inner dimensions agree. -/
def product (a b : Matrix) : Except Fault Matrix :=
  if a.cols == b.rows then .ok (productOf a b) else .error (.productMismatch a.shape b.shape)

/-- The steps of a chain, continued from `current` through `rest`: the `k`-th product is headed by
its operands' names when `headed`. Returns the last product and the steps. -/
def chainFrom (headed : Bool) (current : Matrix) (k : Nat) (acc : List String) :
    List Matrix → Except Fault (Matrix × List String)
  | [] => .ok (current, acc)
  | following :: rest => do
      let p ← product current following
      let header :=
        if headed then
          ["--- Step " ++ toString k ++ ": " ++ current.name ++ " x " ++ following.name ++ " ---"]
        else []
      chainFrom headed p (k + 1) (acc ++ header ++ p.steps.getD []) rest

/-- The product of a nonempty chain of matrices, from left to right. A single matrix is its own
product. The result has the name of the last product, and the steps of all products, each headed
by its operands' names when the chain has more than two matrices. -/
def chainProduct : List Matrix → Except Fault Matrix
  | [] => .error (.nothingToCombine .multiplication)
  | [m] => .ok m
  | first :: rest => do
      let (last, steps) ← chainFrom (2 < rest.length + 1) first 1 [] rest
      return { last with steps := some steps }

/-- At least two matrices, each with as many columns as the next has rows: the chains whose
product exists. -/
def chainValid (ms : List Matrix) : Bool :=
  2 ≤ ms.length && (ms.zip ms.tail).all fun (left, right) => left.cols == right.rows

/-- The powers `M^2, …, M^n` of a square matrix, each the previous one times `M`, named
`M^k`. -/
def powerList (m : Matrix) (n : Nat) : List Matrix :=
  go m 2 (n - 1)
where
  /-- The powers from `M^k` on, `count` of them, after `previous`. -/
  go (previous : Matrix) (k : Nat) : Nat → List Matrix
    | 0 => []
    | count + 1 =>
        let next := { productOf previous m with name := m.name ++ "^" ++ toString k }
        next :: go next (k + 1) count

/-- The exponent as a power: a whole number at least one. -/
def exponentCount? (exponent : Float) : Option Nat :=
  let p := Binary.parts exponent
  if p.isPositiveInteger then some p.wholePart else none

/-- The exponent of a power of `m`, checked: the matrix must be square, and the exponent a whole
number at least one. -/
def powerCount (m : Matrix) (exponent : Float) : Except Fault Nat :=
  if !m.isSquare then .error (.notSquare m.name m.shape)
  else
    match exponentCount? exponent with
    | some n => .ok n
    | none => .error (.invalidExponent exponent)

/-- The first power of a matrix: a copy named `M^1`. -/
def firstPower (m : Matrix) : Matrix :=
  { m with name := m.name ++ "^1", steps := some ["Power 1 is the same matrix."] }

/-- Every power of `m` up to `n`, in order, as the first and the others: `M^2, …, M^n`, or for
`n = 1` the copy `M^1` alone. -/
def powersUpTo (m : Matrix) (n : Nat) : Matrix × List Matrix :=
  match powerList m n with
  | [] => (firstPower m, [])
  | p :: ps => (p, ps)

/-- Every power of `m` up to the exponent (`powersUpTo`), once the exponent is checked. -/
def powers (m : Matrix) (exponent : Float) : Except Fault (List Matrix) := do
  let (first, rest) := powersUpTo m (← powerCount m exponent)
  return first :: rest

/-- The steps of a power: each partial product's steps, headed by its power. -/
def powerSteps (partials : List Matrix) : List String :=
  (partials.zipIdx 2).flatMap fun (p, k) => ("--- Power " ++ toString k ++ " ---") :: p.steps.getD []

/-- The power `M^n`: the last partial power, with the steps of every multiplication; for `n = 1`,
the copy `M^1`. -/
def powerUpTo (m : Matrix) (n : Nat) : Matrix :=
  match powerList m n with
  | [] => firstPower m
  | p :: ps => { (p :: ps).getLast (List.cons_ne_nil p ps) with steps := some (powerSteps (p :: ps)) }

/-- The power `M^n` for an exponent that is checked first. -/
def power (m : Matrix) (exponent : Float) : Except Fault Matrix :=
  return powerUpTo m (← powerCount m exponent)

end Matrix

end MatrixSteps
