import MatrixSteps.Matrix.Narration
import MatrixSteps.Number.Places
import MatrixSteps.Fault

/-!
Cellwise operations with a scalar: each cell plus, minus or times the scalar, rounded to
`Places.cellPlaces` places. The result is named after the scalar and the matrix, as in `3(A)`.
-/

namespace MatrixSteps

/-- A cellwise operation with a scalar. -/
inductive ScalarStep where
  | add
  | sub
  | mul
  deriving DecidableEq, Repr

namespace ScalarStep

/-- The cellwise operation of an operation kind, if it is one. -/
def ofOperation? : Operation → Option ScalarStep
  | .scalarAdd => some .add
  | .scalarSub => some .sub
  | .scalarMul => some .mul
  | _ => none

/-- The symbol the narration writes. -/
def symbol : ScalarStep → String
  | .add => "+"
  | .sub => "-"
  | .mul => "·"

/-- The operation on a cell and the scalar. -/
def apply : ScalarStep → Float → Float → Float
  | .add, x, k => x + k
  | .sub, x, k => x - k
  | .mul, x, k => x * k

end ScalarStep

namespace Matrix

/-- Each cell of `m` combined with the scalar `k` by `step`, and rounded. -/
def scaleBy (step : ScalarStep) (m : Matrix) (k : Float) : Matrix :=
  let scalarText := Narration.number k
  let cell (i j : Nat) : Float := Places.roundCell (step.apply (m.cell i j) k)
  { name := scalarText ++ "(" ++ m.name ++ ")"
    rows := m.rows
    cols := m.cols
    cells := Narration.gridOf m.rows m.cols cell
    steps := some (("Applying scalar (" ++ scalarText ++ ") to each element:") ::
      Narration.overCells m.rows m.cols fun i j =>
        Narration.cellName "c" i j ++ " = " ++ Narration.number (m.cell i j) ++ " " ++
          step.symbol ++ " " ++ scalarText ++ " = " ++ Narration.number (cell i j)) }

/-- The cellwise operation of kind `operation` with the scalar `k`; only the three scalar kinds
are cellwise operations. -/
def scalarOperation (m : Matrix) (k : Float) (operation : Operation) : Except Fault Matrix :=
  match ScalarStep.ofOperation? operation with
  | some step => .ok (scaleBy step m k)
  | none => .error (.notScalarOperation operation)

end Matrix

end MatrixSteps
