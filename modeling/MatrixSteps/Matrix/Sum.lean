import MatrixSteps.Matrix.Narration
import MatrixSteps.Fault

/-!
Sums and sequential differences of lists of matrices of one shape, cell by cell and without
rounding. A sum starts from zero and adds the matrices from left to right. A difference starts
from the first matrix and subtracts the others in turn. The result is named after its operands
when there are at most three of them, and by a general title otherwise. Its narration gives, for
each cell, the operands and the result.
-/

namespace MatrixSteps

namespace Matrix

/-- Most operands whose names a combined matrix's name lists. -/
def namedOperands : Nat := 3

/-- The name of a combination of `ms` with the given symbol: the operands' names, joined by the
symbol in parentheses, or `title` for many operands. -/
def combinedName (ms : List Matrix) (symbol title : String) : String :=
  if ms.length ≤ namedOperands then
    "(" ++ String.intercalate (" " ++ symbol ++ " ") (ms.map (·.name)) ++ ")"
  else title

/-- The first matrix of `rest` whose shape differs from `first`'s, as a fault. -/
def checkShapes (kind : Combination) (first : Matrix) (rest : List Matrix) : Except Fault Unit :=
  match rest.find? (·.shape != first.shape) with
  | some other => .error (.shapeMismatch kind first.shape other.shape)
  | none => .ok ()

/-- The cellwise sum of `first :: rest`, all of `first`'s shape. -/
def sumOf (first : Matrix) (rest : List Matrix) : Matrix :=
  let ms := first :: rest
  let total (i j : Nat) : Float := ms.foldl (fun acc m => acc + m.cell i j) 0.0
  { name := combinedName ms "+" "Total Sum"
    rows := first.rows
    cols := first.cols
    cells := Narration.gridOf first.rows first.cols total
    steps := some ("Adding elements in the same position:" ::
      Narration.overCells first.rows first.cols fun i j =>
        Narration.cellName "c" i j ++ " = " ++
          String.intercalate " + " (ms.map fun m => Narration.operand (m.cell i j)) ++
          " = " ++ Narration.number (total i j)) }

/-- The cellwise sequential difference of `first :: rest`, all of `first`'s shape. -/
def differenceOf (first : Matrix) (rest : List Matrix) : Matrix :=
  let ms := first :: rest
  let value (i j : Nat) : Float := rest.foldl (fun acc m => acc - m.cell i j) (first.cell i j)
  { name := combinedName ms "-" "Sequential Difference"
    rows := first.rows
    cols := first.cols
    cells := Narration.gridOf first.rows first.cols value
    steps := some ("Subtracting elements in the same position sequentially:" ::
      Narration.overCells first.rows first.cols fun i j =>
        Narration.cellName "c" i j ++ " = " ++
          String.intercalate " - " (ms.map fun m => Narration.operand (m.cell i j)) ++
          " = " ++ Narration.number (value i j)) }

/-- The sum of a nonempty list of matrices of one shape. -/
def sum : List Matrix → Except Fault Matrix
  | [] => .error (.nothingToCombine .addition)
  | first :: rest => do
      checkShapes .addition first rest
      return sumOf first rest

/-- The sequential difference of a nonempty list of matrices of one shape. -/
def difference : List Matrix → Except Fault Matrix
  | [] => .error (.nothingToCombine .subtraction)
  | first :: rest => do
      checkShapes .subtraction first rest
      return differenceOf first rest

/-- At least two matrices, all of one shape: the lists a sum or difference accepts. -/
def dimensionsMatch : List Matrix → Bool
  | first :: second :: rest => (second :: rest).all (·.shape == first.shape)
  | _ => false

end Matrix

end MatrixSteps
