import MatrixSteps.Number.Binary

/-!
Matrices with a narration. A matrix has a display name, a number of rows and columns, its cells in
row-major order, and optionally the steps that narrate how it was computed. A matrix is
*well-shaped* when it has at least one row and one column and its cells fill exactly that shape:
matrices built from input are checked for it (`Matrix.build?`), and every operation keeps it.

A matrix is known by a handle: the id a caller gave it, or a fresh serial number for a matrix the
engine computed. Handles live beside matrices (`Entry`), so the operations themselves are pure
functions of the matrices.
-/

namespace MatrixSteps

/-- Numbers of rows and columns. -/
structure Shape where
  rows : Nat
  cols : Nat
  deriving DecidableEq, Repr, Inhabited

/-- The shape as messages write it: `2x3`. -/
def Shape.text (s : Shape) : String := toString s.rows ++ "x" ++ toString s.cols

/-- A matrix: display name, dimensions, cells by rows, and the narration of its computation. -/
structure Matrix where
  name : String
  rows : Nat
  cols : Nat
  cells : List (List Float)
  steps : Option (List String)
  deriving Inhabited, Repr

namespace Matrix

def shape (m : Matrix) : Shape := ⟨m.rows, m.cols⟩

/-- At least one row and one column, and the cells fill exactly `rows × cols`. -/
def WellShaped (m : Matrix) : Prop :=
  0 < m.rows ∧ 0 < m.cols ∧ m.cells.length = m.rows ∧ ∀ row ∈ m.cells, row.length = m.cols

/-- The checkable form of `WellShaped`. -/
def wellShaped (m : Matrix) : Bool :=
  0 < m.rows && 0 < m.cols && m.cells.length == m.rows && m.cells.all (·.length == m.cols)

def isSquare (m : Matrix) : Bool := m.rows == m.cols

/-- The cell in row `i` and column `j`, counted from zero (zero outside the cells). -/
def cell (m : Matrix) (i j : Nat) : Float := (m.cells.getD i []).getD j 0.0

/-- A matrix from its parts, if it is well-shaped. -/
def build? (name : String) (rows cols : Int) (cells : List (List Float))
    (steps : Option (List String)) : Option Matrix :=
  let m : Matrix := ⟨name, rows.toNat, cols.toNat, cells, steps⟩
  if 0 < rows && 0 < cols && m.wellShaped then some m else none

/-- A matrix named `name` whose dimensions are read off its cells: as many rows as lists, as many
columns as the first list has (none without rows). -/
def ofCells? (name : String) (cells : List (List Float)) : Option Matrix :=
  build? name cells.length (cells.head?.map List.length |>.getD 0) cells none

/-- A grid of `rows × cols` cells all equal to `fill`; a negative count gives no rows or no
columns. -/
def grid (rows cols : Int) (fill : Float) : List (List Float) :=
  List.replicate rows.toNat (List.replicate cols.toNat fill)

end Matrix

/-- How the engine knows a matrix: by the id a caller gave it, or by a serial number handed out
when the engine computed it. -/
inductive Handle where
  | given (id : String)
  | fresh (serial : Nat)
  deriving DecidableEq, Repr, Inhabited

/-- A matrix together with its handle. -/
structure Entry where
  handle : Handle
  matrix : Matrix
  deriving Inhabited, Repr

end MatrixSteps
