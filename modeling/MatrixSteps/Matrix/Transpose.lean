import MatrixSteps.Matrix.Narration

/-!
The transpose of a matrix: its rows become columns, and no cell is rounded. Its narration follows
the operand's cells in row-major order, saying where each one goes.
-/

namespace MatrixSteps

namespace Matrix

/-- The transpose of `m`, named `Mᵀ`. -/
def transpose (m : Matrix) : Matrix :=
  { name := m.name ++ "ᵀ"
    rows := m.cols
    cols := m.rows
    cells := Narration.gridOf m.cols m.rows fun i j => m.cell j i
    steps := some ("Swapping rows and columns:" ::
      Narration.overCells m.rows m.cols fun i j =>
        Narration.cellName "c" j i ++ " takes the value of " ++ Narration.cellName "a" i j ++
          " (" ++ Narration.number (m.cell i j) ++ ")") }

end Matrix

end MatrixSteps
