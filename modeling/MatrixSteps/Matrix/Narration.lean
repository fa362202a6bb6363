import MatrixSteps.Matrix.Basic
import MatrixSteps.Number.Notation

/-!
The words of step narrations. Numbers are written in the narration notation, and a negative operand
of a sum or difference is put in parentheses, as in `4 + (-3) = 1`. Cells are named by a letter and
their row and column, counted from one: `c12` is the cell in the first row and second column of a
result, `a21` one of an operand.
-/

namespace MatrixSteps

namespace Narration

def number (x : Float) : String := Notation.narration.render x

/-- An operand of a sum or difference: in parentheses when negative. -/
def operand (x : Float) : String :=
  if (Binary.parts x).isNegative then "(" ++ number x ++ ")" else number x

/-- The name of the cell in row `i` and column `j` (from zero) of the matrix called `letter`. -/
def cellName (letter : String) (i j : Nat) : String :=
  letter ++ toString (i + 1) ++ toString (j + 1)

/-- Row-major list of `f i j` over a grid of `rows × cols` positions. -/
def overCells {α : Type} (rows cols : Nat) (f : Nat → Nat → α) : List α :=
  (List.range rows).flatMap fun i => (List.range cols).map fun j => f i j

def gridOf (rows cols : Nat) (f : Nat → Nat → Float) : List (List Float) :=
  (List.range rows).map fun i => (List.range cols).map fun j => f i j

end Narration

end MatrixSteps
