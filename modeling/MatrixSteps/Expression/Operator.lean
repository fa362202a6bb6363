import MatrixSteps.Matrix.Sum
import MatrixSteps.Matrix.Product
import MatrixSteps.Matrix.Transpose
import MatrixSteps.Matrix.Scale

/-!
The operators of matrix expressions and what they do to numbers and matrices.

| operator | two numbers | a number and a matrix | two matrices |
|---|---|---|---|
| `+` `-` | sum, difference | refused | cellwise, of one shape |
| `*` | product | scalar product of the cells | row-by-column product |
| `^` | refused | only matrix base, number exponent: every power | refused |
| `'` (one operand) | refused | | transpose |

An operator produces its result and, for `^`, the partial powers computed on the way.
-/

namespace MatrixSteps

/-- A value of an expression: a number or a matrix. -/
inductive Value where
  | scalar (x : Float)
  | matrix (m : Matrix)
  deriving Inhabited, Repr

/-- A value on an evaluation's stack: a number, or a matrix with its handle. -/
inductive Operand where
  | scalar (x : Float)
  | matrix (e : Entry)
  deriving Inhabited, Repr

def Operand.value : Operand → Value
  | .scalar x => .scalar x
  | .matrix e => .matrix e.matrix

/-- What an operator produces: the matrices computed on the way, in order, then its result. -/
structure Produced where
  along : List Matrix
  result : Value
  deriving Inhabited

/-- Everything an operator produces, in order, its result last. -/
def Produced.values (p : Produced) : List Value := p.along.map .matrix ++ [p.result]

def Produced.single (v : Value) : Produced := ⟨[], v⟩

/-- A nonempty list of matrices as produced values: all but the last on the way, the last as
result. -/
def Produced.ofMatrices (first : Matrix) : List Matrix → Produced
  | [] => ⟨[], .matrix first⟩
  | next :: rest =>
      let later := Produced.ofMatrices next rest
      ⟨first :: later.along, later.result⟩

/-- The transpose of a value. -/
def Value.transpose (a : Value) : Except Fault Value :=
  match a with
  | .matrix m => .ok (.matrix m.transpose)
  | .scalar _ => .error .transposeOfScalar

/-- The transpose mark, the one operator that takes a single operand. -/
def transposeMark : String := "'"

/-- The operators of two operands that have a meaning. -/
inductive Operator where
  | plus
  | minus
  | times
  | power
  deriving DecidableEq, Repr

namespace Operator

/-- The operator a symbol stands for. -/
def ofSymbol? (symbol : String) : Option Operator :=
  if symbol == "+" then some .plus
  else if symbol == "-" then some .minus
  else if symbol == "*" then some .times
  else if symbol == "^" then some .power
  else none

/-- A sum or difference of two values. -/
def combine (kind : Combination) (a b : Value) : Except Fault Value :=
  match a, b with
  | .scalar x, .scalar y => .ok (.scalar (if kind == .addition then x + y else x - y))
  | .matrix m, .matrix n =>
      if m.shape != n.shape then .error (.shapeMismatch kind m.shape n.shape)
      else if kind == .addition then .ok (.matrix (Matrix.sumOf m [n]))
      else .ok (.matrix (Matrix.differenceOf m [n]))
  | _, _ => .error (.scalarWithMatrix kind)

/-- A product of two values. -/
def multiply (a b : Value) : Except Fault Value :=
  match a, b with
  | .scalar x, .scalar y => .ok (.scalar (x * y))
  | .scalar x, .matrix m => .ok (.matrix (Matrix.scaleBy .mul m x))
  | .matrix m, .scalar y => .ok (.matrix (Matrix.scaleBy .mul m y))
  | .matrix m, .matrix n => (Matrix.product m n).map .matrix

/-- A power: a matrix base and a number exponent, producing every partial power. -/
def raise (a b : Value) : Except Fault Produced :=
  match a, b with
  | .matrix m, .scalar e => do
      let (first, rest) := Matrix.powersUpTo m (← Matrix.powerCount m e)
      return Produced.ofMatrices first rest
  | _, _ => .error .powerOperands

/-- Applies the operator to its left and right operand. -/
def apply (op : Operator) (a b : Value) : Except Fault Produced :=
  match op with
  | .plus => Produced.single <$> combine .addition a b
  | .minus => Produced.single <$> combine .subtraction a b
  | .times => Produced.single <$> multiply a b
  | .power => raise a b

end Operator

end MatrixSteps
