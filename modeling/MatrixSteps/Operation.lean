/-!
The kinds of operation the workbench records: the three aggregates (sum, sequential difference,
chained product), the three cellwise operations with a scalar, transpose, power, and the evaluation
of an expression. Each kind has an upper-case name, by which callers select it.
-/

namespace MatrixSteps

/-- A kind of recorded operation. -/
inductive Operation where
  | add
  | subtract
  | multiply
  | scalarAdd
  | scalarSub
  | scalarMul
  | transpose
  | power
  | expression
  deriving DecidableEq, Repr, Inhabited

namespace Operation

def all : List Operation :=
  [.add, .subtract, .multiply, .scalarAdd, .scalarSub, .scalarMul, .transpose, .power, .expression]

/-- The name of a kind. -/
def name : Operation → String
  | .add => "ADD"
  | .subtract => "SUBTRACT"
  | .multiply => "MULTIPLY"
  | .scalarAdd => "SCALAR_ADD"
  | .scalarSub => "SCALAR_SUB"
  | .scalarMul => "SCALAR_MUL"
  | .transpose => "TRANSPOSE"
  | .power => "POWER"
  | .expression => "EXPRESSION"

/-- The kind with the given name; names are matched exactly. -/
def ofName? (s : String) : Option Operation := all.find? (·.name == s)

def actsOnEach : Operation → Bool
  | .transpose | .power | .scalarAdd | .scalarSub | .scalarMul => true
  | _ => false

def combines : Operation → Bool
  | .add | .subtract | .multiply => true
  | _ => false

end Operation

end MatrixSteps
