import MatrixSteps.Matrix.Basic
import MatrixSteps.Number.Notation
import MatrixSteps.Operation
import MatrixSteps.Text.Quoted

/-!
Why an evaluation or a matrix operation stops. Each cause is a constructor, with the data its
message needs, and `Fault.message` holds all the wording. Numbers in messages are written in the
narration notation.
-/

-- Powers of naturals are the core's `Nat.pow`, also where other instances of powers are in scope.
attribute [local instance(1100)] instPowNat

namespace MatrixSteps

/-- The most decimal digits an integer may have for the host to write it as text. -/
def digitLimit : Nat := 4300

/-- The integer has at most `digitLimit` decimal digits, so a message can write it. -/
def Writable (n : Int) : Prop := n.natAbs < 10 ^ digitLimit

instance : DecidablePred Writable := fun n => inferInstanceAs (Decidable (n.natAbs < 10 ^ digitLimit))

/-- The three ways of combining a list of matrices into one. -/
inductive Combination where
  | addition
  | subtraction
  | multiplication
  deriving DecidableEq, Repr, Inhabited

namespace Combination

/-- The noun that names the combination in messages. -/
def noun : Combination → String
  | .addition => "addition"
  | .subtraction => "subtraction"
  | .multiplication => "multiplication"

/-- The verb that names the combination in messages. -/
def verb : Combination → String
  | .addition => "add"
  | .subtraction => "subtract"
  | .multiplication => "multiply"

end Combination

/-- A cause for an evaluation or an operation to stop. -/
inductive Fault where
  /-- The expression holds blanks only. -/
  | emptyExpression
  /-- The expression has more characters than the limit. -/
  | expressionTooLong (length : Nat) (limit : Int)
  /-- An input matrix has more rows or columns than the limit. -/
  | dimensionOverLimit (name : String) (shape : Shape) (limit : Int)
  /-- A power's exponent is above the limit. -/
  | exponentOverLimit (exponent : Float) (limit : Int)
  /-- No matrix is known by this identifier. -/
  | unknownVariable (identifier : String)
  /-- A binary operator found fewer than two values. -/
  | missingOperands (symbol : String)
  /-- The transpose mark found no value. -/
  | missingTransposeOperand
  /-- An operator symbol without a meaning (`/`, `,`). -/
  | unknownOperator (symbol : String)
  /-- The transpose mark applied to a number. -/
  | transposeOfScalar
  /-- A sum or difference of a number and a matrix. -/
  | scalarWithMatrix (kind : Combination)
  /-- A power whose base is not a matrix or whose exponent is not a number. -/
  | powerOperands
  /-- Two matrices of different shapes in a sum or difference. -/
  | shapeMismatch (kind : Combination) (first other : Shape)
  /-- A product whose left columns do not match the right rows. -/
  | productMismatch (left right : Shape)
  /-- A power of a matrix that is not square. -/
  | notSquare (name : String) (shape : Shape)
  /-- An exponent that is not a whole number at least one. -/
  | invalidExponent (exponent : Float)
  /-- A selection whose chain of products does not fit. -/
  | chainMismatch
  /-- A selection whose matrices differ in shape, for a sum or difference. -/
  | selectionMismatch (kind : Combination)
  /-- Not exactly one value is left when the expression ends. -/
  | leftOnStack (count : Nat)
  /-- The expression ends with a number. -/
  | scalarResult (value : Float)
  /-- A workbench operation on no matrices. -/
  | emptySelection
  /-- An aggregate operation on a single matrix. -/
  | tooFewOperands (operation : Operation)
  /-- A cellwise scalar operation of a kind that is not one. -/
  | notScalarOperation (operation : Operation)
  /-- A workbench operation of a kind that is not one. -/
  | notBatchOperation (operation : Operation)
  /-- A combination of an empty list of matrices. -/
  | nothingToCombine (kind : Combination)
  /-- A position among the inputs past the last one with a letter: the letter would lie beyond the
  last code point. -/
  | noLetter (position : Nat)
  /-- A message that would write an integer of more than `digitLimit` digits. -/
  | unwritableInteger
  /-- A number token whose text reads as no double. -/
  | notAFloat (text : String)
  deriving Repr, Inhabited

namespace Fault

def number (x : Float) : String := Notation.narration.render x

/-- The text of the fault. -/
def message : Fault → String
  | .emptyExpression => "The expression is empty."
  | .expressionTooLong length limit =>
      "Expression length " ++ toString length ++ " exceeds limit " ++ toString limit ++ "."
  | .dimensionOverLimit name shape limit =>
      "Matrix " ++ name ++ " (" ++ shape.text ++ ") exceeds dimension limit " ++ toString limit ++ "."
  | .exponentOverLimit exponent limit =>
      "Exponent " ++ number exponent ++ " exceeds limit " ++ toString limit ++ "."
  | .unknownVariable identifier => "Matrix '" ++ identifier ++ "' not found."
  | .missingOperands symbol => "Invalid operation: '" ++ symbol ++ "' is missing operands."
  | .missingTransposeOperand => "Invalid operation: transpose is missing its operand."
  | .unknownOperator symbol => "Unknown operator: " ++ symbol
  | .transposeOfScalar => "Transpose only applies to matrices"
  | .scalarWithMatrix kind =>
      "Cannot " ++ kind.verb ++
        " a scalar and a matrix directly (only scalar multiplication is defined)"
  | .powerOperands => "Power requires a matrix base and a numeric exponent"
  | .shapeMismatch kind first other =>
      "Incompatible dimensions for " ++ kind.noun ++ ": " ++ first.text ++ " vs " ++ other.text
  | .productMismatch left right =>
      "Incompatible dimensions for multiplication: " ++ left.text ++ " and " ++ right.text
  | .notSquare name shape =>
      "Matrix " ++ name ++ " must be square to be raised to a power, got " ++ shape.text
  | .invalidExponent exponent =>
      "Exponent must be a positive integer >= 1, got " ++ number exponent
  | .chainMismatch =>
      "Incompatible dimensions for chained multiplication (cols of A != rows of B)."
  | .selectionMismatch kind => "Incompatible dimensions for " ++ kind.noun ++ "."
  | .leftOnStack count =>
      "Error evaluating the expression: " ++ toString count ++ " values left on the stack."
  | .scalarResult value =>
      "The final result must be a matrix, not a number (" ++ number value ++ ")."
  | .emptySelection => "Select at least one matrix."
  | .tooFewOperands operation => operation.name ++ " requires at least 2 matrices."
  | .notScalarOperation operation => "Not a scalar operation: " ++ operation.name
  | .notBatchOperation operation => operation.name ++ " is not a batch operation."
  | .nothingToCombine kind => kind.noun ++ " requires at least one matrix"
  | .noLetter _ => "chr() arg not in range(0x110000)"
  | .unwritableInteger =>
      "Exceeds the limit (4300 digits) for integer string conversion; " ++
        "use sys.set_int_max_str_digits() to increase the limit"
  | .notAFloat text => "could not convert string to float: " ++ Text.quoted text

/-- The kind of error a fault is raised as: the name of its error class. Combining an empty list, a
position without a letter, writing an integer that is too long and reading a number from text that
holds none are runtime errors of the host language (`ValueError`). -/
def kind : Fault → String
  | .emptyExpression => "EmptyExpression"
  | .expressionTooLong .. | .dimensionOverLimit .. | .exponentOverLimit .. =>
      "EvaluationLimitExceeded"
  | .unknownVariable _ => "UnknownVariable"
  | .missingOperands _ | .missingTransposeOperand => "MissingOperand"
  | .unknownOperator _ => "UnknownOperator"
  | .transposeOfScalar => "TransposeRequiresMatrix"
  | .scalarWithMatrix _ => "ScalarMatrixAdditionUnsupported"
  | .powerOperands => "PowerOperandTypeError"
  | .shapeMismatch .. | .productMismatch .. | .notSquare .. | .chainMismatch
  | .selectionMismatch _ => "DimensionMismatch"
  | .invalidExponent _ => "InvalidExponent"
  | .leftOnStack _ => "MalformedExpression"
  | .scalarResult _ => "FinalResultMustBeMatrix"
  | .emptySelection => "EmptySelection"
  | .tooFewOperands _ => "InsufficientOperands"
  | .notScalarOperation _ | .notBatchOperation _ => "UnsupportedOperation"
  | .nothingToCombine _ | .noLetter _ | .unwritableInteger | .notAFloat _ => "ValueError"

/-- The fault a limit check raises when the message of `fault` writes `limit`: writing a limit that
is not `Writable` fails first. -/
def writingLimit (limit : Int) (fault : Fault) : Fault :=
  if Writable limit then fault else .unwritableInteger

end Fault

end MatrixSteps
