import MatrixSteps.Expression.Evaluation

/-!
Operations on a selection of matrices, and their log.

An operation is either applied to each selected matrix on its own, or combines all of them, in the
order selected, into one result:
- transpose, power and the three cellwise operations with a scalar act on each matrix;
- sum, sequential difference and chained product combine at least two matrices.

The evaluation of an expression is logged the same way, with the whole trace as result. Results
can then be promoted: copied as new inputs under a new name.
-/

namespace MatrixSteps

/-- The record of one operation: its kind, a description, the names of its inputs, the scalar it
used (the scalar of a cellwise operation, or the exponent of a power), and its results. -/
structure OperationLog where
  operation : Operation
  details : String
  inputs : List String
  scalar : Option Float
  results : List Entry
  deriving Inhabited

namespace Workbench

/-- An operation that acts on each matrix, applied to one: transpose, power, or else a cellwise
operation with the scalar. -/
def eachMatrix (operation : Operation) (scalar exponent : Float) (m : Matrix) :
    Except Fault Matrix :=
  match operation with
  | .transpose => .ok m.transpose
  | .power => m.power exponent
  | _ => m.scalarOperation scalar operation

/-- An operation that combines matrices, applied to the selection: at least two matrices, whose
chain of products fits or whose shapes agree. -/
def combineAll (operation : Operation) (selected : List Matrix) : Except Fault Matrix :=
  if selected.length < 2 then .error (.tooFewOperands operation)
  else if operation == .multiply then
    if Matrix.chainValid selected then Matrix.chainProduct selected else .error .chainMismatch
  else if !Matrix.dimensionsMatch selected then
    .error (.selectionMismatch (if operation == .add then .addition else .subtraction))
  else if operation == .add then Matrix.sum selected
  else Matrix.difference selected

/-- The results of an operation on the selected matrices, in order. -/
def results (operation : Operation) (selected : List Matrix) (scalar exponent : Float) :
    Except Fault (List Matrix) :=
  if selected.isEmpty then .error .emptySelection
  else if operation.actsOnEach then selected.mapM (eachMatrix operation scalar exponent)
  else if operation.combines then (combineAll operation selected).map fun m => [m]
  else .error (.notBatchOperation operation)

/-- Fresh handles for `results`, numbered from `firstSerial`. -/
def freshEntries (firstSerial : Nat) (results : List Matrix) : List Entry :=
  results.zipIdx firstSerial |>.map fun (m, serial) => ⟨.fresh serial, m⟩

/-- The scalar a log records for an operation. -/
def recordedScalar (operation : Operation) (scalar exponent : Float) : Option Float :=
  match operation with
  | .scalarAdd | .scalarSub | .scalarMul => some scalar
  | .power => some exponent
  | _ => none

/-- Applies an operation to the selected matrices and logs it; results get fresh handles from
`firstSerial` on. -/
def apply (operation : Operation) (selected : List Matrix) (scalar exponent : Float)
    (firstSerial : Nat) : Except Fault OperationLog := do
  let out ← results operation selected scalar exponent
  return { operation, details := operation.name, inputs := selected.map (·.name),
           scalar := recordedScalar operation scalar exponent,
           results := freshEntries firstSerial out }

/-- Evaluates an expression over the inputs and logs it, with the trace as result. -/
def solve (limits : Limits) (inputs : List Entry) (firstSerial : Nat) (expression : String) :
    Except Fault OperationLog := do
  let e ← evaluate limits inputs firstSerial expression
  return { operation := .expression, details := "Expression: " ++ expression,
           inputs := inputs.map (·.matrix.name), scalar := none, results := e.trace }

/-- A result copied as a new input, named `R` and its number among the inputs. -/
def promote (result : Matrix) (existingCount : Int) : Matrix :=
  { result with name := "R" ++ toString (existingCount + 1) }

/-- Results copied as new inputs, each named after itself in parentheses. -/
def promoteAll (results : List Matrix) : List Matrix :=
  results.map fun r => { r with name := "(" ++ r.name ++ ")" }

end Workbench

end MatrixSteps
