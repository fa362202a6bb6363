import MatrixSteps.Expression.Postfix
import MatrixSteps.Expression.Operator
import MatrixSteps.Expression.Variables
import MatrixSteps.Number.FloatLiteral

/-!
Evaluating expressions over matrices, with a trace of everything computed.

Postfix tokens are run on a stack:
- a number pushes the double its text reads as (`FloatLiteral.read?`), and stops the run when the
  text reads as none;
- an identifier pushes the matrix it names;
- the transpose mark replaces the top value by its transpose;
- an operator of two operands replaces the two top values by its result.

Every matrix an operator produces gets a fresh handle and is appended to the trace, partial powers
included, and the operator's result is pushed. Parentheses left over by unbalanced input are
passed over. When the tokens end, exactly one value must be left, and it must be a matrix.

Before any of this, an expression is refused when it is blank, or when it or an input matrix
exceeds the configured limits (`Limits`). A power's exponent is checked against its limit when the
power is applied. The fault of a limit check writes the limit in its message, so a limit that is not
`Writable` fails with `Fault.unwritableInteger` instead.
-/

namespace MatrixSteps

/-- Limits on what an evaluation accepts; `none` means no limit. -/
structure Limits where
  maxExpressionLength : Option Int := none
  maxExponent : Option Int := none
  maxDimension : Option Int := none
  deriving Repr, Inhabited

/-- Every limit that is set can be written in a message. -/
structure Limits.Writable (limits : Limits) : Prop where
  expressionLength : ∀ limit ∈ limits.maxExpressionLength, MatrixSteps.Writable limit
  exponent : ∀ limit ∈ limits.maxExponent, MatrixSteps.Writable limit
  dimension : ∀ limit ∈ limits.maxDimension, MatrixSteps.Writable limit

/-- The state of an evaluation: the stack, top first; the trace, latest first; and the serial
number of the next fresh handle. -/
structure Machine where
  stack : List Operand
  trace : List Entry
  next : Nat
  deriving Inhabited

namespace Machine

/-- The machine after an operator produced `produced`: each matrix gets the next fresh handle and
joins the trace, and the result goes on the stack. -/
def record (s : Machine) (produced : Produced) : Machine :=
  let traced := produced.along.foldl (fun (t : Machine) m =>
    { t with trace := ⟨.fresh t.next, m⟩ :: t.trace, next := t.next + 1 }) s
  match produced.result with
  | .scalar x => { traced with stack := .scalar x :: traced.stack }
  | .matrix m =>
      let e : Entry := ⟨.fresh traced.next, m⟩
      { stack := .matrix e :: traced.stack, trace := e :: traced.trace, next := traced.next + 1 }

/-- The exponent of a power is within the limit; only a matrix raised to a number is checked. -/
def checkExponent (limits : Limits) (base exponent : Operand) : Except Fault Unit :=
  match limits.maxExponent, base, exponent with
  | some limit, .matrix _, .scalar e =>
      if (Binary.parts e).exceeds limit then
        .error (Fault.writingLimit limit (.exponentOverLimit e limit))
      else .ok ()
  | _, _, _ => .ok ()

/-- The value of a number token: the double its text reads as. -/
def numberValue (text : String) : Except Fault Float :=
  match FloatLiteral.read? text with
  | some x => .ok x
  | none => .error (.notAFloat text)

/-- One step of the machine on a token. -/
def step (limits : Limits) (inputs : List Entry) (table : VariableTable) (s : Machine)
    (t : Token) : Except Fault Machine :=
  match t.kind with
  | .number => do
      let x ← numberValue t.lexeme
      return { s with stack := .scalar x :: s.stack }
  | .identifier =>
      match (table.resolve? t.lexeme).bind fun position => inputs[position]? with
      | some e => .ok { s with stack := .matrix e :: s.stack }
      | none => .error (.unknownVariable t.lexeme)
  | .operator =>
      if t.lexeme == transposeMark then
        match s.stack with
        | a :: below => do
            let v ← a.value.transpose
            return record { s with stack := below } (.single v)
        | [] => .error .missingTransposeOperand
      else
        match s.stack with
        | b :: a :: below =>
            match Operator.ofSymbol? t.lexeme with
            | none => .error (.unknownOperator t.lexeme)
            | some op => do
                if op == .power then checkExponent limits a b
                let produced ← op.apply a.value b.value
                return record { s with stack := below } produced
        | _ => .error (.missingOperands t.lexeme)
  | .openParen | .closeParen => .ok s

/-- Runs the machine over postfix tokens. -/
def run (limits : Limits) (inputs : List Entry) (table : VariableTable) :
    Machine → List Token → Except Fault Machine
  | s, [] => .ok s
  | s, t :: rest => do run limits inputs table (← step limits inputs table s t) rest

end Machine

/-- The result of an evaluation: every matrix computed, in order, and the final value. -/
structure Evaluation where
  trace : List Entry
  final : Entry
  deriving Inhabited

/-- The table naming the inputs, refused when some input's position has no letter. -/
def inputTable (inputs : List Entry) : Except Fault VariableTable :=
  match VariableTable.ofNames? (inputs.map (·.matrix.name)) with
  | some table => .ok table
  | none => .error (.noLetter VariableTable.letteredPositions)

/-- Evaluates postfix tokens over the `inputs`, handing out fresh handles from `firstSerial` on.
No limit applies but the exponent limit. -/
def evaluatePostfix (limits : Limits) (inputs : List Entry) (firstSerial : Nat)
    (tokens : List Token) : Except Fault Evaluation := do
  let table ← inputTable inputs
  let done ← Machine.run limits inputs table ⟨[], [], firstSerial⟩ tokens
  match done.stack with
  | [.matrix e] => return ⟨done.trace.reverse, e⟩
  | [.scalar x] => .error (.scalarResult x)
  | stack => .error (.leftOnStack stack.length)

/-- The first input matrix with more rows or columns than the limit, as a fault. -/
def checkDimensions (limit : Int) : List Matrix → Except Fault Unit
  | [] => .ok ()
  | m :: rest =>
      if limit < m.rows || limit < m.cols then
        .error (Fault.writingLimit limit (.dimensionOverLimit m.name m.shape limit))
      else checkDimensions limit rest

/-- The expression and the input matrices are within the limits: the expression's length first,
then the inputs' rows and columns. -/
def checkLimits (limits : Limits) (expression : String) (matrices : List Matrix) :
    Except Fault Unit := do
  if let some limit := limits.maxExpressionLength then
    if limit < expression.length then
      throw (Fault.writingLimit limit (.expressionTooLong expression.length limit))
  if let some limit := limits.maxDimension then
    checkDimensions limit matrices

/-- Evaluates an infix expression over the `inputs`, after checking that it is not blank and that
it and the inputs are within the limits. -/
def evaluate (limits : Limits) (inputs : List Entry) (firstSerial : Nat) (expression : String) :
    Except Fault Evaluation := do
  if Text.isBlankText expression then throw .emptyExpression
  checkLimits limits expression (inputs.map (·.matrix))
  evaluatePostfix limits inputs firstSerial (Token.toPostfix (Token.ofString expression))

end MatrixSteps
