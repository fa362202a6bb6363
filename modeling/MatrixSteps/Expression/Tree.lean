import MatrixSteps.Expression.Evaluation

/-!
Expression trees, their postfix form, and their direct evaluation.

A tree has numbers and identifiers at its leaves, binary nodes labelled by an operator symbol, and
transpose nodes. `Expr.postOrder` writes a tree in post-order, as the postfix tokens the stack machine
runs. `Expr.eval` evaluates a tree recursively: left subtree, right subtree, then the node. Its
trace is the left trace, then the right trace, then the matrices the node produces. Fresh handles
are numbered in that order. A node whose symbol has no meaning is refused (`/`, `,`). A power
checks the exponent limit before it is applied.
-/

namespace MatrixSteps

/-- An expression tree. -/
inductive Expr where
  | number (lexeme : String)
  | identifier (name : String)
  | binary (symbol : String) (left right : Expr)
  | transpose (operand : Expr)
  deriving Repr, Inhabited

namespace Expr

/-- The tokens of the tree in post-order. -/
def postOrder : Expr → List Token
  | .number lexeme => [⟨.number, lexeme⟩]
  | .identifier name => [⟨.identifier, name⟩]
  | .binary symbol left right => left.postOrder ++ right.postOrder ++ [⟨.operator, symbol⟩]
  | .transpose operand => operand.postOrder ++ [⟨.operator, transposeMark⟩]

/-- The values an operator produced, with fresh handles from `next` on for its matrices, as trace
entries and the operand of the result. -/
def handOut (next : Nat) (p : Produced) : List Entry × Operand :=
  let along := p.along.zipIdx next |>.map fun (m, serial) => (⟨.fresh serial, m⟩ : Entry)
  match p.result with
  | .scalar x => (along, .scalar x)
  | .matrix m =>
      let e : Entry := ⟨.fresh (next + along.length), m⟩
      (along ++ [e], .matrix e)

/-- Evaluates a tree over the `inputs`, named by `table`, handing out fresh handles from `next`
on. Returns the value and the trace. -/
def eval (limits : Limits) (inputs : List Entry) (table : VariableTable) :
    Expr → Nat → Except Fault (Operand × List Entry)
  | .number lexeme, _ => do return (.scalar (← Machine.numberValue lexeme), [])
  | .identifier name, _ =>
      match (table.resolve? name).bind fun position => inputs[position]? with
      | some e => .ok (.matrix e, [])
      | none => .error (.unknownVariable name)
  | .binary symbol left right, next => do
      let (a, leftTrace) ← left.eval limits inputs table next
      let (b, rightTrace) ← right.eval limits inputs table (next + leftTrace.length)
      match Operator.ofSymbol? symbol with
      | none => .error (.unknownOperator symbol)
      | some op =>
          if op == .power then Machine.checkExponent limits a b
          let produced ← op.apply a.value b.value
          let (traced, result) :=
            handOut (next + leftTrace.length + rightTrace.length) produced
          return (result, leftTrace ++ rightTrace ++ traced)
  | .transpose operand, next => do
      let (a, trace) ← operand.eval limits inputs table next
      let v ← a.value.transpose
      let (traced, result) := handOut (next + trace.length) (.single v)
      return (result, trace ++ traced)

end Expr

end MatrixSteps
