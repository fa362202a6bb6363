import MatrixSteps.Expression.Token

/-!
From infix tokens to postfix order, by a stack of pending operators and parentheses.

- Numbers and identifiers go straight to the output.
- An incoming operator first moves to the output every operator on top of the stack that binds at
  least as tightly, then waits on the stack. An incoming `^` moves nothing, and an operator without
  a precedence (`,`) neither moves nor is moved by precedence.
- An opening parenthesis waits on the stack.
- A closing one moves operators out up to the nearest opening parenthesis and drops that
  parenthesis. When there is none, it empties the stack.
- At the end the stack is emptied into the output, top first, opening parentheses included.
-/

namespace MatrixSteps

/-- How tightly an operator symbol binds: `+ -` 1, `* /` 2, `^` 3, the transpose mark `'` 4.
Other symbols have no precedence. -/
def precedence? (symbol : String) : Option Nat :=
  if symbol == "+" || symbol == "-" then some 1
  else if symbol == "*" || symbol == "/" then some 2
  else if symbol == "^" then some 3
  else if symbol == "'" then some 4
  else none

namespace Token

/-- The power symbol, which never moves operators off the stack. -/
def power : String := "^"

/-- An operator `top` waiting on the stack moves to the output before `incoming` is pushed. -/
def yieldsTo (top incoming : Token) : Bool :=
  top.kind == .operator && incoming.lexeme != power &&
    match precedence? top.lexeme, precedence? incoming.lexeme with
    | some above, some below => below ≤ above
    | _, _ => false

/-- The stack after a closing parenthesis, which drops the nearest opening parenthesis if any:
the part above it has already gone to the output. -/
def closeGroup (stack : List Token) : List Token :=
  (stack.dropWhile (·.kind != .openParen)).drop 1

/-- Postfix order of `tokens`, with `stack` the pending operators and parentheses, top first. -/
def postfixWith : List Token → List Token → List Token
  | [], stack => stack
  | t :: rest, stack =>
      match t.kind with
      | .number | .identifier => t :: postfixWith rest stack
      | .operator =>
          stack.takeWhile (yieldsTo · t) ++ postfixWith rest (t :: stack.dropWhile (yieldsTo · t))
      | .openParen => postfixWith rest (t :: stack)
      | .closeParen =>
          stack.takeWhile (·.kind != .openParen) ++ postfixWith rest (closeGroup stack)

def toPostfix (tokens : List Token) : List Token := postfixWith tokens []

end Token

end MatrixSteps
