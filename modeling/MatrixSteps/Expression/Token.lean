/-!
Tokens of matrix expressions. An expression is cut from left to right into:
- numbers: ASCII digits, optionally followed by a point and more digits;
- identifiers: runs of ASCII letters;
- one-character operators among `' + - * / ^ ,`;
- parentheses.

Every other character is passed over without a trace, blanks and non-ASCII letters alike. So `2.`
gives the number `2`, and `1.5.3` gives `1.5` and `3`.
-/

namespace MatrixSteps

/-- What a token is. -/
inductive TokenKind where
  | number
  | identifier
  | operator
  | openParen
  | closeParen
  deriving DecidableEq, Repr, Inhabited

/-- A token: its kind and the text it was cut from. -/
structure Token where
  kind : TokenKind
  lexeme : String
  deriving DecidableEq, Repr, Inhabited

namespace TokenKind

/-- The name of a kind, as token listings spell it. -/
def name : TokenKind → String
  | .number => "NUMBER"
  | .identifier => "IDENTIFIER"
  | .operator => "OPERATOR"
  | .openParen => "LPAREN"
  | .closeParen => "RPAREN"

end TokenKind

namespace Token

/-- The kind of token a one-character symbol makes, if the character is a symbol. -/
def symbolKind? (c : Char) : Option TokenKind :=
  if c = '(' then some .openParen
  else if c = ')' then some .closeParen
  else if c = '\'' || c = '+' || c = '-' || c = '*' || c = '/' || c = '^' || c = ',' then
    some .operator
  else none

/-- The digits after a decimal point that continue a number: a point followed by at least one
digit. Returns the fraction (point included) and the rest. -/
def fractionPart : List Char → List Char × List Char
  | '.' :: d :: rest =>
      if d.isDigit then ('.' :: d :: rest.takeWhile Char.isDigit, rest.dropWhile Char.isDigit)
      else ([], '.' :: d :: rest)
  | cs => ([], cs)

theorem dropWhile_length_le (p : Char → Bool) (cs : List Char) :
    (cs.dropWhile p).length ≤ cs.length :=
  (List.dropWhile_suffix p).length_le

theorem fractionPart_length (cs : List Char) :
    (fractionPart cs).2.length ≤ cs.length := by
  unfold fractionPart
  split
  · split
    · simp only [List.length_cons]
      have := dropWhile_length_le Char.isDigit (by assumption : List Char)
      omega
    · exact Nat.le_refl _
  · exact Nat.le_refl _

/-- Cuts an expression, given as its characters, into tokens. -/
def scan (cs : List Char) : List Token :=
  match cs with
  | [] => []
  | c :: rest =>
      if c.isDigit then
        let tail := rest.dropWhile Char.isDigit
        ⟨.number, String.ofList (c :: rest.takeWhile Char.isDigit ++ (fractionPart tail).1)⟩ ::
          scan (fractionPart tail).2
      else if c.isAlpha then
        ⟨.identifier, String.ofList (c :: rest.takeWhile Char.isAlpha)⟩ ::
          scan (rest.dropWhile Char.isAlpha)
      else
        match symbolKind? c with
        | some kind => ⟨kind, String.singleton c⟩ :: scan rest
        | none => scan rest
termination_by cs.length
decreasing_by
  · have shorter := dropWhile_length_le Char.isDigit rest
    have kept := fractionPart_length (rest.dropWhile Char.isDigit)
    simp only [List.length_cons]
    omega
  · have shorter := dropWhile_length_le Char.isAlpha rest
    simp only [List.length_cons]
    omega
  · simp only [List.length_cons]
    omega
  · simp only [List.length_cons]
    omega

def ofString (s : String) : List Token := scan s.toList

/-- The characters of a number lexeme: digits, optionally a point and more digits. -/
def isNumberText (cs : List Char) : Bool :=
  match cs.span Char.isDigit with
  | ([], _) => false
  | (_, []) => true
  | (_, '.' :: fraction) => !fraction.isEmpty && fraction.all Char.isDigit
  | _ => false

/-- A token could have been cut from text: its lexeme has the form its kind prescribes. -/
def wellFormed (t : Token) : Bool :=
  match t.kind with
  | .number => isNumberText t.lexeme.toList
  | .identifier => !t.lexeme.isEmpty && t.lexeme.all Char.isAlpha
  | .operator => t.lexeme.length == 1 && t.lexeme.all fun c => symbolKind? c == some .operator
  | .openParen => t.lexeme == "("
  | .closeParen => t.lexeme == ")"

end Token

end MatrixSteps
