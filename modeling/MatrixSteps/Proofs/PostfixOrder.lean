import MatrixSteps.Expression.Tree

/-!
The grammar that postfix conversion implements, and its correctness: every expression of the
grammar is converted to the post-order of its parse tree.

    expression ::= term | expression + term | expression - term
    term       ::= power | term * power | term / power
    power      ::= primed | primed ^ power
    primed     ::= atom | primed '
    atom       ::= number | identifier | ( expression )

Sums and products group to the left, powers to the right, and a transpose mark applies to what it
follows, with one exception. The last transpose mark of a power's base is applied after the power:
an incoming `^` moves nothing off the stack, so the mark waits there until the power is written.
Thus `A'^2` reads as `(A^2)'`, and `A''^2` as `((A')^2)'`.

The proof follows one phrase through the conversion (`Converts`). Some of the phrase's operators
reach the output, the others wait on top of the stack, and what lay below the phrase on the stack
is never touched (`Shelters`). The operators left waiting bind at least as tightly as the phrase,
so the operator that follows the phrase in a larger one moves them all out.
-/

namespace MatrixSteps

/-- The phrases of the expression grammar, from the loosest binding to the tightest. -/
inductive Phrase where
  | expression
  | term
  | power
  | primed
  | atom
  deriving DecidableEq, Repr

/-- The least precedence of an operator that may still wait on the stack once a phrase is read:
the operators of its own level and of the levels inside it. No operator binds like an atom. -/
def Phrase.binding : Phrase → Nat
  | .expression => 1
  | .term => 2
  | .power => 3
  | .primed => 4
  | .atom => 5

namespace Token

def operatorOf (symbol : String) : Token := ⟨.operator, symbol⟩

def opening : Token := ⟨.openParen, "("⟩

def closing : Token := ⟨.closeParen, ")"⟩

/-- An operator whose precedence is at least `level`. -/
def BindsAtLeast (level : Nat) (t : Token) : Prop :=
  t.kind = .operator ∧ ∃ p, precedence? t.lexeme = some p ∧ level ≤ p

end Token

/-- `Derives phrase tokens e`: the tokens read as `phrase`, with parse tree `e`. -/
inductive Derives : Phrase → List Token → Expr → Prop where
  | number (lexeme : String) : Derives .atom [⟨.number, lexeme⟩] (.number lexeme)
  | identifier (name : String) : Derives .atom [⟨.identifier, name⟩] (.identifier name)
  | group {tokens : List Token} {e : Expr} :
      Derives .expression tokens e →
        Derives .atom (Token.opening :: (tokens ++ [Token.closing])) e
  | unprimed {tokens : List Token} {e : Expr} : Derives .atom tokens e → Derives .primed tokens e
  | prime {tokens : List Token} {e : Expr} :
      Derives .primed tokens e →
        Derives .primed (tokens ++ [Token.operatorOf transposeMark]) (.transpose e)
  | base {tokens : List Token} {e : Expr} : Derives .primed tokens e → Derives .power tokens e
  | raise {tokens exponent : List Token} {b x : Expr} :
      Derives .atom tokens b → Derives .power exponent x →
        Derives .power (tokens ++ Token.operatorOf Token.power :: exponent)
          (.binary Token.power b x)
  /-- A power of a base that ends in a transpose mark: the mark transposes the power. -/
  | raisePrimed {tokens exponent : List Token} {b x : Expr} :
      Derives .primed tokens b → Derives .power exponent x →
        Derives .power
          (tokens ++ Token.operatorOf transposeMark :: Token.operatorOf Token.power :: exponent)
          (.transpose (.binary Token.power b x))
  | factor {tokens : List Token} {e : Expr} : Derives .power tokens e → Derives .term tokens e
  | product (symbol : String) {tokens more : List Token} {l r : Expr} :
      (symbol = "*" ∨ symbol = "/") → Derives .term tokens l → Derives .power more r →
        Derives .term (tokens ++ Token.operatorOf symbol :: more) (.binary symbol l r)
  | summand {tokens : List Token} {e : Expr} :
      Derives .term tokens e → Derives .expression tokens e
  | sum (symbol : String) {tokens more : List Token} {l r : Expr} :
      (symbol = "+" ∨ symbol = "-") → Derives .expression tokens l → Derives .term more r →
        Derives .expression (tokens ++ Token.operatorOf symbol :: more) (.binary symbol l r)

/-- The top of `stack` stays put while a phrase of binding `level` is read: no operator of
precedence at least `level` moves it to the output. -/
def Shelters (level : Nat) (stack : List Token) : Prop :=
  ∀ top ∈ stack.head?, ∀ incoming : Token,
    incoming.BindsAtLeast level → Token.yieldsTo top incoming = false

/-- Reading `tokens` on top of `stack` writes `out` and leaves `pending` waiting above `stack`,
whatever follows. Together they are the post-order of `e`, and every operator left waiting binds at
least as tightly as `level`. -/
def Converts (level : Nat) (tokens : List Token) (e : Expr) (stack : List Token) : Prop :=
  ∃ out pending : List Token, out ++ pending = e.postOrder ∧
    (∀ t ∈ pending, t.BindsAtLeast level) ∧
    ∀ rest, Token.postfixWith (tokens ++ rest) stack =
      out ++ Token.postfixWith rest (pending ++ stack)

theorem precedence?_le_four {symbol : String} {p : Nat} (found : precedence? symbol = some p) :
    p ≤ 4 := by
  grind [precedence?]

theorem eq_power_of_precedence?_eq_three {symbol : String} (found : precedence? symbol = some 3) :
    symbol = Token.power := by
  grind [precedence?, Token.power]

namespace Token

variable {t top incoming : Token} {level level' : Nat}

theorem BindsAtLeast.mono (binds : t.BindsAtLeast level') (lower : level ≤ level') :
    t.BindsAtLeast level := by
  obtain ⟨kind, p, found, above⟩ := binds
  exact ⟨kind, p, found, Nat.le_trans lower above⟩

theorem not_bindsAtLeast_atom (t : Token) : ¬ t.BindsAtLeast Phrase.atom.binding := by
  rintro ⟨-, p, found, above⟩
  have atMostFour := precedence?_le_four found
  simp only [Phrase.binding] at above
  omega

theorem operatorOf_bindsAtLeast {symbol : String} (found : precedence? symbol = some level) :
    (operatorOf symbol).BindsAtLeast level :=
  ⟨rfl, level, found, Nat.le_refl level⟩

theorem yieldsTo_of_bindsAtLeast (binds : top.BindsAtLeast level)
    (incomingFound : precedence? incoming.lexeme = some level) (notPower : incoming.lexeme ≠ power) :
    yieldsTo top incoming = true := by
  obtain ⟨kind, p, found, above⟩ := binds
  simp [yieldsTo, kind, found, incomingFound, notPower, above]

theorem yieldsTo_power (top : Token) : yieldsTo top (operatorOf power) = false := by
  simp [yieldsTo, operatorOf]

/-- An incoming operator moves out exactly the operators `pending` waiting above `stack`, and
then waits on `stack` itself. -/
theorem postfixWith_release {pending stack : List Token} (rest : List Token)
    (kind : incoming.kind = .operator) (yields : ∀ t ∈ pending, yieldsTo t incoming = true)
    (stays : ∀ top ∈ stack.head?, yieldsTo top incoming = false) :
    postfixWith (incoming :: rest) (pending ++ stack) =
      pending ++ postfixWith rest (incoming :: stack) := by
  have stopsAtStack : stack.takeWhile (yieldsTo · incoming) = [] ∧
      stack.dropWhile (yieldsTo · incoming) = stack := by
    cases stack with
    | nil => exact ⟨rfl, rfl⟩
    | cons below _ =>
        have held := stays below rfl
        simp [held]
  simp only [postfixWith, kind, List.takeWhile_append_of_pos yields,
    List.dropWhile_append_of_pos yields, stopsAtStack, List.append_nil]

theorem postfixWith_power (rest stack : List Token) :
    postfixWith (operatorOf power :: rest) stack = postfixWith rest (operatorOf power :: stack) := by
  simpa using @postfixWith_release (operatorOf power) [] stack rest rfl (by simp)
    (fun top _ => yieldsTo_power top)

theorem postfixWith_closing {pending stack : List Token} (rest : List Token)
    (operators : ∀ t ∈ pending, t.kind = .operator) :
    postfixWith (closing :: rest) (pending ++ opening :: stack) =
      pending ++ postfixWith rest stack := by
  have beforeOpening : ∀ t ∈ pending, (t.kind != .openParen) = true := by
    intro t member
    simp [operators t member]
  simp [postfixWith, closing, closeGroup, List.takeWhile_append_of_pos beforeOpening,
    List.dropWhile_append_of_pos beforeOpening, opening]

end Token

namespace Shelters

open Token

variable {stack : List Token} {top : Token} {level level' p : Nat}

theorem nil (level : Nat) : Shelters level [] := by
  simp [Shelters]

theorem mono (sheltered : Shelters level stack) (lower : level ≤ level') :
    Shelters level' stack :=
  fun top member incoming binds => sheltered top member incoming (binds.mono lower)

theorem atom (stack : List Token) : Shelters Phrase.atom.binding stack :=
  fun _ _ incoming binds => absurd binds (not_bindsAtLeast_atom incoming)

theorem opening (level : Nat) (stack : List Token) : Shelters level (Token.opening :: stack) := by
  intro top member incoming _
  simp only [List.head?_cons, Option.mem_def, Option.some.injEq] at member
  subst member
  simp [yieldsTo, Token.opening]

theorem of_precedence (found : precedence? top.lexeme = some p) (below : p < level) :
    Shelters level (top :: stack) := by
  intro waiting member incoming binds
  simp only [List.head?_cons, Option.mem_def, Option.some.injEq] at member
  subst member
  obtain ⟨-, q, incomingFound, above⟩ := binds
  have tighter : ¬ q ≤ p := by omega
  simp [yieldsTo, found, incomingFound, tighter]

theorem power (stack : List Token) :
    Shelters Phrase.power.binding (operatorOf Token.power :: stack) := by
  intro waiting member incoming binds
  simp only [List.head?_cons, Option.mem_def, Option.some.injEq] at member
  subst member
  obtain ⟨-, q, incomingFound, above⟩ := binds
  simp only [Phrase.binding] at above
  by_cases exactlyPower : q = 3
  · subst exactlyPower
    simp [yieldsTo, eq_power_of_precedence?_eq_three incomingFound]
  · have tighter : ¬ q ≤ 3 := by omega
    have powerFound : precedence? (operatorOf Token.power).lexeme = some 3 := by decide
    simp [yieldsTo, powerFound, incomingFound, tighter]

end Shelters

theorem Expr.postOrder_transpose (e : Expr) :
    (Expr.transpose e).postOrder = e.postOrder ++ [Token.operatorOf transposeMark] := rfl

theorem Expr.postOrder_binary (symbol : String) (left right : Expr) :
    (Expr.binary symbol left right).postOrder =
      left.postOrder ++ right.postOrder ++ [Token.operatorOf symbol] := rfl

theorem Expr.postOrder_no_parentheses (e : Expr) :
    ∀ t ∈ e.postOrder, t.kind ≠ .openParen ∧ t.kind ≠ .closeParen := by
  induction e with
  | number lexeme => simp [Expr.postOrder]
  | identifier name => simp [Expr.postOrder]
  | binary symbol left right leftIH rightIH =>
      intro t member
      simp only [Expr.postOrder_binary, List.mem_append, List.mem_singleton] at member
      rcases member with (inLeft | inRight) | rfl
      · exact leftIH t inLeft
      · exact rightIH t inRight
      · simp [Token.operatorOf]
  | transpose operand ih =>
      intro t member
      simp only [Expr.postOrder_transpose, List.mem_append, List.mem_singleton] at member
      rcases member with inOperand | rfl
      · exact ih t inOperand
      · simp [Token.operatorOf]

namespace Converts

open Token

variable {tokens more : List Token} {e l r b x : Expr} {stack : List Token} {level level' : Nat}

theorem mono (converts : Converts level' tokens e stack) (lower : level ≤ level') :
    Converts level tokens e stack := by
  obtain ⟨out, pending, written, binding, run⟩ := converts
  exact ⟨out, pending, written, fun t member => (binding t member).mono lower, run⟩

theorem operand {t : Token} (kind : t.kind = .number ∨ t.kind = .identifier)
    (single : e.postOrder = [t]) : Converts level [t] e stack := by
  refine ⟨[t], [], by simp [single], by simp, fun rest => ?_⟩
  rcases kind with kind | kind <;> simp [postfixWith, kind]

/-- A phrase followed by an operator of its own binding is written out whole before the operator
waits on the stack. -/
theorem release (converts : Converts level tokens e stack) (sheltered : Shelters level stack)
    {symbol : String} (found : precedence? symbol = some level) (notPower : symbol ≠ Token.power)
    (rest : List Token) :
    postfixWith (tokens ++ operatorOf symbol :: rest) stack =
      e.postOrder ++ postfixWith rest (operatorOf symbol :: stack) := by
  obtain ⟨out, pending, written, binding, run⟩ := converts
  have yields : ∀ t ∈ pending, yieldsTo t (operatorOf symbol) = true :=
    fun t member => yieldsTo_of_bindsAtLeast (binding t member) found notPower
  have stays : ∀ top ∈ stack.head?, yieldsTo top (operatorOf symbol) = false :=
    fun top member => sheltered top member _ (operatorOf_bindsAtLeast found)
  rw [run, postfixWith_release rest rfl yields stays, ← written, List.append_assoc]

theorem group
    (inner : ∀ stack, Shelters Phrase.expression.binding stack →
      Converts Phrase.expression.binding tokens e stack)
    (level : Nat) (stack : List Token) :
    Converts level (opening :: (tokens ++ [closing])) e stack := by
  obtain ⟨out, pending, written, binding, run⟩ := inner (opening :: stack) (Shelters.opening _ _)
  refine ⟨e.postOrder, [], List.append_nil _, by simp, fun rest => ?_⟩
  have operators : ∀ t ∈ pending, t.kind = .operator := fun t member => (binding t member).1
  calc postfixWith (opening :: (tokens ++ [closing]) ++ rest) stack
      = postfixWith (tokens ++ closing :: rest) (opening :: stack) := by
        simp [postfixWith, opening]
    _ = out ++ postfixWith (closing :: rest) (pending ++ opening :: stack) := run _
    _ = e.postOrder ++ postfixWith rest ([] ++ stack) := by
        rw [postfixWith_closing rest operators, ← written, List.append_assoc, List.nil_append]

theorem prime (converts : Converts Phrase.primed.binding tokens e stack)
    (sheltered : Shelters Phrase.primed.binding stack) :
    Converts Phrase.primed.binding (tokens ++ [operatorOf transposeMark]) (.transpose e) stack := by
  have markFound : precedence? transposeMark = some Phrase.primed.binding := by decide
  refine ⟨e.postOrder, [operatorOf transposeMark], rfl, ?_, fun rest => ?_⟩
  · intro t member
    rw [List.mem_singleton.mp member]
    exact operatorOf_bindsAtLeast markFound
  · rw [List.append_assoc, List.singleton_append,
      converts.release sheltered markFound (by decide) rest, List.singleton_append]

theorem raise (base : ∀ stack, Converts Phrase.atom.binding tokens b stack)
    (exponent : Converts Phrase.power.binding more x (operatorOf Token.power :: stack)) :
    Converts Phrase.power.binding (tokens ++ operatorOf Token.power :: more)
      (.binary Token.power b x) stack := by
  obtain ⟨outBase, pendingBase, writtenBase, bindingBase, runBase⟩ := base stack
  have nothingWaits : pendingBase = [] :=
    List.eq_nil_iff_forall_not_mem.mpr fun t member =>
      not_bindsAtLeast_atom t (bindingBase t member)
  subst nothingWaits
  obtain ⟨out, pending, written, binding, run⟩ := exponent
  refine ⟨outBase ++ out, pending ++ [operatorOf Token.power], ?_, ?_, fun rest => ?_⟩
  · rw [Expr.postOrder_binary, ← writtenBase, ← written]
    simp
  · intro t member
    rcases List.mem_append.mp member with waiting | isPower
    · exact (binding t waiting).mono (by decide)
    · rw [List.mem_singleton.mp isPower]
      exact operatorOf_bindsAtLeast (by decide)
  · calc postfixWith (tokens ++ operatorOf Token.power :: more ++ rest) stack
        = outBase ++ postfixWith (operatorOf Token.power :: (more ++ rest)) stack := by
          rw [List.append_assoc, List.cons_append, runBase, List.nil_append]
      _ = outBase ++ (out ++ postfixWith rest (pending ++ operatorOf Token.power :: stack)) := by
          rw [postfixWith_power, run]
      _ = outBase ++ out ++ postfixWith rest ((pending ++ [operatorOf Token.power]) ++ stack) := by
          simp

/-- A power of a primed base: the base without its last mark is written, and the mark waits below
the power, so it is written after the power. -/
theorem raisePrimed (base : Converts Phrase.primed.binding tokens b stack)
    (sheltered : Shelters Phrase.primed.binding stack)
    (exponent : Converts Phrase.power.binding more x
      (operatorOf Token.power :: operatorOf transposeMark :: stack)) :
    Converts Phrase.power.binding
      (tokens ++ operatorOf transposeMark :: operatorOf Token.power :: more)
      (.transpose (.binary Token.power b x)) stack := by
  have markFound : precedence? transposeMark = some Phrase.primed.binding := by decide
  obtain ⟨out, pending, written, binding, run⟩ := exponent
  refine ⟨b.postOrder ++ out, pending ++ [operatorOf Token.power, operatorOf transposeMark],
    ?_, ?_, fun rest => ?_⟩
  · rw [Expr.postOrder_transpose, Expr.postOrder_binary, ← written]
    simp
  · intro t member
    simp only [List.mem_append, List.mem_cons, List.not_mem_nil, or_false] at member
    rcases member with waiting | isPower | isMark
    · exact (binding t waiting).mono (by decide)
    · rw [isPower]
      exact operatorOf_bindsAtLeast (by decide)
    · rw [isMark]
      exact (operatorOf_bindsAtLeast markFound).mono (by decide)
  · calc postfixWith (tokens ++ operatorOf transposeMark :: operatorOf Token.power :: more ++ rest)
          stack
        = b.postOrder ++
            postfixWith (operatorOf Token.power :: (more ++ rest))
              (operatorOf transposeMark :: stack) := by
          rw [List.append_assoc, List.cons_append, List.cons_append,
            base.release sheltered markFound (by decide)]
      _ = b.postOrder ++ (out ++ postfixWith rest
            (pending ++ operatorOf Token.power :: operatorOf transposeMark :: stack)) := by
          rw [postfixWith_power, run]
      _ = b.postOrder ++ out ++ postfixWith rest
            ((pending ++ [operatorOf Token.power, operatorOf transposeMark]) ++ stack) := by
          simp

theorem binary {symbol : String} (left : Converts level tokens l stack)
    (sheltered : Shelters level stack) (found : precedence? symbol = some level)
    (notPower : symbol ≠ Token.power)
    (right : Converts (level + 1) more r (operatorOf symbol :: stack)) :
    Converts level (tokens ++ operatorOf symbol :: more) (.binary symbol l r) stack := by
  obtain ⟨out, pending, written, binding, run⟩ := right
  refine ⟨l.postOrder ++ out, pending ++ [operatorOf symbol], ?_, ?_, fun rest => ?_⟩
  · rw [Expr.postOrder_binary, ← written]
    simp
  · intro t member
    rcases List.mem_append.mp member with waiting | isOperator
    · exact (binding t waiting).mono (Nat.le_succ level)
    · rw [List.mem_singleton.mp isOperator]
      exact operatorOf_bindsAtLeast found
  · rw [List.append_assoc, List.cons_append, left.release sheltered found notPower, run]
    simp

end Converts

theorem Derives.converts {phrase : Phrase} {tokens : List Token} {e : Expr}
    (derives : Derives phrase tokens e) :
    ∀ stack, Shelters phrase.binding stack → Converts phrase.binding tokens e stack := by
  induction derives with
  | number lexeme => exact fun _ _ => Converts.operand (.inl rfl) rfl
  | identifier name => exact fun _ _ => Converts.operand (.inr rfl) rfl
  | group _ inner => exact fun stack _ => Converts.group inner _ stack
  | unprimed _ atom =>
      exact fun stack _ => (atom stack (Shelters.atom stack)).mono (by decide)
  | prime _ primed => exact fun stack sheltered => (primed stack sheltered).prime sheltered
  | base _ primed =>
      intro stack sheltered
      exact (primed stack (sheltered.mono (by decide))).mono (by decide)
  | raise _ _ atom exponent =>
      intro stack _
      exact Converts.raise (fun below => atom below (Shelters.atom below))
        (exponent _ (Shelters.power stack))
  | raisePrimed _ _ primed exponent =>
      intro stack sheltered
      have primedSheltered := sheltered.mono (show 3 ≤ 4 by decide)
      exact Converts.raisePrimed (primed stack primedSheltered) primedSheltered
        (exponent _ (Shelters.power _))
  | factor _ power =>
      intro stack sheltered
      exact (power stack (sheltered.mono (by decide))).mono (by decide)
  | product symbol isProduct _ _ term power =>
      intro stack sheltered
      have found : precedence? symbol = some Phrase.term.binding := by
        rcases isProduct with rfl | rfl <;> decide
      have notPower : symbol ≠ Token.power := by
        rcases isProduct with rfl | rfl <;> decide
      exact Converts.binary (term stack sheltered) sheltered found notPower
        (power _ (Shelters.of_precedence found (by decide)))
  | summand _ term =>
      intro stack sheltered
      exact (term stack (sheltered.mono (by decide))).mono (by decide)
  | sum symbol isSum _ _ expression term =>
      intro stack sheltered
      have found : precedence? symbol = some Phrase.expression.binding := by
        rcases isSum with rfl | rfl <;> decide
      have notPower : symbol ≠ Token.power := by
        rcases isSum with rfl | rfl <;> decide
      exact Converts.binary (expression stack sheltered) sheltered found notPower
        (term _ (Shelters.of_precedence found (by decide)))

theorem Derives.toPostfix {tokens : List Token} {e : Expr} (derives : Derives .expression tokens e) :
    Token.toPostfix tokens = e.postOrder := by
  obtain ⟨out, pending, written, -, run⟩ := derives.converts [] (Shelters.nil _)
  simpa [Token.toPostfix, Token.postfixWith, written] using run []

/-- Postfix conversion of an expression of the grammar gives the post-order of its parse tree, so
no parenthesis is left in it. -/
theorem toPostfix_eq_postOrder {tokens : List Token} {e : Expr}
    (derives : Derives .expression tokens e) :
    Token.toPostfix tokens = e.postOrder ∧
      ∀ t ∈ Token.toPostfix tokens, t.kind ≠ .openParen ∧ t.kind ≠ .closeParen := by
  have converted := derives.toPostfix
  exact ⟨converted, converted ▸ e.postOrder_no_parentheses⟩

theorem toPostfix_primed_power :
    Derives .expression
        [⟨.identifier, "X"⟩, ⟨.operator, "*"⟩, ⟨.identifier, "A"⟩, ⟨.operator, "'"⟩,
          ⟨.operator, "^"⟩, ⟨.number, "2"⟩, ⟨.operator, "-"⟩, ⟨.identifier, "B"⟩]
        (.binary "-"
          (.binary "*" (.identifier "X")
            (.transpose (.binary "^" (.identifier "A") (.number "2"))))
          (.identifier "B")) ∧
      Token.toPostfix
          [⟨.identifier, "X"⟩, ⟨.operator, "*"⟩, ⟨.identifier, "A"⟩, ⟨.operator, "'"⟩,
            ⟨.operator, "^"⟩, ⟨.number, "2"⟩, ⟨.operator, "-"⟩, ⟨.identifier, "B"⟩] =
        [⟨.identifier, "X"⟩, ⟨.identifier, "A"⟩, ⟨.number, "2"⟩, ⟨.operator, "^"⟩,
          ⟨.operator, "'"⟩, ⟨.operator, "*"⟩, ⟨.identifier, "B"⟩, ⟨.operator, "-"⟩] := by
  have derives : Derives .expression
      [⟨.identifier, "X"⟩, ⟨.operator, "*"⟩, ⟨.identifier, "A"⟩, ⟨.operator, "'"⟩,
        ⟨.operator, "^"⟩, ⟨.number, "2"⟩, ⟨.operator, "-"⟩, ⟨.identifier, "B"⟩]
      (.binary "-"
        (.binary "*" (.identifier "X")
          (.transpose (.binary "^" (.identifier "A") (.number "2"))))
        (.identifier "B")) :=
    .sum "-" (.inr rfl)
      (.summand (.product "*" (.inl rfl)
        (.factor (.base (.unprimed (.identifier "X"))))
        (.raisePrimed (.unprimed (.identifier "A")) (.base (.unprimed (.number "2"))))))
      (.factor (.base (.unprimed (.identifier "B"))))
  exact ⟨derives, (toPostfix_eq_postOrder derives).1⟩

end MatrixSteps
