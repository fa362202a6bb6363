import MatrixSteps.Proofs.WholeMatrix
import MatrixSteps.Proofs.StackMachine
import MatrixSteps.Proofs.PostfixOrder
import MatrixSteps.Proofs.FaultTaxonomy

/-!
Evaluating expressions over whole numbers, from the text to the trace.

An expression of the grammar has a parse tree (`Derives`); its tokens convert to the tree's
post-order, and the stack machine runs the post-order as the tree evaluates. Over inputs whose cells
are whole numbers, the tree evaluates to values that hold its whole-number values
(`Expr.eval_holds`), as long as every value formed stays within `2 ^ 53`. So `evaluate` succeeds,
and its final matrix holds the exact result (`evaluate_holds_exact`).

The bound covers the literals too: a numeral is read as the double nearest to it, so two literals
beyond `2 ^ 53` that differ by one may be read as the same double (`evaluate_rounds_wide_literals`).
-/

namespace MatrixSteps

theorem Text.not_digit_of_blank {c : Char} (blank : Text.isBlank c = true) :
    c.isDigit = false ∧ c.isAlpha = false ∧ Token.symbolKind? c = none := by
  simp [Text.isBlank, Text.blankRanges] at blank
  have code : c.val.toNat = c.toNat := rfl
  refine ⟨?_, ?_, ?_⟩
  · simp [Char.isDigit, UInt32.le_iff_toNat_le, code]
    omega
  · simp [Char.isAlpha, Char.isUpper, Char.isLower, UInt32.le_iff_toNat_le, code]
    omega
  · simp only [Token.symbolKind?]
    split_ifs with opening closing symbol
    · subst opening; simp at blank
    · subst closing; simp at blank
    · simp only [Bool.or_eq_true, decide_eq_true_eq] at symbol
      rcases symbol with ((((((h | h) | h) | h) | h) | h) | h) <;> subst h <;> simp at blank
    · rfl

theorem Token.scan_blank (cs : List Char) (blank : cs.all Text.isBlank = true) :
    Token.scan cs = [] := by
  induction cs with
  | nil => rw [Token.scan]
  | cons c rest ih =>
      simp only [List.all_cons, Bool.and_eq_true] at blank
      obtain ⟨digit, alpha, symbol⟩ := Text.not_digit_of_blank blank.1
      rw [Token.scan]
      simp only [digit, alpha, symbol, Bool.false_eq_true, if_false]
      exact ih blank.2

theorem Derives.ne_nil {phrase : Phrase} {tokens : List Token} {e : Expr}
    (derives : Derives phrase tokens e) : tokens ≠ [] := by
  induction derives with
  | number => simp
  | identifier => simp
  | group => simp
  | unprimed _ ih => exact ih
  | prime => simp
  | base _ ih => exact ih
  | raise => simp
  | raisePrimed => simp
  | factor _ ih => exact ih
  | product => simp
  | summand _ ih => exact ih
  | sum => simp

theorem Derives.not_blank {s : String} {e : Expr} (derives : Derives .expression (Token.ofString s) e) :
    Text.isBlankText s = false := by
  cases blank : Text.isBlankText s with
  | false => rfl
  | true => exact absurd (Token.scan_blank s.toList blank) derives.ne_nil

theorem Derives.markUnary {phrase : Phrase} {tokens : List Token} {e : Expr}
    (derives : Derives phrase tokens e) : e.MarkUnary := by
  induction derives with
  | number => trivial
  | identifier => trivial
  | group _ ih => exact ih
  | unprimed _ ih => exact ih
  | prime _ ih => exact ih
  | base _ ih => exact ih
  | raise _ _ base exponent => exact ⟨by decide, base, exponent⟩
  | raisePrimed _ _ base exponent => exact ⟨by decide, base, exponent⟩
  | factor _ ih => exact ih
  | product symbol isProduct _ _ left right =>
      exact ⟨by rcases isProduct with rfl | rfl <;> decide, left, right⟩
  | summand _ ih => exact ih
  | sum symbol isSum _ _ left right =>
      exact ⟨by rcases isSum with rfl | rfl <;> decide, left, right⟩

theorem ok_of_bind_eq_ok {ε α β : Type} {x : Except ε α} {f : α → Except ε β} {b : β}
    (bound : (x >>= f) = .ok b) : ∃ a, x = .ok a ∧ f a = .ok b := by
  cases x with
  | error fault => cases bound
  | ok a => exact ⟨a, rfl, bound⟩

namespace Expr

theorem handOut_value (next : Nat) (p : Produced) : (handOut next p).2.value = p.result := by
  obtain ⟨along, result⟩ := p
  cases result <;> rfl

theorem handOut_last (next : Nat) (p : Produced) {e : Entry} (result : (handOut next p).2 = .matrix e) :
    (handOut next p).1.getLast? = some e := by
  obtain ⟨along, result'⟩ := p
  cases result' with
  | scalar x => cases result
  | matrix m =>
      simp only [handOut, Operand.matrix.injEq] at result
      simp [handOut, ← result]

variable {limits : Limits} {inputs : List Entry} {table : VariableTable}

theorem eval_matrix_last (e : Expr) {next : Nat} {final : Entry} {trace : List Entry}
    (evaluated : e.eval limits inputs table next = .ok (.matrix final, trace)) :
    (trace = [] ∧ ∃ name, e = .identifier name) ∨ trace.getLast? = some final := by
  cases e with
  | number lexeme =>
      simp only [eval] at evaluated
      cases value : Machine.numberValue lexeme <;> rw [value] at evaluated <;> cases evaluated
  | identifier name =>
      simp only [eval] at evaluated
      split at evaluated
      next => cases evaluated; exact .inl ⟨rfl, name, rfl⟩
      next => cases evaluated
  | binary symbol left right =>
      rw [eval_binary] at evaluated
      obtain ⟨⟨a, leftTrace⟩, -, evaluated⟩ := ok_of_bind_eq_ok evaluated
      obtain ⟨⟨b, rightTrace⟩, -, evaluated⟩ := ok_of_bind_eq_ok evaluated
      obtain ⟨p, -, evaluated⟩ := ok_of_bind_eq_ok evaluated
      simp only [pure, Except.pure, Except.ok.injEq, Prod.mk.injEq] at evaluated
      obtain ⟨result, rfl⟩ := evaluated
      right
      rw [List.getLast?_append, handOut_last _ _ result]
      rfl
  | transpose operand =>
      rw [eval_transpose] at evaluated
      obtain ⟨⟨a, operandTrace⟩, -, evaluated⟩ := ok_of_bind_eq_ok evaluated
      obtain ⟨v, -, evaluated⟩ := ok_of_bind_eq_ok evaluated
      simp only [pure, Except.pure, Except.ok.injEq, Prod.mk.injEq] at evaluated
      obtain ⟨result, rfl⟩ := evaluated
      right
      rw [List.getLast?_append, handOut_last _ _ result]
      rfl

end Expr

theorem Machine.operate_holds {symbol : String} {op : Operator} {a b : Operand} {va vb v : IntValue}
    (found : Operator.ofSymbol? symbol = some op) (first : a.value.Holds va)
    (second : b.value.Holds vb) (exact : IntValue.apply op va vb = some v) :
    ∃ p, Machine.operate {} symbol a b = .ok p ∧ p.result.Holds v := by
  obtain ⟨p, applied, holds⟩ := Operator.apply_holds op first second exact
  have unlimited : Machine.checkExponent {} a b = .ok () := rfl
  refine ⟨p, ?_, holds⟩
  by_cases isPower : op = .power
  · subst isPower
    simp [Machine.operate, found, unlimited, applied, ok_bind]
  · simp [Machine.operate, found, isPower, applied]

section Evaluation

variable {inputs : List Entry} {table : VariableTable}

theorem exactInputs_holds (integral : ∀ entry ∈ inputs, entry.matrix.Integral) {name : String}
    {A : IntMatrix} (found : exactInputs table inputs name = some A) :
    ∃ entry, ((table.resolve? name).bind fun position => inputs[position]?) = some entry ∧
      entry.matrix.Holds A := by
  obtain ⟨entry, located, rfl⟩ := Option.map_eq_some_iff.mp found
  obtain ⟨position, -, listed⟩ := Option.bind_eq_some_iff.mp located
  exact ⟨entry, located, Matrix.holds_ofMatrix (integral entry (List.mem_of_getElem? listed))⟩

/-- Evaluating a tree whose whole-number value exists, without limits, gives a value that holds it.
The induction follows the tree; each node combines its operands' values by the lemma of its
operator. -/
theorem Expr.eval_holds (integral : ∀ entry ∈ inputs, entry.matrix.Integral) (e : Expr) (next : Nat)
    {v : IntValue} (exact : e.exact (exactInputs table inputs) = some v) :
    ∃ a trace, e.eval {} inputs table next = .ok (a, trace) ∧ a.value.Holds v := by
  induction e generalizing next v with
  | number lexeme =>
      simp only [Expr.exact] at exact
      split at exact
      next n read =>
        obtain ⟨k, value, rfl⟩ := Option.map_eq_some_iff.mp exact
        obtain ⟨k', whole, within⟩ := Option.bind_eq_some_iff.mp value
        obtain ⟨rfl, bounded⟩ := withinBound_eq_some within
        exact ⟨.scalar n.toFloat, [], by simp [Expr.eval, Machine.numberValue, FloatLiteral.read?, read],
          Whole.numeral whole bounded⟩
      next => cases exact
  | identifier name =>
      obtain ⟨A, found, rfl⟩ := Option.map_eq_some_iff.mp exact
      obtain ⟨entry, located, holds⟩ := exactInputs_holds integral found
      exact ⟨.matrix entry, [], by simp [Expr.eval, located], holds⟩
  | binary symbol left right leftIH rightIH =>
      simp only [Expr.exact, Option.bind_eq_bind, Option.bind_eq_some_iff] at exact
      obtain ⟨va, leftExact, vb, rightExact, op, found, applied⟩ := exact
      obtain ⟨a, leftTrace, leftEval, leftHolds⟩ := leftIH next leftExact
      obtain ⟨b, rightTrace, rightEval, rightHolds⟩ :=
        rightIH (next + leftTrace.length) rightExact
      obtain ⟨p, operated, holds⟩ := Machine.operate_holds found leftHolds rightHolds applied
      let handed := Expr.handOut (next + leftTrace.length + rightTrace.length) p
      refine ⟨handed.2, leftTrace ++ rightTrace ++ handed.1, ?_, ?_⟩
      · rw [Expr.eval_binary, leftEval, ok_bind]
        dsimp only
        rw [rightEval, ok_bind]
        dsimp only
        rw [operated, ok_bind]
        rfl
      · rw [Expr.handOut_value]
        exact holds
  | transpose operand ih =>
      simp only [Expr.exact, Option.bind_eq_bind, Option.bind_eq_some_iff] at exact
      obtain ⟨va, operandExact, transposed⟩ := exact
      obtain ⟨a, trace, evaluated, holds⟩ := ih next operandExact
      rcases holds.cases with ⟨x, k, -, rfl, -⟩ | ⟨m, A, isMatrix, rfl, matrixHolds⟩
      · cases transposed
      · cases transposed
        let handed := Expr.handOut (next + trace.length) (.single (.matrix m.transpose))
        refine ⟨handed.2, trace ++ handed.1, ?_, ?_⟩
        · rw [Expr.eval_transpose, evaluated, ok_bind]
          dsimp only
          rw [isMatrix]
          rfl
        · rw [Expr.handOut_value]
          exact transpose_holds matrixHolds

end Evaluation

/-- Evaluating the post-order of a tree that evaluates to a matrix gives that matrix and the
tree's trace. -/
theorem evaluatePostfix_of_eval {limits : Limits} {inputs : List Entry} {table : VariableTable}
    {e : Expr} (marks : e.MarkUnary) (firstSerial : Nat) (named : inputTable inputs = .ok table)
    {final : Entry} {trace : List Entry}
    (evaluated : e.eval limits inputs table firstSerial = .ok (.matrix final, trace)) :
    evaluatePostfix limits inputs firstSerial e.postOrder = .ok ⟨trace, final⟩ := by
  have run := @Machine.run_postOrder limits inputs table e marks ⟨[], [], firstSerial⟩ []
  rw [List.append_nil] at run
  unfold evaluatePostfix
  rw [named, ok_bind, run, evaluated, ok_bind]
  simp [ok_bind, Machine.run, Machine.settle, pure, Except.pure]

/-- An expression of the grammar, over inputs whose cells are whole numbers, evaluates exactly
when its whole-number value is a matrix and every number, cell, product and partial sum it forms is
at most `2 ^ 53` in magnitude: without limits the evaluation succeeds, its final matrix holds the
whole-number value, and that matrix is the last entry of the trace unless the expression is an
identifier alone. -/
theorem evaluate_holds_exact {s : String} {e : Expr} {inputs : List Entry} {M : IntMatrix}
    (firstSerial : Nat) (derives : Derives .expression (Token.ofString s) e)
    (fits : inputs.length ≤ VariableTable.letteredPositions)
    (integral : ∀ entry ∈ inputs, entry.matrix.Integral)
    (exact : e.exact (exactInputs (VariableTable.ofNames (inputs.map (·.matrix.name))) inputs) =
      some (.matrix M)) :
    ∃ ev, evaluate {} inputs firstSerial s = .ok ev ∧ ev.final.matrix.Holds M ∧
      ((ev.trace = [] ∧ ∃ name, e = .identifier name) ∨ ev.trace.getLast? = some ev.final) := by
  obtain ⟨a, trace, evaluated, holds⟩ := e.eval_holds integral firstSerial exact
  rcases holds.cases with ⟨x, k, -, ⟨⟩, -⟩ | ⟨m, A, isMatrix, ⟨⟩, matrixHolds⟩
  cases a with
  | scalar x => cases isMatrix
  | matrix final =>
      obtain rfl : final.matrix = m := Value.matrix.inj isMatrix
      have run := evaluatePostfix_of_eval derives.markUnary firstSerial (inputTable_of_fits fits)
        evaluated
      refine ⟨⟨trace, final⟩, ?_, matrixHolds, e.eval_matrix_last evaluated⟩
      rw [evaluate_eq, if_neg (by simp [derives.not_blank]), derives.toPostfix]
      exact run

theorem evaluate_doubled_matrix :
    Derives .expression (Token.ofString "2*A") (.binary "*" (.number "2") (.identifier "A")) ∧
      ∃ ev, evaluate {} [⟨.given "a", ⟨"A", 1, 1, [[3.0]], none⟩⟩] 0 "2*A" = .ok ev ∧
        ev.final.matrix.Holds ⟨1, 1, [[6]]⟩ ∧
        ((ev.trace = [] ∧ ∃ name, Expr.binary "*" (.number "2") (.identifier "A") = .identifier name) ∨
          ev.trace.getLast? = some ev.final) := by
  have tokens : Token.ofString "2*A" = [⟨.number, "2"⟩, ⟨.operator, "*"⟩, ⟨.identifier, "A"⟩] := by
    decide +kernel
  have derives : Derives .expression (Token.ofString "2*A")
      (.binary "*" (.number "2") (.identifier "A")) := by
    rw [tokens]
    exact .summand (.product "*" (.inl rfl) (.factor (.base (.unprimed (.number "2"))))
      (.base (.unprimed (.identifier "A"))))
  exact ⟨derives, evaluate_holds_exact 0 derives (by decide) (by decide +kernel) (by decide +kernel)⟩

/-- Literals are read as doubles: two literals beyond `2 ^ 53` whose difference is one are read as
the same double, so the difference times a matrix of one is a matrix of zero. -/
theorem evaluate_rounds_wide_literals :
    Derives .expression (Token.ofString "(9007199254740993-9007199254740992)*A")
        (.binary "*" (.binary "-" (.number "9007199254740993") (.number "9007199254740992"))
          (.identifier "A")) ∧
      (FloatLiteral.numeral? "9007199254740993").bind Numeral.wholeValue? = some 9007199254740993 ∧
      (FloatLiteral.numeral? "9007199254740992").bind Numeral.wholeValue? = some 9007199254740992 ∧
      ((evaluate {} [⟨.given "a", ⟨"A", 1, 1, [[1.0]], none⟩⟩] 0
          "(9007199254740993-9007199254740992)*A").toOption.bind (·.trace.getLast?)).map
        (fun last => (Binary.parts (last.matrix.cell 0 0)).toInt?) = some (some 0) := by
  have tokens : Token.ofString "(9007199254740993-9007199254740992)*A" =
      [⟨.openParen, "("⟩, ⟨.number, "9007199254740993"⟩, ⟨.operator, "-"⟩,
        ⟨.number, "9007199254740992"⟩, ⟨.closeParen, ")"⟩, ⟨.operator, "*"⟩,
        ⟨.identifier, "A"⟩] := by
    decide +kernel
  have difference : Derives .expression
      [⟨.number, "9007199254740993"⟩, ⟨.operator, "-"⟩, ⟨.number, "9007199254740992"⟩]
      (.binary "-" (.number "9007199254740993") (.number "9007199254740992")) :=
    .sum "-" (.inr rfl) (.summand (.factor (.base (.unprimed (.number _)))))
      (.factor (.base (.unprimed (.number _))))
  refine ⟨?_, by decide, by decide, by decide +kernel⟩
  rw [tokens]
  exact .summand (.product "*" (.inl rfl) (.factor (.base (.unprimed (.group difference))))
    (.base (.unprimed (.identifier "A"))))

end MatrixSteps
