import Mathlib
import MatrixSteps.Proofs.WholeEvaluation

/-!
The stack discipline of evaluation, on every token list: postfix of any shape, unbalanced
parentheses left in it, any inputs and any table of names.

A token's arity says what it needs on the stack and leaves there (`Token.countStep`): a number or a
name needs nothing and adds one value, the transpose mark needs one and keeps one, every other
operator needs two and leaves one, and parentheses change nothing. While the machine has raised
nothing, its stack holds as many values as the arities count (`Machine.run_stack_length`). A token
raises a missing operand exactly when it finds fewer than it needs (`Machine.step_missing_iff`):
every other fault comes from the values themselves, never from their number.

The trace of a successful evaluation ends in its result whenever an operator ran. After the last
operator nothing is taken off the stack, so the one value left is that operator's result, and the
machine traced it last.
-/

namespace MatrixSteps

namespace Token

/-- The number of values on the stack after `t`, from `depth` before it, if `t` finds the values it
needs. -/
def countStep (depth : Nat) (t : Token) : Option Nat :=
  match t.kind with
  | .number | .identifier => some (depth + 1)
  | .operator =>
      if t.lexeme = transposeMark then (if 1 ≤ depth then some depth else none)
      else if 2 ≤ depth then some (depth - 1) else none
  | .openParen | .closeParen => some depth

/-- The number of values on the stack after `tokens`, from `depth`, or `none` from the first token
that finds too few. -/
def operandCount (depth : Nat) : List Token → Option Nat
  | [] => some depth
  | t :: rest => (countStep depth t).bind (operandCount · rest)

theorem operandCount_append (depth : Nat) (first second : List Token) :
    operandCount depth (first ++ second) =
      (operandCount depth first).bind (operandCount · second) := by
  induction first generalizing depth with
  | nil => rfl
  | cons t rest ih =>
      simp only [List.cons_append, operandCount]
      cases countStep depth t with
      | none => rfl
      | some d => exact ih d

end Token

/-! ### What one step does -/

theorem error_of_map_eq_error {ε α β : Type} {g : α → β} {x : Except ε α} {e : ε}
    (failed : g <$> x = .error e) : x = .error e := by
  cases x with
  | ok a => cases failed
  | error e' => cases failed; rfl

theorem error_of_bind_pure_eq_error {ε α β : Type} {g : α → β} {x : Except ε α} {e : ε}
    (failed : (x >>= fun a => pure (g a)) = .error e) : x = .error e := by
  cases x with
  | ok a => cases failed
  | error e' => cases failed; rfl

namespace Operator

theorem combine_error_kind {kind : Combination} {a b : Value} {f : Fault}
    (failed : combine kind a b = .error f) :
    f.kind = "ScalarMatrixAdditionUnsupported" ∨ f.kind = "DimensionMismatch" := by
  unfold combine at failed
  split at failed
  · cases failed
  · split at failed
    · cases failed
      exact .inr rfl
    · split at failed <;> cases failed
  · cases failed
    exact .inl rfl

theorem raise_error_kind {a b : Value} {f : Fault} (failed : raise a b = .error f) :
    f.kind = "PowerOperandTypeError" ∨ f.kind = "DimensionMismatch" ∨
      f.kind = "InvalidExponent" := by
  unfold raise at failed
  split at failed
  · have counted := error_of_bind_pure_eq_error failed
    unfold Matrix.powerCount at counted
    split at counted
    · cases counted
      exact .inr (.inl rfl)
    · split at counted <;> cases counted
      exact .inr (.inr rfl)
  · cases failed
    exact .inl rfl

/-- An operator's faults are about the values it is applied to: their kinds, shapes and
exponents. -/
theorem apply_error_kind {op : Operator} {a b : Value} {f : Fault}
    (failed : op.apply a b = .error f) :
    f.kind = "ScalarMatrixAdditionUnsupported" ∨ f.kind = "DimensionMismatch" ∨
      f.kind = "PowerOperandTypeError" ∨ f.kind = "InvalidExponent" := by
  cases op with
  | plus | minus =>
      simp only [apply] at failed
      rcases combine_error_kind (error_of_map_eq_error failed) with kind | kind <;> simp [kind]
  | times =>
      simp only [apply] at failed
      have multiplied := error_of_map_eq_error failed
      unfold multiply at multiplied
      split at multiplied <;> try cases multiplied
      unfold Matrix.product at multiplied
      split at multiplied <;> cases multiplied
      exact .inr (.inl rfl)
  | power =>
      rcases raise_error_kind failed with kind | kind | kind <;> simp [kind]

end Operator

namespace Machine

variable {limits : Limits} {inputs : List Entry} {table : VariableTable}

theorem step_cases {s s' : Machine} {t : Token} (stepped : step limits inputs table s t = .ok s') :
    ((t.kind = .number ∨ t.kind = .identifier) ∧ ∃ v, s' = { s with stack := v :: s.stack }) ∨
      ((t.kind = .openParen ∨ t.kind = .closeParen) ∧ s' = s) ∨
      (t.kind = .operator ∧ ∃ below p, s' = record ⟨below, s.trace, s.next⟩ p ∧
        ((t.lexeme = transposeMark ∧ ∃ a, s.stack = a :: below) ∨
          (t.lexeme ≠ transposeMark ∧ ∃ a b, s.stack = b :: a :: below))) := by
  obtain ⟨kind, lexeme⟩ := t
  obtain ⟨stack, trace, next⟩ := s
  cases kind with
  | number =>
      obtain ⟨x, -, rfl⟩ := step_number_ok stepped
      exact .inl ⟨.inl rfl, _, rfl⟩
  | identifier =>
      simp only [step] at stepped
      split at stepped
      · exact .inl ⟨.inr rfl, _, (Except.ok.inj stepped).symm⟩
      · cases stepped
  | openParen => exact .inr (.inl ⟨.inl rfl, (Except.ok.inj stepped).symm⟩)
  | closeParen => exact .inr (.inl ⟨.inr rfl, (Except.ok.inj stepped).symm⟩)
  | operator =>
      refine .inr (.inr ⟨rfl, ?_⟩)
      by_cases isMark : lexeme = transposeMark
      · subst isMark
        cases stack with
        | nil => simp [step] at stepped
        | cons a below =>
            rw [step_transpose] at stepped
            obtain ⟨v, -, recorded⟩ := ok_of_bind_eq_ok stepped
            exact ⟨below, _, (Except.ok.inj recorded).symm, .inl ⟨rfl, a, rfl⟩⟩
      · rcases stack with _ | ⟨b, _ | ⟨a, below⟩⟩
        · simp [step, isMark] at stepped
        · simp [step, isMark] at stepped
        · rw [step_binary _ _ _ isMark] at stepped
          obtain ⟨produced, -, recorded⟩ := ok_of_bind_eq_ok stepped
          exact ⟨below, _, (Except.ok.inj recorded).symm, .inr ⟨isMark, a, b, rfl⟩⟩

theorem record_top (s : Machine) (p : Produced) :
    (s.record p).stack = (Expr.handOut s.next p).2 :: s.stack ∧
      ∀ e, (Expr.handOut s.next p).2 = .matrix e → (s.record p).trace.head? = some e := by
  rw [record_eq_settle]
  refine ⟨rfl, fun e result => ?_⟩
  simp [settle, List.head?_reverse, Expr.handOut_last _ _ result]

theorem step_stack_length {s s' : Machine} {t : Token}
    (stepped : step limits inputs table s t = .ok s') :
    Token.countStep s.stack.length t = some s'.stack.length := by
  rcases step_cases stepped with ⟨kind, v, rfl⟩ | ⟨kind, rfl⟩ | ⟨kind, below, p, rfl, operands⟩
  · rcases kind with kind | kind <;> simp [Token.countStep, kind]
  · rcases kind with kind | kind <;> simp [Token.countStep, kind]
  · rw [(record_top _ p).1]
    rcases operands with ⟨isMark, a, stacked⟩ | ⟨notMark, a, b, stacked⟩
    · simp [Token.countStep, kind, isMark, stacked]
    · simp [Token.countStep, kind, notMark, stacked]

theorem run_stack_length {s s' : Machine} {tokens : List Token}
    (ran : run limits inputs table s tokens = .ok s') :
    Token.operandCount s.stack.length tokens = some s'.stack.length := by
  induction tokens generalizing s with
  | nil => cases ran; rfl
  | cons t rest ih =>
      rw [run_cons] at ran
      obtain ⟨m, stepped, later⟩ := ok_of_bind_eq_ok ran
      rw [Token.operandCount, step_stack_length stepped, Option.bind_some]
      exact ih later

theorem checkExponent_isLimitFault {a b : Operand} {f : Fault}
    (failed : checkExponent limits a b = .error f) : f.isLimitFault = true := by
  unfold checkExponent at failed
  split at failed
  · split at failed
    · rw [← Except.error.inj failed]
      exact Fault.writingLimit_isLimitFault rfl
    · cases failed
  · cases failed

theorem operate_error_kind {symbol : String} {a b : Operand} {f : Fault}
    (failed : operate limits symbol a b = .error f) : f.kind ≠ "MissingOperand" := by
  have applied : ∀ {op : Operator}, op.apply a.value b.value = .error f →
      f.kind ≠ "MissingOperand" := fun failed => by
    rcases Operator.apply_error_kind failed with kind | kind | kind | kind <;> simp [kind]
  unfold operate at failed
  split at failed
  · cases failed
    simp [Fault.kind]
  · next op _ =>
      by_cases isPower : op = .power
      · subst isPower
        simp only [beq_self_eq_true, if_true] at failed
        cases checked : checkExponent limits a b with
        | error g =>
            rw [checked] at failed
            cases failed
            rcases Fault.kind_of_isLimitFault (checkExponent_isLimitFault checked) with kind | rfl
            · simp [kind]
            · simp [Fault.kind]
        | ok u =>
            rw [checked, ok_bind] at failed
            exact applied failed
      · simp only [beq_iff_eq, isPower, if_false] at failed
        exact applied failed

theorem step_missing_iff (s : Machine) (t : Token) :
    (∃ f, step limits inputs table s t = .error f ∧ f.kind = "MissingOperand") ↔
      Token.countStep s.stack.length t = none := by
  obtain ⟨kind, lexeme⟩ := t
  obtain ⟨stack, trace, next⟩ := s
  cases kind with
  | number =>
      simp only [Token.countStep, reduceCtorEq, iff_false, not_exists, not_and]
      intro f failed
      simp only [step] at failed
      rw [(numberValue_error (error_of_bind_pure_eq_error failed)).1]
      simp [Fault.kind]
  | openParen => simp [step, Token.countStep]
  | closeParen => simp [step, Token.countStep]
  | identifier =>
      simp only [step, Token.countStep, reduceCtorEq, iff_false, not_exists, not_and]
      intro f failed
      split at failed
      · cases failed
      · cases failed
        simp [Fault.kind]
  | operator =>
      by_cases isMark : lexeme = transposeMark
      · subst isMark
        cases stack with
        | nil => simp [step, Token.countStep, Fault.kind]
        | cons a below =>
            have enough : Token.countStep (a :: below).length ⟨.operator, transposeMark⟩ =
                some (below.length + 1) := by
              simp [Token.countStep]
            simp only [enough, reduceCtorEq, iff_false, not_exists]
            rintro f ⟨failed, missing⟩
            rw [step_transpose] at failed
            have transposed := error_of_bind_pure_eq_error failed
            cases a with
            | scalar x =>
                cases transposed
                simp [Fault.kind] at missing
            | matrix e => cases transposed
      · rcases stack with _ | ⟨b, _ | ⟨a, below⟩⟩
        · simp [step, Token.countStep, isMark, Fault.kind]
        · simp [step, Token.countStep, isMark, Fault.kind]
        · have enough : Token.countStep (b :: a :: below).length ⟨.operator, lexeme⟩ =
              some (below.length + 1) := by
            simp [Token.countStep, isMark]
          simp only [enough, reduceCtorEq, iff_false, not_exists]
          rintro f ⟨failed, missing⟩
          rw [step_binary _ _ _ isMark] at failed
          exact operate_error_kind (error_of_bind_pure_eq_error failed) missing

theorem run_singleton (s : Machine) (t : Token) :
    run limits inputs table s [t] = step limits inputs table s t := by
  rw [run_cons]
  cases step limits inputs table s t <;> rfl

theorem run_without_operators {s s' : Machine} {tokens : List Token}
    (unoperated : ∀ t ∈ tokens, t.kind ≠ .operator)
    (ran : run limits inputs table s tokens = .ok s') :
    s'.trace = s.trace ∧ ∃ pushed, s'.stack = pushed ++ s.stack := by
  induction tokens generalizing s with
  | nil =>
      cases ran
      exact ⟨rfl, [], rfl⟩
  | cons t rest ih =>
      rw [run_cons] at ran
      obtain ⟨m, stepped, later⟩ := ok_of_bind_eq_ok ran
      obtain ⟨kept, pushed, stacked⟩ := ih (fun u member => unoperated u (.tail t member)) later
      rcases step_cases stepped with ⟨-, v, rfl⟩ | ⟨-, rfl⟩ | ⟨isOperator, -⟩
      · exact ⟨kept, pushed ++ [v], by simp [stacked]⟩
      · exact ⟨kept, pushed, stacked⟩
      · exact absurd isOperator (unoperated t List.mem_cons_self)

theorem exists_last_operator {tokens : List Token} (operated : ∃ t ∈ tokens, t.kind = .operator) :
    ∃ front t back, tokens = front ++ t :: back ∧ t.kind = .operator ∧
      ∀ u ∈ back, u.kind ≠ .operator := by
  induction tokens with
  | nil => simp at operated
  | cons u rest ih =>
      by_cases later : ∃ t ∈ rest, t.kind = .operator
      · obtain ⟨front, t, back, rfl, isOperator, after⟩ := ih later
        exact ⟨u :: front, t, back, rfl, isOperator, after⟩
      · obtain ⟨t, member, isOperator⟩ := operated
        rcases List.mem_cons.mp member with rfl | inRest
        · exact ⟨[], t, rest, rfl, isOperator, fun v inRest found => later ⟨v, inRest, found⟩⟩
        · exact absurd ⟨t, inRest, isOperator⟩ later

end Machine

theorem evaluatePostfix_of_run {limits : Limits} {inputs : List Entry} {table : VariableTable}
    {serial : Nat} {tokens : List Token} {done : Machine} (tabled : inputTable inputs = .ok table)
    (ran : Machine.run limits inputs table ⟨[], [], serial⟩ tokens = .ok done) :
    evaluatePostfix limits inputs serial tokens =
      match done.stack with
      | [.matrix e] => .ok ⟨done.trace.reverse, e⟩
      | [.scalar x] => .error (.scalarResult x)
      | stack => .error (.leftOnStack stack.length) := by
  rw [evaluatePostfix, tabled, ok_bind, ran, ok_bind]
  rfl

theorem evaluatePostfix_ok {limits : Limits} {inputs : List Entry} {serial : Nat}
    {tokens : List Token} {ev : Evaluation}
    (evaluated : evaluatePostfix limits inputs serial tokens = .ok ev) :
    ∃ table done, inputTable inputs = .ok table ∧
      Machine.run limits inputs table ⟨[], [], serial⟩ tokens = .ok done ∧
      done.stack = [.matrix ev.final] ∧ ev.trace = done.trace.reverse := by
  obtain ⟨table, tabled, evaluated⟩ := ok_of_bind_eq_ok evaluated
  obtain ⟨done, ran, evaluated⟩ := ok_of_bind_eq_ok evaluated
  refine ⟨table, done, tabled, ran, ?_⟩
  split at evaluated
  · next e stacked =>
      cases evaluated
      exact ⟨stacked, rfl⟩
  · cases evaluated
  · cases evaluated

/-- On success, the trace is empty exactly when no operator ran, and otherwise its last entry is
the final value itself, handle included. -/
theorem evaluatePostfix_trace {limits : Limits} {inputs : List Entry} {serial : Nat}
    {tokens : List Token} {ev : Evaluation}
    (evaluated : evaluatePostfix limits inputs serial tokens = .ok ev) :
    (ev.trace = [] ↔ ∀ t ∈ tokens, t.kind ≠ .operator) ∧
      ((∃ t ∈ tokens, t.kind = .operator) → ev.trace.getLast? = some ev.final) := by
  obtain ⟨table, done, -, ran, single, traced⟩ := evaluatePostfix_ok evaluated
  have lastTraced : (∃ t ∈ tokens, t.kind = .operator) → done.trace.head? = some ev.final := by
    intro operated
    obtain ⟨front, t, back, rfl, isOperator, after⟩ := Machine.exists_last_operator operated
    rw [Machine.run_append] at ran
    obtain ⟨m, -, ran⟩ := ok_of_bind_eq_ok ran
    rw [Machine.run_cons] at ran
    obtain ⟨m', stepped, ran⟩ := ok_of_bind_eq_ok ran
    obtain ⟨kept, pushed, stacked⟩ := Machine.run_without_operators after ran
    rcases Machine.step_cases stepped with ⟨kind, -⟩ | ⟨kind, -⟩ | ⟨-, below, p, rfl, -⟩
    · rcases kind with kind | kind <;> simp [kind] at isOperator
    · rcases kind with kind | kind <;> simp [kind] at isOperator
    · obtain ⟨top, result⟩ := Machine.record_top ⟨below, m.trace, m.next⟩ p
      rw [single, top] at stacked
      have last : pushed = [] ∧ (Expr.handOut m.next p).2 = .matrix ev.final := by
        cases pushed with
        | nil => exact ⟨rfl, (List.cons.inj stacked).1.symm⟩
        | cons v more => simp at stacked
      rw [kept]
      exact result _ last.2
  refine ⟨⟨fun empty t member isOperator => ?_, fun unoperated => ?_⟩, fun operated => ?_⟩
  · have found := lastTraced ⟨t, member, isOperator⟩
    rw [traced, List.reverse_eq_nil_iff] at empty
    simp [empty] at found
  · rw [traced, (Machine.run_without_operators unoperated ran).1]
    rfl
  · rw [traced, List.getLast?_reverse]
    exact lastTraced operated

/-- The stack discipline of evaluation on every token list and every table of names. While the
machine has raised nothing, its stack holds as many values as the arities of the tokens read so far
count. The token at position `i`, once reached, raises a missing operand exactly when it is the
first to find fewer values than it needs. A run that raises nothing ends malformed exactly when the
count is not one. A successful evaluation has an empty trace exactly when no operator ran, and
otherwise its final value is the trace's last entry. -/
theorem stack_discipline (limits : Limits) (inputs : List Entry) (table : VariableTable)
    (serial : Nat) (tokens : List Token) :
    (∀ i s, Machine.run limits inputs table ⟨[], [], serial⟩ (tokens.take i) = .ok s →
      Token.operandCount 0 (tokens.take i) = some s.stack.length) ∧
    (∀ i s, Machine.run limits inputs table ⟨[], [], serial⟩ (tokens.take i) = .ok s →
      i < tokens.length →
      ((∃ f, Machine.run limits inputs table ⟨[], [], serial⟩ (tokens.take (i + 1)) = .error f ∧
          f.kind = "MissingOperand") ↔
        Token.operandCount 0 (tokens.take (i + 1)) = none)) ∧
    (inputTable inputs = .ok table → ∀ s d,
      Machine.run limits inputs table ⟨[], [], serial⟩ tokens = .ok s →
      Token.operandCount 0 tokens = some d →
      ((∃ f, evaluatePostfix limits inputs serial tokens = .error f ∧
          f.kind = "MalformedExpression") ↔ d ≠ 1)) ∧
    (∀ ev, evaluatePostfix limits inputs serial tokens = .ok ev →
      (ev.trace = [] ↔ ∀ t ∈ tokens, t.kind ≠ .operator) ∧
        ((∃ t ∈ tokens, t.kind = .operator) → ev.trace.getLast? = some ev.final)) := by
  refine ⟨fun i s ran => Machine.run_stack_length ran, ?missing, ?malformed,
    fun ev evaluated => evaluatePostfix_trace evaluated⟩
  case missing =>
    intro i s ran inside
    have counted : Token.operandCount 0 (tokens.take i) = some s.stack.length :=
      Machine.run_stack_length ran
    rw [List.take_add_one, List.getElem?_eq_getElem inside, Option.toList_some, Machine.run_append,
      ran, ok_bind, Machine.run_singleton, Token.operandCount_append, counted, Option.bind_some,
      Machine.step_missing_iff]
    cases stepCount : Token.countStep s.stack.length tokens[i] <;> simp [Token.operandCount, stepCount]
  case malformed =>
    intro tabled s d ran counted
    have length : d = s.stack.length := by
      have reached : Token.operandCount 0 tokens = some s.stack.length :=
        Machine.run_stack_length ran
      rw [counted] at reached
      exact Option.some.inj reached
    rw [evaluatePostfix_of_run tabled ran, length]
    rcases s.stack with _ | ⟨v, _ | ⟨w, rest⟩⟩
    · simp [Fault.kind]
    · cases v <;> simp [Fault.kind]
    · simp [Fault.kind]

theorem transpose_after_parenthesis_misses_its_operand :
    Machine.run {} [] ⟨[]⟩ ⟨[], [], 0⟩ ([⟨.openParen, "("⟩, ⟨.operator, "'"⟩].take 1) =
        .ok ⟨[], [], 0⟩ ∧
      ∃ f, Machine.run {} [] ⟨[]⟩ ⟨[], [], 0⟩
          ([⟨.openParen, "("⟩, ⟨.operator, "'"⟩].take (1 + 1)) = .error f ∧
        f.kind = "MissingOperand" :=
  ⟨rfl, ((stack_discipline {} [] ⟨[]⟩ 0 [⟨.openParen, "("⟩, ⟨.operator, "'"⟩]).2.1 1 _ rfl
    (by decide)).mpr (by decide)⟩

end MatrixSteps
