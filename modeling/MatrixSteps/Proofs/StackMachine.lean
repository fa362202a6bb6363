import MatrixSteps.Expression.Tree

/-!
The stack machine runs the post-order of a tree as the tree evaluates: the same value, the same
fault, and the same trace with the same fresh handles. This holds for every tree in which the
transpose mark labels no binary node, since in post-order such a node would read as a transpose.

The run lemma `Machine.run_postOrder` holds in every machine state and before any further tokens:
the post-order of a subtree pushes the subtree's value and appends its trace, and the machine's
next fresh handle moves past the handles that trace took.
-/

namespace MatrixSteps

/-- The transpose mark labels no binary node of the tree. -/
def Expr.MarkUnary : Expr → Prop
  | .number _ | .identifier _ => True
  | .binary symbol left right => symbol ≠ transposeMark ∧ left.MarkUnary ∧ right.MarkUnary
  | .transpose operand => operand.MarkUnary

theorem ok_bind {ε α β : Type} (a : α) (f : α → Except ε β) :
    (Except.ok a >>= f) = f a := rfl

namespace Machine

variable {limits : Limits} {inputs : List Entry} {table : VariableTable}

/-- What a binary operator symbol does to its operands, as both the machine and the tree
evaluation do it: a symbol without a meaning is refused, a power's exponent is checked against its
limit, and the operator is applied to the operands' values. -/
def operate (limits : Limits) (symbol : String) (a b : Operand) : Except Fault Produced :=
  match Operator.ofSymbol? symbol with
  | none => .error (.unknownOperator symbol)
  | some op => do
      if op == .power then checkExponent limits a b
      op.apply a.value b.value

/-- The machine once a subtree has pushed `value` and produced `trace`, in order. -/
def settle (s : Machine) (value : Operand) (trace : List Entry) : Machine :=
  ⟨value :: s.stack, trace.reverse ++ s.trace, s.next + trace.length⟩

theorem settle_after (s : Machine) (value : Operand) (operands own : List Entry) :
    (⟨s.stack, operands.reverse ++ s.trace, s.next + operands.length⟩ : Machine).settle value own =
      s.settle value (operands ++ own) := by
  simp [settle, Nat.add_assoc]

theorem numberValue_of_read {text : String} {x : Float} (read : FloatLiteral.read? text = some x) :
    numberValue text = .ok x := by
  simp [numberValue, read]

theorem numberValue_error {text : String} {f : Fault} (failed : numberValue text = .error f) :
    f = .notAFloat text ∧ FloatLiteral.read? text = none := by
  unfold numberValue at failed
  split at failed
  · cases failed
  · next unread =>
      cases failed
      exact ⟨rfl, unread⟩

theorem step_number_ok {s s' : Machine} {lexeme : String}
    (stepped : step limits inputs table s ⟨.number, lexeme⟩ = .ok s') :
    ∃ x, numberValue lexeme = .ok x ∧ s' = { s with stack := .scalar x :: s.stack } := by
  simp only [step] at stepped
  cases value : numberValue lexeme with
  | error fault =>
      rw [value] at stepped
      cases stepped
  | ok x =>
      rw [value] at stepped
      cases stepped
      exact ⟨x, rfl, rfl⟩

theorem run_cons (s : Machine) (t : Token) (rest : List Token) :
    run limits inputs table s (t :: rest) =
      step limits inputs table s t >>= (run limits inputs table · rest) := rfl

theorem run_append (s : Machine) (first second : List Token) :
    run limits inputs table s (first ++ second) =
      run limits inputs table s first >>= (run limits inputs table · second) := by
  induction first generalizing s with
  | nil => rfl
  | cons t rest ih =>
      rw [List.cons_append, run_cons, run_cons]
      cases step limits inputs table s t with
      | error fault => rfl
      | ok next => exact ih next

theorem foldl_fresh (along : List Matrix) (s : Machine) :
    along.foldl (fun (t : Machine) m =>
        { t with trace := ⟨.fresh t.next, m⟩ :: t.trace, next := t.next + 1 }) s =
      { s with
        trace := ((along.zipIdx s.next).map fun (m, serial) => (⟨.fresh serial, m⟩ : Entry)).reverse ++
          s.trace
        next := s.next + along.length } := by
  induction along generalizing s with
  | nil => simp
  | cons m rest ih =>
      rw [List.foldl_cons, ih]
      simp only [List.zipIdx_cons, List.map_cons, List.reverse_cons, List.append_assoc,
        List.singleton_append, List.length_cons]
      congr 1
      omega

theorem record_eq_settle (s : Machine) (p : Produced) :
    s.record p = s.settle (Expr.handOut s.next p).2 (Expr.handOut s.next p).1 := by
  unfold record Expr.handOut
  rw [foldl_fresh]
  cases p.result with
  | scalar x => simp [settle]
  | matrix m =>
      simp only [settle, List.reverse_append, List.reverse_cons, List.reverse_nil,
        List.nil_append, List.length_append, List.length_map, List.length_zipIdx,
        List.length_singleton, List.cons_append, Nat.add_assoc]

theorem step_binary (below : List Operand) (trace : List Entry) (next : Nat) {symbol : String}
    (notMark : symbol ≠ transposeMark) (a b : Operand) :
    step limits inputs table ⟨b :: a :: below, trace, next⟩ ⟨.operator, symbol⟩ =
      operate limits symbol a b >>= fun produced => pure (record ⟨below, trace, next⟩ produced) := by
  have differs : (symbol == transposeMark) = false := by simpa using notMark
  simp only [step, differs, operate]
  cases Operator.ofSymbol? symbol with
  | none => rfl
  | some op => by_cases isPower : op = .power <;> simp [isPower]

theorem step_transpose (below : List Operand) (trace : List Entry) (next : Nat) (a : Operand) :
    step limits inputs table ⟨a :: below, trace, next⟩ ⟨.operator, transposeMark⟩ =
      a.value.transpose >>= fun v => pure (record ⟨below, trace, next⟩ (.single v)) := by
  simp [step]

end Machine

namespace Expr

variable {limits : Limits} {inputs : List Entry} {table : VariableTable}

theorem eval_binary (symbol : String) (left right : Expr) (next : Nat) :
    (binary symbol left right).eval limits inputs table next =
      left.eval limits inputs table next >>= fun (a, leftTrace) =>
        right.eval limits inputs table (next + leftTrace.length) >>= fun (b, rightTrace) =>
          Machine.operate limits symbol a b >>= fun produced =>
            let handed := handOut (next + leftTrace.length + rightTrace.length) produced
            pure (handed.2, leftTrace ++ rightTrace ++ handed.1) := by
  rw [eval]
  congr 1
  funext ⟨a, leftTrace⟩
  dsimp only
  congr 1
  funext ⟨b, rightTrace⟩
  simp only [Machine.operate]
  cases Operator.ofSymbol? symbol with
  | none => rfl
  | some op => by_cases isPower : op = .power <;> simp [isPower]

theorem eval_transpose (operand : Expr) (next : Nat) :
    (transpose operand).eval limits inputs table next =
      operand.eval limits inputs table next >>= fun (a, trace) =>
        a.value.transpose >>= fun v =>
          let handed := handOut (next + trace.length) (.single v)
          pure (handed.2, trace ++ handed.1) := rfl

end Expr

namespace Machine

variable {limits : Limits} {inputs : List Entry} {table : VariableTable}

/-- The post-order of a tree pushes the tree's value and appends its trace, in every state and
whatever tokens follow; a fault of the tree is the run's fault. -/
theorem run_postOrder {e : Expr} (marks : e.MarkUnary) (s : Machine) (rest : List Token) :
    run limits inputs table s (e.postOrder ++ rest) =
      e.eval limits inputs table s.next >>= fun (value, trace) =>
        run limits inputs table (s.settle value trace) rest := by
  induction e generalizing s rest with
  | number lexeme =>
      simp only [Expr.postOrder, List.singleton_append, run_cons, step, Expr.eval]
      cases numberValue lexeme with
      | error fault => rfl
      | ok x => rfl
  | identifier name =>
      simp only [Expr.postOrder, List.singleton_append, run_cons, step, Expr.eval]
      cases (table.resolve? name).bind fun position => inputs[position]? with
      | none => rfl
      | some entry => simp [settle, bind, Except.bind]
  | binary symbol left right leftIH rightIH =>
      obtain ⟨notMark, leftMarks, rightMarks⟩ := marks
      rw [Expr.postOrder, List.append_assoc, List.append_assoc, leftIH leftMarks,
        Expr.eval_binary]
      cases left.eval limits inputs table s.next with
      | error fault => rfl
      | ok leftDone =>
          obtain ⟨a, leftTrace⟩ := leftDone
          have nextAfterLeft : (s.settle a leftTrace).next = s.next + leftTrace.length := rfl
          simp only [ok_bind]
          rw [rightIH rightMarks, nextAfterLeft]
          cases right.eval limits inputs table (s.next + leftTrace.length) with
          | error fault => rfl
          | ok rightDone =>
              obtain ⟨b, rightTrace⟩ := rightDone
              have operands : (s.settle a leftTrace).settle b rightTrace =
                  ⟨b :: a :: s.stack, (rightTrace.reverse ++ leftTrace.reverse) ++ s.trace,
                    s.next + leftTrace.length + rightTrace.length⟩ := by
                simp [settle, Nat.add_assoc]
              simp only [ok_bind]
              rw [List.singleton_append, run_cons, operands, step_binary _ _ _ notMark]
              cases operate limits symbol a b with
              | error fault => rfl
              | ok produced =>
                  simp only [ok_bind, pure_bind, record_eq_settle]
                  rw [← List.reverse_append, Nat.add_assoc, ← List.length_append, settle_after]
  | transpose operand ih =>
      rw [Expr.postOrder, List.append_assoc, ih marks, Expr.eval_transpose]
      cases operand.eval limits inputs table s.next with
      | error fault => rfl
      | ok operandDone =>
          obtain ⟨a, trace⟩ := operandDone
          simp only [ok_bind]
          rw [List.singleton_append, run_cons]
          have operandPushed : s.settle a trace =
              ⟨a :: s.stack, trace.reverse ++ s.trace, s.next + trace.length⟩ := rfl
          rw [operandPushed, step_transpose]
          cases a.value.transpose with
          | error fault => rfl
          | ok v =>
              simp only [ok_bind, pure_bind, record_eq_settle]
              rw [settle_after]

end Machine

/-- Evaluating a tree's post-order over inputs that can all be named fails exactly as the tree's
evaluation fails. A tree that evaluates to a number fails as a number result, and one that
evaluates to a matrix gives that matrix with the tree's trace. -/
theorem evaluatePostfix_postOrder (limits : Limits) (inputs : List Entry) (firstSerial : Nat)
    {e : Expr} (marks : e.MarkUnary) :
    evaluatePostfix limits inputs firstSerial e.postOrder =
      inputTable inputs >>= fun table =>
        match e.eval limits inputs table firstSerial with
        | .error fault => .error fault
        | .ok (.scalar x, _) => .error (.scalarResult x)
        | .ok (.matrix final, trace) => .ok ⟨trace, final⟩ := by
  unfold evaluatePostfix
  cases inputTable inputs with
  | error fault => rfl
  | ok table =>
      have run := @Machine.run_postOrder limits inputs table e marks ⟨[], [], firstSerial⟩ []
      rw [List.append_nil] at run
      dsimp only at run
      simp only [ok_bind]
      rw [run]
      cases e.eval limits inputs table firstSerial with
      | error fault => rfl
      | ok done =>
          obtain ⟨value, trace⟩ := done
          cases value with
          | scalar x => rfl
          | matrix final => simp [ok_bind, Machine.run, Machine.settle, pure, Except.pure]

theorem evaluatePostfix_transposed_power :
    (Expr.transpose (.binary "^" (.identifier "A") (.number "2"))).MarkUnary ∧
      evaluatePostfix { maxExponent := some 3 } [⟨.given "a", ⟨"A", 1, 1, [[2.0]], none⟩⟩] 0
          (Expr.transpose (.binary "^" (.identifier "A") (.number "2"))).postOrder =
        inputTable [⟨.given "a", ⟨"A", 1, 1, [[2.0]], none⟩⟩] >>= fun table =>
          match (Expr.transpose (.binary "^" (.identifier "A") (.number "2"))).eval
              { maxExponent := some 3 } [⟨.given "a", ⟨"A", 1, 1, [[2.0]], none⟩⟩] table 0 with
          | .error fault => .error fault
          | .ok (.scalar x, _) => .error (.scalarResult x)
          | .ok (.matrix final, trace) => .ok ⟨trace, final⟩ :=
  have marks : (Expr.transpose (.binary "^" (.identifier "A") (.number "2"))).MarkUnary :=
    ⟨by decide, trivial, trivial⟩
  ⟨marks, evaluatePostfix_postOrder _ _ _ marks⟩

end MatrixSteps
