import Mathlib
import MatrixSteps.Proofs.WholeEvaluation

/-!
Chains of one operator over named matrices, `x₀ o x₁ o ⋯ o xₙ`, read as expressions. The text
scans to the names and the operator in turn (`Token.ofString_chain`), the grammar groups them to
the left (`Derives.chain`), and the tree evaluates as the operator folded from the left over the
matrices the names stand for (`Expr.eval_leftChain`). Without limits the whole evaluation is that
fold (`evaluate_chain`).

For the operators of matrices the fold is a computation of its own: sums and differences check
every shape against the first matrix and combine two at a time (`Operator.foldLeft_plus`,
`Operator.foldLeft_minus`), and products run along the chain of products
(`Operator.foldLeft_times`), which is what a chained product computes (`Matrix.chainFrom_fst`).
A chain of products goes through exactly when each matrix has as many columns as the next has rows
(`Matrix.Linked`).
-/

namespace MatrixSteps

namespace Token

/-- A run of ASCII letters, at least one: the text of one identifier. -/
def IsWord (x : String) : Prop := x.toList ≠ [] ∧ ∀ c ∈ x.toList, c.isAlpha = true

instance (x : String) : Decidable (IsWord x) :=
  inferInstanceAs (Decidable (x.toList ≠ [] ∧ ∀ c ∈ x.toList, c.isAlpha = true))

theorem not_digit_of_alpha {c : Char} (alpha : c.isAlpha = true) : c.isDigit = false := by
  have code : c.val.toNat = c.toNat := rfl
  simp only [Char.isAlpha, Char.isUpper, Char.isLower, Bool.or_eq_true, Bool.and_eq_true,
    decide_eq_true_eq, UInt32.le_iff_toNat_le, code] at alpha
  simp only [Char.isDigit, Bool.and_eq_false_iff, decide_eq_false_iff_not, UInt32.le_iff_toNat_le,
    code]
  have nine : '9'.val.toNat = 57 := rfl
  have upper : 'A'.val.toNat = 65 := rfl
  have lower : 'a'.val.toNat = 97 := rfl
  omega

theorem symbolKind?_isSome {c : Char} {kind : TokenKind} (symbol : symbolKind? c = some kind) :
    c.isDigit = false ∧ c.isAlpha = false := by
  unfold symbolKind? at symbol
  split_ifs at symbol with opening closing operator
  · subst opening; decide
  · subst closing; decide
  · simp only [Bool.or_eq_true, decide_eq_true_eq] at operator
    rcases operator with ((((((h | h) | h) | h) | h) | h) | h) <;> subst h <;> decide

theorem scan_word {x : String} (word : IsWord x) {rest : List Char}
    (stop : ∀ c ∈ rest.head?, c.isAlpha = false) :
    scan (x.toList ++ rest) = ⟨.identifier, x⟩ :: scan rest := by
  obtain ⟨nonempty, letters⟩ := word
  obtain ⟨c, cs, spelled⟩ := List.exists_cons_of_ne_nil nonempty
  have alpha : c.isAlpha = true := letters c (by simp [spelled])
  have tail : ∀ d ∈ cs, d.isAlpha = true := fun d member => letters d (by simp [spelled, member])
  have taken : (cs ++ rest).takeWhile Char.isAlpha = cs := by
    rw [List.takeWhile_append_of_pos tail]
    cases rest with
    | nil => simp
    | cons d more => simp [stop d rfl]
  have dropped : (cs ++ rest).dropWhile Char.isAlpha = rest := by
    rw [List.dropWhile_append_of_pos tail]
    cases rest with
    | nil => simp
    | cons d more => simp [stop d rfl]
  rw [spelled, List.cons_append, scan, if_neg (by simp [not_digit_of_alpha alpha]), if_pos alpha,
    taken, dropped, ← spelled, String.ofList_toList]

theorem scan_blanks {cs : List Char} (blank : cs.all Text.isBlank = true) (rest : List Char) :
    scan (cs ++ rest) = scan rest := by
  induction cs with
  | nil => rfl
  | cons c more ih =>
      simp only [List.all_cons, Bool.and_eq_true] at blank
      obtain ⟨digit, alpha, symbol⟩ := Text.not_digit_of_blank blank.1
      rw [List.cons_append, scan]
      simp only [digit, alpha, symbol, Bool.false_eq_true, if_false]
      exact ih blank.2

theorem scan_symbol {c : Char} {kind : TokenKind} (symbol : symbolKind? c = some kind)
    (rest : List Char) : scan (c :: rest) = ⟨kind, String.singleton c⟩ :: scan rest := by
  obtain ⟨digit, alpha⟩ := symbolKind?_isSome symbol
  rw [scan]
  simp only [digit, alpha, symbol, Bool.false_eq_true, if_false]

/-- The tokens of `first o y₁ o ⋯ o yₙ`: the names, with the operator between each two. -/
def chainTokens (symbol first : String) (rest : List String) : List Token :=
  ⟨.identifier, first⟩ :: rest.flatMap fun y => [operatorOf symbol, ⟨.identifier, y⟩]

theorem chainTokens_append (symbol first : String) (rest : List String) (y : String) :
    chainTokens symbol first (rest ++ [y]) =
      chainTokens symbol first rest ++ operatorOf symbol :: [⟨.identifier, y⟩] := by
  simp [chainTokens]

theorem head_not_alpha {pad : List Char} (blank : pad.all Text.isBlank = true) {c : Char}
    (notAlpha : c.isAlpha = false) (tail : List Char) :
    ∀ d ∈ (pad ++ c :: tail).head?, d.isAlpha = false := by
  cases pad with
  | nil => simpa using notAlpha
  | cons b more =>
      simp only [List.all_cons, Bool.and_eq_true] at blank
      simpa using (Text.not_digit_of_blank blank.1).2.1

/-- Words joined by an operator character, with the same blanks on either side of it, scan to
the words and the operator in turn. -/
theorem ofString_chain {c : Char} (operator : symbolKind? c = some .operator) {pad : String}
    (blank : pad.toList.all Text.isBlank = true) {first : String} {rest : List String}
    (words : ∀ y ∈ first :: rest, IsWord y) :
    ofString (String.intercalate (pad ++ String.singleton c ++ pad) (first :: rest)) =
      chainTokens (String.singleton c) first rest := by
  induction rest generalizing first with
  | nil =>
      have scanned := scan_word (words first (by simp))
        (show ∀ c ∈ ([] : List Char).head?, c.isAlpha = false by simp)
      rw [List.append_nil, scan] at scanned
      simpa [ofString, chainTokens] using scanned
  | cons y more ih =>
      have spelled : (String.intercalate (pad ++ String.singleton c ++ pad) (first :: y :: more)).toList =
          first.toList ++ (pad.toList ++ c :: (pad.toList ++
            (String.intercalate (pad ++ String.singleton c ++ pad) (y :: more)).toList)) := by
        simp [String.intercalate_cons_cons, List.append_assoc]
      have stop := head_not_alpha blank (symbolKind?_isSome operator).2
        (pad.toList ++ (String.intercalate (pad ++ String.singleton c ++ pad) (y :: more)).toList)
      rw [ofString, spelled, scan_word (words first (by simp)) stop, scan_blanks blank,
        scan_symbol operator, scan_blanks blank, ← ofString,
        ih fun z member => words z (List.mem_cons_of_mem first member)]
      simp [chainTokens, operatorOf]

end Token

/-- The tree of `first o y₁ o ⋯ o yₙ` grouped to the left. -/
def Expr.leftChain (symbol first : String) (rest : List String) : Expr :=
  rest.foldl (fun acc y => .binary symbol acc (.identifier y)) (.identifier first)

theorem Expr.leftChain_append (symbol first : String) (rest : List String) (y : String) :
    Expr.leftChain symbol first (rest ++ [y]) =
      .binary symbol (Expr.leftChain symbol first rest) (.identifier y) := by
  simp [Expr.leftChain]

theorem Derives.sumChain {symbol : String} (sum : symbol = "+" ∨ symbol = "-") (first : String)
    (rest : List String) :
    Derives .expression (Token.chainTokens symbol first rest) (Expr.leftChain symbol first rest) := by
  induction rest using List.reverseRecOn with
  | nil => exact .summand (.factor (.base (.unprimed (.identifier first))))
  | append_singleton more y ih =>
      rw [Token.chainTokens_append, Expr.leftChain_append]
      exact .sum symbol sum ih (.factor (.base (.unprimed (.identifier y))))

theorem Derives.productChain {symbol : String} (product : symbol = "*" ∨ symbol = "/")
    (first : String) (rest : List String) :
    Derives .term (Token.chainTokens symbol first rest) (Expr.leftChain symbol first rest) := by
  induction rest using List.reverseRecOn with
  | nil => exact .factor (.base (.unprimed (.identifier first)))
  | append_singleton more y ih =>
      rw [Token.chainTokens_append, Expr.leftChain_append]
      exact .product symbol product ih (.base (.unprimed (.identifier y)))

theorem Derives.chain {symbol : String} (binary : symbol = "+" ∨ symbol = "-" ∨ symbol = "*")
    (first : String) (rest : List String) :
    Derives .expression (Token.chainTokens symbol first rest) (Expr.leftChain symbol first rest) := by
  rcases binary with sum | sum | product
  · exact .sumChain (.inl sum) first rest
  · exact .sumChain (.inr sum) first rest
  · exact .summand (.productChain (.inl product) first rest)

/-- An operator folded from the left over values: the value of `v₀ o v₁ o ⋯ o vₙ` grouped to the
left. -/
def Operator.foldLeft (op : Operator) (first : Value) (rest : List Value) : Except Fault Value :=
  rest.foldlM (fun acc v => (·.result) <$> op.apply acc v) first

section Evaluation

variable {limits : Limits} {inputs : List Entry} {table : VariableTable}

theorem Machine.operate_of_ofSymbol? {symbol : String} {op : Operator}
    (named : Operator.ofSymbol? symbol = some op) (notPower : op ≠ .power) (a b : Operand) :
    Machine.operate limits symbol a b = op.apply a.value b.value := by
  have differs : (op == .power) = false := by simpa using notPower
  simp only [Machine.operate, named, differs]
  rfl

/-- One more name on the right of a tree applies the operator to the tree's value and the matrix
the name stands for. -/
theorem Expr.eval_binary_identifier {symbol : String} {op : Operator}
    (named : Operator.ofSymbol? symbol = some op) (notPower : op ≠ .power) (start : Expr)
    {y : String} {e : Entry} (resolved : (table.resolve? y).bind (inputs[·]?) = some e) (next : Nat) :
    (·.1.value) <$> (Expr.binary symbol start (.identifier y)).eval limits inputs table next =
      ((·.1.value) <$> start.eval limits inputs table next) >>= fun v =>
        (·.result) <$> op.apply v (.matrix e.matrix) := by
  rw [eval_binary]
  cases start.eval limits inputs table next with
  | error fault => rfl
  | ok done =>
      obtain ⟨a, leftTrace⟩ := done
      have looked : (Expr.identifier y).eval limits inputs table (next + leftTrace.length) =
          .ok (.matrix e, []) := by
        simp [eval, resolved]
      simp only [ok_bind, looked, Machine.operate_of_ofSymbol? named notPower]
      change _ = (·.result) <$> op.apply a.value (.matrix e.matrix)
      rw [show (Operand.matrix e).value = .matrix e.matrix from rfl]
      cases op.apply a.value (.matrix e.matrix) with
      | error fault => rfl
      | ok p => exact congrArg Except.ok (handOut_value _ p)

/-- Names added on the right of a tree, each standing for a matrix, fold the operator over those
matrices from the tree's value on. -/
theorem Expr.eval_foldl_binary {symbol : String} {op : Operator}
    (named : Operator.ofSymbol? symbol = some op) (notPower : op ≠ .power) {rest : List String}
    {entries : List Entry}
    (resolved : List.Forall₂ (fun y e => (table.resolve? y).bind (inputs[·]?) = some e) rest entries)
    (start : Expr) (next : Nat) :
    (·.1.value) <$> (rest.foldl (fun acc y => .binary symbol acc (.identifier y)) start).eval
        limits inputs table next =
      ((·.1.value) <$> start.eval limits inputs table next) >>= fun v =>
        op.foldLeft v (entries.map (.matrix ·.matrix)) := by
  induction resolved generalizing start with
  | nil => exact (bind_pure _).symm
  | cons first _ ih =>
      rw [List.foldl_cons, ih, eval_binary_identifier named notPower start first, bind_assoc]
      rfl

/-- The left-grouped chain of names evaluates as the operator folded over the matrices they stand
for. -/
theorem Expr.eval_leftChain {symbol : String} {op : Operator}
    (named : Operator.ofSymbol? symbol = some op) (notPower : op ≠ .power) {first : String}
    {rest : List String} {entry : Entry} {entries : List Entry}
    (resolved : List.Forall₂ (fun y e => (table.resolve? y).bind (inputs[·]?) = some e)
      (first :: rest) (entry :: entries)) (next : Nat) :
    (·.1.value) <$> (Expr.leftChain symbol first rest).eval limits inputs table next =
      op.foldLeft (.matrix entry.matrix) (entries.map (.matrix ·.matrix)) := by
  obtain ⟨looked, others⟩ := List.forall₂_cons.mp resolved
  have start : (Expr.identifier first).eval limits inputs table next = .ok (.matrix entry, []) := by
    simp [eval, looked]
  rw [Expr.leftChain, eval_foldl_binary named notPower others, start]
  rfl

end Evaluation

namespace Matrix

theorem checkShapes_cons (kind : Combination) (first m : Matrix) (rest : List Matrix) :
    checkShapes kind first (m :: rest) =
      if m.shape = first.shape then checkShapes kind first rest
      else .error (.shapeMismatch kind first.shape m.shape) := by
  by_cases same : m.shape = first.shape <;> simp [checkShapes, same]

theorem checkShapes_congr (kind : Combination) {a b : Matrix} (same : a.shape = b.shape)
    (rest : List Matrix) : checkShapes kind a rest = checkShapes kind b rest := by
  simp only [checkShapes, same]

/-- Each matrix has as many columns as the next one has rows. -/
def Linked : List Matrix → Prop
  | a :: b :: rest => a.cols = b.rows ∧ Linked (b :: rest)
  | _ => True

theorem linked_congr {a b : Matrix} (same : a.cols = b.cols) (rest : List Matrix) :
    Linked (a :: rest) ↔ Linked (b :: rest) := by
  cases rest with
  | nil => exact Iff.rfl
  | cons c more => simp [Linked, same]

theorem links_iff : ∀ ms : List Matrix,
    ((ms.zip ms.tail).all fun (left, right) => left.cols == right.rows) = true ↔ Linked ms
  | [] => by simp [Linked]
  | [a] => by simp [Linked]
  | a :: b :: rest => by
      have later := links_iff (b :: rest)
      simp only [List.tail_cons, List.zip_cons_cons, List.all_cons, Bool.and_eq_true, beq_iff_eq,
        Linked] at later ⊢
      rw [later]

theorem chainValid_iff (ms : List Matrix) : chainValid ms = true ↔ 2 ≤ ms.length ∧ Linked ms := by
  simp only [chainValid, Bool.and_eq_true, decide_eq_true_eq, links_iff]

theorem foldlM_product_of_linked {current : Matrix} {rest : List Matrix}
    (linked : Linked (current :: rest)) :
    rest.foldlM product current = .ok (rest.foldl productOf current) := by
  induction rest generalizing current with
  | nil => rfl
  | cons m more ih =>
      obtain ⟨fits, later⟩ := linked
      have multiplied : product current m = .ok (productOf current m) := by simp [product, fits]
      rw [List.foldlM_cons, multiplied, ok_bind, List.foldl_cons]
      exact ih ((linked_congr (show (productOf current m).cols = m.cols from rfl) more).mpr later)

theorem foldlM_product_of_not_linked {current : Matrix} {rest : List Matrix}
    (broken : ¬ Linked (current :: rest)) :
    ∃ a b, rest.foldlM product current = .error (.productMismatch a b) := by
  induction rest generalizing current with
  | nil => exact absurd trivial broken
  | cons m more ih =>
      by_cases fits : current.cols = m.rows
      · have multiplied : product current m = .ok (productOf current m) := by simp [product, fits]
        rw [List.foldlM_cons, multiplied, ok_bind]
        exact ih fun later =>
          broken ⟨fits, (linked_congr (show (productOf current m).cols = m.cols from rfl) more).mp later⟩
      · have refused : product current m = .error (.productMismatch current.shape m.shape) := by
          simp [product, fits]
        exact ⟨current.shape, m.shape, by rw [List.foldlM_cons, refused]; rfl⟩

theorem chainFrom_fst (headed : Bool) (current : Matrix) (k : Nat) (acc : List String)
    (rest : List Matrix) :
    (·.1) <$> chainFrom headed current k acc rest = rest.foldlM product current := by
  induction rest generalizing current k acc with
  | nil => rfl
  | cons following more ih =>
      rw [List.foldlM_cons, chainFrom]
      cases product current following with
      | error fault => rfl
      | ok p => exact ih p _ _

end Matrix

namespace Operator

theorem result_single (x : Except Fault Value) : (·.result) <$> (Produced.single <$> x) = x := by
  cases x <;> rfl

theorem foldLeft_plus (first : Value) (rest : List Value) :
    plus.foldLeft first rest = rest.foldlM (combine .addition) first := by
  simp only [foldLeft, apply, result_single]

theorem foldLeft_minus (first : Value) (rest : List Value) :
    minus.foldLeft first rest = rest.foldlM (combine .subtraction) first := by
  simp only [foldLeft, apply, result_single]

theorem foldLeft_times (first : Value) (rest : List Value) :
    times.foldLeft first rest = rest.foldlM multiply first := by
  simp only [foldLeft, apply, result_single]

/-- Sums or differences of matrices, two at a time from the left: every shape is checked against
the first matrix's, and the matrices are combined in turn. -/
theorem foldlM_combine (kind : Combination) (first : Matrix) (rest : List Matrix) :
    (rest.map .matrix).foldlM (combine kind) (.matrix first) =
      (fun _ => .matrix (rest.foldl (fun a m =>
        if kind == .addition then Matrix.sumOf a [m] else Matrix.differenceOf a [m]) first)) <$>
        Matrix.checkShapes kind first rest := by
  induction rest generalizing first with
  | nil => rfl
  | cons m more ih =>
      rw [List.map_cons, List.foldlM_cons, Matrix.checkShapes_cons, List.foldl_cons]
      by_cases same : m.shape = first.shape
      · have kept : (if kind == .addition then Matrix.sumOf first [m]
            else Matrix.differenceOf first [m]).shape = first.shape := by
          split <;> rfl
        have combined : combine kind (.matrix first) (.matrix m) =
            .ok (.matrix (if kind == .addition then Matrix.sumOf first [m]
              else Matrix.differenceOf first [m])) := by
          have agree : (first.shape != m.shape) = false := by simp [same]
          simp only [combine, agree, Bool.false_eq_true, if_false]
          split <;> rfl
        rw [combined, ok_bind, ih, Matrix.checkShapes_congr kind kept, if_pos same]
      · have refused : combine kind (.matrix first) (.matrix m) =
            .error (.shapeMismatch kind first.shape m.shape) := by
          have differ : (first.shape != m.shape) = true := bne_iff_ne.mpr (Ne.symm same)
          simp [combine, differ]
        rw [refused, if_neg same]
        rfl

theorem foldlM_multiply (first : Matrix) (rest : List Matrix) :
    (rest.map .matrix).foldlM multiply (.matrix first) =
      Value.matrix <$> rest.foldlM Matrix.product first := by
  induction rest generalizing first with
  | nil => rfl
  | cons m more ih =>
      rw [List.map_cons, List.foldlM_cons, List.foldlM_cons]
      change (Value.matrix <$> Matrix.product first m) >>= _ = _
      cases Matrix.product first m with
      | error fault => rfl
      | ok p => exact ih p

end Operator

/-- The name stands for an input holding the matrix: the table of the inputs resolves it to a
position whose entry holds the matrix. -/
def Names (inputs : List Entry) (x : String) (m : Matrix) : Prop :=
  ∃ table e, inputTable inputs = .ok table ∧ (table.resolve? x).bind (inputs[·]?) = some e ∧
    e.matrix = m

theorem Names.resolved {inputs : List Entry} {table : VariableTable}
    (tabled : inputTable inputs = .ok table) {xs : List String} {ms : List Matrix}
    (names : List.Forall₂ (Names inputs) xs ms) :
    ∃ entries, List.Forall₂ (fun y e => (table.resolve? y).bind (inputs[·]?) = some e) xs entries ∧
      entries.map (·.matrix) = ms := by
  induction names with
  | nil => exact ⟨[], .nil, rfl⟩
  | cons named _ ih =>
      obtain ⟨table', e, tabled', looked, held⟩ := named
      obtain rfl : table' = table := Except.ok.inj (tabled'.symm.trans tabled)
      obtain ⟨entries, resolved, matrices⟩ := ih
      exact ⟨e :: entries, .cons looked resolved, by rw [List.map_cons, held, matrices]⟩

/-- The matrix of a final value; a number is refused as a result. -/
def Value.asResult : Value → Except Fault Matrix
  | .matrix m => .ok m
  | .scalar x => .error (.scalarResult x)

theorem evaluate_of_derives {s : String} {e : Expr} (derives : Derives .expression (Token.ofString s) e)
    (inputs : List Entry) (firstSerial : Nat) :
    evaluate {} inputs firstSerial s = inputTable inputs >>= fun table =>
      match e.eval {} inputs table firstSerial with
      | .error fault => .error fault
      | .ok (.scalar x, _) => .error (.scalarResult x)
      | .ok (.matrix final, trace) => .ok ⟨trace, final⟩ := by
  rw [evaluate_eq, if_neg (by simp [derives.not_blank]), derives.toPostfix]
  exact evaluatePostfix_postOrder {} inputs firstSerial derives.markUnary

theorem evaluate_chain_final {c : Char} {op : Operator}
    (operator : Token.symbolKind? c = some .operator)
    (binary : String.singleton c = "+" ∨ String.singleton c = "-" ∨ String.singleton c = "*")
    (named : Operator.ofSymbol? (String.singleton c) = some op) (notPower : op ≠ .power)
    {pad : String} (blank : pad.toList.all Text.isBlank = true) {first : String}
    {rest : List String} (words : ∀ y ∈ first :: rest, Token.IsWord y)
    {inputs : List Entry} {table : VariableTable} (tabled : inputTable inputs = .ok table)
    {entry : Entry} {entries : List Entry}
    (resolved : List.Forall₂ (fun y e => (table.resolve? y).bind (inputs[·]?) = some e)
      (first :: rest) (entry :: entries)) (firstSerial : Nat) :
    (·.final.matrix) <$>
        evaluate {} inputs firstSerial (String.intercalate (pad ++ String.singleton c ++ pad) (first :: rest)) =
      op.foldLeft (.matrix entry.matrix) (entries.map (.matrix ·.matrix)) >>= Value.asResult := by
  have derives := Derives.chain binary first rest
  rw [← Token.ofString_chain operator blank words] at derives
  have folded : (·.1.value) <$> (Expr.leftChain (String.singleton c) first rest).eval {} inputs table
      firstSerial = op.foldLeft (.matrix entry.matrix) (entries.map (.matrix ·.matrix)) :=
    Expr.eval_leftChain named notPower resolved firstSerial
  rw [evaluate_of_derives derives, tabled, ok_bind, ← folded]
  cases (Expr.leftChain (String.singleton c) first rest).eval {} inputs table firstSerial with
  | error fault => rfl
  | ok done =>
      obtain ⟨value, trace⟩ := done
      cases value <;> rfl

/-- Without limits, a chain of two names or more evaluates to the operator folded over their
matrices, and its last trace entry is the final matrix. -/
theorem evaluate_chain {c : Char} {op : Operator} (operator : Token.symbolKind? c = some .operator)
    (binary : String.singleton c = "+" ∨ String.singleton c = "-" ∨ String.singleton c = "*")
    (named : Operator.ofSymbol? (String.singleton c) = some op) (notPower : op ≠ .power)
    {pad : String} (blank : pad.toList.all Text.isBlank = true) {first : String}
    {rest : List String} (words : ∀ y ∈ first :: rest, Token.IsWord y) (more : rest ≠ [])
    {inputs : List Entry} {table : VariableTable} (tabled : inputTable inputs = .ok table)
    {entry : Entry} {entries : List Entry}
    (resolved : List.Forall₂ (fun y e => (table.resolve? y).bind (inputs[·]?) = some e)
      (first :: rest) (entry :: entries)) (firstSerial : Nat) :
    (·.final.matrix) <$>
        evaluate {} inputs firstSerial (String.intercalate (pad ++ String.singleton c ++ pad) (first :: rest)) =
      op.foldLeft (.matrix entry.matrix) (entries.map (.matrix ·.matrix)) >>= Value.asResult ∧
    ∀ ev, evaluate {} inputs firstSerial
        (String.intercalate (pad ++ String.singleton c ++ pad) (first :: rest)) = .ok ev →
      ev.trace.getLast? = some ev.final := by
  refine ⟨evaluate_chain_final operator binary named notPower blank words tabled resolved firstSerial,
    ?_⟩
  have derives := Derives.chain binary first rest
  rw [← Token.ofString_chain operator blank words] at derives
  have notName : ∀ name, Expr.leftChain (String.singleton c) first rest ≠ .identifier name := by
    obtain ⟨init, last, split⟩ := List.eq_nil_or_concat rest |>.resolve_left more
    intro name
    rw [split, List.concat_eq_append, Expr.leftChain_append]
    exact Expr.noConfusion
  intro ev evaluated
  rw [evaluate_of_derives derives, tabled, ok_bind] at evaluated
  cases evaluation : (Expr.leftChain (String.singleton c) first rest).eval {} inputs table firstSerial with
  | error fault => rw [evaluation] at evaluated; cases evaluated
  | ok done =>
      obtain ⟨value, trace⟩ := done
      cases value with
      | scalar x => rw [evaluation] at evaluated; cases evaluated
      | matrix final =>
          rw [evaluation] at evaluated
          obtain rfl := (Except.ok.inj evaluated).symm
          rcases Expr.eval_matrix_last _ evaluation with ⟨-, name, same⟩ | last
          · exact absurd same (notName name)
          · exact last

end MatrixSteps
