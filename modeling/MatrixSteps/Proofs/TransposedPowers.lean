import Mathlib
import MatrixSteps.Proofs.PowerPaths

/-!
A power of a transposed name, written two ways. In `X'^n` the transpose mark waits on the stack
while the power is written, so the text reads as `(X^n)'`; in `(X')^n` the transpose comes first.
In exact arithmetic both are `(Mᵀ)ⁿ`. Here every product rounds its cells once their sums are
complete, and a power multiplies by `M` from the right, so the two texts group the same factors
differently: `(X')^n` is `((Mᵀ·Mᵀ)·Mᵀ)⋯`, while `X'^n` is the transpose of `((M·M)·M)⋯`, which is
`Mᵀ·(Mᵀ·(Mᵀ⋯))`, the same chain grouped from the right (`transposed_power_groupings`).

The transpose of a rounded product is the rounded product of the transposes in turn
(`Matrix.transpose_productOf`): each cell sums the same terms in the same order, and the product of
two doubles does not depend on their order (`Binary.product_comm`). Up to the square, one product
is all there is and the two texts agree; from the cube on the groupings round apart
(`transposed_cube_rounds_apart`).
-/

namespace MatrixSteps

namespace Binary

open Float.Model UnpackedFloat

theorem sign_mul_comm (s t : Sign) : s * t = t * s := by
  cases s <;> cases t <;> rfl

theorem unpacked_mul_comm (a b : UnpackedFloat) :
    UnpackedFloat.mul .binary64 a b = UnpackedFloat.mul .binary64 b a := by
  cases a <;> cases b <;> simp only [UnpackedFloat.mul, sign_mul_comm, Nat.mul_comm, Int.add_comm]

theorem product_comm (x y : Float) : x * y = y * x := by
  show Float.ofModel (pack (UnpackedFloat.mul .binary64 x.toModel.unpack y.toModel.unpack)) =
    Float.ofModel (pack (UnpackedFloat.mul .binary64 y.toModel.unpack x.toModel.unpack))
  rw [unpacked_mul_comm]

end Binary

namespace Matrix

theorem cell_transpose (m : Matrix) {i j : Nat} (row : i < m.cols) (col : j < m.rows) :
    m.transpose.cell i j = m.cell j i :=
  Narration.gridOf_getD _ _ _ row col

theorem cell_productOf (a b : Matrix) {i j : Nat} (row : i < a.rows) (col : j < b.cols) :
    (productOf a b).cell i j =
      Places.roundCell ((List.range a.cols).foldl (fun acc k => acc + a.cell i k * b.cell k j) 0.0) :=
  Narration.gridOf_getD _ _ _ row col

theorem SameData.eq_relabel {a b : Matrix} (same : SameData a b) :
    b = { a with name := b.name, steps := b.steps } := by
  obtain ⟨shape, cells⟩ := same
  obtain ⟨name, rows, cols, data, steps⟩ := a
  obtain ⟨name', rows', cols', data', steps'⟩ := b
  obtain ⟨rfl, rfl⟩ := Shape.mk.inj shape
  obtain rfl : data = data' := cells
  rfl

theorem transpose_sameData {a b : Matrix} (same : SameData a b) :
    SameData a.transpose b.transpose := by
  rw [same.eq_relabel]
  exact ⟨rfl, rfl⟩

theorem productOf_sameData_right (a : Matrix) {b b' : Matrix} (same : SameData b b') :
    SameData (productOf a b) (productOf a b') := by
  rw [same.eq_relabel]
  exact ⟨rfl, rfl⟩

/-- The transpose of a product is the product of the transposes in turn, rounding included: the
cell `(j, i)` of `Bᵀ·Aᵀ` sums `B[k][j] · A[i][k]` over the same `k` in the same order as the cell
`(i, j)` of `A·B` sums `A[i][k] · B[k][j]`. -/
theorem transpose_productOf {a b : Matrix} (linked : a.cols = b.rows) :
    SameData (productOf a b).transpose (productOf b.transpose a.transpose) := by
  refine ⟨rfl, Narration.gridOf_congr fun i row j col => ?_⟩
  show (productOf a b).cell j i = Places.roundCell ((List.range b.rows).foldl
    (fun acc k => acc + b.transpose.cell i k * a.transpose.cell k j) 0.0)
  rw [cell_productOf a b col row, ← linked]
  congr 1
  refine List.foldl_ext _ _ _ fun acc k member => ?_
  have inner : k < a.cols := List.mem_range.mp member
  rw [cell_transpose b row (linked ▸ inner), cell_transpose a inner col, Binary.product_comm]

section Powers

variable {m : Matrix}

theorem transpose_isSquare (square : m.isSquare = true) : m.transpose.isSquare = true :=
  beq_iff_eq.mpr (cols_eq_rows square)

theorem foldl_productOf_replicate_cols (j : Nat) :
    ((List.replicate j m).foldl productOf m).cols = m.cols := by
  cases j with
  | zero => rfl
  | succ j => rw [List.replicate_succ', List.foldl_append]; rfl

theorem transpose_foldl_replicate (square : m.isSquare = true) (j : Nat) :
    SameData ((List.replicate j m).foldl productOf m).transpose
      ((List.replicate j m.transpose).foldr productOf m.transpose) := by
  induction j with
  | zero => exact .refl _
  | succ j ih =>
      have linked : ((List.replicate j m).foldl productOf m).cols = m.rows := by
        rw [foldl_productOf_replicate_cols, cols_eq_rows square]
      rw [List.replicate_succ', List.foldl_append, List.replicate_succ, List.foldr_cons]
      exact (transpose_productOf linked).trans (productOf_sameData_right _ ih)

end Powers

end Matrix

namespace Token

theorem ofString_transposed_power {x : String} (word : IsWord x) (k : Nat) :
    ofString (x ++ "'^" ++ toString k) =
      [⟨.identifier, x⟩, operatorOf transposeMark, operatorOf power, ⟨.number, toString k⟩] := by
  have spelled : (x ++ "'^" ++ toString k).toList = x.toList ++ '\'' :: '^' :: Nat.toDigits 10 k := by
    simp
  have stop : ∀ c ∈ ('\'' :: '^' :: Nat.toDigits 10 k).head?, c.isAlpha = false := by simp
  have mark : symbolKind? '\'' = some .operator := by decide
  have caret : symbolKind? '^' = some .operator := by decide
  have marked : String.singleton '\'' = transposeMark := by decide
  have raised : String.singleton '^' = power := by decide
  rw [ofString, spelled, scan_word word stop, scan_symbol mark, scan_symbol caret, scan_toDigits,
    marked, raised]
  rfl

theorem ofString_power_of_transposed {x : String} (word : IsWord x) (k : Nat) :
    ofString ("(" ++ x ++ "')^" ++ toString k) =
      [opening, ⟨.identifier, x⟩, operatorOf transposeMark, closing, operatorOf power,
        ⟨.number, toString k⟩] := by
  have spelled : ("(" ++ x ++ "')^" ++ toString k).toList =
      '(' :: (x.toList ++ '\'' :: ')' :: '^' :: Nat.toDigits 10 k) := by
    simp
  have stop : ∀ c ∈ ('\'' :: ')' :: '^' :: Nat.toDigits 10 k).head?, c.isAlpha = false := by simp
  have opens : symbolKind? '(' = some .openParen := by decide
  have mark : symbolKind? '\'' = some .operator := by decide
  have closes : symbolKind? ')' = some .closeParen := by decide
  have caret : symbolKind? '^' = some .operator := by decide
  have opened : String.singleton '(' = "(" := by decide
  have marked : String.singleton '\'' = transposeMark := by decide
  have closed : String.singleton ')' = ")" := by decide
  have raised : String.singleton '^' = power := by decide
  rw [ofString, spelled, scan_symbol opens, scan_word word stop, scan_symbol mark, scan_symbol closes,
    scan_symbol caret, scan_toDigits, opened, marked, closed, raised]
  rfl

end Token

theorem Derives.transposed_power_name (x lexeme : String) :
    Derives .expression
      [⟨.identifier, x⟩, Token.operatorOf transposeMark, Token.operatorOf Token.power, ⟨.number, lexeme⟩]
      (.transpose (.binary Token.power (.identifier x) (.number lexeme))) :=
  .summand (.factor (.raisePrimed (.unprimed (.identifier x)) (.base (.unprimed (.number lexeme)))))

theorem Derives.power_of_transposed_name (x lexeme : String) :
    Derives .expression
      [Token.opening, ⟨.identifier, x⟩, Token.operatorOf transposeMark, Token.closing,
        Token.operatorOf Token.power, ⟨.number, lexeme⟩]
      (.binary Token.power (.transpose (.identifier x)) (.number lexeme)) :=
  .summand (.factor (.raise (.group (.summand (.factor (.base (.prime (.unprimed (.identifier x)))))))
    (.base (.unprimed (.number lexeme)))))

namespace Expr

variable {inputs : List Entry} {table : VariableTable}

/-- A base that evaluates to a matrix, raised to the digits of `k`: the power of its matrix by the
double the digits read as, handed out after the base's trace. -/
theorem eval_power_numeral {b : Expr} {next : Nat} {e : Entry} {trace : List Entry}
    (based : b.eval {} inputs table next = .ok (.matrix e, trace)) (k : Nat) :
    (binary Token.power b (.number (toString k))).eval {} inputs table next =
      (fun p => ((handOut (next + trace.length) p).2, trace ++ (handOut (next + trace.length) p).1)) <$>
        Operator.power.apply (.matrix e.matrix) (.scalar (Decimal.toFloat false ⟨k, 0⟩)) := by
  have value : Machine.numberValue (toString k) = .ok (Decimal.toFloat false ⟨k, 0⟩) :=
    Machine.numberValue_of_read (FloatLiteral.read?_toString k)
  have named : Operator.ofSymbol? Token.power = some .power := by decide
  simp only [eval, based, value, named, ok_bind, pure_bind, beq_self_eq_true,
    if_true, List.length_nil, Nat.add_zero, List.append_nil]
  change (do
    let produced ← Operator.power.apply (.matrix e.matrix) (.scalar (Decimal.toFloat false ⟨k, 0⟩))
    pure ((handOut (next + trace.length) produced).2,
      trace ++ (handOut (next + trace.length) produced).1)) = _
  cases Operator.power.apply (.matrix e.matrix) (.scalar (Decimal.toFloat false ⟨k, 0⟩)) <;> rfl

/-- The transpose of a tree that evaluates to a matrix is handed out as the next fresh matrix,
after the tree's trace. -/
theorem eval_transpose_matrix {b : Expr} {next : Nat} {e : Entry} {trace : List Entry}
    (evaluated : b.eval {} inputs table next = .ok (.matrix e, trace)) :
    (transpose b).eval {} inputs table next =
      .ok (.matrix ⟨.fresh (next + trace.length), e.matrix.transpose⟩,
        trace ++ [⟨.fresh (next + trace.length), e.matrix.transpose⟩]) := by
  rw [eval_transpose, evaluated]
  rfl

theorem eval_name {x : String} {e : Entry} (looked : (table.resolve? x).bind (inputs[·]?) = some e)
    (next : Nat) : (identifier x).eval {} inputs table next = .ok (.matrix e, []) := by
  simp only [eval, looked]

end Expr

/-- Without limits, a text of the grammar whose tree evaluates to a matrix evaluates to it, with the
tree's trace. -/
theorem evaluate_of_eval {s : String} {e : Expr} (derives : Derives .expression (Token.ofString s) e)
    {inputs : List Entry} {table : VariableTable} (tabled : inputTable inputs = .ok table)
    {serial : Nat} {final : Entry} {trace : List Entry}
    (evaluated : e.eval {} inputs table serial = .ok (.matrix final, trace)) :
    evaluate {} inputs serial s = .ok ⟨trace, final⟩ := by
  rw [evaluate_of_derives derives, tabled, ok_bind, evaluated]

theorem evaluate_of_fault {s : String} {e : Expr} (derives : Derives .expression (Token.ofString s) e)
    {inputs : List Entry} {table : VariableTable} (tabled : inputTable inputs = .ok table)
    {serial : Nat} {f : Fault} (refused : e.eval {} inputs table serial = .error f) :
    evaluate {} inputs serial s = .error f := by
  rw [evaluate_of_derives derives, tabled, ok_bind, refused]

/-- The powers of a matrix, handed out from `next` on: the last is the result, and it is the last
power. -/
theorem Expr.handOut_powers (m : Matrix) {count : Nat} (positive : 1 ≤ count) (next : Nat) :
    ∃ entry, (handOut next (Produced.ofMatrices (Matrix.powersUpTo m count).1
        (Matrix.powersUpTo m count).2)).2 = .matrix entry ∧
      (handOut next (Produced.ofMatrices (Matrix.powersUpTo m count).1
        (Matrix.powersUpTo m count).2)).1.getLast? = some entry ∧
      Matrix.SameData entry.matrix ((List.replicate (count - 1) m).foldl Matrix.productOf m) := by
  obtain ⟨entry, result, ended, traced⟩ := Expr.handOut_matrices next _
    (Produced.ofMatrices_result (Matrix.powersUpTo m count).1 (Matrix.powersUpTo m count).2)
  obtain ⟨last, isLast, lastData⟩ := Matrix.powersUpTo_last m positive
  have lastOfTrace := congrArg (Option.map (·.matrix)) ended
  rw [← List.getLast?_map, traced, List.getLast?_append, List.getLast?_singleton, Option.some_or,
    Option.map_some] at lastOfTrace
  rw [List.getLast?_eq_some_getLast (List.cons_ne_nil _ _)] at isLast
  obtain rfl := Option.some.inj isLast
  exact ⟨entry, result, ended, (Option.some.inj lastOfTrace).symm ▸ lastData⟩

section Texts

variable {x : String} (word : Token.IsWord x) {inputs : List Entry} {m : Matrix}
  (names : Names inputs x m) (k serial : Nat)
include word names

/-- Without limits, `x'^k` is the transpose of the last power of the matrix `x` names, with the
trace ending in it; a refused exponent is the fault of the text. -/
theorem evaluate_transposed_power_name :
    (∀ f, Matrix.powerCount m (Decimal.toFloat false ⟨k, 0⟩) = .error f →
      evaluate {} inputs serial (x ++ "'^" ++ toString k) = .error f) ∧
    (∀ count, Matrix.powerCount m (Decimal.toFloat false ⟨k, 0⟩) = .ok count → 1 ≤ count →
      ∃ ev, evaluate {} inputs serial (x ++ "'^" ++ toString k) = .ok ev ∧
        ev.trace.getLast? = some ev.final ∧
        Matrix.SameData ev.final.matrix
          ((List.replicate (count - 1) m).foldl Matrix.productOf m).transpose) := by
  obtain ⟨table, e, tabled, looked, rfl⟩ := names
  have derives := Derives.transposed_power_name x (toString k)
  rw [← Token.ofString_transposed_power word k] at derives
  have power := Expr.eval_power_name looked k serial
  rw [Matrix.raise_eq] at power
  refine ⟨fun f refused => ?_, fun count counted positive => ?_⟩
  case refine_1 =>
    rw [refused] at power
    exact evaluate_of_fault derives tabled (by rw [Expr.eval_transpose, power]; rfl)
  case refine_2 =>
    obtain ⟨entry, result, -, lastData⟩ := Expr.handOut_powers e.matrix positive serial
    rw [counted, Except.map_ok, Except.map_ok, result] at power
    refine ⟨_, evaluate_of_eval derives tabled (Expr.eval_transpose_matrix power), by simp, ?_⟩
    exact Matrix.transpose_sameData lastData

/-- Without limits, `(x')^k` is the last power of the transpose of the matrix `x` names, with the
trace ending in it; a refused exponent is the fault of the text. -/
theorem evaluate_power_of_transposed_name :
    (∀ f, Matrix.powerCount m.transpose (Decimal.toFloat false ⟨k, 0⟩) = .error f →
      evaluate {} inputs serial ("(" ++ x ++ "')^" ++ toString k) = .error f) ∧
    (∀ count, Matrix.powerCount m.transpose (Decimal.toFloat false ⟨k, 0⟩) = .ok count → 1 ≤ count →
      ∃ ev, evaluate {} inputs serial ("(" ++ x ++ "')^" ++ toString k) = .ok ev ∧
        ev.trace.getLast? = some ev.final ∧
        Matrix.SameData ev.final.matrix
          ((List.replicate (count - 1) m.transpose).foldl Matrix.productOf m.transpose)) := by
  obtain ⟨table, e, tabled, looked, rfl⟩ := names
  have derives := Derives.power_of_transposed_name x (toString k)
  rw [← Token.ofString_power_of_transposed word k] at derives
  have power := Expr.eval_power_numeral (Expr.eval_transpose_matrix (Expr.eval_name looked serial)) k
  dsimp only [List.nil_append, List.length_nil, List.length_singleton, Nat.add_zero] at power
  rw [Matrix.raise_eq] at power
  refine ⟨fun f refused => ?_, fun count counted positive => ?_⟩
  case refine_1 =>
    rw [refused] at power
    exact evaluate_of_fault derives tabled power
  case refine_2 =>
    obtain ⟨entry, result, ended, lastData⟩ :=
      Expr.handOut_powers e.matrix.transpose positive (serial + 1)
    rw [counted, Except.map_ok, Except.map_ok, result] at power
    refine ⟨_, evaluate_of_eval derives tabled power, ?_, lastData⟩
    show (_ ++ _ : List Entry).getLast? = some entry
    rw [List.getLast?_append, ended]
    rfl

end Texts

open MatrixSteps.Matrix in
/-- Without limits, the two ways to write a power of a transposed name group the same factors
differently. For a square matrix `M` named by `x` and a numeral `n` whose double is the power count
`k`, both `x'^n` and `(x')^n` evaluate, each ending its trace in its result. The result of `x'^n` has
the data of `Mᵀ·(Mᵀ·(⋯·Mᵀ))`, grouped from the right, and that of `(x')^n` the data of
`((Mᵀ·Mᵀ)·⋯)·Mᵀ`, grouped from the left, each product rounded; up to the square they are the same.
A numeral that is no power count is refused by both texts alike, as an invalid exponent. -/
theorem transposed_power_groupings {m : Matrix} (square : m.isSquare = true) {x : String}
    (word : Token.IsWord x) {inputs : List Entry} (names : Names inputs x m) (n serial : Nat) :
    (∀ k, exponentCount? (Decimal.toFloat false ⟨n, 0⟩) = some k →
      ∃ ev ev', evaluate {} inputs serial (x ++ "'^" ++ toString n) = .ok ev ∧
        evaluate {} inputs serial ("(" ++ x ++ "')^" ++ toString n) = .ok ev' ∧
        ev.trace.getLast? = some ev.final ∧ ev'.trace.getLast? = some ev'.final ∧
        SameData ev.final.matrix ((List.replicate (k - 1) m.transpose).foldr productOf m.transpose) ∧
        SameData ev'.final.matrix ((List.replicate (k - 1) m.transpose).foldl productOf m.transpose) ∧
        (k ≤ 2 → SameData ev.final.matrix ev'.final.matrix)) ∧
    (exponentCount? (Decimal.toFloat false ⟨n, 0⟩) = none →
      ∃ f, evaluate {} inputs serial (x ++ "'^" ++ toString n) = .error f ∧
        evaluate {} inputs serial ("(" ++ x ++ "')^" ++ toString n) = .error f ∧
        f.kind = "InvalidExponent") := by
  have transposed := evaluate_transposed_power_name word names n serial
  have powered := evaluate_power_of_transposed_name word names n serial
  refine ⟨fun k counted => ?counted, fun uncounted => ?uncounted⟩
  case counted =>
    have positive := (exponentCount?_eq_some_iff.mp counted).2
    obtain ⟨ev, evaluated, ended, final⟩ :=
      transposed.2 k (powerCount_of_square square counted) positive
    obtain ⟨ev', evaluated', ended', final'⟩ :=
      powered.2 k (powerCount_of_square (transpose_isSquare square) counted) positive
    have grouped := final.trans (transpose_foldl_replicate square (k - 1))
    refine ⟨ev, ev', evaluated, evaluated', ended, ended', grouped, final', fun small => ?_⟩
    have same : (List.replicate (k - 1) m.transpose).foldr productOf m.transpose =
        (List.replicate (k - 1) m.transpose).foldl productOf m.transpose := by
      obtain none | one : k - 1 = 0 ∨ k - 1 = 1 := by omega
      · rw [none]; rfl
      · rw [one]; rfl
    refine grouped.trans ?_
    rw [same]
    exact final'.symm
  case uncounted =>
    exact ⟨_, transposed.1 _ (powerCount_of_uncounted square uncounted),
      powered.1 _ (powerCount_of_uncounted (transpose_isSquare square) uncounted), rfl⟩

set_option maxRecDepth 8000 in
/-- The square of the transpose of `A = [[0, 0], [2, 0.125]]` is the same both ways. -/
theorem transposed_square_agrees :
    (⟨"A", 2, 2, [[0.0, 0.0], [2.0, 0.125]], none⟩ : Matrix).isSquare = true ∧ Token.IsWord "A" ∧
      Names [⟨.given "a", ⟨"A", 2, 2, [[0.0, 0.0], [2.0, 0.125]], none⟩⟩] "A"
        ⟨"A", 2, 2, [[0.0, 0.0], [2.0, 0.125]], none⟩ ∧
      ∃ ev ev', evaluate {} [⟨.given "a", ⟨"A", 2, 2, [[0.0, 0.0], [2.0, 0.125]], none⟩⟩] 0
          ("A" ++ "'^" ++ toString 2) = .ok ev ∧
        evaluate {} [⟨.given "a", ⟨"A", 2, 2, [[0.0, 0.0], [2.0, 0.125]], none⟩⟩] 0
          ("(" ++ "A" ++ "')^" ++ toString 2) = .ok ev' ∧
        Matrix.SameData ev.final.matrix ev'.final.matrix := by
  have square : (⟨"A", 2, 2, [[0.0, 0.0], [2.0, 0.125]], none⟩ : Matrix).isSquare = true := rfl
  have word : Token.IsWord "A" := by simp [Token.IsWord]
  have names : Names [⟨.given "a", ⟨"A", 2, 2, [[0.0, 0.0], [2.0, 0.125]], none⟩⟩] "A"
      ⟨"A", 2, 2, [[0.0, 0.0], [2.0, 0.125]], none⟩ :=
    ⟨_, _, rfl, rfl, rfl⟩
  have counted : Matrix.exponentCount? (Decimal.toFloat false ⟨2, 0⟩) = some 2 := by
    decide +kernel
  obtain ⟨ev, ev', evaluated, evaluated', -, -, -, -, agree⟩ :=
    (transposed_power_groupings square word names 2 0).1 2 counted
  exact ⟨square, word, names, ev, ev', evaluated, evaluated', agree (by decide)⟩

set_option maxRecDepth 8000 in
/-- The cube of the transpose of `A = [[0, 0], [2, 0.125]]` rounds apart the two ways. Grouped from
the right, as `A'^3` is, the cell in the first row and second column is `0.0312`; grouped from the
left, as `(A')^3` is, it is `0.0313`. -/
theorem transposed_cube_rounds_apart :
    ∃ ev ev', evaluate {} [⟨.given "a", ⟨"A", 2, 2, [[0.0, 0.0], [2.0, 0.125]], none⟩⟩] 0 "A'^3" =
        .ok ev ∧
      evaluate {} [⟨.given "a", ⟨"A", 2, 2, [[0.0, 0.0], [2.0, 0.125]], none⟩⟩] 0 "(A')^3" =
        .ok ev' ∧
      Binary.parts (ev.final.matrix.cell 0 1) = Binary.parts 0.0312 ∧
      Binary.parts (ev'.final.matrix.cell 0 1) = Binary.parts 0.0313 ∧
      ev.final.matrix.cells ≠ ev'.final.matrix.cells := by
  have right : (evaluate {} [⟨.given "a", ⟨"A", 2, 2, [[0.0, 0.0], [2.0, 0.125]], none⟩⟩] 0
      "A'^3").toOption.map (fun ev => Binary.parts (ev.final.matrix.cell 0 1)) =
        some (Binary.parts 0.0312) := by
    decide +kernel
  have left : (evaluate {} [⟨.given "a", ⟨"A", 2, 2, [[0.0, 0.0], [2.0, 0.125]], none⟩⟩] 0
      "(A')^3").toOption.map (fun ev => Binary.parts (ev.final.matrix.cell 0 1)) =
        some (Binary.parts 0.0313) := by
    decide +kernel
  have apart : Binary.parts 0.0312 ≠ Binary.parts 0.0313 := by decide +kernel
  cases grouped : evaluate {} [⟨.given "a", ⟨"A", 2, 2, [[0.0, 0.0], [2.0, 0.125]], none⟩⟩] 0
      "A'^3" with
  | error f => rw [grouped] at right; cases right
  | ok ev =>
      cases grouped' : evaluate {} [⟨.given "a", ⟨"A", 2, 2, [[0.0, 0.0], [2.0, 0.125]], none⟩⟩] 0
          "(A')^3" with
      | error f => rw [grouped'] at left; cases left
      | ok ev' =>
          rw [grouped] at right
          rw [grouped'] at left
          have rightCell : Binary.parts (ev.final.matrix.cell 0 1) = _ := Option.some.inj right
          have leftCell : Binary.parts (ev'.final.matrix.cell 0 1) = _ := Option.some.inj left
          refine ⟨ev, ev', rfl, rfl, rightCell, leftCell, fun same => apart ?_⟩
          rw [← rightCell, ← leftCell, Matrix.cell_congr same]

end MatrixSteps
