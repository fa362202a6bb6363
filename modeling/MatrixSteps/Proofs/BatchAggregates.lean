import Mathlib
import MatrixSteps.Proofs.SignedZero
import MatrixSteps.Proofs.OperatorChains

/-!
The operations that combine a selection of matrices agree with the expression engine on the chain
of the same operator. Adding `M₁, …, Mₙ` as one operation and evaluating `X₁ + ⋯ + Xₙ` give
matrices of one shape with the same cells, bit for bit, or both fail on a mismatch of dimensions;
likewise for sequential differences and chained products (`combined_selection_matches_chain`).

The one point of substance is the sum. The operation adds each cell to `+0` and then the others in
turn, while the expression adds two matrices at a time, each time from `+0` again. A running sum is
never `-0`, so adding it to `+0` gives it back, and the two agree (`cells_nestedSums`).
-/

namespace MatrixSteps

namespace Narration

theorem gridOf_getD (rows cols : Nat) (f : Nat → Nat → Float) {i j : Nat} (row : i < rows)
    (col : j < cols) : ((gridOf rows cols f).getD i []).getD j 0.0 = f i j := by
  simp [gridOf, row, col]

theorem gridOf_congr {rows cols : Nat} {f g : Nat → Nat → Float}
    (same : ∀ i < rows, ∀ j < cols, f i j = g i j) : gridOf rows cols f = gridOf rows cols g := by
  unfold gridOf
  refine List.map_congr_left fun i row => List.map_congr_left fun j col => ?_
  exact same i (List.mem_range.mp row) j (List.mem_range.mp col)

end Narration

namespace Matrix

open Binary

theorem cell_congr {a b : Matrix} (same : a.cells = b.cells) (i j : Nat) : a.cell i j = b.cell i j := by
  simp only [cell, same]

theorem cell_sumOf (first : Matrix) (rest : List Matrix) {i j : Nat} (row : i < first.rows)
    (col : j < first.cols) :
    (sumOf first rest).cell i j = (first :: rest).foldl (fun acc m => acc + m.cell i j) 0.0 :=
  Narration.gridOf_getD _ _ _ row col

theorem cell_differenceOf (first : Matrix) (rest : List Matrix) {i j : Nat} (row : i < first.rows)
    (col : j < first.cols) :
    (differenceOf first rest).cell i j = rest.foldl (fun acc m => acc - m.cell i j) (first.cell i j) :=
  Narration.gridOf_getD _ _ _ row col

theorem foldl_shape {step : Matrix → Matrix → Matrix} (keeps : ∀ a m, (step a m).shape = a.shape)
    (acc : Matrix) (rest : List Matrix) : (rest.foldl step acc).shape = acc.shape := by
  induction rest generalizing acc with
  | nil => rfl
  | cons m more ih => rw [List.foldl_cons, ih, keeps]

/-- Adding matrices two at a time continues a sum from `+0` bit for bit: the running sum is never
`-0`, so adding it to `+0` once more gives it back. -/
theorem cells_foldl_sumOf {first acc : Matrix} {done : List Matrix} (rows : acc.rows = first.rows)
    (cols : acc.cols = first.cols) (cells : acc.cells = (sumOf first done).cells)
    (rest : List Matrix) :
    (rest.foldl (fun a m => sumOf a [m]) acc).cells = (sumOf first (done ++ rest)).cells := by
  induction rest generalizing acc done with
  | nil => rw [List.append_nil]; exact cells
  | cons m more ih =>
      rw [List.foldl_cons, show done ++ m :: more = (done ++ [m]) ++ more by simp]
      refine ih rows cols ?_
      change Narration.gridOf acc.rows acc.cols _ = Narration.gridOf first.rows first.cols _
      rw [rows, cols]
      refine Narration.gridOf_congr fun i row j col => ?_
      have running : acc.cell i j = (first :: done).foldl (fun s n => s + n.cell i j) 0.0 := by
        rw [cell_congr cells, cell_sumOf first done row col]
      have notNegative := foldl_add_not_negativeZero (fun n : Matrix => n.cell i j) (first :: done)
        not_negativeZero_zero
      simp only [List.foldl_cons, List.foldl_nil, List.foldl_append]
      rw [running, zero_add_of_not_negativeZero notNegative]
      rfl

theorem cells_nestedSums (first m : Matrix) (rest : List Matrix) :
    ((m :: rest).foldl (fun a n => sumOf a [n]) first).cells = (sumOf first (m :: rest)).cells :=
  @cells_foldl_sumOf first (sumOf first [m]) [m] rfl rfl rfl rest

theorem cells_foldl_differenceOf {first acc : Matrix} {done : List Matrix}
    (rows : acc.rows = first.rows) (cols : acc.cols = first.cols)
    (cells : acc.cells = (differenceOf first done).cells) (rest : List Matrix) :
    (rest.foldl (fun a m => differenceOf a [m]) acc).cells =
      (differenceOf first (done ++ rest)).cells := by
  induction rest generalizing acc done with
  | nil => rw [List.append_nil]; exact cells
  | cons m more ih =>
      rw [List.foldl_cons, show done ++ m :: more = (done ++ [m]) ++ more by simp]
      refine ih rows cols ?_
      change Narration.gridOf acc.rows acc.cols _ = Narration.gridOf first.rows first.cols _
      rw [rows, cols]
      refine Narration.gridOf_congr fun i row j col => ?_
      have running : acc.cell i j = done.foldl (fun s n => s - n.cell i j) (first.cell i j) := by
        rw [cell_congr cells, cell_differenceOf first done row col]
      simp only [List.foldl_cons, List.foldl_nil, List.foldl_append]
      rw [running]

theorem cells_nestedDifferences (first m : Matrix) (rest : List Matrix) :
    ((m :: rest).foldl (fun a n => differenceOf a [n]) first).cells =
      (differenceOf first (m :: rest)).cells :=
  @cells_foldl_differenceOf first (differenceOf first [m]) [m] rfl rfl rfl rest

theorem checkShapes_of_same (kind : Combination) {first : Matrix} {rest : List Matrix}
    (same : ∀ m ∈ rest, m.shape = first.shape) : checkShapes kind first rest = .ok () := by
  unfold checkShapes
  rw [List.find?_eq_none.mpr fun m member => by simp [same m member]]

theorem checkShapes_mismatch (kind : Combination) {first : Matrix} {rest : List Matrix}
    (differs : ¬ ∀ m ∈ rest, m.shape = first.shape) :
    ∃ f, checkShapes kind first rest = .error f ∧ f.kind = "DimensionMismatch" := by
  unfold checkShapes
  split
  · exact ⟨_, rfl, rfl⟩
  · next none =>
      exact absurd (fun m member => by simpa using List.find?_eq_none.mp none m member) differs

theorem chainFrom_of_linked (headed : Bool) {current : Matrix} {rest : List Matrix}
    (linked : Linked (current :: rest)) (k : Nat) (acc : List String) :
    ∃ steps, chainFrom headed current k acc rest = .ok (rest.foldl productOf current, steps) := by
  have ran := chainFrom_fst headed current k acc rest
  rw [foldlM_product_of_linked linked] at ran
  cases chained : chainFrom headed current k acc rest with
  | error fault => rw [chained] at ran; cases ran
  | ok done =>
      obtain ⟨last, steps⟩ := done
      rw [chained] at ran
      obtain rfl : last = rest.foldl productOf current := Except.ok.inj ran
      exact ⟨steps, rfl⟩

/-- The chained product of a linked chain of two matrices or more is the products taken from the
left, with the steps of them all. -/
theorem chainProduct_of_linked {first m : Matrix} {rest : List Matrix}
    (linked : Linked (first :: m :: rest)) :
    ∃ steps, chainProduct (first :: m :: rest) =
      .ok { (m :: rest).foldl productOf first with steps := some steps } := by
  obtain ⟨steps, chained⟩ := chainFrom_of_linked (2 < (m :: rest).length + 1) linked 1 []
  refine ⟨steps, ?_⟩
  rw [chainProduct, chained]
  exacts [rfl, List.cons_ne_nil m rest]

end Matrix

namespace Workbench

open MatrixSteps.Matrix

/-- An operation that combines the selection logs its one combined matrix, under the next fresh
handle. -/
theorem apply_combining {operation : Operation}
    (combining : operation = .add ∨ operation = .subtract ∨ operation = .multiply)
    {selected : List Matrix} (nonempty : selected ≠ []) (scalar exponent : Float) (firstSerial : Nat) :
    apply operation selected scalar exponent firstSerial =
      (fun r => ({
          operation := operation, details := operation.name, inputs := selected.map (·.name),
          scalar := recordedScalar operation scalar exponent,
          results := [⟨.fresh firstSerial, r⟩] } : OperationLog)) <$>
        combineAll operation selected := by
  have each : operation.actsOnEach = false := by rcases combining with rfl | rfl | rfl <;> rfl
  have combines : operation.combines = true := by rcases combining with rfl | rfl | rfl <;> rfl
  unfold apply results
  rw [if_neg (by simpa using nonempty), if_neg (by simp [each]), if_pos combines]
  cases combineAll operation selected <;> rfl

theorem combineAll_cellwise_of_same {operation : Operation}
    (cellwise : operation = .add ∨ operation = .subtract) {first m : Matrix} {rest : List Matrix}
    (same : ∀ n ∈ m :: rest, n.shape = first.shape) :
    combineAll operation (first :: m :: rest) =
      .ok (if operation = .add then sumOf first (m :: rest) else differenceOf first (m :: rest)) := by
  have matching : dimensionsMatch (first :: m :: rest) = true := by
    simpa [dimensionsMatch] using same
  rcases cellwise with rfl | rfl
  · simp [combineAll, matching, Matrix.sum, checkShapes_of_same .addition same]
  · simp [combineAll, matching, Matrix.difference, checkShapes_of_same .subtraction same]

theorem combineAll_cellwise_of_mismatch {operation : Operation}
    (cellwise : operation = .add ∨ operation = .subtract) {first m : Matrix} {rest : List Matrix}
    (differs : ¬ ∀ n ∈ m :: rest, n.shape = first.shape) :
    ∃ f, combineAll operation (first :: m :: rest) = .error f ∧ f.kind = "DimensionMismatch" := by
  have mismatched : dimensionsMatch (first :: m :: rest) = false := by
    simpa [dimensionsMatch] using differs
  rcases cellwise with rfl | rfl
  · exact ⟨.selectionMismatch .addition, by simp [combineAll, mismatched], rfl⟩
  · exact ⟨.selectionMismatch .subtraction, by simp [combineAll, mismatched], rfl⟩

theorem combineAll_multiply_of_linked {first m : Matrix} {rest : List Matrix}
    (linked : Linked (first :: m :: rest)) :
    combineAll .multiply (first :: m :: rest) = chainProduct (first :: m :: rest) := by
  have valid : chainValid (first :: m :: rest) = true := (chainValid_iff _).mpr ⟨by simp, linked⟩
  simp [combineAll, valid]

theorem combineAll_multiply_of_not_linked {first m : Matrix} {rest : List Matrix}
    (broken : ¬ Linked (first :: m :: rest)) :
    combineAll .multiply (first :: m :: rest) = .error .chainMismatch := by
  have invalid : chainValid (first :: m :: rest) = false :=
    Bool.eq_false_iff.mpr fun valid => broken ((chainValid_iff _).mp valid).2
  simp [combineAll, invalid]

end Workbench

/-- Two computations of a matrix succeed together, with matrices of one shape and the same cells,
and fail only on a mismatch of dimensions. -/
structure Agree (x y : Except Fault Matrix) : Prop where
  succeed : (∃ a, x = .ok a) ↔ ∃ b, y = .ok b
  same : ∀ a b, x = .ok a → y = .ok b → a.shape = b.shape ∧ a.cells = b.cells
  leftMismatch : ∀ f, x = .error f → f.kind = "DimensionMismatch"
  rightMismatch : ∀ f, y = .error f → f.kind = "DimensionMismatch"

/-- Two computations agree when they succeed under the same condition with matrices of the same
data, and otherwise both fail on a mismatch of dimensions. -/
theorem Agree.of_cases {P : Prop} {x y : Except Fault Matrix}
    (holds : P → ∃ a b, x = .ok a ∧ y = .ok b ∧ a.shape = b.shape ∧ a.cells = b.cells)
    (fails : ¬ P → (∃ f, x = .error f ∧ f.kind = "DimensionMismatch") ∧
      ∃ g, y = .error g ∧ g.kind = "DimensionMismatch") : Agree x y := by
  by_cases p : P
  · obtain ⟨a, b, rfl, rfl, shape, cells⟩ := holds p
    refine ⟨⟨fun _ => ⟨b, rfl⟩, fun _ => ⟨a, rfl⟩⟩, ?_, ?_, ?_⟩
    · intro a' b' left right
      cases left
      cases right
      exact ⟨shape, cells⟩
    · intro f failed
      cases failed
    · intro g failed
      cases failed
  · obtain ⟨⟨f, rfl, leftKind⟩, g, rfl, rightKind⟩ := fails p
    refine ⟨⟨?_, ?_⟩, ?_, ?_, ?_⟩
    · rintro ⟨a, ⟨⟩⟩
    · rintro ⟨b, ⟨⟩⟩
    · intro a b left
      cases left
    · intro f' failed
      cases failed
      exact leftKind
    · intro g' failed
      cases failed
      exact rightKind

/-- Agreement read through a log made from the left matrix and a run whose final matrix is the
right one. -/
theorem Agree.through {x y : Except Fault Matrix} (agree : Agree x y) {α β : Type}
    {log : Matrix → α} {made : Except Fault α} (logged : made = log <$> x) {run : Except Fault β}
    {final : β → Matrix} (ran : final <$> run = y) :
    ((∃ l, made = .ok l) ↔ ∃ r, run = .ok r) ∧
      (∀ l r, made = .ok l → run = .ok r →
        ∃ a, l = log a ∧ a.shape = (final r).shape ∧ a.cells = (final r).cells) ∧
      (∀ f, made = .error f → f.kind = "DimensionMismatch") ∧
      (∀ f, run = .error f → f.kind = "DimensionMismatch") := by
  subst logged ran
  obtain ⟨succeed, same, leftMismatch, rightMismatch⟩ := agree
  refine ⟨⟨?_, ?_⟩, ?_, ?_, ?_⟩
  · rintro ⟨l, made⟩
    cases x with
    | error f => cases made
    | ok a =>
        obtain ⟨b, ranOk⟩ := succeed.mp ⟨a, rfl⟩
        cases run with
        | error g => cases ranOk
        | ok r => exact ⟨r, rfl⟩
  · rintro ⟨r, rfl⟩
    obtain ⟨a, rfl⟩ := succeed.mpr ⟨final r, rfl⟩
    exact ⟨log a, rfl⟩
  · rintro l r made rfl
    cases x with
    | error f => cases made
    | ok a =>
        cases made
        exact ⟨a, rfl, same a (final r) rfl rfl⟩
  · intro f failed
    cases x with
    | error f' =>
        cases failed
        exact leftMismatch f rfl
    | ok a => cases failed
  · rintro f rfl
    exact rightMismatch f rfl

section Chains

open MatrixSteps.Matrix

theorem agree_sums (first m : Matrix) (rest : List Matrix) :
    Agree (Workbench.combineAll .add (first :: m :: rest))
      (Operator.plus.foldLeft (.matrix first) ((m :: rest).map .matrix) >>= Value.asResult) := by
  rw [Operator.foldLeft_plus, Operator.foldlM_combine]
  simp only [beq_self_eq_true, ↓reduceIte]
  apply Agree.of_cases (P := ∀ n ∈ m :: rest, n.shape = first.shape)
  · intro same
    refine ⟨sumOf first (m :: rest), (m :: rest).foldl (fun a n => sumOf a [n]) first, ?_, ?_, ?_,
      (cells_nestedSums first m rest).symm⟩
    · rw [Workbench.combineAll_cellwise_of_same (.inl rfl) same, if_pos rfl]
    · rw [checkShapes_of_same _ same]
      rfl
    · rw [@foldl_shape (fun a n => sumOf a [n]) (fun _ _ => rfl)]
      rfl
  · intro differs
    refine ⟨Workbench.combineAll_cellwise_of_mismatch (.inl rfl) differs, ?_⟩
    obtain ⟨f, checked, kind⟩ := checkShapes_mismatch .addition differs
    exact ⟨f, by rw [checked]; rfl, kind⟩

theorem agree_differences (first m : Matrix) (rest : List Matrix) :
    Agree (Workbench.combineAll .subtract (first :: m :: rest))
      (Operator.minus.foldLeft (.matrix first) ((m :: rest).map .matrix) >>= Value.asResult) := by
  rw [Operator.foldLeft_minus, Operator.foldlM_combine]
  have subtracting : (Combination.subtraction == .addition) = false := rfl
  simp only [subtracting, Bool.false_eq_true, ↓reduceIte]
  apply Agree.of_cases (P := ∀ n ∈ m :: rest, n.shape = first.shape)
  · intro same
    refine ⟨differenceOf first (m :: rest), (m :: rest).foldl (fun a n => differenceOf a [n]) first,
      ?_, ?_, ?_, (cells_nestedDifferences first m rest).symm⟩
    · rw [Workbench.combineAll_cellwise_of_same (.inr rfl) same, if_neg (by decide)]
    · rw [checkShapes_of_same _ same]
      rfl
    · rw [@foldl_shape (fun a n => differenceOf a [n]) (fun _ _ => rfl)]
      rfl
  · intro differs
    refine ⟨Workbench.combineAll_cellwise_of_mismatch (.inr rfl) differs, ?_⟩
    obtain ⟨f, checked, kind⟩ := checkShapes_mismatch .subtraction differs
    exact ⟨f, by rw [checked]; rfl, kind⟩

theorem agree_products (first m : Matrix) (rest : List Matrix) :
    Agree (Workbench.combineAll .multiply (first :: m :: rest))
      (Operator.times.foldLeft (.matrix first) ((m :: rest).map .matrix) >>= Value.asResult) := by
  rw [Operator.foldLeft_times, Operator.foldlM_multiply]
  apply Agree.of_cases (P := Linked (first :: m :: rest))
  · intro linked
    obtain ⟨steps, chained⟩ := chainProduct_of_linked linked
    refine ⟨_, (m :: rest).foldl productOf first,
      (Workbench.combineAll_multiply_of_linked linked).trans chained, ?_, rfl, rfl⟩
    rw [foldlM_product_of_linked linked]
    rfl
  · intro broken
    refine ⟨⟨_, Workbench.combineAll_multiply_of_not_linked broken, rfl⟩, ?_⟩
    obtain ⟨a, b, failed⟩ := foldlM_product_of_not_linked broken
    exact ⟨_, by rw [failed]; rfl, rfl⟩

/-- The three operations that combine a selection, each with its symbol in expressions, and the
agreement of the two ways of combining. -/
theorem agree_chain {operation : Operation} {c : Char}
    (paired : (operation, c) ∈ [(.add, '+'), (.subtract, '-'), (.multiply, '*')]) :
    ∃ op, Operator.ofSymbol? (String.singleton c) = some op ∧ op ≠ .power ∧
      Token.symbolKind? c = some .operator ∧
      (String.singleton c = "+" ∨ String.singleton c = "-" ∨ String.singleton c = "*") ∧
      (operation = .add ∨ operation = .subtract ∨ operation = .multiply) ∧
      ∀ first m rest, Agree (Workbench.combineAll operation (first :: m :: rest))
        (op.foldLeft (.matrix first) ((m :: rest).map .matrix) >>= Value.asResult) := by
  simp only [List.mem_cons, Prod.mk.injEq, List.not_mem_nil, or_false] at paired
  rcases paired with ⟨rfl, rfl⟩ | ⟨rfl, rfl⟩ | ⟨rfl, rfl⟩
  · exact ⟨.plus, by decide, by decide, rfl, .inl (by decide), .inl rfl, agree_sums⟩
  · exact ⟨.minus, by decide, by decide, rfl, .inr (.inl (by decide)), .inr (.inl rfl),
      agree_differences⟩
  · exact ⟨.times, by decide, by decide, rfl, .inr (.inr (by decide)), .inr (.inr rfl),
      agree_products⟩

end Chains

/-- The text `x₁ o x₂ o ⋯ o xₙ`: the names joined by the operator symbol between single blanks. -/
def chainText (c : Char) (xs : List String) : String :=
  String.intercalate (" " ++ String.singleton c ++ " ") xs

example : chainText '+' ["A", "B", "C"] = "A + B + C" := by decide

/-- Combining a selection of two matrices or more by addition, sequential subtraction or chained
multiplication agrees with evaluating the chain of names of those matrices under the operator's
symbol, taken from the left. Both succeed together, and then the one matrix the operation logs has
the shape and the cells, bit for bit, of the last matrix of the evaluation's trace; or both fail on a
mismatch of dimensions. -/
theorem combined_selection_matches_chain {operation : Operation} {c : Char}
    (paired : (operation, c) ∈ [(.add, '+'), (.subtract, '-'), (.multiply, '*')])
    {inputs : List Entry} {xs : List String} (words : ∀ x ∈ xs, Token.IsWord x)
    (names : List.Forall₂ (Names inputs) xs (inputs.map (·.matrix))) (several : 2 ≤ inputs.length)
    (scalar exponent : Float) (serial firstSerial : Nat) :
    ((∃ log, Workbench.apply operation (inputs.map (·.matrix)) scalar exponent serial = .ok log) ↔
        ∃ ev, evaluate {} inputs firstSerial (chainText c xs) = .ok ev) ∧
      (∀ log ev, Workbench.apply operation (inputs.map (·.matrix)) scalar exponent serial = .ok log →
        evaluate {} inputs firstSerial (chainText c xs) = .ok ev →
        ∃ result last, log.results = [result] ∧ ev.trace.getLast? = some last ∧
          result.matrix.shape = last.matrix.shape ∧ result.matrix.cells = last.matrix.cells) ∧
      (∀ f, Workbench.apply operation (inputs.map (·.matrix)) scalar exponent serial = .error f →
        f.kind = "DimensionMismatch") ∧
      (∀ f, evaluate {} inputs firstSerial (chainText c xs) = .error f →
        f.kind = "DimensionMismatch") := by
  obtain ⟨op, named, notPower, operator, binary, combining, agree⟩ := agree_chain paired
  have long : 2 ≤ xs.length := by simpa [names.length_eq] using several
  obtain ⟨x, y, ys, rfl⟩ : ∃ x y ys, xs = x :: y :: ys := by
    match xs, long with
    | x :: y :: ys, _ => exact ⟨x, y, ys, rfl⟩
  obtain ⟨table, tabled⟩ : ∃ table, inputTable inputs = .ok table := by
    obtain ⟨m, -, ⟨table, -, tabled, -⟩, -⟩ := List.forall₂_cons_left_iff.mp names
    exact ⟨table, tabled⟩
  obtain ⟨entries, resolved, matrices⟩ := Names.resolved tabled names
  obtain ⟨e, e', es, rfl⟩ : ∃ e e' es, entries = e :: e' :: es := by
    match entries, resolved with
    | e :: e' :: es, _ => exact ⟨e, e', es, rfl⟩
  have selected : inputs.map (·.matrix) ≠ [] := by
    rw [← matrices]
    exact List.cons_ne_nil _ _
  have batch := Workbench.apply_combining combining selected scalar exponent serial
  have chain := evaluate_chain operator binary named notPower
    (show (" " : String).toList.all Text.isBlank = true from rfl) words (List.cons_ne_nil _ _) tabled
    resolved firstSerial
  have agreeing : Agree (Workbench.combineAll operation (inputs.map (·.matrix)))
      (op.foldLeft (.matrix e.matrix) ((e' :: es).map (.matrix ·.matrix)) >>= Value.asResult) := by
    have spelled : (e' :: es).map (fun x => Value.matrix x.matrix) =
        ((e' :: es).map (·.matrix)).map Value.matrix :=
      (List.map_map ..).symm
    rw [← matrices, spelled]
    exact agree e.matrix e'.matrix (es.map (·.matrix))
  obtain ⟨succeed, same, batchMismatch, chainMismatch⟩ := agreeing.through batch chain.1
  refine ⟨succeed, ?_, batchMismatch, chainMismatch⟩
  intro log ev logged evaluated
  obtain ⟨a, rfl, shape, cells⟩ := same log ev logged evaluated
  exact ⟨⟨.fresh serial, a⟩, ev.final, rfl, chain.2 ev evaluated, shape, cells⟩

set_option maxRecDepth 8000 in
/-- Two matrices of one by one, added as a selection and as the text `A + B`. -/
theorem sum_of_two_names_matches_chain :
    List.Forall₂ (Names [⟨.given "a", ⟨"A", 1, 1, [[1.0]], none⟩⟩, ⟨.given "b", ⟨"B", 1, 1, [[2.0]], none⟩⟩])
        ["A", "B"] [⟨"A", 1, 1, [[1.0]], none⟩, ⟨"B", 1, 1, [[2.0]], none⟩] ∧
      ∃ log ev,
        Workbench.apply .add [⟨"A", 1, 1, [[1.0]], none⟩, ⟨"B", 1, 1, [[2.0]], none⟩] 0.0 0.0 2 = .ok log ∧
        evaluate {} [⟨.given "a", ⟨"A", 1, 1, [[1.0]], none⟩⟩, ⟨.given "b", ⟨"B", 1, 1, [[2.0]], none⟩⟩] 2
          (chainText '+' ["A", "B"]) = .ok ev ∧
        ∃ result last, log.results = [result] ∧ ev.trace.getLast? = some last ∧
          result.matrix.shape = last.matrix.shape ∧ result.matrix.cells = last.matrix.cells := by
  have names : List.Forall₂ (Names [⟨.given "a", ⟨"A", 1, 1, [[1.0]], none⟩⟩,
      ⟨.given "b", ⟨"B", 1, 1, [[2.0]], none⟩⟩]) ["A", "B"]
      [⟨"A", 1, 1, [[1.0]], none⟩, ⟨"B", 1, 1, [[2.0]], none⟩] :=
    .cons ⟨_, _, rfl, rfl, rfl⟩ (.cons ⟨_, _, rfl, rfl, rfl⟩ .nil)
  have agree := combined_selection_matches_chain (List.mem_cons_self ..) (by simp [Token.IsWord])
    names (by decide) 0.0 0.0 2 2
  obtain ⟨log, logged⟩ : ∃ log, Workbench.apply .add
      [⟨"A", 1, 1, [[1.0]], none⟩, ⟨"B", 1, 1, [[2.0]], none⟩] 0.0 0.0 2 = .ok log := ⟨_, rfl⟩
  obtain ⟨ev, evaluated⟩ := agree.1.mp ⟨log, logged⟩
  exact ⟨names, log, ev, logged, evaluated, agree.2.1 log ev logged evaluated⟩

end MatrixSteps
