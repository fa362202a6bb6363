import Mathlib
import MatrixSteps.Proofs.IntegerNumerals
import MatrixSteps.Proofs.BatchAggregates

/-!
The four ways to raise a square matrix `M` to a whole power `n` agree. The sequence of powers holds
`M^2, …, M^n`, each the previous one times `M` under the name `M^k`, or for `n = 1` a copy of `M`
alone. The power, the chained product of `n` copies of `M`, and the evaluations of `X^n` and of
`X*X*⋯*X` all end in a matrix with the data of the last power, and the trace of `X^n` is the
sequence of powers itself (`power_paths_agree`).

Products read only the shape and the cells of their operands, never their names or steps, so the
argument compares matrices by their data (`Matrix.SameData`) and follows the products from the
left: each path multiplies the previous result by `M` once per step.
-/

namespace MatrixSteps

namespace Matrix

/-- Two matrices hold the same data: one shape and the same cells. -/
structure SameData (a b : Matrix) : Prop where
  shape : a.shape = b.shape
  cells : a.cells = b.cells

theorem SameData.refl (a : Matrix) : SameData a a := ⟨rfl, rfl⟩

theorem SameData.trans {a b c : Matrix} (first : SameData a b) (second : SameData b c) :
    SameData a c :=
  ⟨first.shape.trans second.shape, first.cells.trans second.cells⟩

theorem productOf_sameData {a a' : Matrix} (same : SameData a a') (b : Matrix) :
    SameData (productOf a b) (productOf a' b) := by
  obtain ⟨shape, cells⟩ := same
  obtain ⟨name, rows, cols, data, steps⟩ := a
  obtain ⟨name', rows', cols', data', steps'⟩ := a'
  obtain ⟨rfl, rfl⟩ := Shape.mk.inj shape
  obtain rfl : data = data' := cells
  exact ⟨rfl, rfl⟩

theorem foldl_productOf_sameData {a a' : Matrix} (same : SameData a a') (rest : List Matrix) :
    SameData (rest.foldl productOf a) (rest.foldl productOf a') := by
  induction rest generalizing a a' with
  | nil => exact same
  | cons b more ih => exact ih (productOf_sameData same b)

theorem cols_eq_rows {m : Matrix} (square : m.isSquare = true) : m.cols = m.rows :=
  (beq_iff_eq.mp square).symm

theorem linked_replicate {m : Matrix} (square : m.isSquare = true) :
    ∀ k, Linked (List.replicate k m)
  | 0 => trivial
  | 1 => trivial
  | k + 2 => ⟨cols_eq_rows square, linked_replicate square (k + 1)⟩

theorem chainProduct_replicate {m : Matrix} (square : m.isSquare = true) {k : Nat} (positive : 1 ≤ k) :
    ∃ r, chainProduct (List.replicate k m) = .ok r ∧
      SameData r ((List.replicate (k - 1) m).foldl productOf m) := by
  obtain ⟨j, rfl⟩ : ∃ j, k = j + 1 := ⟨k - 1, by omega⟩
  cases j with
  | zero => exact ⟨m, rfl, .refl m⟩
  | succ j =>
      obtain ⟨steps, chained⟩ :=
        @chainProduct_of_linked m m (List.replicate j m) (linked_replicate square (j + 2))
      exact ⟨_, chained, ⟨rfl, rfl⟩⟩

section Powers

variable (m : Matrix)

theorem powerList_go_length (previous : Matrix) (k count : Nat) :
    (powerList.go m previous k count).length = count := by
  induction count generalizing previous k with
  | zero => rfl
  | succ count ih => simp [powerList.go, ih]

theorem powerList_go_getElem? : ∀ (count : Nat) (previous : Matrix) (k i : Nat) (p : Matrix),
    (powerList.go m previous k count)[i]? = some p →
      ∃ before, (previous :: powerList.go m previous k count)[i]? = some before ∧
        p = { productOf before m with name := m.name ++ "^" ++ toString (k + i) }
  | 0, _, _, _, _, found => by cases found
  | count + 1, previous, k, 0, p, found => ⟨previous, rfl, (Option.some.inj found).symm⟩
  | count + 1, previous, k, i + 1, p, found => by
      obtain ⟨before, earlier, rfl⟩ := powerList_go_getElem? count
        { productOf previous m with name := m.name ++ "^" ++ toString k } (k + 1) i p found
      exact ⟨before, earlier, by rw [show k + 1 + i = k + (i + 1) by omega]⟩

theorem powerList_go_last (previous : Matrix) (k count : Nat) :
    ∃ p, (powerList.go m previous k (count + 1)).getLast? = some p ∧
      SameData p ((List.replicate (count + 1) m).foldl productOf previous) := by
  induction count generalizing previous k with
  | zero => exact ⟨_, rfl, ⟨rfl, rfl⟩⟩
  | succ count ih =>
      obtain ⟨p, last, same⟩ := ih { productOf previous m with name := m.name ++ "^" ++ toString k }
        (k + 1)
      have step : SameData { productOf previous m with name := m.name ++ "^" ++ toString k }
          (productOf previous m) := ⟨rfl, rfl⟩
      refine ⟨p, ?_, same.trans (foldl_productOf_sameData step _)⟩
      rw [← last]
      rfl

theorem powersUpTo_of_two_le {k : Nat} (two : 2 ≤ k) :
    (powersUpTo m k).1 :: (powersUpTo m k).2 = powerList m k := by
  obtain ⟨count, rfl⟩ : ∃ count, k = count + 2 := ⟨k - 2, by omega⟩
  rfl

theorem powersUpTo_length {k : Nat} (positive : 1 ≤ k) :
    ((powersUpTo m k).1 :: (powersUpTo m k).2).length = max (k - 1) 1 := by
  rcases Nat.lt_or_ge k 2 with one | two
  · obtain rfl : k = 1 := by omega
    rfl
  · rw [powersUpTo_of_two_le m two, powerList, powerList_go_length]
    omega

theorem powersUpTo_last {k : Nat} (positive : 1 ≤ k) :
    ∃ last, ((powersUpTo m k).1 :: (powersUpTo m k).2).getLast? = some last ∧
      SameData last ((List.replicate (k - 1) m).foldl productOf m) := by
  rcases Nat.lt_or_ge k 2 with one | two
  · obtain rfl : k = 1 := by omega
    exact ⟨firstPower m, rfl, ⟨rfl, rfl⟩⟩
  · obtain ⟨count, rfl⟩ : ∃ count, k = count + 2 := ⟨k - 2, by omega⟩
    rw [powersUpTo_of_two_le m two]
    exact powerList_go_last m m 2 count

theorem powerUpTo_sameData {k : Nat} (positive : 1 ≤ k) {last : Matrix}
    (isLast : ((powersUpTo m k).1 :: (powersUpTo m k).2).getLast? = some last) :
    SameData (powerUpTo m k) last := by
  rcases Nat.lt_or_ge k 2 with one | two
  · obtain rfl : k = 1 := by omega
    obtain rfl : firstPower m = last := Option.some.inj isLast
    exact .refl _
  · rw [powersUpTo_of_two_le m two] at isLast
    unfold powerUpTo
    split
    · next empty => rw [empty] at isLast; cases isLast
    · next p ps listed =>
        rw [listed, List.getLast?_eq_some_getLast (List.cons_ne_nil p ps)] at isLast
        obtain rfl := Option.some.inj isLast
        exact ⟨rfl, rfl⟩

end Powers

section Checks

variable {m : Matrix} {e : Float}

theorem powerCount_of_square (square : m.isSquare = true) {k : Nat}
    (counted : exponentCount? e = some k) : powerCount m e = .ok k := by
  simp [powerCount, square, counted]

theorem powerCount_of_not_square (notSquare : m.isSquare = false) :
    powerCount m e = .error (.notSquare m.name m.shape) := by
  simp [powerCount, notSquare]

theorem powerCount_of_uncounted (square : m.isSquare = true) (uncounted : exponentCount? e = none) :
    powerCount m e = .error (.invalidExponent e) := by
  simp [powerCount, square, uncounted]

theorem powers_eq : powers m e = (fun k => (powersUpTo m k).1 :: (powersUpTo m k).2) <$> powerCount m e := by
  unfold powers
  cases powerCount m e <;> rfl

theorem power_eq : power m e = powerUpTo m <$> powerCount m e := by
  unfold power
  cases powerCount m e <;> rfl

theorem raise_eq : Operator.power.apply (.matrix m) (.scalar e) =
    (fun k => Produced.ofMatrices (powersUpTo m k).1 (powersUpTo m k).2) <$> powerCount m e := by
  dsimp only [Operator.apply, Operator.raise]
  cases powerCount m e <;> rfl

end Checks

end Matrix

theorem Matrix.SameData.symm {a b : Matrix} (same : Matrix.SameData a b) : Matrix.SameData b a :=
  ⟨same.shape.symm, same.cells.symm⟩

theorem forall₂_replicate {α β : Type} {R : α → β → Prop} {a : α} {b : β} (related : R a b) :
    ∀ n, List.Forall₂ R (List.replicate n a) (List.replicate n b)
  | 0 => .nil
  | n + 1 => .cons related (forall₂_replicate related n)

theorem Token.ofString_power {x : String} (word : Token.IsWord x) (k : Nat) :
    Token.ofString (x ++ "^" ++ toString k) =
      [⟨.identifier, x⟩, Token.operatorOf Token.power, ⟨.number, toString k⟩] := by
  have spelled : (x ++ "^" ++ toString k).toList = x.toList ++ '^' :: Nat.toDigits 10 k := by simp
  have stop : ∀ c ∈ ('^' :: Nat.toDigits 10 k).head?, c.isAlpha = false := by simp
  have symbol : Token.symbolKind? '^' = some .operator := by decide
  have caret : String.singleton '^' = Token.power := by decide
  rw [Token.ofString, spelled, Token.scan_word word stop, Token.scan_symbol symbol, caret,
    Token.scan_toDigits]
  rfl

theorem Derives.power_name (x lexeme : String) :
    Derives .expression [⟨.identifier, x⟩, Token.operatorOf Token.power, ⟨.number, lexeme⟩]
      (.binary Token.power (.identifier x) (.number lexeme)) :=
  .summand (.factor (.raise (.identifier x) (.base (.unprimed (.number lexeme)))))

theorem Expr.eval_power_name {inputs : List Entry} {table : VariableTable} {x : String} {e : Entry}
    (looked : (table.resolve? x).bind (inputs[·]?) = some e) (k next : Nat) :
    (Expr.binary Token.power (.identifier x) (.number (toString k))).eval {} inputs table next =
      (fun p => ((handOut next p).2, (handOut next p).1)) <$>
        Operator.power.apply (.matrix e.matrix) (.scalar (Decimal.toFloat false ⟨k, 0⟩)) := by
  have value : Machine.numberValue (toString k) = .ok (Decimal.toFloat false ⟨k, 0⟩) :=
    Machine.numberValue_of_read (FloatLiteral.read?_toString k)
  have named : Operator.ofSymbol? Token.power = some .power := by decide
  simp only [Expr.eval, looked, value, named, ok_bind, beq_self_eq_true,
    if_true, List.length_nil, Nat.add_zero, List.nil_append]
  change (do
    let produced ← Operator.power.apply (.matrix e.matrix) (.scalar (Decimal.toFloat false ⟨k, 0⟩))
    pure ((handOut next produced).2, (handOut next produced).1)) = _
  cases Operator.power.apply (.matrix e.matrix) (.scalar (Decimal.toFloat false ⟨k, 0⟩)) <;> rfl

theorem Expr.handOut_matrices (next : Nat) (p : Produced) {r : Matrix} (result : p.result = .matrix r) :
    ∃ entry, (handOut next p).2 = .matrix entry ∧ (handOut next p).1.getLast? = some entry ∧
      (handOut next p).1.map (·.matrix) = p.along ++ [r] := by
  obtain ⟨along, value⟩ := p
  subst result
  refine ⟨_, rfl, by simp [handOut], ?_⟩
  simp only [handOut, List.length_map, List.length_zipIdx, List.map_append, List.map_map,
    List.map_cons, List.map_nil]
  congr 1
  exact List.zipIdx_map_fst next along

theorem Produced.ofMatrices_along (first : Matrix) (rest : List Matrix) :
    (Produced.ofMatrices first rest).along ++ [(first :: rest).getLast (List.cons_ne_nil _ _)] =
      first :: rest := by
  induction rest generalizing first with
  | nil => rfl
  | cons next later ih => exact congrArg (first :: ·) (ih next)

/-- Without limits, `x^k` evaluates to the powers of the matrix `x` names, each in the trace in
turn and the last as the result, once the exponent `k` is accepted. -/
theorem evaluate_power_name {x : String} (word : Token.IsWord x) {inputs : List Entry} {m : Matrix}
    (names : Names inputs x m) (k serial : Nat) {count : Nat}
    (counted : Matrix.powerCount m (Decimal.toFloat false ⟨k, 0⟩) = .ok count) :
    ∃ ev, evaluate {} inputs serial (x ++ "^" ++ toString k) = .ok ev ∧
      ev.trace.map (·.matrix) = (Matrix.powersUpTo m count).1 :: (Matrix.powersUpTo m count).2 ∧
      ev.trace.getLast? = some ev.final := by
  obtain ⟨table, e, tabled, looked, rfl⟩ := names
  have derives := Derives.power_name x (toString k)
  rw [← Token.ofString_power word k] at derives
  obtain ⟨entry, result, ended, traced⟩ := Expr.handOut_matrices serial _
    (Produced.ofMatrices_result (Matrix.powersUpTo e.matrix count).1 (Matrix.powersUpTo e.matrix count).2)
  refine ⟨⟨_, entry⟩, ?_, ?_, ended⟩
  · rw [evaluate_of_derives derives, tabled, ok_bind, Expr.eval_power_name looked, Matrix.raise_eq,
      counted, Except.map_ok, Except.map_ok]
    rw [result]
  · rw [traced, Produced.ofMatrices_along]

/-- Without limits, the product `x*x*⋯*x` of `k` copies of a name of a square matrix is `M`
multiplied by `M` from the left, `k - 1` times. -/
theorem evaluate_product_names {x : String} (word : Token.IsWord x) {inputs : List Entry}
    {m : Matrix} (names : Names inputs x m) (square : m.isSquare = true) {k : Nat} (positive : 1 ≤ k)
    (serial : Nat) :
    ∃ ev, evaluate {} inputs serial (String.intercalate "*" (List.replicate k x)) = .ok ev ∧
      ev.final.matrix = (List.replicate (k - 1) m).foldl Matrix.productOf m := by
  obtain ⟨table, e, tabled, looked, rfl⟩ := names
  obtain ⟨j, rfl⟩ : ∃ j, k = j + 1 := ⟨k - 1, by omega⟩
  have words : ∀ y ∈ x :: List.replicate j x, Token.IsWord y := by
    intro y member
    rcases List.mem_cons.mp member with rfl | copy
    · exact word
    · rw [(List.mem_replicate.mp copy).2]
      exact word
  have final := evaluate_chain_final (c := '*') (by decide) (.inr (.inr (by decide)))
    (show Operator.ofSymbol? (String.singleton '*') = some .times by decide) (by decide)
    (show ("" : String).toList.all Text.isBlank = true from rfl) words tabled
    (.cons looked (forall₂_replicate (R := fun y e => (table.resolve? y).bind (inputs[·]?) = some e)
      looked j)) serial
  have spelled : "" ++ String.singleton '*' ++ "" = "*" := by decide
  rw [spelled, List.map_replicate, Operator.foldLeft_times, ← List.map_replicate,
    Operator.foldlM_multiply, Matrix.foldlM_product_of_linked (Matrix.linked_replicate square (j + 1))]
    at final
  rw [List.replicate_succ, Nat.add_sub_cancel]
  cases evaluated : evaluate {} inputs serial (String.intercalate "*" (x :: List.replicate j x)) with
  | error fault => rw [evaluated] at final; cases final
  | ok ev =>
      rw [evaluated] at final
      exact ⟨ev, rfl, Except.ok.inj final⟩

open MatrixSteps.Matrix in
/-- The ways to raise a square matrix to a whole power agree. For a square matrix `M`, a double `n`
that is a whole number `k ≥ 1`, and a name `x` of `M`: the sequence of powers holds `max (k - 1) 1`
matrices, each partial power the one before it (from `M` on) times `M` under the name `M^j`, or for
`k = 1` one copy of `M`; the power, the chained product of `k` copies of `M`, and the evaluations of
`x^k` and `x*x*⋯*x` all end in a matrix with the data of the last of them; and the trace of `x^k` is
the sequence itself. A matrix that is not square is refused first, whatever the exponent, with a
mismatch of dimensions; a square one with an exponent that is no whole number from one on, with an
invalid exponent. -/
theorem power_paths_agree :
    (∀ (m : Matrix) (n : Float) (k : Nat) (inputs : List Entry) (x : String) (serial : Nat),
      m.isSquare = true → Whole n k → 1 ≤ k → Token.IsWord x → Names inputs x m →
      ∃ ps, powers m n = .ok ps ∧ ps.length = max (k - 1) 1 ∧
        (k = 1 → ∃ p, ps = [p] ∧ SameData p m) ∧
        (2 ≤ k → ∀ i p, ps[i]? = some p → ∃ before, (m :: ps)[i]? = some before ∧
          p = { productOf before m with name := m.name ++ "^" ++ toString (i + 2) }) ∧
        ∃ last, ps.getLast? = some last ∧
          (∃ r, power m n = .ok r ∧ SameData r last) ∧
          (∃ r, chainProduct (List.replicate k m) = .ok r ∧ SameData r last) ∧
          (∃ ev, evaluate {} inputs serial (x ++ "^" ++ toString k) = .ok ev ∧
            ev.trace.map (·.matrix) = ps ∧ ev.final.matrix = last) ∧
          (∃ ev, evaluate {} inputs serial (String.intercalate "*" (List.replicate k x)) = .ok ev ∧
            SameData ev.final.matrix last)) ∧
    (∀ (m : Matrix) (e : Float), m.isSquare = false →
      ∃ f, powers m e = .error f ∧ power m e = .error f ∧
        Operator.power.apply (.matrix m) (.scalar e) = .error f ∧ f.kind = "DimensionMismatch") ∧
    (∀ (m : Matrix) (e : Float), m.isSquare = true → (∀ k : Nat, 1 ≤ k → ¬ Whole e k) →
      ∃ f, powers m e = .error f ∧ power m e = .error f ∧
        Operator.power.apply (.matrix m) (.scalar e) = .error f ∧ f.kind = "InvalidExponent") := by
  refine ⟨?agree, ?notSquare, ?invalid⟩
  case agree =>
    intro m n k inputs x serial square whole positive word names
    have counts := powerCount_of_square square (exponentCount?_eq_some_iff.mpr ⟨whole, positive⟩)
    have read := powerCount_of_square square
      (exponentCount?_eq_some_iff.mpr ⟨Whole.decimal whole, positive⟩)
    obtain ⟨last, isLast, lastData⟩ := powersUpTo_last m positive
    obtain ⟨r, chained, chainData⟩ := chainProduct_replicate square positive
    obtain ⟨ev, evaluated, traced, ended⟩ := evaluate_power_name word names k serial read
    obtain ⟨ev', evaluated', multiplied⟩ := evaluate_product_names word names square positive serial
    refine ⟨_, by rw [powers_eq, counts]; rfl, powersUpTo_length m positive, ?one, ?partials, last,
      isLast, ⟨_, by rw [power_eq, counts]; rfl, powerUpTo_sameData m positive isLast⟩,
      ⟨r, chained, chainData.trans lastData.symm⟩, ⟨ev, evaluated, traced, ?final⟩,
      ⟨ev', evaluated', multiplied ▸ lastData.symm⟩⟩
    case one =>
      rintro rfl
      exact ⟨firstPower m, rfl, ⟨rfl, rfl⟩⟩
    case partials =>
      intro two i p found
      rw [powersUpTo_of_two_le m two] at found ⊢
      rw [Nat.add_comm i 2]
      exact powerList_go_getElem? m (k - 1) m 2 i p found
    case final =>
      have lastOfTrace := congrArg (Option.map (·.matrix)) ended
      rw [← List.getLast?_map, traced, isLast] at lastOfTrace
      exact (Option.some.inj lastOfTrace).symm
  case notSquare =>
    intro m e notSquare
    have refused := powerCount_of_not_square (e := e) notSquare
    exact ⟨_, by rw [powers_eq, refused]; rfl, by rw [power_eq, refused]; rfl,
      by rw [raise_eq, refused]; rfl, rfl⟩
  case invalid =>
    intro m e square notWhole
    have uncounted : exponentCount? e = none := by
      cases counted : exponentCount? e with
      | none => rfl
      | some k =>
          obtain ⟨whole, positive⟩ := exponentCount?_eq_some_iff.mp counted
          exact absurd whole (notWhole k positive)
    have refused := powerCount_of_uncounted square uncounted
    exact ⟨_, by rw [powers_eq, refused]; rfl, by rw [power_eq, refused]; rfl,
      by rw [raise_eq, refused]; rfl, rfl⟩

set_option maxRecDepth 8000 in
/-- A matrix of one cell named `A`, squared: the sequence of powers is `A^2` alone, and the trace of
the text `A^2` is that sequence. -/
theorem single_cell_square_paths :
    (⟨"A", 1, 1, [[2.0]], none⟩ : Matrix).isSquare = true ∧ Whole 2.0 2 ∧ Token.IsWord "A" ∧
      Names [⟨.given "a", ⟨"A", 1, 1, [[2.0]], none⟩⟩] "A" ⟨"A", 1, 1, [[2.0]], none⟩ ∧
      ∃ ps, Matrix.powers ⟨"A", 1, 1, [[2.0]], none⟩ 2.0 = .ok ps ∧ ps.length = 1 ∧
        ∃ ev, evaluate {} [⟨.given "a", ⟨"A", 1, 1, [[2.0]], none⟩⟩] 0 ("A" ++ "^" ++ toString 2) =
          .ok ev ∧ ev.trace.map (·.matrix) = ps := by
  have square : (⟨"A", 1, 1, [[2.0]], none⟩ : Matrix).isSquare = true := rfl
  have whole : Whole 2.0 2 := by
    show (Binary.parts 2.0).toInt? = some 2
    decide +kernel
  have word : Token.IsWord "A" := by simp [Token.IsWord]
  have names : Names [⟨.given "a", ⟨"A", 1, 1, [[2.0]], none⟩⟩] "A" ⟨"A", 1, 1, [[2.0]], none⟩ :=
    ⟨_, _, rfl, rfl, rfl⟩
  obtain ⟨ps, powered, length, -, -, last, -, -, -, ⟨ev, evaluated, traced, -⟩, -⟩ :=
    power_paths_agree.1 _ 2.0 2 _ "A" 0 square whole (by decide) word names
  exact ⟨square, whole, word, names, ps, powered, length.trans (by decide), ev, evaluated, traced⟩

end MatrixSteps
