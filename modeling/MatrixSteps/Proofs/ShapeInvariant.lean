import Mathlib
import MatrixSteps.Proofs.WholeEvaluation

/-!
Every operation keeps matrices well-shaped. A matrix an operation builds has its cells laid out by
`Narration.gridOf` over its own rows and columns, so it is well-shaped as soon as both counts are
positive; copies that only rename a matrix or replace its steps keep its shape. From that:

- sums and differences keep their operands' common shape, a product of two has the rows of the
  left and the columns of the right, a chain has the rows of its first matrix and the columns of
  its last, a transpose swaps the counts, and powers and cellwise operations with a scalar keep the
  shape;
- the operators, the evaluation of an expression, the batch operations and the promotion of results
  give well-shaped matrices when their inputs are.

The evaluation is an invariant of the stack machine (`Machine.Shaped`): one step keeps it, hence so
does a run.
-/

namespace MatrixSteps

namespace Matrix

theorem length_of_mem_gridOf {rows cols : Nat} {f : Nat → Nat → Float} {row : List Float}
    (member : row ∈ Narration.gridOf rows cols f) : row.length = cols := by
  simp only [Narration.gridOf, List.mem_map, List.mem_range] at member
  obtain ⟨i, -, rfl⟩ := member
  simp

theorem wellShaped_of_grid {m : Matrix} {f : Nat → Nat → Float} (rows : 0 < m.rows)
    (cols : 0 < m.cols) (laid : m.cells = Narration.gridOf m.rows m.cols f) : m.WellShaped :=
  ⟨rows, cols, by simp [laid, Narration.gridOf], fun _ member => length_of_mem_gridOf (laid ▸ member)⟩

variable {m a b : Matrix}

theorem WellShaped.rows_pos (shaped : m.WellShaped) : 0 < m.rows := shaped.1

theorem WellShaped.cols_pos (shaped : m.WellShaped) : 0 < m.cols := shaped.2.1

theorem WellShaped.relabel (shaped : m.WellShaped) (name : String) (steps : Option (List String)) :
    ({ m with name, steps } : Matrix).WellShaped := shaped

theorem sumOf_wellShaped (rest : List Matrix) (shaped : m.WellShaped) :
    (sumOf m rest).WellShaped ∧ (sumOf m rest).shape = m.shape :=
  ⟨wellShaped_of_grid shaped.rows_pos shaped.cols_pos rfl, rfl⟩

theorem differenceOf_wellShaped (rest : List Matrix) (shaped : m.WellShaped) :
    (differenceOf m rest).WellShaped ∧ (differenceOf m rest).shape = m.shape :=
  ⟨wellShaped_of_grid shaped.rows_pos shaped.cols_pos rfl, rfl⟩

theorem productOf_wellShaped (left : a.WellShaped) (right : b.WellShaped) :
    (productOf a b).WellShaped ∧ (productOf a b).shape = ⟨a.rows, b.cols⟩ :=
  ⟨wellShaped_of_grid left.rows_pos right.cols_pos rfl, rfl⟩

theorem transpose_wellShaped (shaped : m.WellShaped) :
    m.transpose.WellShaped ∧ m.transpose.shape = ⟨m.cols, m.rows⟩ :=
  ⟨wellShaped_of_grid shaped.cols_pos shaped.rows_pos rfl, rfl⟩

theorem scaleBy_wellShaped (step : ScalarStep) (k : Float) (shaped : m.WellShaped) :
    (scaleBy step m k).WellShaped ∧ (scaleBy step m k).shape = m.shape :=
  ⟨wellShaped_of_grid shaped.rows_pos shaped.cols_pos rfl, rfl⟩

theorem checkShapes_ok {kind : Combination} {first : Matrix} {rest : List Matrix} {u : Unit}
    (checked : checkShapes kind first rest = .ok u) : ∀ n ∈ rest, n.shape = first.shape := by
  unfold checkShapes at checked
  split at checked
  next => cases checked
  next none =>
      intro n member
      simpa using List.find?_eq_none.mp none n member

theorem sum_ok {ms : List Matrix} {r : Matrix} (summed : sum ms = .ok r) :
    ∃ first rest, ms = first :: rest ∧ r = sumOf first rest ∧ ∀ n ∈ rest, n.shape = first.shape := by
  cases ms with
  | nil => cases summed
  | cons first rest =>
      obtain ⟨u, checked, built⟩ := ok_of_bind_eq_ok summed
      exact ⟨first, rest, rfl, (Except.ok.inj built).symm, checkShapes_ok checked⟩

theorem shape_eq_of_common {first r : Matrix} {rest : List Matrix}
    (resultShape : r.shape = first.shape) (common : ∀ n ∈ rest, n.shape = first.shape) :
    ∀ n ∈ first :: rest, n.shape = r.shape := by
  intro n member
  rw [resultShape]
  rcases List.mem_cons.mp member with rfl | other
  · rfl
  · exact common n other

theorem difference_ok {ms : List Matrix} {r : Matrix} (subtracted : difference ms = .ok r) :
    ∃ first rest, ms = first :: rest ∧ r = differenceOf first rest ∧
      ∀ n ∈ rest, n.shape = first.shape := by
  cases ms with
  | nil => cases subtracted
  | cons first rest =>
      obtain ⟨u, checked, built⟩ := ok_of_bind_eq_ok subtracted
      exact ⟨first, rest, rfl, (Except.ok.inj built).symm, checkShapes_ok checked⟩

theorem product_ok {r : Matrix} (multiplied : a.product b = .ok r) :
    a.cols = b.rows ∧ r = productOf a b := by
  unfold product at multiplied
  split at multiplied
  next fits => exact ⟨by simpa using fits, (Except.ok.inj multiplied).symm⟩
  next => cases multiplied

/-- A chain continued from a well-shaped `current` ends in a well-shaped matrix with the rows of
`current` and the columns of the chain's last matrix. -/
theorem chainFrom_wellShaped {headed : Bool} {k : Nat} {acc steps : List String}
    (rest : List Matrix) (current last : Matrix) (shaped : current.WellShaped)
    (each : ∀ n ∈ rest, n.WellShaped)
    (chained : chainFrom headed current k acc rest = .ok (last, steps)) :
    last.WellShaped ∧ last.rows = current.rows ∧ last.cols = ((current :: rest).getLast (by simp)).cols := by
  induction rest generalizing current k acc with
  | nil =>
      obtain ⟨rfl, -⟩ := Prod.mk.inj (Except.ok.inj chained)
      exact ⟨shaped, rfl, rfl⟩
  | cons following rest ih =>
      obtain ⟨p, multiplied, continued⟩ := ok_of_bind_eq_ok chained
      obtain ⟨-, rfl⟩ := product_ok multiplied
      have followingShaped := each following (List.mem_cons_self ..)
      obtain ⟨productShaped, productShape⟩ := productOf_wellShaped shaped followingShaped
      obtain ⟨lastShaped, lastRows, lastCols⟩ :=
        ih _ productShaped (fun n member => each n (List.mem_cons_of_mem _ member)) continued
      refine ⟨lastShaped, lastRows, ?_⟩
      rw [lastCols]
      cases rest <;> rfl

theorem chainProduct_wellShaped {ms : List Matrix} {r : Matrix} (each : ∀ n ∈ ms, n.WellShaped)
    (multiplied : chainProduct ms = .ok r) :
    r.WellShaped ∧ ms.head?.map (·.rows) = some r.rows ∧ ms.getLast?.map (·.cols) = some r.cols := by
  match ms, multiplied with
  | [m], multiplied =>
      have same : m = r := Except.ok.inj multiplied
      rw [← same]
      exact ⟨each m (List.mem_singleton_self m), rfl, rfl⟩
  | first :: second :: rest, multiplied =>
      obtain ⟨⟨last, steps⟩, chained, built⟩ := ok_of_bind_eq_ok multiplied
      obtain rfl := (Except.ok.inj built).symm
      obtain ⟨lastShaped, lastRows, lastCols⟩ := chainFrom_wellShaped (second :: rest) first last
        (each first (List.mem_cons_self ..)) (fun n member => each n (List.mem_cons_of_mem _ member))
        chained
      refine ⟨lastShaped, by simp [lastRows], ?_⟩
      rw [List.getLast?_eq_some_getLast (List.cons_ne_nil _ _), lastCols]
      rfl

theorem powerList_go_wellShaped (shaped : m.WellShaped) (count : Nat) :
    ∀ (previous : Matrix) (k : Nat), previous.WellShaped → previous.rows = m.rows →
      ∀ p ∈ powerList.go m previous k count, p.WellShaped ∧ p.shape = m.shape := by
  induction count with
  | zero => simp [powerList.go]
  | succ count ih =>
      intro previous k previousShaped previousRows p member
      obtain ⟨productShaped, productShape⟩ := productOf_wellShaped previousShaped shaped
      have nextShaped := productShaped.relabel (m.name ++ "^" ++ toString k) (productOf previous m).steps
      rcases List.mem_cons.mp member with rfl | later
      · exact ⟨nextShaped, by simp [shape, productOf, previousRows]⟩
      · exact ih _ (k + 1) nextShaped (by simp [productOf, previousRows]) p later

theorem powersUpTo_wellShaped (shaped : m.WellShaped) (n : Nat) :
    ∀ p ∈ (powersUpTo m n).1 :: (powersUpTo m n).2, p.WellShaped ∧ p.shape = m.shape := by
  have partials : ∀ p ∈ powerList m n, p.WellShaped ∧ p.shape = m.shape :=
    powerList_go_wellShaped shaped (n - 1) m 2 shaped rfl
  unfold powersUpTo
  split
  next => simpa using ⟨shaped.relabel _ _, rfl⟩
  next p ps listed =>
      rw [listed] at partials
      exact partials

theorem powers_wellShaped {e : Float} {ps : List Matrix} (shaped : m.WellShaped)
    (computed : m.powers e = .ok ps) : ∀ p ∈ ps, p.WellShaped ∧ p.shape = m.shape := by
  obtain ⟨n, -, built⟩ := ok_of_bind_eq_ok computed
  obtain rfl := (Except.ok.inj built).symm
  exact powersUpTo_wellShaped shaped n

theorem powerUpTo_wellShaped (shaped : m.WellShaped) (n : Nat) :
    (powerUpTo m n).WellShaped ∧ (powerUpTo m n).shape = m.shape := by
  have partials : ∀ p ∈ powerList m n, p.WellShaped ∧ p.shape = m.shape :=
    powerList_go_wellShaped shaped (n - 1) m 2 shaped rfl
  unfold powerUpTo
  split
  next => exact ⟨shaped.relabel _ _, rfl⟩
  next p ps listed =>
      rw [listed] at partials
      obtain ⟨lastShaped, lastShape⟩ := partials _ (List.getLast_mem (List.cons_ne_nil p ps))
      exact ⟨lastShaped.relabel _ _, lastShape⟩

theorem power_wellShaped {e : Float} {r : Matrix} (shaped : m.WellShaped)
    (computed : m.power e = .ok r) : r.WellShaped ∧ r.shape = m.shape := by
  obtain ⟨n, -, built⟩ := ok_of_bind_eq_ok computed
  obtain rfl := (Except.ok.inj built).symm
  exact powerUpTo_wellShaped shaped n

theorem scalarOperation_wellShaped {k : Float} {operation : Operation} {r : Matrix}
    (shaped : m.WellShaped) (computed : m.scalarOperation k operation = .ok r) :
    r.WellShaped ∧ r.shape = m.shape := by
  unfold scalarOperation at computed
  split at computed
  next step _ =>
      obtain rfl := (Except.ok.inj computed).symm
      exact scaleBy_wellShaped step k shaped
  next => cases computed

end Matrix

open MatrixSteps.Matrix

/-- A value is well-shaped when it is a number or a well-shaped matrix. -/
def Value.WellShaped : Value → Prop
  | .scalar _ => True
  | .matrix m => m.WellShaped

namespace Operator

variable {a b : Value} {p : Produced}

theorem combine_wellShaped (kind : Combination) {v : Value} (left : a.WellShaped)
    (combined : combine kind a b = .ok v) : v.WellShaped := by
  unfold combine at combined
  split at combined
  · obtain rfl := (Except.ok.inj combined).symm
    trivial
  · next m n =>
      split at combined
      · cases combined
      · split at combined
        · obtain rfl := (Except.ok.inj combined).symm
          exact (sumOf_wellShaped [n] left).1
        · obtain rfl := (Except.ok.inj combined).symm
          exact (differenceOf_wellShaped [n] left).1
  · cases combined

theorem multiply_wellShaped {v : Value} (left : a.WellShaped) (right : b.WellShaped)
    (multiplied : multiply a b = .ok v) : v.WellShaped := by
  unfold multiply at multiplied
  split at multiplied
  · obtain rfl := (Except.ok.inj multiplied).symm
    trivial
  · obtain rfl := (Except.ok.inj multiplied).symm
    exact (scaleBy_wellShaped .mul _ right).1
  · obtain rfl := (Except.ok.inj multiplied).symm
    exact (scaleBy_wellShaped .mul _ left).1
  · next m n =>
      cases producted : m.product n with
      | error fault => rw [producted] at multiplied; cases multiplied
      | ok r =>
          rw [producted] at multiplied
          obtain rfl := (Except.ok.inj multiplied).symm
          obtain ⟨-, rfl⟩ := product_ok producted
          exact (productOf_wellShaped left right).1

theorem ofMatrices_values (first : Matrix) (rest : List Matrix) :
    (Produced.ofMatrices first rest).values = (first :: rest).map .matrix := by
  induction rest generalizing first with
  | nil => rfl
  | cons next rest ih =>
      have later := ih next
      simp only [Produced.values, Produced.ofMatrices] at later ⊢
      rw [List.map_cons, List.cons_append, later]
      rfl

theorem raise_wellShaped (left : a.WellShaped) (raised : raise a b = .ok p) :
    ∀ v ∈ p.values, v.WellShaped := by
  unfold raise at raised
  split at raised
  · next m e =>
      obtain ⟨n, -, built⟩ := ok_of_bind_eq_ok raised
      obtain rfl := (Except.ok.inj built).symm
      intro v member
      rw [ofMatrices_values, List.mem_map] at member
      obtain ⟨q, listed, rfl⟩ := member
      exact (powersUpTo_wellShaped left n q listed).1
  · cases raised

theorem apply_wellShaped (op : Operator) (left : a.WellShaped) (right : b.WellShaped)
    (applied : op.apply a b = .ok p) : ∀ v ∈ p.values, v.WellShaped := by
  have single : ∀ {x : Except Fault Value}, (∀ v, x = .ok v → v.WellShaped) →
      Produced.single <$> x = .ok p → ∀ v ∈ p.values, v.WellShaped := by
    intro x shaped mapped
    cases x with
    | error fault => cases mapped
    | ok v =>
        obtain rfl := (Except.ok.inj mapped).symm
        simpa [Produced.single, Produced.values] using shaped v rfl
  cases op with
  | plus => exact single (fun v => combine_wellShaped .addition left) applied
  | minus => exact single (fun v => combine_wellShaped .subtraction left) applied
  | times => exact single (fun v => multiply_wellShaped left right) applied
  | power => exact raise_wellShaped left applied

end Operator

theorem Value.transpose_wellShaped {a v : Value} (shaped : a.WellShaped)
    (transposed : a.transpose = .ok v) : v.WellShaped := by
  cases a with
  | scalar x => cases transposed
  | matrix m =>
      obtain rfl := (Except.ok.inj transposed).symm
      exact (Matrix.transpose_wellShaped shaped).1

namespace Machine

/-- The stack machine's invariant: every matrix on its stack and in its trace is well-shaped. -/
structure Shaped (s : Machine) : Prop where
  stack : ∀ o ∈ s.stack, o.value.WellShaped
  trace : ∀ e ∈ s.trace, e.matrix.WellShaped

variable {limits : Limits} {inputs : List Entry} {table : VariableTable}

theorem record_shaped {s : Machine} {p : Produced} (shaped : s.Shaped)
    (produced : ∀ v ∈ p.values, v.WellShaped) : (s.record p).Shaped := by
  have along : ∀ m ∈ p.along, m.WellShaped := fun m member =>
    produced (.matrix m) (List.mem_append_left _ (List.mem_map_of_mem member))
  have result : p.result.WellShaped := produced p.result (by simp [Produced.values])
  have traced : ∀ e ∈ ((p.along.zipIdx s.next).map fun x =>
      (⟨.fresh x.2, x.1⟩ : Entry)).reverse ++ s.trace, e.matrix.WellShaped := by
    intro e member
    rcases List.mem_append.mp member with fresh | old
    · obtain ⟨⟨m, serial⟩, listed, rfl⟩ := List.mem_map.mp (List.mem_reverse.mp fresh)
      exact along m (List.fst_mem_of_mem_zipIdx listed)
    · exact shaped.trace e old
  unfold record
  rw [foldl_fresh]
  cases resulted : p.result with
  | scalar x =>
      refine ⟨fun o member => ?_, traced⟩
      rcases List.mem_cons.mp member with rfl | below
      · trivial
      · exact shaped.stack o below
  | matrix m =>
      rw [resulted] at result
      refine ⟨fun o member => ?_, fun e member => ?_⟩
      · rcases List.mem_cons.mp member with rfl | below
        · exact result
        · exact shaped.stack o below
      · rcases List.mem_cons.mp member with rfl | older
        · exact result
        · exact traced e older

theorem operate_ok {symbol : String} {a b : Operand} {p : Produced}
    (operated : operate limits symbol a b = .ok p) : ∃ op : Operator, op.apply a.value b.value = .ok p := by
  unfold operate at operated
  split at operated
  · cases operated
  · next op _ =>
      refine ⟨op, ?_⟩
      by_cases isPower : op = .power
      · subst isPower
        obtain ⟨u, -, applied⟩ := ok_of_bind_eq_ok operated
        exact applied
      · simpa [isPower] using operated

theorem Shaped.push {s : Machine} {o : Operand} (shaped : s.Shaped) (operand : o.value.WellShaped) :
    Shaped { s with stack := o :: s.stack } := by
  refine ⟨fun o' member => ?_, shaped.trace⟩
  rcases List.mem_cons.mp member with rfl | below
  · exact operand
  · exact shaped.stack o' below

theorem Shaped.pop {o : Operand} {below : List Operand} {trace : List Entry} {next : Nat}
    (shaped : Shaped ⟨o :: below, trace, next⟩) : o.value.WellShaped ∧ Shaped ⟨below, trace, next⟩ :=
  ⟨shaped.stack o (List.mem_cons_self ..),
    ⟨fun o' member => shaped.stack o' (List.mem_cons_of_mem _ member), shaped.trace⟩⟩

theorem step_shaped (inputsShaped : ∀ e ∈ inputs, e.matrix.WellShaped) {s s' : Machine} {t : Token}
    (shaped : s.Shaped) (stepped : step limits inputs table s t = .ok s') : s'.Shaped := by
  obtain ⟨kind, lexeme⟩ := t
  obtain ⟨stack, trace, next⟩ := s
  cases kind with
  | number =>
      obtain ⟨x, -, rfl⟩ := step_number_ok stepped
      exact shaped.push trivial
  | identifier =>
      simp only [step] at stepped
      split at stepped
      · next e found =>
          obtain rfl := (Except.ok.inj stepped).symm
          obtain ⟨position, -, listed⟩ := Option.bind_eq_some_iff.mp found
          exact shaped.push (inputsShaped e (List.mem_of_getElem? listed))
      · cases stepped
  | operator =>
      by_cases isMark : lexeme = transposeMark
      · subst isMark
        cases stack with
        | nil => simp [step] at stepped
        | cons a below =>
            rw [step_transpose] at stepped
            obtain ⟨v, transposed, recorded⟩ := ok_of_bind_eq_ok stepped
            obtain rfl := (Except.ok.inj recorded).symm
            obtain ⟨operand, rest⟩ := shaped.pop
            apply record_shaped rest
            simpa [Produced.single, Produced.values] using
              Value.transpose_wellShaped (by cases a <;> exact operand) transposed
      · rcases stack with _ | ⟨b, _ | ⟨a, below⟩⟩
        · simp [step, isMark] at stepped
        · simp [step, isMark] at stepped
        · rw [step_binary _ _ _ isMark] at stepped
          obtain ⟨produced, operated, recorded⟩ := ok_of_bind_eq_ok stepped
          obtain rfl := (Except.ok.inj recorded).symm
          obtain ⟨right, shaped⟩ := shaped.pop
          obtain ⟨left, rest⟩ := shaped.pop
          obtain ⟨op, applied⟩ := operate_ok operated
          exact record_shaped rest (Operator.apply_wellShaped op
            (by cases a <;> exact left) (by cases b <;> exact right) applied)
  | openParen | closeParen =>
      obtain rfl := (Except.ok.inj stepped).symm
      exact shaped

theorem run_shaped (inputsShaped : ∀ e ∈ inputs, e.matrix.WellShaped) (tokens : List Token) :
    ∀ {s s' : Machine}, s.Shaped → run limits inputs table s tokens = .ok s' → s'.Shaped := by
  induction tokens with
  | nil =>
      intro s s' shaped ran
      obtain rfl := (Except.ok.inj ran).symm
      exact shaped
  | cons t rest ih =>
      intro s s' shaped ran
      obtain ⟨next, stepped, continued⟩ := ok_of_bind_eq_ok ran
      exact ih (step_shaped inputsShaped shaped stepped) continued

end Machine

theorem Evaluation.wellShaped_of_postfix {limits : Limits} {inputs : List Entry} {firstSerial : Nat}
    {tokens : List Token} {ev : Evaluation} (inputsShaped : ∀ e ∈ inputs, e.matrix.WellShaped)
    (evaluated : evaluatePostfix limits inputs firstSerial tokens = .ok ev) :
    (∀ e ∈ ev.trace, e.matrix.WellShaped) ∧ ev.final.matrix.WellShaped := by
  obtain ⟨table, -, evaluated⟩ := ok_of_bind_eq_ok evaluated
  obtain ⟨done, ran, finished⟩ := ok_of_bind_eq_ok evaluated
  have shaped := Machine.run_shaped inputsShaped tokens
    (⟨by simp, by simp⟩ : Machine.Shaped ⟨[], [], firstSerial⟩) ran
  split at finished
  · next e onStack =>
      obtain rfl := (Except.ok.inj finished).symm
      exact ⟨fun entry member => shaped.trace entry (List.mem_reverse.mp member),
        shaped.stack (.matrix e) (by rw [onStack]; exact List.mem_singleton_self _)⟩
  · cases finished
  · cases finished

namespace Workbench

theorem mapM_ok_mem {α β : Type} {f : α → Except Fault β} {l : List α} {out : List β}
    (mapped : l.mapM f = .ok out) : ∀ y ∈ out, ∃ x ∈ l, f x = .ok y := by
  induction l generalizing out with
  | nil =>
      obtain rfl := (Except.ok.inj mapped).symm
      simp
  | cons x rest ih =>
      rw [List.mapM_cons] at mapped
      obtain ⟨y, first, mapped⟩ := ok_of_bind_eq_ok mapped
      obtain ⟨ys, later, built⟩ := ok_of_bind_eq_ok mapped
      obtain rfl := (Except.ok.inj built).symm
      intro z member
      rcases List.mem_cons.mp member with rfl | other
      · exact ⟨x, List.mem_cons_self .., first⟩
      · obtain ⟨w, listed, found⟩ := ih later z other
        exact ⟨w, List.mem_cons_of_mem _ listed, found⟩

theorem eachMatrix_wellShaped {operation : Operation} {scalar exponent : Float} {m r : Matrix}
    (shaped : m.WellShaped) (computed : eachMatrix operation scalar exponent m = .ok r) :
    r.WellShaped := by
  unfold eachMatrix at computed
  split at computed
  · obtain rfl := (Except.ok.inj computed).symm
    exact (transpose_wellShaped shaped).1
  · exact (power_wellShaped shaped computed).1
  · exact (scalarOperation_wellShaped shaped computed).1

theorem combineAll_wellShaped {operation : Operation} {selected : List Matrix} {r : Matrix}
    (shaped : ∀ m ∈ selected, m.WellShaped) (combined : combineAll operation selected = .ok r) :
    r.WellShaped := by
  unfold combineAll at combined
  split at combined
  · cases combined
  · split at combined
    · split at combined
      · exact (chainProduct_wellShaped shaped combined).1
      · cases combined
    · split at combined
      · cases combined
      · split at combined
        · obtain ⟨first, rest, rfl, rfl, -⟩ := sum_ok combined
          exact (sumOf_wellShaped rest (shaped first (List.mem_cons_self ..))).1
        · obtain ⟨first, rest, rfl, rfl, -⟩ := difference_ok combined
          exact (differenceOf_wellShaped rest (shaped first (List.mem_cons_self ..))).1

theorem apply_wellShaped {operation : Operation} {selected : List Matrix} {scalar exponent : Float}
    {firstSerial : Nat} {log : OperationLog} (shaped : ∀ m ∈ selected, m.WellShaped)
    (applied : apply operation selected scalar exponent firstSerial = .ok log) :
    ∀ e ∈ log.results, e.matrix.WellShaped := by
  obtain ⟨out, computed, built⟩ := ok_of_bind_eq_ok applied
  obtain rfl := (Except.ok.inj built).symm
  have each : ∀ r ∈ out, r.WellShaped := by
    unfold results at computed
    split at computed
    · cases computed
    · split at computed
      · intro r member
        obtain ⟨m, listed, made⟩ := mapM_ok_mem computed r member
        exact eachMatrix_wellShaped (shaped m listed) made
      · split at computed
        · cases combined : combineAll operation selected with
          | error fault => rw [combined] at computed; cases computed
          | ok r =>
              rw [combined] at computed
              obtain rfl := (Except.ok.inj computed).symm
              simpa using combineAll_wellShaped shaped combined
        · cases computed
  intro e member
  obtain ⟨⟨r, serial⟩, listed, rfl⟩ := List.mem_map.mp member
  exact each r (List.fst_mem_of_mem_zipIdx listed)

end Workbench

/-- Matrices stay well-shaped through every operation: when every input matrix is well-shaped,
every matrix the builders make and every matrix the primitives, the operators, the evaluation, the
batch operations and the promotions return is well-shaped too. Sums and differences keep the common shape of their
operands, a product of two has the left rows and the right columns, a chain has the rows of its
first matrix and the columns of its last, a transpose swaps rows and columns, and powers and
cellwise operations with a scalar keep the shape. -/
theorem operations_keep_wellShaped :
    (∀ (first : Matrix) (rest : List Matrix), first.WellShaped →
      (sumOf first rest).WellShaped ∧ (differenceOf first rest).WellShaped) ∧
    (∀ a b : Matrix, a.WellShaped → b.WellShaped → (productOf a b).WellShaped) ∧
    (∀ (step : ScalarStep) (m : Matrix) (k : Float), m.WellShaped → (scaleBy step m k).WellShaped) ∧
    (∀ (ms : List Matrix) (r : Matrix), (∀ m ∈ ms, m.WellShaped) → sum ms = .ok r →
      r.WellShaped ∧ ∀ m ∈ ms, m.shape = r.shape) ∧
    (∀ (ms : List Matrix) (r : Matrix), (∀ m ∈ ms, m.WellShaped) → difference ms = .ok r →
      r.WellShaped ∧ ∀ m ∈ ms, m.shape = r.shape) ∧
    (∀ a b r : Matrix, a.WellShaped → b.WellShaped → a.product b = .ok r →
      r.WellShaped ∧ r.shape = ⟨a.rows, b.cols⟩) ∧
    (∀ (ms : List Matrix) (r : Matrix), (∀ m ∈ ms, m.WellShaped) → chainProduct ms = .ok r →
      r.WellShaped ∧ ms.head?.map (·.rows) = some r.rows ∧ ms.getLast?.map (·.cols) = some r.cols) ∧
    (∀ m : Matrix, m.WellShaped → m.transpose.WellShaped ∧ m.transpose.shape = ⟨m.cols, m.rows⟩) ∧
    (∀ (m : Matrix) (e : Float) (ps : List Matrix), m.WellShaped → m.powers e = .ok ps →
      ∀ p ∈ ps, p.WellShaped ∧ p.shape = m.shape) ∧
    (∀ (m : Matrix) (e : Float) (r : Matrix), m.WellShaped → m.power e = .ok r →
      r.WellShaped ∧ r.shape = m.shape) ∧
    (∀ (m : Matrix) (k : Float) (operation : Operation) (r : Matrix), m.WellShaped →
      m.scalarOperation k operation = .ok r → r.WellShaped ∧ r.shape = m.shape) ∧
    (∀ (op : Operator) (a b : Value) (p : Produced), a.WellShaped → b.WellShaped →
      op.apply a b = .ok p → ∀ v ∈ p.values, v.WellShaped) ∧
    (∀ a v : Value, a.WellShaped → a.transpose = .ok v → v.WellShaped) ∧
    (∀ (limits : Limits) (inputs : List Entry) (firstSerial : Nat) (tokens : List Token)
      (ev : Evaluation), (∀ e ∈ inputs, e.matrix.WellShaped) →
      evaluatePostfix limits inputs firstSerial tokens = .ok ev →
      (∀ e ∈ ev.trace, e.matrix.WellShaped) ∧ ev.final.matrix.WellShaped) ∧
    (∀ (limits : Limits) (inputs : List Entry) (firstSerial : Nat) (expression : String)
      (ev : Evaluation), (∀ e ∈ inputs, e.matrix.WellShaped) →
      evaluate limits inputs firstSerial expression = .ok ev →
      (∀ e ∈ ev.trace, e.matrix.WellShaped) ∧ ev.final.matrix.WellShaped) ∧
    (∀ (operation : Operation) (selected : List Matrix) (scalar exponent : Float)
      (firstSerial : Nat) (log : OperationLog), (∀ m ∈ selected, m.WellShaped) →
      Workbench.apply operation selected scalar exponent firstSerial = .ok log →
      ∀ e ∈ log.results, e.matrix.WellShaped) ∧
    (∀ (r : Matrix) (existingCount : Int), r.WellShaped →
      (Workbench.promote r existingCount).WellShaped ∧ (Workbench.promote r existingCount).shape = r.shape) ∧
    (∀ rs : List Matrix, (∀ r ∈ rs, r.WellShaped) → ∀ r ∈ Workbench.promoteAll rs, r.WellShaped) := by
  refine ⟨fun first rest shaped =>
      ⟨(sumOf_wellShaped rest shaped).1, (differenceOf_wellShaped rest shaped).1⟩,
    fun a b left right => (productOf_wellShaped left right).1,
    fun step m k shaped => (scaleBy_wellShaped step k shaped).1, ?sum, ?difference, ?product, ?chain, fun m shaped => transpose_wellShaped shaped,
    fun m e ps shaped => powers_wellShaped shaped, fun m e r shaped => power_wellShaped shaped,
    fun m k operation r shaped => scalarOperation_wellShaped shaped,
    fun op a b p => Operator.apply_wellShaped op, fun a v => Value.transpose_wellShaped,
    fun limits inputs firstSerial tokens ev => Evaluation.wellShaped_of_postfix, ?evaluate,
    fun operation selected scalar exponent firstSerial log => Workbench.apply_wellShaped,
    fun r existingCount shaped => ⟨shaped.relabel _ _, rfl⟩, ?promoteAll⟩
  case sum =>
    intro ms r shaped summed
    obtain ⟨first, rest, rfl, rfl, common⟩ := sum_ok summed
    obtain ⟨resultShaped, resultShape⟩ := sumOf_wellShaped rest (shaped first List.mem_cons_self)
    exact ⟨resultShaped, shape_eq_of_common resultShape common⟩
  case difference =>
    intro ms r shaped subtracted
    obtain ⟨first, rest, rfl, rfl, common⟩ := difference_ok subtracted
    obtain ⟨resultShaped, resultShape⟩ :=
      differenceOf_wellShaped rest (shaped first List.mem_cons_self)
    exact ⟨resultShaped, shape_eq_of_common resultShape common⟩
  case product =>
    intro a b r left right multiplied
    obtain ⟨-, rfl⟩ := product_ok multiplied
    exact productOf_wellShaped left right
  case chain => exact fun ms r shaped => chainProduct_wellShaped shaped
  case evaluate =>
    intro limits inputs firstSerial expression ev shaped evaluated
    rw [evaluate_eq] at evaluated
    split at evaluated
    · cases evaluated
    · obtain ⟨u, -, evaluated⟩ := ok_of_bind_eq_ok evaluated
      exact Evaluation.wellShaped_of_postfix shaped evaluated
  case promoteAll =>
    intro rs shaped r member
    obtain ⟨original, listed, rfl⟩ := List.mem_map.mp member
    exact (shaped original listed).relabel _ _

/-- Two well-shaped one-by-two matrices sum to a well-shaped matrix of their shape. -/
theorem row_sum_keeps_wellShaped :
    (∀ m ∈ [⟨"A", 1, 2, [[1, 2]], none⟩, ⟨"B", 1, 2, [[3, 4]], none⟩], Matrix.WellShaped m) ∧
      sum [⟨"A", 1, 2, [[1, 2]], none⟩, ⟨"B", 1, 2, [[3, 4]], none⟩] =
        .ok (sumOf ⟨"A", 1, 2, [[1, 2]], none⟩ [⟨"B", 1, 2, [[3, 4]], none⟩]) ∧
      (sumOf ⟨"A", 1, 2, [[1, 2]], none⟩ [⟨"B", 1, 2, [[3, 4]], none⟩]).WellShaped ∧
      ∀ m ∈ [⟨"A", 1, 2, [[1, 2]], none⟩, ⟨"B", 1, 2, [[3, 4]], none⟩],
        Matrix.shape m = (sumOf ⟨"A", 1, 2, [[1, 2]], none⟩ [⟨"B", 1, 2, [[3, 4]], none⟩]).shape := by
  have shaped : ∀ m ∈ [⟨"A", 1, 2, [[1, 2]], none⟩, ⟨"B", 1, 2, [[3, 4]], none⟩],
      Matrix.WellShaped m := by
    simp [Matrix.WellShaped]
  have summed : sum [⟨"A", 1, 2, [[1, 2]], none⟩, ⟨"B", 1, 2, [[3, 4]], none⟩] =
      .ok (sumOf ⟨"A", 1, 2, [[1, 2]], none⟩ [⟨"B", 1, 2, [[3, 4]], none⟩]) := rfl
  exact ⟨shaped, summed, operations_keep_wellShaped.2.2.2.1 _ _ shaped summed⟩

end MatrixSteps
