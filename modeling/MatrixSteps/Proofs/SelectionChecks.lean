import Mathlib
import MatrixSteps.Proofs.BatchAggregates
import MatrixSteps.Proofs.StackDiscipline

/-!
The checks the workbench makes on a selection, against the combinations they guard.

`Matrix.chainValid` compares neighbouring inputs, while a chained product compares each running
product with the next input. The two agree because a running product has the rows of the first
input and the columns of the last one it took (`Matrix.foldl_productOf_rows`,
`Matrix.foldl_productOf_cols`). `Matrix.dimensionsMatch` is the very check a sum and a difference
make against the first shape.

So the workbench refuses every mismatched selection itself: each fault it can end with is one of
its own checks (`Workbench.apply_error`), and the mismatches the combinations raise
(`Fault.IsCombinationMismatch`) never reach it.
-/

namespace MatrixSteps

/-- The computation stops on a mismatch of dimensions. -/
def RaisesMismatch {α : Type} (x : Except Fault α) : Prop :=
  ∃ f, x = .error f ∧ f.kind = "DimensionMismatch"

/-- The mismatches a combination raises itself: a sum or difference meeting a second shape, or a
product of two matrices whose inner dimensions differ. -/
def Fault.IsCombinationMismatch : Fault → Prop
  | .shapeMismatch .. | .productMismatch .. => True
  | _ => False

namespace RaisesMismatch

variable {α β : Type}

theorem not_ok (a : α) : ¬ RaisesMismatch (.ok a : Except Fault α) := by
  rintro ⟨f, failed, -⟩
  cases failed

theorem error_iff {f : Fault} :
    RaisesMismatch (.error f : Except Fault α) ↔ f.kind = "DimensionMismatch" :=
  ⟨fun ⟨_, failed, kind⟩ => by cases failed; exact kind, fun kind => ⟨f, rfl, kind⟩⟩

theorem bind_pure_iff {x : Except Fault α} {g : α → β} :
    RaisesMismatch (x >>= fun a => pure (g a)) ↔ RaisesMismatch x := by
  cases x with
  | error f => exact error_iff.trans error_iff.symm
  | ok a => exact iff_of_false (not_ok _) (not_ok a)

end RaisesMismatch

theorem mapM_error_mem {α β : Type} {g : α → Except Fault β} {f : Fault} :
    ∀ {xs : List α}, xs.mapM g = .error f → ∃ x ∈ xs, g x = .error f
  | [], mapped => by cases mapped
  | x :: rest, mapped => by
      rw [List.mapM_cons] at mapped
      cases first : g x with
      | error e =>
          rw [first] at mapped
          cases mapped
          exact ⟨x, List.mem_cons_self .., first⟩
      | ok y =>
          rw [first] at mapped
          obtain ⟨other, member, failed⟩ := mapM_error_mem (error_of_bind_pure_eq_error mapped)
          exact ⟨other, List.mem_cons_of_mem x member, failed⟩

namespace Matrix

theorem foldl_productOf_rows (first : Matrix) (rest : List Matrix) :
    (rest.foldl productOf first).rows = first.rows := by
  induction rest generalizing first with
  | nil => rfl
  | cons m more ih => exact ih (productOf first m)

theorem foldl_productOf_cols (first m : Matrix) (rest : List Matrix) :
    ((m :: rest).foldl productOf first).cols =
      ((m :: rest).getLast (List.cons_ne_nil m rest)).cols := by
  induction rest generalizing first m with
  | nil => rfl
  | cons n more ih => exact ih (productOf first m) n

theorem chainProduct_of_not_linked {first m : Matrix} {rest : List Matrix}
    (broken : ¬ Linked (first :: m :: rest)) :
    ∃ a b, chainProduct (first :: m :: rest) = .error (.productMismatch a b) := by
  obtain ⟨a, b, failed⟩ := foldlM_product_of_not_linked broken
  have ran := chainFrom_fst (2 < (m :: rest).length + 1) first 1 [] (m :: rest)
  rw [failed] at ran
  obtain chained := error_of_map_eq_error ran
  refine ⟨a, b, ?_⟩
  rw [chainProduct, chained]
  exacts [rfl, List.cons_ne_nil m rest]

theorem chainValid_iff_not_raisesMismatch {ms : List Matrix} (two : 2 ≤ ms.length) :
    chainValid ms = true ↔ ¬ RaisesMismatch (chainProduct ms) := by
  match ms, two with
  | first :: m :: rest, two =>
      rw [chainValid_iff]
      by_cases linked : Linked (first :: m :: rest)
      · obtain ⟨steps, chained⟩ := chainProduct_of_linked linked
        rw [chained]
        exact iff_of_true ⟨two, linked⟩ (RaisesMismatch.not_ok _)
      · obtain ⟨a, b, failed⟩ := chainProduct_of_not_linked linked
        rw [failed, RaisesMismatch.error_iff]
        exact iff_of_false (fun valid => linked valid.2) (not_not_intro rfl)

theorem chainProduct_of_chainValid {ms : List Matrix} (two : 2 ≤ ms.length)
    (valid : chainValid ms = true) :
    ∃ p, chainProduct ms = .ok p ∧ p.rows = ms[0].rows ∧ p.cols = ms[ms.length - 1].cols := by
  match ms, two with
  | first :: m :: rest, _ =>
      obtain ⟨steps, chained⟩ := chainProduct_of_linked ((chainValid_iff _).mp valid).2
      refine ⟨_, chained, foldl_productOf_rows first (m :: rest), ?_⟩
      rw [← List.getLast_eq_getElem (List.cons_ne_nil _ _)]
      exact foldl_productOf_cols first m rest

theorem dimensionsMatch_cons_cons (first m : Matrix) (rest : List Matrix) :
    dimensionsMatch (first :: m :: rest) = true ↔ ∀ n ∈ m :: rest, n.shape = first.shape := by
  simp [dimensionsMatch]

theorem checkShapes_raisesMismatch_iff (kind : Combination) (first : Matrix) (rest : List Matrix) :
    RaisesMismatch (checkShapes kind first rest) ↔ ¬ ∀ n ∈ rest, n.shape = first.shape := by
  by_cases same : ∀ n ∈ rest, n.shape = first.shape
  · rw [checkShapes_of_same kind same]
    exact iff_of_false (RaisesMismatch.not_ok _) (not_not_intro same)
  · obtain ⟨f, checked, mismatch⟩ := checkShapes_mismatch kind same
    rw [checked]
    exact iff_of_true ⟨f, rfl, mismatch⟩ same

/-- A combination that checks every shape against the first one before it builds its result (a
sum, a difference) builds it when the shapes match. -/
theorem checked_eq_ok (kind : Combination) (build : Matrix → List Matrix → Matrix) {first : Matrix}
    {rest : List Matrix} (same : ∀ n ∈ rest, n.shape = first.shape) :
    (checkShapes kind first rest >>= fun _ => pure (build first rest)) =
      .ok (build first rest) := by
  rw [checkShapes_of_same kind same]
  rfl

theorem dimensionsMatch_iff_checked (kind : Combination) (build : Matrix → List Matrix → Matrix)
    (first m : Matrix) (rest : List Matrix) :
    dimensionsMatch (first :: m :: rest) = true ↔
      ¬ RaisesMismatch
        (checkShapes kind first (m :: rest) >>= fun _ => pure (build first (m :: rest))) := by
  rw [dimensionsMatch_cons_cons, RaisesMismatch.bind_pure_iff, checkShapes_raisesMismatch_iff,
    not_not]

theorem dimensionsMatch_iff_sum {ms : List Matrix} (two : 2 ≤ ms.length) :
    dimensionsMatch ms = true ↔ ¬ RaisesMismatch (sum ms) := by
  match ms, two with
  | first :: m :: rest, _ => exact dimensionsMatch_iff_checked .addition sumOf first m rest

theorem dimensionsMatch_iff_difference {ms : List Matrix} (two : 2 ≤ ms.length) :
    dimensionsMatch ms = true ↔ ¬ RaisesMismatch (difference ms) := by
  match ms, two with
  | first :: m :: rest, _ =>
    exact dimensionsMatch_iff_checked .subtraction differenceOf first m rest

theorem powerCount_error {m : Matrix} {exponent : Float} {f : Fault}
    (failed : m.powerCount exponent = .error f) :
    f = .notSquare m.name m.shape ∨ f = .invalidExponent exponent := by
  unfold powerCount at failed
  split at failed
  · cases failed
    exact .inl rfl
  · split at failed
    · cases failed
    · cases failed
      exact .inr rfl

end Matrix

namespace Workbench

open MatrixSteps.Matrix

/-- The faults of an operation on one matrix: a power of a matrix that is not square or with a
bad exponent, or a scalar operation of a kind that is none. -/
theorem eachMatrix_error {operation : Operation} {scalar exponent : Float} {m : Matrix} {f : Fault}
    (failed : eachMatrix operation scalar exponent m = .error f) :
    f = .notSquare m.name m.shape ∨ f = .invalidExponent exponent ∨
      f = .notScalarOperation operation := by
  unfold eachMatrix at failed
  split at failed
  · cases failed
  · rcases powerCount_error (error_of_bind_pure_eq_error failed) with bad | bad
    · exact .inl bad
    · exact .inr (.inl bad)
  · unfold scalarOperation at failed
    split at failed
    · cases failed
    · cases failed
      exact .inr (.inr rfl)

theorem combineAll_error {operation : Operation} {selected : List Matrix} {f : Fault}
    (failed : combineAll operation selected = .error f) :
    f = .tooFewOperands operation ∨ f = .chainMismatch ∨ ∃ kind, f = .selectionMismatch kind := by
  unfold combineAll at failed
  split at failed
  · cases failed
    exact .inl rfl
  · have two : 2 ≤ selected.length := by omega
    split at failed
    · split at failed
      · next valid =>
          obtain ⟨p, product, -⟩ := chainProduct_of_chainValid two valid
          rw [product] at failed
          cases failed
      · cases failed
        exact .inr (.inl rfl)
    · split at failed
      · cases failed
        exact .inr (.inr ⟨_, rfl⟩)
      · next matching =>
          obtain ⟨first, m, rest, rfl⟩ : ∃ first m rest, selected = first :: m :: rest :=
            match selected, two with
            | first :: m :: rest, _ => ⟨first, m, rest, rfl⟩
          have same := (dimensionsMatch_cons_cons first m rest).mp (by simpa using matching)
          split at failed
          · rw [show sum (first :: m :: rest) = _ from checked_eq_ok .addition sumOf same] at failed
            cases failed
          · rw [show difference (first :: m :: rest) = _ from
              checked_eq_ok .subtraction differenceOf same] at failed
            cases failed

/-- Every fault a batch operation ends with comes from the workbench's own checks or from an
operation on one matrix, never from inside a combination. -/
theorem apply_error {operation : Operation} {selected : List Matrix} {scalar exponent : Float}
    {firstSerial : Nat} {f : Fault}
    (failed : apply operation selected scalar exponent firstSerial = .error f) :
    f = .emptySelection ∨ f = .notBatchOperation operation ∨
      (∃ m ∈ selected, f = .notSquare m.name m.shape) ∨ f = .invalidExponent exponent ∨
      f = .notScalarOperation operation ∨ f = .tooFewOperands operation ∨ f = .chainMismatch ∨
      ∃ kind, f = .selectionMismatch kind := by
  have computed := error_of_bind_pure_eq_error failed
  unfold results at computed
  split at computed
  · cases computed
    exact .inl rfl
  · split at computed
    · obtain ⟨m, member, each⟩ := mapM_error_mem computed
      rcases eachMatrix_error each with rfl | rfl | rfl
      · exact .inr (.inr (.inl ⟨m, member, rfl⟩))
      all_goals simp
    · split at computed
      · rcases combineAll_error (error_of_map_eq_error computed) with rfl | rfl | ⟨kind, rfl⟩ <;>
          simp
      · cases computed
        exact .inr (.inl rfl)

end Workbench

/-- The workbench's checks against the combinations they guard. For two matrices or more, the
chain check passes exactly when the chained product raises no mismatch of dimensions, and the
product then has the rows of the first matrix and the columns of the last; the shape check passes
exactly when the sum raises no mismatch, and exactly when the difference raises none. So no batch
operation ever ends with a mismatch raised inside a combination. -/
theorem selection_checks_guard_combinations {ms : List Matrix} (two : 2 ≤ ms.length) :
    (Matrix.chainValid ms = true ↔ ¬ RaisesMismatch (Matrix.chainProduct ms)) ∧
      (Matrix.chainValid ms = true →
        ∃ p, Matrix.chainProduct ms = .ok p ∧ p.rows = ms[0].rows ∧ p.cols = ms[ms.length - 1].cols) ∧
      (Matrix.dimensionsMatch ms = true ↔ ¬ RaisesMismatch (Matrix.sum ms)) ∧
      (Matrix.dimensionsMatch ms = true ↔ ¬ RaisesMismatch (Matrix.difference ms)) ∧
      ∀ operation selected scalar exponent firstSerial f,
        Workbench.apply operation selected scalar exponent firstSerial = .error f →
          ¬ f.IsCombinationMismatch := by
  refine ⟨Matrix.chainValid_iff_not_raisesMismatch two, Matrix.chainProduct_of_chainValid two,
    Matrix.dimensionsMatch_iff_sum two, Matrix.dimensionsMatch_iff_difference two, ?_⟩
  intro operation selected scalar exponent firstSerial f failed
  rcases Workbench.apply_error failed with
    rfl | rfl | ⟨m, -, rfl⟩ | rfl | rfl | rfl | rfl | ⟨kind, rfl⟩ <;> exact id

/-- A two-by-three matrix times a three-by-one matrix: the chain passes its check, and its product
is two by one. -/
theorem chain_of_two_by_three_and_three_by_one :
    2 ≤ [(⟨"A", 2, 3, [[1.0, 2.0, 3.0], [4.0, 5.0, 6.0]], none⟩ : Matrix),
        ⟨"B", 3, 1, [[1.0], [0.0], [1.0]], none⟩].length ∧
      ∃ p, Matrix.chainProduct [⟨"A", 2, 3, [[1.0, 2.0, 3.0], [4.0, 5.0, 6.0]], none⟩,
          ⟨"B", 3, 1, [[1.0], [0.0], [1.0]], none⟩] = .ok p ∧ p.rows = 2 ∧ p.cols = 1 := by
  have two : 2 ≤ [(⟨"A", 2, 3, [[1.0, 2.0, 3.0], [4.0, 5.0, 6.0]], none⟩ : Matrix),
      ⟨"B", 3, 1, [[1.0], [0.0], [1.0]], none⟩].length := by decide
  obtain ⟨-, shaped, -⟩ := selection_checks_guard_combinations two
  obtain ⟨p, multiplied, rows, cols⟩ := shaped (by decide)
  exact ⟨two, p, multiplied, rows, cols⟩

end MatrixSteps
