import Mathlib
import MatrixSteps.Workbench.Log
import MatrixSteps.Proofs.StackMachine

/-!
Which faults the engine can end with. The engine's own faults are expression errors; four are
runtime errors of the host language instead: combining an empty list of matrices, naming an input
position past the last one that has a letter, writing a limit of more than `digitLimit` digits in a
message, and reading a number from a text that spells none.

The batch operations of `Workbench.apply` end with expression errors only. The limit checks and the
steps of the machine on tokens whose numbers read end with an expression error, or with the fault
of writing a limit that has too many digits (`Fault.UnderLimits`). Rounding a cell to four places
never fails: below `Places.ceiling` the rounded coefficient stays far below `10 ^ Places.precision`.
-/

namespace MatrixSteps

/-- The fault is an expression error: every fault but the runtime errors of the host language. -/
def Fault.isExpressionError : Fault → Bool
  | .nothingToCombine _ | .noLetter _ | .unwritableInteger | .notAFloat _ => false
  | _ => true

/-- The fault is one a limit check stops with: a value over its limit, or a limit too long to
write. -/
def Fault.isLimitFault : Fault → Bool
  | .expressionTooLong .. | .dimensionOverLimit .. | .exponentOverLimit .. | .unwritableInteger => true
  | _ => false

/-- The fault of a number token whose text reads as no double. -/
def Token.Unread (t : Token) (f : Fault) : Prop :=
  t.kind = .number ∧ f = .notAFloat t.lexeme ∧ FloatLiteral.read? t.lexeme = none

/-- Every fault the computation can end with is `allowed`. -/
def FaultsWithin {α : Type} (allowed : Fault → Prop) (x : Except Fault α) : Prop :=
  ∀ f, x = .error f → allowed f

/-- Every fault the computation can end with is an expression error. -/
abbrev InTaxonomy {α : Type} (x : Except Fault α) : Prop :=
  FaultsWithin (·.isExpressionError = true) x

/-- The fault is an expression error, or the fault of writing one of the `limits` when not all of
them can be written. -/
def Fault.UnderLimits (limits : Limits) (f : Fault) : Prop :=
  f.isExpressionError = true ∨ (f = .unwritableInteger ∧ ¬ limits.Writable)

theorem writable_iff (n : Int) : Writable n ↔ n.natAbs < 10 ^ digitLimit := Iff.rfl

theorem writable_zero : Writable 0 := by
  rw [writable_iff]
  positivity

theorem not_writable_neg_ten_pow : ¬ Writable (-((10 ^ digitLimit : Nat) : Int)) := by
  rw [writable_iff, Int.natAbs_neg, Int.natAbs_natCast]
  exact lt_irrefl _

theorem Fault.UnderLimits.unwritable {limits : Limits}
    (underLimits : Fault.unwritableInteger.UnderLimits limits) : ¬ limits.Writable := by
  rcases underLimits with expressionError | ⟨-, unwritable⟩
  · cases expressionError
  · exact unwritable

namespace FaultsWithin

variable {α β : Type} {allowed : Fault → Prop}

theorem ok (a : α) : FaultsWithin allowed (.ok a : Except Fault α) := by
  intro f failed
  cases failed

theorem error {f : Fault} (admitted : allowed f) : FaultsWithin allowed (.error f : Except Fault α) := by
  intro g failed
  cases failed
  exact admitted

theorem pure (a : α) : FaultsWithin allowed (Pure.pure a : Except Fault α) := ok a

theorem bind {x : Except Fault α} {g : α → Except Fault β} (first : FaultsWithin allowed x)
    (rest : ∀ a, FaultsWithin allowed (g a)) : FaultsWithin allowed (x >>= g) := by
  intro f failed
  cases x with
  | error e =>
      cases failed
      exact first f rfl
  | ok a => exact rest a f failed

theorem error_bind {f : Fault} {g : α → Except Fault β}
    (first : FaultsWithin allowed (.error f : Except Fault α)) :
    FaultsWithin allowed (.error f >>= g) := by
  intro e failed
  cases failed
  exact first f rfl

theorem map {x : Except Fault α} (g : α → β) (inner : FaultsWithin allowed x) :
    FaultsWithin allowed (g <$> x) := by
  intro f failed
  cases x with
  | error e =>
      cases failed
      exact inner f rfl
  | ok a => cases failed

theorem mapM {xs : List α} {g : α → Except Fault β} (each : ∀ a, FaultsWithin allowed (g a)) :
    FaultsWithin allowed (xs.mapM g) := by
  induction xs with
  | nil => exact ok []
  | cons a rest ih =>
      rw [List.mapM_cons]
      exact bind (each a) fun b => bind ih fun bs => pure (b :: bs)

theorem mono {wider : Fault → Prop} {x : Except Fault α} (widened : ∀ f, allowed f → wider f)
    (within : FaultsWithin allowed x) : FaultsWithin wider x :=
  fun f failed => widened f (within f failed)

theorem bind_pure_iff {x : Except Fault α} {g : α → β} :
    FaultsWithin allowed (x >>= fun a => Pure.pure (g a)) ↔ FaultsWithin allowed x := by
  cases x with
  | error e =>
      constructor
      · intro within f failed
        cases failed
        exact within e rfl
      · intro within f failed
        cases failed
        exact within e rfl
  | ok a => exact ⟨fun _ => ok a, fun _ => pure _⟩

theorem not_error {f : Fault} (outside : ¬ allowed f) :
    ¬ FaultsWithin allowed (.error f : Except Fault α) :=
  fun within => outside (within f rfl)

end FaultsWithin

open FaultsWithin

theorem InTaxonomy.underLimits {α : Type} {limits : Limits} {x : Except Fault α}
    (within : InTaxonomy x) : FaultsWithin (Fault.UnderLimits limits) x :=
  mono (fun _ => .inl) within

theorem Value.transpose_inTaxonomy (a : Value) : InTaxonomy a.transpose := by
  cases a with
  | scalar x => exact error rfl
  | matrix m => exact ok _

namespace Matrix

theorem product_inTaxonomy (a b : Matrix) : InTaxonomy (a.product b) := by
  unfold product
  split
  · exact ok _
  · exact error rfl

theorem powerCount_inTaxonomy (m : Matrix) (exponent : Float) :
    InTaxonomy (m.powerCount exponent) := by
  unfold powerCount
  split
  · exact error rfl
  · split
    · exact ok _
    · exact error rfl

theorem power_inTaxonomy (m : Matrix) (exponent : Float) : InTaxonomy (m.power exponent) :=
  bind (powerCount_inTaxonomy m exponent) fun _ => pure _

theorem checkShapes_inTaxonomy (kind : Combination) (first : Matrix) (rest : List Matrix) :
    InTaxonomy (checkShapes kind first rest) := by
  unfold checkShapes
  split
  · exact error rfl
  · exact ok _

theorem chainFrom_inTaxonomy (headed : Bool) (current : Matrix) (k : Nat) (acc : List String)
    (rest : List Matrix) : InTaxonomy (chainFrom headed current k acc rest) := by
  induction rest generalizing current k acc with
  | nil => exact ok _
  | cons following rest ih =>
      exact bind (product_inTaxonomy current following) fun p => ih p _ _

theorem sum_inTaxonomy {ms : List Matrix} (nonempty : ms ≠ []) : InTaxonomy (sum ms) := by
  obtain ⟨first, rest, rfl⟩ := List.exists_cons_of_ne_nil nonempty
  exact bind (checkShapes_inTaxonomy .addition first rest) fun _ => pure _

theorem difference_inTaxonomy {ms : List Matrix} (nonempty : ms ≠ []) :
    InTaxonomy (difference ms) := by
  obtain ⟨first, rest, rfl⟩ := List.exists_cons_of_ne_nil nonempty
  exact bind (checkShapes_inTaxonomy .subtraction first rest) fun _ => pure _

theorem chainProduct_inTaxonomy {ms : List Matrix} (twoOrMore : 2 ≤ ms.length) :
    InTaxonomy (chainProduct ms) := by
  match ms, twoOrMore with
  | first :: second :: rest, _ =>
      exact bind (chainFrom_inTaxonomy _ first 1 [] (second :: rest)) fun _ => pure _

theorem scalarOperation_inTaxonomy (m : Matrix) (k : Float) (operation : Operation) :
    InTaxonomy (m.scalarOperation k operation) := by
  unfold scalarOperation
  split
  · exact ok _
  · exact error rfl

end Matrix

namespace Operator

theorem combine_inTaxonomy (kind : Combination) (a b : Value) :
    InTaxonomy (combine kind a b) := by
  unfold combine
  split
  · exact ok _
  · split
    · exact error rfl
    · split
      · exact ok _
      · exact ok _
  · exact error rfl

theorem multiply_inTaxonomy (a b : Value) : InTaxonomy (multiply a b) := by
  unfold multiply
  split
  · exact ok _
  · exact ok _
  · exact ok _
  · exact map _ (Matrix.product_inTaxonomy _ _)

theorem raise_inTaxonomy (a b : Value) : InTaxonomy (raise a b) := by
  unfold raise
  split
  · exact bind (Matrix.powerCount_inTaxonomy _ _) fun _ => pure _
  · exact error rfl

theorem apply_inTaxonomy (op : Operator) (a b : Value) : InTaxonomy (op.apply a b) := by
  cases op with
  | plus => exact map _ (combine_inTaxonomy _ a b)
  | minus => exact map _ (combine_inTaxonomy _ a b)
  | times => exact map _ (multiply_inTaxonomy a b)
  | power => exact raise_inTaxonomy a b

end Operator

namespace Workbench

theorem eachMatrix_inTaxonomy (operation : Operation) (scalar exponent : Float) (m : Matrix) :
    InTaxonomy (eachMatrix operation scalar exponent m) := by
  unfold eachMatrix
  split
  · exact ok _
  · exact Matrix.power_inTaxonomy m exponent
  · exact Matrix.scalarOperation_inTaxonomy m scalar operation

theorem combineAll_inTaxonomy (operation : Operation) (selected : List Matrix) :
    InTaxonomy (combineAll operation selected) := by
  unfold combineAll
  split
  · exact error rfl
  next enough =>
    have twoOrMore : 2 ≤ selected.length := by omega
    have nonempty : selected ≠ [] := List.ne_nil_of_length_pos (by omega)
    split
    · split
      · exact Matrix.chainProduct_inTaxonomy twoOrMore
      · exact error rfl
    · split
      · exact error rfl
      · split
        · exact Matrix.sum_inTaxonomy nonempty
        · exact Matrix.difference_inTaxonomy nonempty

theorem results_inTaxonomy (operation : Operation) (selected : List Matrix)
    (scalar exponent : Float) : InTaxonomy (results operation selected scalar exponent) := by
  unfold results
  split
  · exact error rfl
  · split
    · exact mapM (eachMatrix_inTaxonomy operation scalar exponent)
    · split
      · exact map _ (combineAll_inTaxonomy operation selected)
      · exact error rfl

theorem apply_inTaxonomy (operation : Operation) (selected : List Matrix) (scalar exponent : Float)
    (firstSerial : Nat) : InTaxonomy (apply operation selected scalar exponent firstSerial) :=
  bind (results_inTaxonomy operation selected scalar exponent) fun _ => pure _

end Workbench

namespace Fault

theorem writingLimit_underLimits {limits : Limits} {limit : Int} {f : Fault}
    (expressionError : f.isExpressionError = true) (written : limits.Writable → Writable limit) :
    (writingLimit limit f).UnderLimits limits := by
  unfold writingLimit
  split
  · exact .inl expressionError
  · next unwritable => exact .inr ⟨rfl, fun writable => unwritable (written writable)⟩

theorem writingLimit_isLimitFault {limit : Int} {f : Fault} (limitFault : f.isLimitFault = true) :
    (writingLimit limit f).isLimitFault = true := by
  unfold writingLimit
  split
  · exact limitFault
  · rfl

theorem kind_of_isLimitFault {f : Fault} (limitFault : f.isLimitFault = true) :
    f.kind = "EvaluationLimitExceeded" ∨ f = .unwritableInteger := by
  cases f <;> simp_all [isLimitFault, kind]

theorem writingLimit_of_writable {limit : Int} (f : Fault) (writable : Writable limit) :
    writingLimit limit f = f := if_pos writable

theorem writingLimit_of_unwritable {limit : Int} (f : Fault) (unwritable : ¬ Writable limit) :
    writingLimit limit f = .unwritableInteger := if_neg unwritable

end Fault

namespace Machine

variable {limits : Limits} {inputs : List Entry} {table : VariableTable}

theorem checkExponent_underLimits (base exponent : Operand) :
    FaultsWithin (Fault.UnderLimits limits) (checkExponent limits base exponent) := by
  unfold checkExponent
  split
  · next limit _ _ set =>
      split
      · exact error (Fault.writingLimit_underLimits rfl fun writable => writable.exponent limit set)
      · exact ok _
  · exact ok _

/-- Every fault of one step is the machine's own (an unknown name or operator, missing operands, an
exponent over its limit, a fault of the operator applied), a limit too long to write, or the fault
of a number whose text reads as no double. -/
theorem step_underLimits (s : Machine) (t : Token) :
    FaultsWithin (fun f => f.UnderLimits limits ∨ t.Unread f) (step limits inputs table s t) := by
  have lift : ∀ {α : Type} {x : Except Fault α}, InTaxonomy x →
      FaultsWithin (fun f => f.UnderLimits limits ∨ t.Unread f) x :=
    fun within => mono (fun _ expressionError => .inl (.inl expressionError)) within
  unfold step
  split
  · next number =>
      cases value : numberValue t.lexeme with
      | error f =>
          obtain ⟨rfl, unread⟩ := numberValue_error value
          exact bind (error (.inr ⟨number, rfl, unread⟩)) fun _ => pure _
      | ok x => exact bind (ok x) fun _ => pure _
  · split
    · exact ok _
    · exact lift (error rfl)
  · split
    · split
      · exact bind (lift (Value.transpose_inTaxonomy _)) fun _ => pure _
      · exact lift (error rfl)
    · split
      · split
        · exact lift (error rfl)
        · dsimp only
          split
          · exact bind (mono (fun _ => .inl) (checkExponent_underLimits _ _)) fun _ =>
              bind (lift (Operator.apply_inTaxonomy _ _ _)) fun _ => pure _
          · exact bind (lift (Operator.apply_inTaxonomy _ _ _)) fun _ => pure _
      · exact lift (error rfl)
  · exact ok _
  · exact ok _

theorem run_underLimits (s : Machine) (tokens : List Token) :
    FaultsWithin (fun f => f.UnderLimits limits ∨ ∃ t ∈ tokens, t.Unread f)
      (run limits inputs table s tokens) := by
  induction tokens generalizing s with
  | nil => exact ok s
  | cons t rest ih =>
      refine bind (mono ?_ (step_underLimits s t)) fun s' => mono ?_ (ih s')
      · exact fun f => Or.imp_right fun unread => ⟨t, List.mem_cons_self, unread⟩
      · exact fun f => Or.imp_right fun ⟨u, member, unread⟩ => ⟨u, List.mem_cons_of_mem t member, unread⟩

end Machine

theorem inputTable_of_fits {inputs : List Entry} (fits : inputs.length ≤ VariableTable.letteredPositions) :
    inputTable inputs = .ok (VariableTable.ofNames (inputs.map (·.matrix.name))) := by
  simp [inputTable, VariableTable.ofNames?, fits]

theorem inputTable_of_outnumbered {inputs : List Entry} (outnumbered : VariableTable.letteredPositions < inputs.length) :
    inputTable inputs = .error (.noLetter VariableTable.letteredPositions) := by
  have unlettered : ¬ inputs.length ≤ VariableTable.letteredPositions := by omega
  simp [inputTable, VariableTable.ofNames?, unlettered]

theorem evaluatePostfix_underLimits (limits : Limits) {inputs : List Entry} (firstSerial : Nat)
    (tokens : List Token) (fits : inputs.length ≤ VariableTable.letteredPositions) :
    FaultsWithin (fun f => f.UnderLimits limits ∨ ∃ t ∈ tokens, t.Unread f)
      (evaluatePostfix limits inputs firstSerial tokens) := by
  unfold evaluatePostfix
  rw [inputTable_of_fits fits, ok_bind]
  refine bind (Machine.run_underLimits _ tokens) fun done => ?_
  split
  · exact pure _
  · exact error (.inl (.inl rfl))
  · exact error (.inl (.inl rfl))

theorem evaluatePostfix_of_outnumbered (limits : Limits) {inputs : List Entry} (firstSerial : Nat)
    (tokens : List Token) (outnumbered : VariableTable.letteredPositions < inputs.length) :
    evaluatePostfix limits inputs firstSerial tokens = .error (.noLetter VariableTable.letteredPositions) := by
  unfold evaluatePostfix
  rw [inputTable_of_outnumbered outnumbered]
  rfl

theorem checkDimensions_faults {P : Fault → Prop} {limit : Int} :
    ∀ {matrices : List Matrix},
      (∀ m ∈ matrices, P (Fault.writingLimit limit (.dimensionOverLimit m.name m.shape limit))) →
      FaultsWithin P (checkDimensions limit matrices)
  | [], _ => ok ()
  | m :: rest, each => by
      unfold checkDimensions
      split
      · exact error (each m List.mem_cons_self)
      · exact checkDimensions_faults fun n member => each n (List.mem_cons_of_mem m member)

/-- The checks before evaluation fail only with the fault of a limit they check, written as
`Fault.writingLimit` writes it. -/
theorem checkLimits_faults {P : Fault → Prop} (limits : Limits) (expression : String)
    (matrices : List Matrix)
    (tooLong : ∀ limit ∈ limits.maxExpressionLength,
      P (Fault.writingLimit limit (.expressionTooLong expression.length limit)))
    (tooWide : ∀ limit ∈ limits.maxDimension, ∀ m ∈ matrices,
      P (Fault.writingLimit limit (.dimensionOverLimit m.name m.shape limit))) :
    FaultsWithin P (checkLimits limits expression matrices) := by
  unfold checkLimits
  split
  · next dimension set =>
      have dimensions := checkDimensions_faults (tooWide dimension set)
      dsimp only
      split
      · next length lengthSet =>
          split
          · exact bind (error (tooLong length lengthSet)) fun _ => dimensions
          · exact dimensions
      · exact dimensions
  · dsimp only
    split
    · next length lengthSet =>
        split
        · exact bind (error (tooLong length lengthSet)) fun _ => pure ()
        · exact pure ()
    · exact pure ()

theorem checkLimits_underLimits (limits : Limits) (expression : String) (matrices : List Matrix) :
    FaultsWithin (Fault.UnderLimits limits) (checkLimits limits expression matrices) :=
  checkLimits_faults limits expression matrices
    (fun limit set => Fault.writingLimit_underLimits rfl fun writable =>
      writable.expressionLength limit set)
    (fun limit set _ _ => Fault.writingLimit_underLimits rfl fun writable =>
      writable.dimension limit set)

theorem evaluate_eq (limits : Limits) (inputs : List Entry) (firstSerial : Nat) (expression : String) :
    evaluate limits inputs firstSerial expression =
      if Text.isBlankText expression then .error .emptyExpression
      else checkLimits limits expression (inputs.map (·.matrix)) >>= fun _ =>
        evaluatePostfix limits inputs firstSerial (Token.toPostfix (Token.ofString expression)) := by
  unfold evaluate
  split <;> rfl

theorem evaluate_unwritable {limits : Limits} {inputs : List Entry} {firstSerial : Nat}
    {expression : String}
    (failed : evaluate limits inputs firstSerial expression = .error .unwritableInteger) :
    ¬ limits.Writable := by
  rw [evaluate_eq] at failed
  split at failed
  · cases failed
  · cases checked : checkLimits limits expression (inputs.map (·.matrix)) with
    | error f =>
        rw [checked] at failed
        cases failed
        exact (checkLimits_underLimits limits expression _ _ checked).unwritable
    | ok u =>
        rw [checked, ok_bind] at failed
        by_cases fits : inputs.length ≤ VariableTable.letteredPositions
        · rcases evaluatePostfix_underLimits limits firstSerial _ fits _ failed with
            underLimits | ⟨t, -, -, wrong, -⟩
          · exact underLimits.unwritable
          · cases wrong
        · rw [evaluatePostfix_of_outnumbered limits firstSerial _ (by omega)] at failed
          cases failed

/-- A length limit that the expression exceeds and that is too long to write stops the evaluation
with the host's refusal to write it. -/
theorem evaluate_of_unwritable_length {limits : Limits} {inputs : List Entry} {firstSerial : Nat}
    {expression : String} {limit : Int} (set : limits.maxExpressionLength = some limit)
    (unwritable : ¬ Writable limit) (notBlank : Text.isBlankText expression = false)
    (tooLong : limit < expression.length) :
    evaluate limits inputs firstSerial expression = .error .unwritableInteger := by
  rw [evaluate_eq, notBlank, if_neg Bool.false_ne_true]
  simp only [checkLimits, set, tooLong, if_true, Fault.writingLimit_of_unwritable _ unwritable]
  rfl

namespace Places

theorem lastPlace_cellPlaces : lastPlace cellPlaces = .ok (-cellPlaces) := rfl

theorem coefficient_below_precision {m : Nat} {e : Int}
    (below : Binary.compareInt false m e ceiling = .lt) :
    coefficient m e (-cellPlaces) < 10 ^ precision := by
  have bound : m * 2 ^ e.toNat < ceiling * 2 ^ (-e).toNat := by
    have compared := Int.compare_eq_lt.mp below
    simp only [Bool.false_eq_true, if_false] at compared
    exact_mod_cast compared
  have positive : 0 < 2 ^ (-e).toNat := Nat.two_pow_pos _
  show (2 * (m * 2 ^ e.toNat * 10 ^ 4) + 2 ^ (-e).toNat * 10 ^ 0) / (2 * (2 ^ (-e).toNat * 10 ^ 0))
    < 10 ^ precision
  generalize m * 2 ^ e.toNat = magnitude at bound ⊢
  generalize 2 ^ (-e).toNat = scale at bound positive ⊢
  rw [Nat.div_lt_iff_lt_mul (by omega)]
  simp only [ceiling, precision] at bound ⊢
  omega

theorem round_cellPlaces_ok (x : Float) : ∃ y, round? cellPlaces x = .ok y := by
  unfold round?
  split
  next negative m e _ =>
    split
    next below =>
      have digits := coefficient_below_precision (m := m) (e := e) (by simpa using below)
      rw [lastPlace_cellPlaces, ok_bind]
      unfold roundFinite
      rw [if_neg (Nat.not_le.mpr digits)]
      exact ⟨_, rfl⟩
    · exact ⟨x, rfl⟩
  · exact ⟨x, rfl⟩

end Places

end MatrixSteps
