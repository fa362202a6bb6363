import Mathlib
import MatrixSteps.Proofs.StackDiscipline
import MatrixSteps.Proofs.FaultTaxonomy

/-!
Configured limits only refuse; they never change an answer.

Limits are ordered field by field, no limit being the loosest (`Limits.le_def`). The engine reads
its limits in three places: the expression's length and the inputs' dimensions before anything
runs (`checkLimits`), and the exponent of each power a matrix is raised to
(`Machine.checkExponent`).
Each check fails only with a limit fault: an `EvaluationLimitExceeded` fault, or the host's refusal
to write a limit of more than `digitLimit` digits into that fault's message. A check passes under
looser limits whenever it passes under tighter ones. So from the operator up to the whole
evaluation, an answer that limits `c` do not stop is the answer of any looser limits
(`evaluate_loosened`), and of no limits at all. Limits that can all be written stop an evaluation
with `EvaluationLimitExceeded` only (`evaluate_unwritable`).
-/

namespace MatrixSteps

/-- A bound on a count: `none` bounds nothing. -/
def Limits.BoundLe : Option Int → Option Int → Prop
  | _, none => True
  | none, some _ => False
  | some a, some b => a ≤ b

/-- Limits are at most other limits when each of their bounds is: `c ≤ c'` when `c'` accepts
everything `c` accepts. -/
instance : LE Limits where
  le c c' := Limits.BoundLe c.maxExpressionLength c'.maxExpressionLength ∧
    Limits.BoundLe c.maxExponent c'.maxExponent ∧ Limits.BoundLe c.maxDimension c'.maxDimension

theorem Limits.le_def {c c' : Limits} :
    c ≤ c' ↔ Limits.BoundLe c.maxExpressionLength c'.maxExpressionLength ∧
      Limits.BoundLe c.maxExponent c'.maxExponent ∧
        Limits.BoundLe c.maxDimension c'.maxDimension := Iff.rfl

theorem Limits.le_unlimited (c : Limits) : c ≤ {} := by
  simp [Limits.le_def, Limits.BoundLe]

/-- A count is within a bound. -/
def Limits.Admits (bound : Option Int) (n : Int) : Prop := ∀ l, bound = some l → n ≤ l

theorem Limits.Admits.loosened {b b' : Option Int} (le : Limits.BoundLe b b') {n : Int}
    (admits : Limits.Admits b n) : Limits.Admits b' n := by
  intro l' bounded
  subst bounded
  cases b with
  | none => exact absurd le id
  | some l => exact (admits l rfl).trans le

/-- The computation was refused by a limit, with the engine's own fault. -/
def RefusedByLimit {α : Type} (x : Except Fault α) : Prop :=
  ∃ f, x = .error f ∧ f.kind = "EvaluationLimitExceeded"

/-- The computation stopped on a limit: refused by it, or failing to write it. -/
def StoppedByLimit {α : Type} (x : Except Fault α) : Prop :=
  ∃ f, x = .error f ∧ f.isLimitFault = true

theorem not_stoppedByLimit_of_bind {α β : Type} {x : Except Fault α} {g : α → Except Fault β}
    (kept : ¬ StoppedByLimit (x >>= g)) : ¬ StoppedByLimit x := by
  rintro ⟨f, rfl, limitFault⟩
  exact kept ⟨f, rfl, limitFault⟩

/-! ### The checks before evaluation -/

variable {c c' : Limits}

theorem checkDimensions_ok_iff (limit : Int) (ms : List Matrix) :
    checkDimensions limit ms = .ok () ↔
      ∀ m ∈ ms, (m.rows : Int) ≤ limit ∧ (m.cols : Int) ≤ limit := by
  induction ms with
  | nil => simp [checkDimensions]
  | cons m rest ih =>
      unfold checkDimensions
      by_cases beyond : limit < m.rows ∨ limit < m.cols
      · have refused : ¬ ((m.rows : Int) ≤ limit ∧ (m.cols : Int) ≤ limit) := by omega
        simp [beyond, refused]
      · have fits : (m.rows : Int) ≤ limit ∧ (m.cols : Int) ≤ limit := by omega
        simp [beyond, fits, ih]

/-- The checks before evaluation pass exactly when the expression's length and every input's rows
and columns are within their bounds. -/
theorem checkLimits_ok_iff (limits : Limits) (expression : String) (ms : List Matrix) :
    checkLimits limits expression ms = .ok () ↔
      Limits.Admits limits.maxExpressionLength expression.length ∧
        ∀ m ∈ ms, Limits.Admits limits.maxDimension m.rows ∧
          Limits.Admits limits.maxDimension m.cols := by
  unfold checkLimits
  have thrown : ∀ {β : Type} (f : Fault), (throw f : Except Fault β) = .error f := fun _ => rfl
  have passed : (pure () : Except Fault Unit) = .ok () := rfl
  cases limits.maxExpressionLength with
  | none => cases limits.maxDimension <;> simp [Limits.Admits, checkDimensions_ok_iff, passed]
  | some l =>
      by_cases long : l < expression.length
      · have refused : ¬ (expression.length : Int) ≤ l := by omega
        cases limits.maxDimension <;> simp [Limits.Admits, long, refused, thrown]
        exact fun stopped => nomatch stopped
      · have fits : (expression.length : Int) ≤ l := by omega
        cases limits.maxDimension <;>
          simp [Limits.Admits, long, fits, passed, checkDimensions_ok_iff]

theorem checkLimits_isLimitFault {limits : Limits} {expression : String} {ms : List Matrix}
    {f : Fault} (failed : checkLimits limits expression ms = .error f) : f.isLimitFault = true := by
  have limitFaults : FaultsWithin (fun f : Fault => f.isLimitFault = true)
      (checkLimits limits expression ms) :=
    checkLimits_faults limits expression ms (fun _ _ => Fault.writingLimit_isLimitFault rfl)
      (fun _ _ _ _ => Fault.writingLimit_isLimitFault rfl)
  exact limitFaults f failed

theorem checkLimits_loosened (looser : c ≤ c') {expression : String} {ms : List Matrix}
    (passes : checkLimits c expression ms = .ok ()) : checkLimits c' expression ms = .ok () := by
  obtain ⟨lengthLe, -, dimensionLe⟩ := Limits.le_def.mp looser
  obtain ⟨short, small⟩ := (checkLimits_ok_iff c expression ms).mp passes
  refine (checkLimits_ok_iff c' expression ms).mpr ⟨short.loosened lengthLe, fun m member => ?_⟩
  exact ⟨(small m member).1.loosened dimensionLe, (small m member).2.loosened dimensionLe⟩

/-! ### The exponent of a power -/

theorem Binary.Parts.exceeds_of_le {n n' : Int} (le : n ≤ n') {p : Binary.Parts}
    (beyond : p.exceeds n' = true) : p.exceeds n = true := by
  cases p with
  | nan => simp [exceeds] at beyond
  | infinity negative => simpa [exceeds] using beyond
  | finite negative significand exponent =>
      simp only [exceeds, Binary.compareInt, beq_iff_eq, compare_gt_iff_gt] at beyond ⊢
      have scaled : n * 2 ^ (-exponent).toNat ≤ n' * 2 ^ (-exponent).toNat :=
        Int.mul_le_mul_of_nonneg_right le (by positivity)
      omega

namespace Machine

theorem checkExponent_loosened (looser : c ≤ c') {a b : Operand}
    (passes : checkExponent c a b = .ok ()) : checkExponent c' a b = .ok () := by
  obtain ⟨-, exponentLe, -⟩ := Limits.le_def.mp looser
  cases loose : c'.maxExponent with
  | none => simp [checkExponent, loose]
  | some l' =>
      cases tight : c.maxExponent with
      | none => simp [Limits.BoundLe, tight, loose] at exponentLe
      | some l =>
          simp only [Limits.BoundLe, tight, loose] at exponentLe
          cases a <;> cases b <;> simp only [checkExponent, tight, loose] at passes ⊢
          case matrix.scalar e =>
            have below : (Binary.parts e).exceeds l = false := by
              by_contra beyond
              simp [Bool.not_eq_false] at beyond
              simp [beyond] at passes
            have below' : (Binary.parts e).exceeds l' = false := by
              by_contra beyond
              simp only [Bool.not_eq_false] at beyond
              rw [Binary.Parts.exceeds_of_le exponentLe beyond] at below
              cases below
            simp [below']

theorem operate_loosened (looser : c ≤ c') {symbol : String} {a b : Operand}
    (kept : ¬ StoppedByLimit (operate c symbol a b)) :
    operate c' symbol a b = operate c symbol a b := by
  unfold operate at kept ⊢
  cases found : Operator.ofSymbol? symbol with
  | none => rfl
  | some op =>
      rw [found] at kept
      by_cases isPower : op = .power
      · subst isPower
        simp only [beq_self_eq_true, if_true] at kept ⊢
        cases checked : checkExponent c a b with
        | error f =>
            rw [checked] at kept
            exact absurd ⟨f, rfl, checkExponent_isLimitFault checked⟩ kept
        | ok u => rw [checkExponent_loosened looser checked]
      · simp [isPower]

/-! ### Steps and runs -/

variable {inputs : List Entry} {table : VariableTable}

theorem step_loosened (looser : c ≤ c') {s : Machine} {t : Token}
    (kept : ¬ StoppedByLimit (step c inputs table s t)) :
    step c' inputs table s t = step c inputs table s t := by
  obtain ⟨kind, lexeme⟩ := t
  obtain ⟨stack, trace, next⟩ := s
  cases kind
  case operator =>
    by_cases isMark : lexeme = transposeMark
    · subst isMark
      cases stack with
      | nil => simp [step]
      | cons a below => rw [step_transpose, step_transpose]
    · rcases stack with _ | ⟨b, _ | ⟨a, below⟩⟩
      · simp [step, isMark]
      · simp [step, isMark]
      · rw [step_binary _ _ _ isMark] at kept ⊢
        rw [step_binary _ _ _ isMark, operate_loosened looser (not_stoppedByLimit_of_bind kept)]
  all_goals rfl

theorem run_loosened (looser : c ≤ c') (s : Machine) (tokens : List Token)
    (kept : ¬ StoppedByLimit (run c inputs table s tokens)) :
    run c' inputs table s tokens = run c inputs table s tokens := by
  induction tokens generalizing s with
  | nil => rfl
  | cons t rest ih =>
      rw [run_cons] at kept ⊢
      rw [run_cons, step_loosened looser (not_stoppedByLimit_of_bind kept)]
      cases stepped : step c inputs table s t with
      | error f => rfl
      | ok s' =>
          rw [stepped, ok_bind] at kept
          exact ih s' kept

end Machine

/-! ### Whole evaluations -/

theorem evaluatePostfix_loosened (looser : c ≤ c') {inputs : List Entry} {firstSerial : Nat}
    {tokens : List Token} (kept : ¬ StoppedByLimit (evaluatePostfix c inputs firstSerial tokens)) :
    evaluatePostfix c' inputs firstSerial tokens = evaluatePostfix c inputs firstSerial tokens := by
  unfold evaluatePostfix at kept ⊢
  cases tabled : inputTable inputs with
  | error f => rfl
  | ok table =>
      rw [tabled, ok_bind] at kept
      rw [ok_bind, ok_bind, Machine.run_loosened looser _ _ (not_stoppedByLimit_of_bind kept)]

theorem evaluate_loosened (looser : c ≤ c') {inputs : List Entry} {firstSerial : Nat}
    {expression : String} (kept : ¬ StoppedByLimit (evaluate c inputs firstSerial expression)) :
    evaluate c' inputs firstSerial expression = evaluate c inputs firstSerial expression := by
  rw [evaluate_eq] at kept ⊢
  rw [evaluate_eq]
  split
  · rfl
  · next notBlank =>
      rw [if_neg notBlank] at kept
      cases checked : checkLimits c expression (inputs.map (·.matrix)) with
      | error f =>
          rw [checked] at kept
          exact absurd ⟨f, rfl, checkLimits_isLimitFault checked⟩ kept
      | ok u =>
          rw [checked, ok_bind] at kept
          rw [checkLimits_loosened looser checked, ok_bind, ok_bind,
            evaluatePostfix_loosened looser kept]

theorem stoppedByLimit_iff_refused {c : Limits} {inputs : List Entry} {firstSerial : Nat}
    {expression : String} (writable : c.Writable) :
    StoppedByLimit (evaluate c inputs firstSerial expression) ↔
      RefusedByLimit (evaluate c inputs firstSerial expression) := by
  constructor
  · rintro ⟨f, failed, limitFault⟩
    rcases Fault.kind_of_isLimitFault limitFault with kind | rfl
    · exact ⟨f, failed, kind⟩
    · exact absurd writable (evaluate_unwritable failed)
  · rintro ⟨f, failed, kind⟩
    refine ⟨f, failed, ?_⟩
    cases f <;> simp_all [Fault.kind, Fault.isLimitFault]

/-- Limits only ever stop an evaluation; they never change its answer. Under any limits an
evaluation is stopped by a limit or is the evaluation without limits, to the same trace, handles,
result and fault. Under looser limits, an evaluation that tighter ones do not stop is unchanged. A
limit stops an evaluation with the engine's own fault whenever every limit can be written; one of
more than `digitLimit` digits stops it with the host's refusal to write it instead. -/
theorem limits_stop_or_keep_evaluation (c c' : Limits) (inputs : List Entry) (firstSerial : Nat)
    (expression : String) :
    (StoppedByLimit (evaluate c inputs firstSerial expression) ∨
        evaluate c inputs firstSerial expression = evaluate {} inputs firstSerial expression) ∧
      (c ≤ c' → ¬ StoppedByLimit (evaluate c inputs firstSerial expression) →
        evaluate c' inputs firstSerial expression = evaluate c inputs firstSerial expression) ∧
      (c.Writable → (StoppedByLimit (evaluate c inputs firstSerial expression) ↔
        RefusedByLimit (evaluate c inputs firstSerial expression))) := by
  refine ⟨or_iff_not_imp_left.mpr fun kept => ?_, fun looser kept => ?_, stoppedByLimit_iff_refused⟩
  · exact (evaluate_loosened (Limits.le_unlimited c) kept).symm
  · exact evaluate_loosened looser kept

/-- The expression `A`, one character long, is admitted by a length limit of one, and a limit of
three gives the same evaluation. A length limit of zero, which can be written, refuses it with the
engine's own fault. -/
theorem looser_length_limit_keeps_evaluation :
    ({ maxExpressionLength := some 1 } : Limits) ≤ { maxExpressionLength := some 3 } ∧
      ¬ StoppedByLimit (evaluate { maxExpressionLength := some 1 }
        [⟨.given "a", ⟨"A", 1, 1, [[0.0]], none⟩⟩] 0 "A") ∧
      evaluate { maxExpressionLength := some 3 }
          [⟨.given "a", ⟨"A", 1, 1, [[0.0]], none⟩⟩] 0 "A" =
        evaluate { maxExpressionLength := some 1 }
          [⟨.given "a", ⟨"A", 1, 1, [[0.0]], none⟩⟩] 0 "A" ∧
      RefusedByLimit (evaluate { maxExpressionLength := some 0 }
        [⟨.given "a", ⟨"A", 1, 1, [[0.0]], none⟩⟩] 0 "A") := by
  have looser :
      ({ maxExpressionLength := some 1 } : Limits) ≤ { maxExpressionLength := some 3 } := by
    simp [Limits.le_def, Limits.BoundLe]
  have accepted : (evaluate { maxExpressionLength := some 1 }
      [⟨.given "a", ⟨"A", 1, 1, [[0.0]], none⟩⟩] 0 "A").toBool = true := by
    decide +kernel
  have kept : ¬ StoppedByLimit (evaluate { maxExpressionLength := some 1 }
      [⟨.given "a", ⟨"A", 1, 1, [[0.0]], none⟩⟩] 0 "A") := by
    rintro ⟨f, failed, -⟩
    rw [failed] at accepted
    cases accepted
  have writable : Limits.Writable { maxExpressionLength := some 0 } :=
    ⟨fun _ given => Option.some.inj given ▸ writable_zero, fun _ given => (by cases given),
      fun _ given => (by cases given)⟩
  have stopped : StoppedByLimit (evaluate { maxExpressionLength := some 0 }
      [⟨.given "a", ⟨"A", 1, 1, [[0.0]], none⟩⟩] 0 "A") :=
    ⟨_, rfl, Fault.writingLimit_isLimitFault rfl⟩
  exact ⟨looser, kept, (limits_stop_or_keep_evaluation _ _ _ 0 "A").2.1 looser kept,
    ((limits_stop_or_keep_evaluation _ {} _ 0 "A").2.2 writable).mp stopped⟩

/-- A length limit of `-(10 ^ digitLimit)` refuses the expression `A`, one character long, but is
too long to write into the fault's message: the evaluation stops with the host's `ValueError`,
neither refused by the limit nor the evaluation without limits, which succeeds. -/
theorem unwritable_limit_stops_with_value_error :
    evaluate { maxExpressionLength := some (-((10 ^ digitLimit : Nat) : Int)) }
        [⟨.given "m", ⟨"M", 1, 1, [[1.0]], none⟩⟩] 0 "A" = .error .unwritableInteger ∧
      Fault.unwritableInteger.kind = "ValueError" ∧
      (evaluate {} [⟨.given "m", ⟨"M", 1, 1, [[1.0]], none⟩⟩] 0 "A").toBool = true := by
  have tooLong : (-((10 ^ digitLimit : Nat) : Int)) < ("A".length : Int) := by
    have positive : (0 : Int) < ((10 ^ digitLimit : Nat) : Int) := by positivity
    simp only [String.length]
    omega
  exact ⟨evaluate_of_unwritable_length rfl not_writable_neg_ten_pow (by decide) tooLong, rfl,
    by decide +kernel⟩

end MatrixSteps
