import Mathlib
import MatrixSteps.Proofs.LexerLaws
import MatrixSteps.Proofs.IntegerNumerals

/-!
The faults that escape the engine's taxonomy.

Every number token the lexer cuts reads as a double, so an evaluation never fails on the text of a
number (`Token.read_of_wellFormed`). An evaluation that ends outside the taxonomy has failed for
want of a letter, when the inputs outnumber the lettered positions, or in writing a limit of more
than `digitLimit` digits into the message of a limit's fault. Batch operations and cell rounding
never escape.
-/

namespace MatrixSteps

namespace Token

theorem read_of_wellFormed {t : Token} (formed : t.wellFormed = true) (number : t.kind = .number) :
    ∃ x, FloatLiteral.read? t.lexeme = some x := by
  simp only [wellFormed, number] at formed
  obtain ⟨whole, fraction, spelled, nonempty, digits, fractional⟩ := (isNumberText_iff _).mp formed
  have text : t.lexeme = String.ofList (whole ++ fraction) := by
    rw [← spelled, String.ofList_toList]
  rw [text]
  rcases fractional with rfl | ⟨f, rfl, -, fractionDigits⟩
  · rw [List.append_nil]
    exact ⟨_, FloatLiteral.read?_of_numeral? (FloatLiteral.numeral?_digits nonempty digits)⟩
  · exact ⟨_, FloatLiteral.read?_of_numeral? (FloatLiteral.numeral?_fraction nonempty digits fractionDigits)⟩

theorem not_unread_of_wellFormed {t : Token} (formed : t.wellFormed = true) (f : Fault) :
    ¬ t.Unread f := by
  rintro ⟨number, -, unread⟩
  obtain ⟨x, read⟩ := read_of_wellFormed formed number
  rw [read] at unread
  cases unread

theorem toPostfix_ofString_wellFormed (expression : String) :
    ∀ t ∈ toPostfix (ofString expression), t.wellFormed = true := by
  intro t member
  rcases mem_postfixWith member with cut | stacked
  · exact scan_wellFormed _ t cut
  · cases stacked

end Token

section Evaluation

variable (limits : Limits) (inputs : List Entry) (firstSerial : Nat) (expression : String)

/-- The conditions under which an evaluation fails for want of a letter: the expression is not
blank, it and the inputs are within the limits, and the inputs outnumber the lettered positions. -/
def Unlettered : Prop :=
  Text.isBlankText expression = false ∧ checkLimits limits expression (inputs.map (·.matrix)) = .ok () ∧
    VariableTable.letteredPositions < inputs.length

theorem evaluate_of_unlettered (unlettered : Unlettered limits inputs expression) :
    evaluate limits inputs firstSerial expression =
      .error (.noLetter VariableTable.letteredPositions) := by
  obtain ⟨notBlank, passed, outnumbered⟩ := unlettered
  rw [evaluate_eq, notBlank, if_neg Bool.false_ne_true, passed, ok_bind,
    evaluatePostfix_of_outnumbered limits firstSerial _ outnumbered]

theorem evaluate_underLimits (lettered : ¬ Unlettered limits inputs expression) :
    FaultsWithin (Fault.UnderLimits limits) (evaluate limits inputs firstSerial expression) := by
  rw [evaluate_eq]
  split
  · exact FaultsWithin.error (.inl rfl)
  · next blank =>
      have checked := checkLimits_underLimits limits expression (inputs.map (·.matrix))
      cases passed : checkLimits limits expression (inputs.map (·.matrix)) with
      | error f =>
          rw [passed] at checked
          exact FaultsWithin.error_bind checked
      | ok u =>
          have fits : inputs.length ≤ VariableTable.letteredPositions :=
            Nat.le_of_not_lt fun outnumbered =>
              lettered ⟨Bool.eq_false_iff.mpr blank, passed, outnumbered⟩
          refine FaultsWithin.mono ?_ (evaluatePostfix_underLimits limits firstSerial _ fits)
          rintro f (underLimits | ⟨t, member, unread⟩)
          · exact underLimits
          · exact absurd unread
              (Token.not_unread_of_wellFormed (Token.toPostfix_ofString_wellFormed _ t member) f)

end Evaluation

theorem Fault.not_underLimits_noLetter (limits : Limits) (position : Nat) :
    ¬ (Fault.noLetter position).UnderLimits limits := by
  rintro (expressionError | ⟨wrong, -⟩)
  · cases expressionError
  · cases wrong

/-- The engine's faults are its own, with two exceptions. Evaluating an expression, directly or
logged, ends outside the taxonomy exactly when it fails for want of a letter or in writing a limit.
It fails for want of a letter exactly when the expression is not blank, it and the inputs are
within the limits, and the inputs outnumber the lettered positions; it fails in writing a limit
only when some limit has more than `digitLimit` digits. Batch operations end within the taxonomy,
and every cell rounds to four places. -/
theorem faults_escape_by_letters_or_limits (limits : Limits) (inputs : List Entry)
    (firstSerial : Nat) (expression : String) (operation : Operation) (selected : List Matrix)
    (scalar exponent : Float) :
    (¬ InTaxonomy (evaluate limits inputs firstSerial expression) ↔
      evaluate limits inputs firstSerial expression =
          .error (.noLetter VariableTable.letteredPositions) ∨
        evaluate limits inputs firstSerial expression = .error .unwritableInteger) ∧
    (evaluate limits inputs firstSerial expression =
        .error (.noLetter VariableTable.letteredPositions) ↔
      Text.isBlankText expression = false ∧
        checkLimits limits expression (inputs.map (·.matrix)) = .ok () ∧
        VariableTable.letteredPositions < inputs.length) ∧
    (evaluate limits inputs firstSerial expression = .error .unwritableInteger →
      ¬ limits.Writable) ∧
    (InTaxonomy (Workbench.solve limits inputs firstSerial expression) ↔
      InTaxonomy (evaluate limits inputs firstSerial expression)) ∧
    InTaxonomy (Workbench.apply operation selected scalar exponent firstSerial) ∧
    ∀ x, ∃ y, Places.round? Places.cellPlaces x = .ok y := by
  refine ⟨⟨fun escapes => ?_, ?_⟩, ⟨fun failed => ?_, evaluate_of_unlettered limits inputs firstSerial expression⟩,
    evaluate_unwritable, FaultsWithin.bind_pure_iff, Workbench.apply_inTaxonomy _ _ _ _ _,
    Places.round_cellPlaces_ok⟩
  · by_cases unlettered : Unlettered limits inputs expression
    · exact .inl (evaluate_of_unlettered limits inputs firstSerial expression unlettered)
    · have underLimits := evaluate_underLimits limits inputs firstSerial expression unlettered
      cases evaluated : evaluate limits inputs firstSerial expression with
      | ok ev => exact absurd (evaluated ▸ FaultsWithin.ok ev) escapes
      | error f =>
          rcases underLimits f evaluated with expressionError | ⟨rfl, -⟩
          · exact absurd (evaluated ▸ FaultsWithin.error expressionError) escapes
          · exact .inr rfl
  · rintro (failed | failed) <;> rw [failed] <;> exact FaultsWithin.not_error Bool.false_ne_true
  · by_contra lettered
    have underLimits := evaluate_underLimits limits inputs firstSerial expression lettered
    exact Fault.not_underLimits_noLetter limits _ (underLimits _ failed)

/-- Both escapes. With `0x110000 - 65` inputs and one more, the last input has no letter, and
evaluating `A` fails for want of a letter. A length limit of `-(10 ^ digitLimit)` refuses `A`, but
its fault's message cannot write the limit. -/
theorem letter_and_limit_escape_taxonomy :
    ¬ InTaxonomy (evaluate {}
        (List.replicate (VariableTable.letteredPositions + 1) ⟨.given "m", ⟨"", 1, 1, [[0.0]], none⟩⟩)
        0 "A") ∧
      ¬ InTaxonomy (evaluate { maxExpressionLength := some (-((10 ^ digitLimit : Nat) : Int)) }
        [⟨.given "m", ⟨"M", 1, 1, [[1.0]], none⟩⟩] 0 "A") := by
  have tooLong : (-((10 ^ digitLimit : Nat) : Int)) < ("A".length : Int) := by
    have positive : (0 : Int) < ((10 ^ digitLimit : Nat) : Int) := by positivity
    simp only [String.length]
    omega
  constructor
  · rw [evaluate_of_unlettered]
    · exact FaultsWithin.not_error Bool.false_ne_true
    · exact ⟨by decide, rfl, by simp⟩
  · rw [evaluate_of_unwritable_length rfl not_writable_neg_ten_pow (by decide) tooLong]
    exact FaultsWithin.not_error Bool.false_ne_true

end MatrixSteps
