import Mathlib
import MatrixSteps.Proofs.OperatorChains
import MatrixSteps.Proofs.ParenthesisGroups

/-!
Laws of the lexer, over all texts.

A number or a word can only grow across ASCII letters, ASCII digits and the point, so any other
character separates the scan: the text before it, the character, and the text after it are cut
apart (`Token.ofString_separated`). Every token the lexer cuts is well formed
(`Token.scan_wellFormed`), and the lexeme of a well-formed token scans back to that token alone
(`Token.ofString_lexeme`). Together, lexemes written one blank apart scan back to their tokens
(`Token.ofString_joined`).
-/

namespace MatrixSteps

namespace Token

/-- The character can neither continue a number or a word nor let a fraction start across it: it is
not an ASCII letter, not an ASCII digit and not a point. -/
def Separates (c : Char) : Prop := c.isAlpha = false ∧ c.isDigit = false ∧ c ≠ '.'

instance : DecidablePred Separates := fun c =>
  inferInstanceAs (Decidable (c.isAlpha = false ∧ c.isDigit = false ∧ c ≠ '.'))

/-! ### One step of the scan -/

theorem scan_digit {d : Char} (digit : d.isDigit = true) (rest : List Char) :
    scan (d :: rest) =
      ⟨.number, String.ofList
          (d :: rest.takeWhile Char.isDigit ++ (fractionPart (rest.dropWhile Char.isDigit)).1)⟩ ::
        scan (fractionPart (rest.dropWhile Char.isDigit)).2 := by
  rw [scan, if_pos digit]

theorem scan_alpha {d : Char} (notDigit : d.isDigit = false) (alpha : d.isAlpha = true)
    (rest : List Char) :
    scan (d :: rest) =
      ⟨.identifier, String.ofList (d :: rest.takeWhile Char.isAlpha)⟩ ::
        scan (rest.dropWhile Char.isAlpha) := by
  rw [scan, if_neg (by simp [notDigit]), if_pos alpha]

theorem scan_skipped {d : Char} (notDigit : d.isDigit = false) (notAlpha : d.isAlpha = false)
    (none : symbolKind? d = none) (rest : List Char) : scan (d :: rest) = scan rest := by
  rw [scan]
  simp [notDigit, notAlpha, none]

/-! ### Cutting at a separator -/

theorem takeWhile_before {p : Char → Bool} {c : Char} (stop : p c = false) (xs ys : List Char) :
    (xs ++ c :: ys).takeWhile p = xs.takeWhile p ∧
      (xs ++ c :: ys).dropWhile p = xs.dropWhile p ++ c :: ys :=
  takeWhile_append_of_stop (.inr fun d first => by cases first; exact stop)

section Separated

variable {c : Char}

theorem fractionPart_separated (separates : Separates c) (xs ys : List Char) :
    fractionPart (xs ++ c :: ys) = ((fractionPart xs).1, (fractionPart xs).2 ++ c :: ys) := by
  obtain ⟨-, notDigit, notPoint⟩ := separates
  cases xs with
  | nil => cases ys <;> simp [fractionPart, notPoint]
  | cons x rest =>
      by_cases point : x = '.'
      · subst point
        cases rest with
        | nil => simp [fractionPart, notDigit]
        | cons d rest =>
            obtain ⟨taken, dropped⟩ := takeWhile_before notDigit rest ys
            by_cases digit : d.isDigit = true
            · simp [fractionPart, digit, taken, dropped]
            · simp [fractionPart, digit]
      · simp [fractionPart, point]

theorem scan_cons_separated (separates : Separates c) (ys : List Char) :
    scan (c :: ys) = scan [c] ++ scan ys := by
  obtain ⟨notAlpha, notDigit, -⟩ := separates
  cases symbol : symbolKind? c with
  | none =>
      rw [scan_skipped notDigit notAlpha symbol, scan_skipped notDigit notAlpha symbol, scan.eq_1,
        List.nil_append]
  | some kind => rw [scan_symbol symbol, scan_symbol symbol, scan.eq_1, List.singleton_append]

theorem scan_separated (separates : Separates c) (xs ys : List Char) :
    scan (xs ++ c :: ys) = scan xs ++ scan [c] ++ scan ys := by
  induction xs using scan.induct with
  | case1 => rw [List.nil_append, scan_cons_separated separates ys, scan.eq_1, List.nil_append]
  | case2 d rest digit tail ih =>
      obtain ⟨taken, dropped⟩ := takeWhile_before separates.2.1 rest ys
      rw [List.cons_append, scan_digit digit, scan_digit digit, taken, dropped,
        fractionPart_separated separates, ih]
      simp [tail]
  | case3 d rest notDigit alpha ih =>
      have word := scan_alpha (Bool.eq_false_iff.mpr notDigit) alpha
      obtain ⟨taken, dropped⟩ := takeWhile_before separates.1 rest ys
      rw [List.cons_append, word, word, taken, dropped, ih]
      simp
  | case4 d rest notDigit notAlpha kind symbol ih =>
      rw [List.cons_append, scan_symbol symbol, scan_symbol symbol, ih]
      simp
  | case5 d rest notDigit notAlpha none ih =>
      have skipped :=
        scan_skipped (Bool.eq_false_iff.mpr notDigit) (Bool.eq_false_iff.mpr notAlpha) none
      rw [List.cons_append, skipped, skipped]
      exact ih

theorem ofString_separated (separates : Separates c) (s₁ s₂ : String) :
    ofString (s₁ ++ String.singleton c ++ s₂) =
      ofString s₁ ++ ofString (String.singleton c) ++ ofString s₂ := by
  simp only [ofString, String.toList_append, String.toList_singleton, List.append_assoc,
    List.singleton_append]
  rw [scan_separated separates, List.append_assoc]

end Separated

/-! ### Well-formed tokens -/

/-- The fraction of a number's text: nothing, or a point followed by at least one digit. -/
def IsFraction (fraction : List Char) : Prop :=
  fraction = [] ∨ ∃ f, fraction = '.' :: f ∧ f ≠ [] ∧ ∀ e ∈ f, e.isDigit = true

theorem IsFraction.stops {fraction : List Char} (fractional : IsFraction fraction) :
    ∀ e ∈ fraction.head?, e.isDigit = false := by
  rcases fractional with rfl | ⟨f, rfl, -⟩ <;> simp

theorem takeWhile_number {whole fraction : List Char} (digits : ∀ d ∈ whole, d.isDigit = true)
    (fractional : IsFraction fraction) :
    (whole ++ fraction).takeWhile Char.isDigit = whole ∧
      (whole ++ fraction).dropWhile Char.isDigit = fraction := by
  obtain ⟨taken, dropped⟩ := takeWhile_append_of_stop (.inr fractional.stops)
  rw [taken, dropped, List.takeWhile_eq_self_iff.mpr digits, List.dropWhile_eq_nil_iff.mpr digits,
    List.nil_append]
  exact ⟨rfl, rfl⟩

theorem fractionPart_fst (cs : List Char) : IsFraction (fractionPart cs).1 := by
  unfold fractionPart
  split
  · split
    · next d rest digit =>
        exact .inr ⟨d :: rest.takeWhile Char.isDigit, rfl, List.cons_ne_nil _ _,
          List.forall_mem_cons.mpr ⟨digit, fun e member => List.mem_takeWhile_imp member⟩⟩
    · exact .inl rfl
  · exact .inl rfl

theorem fractionPart_of_isFraction {fraction : List Char} (fractional : IsFraction fraction) :
    fractionPart fraction = (fraction, []) := by
  rcases fractional with rfl | ⟨f, rfl, nonempty, digits⟩
  · rfl
  · obtain ⟨d, ds, rfl⟩ := List.exists_cons_of_ne_nil nonempty
    have tail : ∀ e ∈ ds, e.isDigit = true :=
      fun e member => digits e (List.mem_cons_of_mem d member)
    simp [fractionPart, digits d List.mem_cons_self, List.takeWhile_eq_self_iff.mpr tail,
      List.dropWhile_eq_nil_iff.mpr tail]

theorem isNumberText_iff (cs : List Char) :
    isNumberText cs = true ↔
      ∃ whole fraction, cs = whole ++ fraction ∧ whole ≠ [] ∧ (∀ d ∈ whole, d.isDigit = true) ∧
        IsFraction fraction := by
  constructor
  · intro number
    unfold isNumberText at number
    rw [List.span_eq_takeWhile_dropWhile] at number
    obtain ⟨w, ws, leading⟩ : ∃ w ws, cs.takeWhile Char.isDigit = w :: ws := by
      cases taken : cs.takeWhile Char.isDigit with
      | nil => rw [taken] at number; cases number
      | cons w ws => exact ⟨w, ws, rfl⟩
    refine ⟨_, _, List.takeWhile_append_dropWhile.symm, by simp [leading],
      fun d member => List.mem_takeWhile_imp member, ?_⟩
    rw [leading] at number
    revert number
    cases rest : cs.dropWhile Char.isDigit with
    | nil => exact fun _ => .inl rfl
    | cons e more =>
        intro number
        by_cases point : e = '.'
        · subst point
          simp only [Bool.and_eq_true, Bool.not_eq_true', List.isEmpty_eq_false_iff,
            List.all_eq_true] at number
          exact .inr ⟨more, rfl, number.1, number.2⟩
        · simp [point] at number
  · rintro ⟨whole, fraction, rfl, nonempty, digits, fractional⟩
    obtain ⟨taken, dropped⟩ := takeWhile_number digits fractional
    obtain ⟨w, ws, rfl⟩ := List.exists_cons_of_ne_nil nonempty
    unfold isNumberText
    rw [List.span_eq_takeWhile_dropWhile, taken, dropped]
    rcases fractional with rfl | ⟨f, rfl, nonempty, digits⟩
    · rfl
    · simp [nonempty, List.all_eq_true.mpr digits]

theorem scan_number {whole fraction : List Char} (nonempty : whole ≠ [])
    (digits : ∀ d ∈ whole, d.isDigit = true) (fractional : IsFraction fraction) :
    scan (whole ++ fraction) = [⟨.number, String.ofList (whole ++ fraction)⟩] := by
  obtain ⟨w, ws, rfl⟩ := List.exists_cons_of_ne_nil nonempty
  obtain ⟨taken, dropped⟩ :=
    takeWhile_number (fun d member => digits d (List.mem_cons_of_mem w member)) fractional
  rw [List.cons_append, scan_digit (digits w List.mem_cons_self), taken, dropped,
    fractionPart_of_isFraction fractional, scan.eq_1, List.cons_append]

theorem wellFormed_symbol {c : Char} {kind : TokenKind} (symbol : symbolKind? c = some kind) :
    wellFormed ⟨kind, String.singleton c⟩ = true := by
  have classified := symbol
  unfold symbolKind? at symbol
  split_ifs at symbol with opening closing
  · cases symbol
    subst opening
    rfl
  · cases symbol
    subst closing
    rfl
  · cases symbol
    simp [wellFormed, classified]

theorem scan_wellFormed (cs : List Char) : ∀ t ∈ scan cs, t.wellFormed = true := by
  induction cs using scan.induct with
  | case1 => simp [scan.eq_1]
  | case2 d rest digit tail ih =>
      rw [scan_digit digit]
      refine List.forall_mem_cons.mpr ⟨?_, ih⟩
      show isNumberText (String.ofList _).toList = true
      rw [String.toList_ofList, isNumberText_iff]
      exact ⟨_, _, rfl, List.cons_ne_nil _ _,
        List.forall_mem_cons.mpr ⟨digit, fun e member => List.mem_takeWhile_imp member⟩,
        fractionPart_fst _⟩
  | case3 d rest notDigit alpha ih =>
      rw [scan_alpha (Bool.eq_false_iff.mpr notDigit) alpha]
      refine List.forall_mem_cons.mpr ⟨?_, ih⟩
      simp only [wellFormed, String.all_bool_eq, String.toList_ofList, Bool.and_eq_true,
        Bool.not_eq_true', List.all_cons, alpha, Bool.true_and, List.all_eq_true]
      exact ⟨by simp, fun e member => List.mem_takeWhile_imp member⟩
  | case4 d rest notDigit notAlpha kind symbol ih =>
      rw [scan_symbol symbol]
      exact List.forall_mem_cons.mpr ⟨wellFormed_symbol symbol, ih⟩
  | case5 d rest notDigit notAlpha none ih =>
      rw [scan_skipped (Bool.eq_false_iff.mpr notDigit) (Bool.eq_false_iff.mpr notAlpha) none]
      exact ih

theorem ofString_singleton {c : Char} {kind : TokenKind} (symbol : symbolKind? c = some kind) :
    ofString (String.singleton c) = [⟨kind, String.singleton c⟩] := by
  rw [ofString, String.toList_singleton, scan_symbol symbol, scan.eq_1]

theorem ofString_lexeme {t : Token} (formed : t.wellFormed = true) : ofString t.lexeme = [t] := by
  obtain ⟨kind, lexeme⟩ := t
  cases kind with
  | number =>
      obtain ⟨whole, fraction, spelled, nonempty, digits, fractional⟩ :=
        (isNumberText_iff lexeme.toList).mp formed
      rw [ofString, spelled, scan_number nonempty digits fractional, ← spelled,
        String.ofList_toList]
  | identifier =>
      simp only [wellFormed, String.all_bool_eq, Bool.and_eq_true, Bool.not_eq_true',
        List.all_eq_true] at formed
      have scanned := scan_word ⟨by simpa using formed.1, formed.2⟩
        (show ∀ c ∈ ([] : List Char).head?, c.isAlpha = false by simp)
      rwa [List.append_nil, scan.eq_1] at scanned
  | operator =>
      simp only [wellFormed, Bool.and_eq_true, beq_iff_eq, String.all_bool_eq,
        List.all_eq_true] at formed
      obtain ⟨one, symbols⟩ := formed
      obtain ⟨c, spelled⟩ := List.length_eq_one_iff.mp (String.length_toList.trans one)
      have symbol : symbolKind? c = some .operator := symbols c (by simp [spelled])
      have single : lexeme = String.singleton c := String.toList_inj.mp (by simp [spelled])
      rw [single]
      exact ofString_singleton symbol
  | openParen =>
      obtain rfl : lexeme = "(" := by simpa [wellFormed] using formed
      exact ofString_singleton (c := '(') rfl
  | closeParen =>
      obtain rfl : lexeme = ")" := by simpa [wellFormed] using formed
      exact ofString_singleton (c := ')') rfl

theorem ofString_skipped {c : Char}
    (skipped : Text.isBlank c = true ∨
      (c.isAlpha = false ∧ c.isDigit = false ∧ symbolKind? c = none)) :
    ofString (String.singleton c) = [] := by
  obtain ⟨notAlpha, notDigit, none⟩ :
      c.isAlpha = false ∧ c.isDigit = false ∧ symbolKind? c = none := by
    rcases skipped with blank | unrecognised
    · obtain ⟨digit, alpha, symbol⟩ := Text.not_digit_of_blank blank
      exact ⟨alpha, digit, symbol⟩
    · exact unrecognised
  rw [ofString, String.toList_singleton, scan_skipped notDigit notAlpha none, scan.eq_1]

theorem ofString_joined : ∀ {ts : List Token}, (∀ t ∈ ts, t.wellFormed = true) →
    ofString (String.intercalate " " (ts.map (·.lexeme))) = ts
  | [], _ => by simp [ofString, scan.eq_1]
  | [t], formed => by simpa using ofString_lexeme (formed t List.mem_cons_self)
  | t :: u :: rest, formed => by
      have blank : Separates ' ' := by decide
      have split :=
        ofString_separated blank t.lexeme (String.intercalate " " ((u :: rest).map (·.lexeme)))
      rw [List.map_cons, List.map_cons, String.intercalate_cons_cons, ← List.map_cons]
      change ofString (t.lexeme ++ String.singleton ' ' ++ _) = _
      rw [split, ofString_lexeme (formed t List.mem_cons_self), ofString_skipped (.inl rfl),
        ofString_joined fun v member => formed v (List.mem_cons_of_mem t member)]
      rfl

end Token

/-- The lexer cuts only well-formed tokens, and the lexeme of each well-formed token scans back to
it alone. A character that is no ASCII letter, no ASCII digit and no point separates the scan: what
comes before it and what comes after it scan as they would alone, with the character's own token, if
any, between them; blanks and unrecognised characters have none. So well-formed tokens written one
blank apart scan back to themselves. -/
theorem lexer_splits_at_separators_and_round_trips :
    (∀ (s : String), ∀ t ∈ Token.ofString s, t.wellFormed = true) ∧
      (∀ t : Token, t.wellFormed = true → Token.ofString t.lexeme = [t]) ∧
      (∀ (s₁ s₂ : String) (c : Char), c.isAlpha = false → c.isDigit = false → c ≠ '.' →
        Token.ofString (s₁ ++ String.singleton c ++ s₂) =
          Token.ofString s₁ ++ Token.ofString (String.singleton c) ++ Token.ofString s₂) ∧
      (∀ c : Char, Text.isBlank c = true ∨
          (c.isAlpha = false ∧ c.isDigit = false ∧ Token.symbolKind? c = none) →
        Token.ofString (String.singleton c) = []) ∧
      ∀ ts : List Token, (∀ t ∈ ts, t.wellFormed = true) →
        Token.ofString (String.intercalate " " (ts.map (·.lexeme))) = ts :=
  ⟨fun s => Token.scan_wellFormed s.toList, fun _ formed => Token.ofString_lexeme formed,
    fun s₁ s₂ _ notAlpha notDigit notPoint =>
      Token.ofString_separated ⟨notAlpha, notDigit, notPoint⟩ s₁ s₂,
    fun _ skipped => Token.ofString_skipped skipped, fun _ formed => Token.ofString_joined formed⟩

/-- The tokens of `A * 2.5` are well-formed, and written one blank apart they scan back to
themselves. -/
theorem product_tokens_round_trip :
    (∀ t ∈ ([⟨.identifier, "A"⟩, ⟨.operator, "*"⟩, ⟨.number, "2.5"⟩] : List Token),
        t.wellFormed = true) ∧
      Token.ofString (String.intercalate " "
          (([⟨.identifier, "A"⟩, ⟨.operator, "*"⟩, ⟨.number, "2.5"⟩] : List Token).map (·.lexeme))) =
        [⟨.identifier, "A"⟩, ⟨.operator, "*"⟩, ⟨.number, "2.5"⟩] := by
  have formed : ∀ t ∈ ([⟨.identifier, "A"⟩, ⟨.operator, "*"⟩, ⟨.number, "2.5"⟩] : List Token),
      t.wellFormed = true := by
    simp [Token.wellFormed, String.all_bool_eq]
    decide
  exact ⟨formed, lexer_splits_at_separators_and_round_trips.2.2.2.2 _ formed⟩

end MatrixSteps
