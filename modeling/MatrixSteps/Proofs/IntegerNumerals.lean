import Mathlib
import MatrixSteps.Proofs.WholeDecimal
import MatrixSteps.Expression.Token
import MatrixSteps.Number.FloatLiteral

/-!
Whole numbers written in decimal. The digits of a natural number `k`, as `toString` writes them,
scan as one number token and read back as the numeral `k`, both as a numeral of the payload and as a
double from the text (`FloatLiteral.read?_toString`). When `k` is the value of a double, that
numeral reads as a double of value `k` again, however large (`Whole.decimal`): beyond `2 ^ 53` such
a value is a normal significand shifted left, which the nearest double keeps exactly. The whole
doubles from one on are exactly the exponents a power accepts (`exponentCount?_eq_some_iff`).
-/

namespace MatrixSteps

theorem Decimal.digitsValue_toDigits (n : Nat) : Decimal.digitsValue (Nat.toDigits 10 n) = n := by
  induction n using Nat.strong_induction_on with
  | _ n ih =>
    have zero : '0'.toNat = 48 := rfl
    rw [Nat.toDigits_eq_if (by decide)]
    split
    · next small =>
        simp [Decimal.digitsValue, zero, Nat.toNat_digitChar_sub_48_of_lt_ten small]
    · next large =>
        rw [Decimal.digitsValue, List.foldl_append, ← Decimal.digitsValue, ih (n / 10) (by omega)]
        simp only [List.foldl_cons, List.foldl_nil, zero,
          Nat.toNat_digitChar_sub_48_of_lt_ten (Nat.mod_lt n (by decide))]
        omega

theorem digits_isDigit (n : Nat) : ∀ c ∈ Nat.toDigits 10 n, c.isDigit = true :=
  fun _ member => Nat.isDigit_of_mem_toDigits (by decide) (by decide) member

theorem Numeral.scan_toDigits (n : Nat) :
    Numeral.scan (Nat.toDigits 10 n) = some (⟨false, ⟨n, 0⟩, true⟩, []) := by
  have whole := List.takeWhile_eq_self_iff.mpr (digits_isDigit n)
  have rest := List.dropWhile_eq_nil_iff.mpr (digits_isDigit n)
  obtain ⟨c, cs, spelled⟩ := List.exists_cons_of_ne_nil (Nat.toDigits_ne_nil (n := n) (b := 10))
  have digit := digits_isDigit n c (spelled ▸ List.mem_cons_self ..)
  have unsigned : c ≠ '-' := by
    rintro rfl
    cases digit
  have value : Decimal.digitsValue (c :: cs) = n := spelled ▸ Decimal.digitsValue_toDigits n
  unfold Numeral.scan
  rw [spelled] at whole rest ⊢
  simp [unsigned, whole, rest, value]

theorem Token.scan_toDigits (n : Nat) : Token.scan (Nat.toDigits 10 n) = [⟨.number, toString n⟩] := by
  obtain ⟨c, cs, spelled⟩ := List.exists_cons_of_ne_nil (Nat.toDigits_ne_nil (n := n) (b := 10))
  have digit := digits_isDigit n c (spelled ▸ List.mem_cons_self ..)
  have later : ∀ d ∈ cs, d.isDigit = true := fun d member =>
    digits_isDigit n d (spelled ▸ List.mem_cons_of_mem c member)
  have ended : Token.scan [] = [] := by
    rw [Token.scan]
  rw [spelled, Token.scan, if_pos digit]
  rw [List.takeWhile_eq_self_iff.mpr later, List.dropWhile_eq_nil_iff.mpr later]
  change [⟨.number, String.ofList (c :: cs ++ [])⟩] ++ Token.scan [] = _
  rw [ended, List.append_nil, List.append_nil, Nat.toString_eq_ofList_toDigits, spelled]

namespace FloatLiteral

/-- The characters a numeral of the engine's own is written with: no layout, no underscore, no
character that `asciiForm` rewrites. -/
def Plain (c : Char) : Prop := c.toNat < 0x7F ∧ c ≠ '_' ∧ isLayout c = false

theorem plain_of_isDigit {c : Char} (digit : c.isDigit = true) : Plain c := by
  have code : c.val.toNat = c.toNat := rfl
  simp only [Char.isDigit, Bool.and_eq_true, decide_eq_true_eq, UInt32.le_iff_toNat_le,
    code] at digit
  refine ⟨by simp at digit; omega, ?_, ?_⟩
  · rintro rfl
    simp at digit
  · simp only [isLayout, Bool.or_eq_false_iff, beq_eq_false_iff_ne, ne_eq, Bool.and_eq_false_imp,
      decide_eq_true_eq, decide_eq_false_iff_not, Char.le_def, UInt32.le_iff_toNat_le, code]
    refine ⟨fun same => ?_, fun _ => ?_⟩
    · subst same
      simp at digit
    · simp at digit ⊢
      omega

theorem plain_point : Plain '.' := ⟨by decide, by decide, by decide⟩

theorem asciiForm_plain {c : Char} (plain : Plain c) : asciiForm c = c := by
  simp [asciiForm, plain.1]

theorem underscoresBetweenDigits_plain (previous : Char) {cs : List Char}
    (plain : ∀ c ∈ cs, Plain c) : underscoresBetweenDigits previous cs = true := by
  induction cs generalizing previous with
  | nil => rfl
  | cons c rest ih =>
      simp only [underscoresBetweenDigits, Bool.and_eq_true, Bool.or_eq_true, bne_iff_ne]
      exact ⟨.inl (plain c List.mem_cons_self).2.1,
        ih c fun d member => plain d (List.mem_cons_of_mem c member)⟩

theorem dropWhile_isLayout_plain {cs : List Char} (plain : ∀ c ∈ cs, Plain c) :
    cs.dropWhile isLayout = cs :=
  List.dropWhile_eq_self_iff.mpr fun nonempty => by
    simp [(plain _ (List.getElem_mem nonempty)).2.2]

theorem sign_unsigned {cs : List Char} (unsigned : ∀ c ∈ cs.head?, c ≠ '-' ∧ c ≠ '+') :
    sign cs = (false, cs) := by
  unfold sign
  split <;> simp_all

theorem body?_plain {cs : List Char} (plain : ∀ c ∈ cs, Plain c)
    (unsigned : ∀ c ∈ cs.head?, c ≠ '-' ∧ c ≠ '+') : body? (String.ofList cs) = some (false, cs) := by
  have ascii : cs.map asciiForm = cs := by
    rw [List.map_congr_left fun c member => asciiForm_plain (plain c member), List.map_id']
  have kept : cs.filter (· != '_') = cs :=
    List.filter_eq_self.mpr fun c member => bne_iff_ne.mpr (plain c member).2.1
  have reversed : ∀ c ∈ cs.reverse, Plain c := fun c member => plain c (List.mem_reverse.mp member)
  simp only [body?, String.toList_ofList, ascii, underscoresBetweenDigits_plain ' ' plain, if_true,
    kept, dropWhile_isLayout_plain plain, dropWhile_isLayout_plain reversed, List.reverse_reverse,
    sign_unsigned unsigned]

theorem unsigned_of_isDigit {c : Char} (digit : c.isDigit = true) : c ≠ '-' ∧ c ≠ '+' := by
  constructor <;> rintro rfl <;> simp at digit

theorem unsigned_of_digits {ds : List Char} (rest : List Char) (nonempty : ds ≠ [])
    (digits : ∀ d ∈ ds, d.isDigit = true) : ∀ c ∈ (ds ++ rest).head?, c ≠ '-' ∧ c ≠ '+' := by
  intro c first
  obtain ⟨d, ds, rfl⟩ := List.exists_cons_of_ne_nil nonempty
  simp only [List.cons_append, List.head?_cons, Option.mem_def, Option.some.injEq] at first
  subst first
  exact unsigned_of_isDigit (digits _ List.mem_cons_self)

theorem numeral?_digits {ds : List Char} (nonempty : ds ≠ []) (digits : ∀ d ∈ ds, d.isDigit = true) :
    numeral? (String.ofList ds) = some ⟨false, ⟨Decimal.digitsValue ds, 0⟩, true⟩ := by
  have body := body?_plain (fun c member => plain_of_isDigit (digits c member))
    (by simpa using unsigned_of_digits [] nonempty digits)
  have whole : ds.takeWhile Char.isDigit = ds := List.takeWhile_eq_self_iff.mpr digits
  have taken : ds.isEmpty = false := List.isEmpty_eq_false_iff.mpr nonempty
  rw [numeral?, body]
  simp only [bind, Option.bind]
  simp [whole, taken, List.dropWhile_eq_nil_iff.mpr digits, exponent?]

theorem numeral?_fraction {whole fraction : List Char} (nonempty : whole ≠ [])
    (wholeDigits : ∀ d ∈ whole, d.isDigit = true) (fractionDigits : ∀ d ∈ fraction, d.isDigit = true) :
    numeral? (String.ofList (whole ++ '.' :: fraction)) =
      some ⟨false, ⟨Decimal.digitsValue (whole ++ fraction), -(fraction.length : Int)⟩, false⟩ := by
  have plain : ∀ c ∈ whole ++ '.' :: fraction, Plain c := by
    intro c member
    rcases List.mem_append.mp member with inWhole | inRest
    · exact plain_of_isDigit (wholeDigits c inWhole)
    · rcases List.mem_cons.mp inRest with rfl | inFraction
      · exact plain_point
      · exact plain_of_isDigit (fractionDigits c inFraction)
  have body := body?_plain plain (unsigned_of_digits _ nonempty wholeDigits)
  have point : ('.' : Char).isDigit = false := by decide
  have taken : (whole ++ '.' :: fraction).takeWhile Char.isDigit = whole := by
    rw [List.takeWhile_append_of_pos wholeDigits, List.takeWhile_cons_of_neg (by simp [point]),
      List.append_nil]
  have dropped : (whole ++ '.' :: fraction).dropWhile Char.isDigit = '.' :: fraction := by
    rw [List.dropWhile_append_of_pos wholeDigits, List.dropWhile_cons_of_neg (by simp [point])]
  have wholeTaken : whole.isEmpty = false := List.isEmpty_eq_false_iff.mpr nonempty
  rw [numeral?, body]
  simp only [bind, Option.bind]
  simp [taken, dropped, wholeTaken, List.takeWhile_eq_self_iff.mpr fractionDigits,
    List.dropWhile_eq_nil_iff.mpr fractionDigits, exponent?]

theorem read?_of_numeral? {s : String} {n : Numeral} (read : numeral? s = some n) :
    read? s = some n.toFloat := by
  simp [read?, read]

theorem read?_toString (k : Nat) : read? (toString k) = some (Decimal.toFloat false ⟨k, 0⟩) := by
  rw [Nat.toString_eq_ofList_toDigits,
    read?_of_numeral? (numeral?_digits Nat.toDigits_ne_nil (digits_isDigit k)),
    Decimal.digitsValue_toDigits]
  rfl

end FloatLiteral

namespace Binary

theorem nearest_shifted (negative : Bool) {M T : Nat} (normal : Normal M T) (shifted : 1 ≤ T) :
    nearest negative (M * 2 ^ T) 1 = Float.ofBits (encode negative M T) := by
  have leading : (M * 2 ^ T).log2 = 52 + T := by
    rw [log2_mul_two_pow T (by have := normal.1; omega), log2_of_normal normal]
  obtain ⟨S, rfl⟩ : ∃ S, T = S + 1 := ⟨T - 1, by omega⟩
  have shift : M * 2 ^ (S + 1) = 2 * M * 2 ^ S := by
    rw [Nat.pow_succ]
    ring
  have place : placeExponent (M * 2 ^ (S + 1)) 1 = ((S + 1 : Nat) : Int) := by
    have guess : ((M * 2 ^ (S + 1)).log2 : Int) - (Nat.log2 1 : Int) - 53 = S := by
      rw [leading, show Nat.log2 1 = 0 from rfl]
      omega
    have doubled : (scaledDivision (M * 2 ^ (S + 1)) 1 S).1 = 2 * M := by
      simp only [scaledDivision, Int.toNat_natCast, show (-(S : Int)).toNat = 0 by omega, Nat.pow_zero,
        Nat.mul_one, Nat.one_mul, shift, Nat.mul_div_cancel _ (Nat.two_pow_pos S)]
    have wide : ¬ (scaledDivision (M * 2 ^ (S + 1)) 1 S).1 < 2 ^ 53 := by
      rw [doubled]
      have := normal.1
      omega
    unfold placeExponent
    simp only [guess, if_neg wide, leastExponent]
    omega
  have exact : scaledDivision (M * 2 ^ (S + 1)) 1 ((S + 1 : Nat) : Int) = (M, 0, 2 ^ (S + 1)) := by
    simp only [scaledDivision, Int.toNat_natCast, Nat.one_mul, show (-((S + 1 : Nat) : Int)).toNat = 0 by omega,
      Nat.pow_zero, Nat.mul_one, Nat.mul_div_cancel _ (Nat.two_pow_pos _), Nat.mul_mod_left]
  have noCarry : (M == 2 ^ 53) = false := by simpa using Nat.ne_of_lt normal.2.1
  have finite : ¬ ((S + 1 : Nat) : Int) > 971 := by have := normal.2.2.2; omega
  unfold nearest
  rw [place]
  dsimp only
  rw [exact]
  dsimp only
  simp only [roundEven_exact M (Nat.two_pow_pos _), noCarry, Bool.false_eq_true, if_false, finite]

end Binary

namespace Whole

open Binary

theorem decimal {x : Float} {k : Nat} (whole : Whole x k) : Whole (Decimal.toFloat false ⟨k, 0⟩) k := by
  have plain : Decimal.toFloat false ⟨k, 0⟩ = Binary.nearest false (k * 1) 1 := rfl
  rw [plain]
  by_cases small : k ≤ 2 ^ 53
  · simpa using Whole.nearest false small Nat.one_pos
  · have unpacked := whole.unpack
    generalize x.toModel.unpack = u at unpacked
    cases u with
    | zero s =>
        have : (k : Int) = 0 := unpacked
        omega
    | finite s m e nonzero =>
        obtain ⟨normal, cross, -⟩ := unpacked
        rw [Int.natAbs_natCast] at cross
        have positive : 0 < e := by
          by_contra notPositive
          have flat : e.toNat = 0 := by omega
          rw [flat, Nat.pow_zero, Nat.mul_one] at cross
          have : k ≤ k * 2 ^ (-e).toNat := Nat.le_mul_of_pos_right k (Nat.two_pow_pos _)
          have := normal.2.1
          omega
        have lifted : e = (e.toNat : Int) := by omega
        have value : k = m * 2 ^ e.toNat := by
          rw [cross, show (-e).toNat = 0 by omega, Nat.pow_zero, Nat.mul_one]
        rw [lifted] at normal
        rw [Nat.mul_one, value, nearest_shifted false normal (by omega)]
        apply ofBits
        rw [decode_encode_normal false normal]
        refine toInt?_finite_of_cross ?_ (Or.inr (by simp))
        rw [Int.toNat_natCast, Int.natAbs_natCast, show (-(e.toNat : Int)).toNat = 0 by omega,
          Nat.pow_zero, Nat.mul_one]
    | _ => exact unpacked.elim

end Whole

namespace Binary

theorem unsigned_of_atLeast_one {negative : Bool} {m : Nat} {e : Int}
    (atLeast : (Parts.finite negative m e).atLeast 1 = true) : negative = false := by
  cases negative with
  | false => rfl
  | true =>
      have below : compareInt true m e 1 = .lt := by
        simp only [compareInt, if_true]
        apply Int.compare_eq_lt.mpr
        have : (0 : Int) < 2 ^ (-e).toNat := by positivity
        have : (0 : Int) ≤ m * 2 ^ e.toNat := by positivity
        omega
      simp [Parts.atLeast, below] at atLeast

theorem scale_le_of_atLeast_one {m : Nat} {e : Int}
    (atLeast : (Parts.finite false m e).atLeast 1 = true) : 2 ^ (-e).toNat ≤ m * 2 ^ e.toNat := by
  have notBelow : compareInt false m e 1 ≠ .lt := by simpa [Parts.atLeast] using atLeast
  simp only [compareInt, Bool.false_eq_true, if_false, Int.one_mul] at notBelow
  exact_mod_cast Int.not_lt.mp (mt Int.compare_eq_lt.mpr notBelow)

end Binary

theorem Matrix.exponentCount?_eq_some_iff {x : Float} {k : Nat} :
    Matrix.exponentCount? x = some k ↔ Whole x k ∧ 1 ≤ k := by
  constructor
  · intro counted
    unfold Matrix.exponentCount? at counted
    dsimp only at counted
    split at counted
    · next positive =>
        obtain rfl := Option.some.inj counted
        unfold Whole
        cases read : Binary.parts x with
        | nan => simp [read, Binary.Parts.isPositiveInteger, Binary.Parts.isIntegral] at positive
        | infinity negative =>
            simp [read, Binary.Parts.isPositiveInteger, Binary.Parts.isIntegral] at positive
        | finite negative m e =>
            rw [read] at positive
            obtain ⟨integral, atLeast⟩ := Bool.and_eq_true_iff.mp positive
            obtain rfl := Binary.unsigned_of_atLeast_one atLeast
            have whole := Nat.div_mul_cancel (Binary.scale_dvd_of_isIntegral integral)
            have reaches := Binary.scale_le_of_atLeast_one atLeast
            refine ⟨Binary.toInt?_finite_of_cross ?_ (Or.inr (by simp)),
              (Nat.le_div_iff_mul_le (Nat.two_pow_pos _)).mpr (by omega)⟩
            rw [Int.natAbs_natCast]
            exact whole.symm
    · cases counted
  · rintro ⟨whole, positive⟩
    simpa using Whole.exponentCount? whole (by exact_mod_cast positive)

end MatrixSteps
