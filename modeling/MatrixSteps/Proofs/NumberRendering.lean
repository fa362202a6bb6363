import Mathlib
import MatrixSteps.Proofs.NumeralText
import MatrixSteps.Proofs.CellRounding
import MatrixSteps.Matrix.Narration

/-!
How numbers are narrated. A finite nonzero double is written from its shortest digits, which
lie inside its rounding interval (`Shortest.digits_spec`), so the text reads back as the double
(`render_reads_back`) and distinct doubles get distinct texts (`number_injective`).

Which form a notation picks depends on the leading exponent `E` of the shortest digits. The
doubles whose shortest digits are a power of ten, `1e-6`, `1` and `1e21`, part the doubles by `E`
(`anchor_le_iff`): reading is monotone, so `10 ^ k ≤ |x|` exactly when `k ≤ E`. So the narration
is positional exactly when `1e-6 ≤ |x| < 1e21` (`number_positional_iff`), with a lone `0` exactly
when `|x| < 1` and a fraction exactly when `x` is not whole (`isIntegral_iff_exponent`). The
scientific texts of the narration and of the exchanged notation share their mantissa
(`render_scientific`). The whole behaviour is `Narration.number_text_faithful`.
-/

namespace MatrixSteps

namespace Binary

open Float.Model

variable {x : Float} {negative : Bool} {m : Nat} {e : Int}

theorem magnitude_inj {m₁ m₂ : Nat} {e₁ e₂ : Int} (range₁ : InRange m₁ e₁) (range₂ : InRange m₂ e₂)
    (same : magnitude m₁ e₁ = magnitude m₂ e₂) : m₁ = m₂ ∧ e₁ = e₂ := by
  have forward := (magnitude_le_iff range₁ range₂).mp same.le
  have backward := (magnitude_le_iff range₂ range₁).mp same.ge
  omega

theorem isNaN_eq_false_of_parts (number : parts x ≠ .nan) : x.isNaN = false :=
  Bool.eq_false_iff.mpr fun nan => number ((isNaN_iff x).mp nan)

theorem isNaN_eq_false_of_finite (finite : parts x = .finite negative m e) : x.isNaN = false :=
  isNaN_eq_false_of_parts (by rw [finite]; simp)

theorem isFinite_iff (x : Float) :
    x.isFinite = true ↔ ∃ negative m e, parts x = .finite negative m e := by
  rw [parts_eq_ofUnpacked]
  show x.toModel.unpack.isFinite = true ↔ _
  cases x.toModel.unpack <;> simp [UnpackedFloat.isFinite, ofUnpacked]

theorem isInf_iff (x : Float) : x.isInf = true ↔ ∃ negative, parts x = .infinity negative := by
  rw [parts_eq_ofUnpacked]
  show x.toModel.unpack.isInf = true ↔ _
  cases x.toModel.unpack <;> simp [UnpackedFloat.isInf, ofUnpacked]

theorem parts_zero : parts (0 : Float) = .finite false 0 (-1074) := by decide +kernel

theorem beq_zero_iff (finite : parts x = .finite negative m e) : (x == 0) = true ↔ m = 0 := by
  rw [beq_iff_toExtended (isNaN_eq_false_of_finite finite) (isNaN_eq_false_of_finite parts_zero),
    finite, parts_zero]
  simp only [Parts.toExtended, signedMagnitude_zero, WithBot.coe_inj, WithTop.coe_inj]
  cases negative <;> simp [Places.magnitude_eq_zero_iff]

theorem isNegative_finite (nonzero : 0 < m) :
    (Parts.finite negative m e).isNegative = negative := by
  simp [Parts.isNegative, Nat.pos_iff_ne_zero.mp nonzero]

theorem isIntegral_iff_magnitude :
    (Parts.finite negative m e).isIntegral = true ↔ ∃ K : Nat, magnitude m e = K := by
  constructor
  · intro integral
    have divides := scale_dvd_of_isIntegral integral
    refine ⟨m * 2 ^ e.toNat / 2 ^ (-e).toNat, ?_⟩
    rw [Nat.cast_div divides (by positivity), magnitude, ← zpow_toNat_div two_ne_zero e]
    push_cast
    ring
  · rintro ⟨K, whole⟩
    simp only [Parts.isIntegral, Bool.or_eq_true, decide_eq_true_eq, beq_iff_eq]
    by_cases nonnegative : 0 ≤ e
    · exact .inl nonnegative
    · right
      have shifted : (m : ℚ) = K * 2 ^ (-e).toNat := by
        rw [← whole, magnitude, mul_assoc, ← zpow_natCast, ← zpow_add₀ two_ne_zero,
          show e + ((-e).toNat : Int) = 0 by omega, zpow_zero, mul_one]
      have shiftedNat : m = K * 2 ^ (-e).toNat := by exact_mod_cast shifted
      rw [shiftedNat, Nat.mul_mod_left]

end Binary

namespace Decimal

theorem toRat_bounds {d : Decimal} (positive : 0 < d.digits) :
    (10 : ℚ) ^ d.leadingExponent ≤ d.toRat ∧ d.toRat < 10 ^ (d.leadingExponent + 1) := by
  obtain ⟨low, high⟩ := width_spec positive
  have wide : 1 ≤ width d.digits := by
    by_contra narrow
    rw [show width d.digits = 0 by omega, pow_zero] at high
    omega
  have lowQ : (10 : ℚ) ^ (width d.digits - 1) ≤ d.digits := by exact_mod_cast low
  have highQ : (d.digits : ℚ) < 10 ^ width d.digits := by exact_mod_cast high
  have place : (0 : ℚ) < 10 ^ d.exponent := by positivity
  have ten : (10 : ℚ) ≠ 0 := by norm_num
  rw [toRat]
  constructor
  · rw [show d.leadingExponent = ((width d.digits - 1 : Nat) : Int) + d.exponent by
      unfold leadingExponent
      omega, zpow_add₀ ten, zpow_natCast]
    exact mul_le_mul_of_nonneg_right lowQ place.le
  · rw [show d.leadingExponent + 1 = ((width d.digits : Nat) : Int) + d.exponent by
      unfold leadingExponent
      omega, zpow_add₀ ten, zpow_natCast]
    exact mul_lt_mul_of_pos_right highQ place

end Decimal

namespace Binary

variable {x : Float} {negative : Bool} {m : Nat} {e : Int}

/-- Below the units, a double whose shortest digits need no fraction is the whole number they
spell: that number is under `2 ^ 53`, where every whole number is a double, and it reads as the
double. -/
theorem magnitude_eq_whole_digits (range : InRange m e) (nonzero : 0 < m) (fine : e < 0)
    (nonnegative : 0 ≤ (Shortest.digits m e).exponent) :
    magnitude m e =
      (((Shortest.digits m e).digits * 10 ^ (Shortest.digits m e).exponent.toNat : Nat) : ℚ) := by
  obtain ⟨holds, -, -⟩ := Shortest.digits_spec range nonzero
  generalize Shortest.digits m e = d at holds nonnegative ⊢
  have value : d.toRat = ((d.digits * 10 ^ d.exponent.toNat : Nat) : ℚ) := by
    rw [Decimal.toRat, Nat.cast_mul, Nat.cast_pow, Nat.cast_ofNat, ← zpow_natCast,
      Int.toNat_of_nonneg nonnegative]
  have top : d.toRat ≤ (m + 1 / 2) * 2 ^ e := by
    have high := holds.2
    rw [Shortest.quarter_place, Shortest.interval_high_div] at high
    rcases high with below | ⟨-, onEnd⟩
    · exact below.le
    · exact onEnd.le
  have half : (2 : ℚ) ^ e ≤ 1 / 2 := by
    calc (2 : ℚ) ^ e ≤ 2 ^ (-1 : Int) := zpow_le_zpow_right₀ (by norm_num) (by omega)
      _ = 1 / 2 := by norm_num
  have smallQ : (m : ℚ) < 2 ^ 53 := by exact_mod_cast range.small
  have small : d.digits * 10 ^ d.exponent.toNat < 2 ^ 53 := by
    have : ((d.digits * 10 ^ d.exponent.toNat : Nat) : ℚ) < 2 ^ 53 := by
      rw [← value]
      nlinarith [zpow_pos (two_pos : (0 : ℚ) < 2) e]
    exact_mod_cast this
  have read : parts (nearest false (d.digits * 10 ^ d.exponent.toNat) 1) = .finite false m e :=
    nearest_of_holds false Nat.one_pos range nonzero
      (by rw [Nat.cast_one, div_one, ← value]; exact holds)
  rw [nearest_exact Nat.one_pos read small (show (-1074 : Int) ≤ 0 by norm_num)
    (by rw [Nat.cast_one, div_one, magnitude, zpow_zero, mul_one])]
  simp [magnitude]

theorem isIntegral_iff_exponent (range : InRange m e) (nonzero : 0 < m) :
    (Parts.finite negative m e).isIntegral = true ↔ 0 ≤ (Shortest.digits m e).exponent := by
  rw [isIntegral_iff_magnitude]
  constructor
  · rintro ⟨K, whole⟩
    exact Shortest.digits_exponent_nonneg range nonzero whole
  · intro nonnegative
    by_cases above : 0 ≤ e
    · refine ⟨m * 2 ^ e.toNat, ?_⟩
      rw [magnitude, Nat.cast_mul, Nat.cast_pow, Nat.cast_ofNat, ← zpow_natCast,
        Int.toNat_of_nonneg above]
    · exact ⟨_, magnitude_eq_whole_digits range nonzero (not_le.mp above) nonnegative⟩

/-! ### Thresholds between doubles -/

section Anchor

variable {M : Nat} {K k : Int} (rangeA : InRange M K) (positiveA : 0 < M)
  (shortest : Shortest.digits M K = ⟨1, k⟩)
include rangeA positiveA shortest

theorem anchor_le_iff (range : InRange m e) (nonzero : 0 < m) :
    magnitude M K ≤ magnitude m e ↔ k ≤ (Shortest.digits m e).leadingExponent := by
  obtain ⟨holdsA, -, -⟩ := Shortest.digits_spec rangeA positiveA
  obtain ⟨holds, positive, -⟩ := Shortest.digits_spec range nonzero
  rw [shortest] at holdsA
  have readA := Decimal.toFloat_of_holds false rangeA positiveA holdsA
  have read := Decimal.toFloat_of_holds false range nonzero holds
  obtain ⟨low, high⟩ := Decimal.toRat_bounds positive
  have power : (⟨1, k⟩ : Decimal).toRat = 10 ^ k := by simp [Decimal.toRat]
  generalize named : Shortest.digits m e = d at holds positive read low high
  unfold Decimal.toFloat at readA read
  constructor
  · intro le
    by_contra below
    have under : d.toRat < (⟨1, k⟩ : Decimal).toRat := by
      rw [power]
      exact high.trans_le (zpow_le_zpow_right₀ (by norm_num) (by omega))
    rw [Decimal.toRat_eq_div, Decimal.toRat_eq_div] at under
    have reversed := nearest_le_of_lt (by positivity) (by positivity) under read readA
    obtain ⟨rfl, rfl⟩ := magnitude_inj range rangeA (le_antisymm reversed le)
    rw [← named, shortest] at below
    exact below (le_of_eq (by simp [Decimal.leadingExponent, show Decimal.width 1 = 1 by decide]))
  · intro above
    have atLeast : (⟨1, k⟩ : Decimal).toRat ≤ d.toRat := by
      rw [power]
      exact (zpow_le_zpow_right₀ (show (1 : ℚ) ≤ 10 by norm_num) above).trans low
    rcases atLeast.lt_or_eq with lt | same
    · rw [Decimal.toRat_eq_div, Decimal.toRat_eq_div] at lt
      exact nearest_le_of_lt (by positivity) (by positivity) lt readA read
    · have both : parts ((⟨1, k⟩ : Decimal).toFloat false) = .finite false m e :=
        Decimal.toFloat_of_holds false range nonzero (by rw [same]; exact holds)
      unfold Decimal.toFloat at both
      rw [readA] at both
      obtain ⟨-, rfl, rfl⟩ := Parts.finite.inj both
      exact le_rfl

theorem anchor_le_abs_iff {A : Float} (anchor : parts A = .finite false M K)
    (finite : parts x = .finite negative m e) (nonzero : 0 < m) :
    A ≤ x.abs ↔ k ≤ (Shortest.digits m e).leadingExponent := by
  have absolute : parts x.abs = .finite false m e := by rw [parts_abs, finite]; rfl
  rw [le_iff_toExtended (isNaN_eq_false_of_finite anchor) (isNaN_eq_false_of_finite absolute),
    anchor, absolute, toExtended_finite_le, signedMagnitude_false, signedMagnitude_false]
  exact anchor_le_iff rangeA positiveA shortest (decode_finite_range finite) nonzero

theorem abs_lt_anchor_iff {A : Float} (anchor : parts A = .finite false M K)
    (finite : parts x = .finite negative m e) (nonzero : 0 < m) :
    x.abs < A ↔ (Shortest.digits m e).leadingExponent < k := by
  have absolute : parts x.abs = .finite false m e := by rw [parts_abs, finite]; rfl
  rw [lt_iff_toExtended (isNaN_eq_false_of_finite absolute) (isNaN_eq_false_of_finite anchor),
    ← not_le,
    ← le_iff_toExtended (isNaN_eq_false_of_finite anchor) (isNaN_eq_false_of_finite absolute),
    anchor_le_abs_iff rangeA positiveA shortest anchor finite nonzero, not_le]

end Anchor

theorem parts_one_millionth : parts (1e-6 : Float) = .finite false 4722366482869645 (-72) := by
  decide +kernel

theorem digits_one_millionth : Shortest.digits 4722366482869645 (-72) = ⟨1, -6⟩ := by decide +kernel

theorem parts_one : parts (1 : Float) = .finite false (2 ^ 52) (-52) := by decide +kernel

theorem digits_one : Shortest.digits (2 ^ 52) (-52) = ⟨1, 0⟩ := by decide +kernel

theorem parts_sextillion : parts (1e21 : Float) = .finite false 7629394531250000 17 := by
  decide +kernel

theorem digits_sextillion : Shortest.digits 7629394531250000 17 = ⟨1, 21⟩ := by decide +kernel

section Thresholds

variable (finite : parts x = .finite negative m e) (nonzero : 0 < m)
include finite nonzero

theorem one_millionth_le_abs_iff :
    (1e-6 : Float) ≤ x.abs ↔ -6 ≤ (Shortest.digits m e).leadingExponent :=
  anchor_le_abs_iff (decode_finite_range parts_one_millionth) (by norm_num) digits_one_millionth
    parts_one_millionth finite nonzero

theorem abs_lt_one_iff : x.abs < 1 ↔ (Shortest.digits m e).leadingExponent < 0 :=
  abs_lt_anchor_iff (decode_finite_range parts_one) (by norm_num) digits_one parts_one finite
    nonzero

theorem abs_lt_sextillion_iff : x.abs < 1e21 ↔ (Shortest.digits m e).leadingExponent < 21 :=
  abs_lt_anchor_iff (decode_finite_range parts_sextillion) (by norm_num) digits_sextillion
    parts_sextillion finite nonzero

end Thresholds

end Binary

namespace Narration

open Binary

/-- Positional text of the double `x`: a minus exactly when `x` is below zero, then whole digits
without leading zeros, a lone `0` exactly when `|x| < 1`, and, exactly when `x` is not whole, a
point and fraction digits that do not end in `0`. -/
def PositionalText (text : List Char) (x : Float) : Prop :=
  ∃ whole fraction : List Char,
    text = (if (parts x).isNegative then ['-'] else []) ++ whole ++
      (if fraction = [] then [] else '.' :: fraction) ∧
    whole ≠ [] ∧ (∀ c ∈ whole ++ fraction, c.isDigit = true) ∧
    (whole = ['0'] ↔ x.abs < 1) ∧ (whole.head? = some '0' → whole = ['0']) ∧
    (fraction = [] ↔ (parts x).isIntegral = true) ∧ fraction.getLast? ≠ some '0'

/-- Scientific text made from the text `repr`: the mantissa of `repr`, an `e`, the explicit sign of
its exponent, and the exponent's digits without the leading zeros `repr` pads them with. -/
def ScientificText (text repr : List Char) : Prop :=
  ∃ (mantissa zeros exponent : List Char) (sign : Char),
    repr = mantissa ++ 'e' :: sign :: (zeros ++ exponent) ∧
    text = mantissa ++ 'e' :: sign :: exponent ∧
    'e' ∉ mantissa ∧ (sign = '+' ∨ sign = '-') ∧ (∀ c ∈ zeros, c = '0') ∧
    exponent ≠ [] ∧ (∀ c ∈ exponent, c.isDigit = true) ∧ exponent.head? ≠ some '0'

theorem e_not_mem_of_positionalText {text : List Char} {x : Float}
    (positional : PositionalText text x) :
    'e' ∉ text := by
  obtain ⟨whole, fraction, rfl, -, digits, -⟩ := positional
  have letter : 'e'.isDigit = false := by decide
  intro member
  simp only [List.mem_append] at member
  rcases member with (sign | inWhole) | dotted
  · split at sign <;> simp at sign
  · exact absurd (digits 'e' (List.mem_append_left _ inWhole)) (by simp [letter])
  · split at dotted
    · simp at dotted
    · rcases List.mem_cons.mp dotted with point | inFraction
      · cases point
      · exact absurd (digits 'e' (List.mem_append_right _ inFraction)) (by simp [letter])

variable {x : Float} {negative : Bool} {m : Nat} {e : Int}

/-- A notation writes a finite nonzero double as its sign, then the body chosen by the leading
exponent of the shortest digits. -/
theorem render_toList (n : Notation) (finite : parts x = .finite negative m e) (nonzero : 0 < m) :
    (n.render x).toList = (if negative then ['-'] else []) ++
      if n.lowest ≤ (Shortest.digits m e).leadingExponent &&
          (Shortest.digits m e).leadingExponent ≤ n.highest then
        n.positional (Nat.toDigits 10 (Shortest.digits m e).digits)
          (Shortest.digits m e).leadingExponent
      else n.scientific (Nat.toDigits 10 (Shortest.digits m e).digits)
          (Shortest.digits m e).leadingExponent := by
  simp only [Notation.render, finite, Notation.finite, if_neg nonzero.ne', String.toList_ofList]
  cases negative
  · simp only [Bool.false_eq_true, if_false, List.nil_append]
  · simp only [if_true, List.singleton_append]

theorem not_lone_zero {whole ds : List Char} (same : whole.head? = ds.head?)
    (head : ds.head? ≠ some '0') {p : Prop} (never : ¬p) :
    (whole = ['0'] ↔ p) ∧ (whole.head? = some '0' → whole = ['0']) := by
  have leads : whole.head? ≠ some '0' := same ▸ head
  refine ⟨⟨fun lone => absurd (by rw [lone]; rfl) leads, fun holds => absurd holds never⟩, ?_⟩
  exact fun lead => absurd lead leads

theorem spell_plain (whole fraction : List Char) :
    spell false whole fraction none = whole ++ (if fraction = [] then [] else '.' :: fraction) := by
  simp [spell, powerText]

/-- A notation without `.0` writes a finite nonzero double whose leading exponent it shows
positionally as positional text. -/
theorem render_positional (n : Notation) (plain : n.pointZero = false)
    (finite : parts x = .finite negative m e) (nonzero : 0 < m)
    (shown : n.lowest ≤ (Shortest.digits m e).leadingExponent ∧
      (Shortest.digits m e).leadingExponent ≤ n.highest) :
    PositionalText (n.render x).toList x := by
  have range := decode_finite_range finite
  obtain ⟨-, positive, notTen⟩ := Shortest.digits_spec range nonzero
  have head := Decimal.toDigits_head positive
  have last : (Nat.toDigits 10 (Shortest.digits m e).digits).getLast? ≠ some '0' := by
    rw [Decimal.toDigits_getLast, ne_eq, Option.some.injEq,
      Decimal.digitChar_eq_zero_iff (Nat.mod_lt _ (by norm_num))]
    exact notTen
  have sign : (parts x).isNegative = negative := by rw [finite, isNegative_finite nonzero]
  have integral : (parts x).isIntegral = true ↔ 0 ≤ (Shortest.digits m e).exponent := by
    rw [finite]
    exact isIntegral_iff_exponent range nonzero
  have chosen : (n.lowest ≤ (Shortest.digits m e).leadingExponent &&
      (Shortest.digits m e).leadingExponent ≤ n.highest) = true := by simpa using shown
  rw [render_toList n finite nonzero, if_pos chosen]
  unfold PositionalText
  rw [sign, abs_lt_one_iff finite nonzero, integral]
  have digits := digits_isDigit (Shortest.digits m e).digits
  have nonempty : Nat.toDigits 10 (Shortest.digits m e).digits ≠ [] := Nat.toDigits_ne_nil
  have leading : (Shortest.digits m e).leadingExponent =
      (Shortest.digits m e).exponent + (Nat.toDigits 10 (Shortest.digits m e).digits).length - 1 :=
    rfl
  generalize Shortest.digits m e = d at *
  generalize Nat.toDigits 10 d.digits = ds at *
  generalize d.leadingExponent = E at *
  by_cases nonneg : 0 ≤ E
  · by_cases short : ds.length ≤ E.toNat + 1
    · simp only [n.positional_whole nonneg short, plain, Bool.false_eq_true, ↓reduceIte,
        spell_plain]
      obtain ⟨lone, lead⟩ := not_lone_zero (List.head?_append_of_ne_nil _ nonempty) head
        (show ¬E < 0 by omega)
      refine ⟨ds ++ List.replicate (E.toNat + 1 - ds.length) '0', [], by simp, by simp [nonempty],
        ?_, lone, lead, ?_, by simp⟩
      · intro c member
        rcases List.mem_append.mp (List.append_nil _ ▸ member) with inDigits | inZeros
        · exact digits c inDigits
        · exact replicate_isDigit _ c inZeros
      · simp only [true_iff]
        omega
    · have rest : ds.drop (E.toNat + 1) ≠ [] := by
        simp only [ne_eq, List.drop_eq_nil_iff]
        omega
      simp only [n.positional_fraction nonneg (not_le.mp short), spell_plain]
      obtain ⟨lone, lead⟩ := not_lone_zero
        (show (ds.take (E.toNat + 1)).head? = ds.head? by simp [List.head?_take]) head
        (show ¬E < 0 by omega)
      refine ⟨ds.take (E.toNat + 1), ds.drop (E.toNat + 1), by simp, ?_, ?_, lone, lead, ?_, ?_⟩
      · simp only [ne_eq, List.take_eq_nil_iff, nonempty, or_false]
        omega
      · rw [List.take_append_drop]
        exact digits
      · simp only [rest, false_iff]
        omega
      · rw [List.getLast?_drop, if_neg (by omega)]
        exact last
  · have text := n.positional_small nonempty (not_le.mp nonneg)
    have rest : List.replicate ((-E).toNat - 1) '0' ++ ds ≠ [] := by simp [nonempty]
    simp only [text, spell_plain]
    refine ⟨['0'], List.replicate ((-E).toNat - 1) '0' ++ ds, by simp, by simp, ?_,
      by simp only [true_iff]; omega, fun _ => rfl, ?_, ?_⟩
    · intro c member
      rcases List.mem_append.mp member with isZero | inFraction
      · rw [List.mem_singleton.mp isZero]
        exact zero_isDigit
      rcases List.mem_append.mp inFraction with inZeros | inDigits
      · exact replicate_isDigit _ c inZeros
      · exact digits c inDigits
    · have wide : ds.length ≠ 0 := by simpa using nonempty
      simp only [rest, false_iff]
      omega
    · rw [List.getLast?_append_of_ne_nil _ nonempty]
      exact last

/-- Scientific texts of one digit string under two notations differ only in how many zeros pad the
exponent; one that pads to a single digit shows the exponent's own digits. -/
theorem scientificText_of_digits {n₁ n₂ : Notation} (narrow : n₁.exponentWidth ≤ 1)
    (signText : List Char) (signed : 'e' ∉ signText) {ds : List Char} (nonempty : ds ≠ [])
    (digits : ∀ c ∈ ds, c.isDigit = true) {E : Int} (away : E ≠ 0) :
    ScientificText (signText ++ n₁.scientific ds E) (signText ++ n₂.scientific ds E) := by
  obtain ⟨c, rest, rfl⟩ := List.exists_cons_of_ne_nil nonempty
  have power : Nat.toDigits 10 E.natAbs ≠ [] := Nat.toDigits_ne_nil
  have wide : 1 ≤ (Nat.toDigits 10 E.natAbs).length := List.length_pos_of_ne_nil power
  have unpadded : n₁.exponentWidth - (Nat.toDigits 10 E.natAbs).length = 0 := by omega
  have letter : 'e'.isDigit = false := by decide
  rw [n₁.scientific_spelled, n₂.scientific_spelled]
  refine ⟨signText ++ (c :: if rest = [] then [] else '.' :: rest),
    List.replicate (n₂.exponentWidth - (Nat.toDigits 10 E.natAbs).length) '0',
    Nat.toDigits 10 E.natAbs, if decide (E < 0) = true then '-' else '+',
    by simp [spell, powerText], by simp [spell, powerText, unpadded], ?_, by split <;> simp,
    fun _ member => List.eq_of_mem_replicate member, power, digits_isDigit _,
    Decimal.toDigits_head (by omega)⟩
  intro member
  rcases List.mem_append.mp member with inSign | inDigits
  · exact signed inSign
  rcases List.mem_cons.mp inDigits with first | dotted
  · exact absurd (first ▸ digits c List.mem_cons_self) (by simp [letter])
  split at dotted
  · cases dotted
  rcases List.mem_cons.mp dotted with point | inRest
  · cases point
  · exact absurd (digits 'e' (List.mem_cons_of_mem c inRest)) (by simp [letter])

theorem e_mem_of_scientificText {text repr : List Char} (scientific : ScientificText text repr) :
    'e' ∈ text := by
  obtain ⟨mantissa, -, exponent, sign, -, rfl, -⟩ := scientific
  simp

/-- Two notations that both show a leading exponent away from zero in scientific form write one
mantissa, and the one that pads the exponent to a single digit drops the other's padding. -/
theorem render_scientific {n₁ n₂ : Notation} (narrow : n₁.exponentWidth ≤ 1)
    (finite : parts x = .finite negative m e) (nonzero : 0 < m)
    (hidden₁ : ¬(n₁.lowest ≤ (Shortest.digits m e).leadingExponent ∧
      (Shortest.digits m e).leadingExponent ≤ n₁.highest))
    (hidden₂ : ¬(n₂.lowest ≤ (Shortest.digits m e).leadingExponent ∧
      (Shortest.digits m e).leadingExponent ≤ n₂.highest))
    (away : (Shortest.digits m e).leadingExponent ≠ 0) :
    ScientificText (n₁.render x).toList (n₂.render x).toList := by
  have chosen₁ : (n₁.lowest ≤ (Shortest.digits m e).leadingExponent &&
      (Shortest.digits m e).leadingExponent ≤ n₁.highest) = false := by simpa using hidden₁
  have chosen₂ : (n₂.lowest ≤ (Shortest.digits m e).leadingExponent &&
      (Shortest.digits m e).leadingExponent ≤ n₂.highest) = false := by simpa using hidden₂
  rw [render_toList n₁ finite nonzero, render_toList n₂ finite nonzero, chosen₁, chosen₂]
  exact scientificText_of_digits narrow _ (by split <;> simp) Nat.toDigits_ne_nil (digits_isDigit _)
    away

/-- Every notation writes a finite nonzero double as a whole numeral that reads back as the double,
with the value of its shortest digits. -/
theorem render_reads_back (n : Notation) (finite : parts x = .finite negative m e)
    (nonzero : 0 < m) :
    ∃ k, Numeral.scan (n.render x).toList = some (k, []) ∧
      k.toRat = (if negative then -(Shortest.digits m e).toRat else (Shortest.digits m e).toRat) ∧
      k.toFloat = x := by
  obtain ⟨k, scanned, sign, value⟩ := scan_render n finite nonzero
  have range := decode_finite_range finite
  obtain ⟨holds, -, -⟩ := Shortest.digits_spec range nonzero
  refine ⟨k, scanned, by rw [Numeral.toRat, sign, value], parts_injective ?_⟩
  have holdsRead : (Shortest.interval m e).Holds e k.value.toRat := by
    rw [value]
    exact holds
  rw [Numeral.toFloat, finite, ← sign]
  exact Decimal.toFloat_of_holds k.negative range nonzero holdsRead

end Narration

namespace Binary

theorem zero_lt_iff_infinity {x : Float} {negative : Bool}
    (infinite : parts x = .infinity negative) :
    0 < x ↔ negative = false := by
  rw [lt_iff_toExtended (isNaN_eq_false_of_finite parts_zero)
    (isNaN_eq_false_of_parts (by rw [infinite]; simp)), parts_zero, infinite]
  cases negative
  · simp only [Parts.toExtended, Bool.false_eq_true, if_false, iff_true]
    exact WithBot.coe_lt_coe.mpr (WithTop.coe_lt_top _)
  · simp [Parts.toExtended]

end Binary

namespace Narration

open Binary

variable {x : Float} {negative : Bool} {m : Nat} {e : Int}

theorem number_zero (finite : x.isFinite = true) (zero : (x == 0) = true) : number x = "0" := by
  obtain ⟨negative, m, e, decoded⟩ := (isFinite_iff x).mp finite
  obtain rfl := (beq_zero_iff decoded).mp zero
  simp [number, Notation.render, decoded, Notation.finite, Notation.finite.zeroText,
    Notation.narration]

theorem number_nan (nan : x.isNaN = true) : number x = "NaN" := by
  simp [number, Notation.render, (isNaN_iff x).mp nan, Notation.narration]

theorem number_infinity (infinite : x.isInf = true) :
    number x = if 0 < x then "Infinity" else "-Infinity" := by
  obtain ⟨negative, decoded⟩ := (isInf_iff x).mp infinite
  simp only [zero_lt_iff_infinity decoded]
  cases negative <;> simp [number, Notation.render, decoded, Notation.narration]

section Nonzero

variable (finite : parts x = .finite negative m e) (nonzero : 0 < m)
include finite nonzero

/-- The narrated numeral and the exchanged one read as one rational, and the narrated one reads
back as the double itself. -/
theorem number_reads_back :
    ∃ k r, Numeral.scan (number x).toList = some (k, []) ∧
      Numeral.scan (Notation.exchange.render x).toList = some (r, []) ∧
      k.toRat = r.toRat ∧ k.toFloat = x := by
  obtain ⟨k, narrated, value, read⟩ := render_reads_back Notation.narration finite nonzero
  obtain ⟨r, exchanged, same, -⟩ := render_reads_back Notation.exchange finite nonzero
  exact ⟨k, r, narrated, exchanged, value.trans same.symm, read⟩

theorem number_scientific (outside : ¬((1e-6 : Float) ≤ x.abs ∧ x.abs < 1e21)) :
    ScientificText (number x).toList (Notation.exchange.render x).toList := by
  rw [one_millionth_le_abs_iff finite nonzero, abs_lt_sextillion_iff finite nonzero] at outside
  exact render_scientific le_rfl finite nonzero (by simp only [Notation.narration]; omega)
    (by simp only [Notation.exchange]; omega) (by omega)

theorem number_positional_iff :
    ((1e-6 : Float) ≤ x.abs ∧ x.abs < 1e21) ↔ PositionalText (number x).toList x := by
  constructor
  · rintro ⟨low, high⟩
    rw [one_millionth_le_abs_iff finite nonzero] at low
    rw [abs_lt_sextillion_iff finite nonzero] at high
    exact render_positional Notation.narration rfl finite nonzero
      ⟨low, show _ ≤ (20 : Int) by omega⟩
  · intro positional
    by_contra outside
    exact e_not_mem_of_positionalText positional
      (e_mem_of_scientificText (number_scientific finite nonzero outside))

end Nonzero

/-- Distinct finite nonzero doubles are narrated by distinct texts: each text reads back as its
double. -/
theorem number_injective {y : Float} {negative₁ negative₂ : Bool} {m₁ m₂ : Nat} {e₁ e₂ : Int}
    (finite₁ : parts x = .finite negative₁ m₁ e₁) (nonzero₁ : 0 < m₁)
    (finite₂ : parts y = .finite negative₂ m₂ e₂) (nonzero₂ : 0 < m₂)
    (same : number x = number y) : x = y := by
  obtain ⟨k, scanned, -, read⟩ := render_reads_back Notation.narration finite₁ nonzero₁
  obtain ⟨k', scanned', -, read'⟩ := render_reads_back Notation.narration finite₂ nonzero₂
  have text : number x = Notation.narration.render x := rfl
  have text' : number y = Notation.narration.render y := rfl
  rw [← text, same, text', scanned'] at scanned
  obtain rfl := (Prod.mk.inj (Option.some.inj scanned)).1
  rw [← read, read']

theorem finite_nonzero (finite : x.isFinite = true) (nonzero : (x == 0) = false) :
    ∃ negative m e, parts x = .finite negative m e ∧ 0 < m := by
  obtain ⟨negative, m, e, decoded⟩ := (isFinite_iff x).mp finite
  refine ⟨negative, m, e, decoded, Nat.pos_of_ne_zero fun zero => ?_⟩
  rw [(beq_zero_iff decoded).mpr zero] at nonzero
  cases nonzero

/-- How a number is narrated. A finite zero of either sign is `0`. Any other finite double is a
numeral that reads as the same rational as the shortest text that reads back as the double (the
exchanged notation), and so reads back as the double itself, and distinct such doubles are
narrated differently. It is positional exactly when `1e-6 ≤ |x| < 1e21`: a sign, whole digits
with no leading zero (a lone `0` below one) and, only for a double that is not whole, a point and
digits that do not end in `0`. Otherwise it is the exchanged text with the zeros that pad its
exponent dropped. Not-a-number and the infinities are named. -/
theorem number_text_faithful :
    (∀ x : Float, x.isFinite = true → (x == 0) = true → number x = "0") ∧
    (∀ x : Float, x.isFinite = true → (x == 0) = false →
      (∃ k r, Numeral.scan (number x).toList = some (k, []) ∧
        Numeral.scan (Notation.exchange.render x).toList = some (r, []) ∧
        k.toRat = r.toRat ∧ k.toFloat = x) ∧
      (((1e-6 : Float) ≤ x.abs ∧ x.abs < 1e21) ↔ PositionalText (number x).toList x) ∧
      (¬((1e-6 : Float) ≤ x.abs ∧ x.abs < 1e21) →
        ScientificText (number x).toList (Notation.exchange.render x).toList)) ∧
    (∀ x y : Float, x.isFinite = true → y.isFinite = true → (x == 0) = false →
      (y == 0) = false → number x = number y → x = y) ∧
    (∀ x : Float, x.isNaN = true → number x = "NaN") ∧
    (∀ x : Float, x.isInf = true → number x = if 0 < x then "Infinity" else "-Infinity") := by
  refine ⟨fun _ => number_zero, ?_, ?_, fun _ => number_nan, fun _ => number_infinity⟩
  · intro x finite nonzero
    obtain ⟨negative, m, e, decoded, positive⟩ := finite_nonzero finite nonzero
    exact ⟨number_reads_back decoded positive, number_positional_iff decoded positive,
      number_scientific decoded positive⟩
  · intro x y finite₁ finite₂ nonzero₁ nonzero₂ same
    obtain ⟨_, _, _, decoded₁, positive₁⟩ := finite_nonzero finite₁ nonzero₁
    obtain ⟨_, _, _, decoded₂, positive₂⟩ := finite_nonzero finite₂ nonzero₂
    exact number_injective decoded₁ positive₁ decoded₂ positive₂ same

/-- `2.5` is finite and nonzero, and is narrated positionally. -/
theorem number_text_faithful_at_two_and_a_half :
    (2.5 : Float).isFinite = true ∧ ((2.5 : Float) == 0) = false ∧
      PositionalText (number 2.5).toList 2.5 := by
  have finite : (2.5 : Float).isFinite = true := by decide +kernel
  have nonzero : ((2.5 : Float) == 0) = false := by decide +kernel
  have shown : (1e-6 : Float) ≤ Float.abs 2.5 ∧ Float.abs 2.5 < 1e21 :=
    ⟨by decide +kernel, by decide +kernel⟩
  exact ⟨finite, nonzero, ((number_text_faithful.2.1 2.5 finite nonzero).2.1).mp shown⟩

end Narration

end MatrixSteps
