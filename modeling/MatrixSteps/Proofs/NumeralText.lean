import Mathlib
import MatrixSteps.Proofs.ShortestDigits
import MatrixSteps.Proofs.IntegerNumerals

/-!
The text of a number, as a notation writes it, read back as a numeral.

`spell` lays numeral text out from its parts: an optional minus, whole digits, fraction digits after
a point, and an exponent with an explicit sign. Scanning such text reads all its digits and its
exponent, and leaves nothing (`scan_spell`). Each branch of a notation, a whole number with or
without `.0`, a fraction, a number below one, or scientific text with a padded exponent, is such a
layout, and its parts spell the value of the digits written (`body_spells`). So whatever the
notation, the text of a finite nonzero double scans back as a numeral of its sign whose value is
that of its shortest digits (`scan_render`).
-/

namespace MatrixSteps

namespace Decimal

/-! ### Digit strings -/

theorem toDigits_step (n : Nat) : Nat.toDigits 10 n =
    if n < 10 then [n.digitChar] else Nat.toDigits 10 (n / 10) ++ [(n % 10).digitChar] :=
  Nat.toDigits_eq_if (by decide)

theorem digitChar_eq_zero_iff {k : Nat} (digit : k < 10) : k.digitChar = '0' ↔ k = 0 := by
  interval_cases k <;> decide

theorem width_step (n : Nat) : width n = if n < 10 then 1 else width (n / 10) + 1 := by
  unfold width
  rw [toDigits_step]
  split <;> simp

theorem width_spec {n : Nat} (positive : 0 < n) :
    10 ^ (width n - 1) ≤ n ∧ n < 10 ^ width n := by
  induction n using Nat.strong_induction_on with
  | _ n ih =>
    rw [width_step]
    split_ifs with small
    · exact ⟨by simp; omega, by simpa using small⟩
    · obtain ⟨low, high⟩ := ih (n / 10) (by omega) (by omega)
      have wide : 1 ≤ width (n / 10) := by
        rcases Nat.eq_zero_or_pos (width (n / 10)) with zero | pos
        · rw [zero] at high
          omega
        · exact pos
      obtain ⟨w, hw⟩ : ∃ w, width (n / 10) = w + 1 := ⟨width (n / 10) - 1, by omega⟩
      rw [hw] at low high ⊢
      simp only [Nat.add_sub_cancel, pow_succ] at low high ⊢
      constructor <;> omega

theorem toDigits_head {n : Nat} (positive : 0 < n) : (Nat.toDigits 10 n).head? ≠ some '0' := by
  induction n using Nat.strong_induction_on with
  | _ n ih =>
    rw [toDigits_step]
    split_ifs with small
    · simp only [List.head?_cons, ne_eq, Option.some.injEq]
      rw [digitChar_eq_zero_iff small]
      omega
    · obtain ⟨c, cs, spelled⟩ :=
        List.exists_cons_of_ne_nil (Nat.toDigits_ne_nil (n := n / 10) (b := 10))
      have first := ih (n / 10) (by omega) (by omega)
      rw [spelled] at first ⊢
      simpa using first

theorem toDigits_getLast (n : Nat) :
    (Nat.toDigits 10 n).getLast? = some (n % 10).digitChar := by
  rw [toDigits_step]
  split_ifs with small
  · simp [Nat.mod_eq_of_lt small]
  · simp

theorem foldl_digits (acc : Nat) (cs : List Char) :
    cs.foldl (fun acc c => 10 * acc + (c.toNat - '0'.toNat)) acc =
      acc * 10 ^ cs.length + digitsValue cs := by
  induction cs generalizing acc with
  | nil => simp [digitsValue]
  | cons c cs ih =>
      have tail : digitsValue (c :: cs) =
          (10 * 0 + (c.toNat - '0'.toNat)) * 10 ^ cs.length + digitsValue cs := by
        rw [digitsValue, List.foldl_cons, ih]
      rw [List.foldl_cons, ih, tail, List.length_cons, pow_succ]
      ring

theorem digitsValue_append (a b : List Char) :
    digitsValue (a ++ b) = digitsValue a * 10 ^ b.length + digitsValue b := by
  rw [digitsValue, List.foldl_append, ← digitsValue, foldl_digits]

theorem digitsValue_zeros (k : Nat) : digitsValue (List.replicate k '0') = 0 := by
  induction k with
  | zero => rfl
  | succ k ih =>
      rw [List.replicate_succ', digitsValue_append, ih]
      rfl

end Decimal

/-! ### Numeral text -/

/-- The exponent part of numeral text: an `e`, an explicit sign and digits, when there is one. -/
def powerText : Option (Bool × List Char) → List Char
  | none => []
  | some (minus, ds) => 'e' :: (if minus then '-' else '+') :: ds

/-- Numeral text: an optional minus, whole digits, a point and fraction digits when there are any,
and the exponent part. -/
def spell (negative : Bool) (whole fraction : List Char) (power : Option (Bool × List Char)) :
    List Char :=
  (if negative then ['-'] else []) ++ whole ++ (if fraction = [] then [] else '.' :: fraction) ++
    powerText power

/-- The exponent written after the `e`, or zero. -/
def powerValue : Option (Bool × List Char) → Int
  | none => 0
  | some (minus, ds) => if minus then -(Decimal.digitsValue ds : Int) else Decimal.digitsValue ds

/-- Scanning numeral text reads its sign, all its digits, and its exponent less the fraction digits,
and leaves nothing. -/
theorem scan_spell_eq (negative : Bool) {whole fraction : List Char}
    {power : Option (Bool × List Char)}
    (wholeDigits : whole ≠ [] ∧ ∀ c ∈ whole, c.isDigit = true)
    (fractionDigits : ∀ c ∈ fraction, c.isDigit = true)
    (powerDigits : ∀ p ∈ power, p.2 ≠ [] ∧ ∀ c ∈ p.2, c.isDigit = true) :
    ∃ integral, Numeral.scan (spell negative whole fraction power) =
      some (⟨negative, ⟨Decimal.digitsValue (whole ++ fraction),
        powerValue power - fraction.length⟩, integral⟩, []) := by
  obtain ⟨w, ws, rfl⟩ := List.exists_cons_of_ne_nil wholeDigits.1
  have first : w.isDigit = true := wholeDigits.2 w List.mem_cons_self
  have rest : ∀ c ∈ ws, c.isDigit = true := fun c member =>
    wholeDigits.2 c (List.mem_cons_of_mem w member)
  have unsigned : w ≠ '-' := by
    rintro rfl
    cases first
  have point : '.'.isDigit = false := by decide
  have mark : 'e'.isDigit = false := by decide
  cases fraction with
  | nil =>
      cases power with
      | none =>
          cases negative <;>
            simp [Numeral.scan, spell, powerText, powerValue, first, unsigned,
              List.takeWhile_eq_self_iff.mpr rest, List.dropWhile_eq_nil_iff.mpr rest]
      | some p =>
          obtain ⟨minus, ds⟩ := p
          obtain ⟨nonempty, digits⟩ := powerDigits _ rfl
          obtain ⟨d, ds, rfl⟩ := List.exists_cons_of_ne_nil nonempty
          cases negative <;> cases minus <;>
            simp [Numeral.scan, spell, powerText, powerValue, first, unsigned, mark,
              List.takeWhile_append_of_pos rest, List.dropWhile_append_of_pos rest,
              List.takeWhile_eq_self_iff.mpr digits, List.dropWhile_eq_nil_iff.mpr digits]
  | cons f fs =>
      have head : f.isDigit = true := fractionDigits f List.mem_cons_self
      have tail : ∀ c ∈ fs, c.isDigit = true := fun c member =>
        fractionDigits c (List.mem_cons_of_mem f member)
      cases power with
      | none =>
          cases negative <;>
            simp [Numeral.scan, spell, powerText, powerValue, first, unsigned, point, head,
              List.takeWhile_append_of_pos rest, List.dropWhile_append_of_pos rest,
              List.takeWhile_eq_self_iff.mpr tail, List.dropWhile_eq_nil_iff.mpr tail]
      | some p =>
          obtain ⟨minus, ds⟩ := p
          obtain ⟨nonempty, digits⟩ := powerDigits _ rfl
          obtain ⟨d, ds, rfl⟩ := List.exists_cons_of_ne_nil nonempty
          cases negative <;> cases minus <;>
            simp [Numeral.scan, spell, powerText, powerValue, first, unsigned, point, head, mark,
              List.takeWhile_append_of_pos rest, List.dropWhile_append_of_pos rest,
              List.takeWhile_append_of_pos tail, List.dropWhile_append_of_pos tail,
              List.takeWhile_eq_self_iff.mpr digits, List.dropWhile_eq_nil_iff.mpr digits]

/-- Parts of numeral text that scan back, and the value `q` they spell: whole digits, fraction
digits and exponent digits. -/
structure SpellsValue (whole fraction : List Char) (power : Option (Bool × List Char)) (q : ℚ) :
    Prop where
  wholeDigits : whole ≠ [] ∧ ∀ c ∈ whole, c.isDigit = true
  fractionDigits : ∀ c ∈ fraction, c.isDigit = true
  powerDigits : ∀ p ∈ power, p.2 ≠ [] ∧ ∀ c ∈ p.2, c.isDigit = true
  value :
    (Decimal.digitsValue (whole ++ fraction) : ℚ) * 10 ^ (powerValue power - fraction.length) = q

/-- The exact value of a numeral, with its sign. -/
def Numeral.toRat (k : Numeral) : ℚ := if k.negative then -k.value.toRat else k.value.toRat

theorem scan_spell (negative : Bool) {whole fraction : List Char}
    {power : Option (Bool × List Char)}
    {q : ℚ} (spelled : SpellsValue whole fraction power q) :
    ∃ k, Numeral.scan (spell negative whole fraction power) = some (k, []) ∧
      k.negative = negative ∧ k.value.toRat = q := by
  obtain ⟨integral, scanned⟩ := scan_spell_eq negative spelled.wholeDigits spelled.fractionDigits
    spelled.powerDigits
  exact ⟨_, scanned, rfl, spelled.value⟩

/-! ### The notations' texts -/

namespace Notation

variable (n : Notation) {ds : List Char} {E : Int}

theorem positional_whole (nonneg : 0 ≤ E) (short : ds.length ≤ E.toNat + 1) :
    n.positional ds E =
      spell false (ds ++ List.replicate (E.toNat + 1 - ds.length) '0')
        (if n.pointZero then ['0'] else []) none := by
  rw [positional, if_pos nonneg]
  simp only [if_pos short]
  cases n.pointZero <;> simp [spell, powerText]

theorem positional_fraction (nonneg : 0 ≤ E) (long : E.toNat + 1 < ds.length) :
    n.positional ds E = spell false (ds.take (E.toNat + 1)) (ds.drop (E.toNat + 1)) none := by
  have rest : ds.drop (E.toNat + 1) ≠ [] := by
    simp only [ne_eq, List.drop_eq_nil_iff]
    omega
  rw [positional, if_pos nonneg]
  simp only [if_neg (not_le.mpr long)]
  simp [spell, powerText, rest]

theorem positional_small (nonempty : ds ≠ []) (negative : E < 0) :
    n.positional ds E = spell false ['0'] (List.replicate ((-E).toNat - 1) '0' ++ ds) none := by
  rw [positional, if_neg (not_le.mpr negative)]
  simp [spell, powerText, nonempty]

theorem scientific_spelled (c : Char) (rest : List Char) (E : Int) :
    n.scientific (c :: rest) E =
      spell false [c] rest (some (decide (E < 0),
        List.replicate (n.exponentWidth - (Nat.toDigits 10 E.natAbs).length) '0' ++
          Nat.toDigits 10 E.natAbs)) := by
  cases rest <;> simp [scientific, spell, powerText]

end Notation

theorem digitsValue_zeros_after (ds : List Char) (k : Nat) :
    (Decimal.digitsValue (ds ++ List.replicate k '0') : ℚ) = Decimal.digitsValue ds * 10 ^ k := by
  rw [Decimal.digitsValue_append, Decimal.digitsValue_zeros, List.length_replicate]
  push_cast
  ring

theorem digitsValue_zeros_before (ds : List Char) (k : Nat) :
    Decimal.digitsValue (List.replicate k '0' ++ ds) = Decimal.digitsValue ds := by
  rw [Decimal.digitsValue_append, Decimal.digitsValue_zeros, zero_mul, zero_add]

theorem digitsValue_point_zeros (ds tail : List Char) (zeros : ∀ c ∈ tail, c = '0') :
    (Decimal.digitsValue (ds ++ tail) : ℚ) * 10 ^ (-(tail.length : Int)) =
      Decimal.digitsValue ds := by
  rw [List.eq_replicate_iff.mpr ⟨rfl, zeros⟩, digitsValue_zeros_after, List.length_replicate,
    mul_assoc, zpow_neg, zpow_natCast, mul_inv_cancel₀ (by positivity), mul_one]

theorem zero_isDigit : '0'.isDigit = true := by decide

theorem replicate_isDigit (k : Nat) : ∀ c ∈ List.replicate k '0', c.isDigit = true := by
  intro c member
  rw [List.eq_of_mem_replicate member]
  exact zero_isDigit

/-- The text a notation writes for a nonzero decimal, positional or scientific, spells the decimal's
value. -/
theorem body_spells (n : Notation) (d : Decimal) :
    ∃ whole fraction power,
      (if n.lowest ≤ d.leadingExponent && d.leadingExponent ≤ n.highest then
          n.positional (Nat.toDigits 10 d.digits) d.leadingExponent
        else n.scientific (Nat.toDigits 10 d.digits) d.leadingExponent) =
        spell false whole fraction power ∧ SpellsValue whole fraction power d.toRat := by
  have digits := digits_isDigit d.digits
  have nonempty : Nat.toDigits 10 d.digits ≠ [] := Nat.toDigits_ne_nil
  have value := Decimal.digitsValue_toDigits d.digits
  have leading : d.leadingExponent = d.exponent + (Nat.toDigits 10 d.digits).length - 1 := rfl
  generalize Nat.toDigits 10 d.digits = ds at digits nonempty value leading
  have toRat : d.toRat = Decimal.digitsValue ds * 10 ^ (d.leadingExponent + 1 - ds.length) := by
    rw [Decimal.toRat, value, leading]
    ring_nf
  rw [toRat]
  generalize d.leadingExponent = E at leading ⊢
  have tenPow : (10 : ℚ) ≠ 0 := by norm_num
  split_ifs with range
  · by_cases nonneg : 0 ≤ E
    · by_cases short : ds.length ≤ E.toNat + 1
      · have places : ((E.toNat + 1 - ds.length : Nat) : Int) = E + 1 - ds.length := by omega
        refine ⟨_, _, _, n.positional_whole nonneg short,
          ⟨⟨by simp [nonempty], ?_⟩, ?_, by simp, ?_⟩⟩
        · intro c member
          rcases List.mem_append.mp member with inDigits | inZeros
          · exact digits c inDigits
          · exact replicate_isDigit _ c inZeros
        · split <;> simp [zero_isDigit]
        · have trailing : ∀ c ∈ (if n.pointZero then ['0'] else []), c = '0' := by
            split <;> simp
          rw [powerValue, zero_sub, digitsValue_point_zeros _ _ trailing, digitsValue_zeros_after,
            ← places, zpow_natCast]
      · refine ⟨_, _, _, n.positional_fraction nonneg (not_le.mp short),
          ⟨⟨?_, ?_⟩, ?_, by simp, ?_⟩⟩
        · simp only [ne_eq, List.take_eq_nil_iff, nonempty, or_false]
          omega
        · exact fun c member => digits c (List.mem_of_mem_take member)
        · exact fun c member => digits c (List.mem_of_mem_drop member)
        · rw [List.take_append_drop, powerValue, List.length_drop,
            show (0 : Int) - ((ds.length - (E.toNat + 1) : Nat) : Int) = E + 1 - ds.length by omega]
    · refine ⟨_, _, _, n.positional_small nonempty (not_le.mp nonneg),
        ⟨⟨by simp, by simp [zero_isDigit]⟩, ?_, by simp, ?_⟩⟩
      · intro c member
        rcases List.mem_append.mp member with inZeros | inDigits
        · exact replicate_isDigit _ c inZeros
        · exact digits c inDigits
      · rw [List.singleton_append, ← List.cons_append, ← List.replicate_succ,
          digitsValue_zeros_before, powerValue, List.length_append, List.length_replicate]
        congr 2
        omega
  · obtain ⟨c, rest, rfl⟩ := List.exists_cons_of_ne_nil nonempty
    refine ⟨_, _, _, n.scientific_spelled c rest E, ⟨⟨by simp, ?_⟩, ?_, ?_, ?_⟩⟩
    · simpa using digits c List.mem_cons_self
    · exact fun x member => digits x (List.mem_cons_of_mem c member)
    · intro p member
      rw [Option.mem_some_iff] at member
      subst member
      refine ⟨by simp [Nat.toDigits_ne_nil], fun c member => ?_⟩
      rcases List.mem_append.mp member with inZeros | inDigits
      · exact replicate_isDigit _ c inZeros
      · exact digits_isDigit _ c inDigits
    · rw [List.singleton_append, powerValue, digitsValue_zeros_before, Decimal.digitsValue_toDigits]
      congr 1
      split_ifs with below
      · simp only [decide_eq_true_eq] at below
        rw [List.length_cons] at leading ⊢
        congr 1
        omega
      · simp only [decide_eq_true_eq] at below
        rw [List.length_cons]
        congr 1
        omega

theorem spell_true (whole fraction : List Char) (power : Option (Bool × List Char)) :
    '-' :: spell false whole fraction power = spell true whole fraction power := by
  simp [spell]

/-- A notation writes a finite nonzero double as numeral text that spells the value of its shortest
digits, with the double's sign. -/
theorem render_spells (n : Notation) {x : Float} {negative : Bool} {m : Nat} {e : Int}
    (finite : Binary.parts x = .finite negative m e) (nonzero : 0 < m) :
    ∃ whole fraction power, (n.render x).toList = spell negative whole fraction power ∧
      SpellsValue whole fraction power (Shortest.digits m e).toRat := by
  obtain ⟨whole, fraction, power, body, spelled⟩ := body_spells n (Shortest.digits m e)
  refine ⟨whole, fraction, power, ?_, spelled⟩
  simp only [Notation.render, finite, Notation.finite, if_neg nonzero.ne', String.toList_ofList,
    body]
  cases negative
  · rfl
  · exact spell_true whole fraction power

/-- The text a notation writes for a finite nonzero double scans back, whole, as a numeral of the
double's sign and of the value of its shortest digits. -/
theorem scan_render (n : Notation) {x : Float} {negative : Bool} {m : Nat} {e : Int}
    (finite : Binary.parts x = .finite negative m e) (nonzero : 0 < m) :
    ∃ k, Numeral.scan (n.render x).toList = some (k, []) ∧ k.negative = negative ∧
      k.value.toRat = (Shortest.digits m e).toRat := by
  obtain ⟨whole, fraction, power, written, spelled⟩ := render_spells n finite nonzero
  rw [written]
  exact scan_spell negative spelled

end MatrixSteps
