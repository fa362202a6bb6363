import Mathlib
import MatrixSteps.Proofs.NearestDouble
import MatrixSteps.Proofs.FaultTaxonomy

/-!
Rounding to decimal places, on the exact value of the double.

Up to 28 places the last place of a rounding is `10 ^ -d` (`lastPlace_of_le`). A finite value below
`ceiling` counts `⌊|x| · 10 ^ d + 1/2⌋` units of that place (`coefficient_eq_floor`) and is read
back to the nearest double; every other value is returned as it is (`round?_of_not_below`). The
rounding is refused exactly when the count has more than 28 digits. A double below `10 ^ 21` is a
whole number or has fewer than 53 bits, so up to seven places the count never has that many
(`floor_below_precision`).

At the four places of a cell, rounding is idempotent, commutes with negation and is monotone
(`roundCell_idempotent`, `roundCell_neg`, `roundCell_mono`). Idempotence rests on the rounded value
being a closest double to its count: it is no farther from it than the cell was, and it cannot sit
exactly half a unit above the count while the cell sat half a unit below, for a double has only twos
in its denominator (`five_pow_dvd_of_scaled`).
-/

namespace MatrixSteps.Places

open Binary

/-! ### The exact value of a double -/

theorem magnitude_eq_div (m : Nat) (e : Int) :
    magnitude m e = ((m * 2 ^ e.toNat : Nat) : ℚ) / (2 ^ (-e).toNat : Nat) := by
  have scale : (2 : ℚ) ^ e = 2 ^ e.toNat / 2 ^ (-e).toNat := by
    rw [← neg_neg e, ← two_pow_toNat_div (-e), neg_neg]
  unfold magnitude
  rw [scale]
  push_cast
  ring

theorem compareInt_lt_iff (m : Nat) (e : Int) (n : Nat) :
    compareInt false m e n = .lt ↔ magnitude m e < n := by
  have scale : (0 : ℚ) < ((2 ^ (-e).toNat : Nat) : ℚ) := by positivity
  simp only [compareInt, Bool.false_eq_true, if_false, Int.compare_eq_lt]
  rw [magnitude_eq_div, div_lt_iff₀ scale]
  exact_mod_cast Iff.rfl

theorem coefficient_eq_floor (m : Nat) (e : Int) (d : Nat) :
    coefficient m e (-d) = ⌊magnitude m e * 10 ^ d + 1 / 2⌋₊ := by
  have whole : (-(d : Int)).toNat = 0 := by omega
  have scale : (0 : ℚ) < ((2 ^ (-e).toNat : Nat) : ℚ) := by positivity
  unfold coefficient
  simp only [neg_neg, Int.toNat_natCast, whole, pow_zero, Nat.mul_one]
  rw [← Nat.floor_div_eq_div (K := ℚ), magnitude_eq_div]
  congr 1
  field_simp
  push_cast
  ring

theorem lastPlace_of_le {d : Nat} (high : d ≤ 28) : lastPlace d = .ok (-d) := by
  have limit : ¬ scaleLimit < (d : Int).natAbs := by
    simp only [scaleLimit, maxExponent, precision, Int.natAbs_natCast]
    omega
  have exponent : ¬ maxExponent < -(d : Int) := by
    simp only [maxExponent]
    omega
  have tiny : tinyExponent ≤ -(d : Int) := by
    simp only [tinyExponent, maxExponent, precision]
    omega
  simp only [lastPlace, if_neg limit, if_neg exponent, max_eq_left tiny]

/-! ### Where rounding applies -/

theorem ceiling_cast : ((ceiling : Nat) : ℚ) = 10 ^ 21 := by
  norm_num [ceiling]

theorem below_or_not (x : Float) :
    (∃ negative m e, parts x = .finite negative m e ∧ magnitude m e < 10 ^ 21) ∨
      ∀ negative m e, parts x = .finite negative m e → 10 ^ 21 ≤ magnitude m e := by
  by_cases below : ∃ negative m e, parts x = .finite negative m e ∧ magnitude m e < 10 ^ 21
  · exact .inl below
  · refine .inr fun negative m e finite => ?_
    exact not_lt.mp fun lt => below ⟨negative, m, e, finite, lt⟩

theorem round?_of_below {d : Nat} (high : d ≤ 28) {x : Float} {negative : Bool} {m : Nat} {e : Int}
    (finite : parts x = .finite negative m e) (below : magnitude m e < 10 ^ 21) :
    round? d x = roundFinite negative m e (-d) := by
  have compared : compareInt false m e ceiling = .lt :=
    (compareInt_lt_iff m e ceiling).mpr (ceiling_cast ▸ below)
  unfold round?
  rw [finite]
  simp only [compared, BEq.rfl, if_true, lastPlace_of_le high, ok_bind]

theorem round?_of_not_below (places : Int) {x : Float}
    (large : ∀ negative m e, parts x = .finite negative m e → 10 ^ 21 ≤ magnitude m e) :
    round? places x = .ok x := by
  unfold round?
  split
  next negative m e finite =>
    have notBelow : compareInt false m e ceiling ≠ .lt := fun lt =>
      absurd ((compareInt_lt_iff m e ceiling).mp lt)
        (not_lt.mpr (ceiling_cast ▸ large _ _ _ finite))
    simp [notBelow]
  · rfl

theorem roundFinite_eq_error {negative : Bool} {m : Nat} {e q : Int} {fault : RoundingFault} :
    roundFinite negative m e q = .error fault ↔
      fault = .invalid ∧ 10 ^ precision ≤ coefficient m e q := by
  unfold roundFinite
  dsimp only
  split_ifs with digits
  · simp [digits, eq_comm]
  · simp [digits]

/-! ### Refused roundings -/

theorem floor_below_precision {m : Nat} {e : Int} (small : m < 2 ^ 53)
    (below : magnitude m e < 10 ^ 21) {d : Nat} (few : d ≤ 7) :
    ⌊magnitude m e * 10 ^ d + 1 / 2⌋₊ < 10 ^ 28 := by
  have nonnegative := magnitude_nonneg m e
  have bounded : magnitude m e ≤ 10 ^ 21 - 1 := by
    rcases le_or_gt 0 e with whole | fraction
    · have integer : magnitude m e = ((m * 2 ^ e.toNat : Nat) : ℚ) := by
        unfold magnitude
        push_cast
        rw [← zpow_natCast, Int.toNat_of_nonneg whole]
      rw [integer] at below ⊢
      have belowNat : m * 2 ^ e.toNat < 10 ^ 21 := by exact_mod_cast below
      have : ((m * 2 ^ e.toNat : Nat) : ℚ) + 1 ≤ 10 ^ 21 := by exact_mod_cast belowNat
      linarith
    · have smallQ : (m : ℚ) < 2 ^ 53 := by exact_mod_cast small
      have shrink : (2 : ℚ) ^ e ≤ 1 := zpow_le_one_of_nonpos₀ (by norm_num) fraction.le
      have : magnitude m e ≤ m := by
        unfold magnitude
        calc (m : ℚ) * 2 ^ e ≤ m * 1 := by gcongr
          _ = m := mul_one _
      linarith
  have scale : (10 : ℚ) ^ d ≤ 10 ^ 7 := pow_le_pow_right₀ (by norm_num) few
  rw [Nat.floor_lt (by positivity)]
  calc magnitude m e * 10 ^ d + 1 / 2 ≤ (10 ^ 21 - 1) * 10 ^ 7 + 1 / 2 := by gcongr
    _ < ((10 ^ 28 : Nat) : ℚ) := by norm_num

/-- The double is finite below `ceiling`, and its magnitude rounded half up to `d` places has more
than `precision` digits. -/
def NeedsMoreDigits (d : Nat) (x : Float) : Prop :=
  ∃ negative m e, parts x = .finite negative m e ∧ magnitude m e < 10 ^ 21 ∧
    10 ^ 28 ≤ ⌊magnitude m e * 10 ^ d + 1 / 2⌋₊

/-- Up to 28 places a rounding is refused, always as invalid, exactly when the rounded count needs
more than 28 digits. Otherwise it gives a double, the value itself when it is not finite below
`ceiling`; and up to seven places it is never refused. -/
theorem round_refused_iff_needsMoreDigits {d : Nat} (high : d ≤ 28) (x : Float) :
    (round? d x = .error .invalid ↔ NeedsMoreDigits d x) ∧
      (¬ NeedsMoreDigits d x → ∃ y, round? d x = .ok y) ∧
      ((∀ negative m e, parts x = .finite negative m e → 10 ^ 21 ≤ magnitude m e) →
        round? d x = .ok x) ∧
      (d ≤ 7 → ∃ y, round? d x = .ok y) := by
  have refused : ∀ fault, round? d x = .error fault ↔ fault = .invalid ∧ NeedsMoreDigits d x := by
    intro fault
    rcases below_or_not x with ⟨negative, m, e, finite, below⟩ | large
    · rw [round?_of_below high finite below, roundFinite_eq_error, coefficient_eq_floor]
      constructor
      · rintro ⟨rfl, digits⟩
        exact ⟨rfl, negative, m, e, finite, below, digits⟩
      · rintro ⟨rfl, negative', m', e', finite', -, digits⟩
        rw [finite] at finite'
        obtain ⟨rfl, rfl, rfl⟩ := Parts.finite.inj finite'
        exact ⟨rfl, digits⟩
    · rw [round?_of_not_below _ large]
      refine ⟨(fun impossible => by cases impossible), ?_⟩
      rintro ⟨-, negative, m, e, finite, below, -⟩
      exact absurd (large _ _ _ finite) (not_le.mpr below)
  have rounds : ¬ NeedsMoreDigits d x → ∃ y, round? d x = .ok y := by
    intro fits
    cases rounded : round? d x with
    | ok y => exact ⟨y, rfl⟩
    | error fault => exact absurd ((refused fault).mp rounded).2 fits
  refine ⟨(refused .invalid).trans ⟨And.right, fun digits => ⟨rfl, digits⟩⟩, rounds,
    round?_of_not_below _, fun few => rounds ?_⟩
  rintro ⟨negative, m, e, finite, below, digits⟩
  have small := InRange.small (decode_finite_range finite)
  exact absurd digits (not_le.mpr (floor_below_precision small below few))

theorem rounds_two_and_a_half_to_four_places :
    (4 : Nat) ≤ 28 ∧ ∃ y, round? ((4 : Nat) : Int) 2.5 = .ok y :=
  ⟨by decide, (round_refused_iff_needsMoreDigits (by decide) 2.5).2.2.2 (by decide)⟩

/-! ### Cells -/

section Cells

variable {x : Float} {negative : Bool} {m : Nat} {e : Int}

theorem magnitude_eq_zero_iff : magnitude m e = 0 ↔ m = 0 := by
  have place : (2 : ℚ) ^ e ≠ 0 := zpow_ne_zero e two_ne_zero
  simp [magnitude, place]

theorem large_of_finite (finite : parts x = .finite negative m e)
    (large : 10 ^ 21 ≤ magnitude m e) :
    ∀ negative' m' e', parts x = .finite negative' m' e' → 10 ^ 21 ≤ magnitude m' e' := by
  intro negative' m' e' finite'
  rw [finite] at finite'
  obtain ⟨-, rfl, rfl⟩ := Parts.finite.inj finite'
  exact large

theorem roundCell_of_not_below
    (large : ∀ negative m e, parts x = .finite negative m e → 10 ^ 21 ≤ magnitude m e) :
    roundCell x = x := by
  unfold roundCell
  rw [round?_of_not_below _ large]
  rfl

theorem parts_roundCell_of_large (finite : parts x = .finite negative m e)
    (large : 10 ^ 21 ≤ magnitude m e) : parts (roundCell x) = .finite negative m e := by
  rw [roundCell_of_not_below (large_of_finite finite large), finite]

theorem roundCell_of_below (finite : parts x = .finite negative m e)
    (below : magnitude m e < 10 ^ 21) :
    roundCell x = nearest negative ⌊magnitude m e * 10 ^ 4 + 1 / 2⌋₊ (10 ^ 4) := by
  have digits := floor_below_precision (InRange.small (decode_finite_range finite)) below
    (d := 4) (by decide)
  unfold roundCell
  rw [show cellPlaces = ((4 : Nat) : Int) from rfl, round?_of_below (by decide) finite below]
  unfold roundFinite
  dsimp only
  rw [coefficient_eq_floor]
  split_ifs with refused
  · exact absurd refused (not_le.mpr digits)
  · simp [Decimal.toFloat, Except.toOption]

theorem parts_roundCell_of_below (finite : parts x = .finite negative m e)
    (below : magnitude m e < 10 ^ 21) :
    ∃ m' e', parts (roundCell x) = .finite negative m' e' ∧ magnitude m' e' ≤ 10 ^ 21 := by
  have positive : 0 < 10 ^ 4 := by norm_num
  have count : ⌊magnitude m e * 10 ^ 4 + 1 / 2⌋₊ ≤ 10 ^ 25 := by
    apply Nat.le_of_lt_succ
    rw [Nat.floor_lt (by have := magnitude_nonneg m e; positivity)]
    push_cast
    linarith
  obtain ⟨m', e', rounded⟩ := nearest_finite negative positive
    (lt_of_le_of_lt count (by norm_num) : ⌊magnitude m e * 10 ^ 4 + 1 / 2⌋₊ < 10 ^ 4 * 2 ^ 200)
  obtain ⟨M, E, atCeiling⟩ := nearest_finite negative positive
    (by norm_num : 10 ^ 25 < 10 ^ 4 * 2 ^ 200)
  have exactCeiling : magnitude M E = 10 ^ 21 := by
    have double : ((10 ^ 25 : Nat) : ℚ) / ((10 ^ 4 : Nat) : ℚ) = magnitude (5 ^ 21) 21 := by
      norm_num [magnitude]
    rw [nearest_exact positive atCeiling (by norm_num : 5 ^ 21 < 2 ^ 53)
      (by norm_num : (-1074 : Int) ≤ 21) double]
    norm_num [magnitude]
  rw [roundCell_of_below finite below]
  exact ⟨m', e', rounded, exactCeiling ▸ nearest_mono positive count rounded atCeiling⟩

theorem parts_roundCell_finite (finite : parts x = .finite negative m e) :
    ∃ m' e', parts (roundCell x) = .finite negative m' e' := by
  rcases lt_or_ge (magnitude m e) (10 ^ 21) with below | large
  · obtain ⟨m', e', rounded, -⟩ := parts_roundCell_of_below finite below
    exact ⟨m', e', rounded⟩
  · exact ⟨m, e, parts_roundCell_of_large finite large⟩

theorem roundCell_of_not_finite (notFinite : ∀ negative m e, parts x ≠ .finite negative m e) :
    roundCell x = x :=
  roundCell_of_not_below fun negative m e finite => absurd finite (notFinite negative m e)

theorem roundCell_of_infinity (infinite : parts x = .infinity negative) : roundCell x = x :=
  roundCell_of_not_finite fun _ _ _ finite => by
    rw [infinite] at finite
    cases finite

theorem roundCell_of_isNaN (nan : x.isNaN = true) : roundCell x = x :=
  roundCell_of_not_finite fun _ _ _ finite => by
    rw [(isNaN_iff x).mp nan] at finite
    cases finite

theorem exponent_of_zero (zero : parts x = .finite negative 0 e) : e = leastExponent := by
  rcases decode_finite_range zero with ⟨_, least⟩ | ⟨normal, _⟩
  · exact least
  · exact absurd normal (by norm_num)

theorem roundCell_zero (zero : parts x = .finite negative 0 e) : roundCell x = x := by
  have below : magnitude 0 e < 10 ^ 21 := by norm_num [magnitude]
  obtain ⟨m', e', rounded, -⟩ := parts_roundCell_of_below zero below
  have nothing : magnitude m' e' = magnitude 0 leastExponent := by
    have counted := rounded
    rw [roundCell_of_below zero below] at counted
    exact nearest_exact (by norm_num) counted (by norm_num) (by decide) (by norm_num [magnitude])
  have zero' : m' = 0 := magnitude_eq_zero_iff.mp (by rw [nothing]; norm_num [magnitude])
  subst zero'
  apply parts_injective
  rw [rounded, zero, exponent_of_zero rounded, exponent_of_zero zero]

theorem roundCell_neg (x : Float) : roundCell (-x) = -roundCell x := by
  rcases below_or_not x with ⟨negative, m, e, finite, below⟩ | large
  · have negated : parts (-x) = .finite (!negative) m e := by
      rw [parts_neg, finite]
      rfl
    rw [roundCell_of_below negated below, roundCell_of_below finite below,
      nearest_not _ _ (by norm_num)]
  · have negatedLarge : ∀ negative m e, parts (-x) = .finite negative m e →
        10 ^ 21 ≤ magnitude m e := by
      intro negative m e negated
      rw [parts_neg] at negated
      cases original : parts x with
      | finite negative' m' e' =>
          rw [original] at negated
          obtain ⟨-, rfl, rfl⟩ := Parts.finite.inj negated
          exact large _ _ _ original
      | nan => rw [original] at negated; cases negated
      | infinity negative' => rw [original] at negated; cases negated
    rw [roundCell_of_not_below negatedLarge, roundCell_of_not_below large]

theorem five_pow_dvd_of_scaled {d n : Nat} (scaled : magnitude m e * (2 * 10 ^ d) = n) :
    5 ^ d ∣ n := by
  have cross : m * 2 ^ e.toNat * (2 * 10 ^ d) = n * 2 ^ (-e).toNat := by
    have scale : ((2 ^ (-e).toNat : Nat) : ℚ) ≠ 0 := by positivity
    rw [magnitude_eq_div, div_mul_eq_mul_div, div_eq_iff scale] at scaled
    exact_mod_cast scaled
  have divides : 5 ^ d ∣ n * 2 ^ (-e).toNat := by
    rw [← cross, show 10 ^ d = 2 ^ d * 5 ^ d by rw [← Nat.mul_pow]]
    exact Dvd.dvd.mul_left (Dvd.dvd.mul_left (dvd_mul_left _ _) 2) _
  exact (Nat.Coprime.pow d _ (by norm_num : Nat.Coprime 5 2)).dvd_of_dvd_mul_right divides

/-- Counted in units of `10 ^ -4`, a rounded cell below `ceiling` is no farther from the cell's
count of units than the cell itself. -/
theorem roundCell_closer (finite : parts x = .finite negative m e) (below : magnitude m e < 10 ^ 21)
    {negative' : Bool} {m' : Nat} {e' : Int}
    (rounded : parts (roundCell x) = .finite negative' m' e') :
    |magnitude m' e' * 10 ^ 4 - ⌊magnitude m e * 10 ^ 4 + 1 / 2⌋₊| ≤
      |magnitude m e * 10 ^ 4 - ⌊magnitude m e * 10 ^ 4 + 1 / 2⌋₊| := by
  have range := decode_finite_range finite
  rw [roundCell_of_below finite below] at rounded
  generalize ⌊magnitude m e * 10 ^ 4 + 1 / 2⌋₊ = c at rounded ⊢
  have unit : (0 : ℚ) < 10 ^ 4 := by norm_num
  have distance :=
    nearest_closest (by norm_num) rounded (InRange.small range) (InRange.least_le range)
  have inUnits : ∀ a : ℚ, |a - (c : ℚ) / ((10 ^ 4 : Nat) : ℚ)| * 10 ^ 4 = |a * 10 ^ 4 - c| := by
    intro a
    have scaled : (a - (c : ℚ) / ((10 ^ 4 : Nat) : ℚ)) * 10 ^ 4 = a * 10 ^ 4 - c := by
      rw [Nat.cast_pow, Nat.cast_ofNat, sub_mul, div_mul_cancel₀ _ unit.ne']
    rw [← scaled, abs_mul, abs_of_pos unit]
  rw [← inUnits, ← inUnits]
  exact mul_le_mul_of_nonneg_right distance unit.le

theorem not_straddle_count {m' : Nat} {e' : Int} {c : Nat}
    (above : magnitude m' e' * 10 ^ 4 = c + 1 / 2) (under : magnitude m e * 10 ^ 4 = c - 1 / 2) :
    False := by
  have some : 0 < c := by
    have scaledNonneg : 0 ≤ magnitude m e * 10 ^ 4 :=
      mul_nonneg (magnitude_nonneg m e) (by norm_num)
    have : (0 : ℚ) < c := by linarith
    exact_mod_cast this
  have upper := five_pow_dvd_of_scaled (m := m') (e := e') (d := 4) (n := 2 * c + 1) (by
    push_cast
    linarith)
  have lower := five_pow_dvd_of_scaled (m := m) (e := e) (d := 4) (n := 2 * c - 1) (by
    rw [Nat.cast_sub (by omega)]
    push_cast
    linarith)
  norm_num at upper lower
  omega

/-- A rounded cell below `ceiling` counts the same units of `10 ^ -4` as the cell it was rounded
from. -/
theorem floor_roundCell (finite : parts x = .finite negative m e) (below : magnitude m e < 10 ^ 21)
    {negative' : Bool} {m' : Nat} {e' : Int}
    (rounded : parts (roundCell x) = .finite negative' m' e') :
    ⌊magnitude m' e' * 10 ^ 4 + 1 / 2⌋₊ = ⌊magnitude m e * 10 ^ 4 + 1 / 2⌋₊ := by
  have closer := roundCell_closer finite below rounded
  have cellNonneg := magnitude_nonneg m e
  have roundedNonneg := magnitude_nonneg m' e'
  generalize count : ⌊magnitude m e * 10 ^ 4 + 1 / 2⌋₊ = c at closer ⊢
  have floorLow : (c : ℚ) ≤ magnitude m e * 10 ^ 4 + 1 / 2 := count ▸ Nat.floor_le (by positivity)
  have floorHigh : magnitude m e * 10 ^ 4 + 1 / 2 < c + 1 := count ▸ Nat.lt_floor_add_one _
  have cellHalf : |magnitude m e * 10 ^ 4 - c| ≤ 1 / 2 := abs_le.mpr ⟨by linarith, by linarith⟩
  obtain ⟨roundedLow, roundedHigh⟩ := abs_le.mp (closer.trans cellHalf)
  rw [Nat.floor_eq_iff (by positivity)]
  refine ⟨by linarith, lt_of_le_of_ne (by linarith) fun atHalf => ?_⟩
  have farthest : 1 / 2 ≤ |magnitude m e * 10 ^ 4 - c| :=
    calc (1 / 2 : ℚ) = |magnitude m' e' * 10 ^ 4 - c| := by
          rw [abs_of_nonneg (by linarith)]
          linarith
      _ ≤ _ := closer
  have cellAtHalf : magnitude m e * 10 ^ 4 = c - 1 / 2 := by
    rcases le_abs'.mp farthest with under | beyond
    · linarith
    · linarith
  have roundedAtHalf : magnitude m' e' * 10 ^ 4 = c + 1 / 2 := by linarith
  exact not_straddle_count roundedAtHalf cellAtHalf

theorem roundCell_idempotent (x : Float) : roundCell (roundCell x) = roundCell x := by
  rcases below_or_not x with ⟨negative, m, e, finite, below⟩ | large
  · obtain ⟨m', e', rounded, -⟩ := parts_roundCell_of_below finite below
    rcases lt_or_ge (magnitude m' e') (10 ^ 21) with below' | large'
    · rw [roundCell_of_below rounded below', floor_roundCell finite below rounded,
        ← roundCell_of_below finite below]
    · exact roundCell_of_not_below (large_of_finite rounded large')
  · rw [roundCell_of_not_below large, roundCell_of_not_below large]

theorem roundCell_magnitude_le {y : Float} {nx ny nx' ny' : Bool} {mx my mx' my' : Nat}
    {ex ey ex' ey' : Int} (finiteX : parts x = .finite nx mx ex)
    (finiteY : parts y = .finite ny my ey) (le : magnitude mx ex ≤ magnitude my ey)
    (roundedX : parts (roundCell x) = .finite nx' mx' ex')
    (roundedY : parts (roundCell y) = .finite ny' my' ey') :
    magnitude mx' ex' ≤ magnitude my' ey' := by
  rcases lt_or_ge (magnitude mx ex) (10 ^ 21) with belowX | largeX
  · rcases lt_or_ge (magnitude my ey) (10 ^ 21) with belowY | largeY
    · rw [roundCell_of_below finiteX belowX] at roundedX
      rw [roundCell_of_below finiteY belowY] at roundedY
      have counts : ⌊magnitude mx ex * 10 ^ 4 + 1 / 2⌋₊ ≤ ⌊magnitude my ey * 10 ^ 4 + 1 / 2⌋₊ :=
        Nat.floor_mono (by gcongr)
      obtain ⟨_, sameSign⟩ := nearest_other_sign (by norm_num) roundedY nx
      exact nearest_mono (by norm_num) counts roundedX sameSign
    · obtain ⟨_, _, roundedX', bounded⟩ := parts_roundCell_of_below finiteX belowX
      rw [roundedX] at roundedX'
      obtain ⟨-, rfl, rfl⟩ := Parts.finite.inj roundedX'
      rw [parts_roundCell_of_large finiteY largeY] at roundedY
      obtain ⟨-, rfl, rfl⟩ := Parts.finite.inj roundedY
      exact bounded.trans largeY
  · have largeY := le_trans largeX le
    rw [parts_roundCell_of_large finiteX largeX] at roundedX
    rw [parts_roundCell_of_large finiteY largeY] at roundedY
    obtain ⟨-, rfl, rfl⟩ := Parts.finite.inj roundedX
    obtain ⟨-, rfl, rfl⟩ := Parts.finite.inj roundedY
    exact le

/-- Rounded finite cells are ordered by value as the cells are. Between a positive and a negative
cell this only happens for two zeros, which are their own cells. -/
theorem roundCell_signedMagnitude_le {y : Float} {nx ny : Bool} {mx my mx' my' : Nat}
    {ex ey ex' ey' : Int} (finiteX : parts x = .finite nx mx ex)
    (finiteY : parts y = .finite ny my ey)
    (le : signedMagnitude nx mx ex ≤ signedMagnitude ny my ey)
    (roundedX : parts (roundCell x) = .finite nx mx' ex')
    (roundedY : parts (roundCell y) = .finite ny my' ey') :
    signedMagnitude nx mx' ex' ≤ signedMagnitude ny my' ey' := by
  have nonnegativeX := magnitude_nonneg mx' ex'
  have nonnegativeY := magnitude_nonneg my' ey'
  cases nx <;> cases ny <;> simp only [signedMagnitude_false, signedMagnitude_true] at le ⊢
  case false.false => exact roundCell_magnitude_le finiteX finiteY le roundedX roundedY
  case false.true =>
    have zeroX : mx = 0 := magnitude_eq_zero_iff.mp
      (le_antisymm (by linarith [magnitude_nonneg my ey]) (magnitude_nonneg mx ex))
    have zeroY : my = 0 := magnitude_eq_zero_iff.mp
      (le_antisymm (by linarith [magnitude_nonneg mx ex]) (magnitude_nonneg my ey))
    subst zeroX zeroY
    rw [roundCell_zero finiteX, finiteX] at roundedX
    rw [roundCell_zero finiteY, finiteY] at roundedY
    obtain ⟨-, rfl, rfl⟩ := Parts.finite.inj roundedX
    obtain ⟨-, rfl, rfl⟩ := Parts.finite.inj roundedY
    simp [magnitude]
  case true.false => linarith
  case true.true =>
    exact neg_le_neg
      (roundCell_magnitude_le finiteY finiteX (neg_le_neg_iff.mp le) roundedY roundedX)

theorem parts_ne_nan (number : x.isNaN = false) : parts x ≠ .nan := fun nan => by
  rw [(isNaN_iff x).mpr nan] at number
  cases number

theorem roundCell_isNaN (number : x.isNaN = false) : (roundCell x).isNaN = false := by
  cases original : parts x with
  | nan => exact absurd original (parts_ne_nan number)
  | infinity negative =>
      rw [roundCell_of_infinity original]
      exact number
  | finite negative m e =>
      obtain ⟨m', e', rounded⟩ := parts_roundCell_finite original
      cases nan : (roundCell x).isNaN
      · rfl
      · rw [(isNaN_iff _).mp nan] at rounded
        cases rounded

theorem roundCell_mono {y : Float} (xNumber : x.isNaN = false) (yNumber : y.isNaN = false)
    (le : x ≤ y) : roundCell x ≤ roundCell y := by
  rw [le_iff_toExtended xNumber yNumber] at le
  rw [le_iff_toExtended (roundCell_isNaN xNumber) (roundCell_isNaN yNumber)]
  cases originalX : parts x with
  | nan => exact absurd originalX (parts_ne_nan xNumber)
  | infinity nx =>
      rw [roundCell_of_infinity originalX, originalX]
      rw [originalX] at le
      cases originalY : parts y with
      | nan => exact absurd originalY (parts_ne_nan yNumber)
      | infinity ny =>
          rw [roundCell_of_infinity originalY, originalY]
          rwa [originalY] at le
      | finite ny my ey =>
          obtain ⟨my', ey', roundedY⟩ := parts_roundCell_finite originalY
          rw [roundedY]
          rw [originalY] at le
          cases nx
          · exact absurd le (not_le.mpr (toExtended_finite_lt_top ..))
          · exact bot_le
  | finite nx mx ex =>
      obtain ⟨mx', ex', roundedX⟩ := parts_roundCell_finite originalX
      rw [roundedX]
      rw [originalX] at le
      cases originalY : parts y with
      | nan => exact absurd originalY (parts_ne_nan yNumber)
      | infinity ny =>
          rw [roundCell_of_infinity originalY, originalY]
          rw [originalY] at le
          cases ny
          · exact (toExtended_finite_lt_top ..).le
          · exact absurd le (not_le.mpr (WithBot.bot_lt_coe _))
      | finite ny my ey =>
          obtain ⟨my', ey', roundedY⟩ := parts_roundCell_finite originalY
          rw [roundedY, toExtended_finite_le]
          rw [originalY, toExtended_finite_le] at le
          exact roundCell_signedMagnitude_le originalX originalY le roundedX roundedY

end Cells

/-- Rounding cells to four places is idempotent, keeps a NaN and every zero as they are, commutes
with negation, and is monotone. -/
theorem cell_rounding_laws :
    (∀ x : Float, roundCell (roundCell x) = roundCell x) ∧
      (∀ x : Float, x.isNaN = true → roundCell x = x) ∧
      (∀ x : Float, roundCell (-x) = -roundCell x) ∧
      (∀ (x : Float) (negative : Bool) (e : Int), parts x = .finite negative 0 e →
        roundCell x = x) ∧
      ∀ x y : Float, x.isNaN = false → y.isNaN = false → x ≤ y → roundCell x ≤ roundCell y :=
  ⟨roundCell_idempotent, fun _ nan => roundCell_of_isNaN nan, roundCell_neg,
    fun _ _ _ zero => roundCell_zero zero,
    fun _ _ xNumber yNumber le => roundCell_mono xNumber yNumber le⟩

/-- A NaN cell stays as it is, and rounding keeps `1.23456 ≤ 2.5` in order. -/
theorem rounding_keeps_nan_and_order :
    (0.0 / 0.0 : Float).isNaN = true ∧ roundCell (0.0 / 0.0) = 0.0 / 0.0 ∧
      (1.23456 : Float).isNaN = false ∧ (2.5 : Float).isNaN = false ∧ (1.23456 : Float) ≤ 2.5 ∧
      roundCell 1.23456 ≤ roundCell 2.5 := by
  have nan : (0.0 / 0.0 : Float).isNaN = true := by decide +kernel
  have small : (1.23456 : Float).isNaN = false := by decide +kernel
  have large : (2.5 : Float).isNaN = false := by decide +kernel
  have ordered : (1.23456 : Float) ≤ 2.5 := by decide +kernel
  exact ⟨nan, cell_rounding_laws.2.1 _ nan, small, large, ordered,
    cell_rounding_laws.2.2.2.2 _ _ small large ordered⟩

end MatrixSteps.Places
