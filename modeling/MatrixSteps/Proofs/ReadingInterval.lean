import Mathlib
import MatrixSteps.Proofs.NearestDouble

/-!
The reading interval of a double. A finite positive double `m · 2 ^ e` is the nearest double to
every ratio within half a place of it, or within a quarter place below it when `m` is the least
normal significand above the least exponent, since the double below then has the finer spacing. A
ratio at an end is a tie, which goes to the even significand, so the ends belong to the interval
exactly when `m` is even.

`Shortest.interval` gives the interval in quarter places and `Interval.Holds` reads it on the
rationals. The model's exact comparison `compareScaled` is the order of the rationals
(`compareScaled_eq`), so `inside` tests `Holds` (`inside_iff`). Every ratio the interval holds
rounds to the double (`nearest_of_holds`): the place of the nearest double is `e` and rounding there
gives `m` (`nearest_of_near`), or, just below a least normal significand, the place is one finer
and rounding carries into `m` (`nearest_below_binade`).
-/

namespace MatrixSteps

theorem zpow_toNat_div {b : ℚ} (nonzero : b ≠ 0) (E : Int) :
    b ^ E.toNat / b ^ (-E).toNat = b ^ E := by
  rw [← zpow_natCast, ← zpow_natCast, ← zpow_sub₀ nonzero]
  congr 1
  omega

/-- The exact value `digits · 10 ^ exponent`. -/
def Decimal.toRat (d : Decimal) : ℚ := d.digits * 10 ^ d.exponent

theorem Decimal.toRat_eq_div (d : Decimal) :
    d.toRat =
      ((d.digits * 10 ^ d.exponent.toNat : Nat) : ℚ) / (10 ^ (-d.exponent).toNat : Nat) := by
  rw [toRat, ← zpow_toNat_div (by norm_num : (10 : ℚ) ≠ 0) d.exponent]
  push_cast
  ring

namespace Shortest

/-- The interval holds `q`: `q` lies between its ends, counted in quarter places `2 ^ (e - 2)`, and
on an end only when the ends belong to the interval. -/
def Interval.Holds (i : Interval) (e : Int) (q : ℚ) : Prop :=
  ((i.low : ℚ) * 2 ^ (e - 2) < q ∨ i.closed = true ∧ q = (i.low : ℚ) * 2 ^ (e - 2)) ∧
    (q < (i.high : ℚ) * 2 ^ (e - 2) ∨ i.closed = true ∧ q = (i.high : ℚ) * 2 ^ (e - 2))

theorem compareScaled_eq (a : Nat) (t : Int) (b : Nat) (k : Int) :
    compareScaled a t b k = compare ((a : ℚ) * 10 ^ t) (b * 2 ^ k) := by
  have scale : (0 : ℚ) < 10 ^ (-t).toNat * 2 ^ (-k).toNat := by positivity
  have left : ((a * 10 ^ t.toNat * 2 ^ (-k).toNat : Nat) : ℚ) =
      a * 10 ^ t * (10 ^ (-t).toNat * 2 ^ (-k).toNat) := by
    rw [← zpow_toNat_div (by norm_num : (10 : ℚ) ≠ 0) t]
    push_cast
    field_simp
  have right : ((b * 2 ^ k.toNat * 10 ^ (-t).toNat : Nat) : ℚ) =
      b * 2 ^ k * (10 ^ (-t).toNat * 2 ^ (-k).toNat) := by
    rw [← zpow_toNat_div two_ne_zero k]
    push_cast
    field_simp
  rw [← cmp_eq_compare, ← cmp_mul_pos_right scale, ← left, ← right, Nat.strictMono_cast.cmp_map_eq,
    cmp_eq_compare]
  rfl

theorem inside_iff (m : Nat) (e : Int) (c : Nat) (t : Int) :
    inside m e c t = true ↔ (interval m e).Holds e (c * 10 ^ t) := by
  simp only [inside, Interval.Holds, compareScaled_eq, Bool.and_eq_true, Bool.or_eq_true,
    beq_iff_eq, compare_gt_iff_gt, compare_eq_iff_eq, compare_lt_iff_lt]

theorem interval_low_div {m : Nat} (nonzero : 0 < m) (e : Int) :
    ((interval m e).low : ℚ) / 4 =
      if m = 2 ^ 52 ∧ -1074 < e then (m : ℚ) - 1 / 4 else (m : ℚ) - 1 / 2 := by
  have least : Binary.leastExponent = -1074 := rfl
  have bits : Binary.fractionBits = 52 := rfl
  by_cases narrow : m = 2 ^ 52 ∧ -1074 < e
  · have : (m == 2 ^ Binary.fractionBits && decide (e > Binary.leastExponent)) = true := by
      simp [bits, least, narrow.1, narrow.2]
    simp only [interval, this, if_true, if_pos narrow]
    push_cast [Nat.cast_sub (show 1 ≤ 4 * m by omega)]
    ring
  · have : (m == 2 ^ Binary.fractionBits && decide (e > Binary.leastExponent)) = false := by
      simp only [bits, least, Bool.and_eq_false_iff, beq_eq_false_iff_ne, decide_eq_false_iff_not]
      omega
    simp only [interval, this, Bool.false_eq_true, if_false, if_neg narrow]
    push_cast [Nat.cast_sub (show 2 ≤ 4 * m by omega)]
    ring

theorem interval_high_div (m : Nat) (e : Int) : ((interval m e).high : ℚ) / 4 = m + 1 / 2 := by
  simp only [interval]
  push_cast
  ring

theorem interval_closed (m : Nat) (e : Int) : (interval m e).closed = true ↔ m % 2 = 0 := by
  simp [interval]

end Shortest

namespace Binary

open Shortest

theorem half_of_twice {rem divisor : Nat} (positive : 0 < divisor) (exact : 2 * rem = divisor) :
    (rem : ℚ) / divisor = 1 / 2 := by
  have divisorQ : (0 : ℚ) < divisor := by exact_mod_cast positive
  rw [div_eq_iff divisorQ.ne']
  have : ((2 * rem : Nat) : ℚ) = divisor := by exact_mod_cast exact
  push_cast at this
  linarith

/-- Rounding a quotient with its remainder gives `M` when it is within half of `M`, and at exactly
half only for an even `M`. -/
theorem roundEven_eq_of_near {quotient rem divisor M : Nat} (positive : 0 < divisor)
    (below : rem < divisor) (near : |(quotient : ℚ) + rem / divisor - M| ≤ 1 / 2)
    (tie : |(quotient : ℚ) + rem / divisor - M| = 1 / 2 → M % 2 = 0) :
    roundEven quotient rem divisor = M := by
  have divisorQ : (0 : ℚ) < divisor := by exact_mod_cast positive
  have fraction : (rem : ℚ) / divisor < 1 := (div_lt_one divisorQ).mpr (by exact_mod_cast below)
  have nonnegative : (0 : ℚ) ≤ rem / divisor := by positivity
  have twice : (2 * rem : ℚ) / divisor = 2 * (rem / divisor) := by ring
  obtain ⟨low, high⟩ := abs_le.mp near
  have candidates : M = quotient ∨ M = quotient + 1 := by
    have above : (quotient : ℚ) < M + 1 := by linarith
    have under : (M : ℚ) < quotient + 2 := by linarith
    have above' : quotient < M + 1 := by exact_mod_cast above
    have under' : M < quotient + 2 := by exact_mod_cast under
    omega
  unfold roundEven
  rcases candidates with rfl | rfl
  · have half : 2 * rem ≤ divisor := by
      have : (2 * rem : ℚ) ≤ divisor := by
        rw [← div_le_one divisorQ, twice]
        linarith
      exact_mod_cast this
    by_cases exact : 2 * rem = divisor
    · have even := tie (by rw [half_of_twice positive exact]; norm_num)
      simp [exact, even]
    · rw [if_pos (by omega)]
  · have half : divisor ≤ 2 * rem := by
      have : (divisor : ℚ) ≤ 2 * rem := by
        rw [← one_le_div divisorQ, twice]
        push_cast at low
        linarith
      exact_mod_cast this
    by_cases exact : 2 * rem = divisor
    · have even := tie (by push_cast; rw [half_of_twice positive exact]; norm_num)
      have odd : quotient % 2 ≠ 0 := by omega
      simp [exact, odd]
    · rw [if_neg (by omega), if_pos (by omega)]

theorem placeExponent_eq {num den : Nat} (positive : 0 < den) (nonzero : 0 < num) {E : Int}
    (low : -1074 ≤ E) (bounded : (num : ℚ) / den * 2 ^ (-E) < 2 ^ 53)
    (spread : E = -1074 ∨ 2 ^ 52 ≤ (num : ℚ) / den * 2 ^ (-E)) : placeExponent num den = E := by
  obtain ⟨low₀, bounded₀, spread₀⟩ := placeExponent_spec num positive
  have spread₀ := spread₀ nonzero
  generalize placeExponent num den = E₀ at *
  have fewer : ∀ {A B : Int}, A < B → 2 ^ 52 ≤ (num : ℚ) / den * 2 ^ (-B) →
      2 ^ 53 ≤ (num : ℚ) / den * 2 ^ (-A) := by
    intro A B lt wide
    have gap : (2 : ℚ) ≤ 2 ^ (B - A) := by
      calc (2 : ℚ) = 2 ^ (1 : Int) := by norm_num
        _ ≤ 2 ^ (B - A) := zpow_le_zpow_right₀ (by norm_num) (by omega)
    calc (2 : ℚ) ^ 53 = 2 ^ 52 * 2 := by norm_num
      _ ≤ (num : ℚ) / den * 2 ^ (-B) * 2 ^ (B - A) := by gcongr
      _ = (num : ℚ) / den * 2 ^ (-A) := by
          rw [mul_assoc, ← zpow_add₀ two_ne_zero]
          ring_nf
  rcases lt_trichotomy E₀ E with lt | same | gt
  · rcases spread with least | wide
    · omega
    · exact absurd (fewer lt wide) (not_le.mpr bounded₀)
  · exact same
  · rcases spread₀ with least | wide
    · omega
    · exact absurd (fewer gt wide) (not_le.mpr bounded)

theorem placed_eq {num den M : Nat} {E : Int} (positive : 0 < den)
    (place : placeExponent num den = E) (near : |(num : ℚ) / den * 2 ^ (-E) - M| ≤ 1 / 2)
    (tie : |(num : ℚ) / den * 2 ^ (-E) - M| = 1 / 2 → M % 2 = 0) : placed num den = (M, E) := by
  obtain ⟨divisor, below, value⟩ := scaledDivision_value num positive E
  rw [← value] at near tie
  simp only [placed, place]
  rw [roundEven_eq_of_near divisor below near tie]

theorem scaled_quarters (k : ℚ) (e : Int) : k * 2 ^ (e - 2) * 2 ^ (-e) = k / 4 := by
  rw [mul_assoc, ← zpow_add₀ two_ne_zero]
  ring_nf
  norm_num

theorem holds_scaled {i : Interval} {e : Int} {q : ℚ} : i.Holds e q ↔
    (((i.low : ℚ) / 4 < q * 2 ^ (-e) ∨ i.closed = true ∧ q * 2 ^ (-e) = i.low / 4) ∧
      (q * 2 ^ (-e) < i.high / 4 ∨ i.closed = true ∧ q * 2 ^ (-e) = i.high / 4)) := by
  have place : (0 : ℚ) < 2 ^ (-e) := by positivity
  rw [Interval.Holds, ← scaled_quarters (i.low : ℚ) e, ← scaled_quarters (i.high : ℚ) e,
    mul_lt_mul_iff_left₀ place, mul_lt_mul_iff_left₀ place, mul_left_inj' place.ne',
    mul_left_inj' place.ne']

/-- Within a quarter place below `2 ^ 52` places of `2 ^ e`, the ratio's place is one finer and it
rounds up to `2 ^ 53` of them: the nearest double starts the binade at `e`. -/
theorem nearest_below_binade (negative : Bool) {num den : Nat} {e : Int} (positive : 0 < den)
    (numerator : 0 < num) (aboveLeast : -1074 < e) (top : e ≤ 971)
    (lowEnd : (2 : ℚ) ^ 52 - 1 / 4 ≤ (num : ℚ) / den * 2 ^ (-e))
    (below : (num : ℚ) / den * 2 ^ (-e) < 2 ^ 52) :
    parts (nearest negative num den) = .finite negative (2 ^ 52) e := by
  have doubled : (num : ℚ) / den * 2 ^ (-(e - 1)) = 2 * ((num : ℚ) / den * 2 ^ (-e)) := by
    rw [show -(e - 1) = 1 + -e by ring, zpow_add₀ two_ne_zero]
    ring
  have place : placeExponent num den = e - 1 :=
    placeExponent_eq positive numerator (by omega) (by rw [doubled]; linarith)
      (.inr (by rw [doubled]; linarith))
  have near : |(num : ℚ) / den * 2 ^ (-(e - 1)) - ((2 ^ 53 : Nat) : ℚ)| ≤ 1 / 2 := by
    rw [doubled, abs_le]
    push_cast
    constructor <;> linarith
  rw [nearest_eq_carried, placed_eq positive place near (fun _ => by decide),
    parts_carried_eq negative le_rfl (by omega), if_pos rfl, if_neg (by omega), sub_add_cancel]

/-- At the place `e` of a double in range, a ratio within half a place of its significand, and at
exactly half only for an even one, rounds to that double. -/
theorem nearest_of_near (negative : Bool) {num den m : Nat} {e : Int} (positive : 0 < den)
    (numerator : 0 < num) (range : InRange m e)
    (spread : e = -1074 ∨ 2 ^ 52 ≤ (num : ℚ) / den * 2 ^ (-e))
    (near : |(num : ℚ) / den * 2 ^ (-e) - m| ≤ 1 / 2)
    (tie : |(num : ℚ) / den * 2 ^ (-e) - m| = 1 / 2 → m % 2 = 0) :
    parts (nearest negative num den) = .finite negative m e := by
  have small := range.small
  have top : e ≤ 971 := by
    rcases range with ⟨-, least⟩ | ⟨-, -, -, high⟩
    · rw [least]
      decide
    · exact high
  have place : placeExponent num den = e := by
    have : (m : ℚ) + 1 ≤ 2 ^ 53 := by exact_mod_cast small
    exact placeExponent_eq positive numerator range.least_le
      (by linarith [(abs_le.mp near).2]) spread
  rw [nearest_eq_carried, placed_eq positive place near tie,
    parts_carried_eq negative small.le range.least_le, if_neg (by omega), if_neg (by omega)]
  split_ifs with subnormal
  · rcases range with ⟨-, least⟩ | ⟨normal, -⟩
    · rw [least]
    · omega
  · rfl

theorem nearest_of_holds (negative : Bool) {num den m : Nat} {e : Int} (positive : 0 < den)
    (range : InRange m e) (nonzero : 0 < m) (holds : (interval m e).Holds e (num / den)) :
    parts (nearest negative num den) = .finite negative m e := by
  have leastLe : -1074 ≤ e := range.least_le
  have mQ : (1 : ℚ) ≤ m := by exact_mod_cast nonzero
  rw [holds_scaled, interval_low_div nonzero, interval_high_div, interval_closed] at holds
  set w := (num : ℚ) / den * 2 ^ (-e) with scaled
  obtain ⟨above, under⟩ := holds
  have lowest : (m : ℚ) - 1 / 2 ≤ w := by
    split_ifs at above <;> rcases above with above | ⟨-, onEnd⟩ <;> linarith
  have highest : w ≤ m + 1 / 2 := by
    rcases under with under | ⟨-, onEnd⟩ <;> linarith
  have numerator : 0 < num := by
    rcases Nat.eq_zero_or_pos num with zero | nonzero
    · rw [zero] at scaled
      simp at scaled
      linarith
    · exact nonzero
  by_cases lowered : m = 2 ^ 52 ∧ -1074 < e ∧ w < 2 ^ 52
  · obtain ⟨rfl, aboveLeast, below⟩ := lowered
    rw [if_pos ⟨rfl, aboveLeast⟩] at above
    have lowEnd : (2 : ℚ) ^ 52 - 1 / 4 ≤ w := by
      rcases above with above | ⟨-, onEnd⟩
      · push_cast at above
        linarith
      · push_cast at onEnd
        linarith
    have top : e ≤ 971 := by
      rcases range with ⟨small, -⟩ | ⟨-, -, -, high⟩
      · norm_num at small
      · exact high
    exact nearest_below_binade negative positive numerator aboveLeast top lowEnd below
  · have spread : e = -1074 ∨ 2 ^ 52 ≤ w := by
      by_cases least : e = -1074
      · exact .inl least
      · right
        rcases range with ⟨-, rfl⟩ | ⟨normal, -, -, -⟩
        · exact absurd rfl least
        · by_cases first : m = 2 ^ 52
          · subst first
            by_contra below
            exact lowered ⟨rfl, by omega, not_le.mp below⟩
          · have : (2 : ℚ) ^ 52 + 1 ≤ m := by exact_mod_cast (show 2 ^ 52 + 1 ≤ m by omega)
            linarith
    have tie : |w - m| = 1 / 2 → m % 2 = 0 := by
      intro half
      rcases abs_eq (by norm_num : (0 : ℚ) ≤ 1 / 2) |>.mp half with high | low
      · rcases under with under | ⟨even, -⟩
        · linarith
        · exact even
      · split_ifs at above with narrow
        · rcases above with above | ⟨-, onEnd⟩ <;> linarith
        · rcases above with above | ⟨even, -⟩
          · linarith
          · exact even
    exact nearest_of_near negative positive numerator range spread
      (abs_le.mpr ⟨by linarith, by linarith⟩) tie

end Binary

/-- A decimal whose value the reading interval of a double holds reads as that double, with the sign
asked for. -/
theorem Decimal.toFloat_of_holds (negative : Bool) {d : Decimal} {m : Nat} {e : Int}
    (range : Binary.InRange m e) (nonzero : 0 < m)
    (holds : (Shortest.interval m e).Holds e d.toRat) :
    Binary.parts (d.toFloat negative) = .finite negative m e := by
  rw [Decimal.toRat_eq_div] at holds
  exact Binary.nearest_of_holds negative (by positivity) range nonzero holds

end MatrixSteps
