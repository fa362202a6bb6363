import Mathlib
import MatrixSteps.Proofs.WholeDecimal
import MatrixSteps.Proofs.FloatOrder

/-!
The double nearest to a ratio, exactly.

`Binary.nearest` chooses a last place `2 ^ E` for `num / den` (`placeExponent_spec`): the ratio has
53 bits above that place, or the place is the least one. It then rounds the ratio to a whole number
of places, a tie going to the even one, which is a nearest whole number (`roundEven_nearest`).
Every double below the ratio's binade lies below a multiple of `2 ^ E` that the rounding could have
chosen, so the result is a closest double to the ratio (`nearest_closest`).
-/

namespace MatrixSteps.Binary

/-! ### Dividing at a place -/

theorem two_pow_toNat_div (E : Int) : (2 : ℚ) ^ (-E).toNat / 2 ^ E.toNat = 2 ^ (-E) := by
  rw [← zpow_natCast, ← zpow_natCast, ← zpow_sub₀ two_ne_zero]
  congr 1
  omega

/-- The quotient, remainder and divisor at the place `2 ^ E` read the ratio in units of that
place. -/
theorem scaledDivision_value (num : Nat) {den : Nat} (positive : 0 < den) (E : Int) :
    0 < (scaledDivision num den E).2.2 ∧
      (scaledDivision num den E).2.1 < (scaledDivision num den E).2.2 ∧
      ((scaledDivision num den E).1 : ℚ) +
          (scaledDivision num den E).2.1 / (scaledDivision num den E).2.2 =
        num / den * 2 ^ (-E) := by
  have divisor : 0 < den * 2 ^ E.toNat := Nat.mul_pos positive (Nat.two_pow_pos _)
  refine ⟨divisor, Nat.mod_lt _ divisor, ?_⟩
  simp only [scaledDivision]
  generalize top : num * 2 ^ (-E).toNat = t
  generalize bottom : den * 2 ^ E.toNat = b at divisor
  have bottomQ : (b : ℚ) ≠ 0 := by exact_mod_cast divisor.ne'
  have value : (t : ℚ) / b = num / den * 2 ^ (-E) := by
    rw [← top, ← bottom, ← two_pow_toNat_div E]
    push_cast
    field_simp
  have split : ((t / b : Nat) : ℚ) * b + (t % b : Nat) = t := by
    exact_mod_cast (by rw [Nat.mul_comm]; exact Nat.div_add_mod t b)
  rw [← value, ← split, add_div, mul_div_cancel_right₀ _ bottomQ]

/-! ### Rounding to a whole number of places -/

section RoundEven

variable (quotient : Nat) {rem divisor : Nat}

theorem roundEven_bounds (rem divisor : Nat) : quotient ≤ roundEven quotient rem divisor ∧
    roundEven quotient rem divisor ≤ quotient + 1 := by
  unfold roundEven
  split_ifs <;> omega

theorem roundEven_error (positive : 0 < divisor) (below : rem < divisor) :
    |(roundEven quotient rem divisor : ℚ) - (quotient + rem / divisor)| ≤ 1 / 2 := by
  have divisorQ : (0 : ℚ) < divisor := by exact_mod_cast positive
  have fraction : (rem : ℚ) / divisor < 1 := by
    rw [div_lt_one divisorQ]
    exact_mod_cast below
  have nonnegative : (0 : ℚ) ≤ rem / divisor := by positivity
  unfold roundEven
  split_ifs with low high even
  · have half : (rem : ℚ) / divisor < 1 / 2 := by
      rw [div_lt_iff₀ divisorQ]
      have : ((2 * rem : Nat) : ℚ) < divisor := by exact_mod_cast low
      push_cast at this
      linarith
    rw [abs_le]
    constructor <;> linarith
  · have half : 1 / 2 < (rem : ℚ) / divisor := by
      rw [lt_div_iff₀ divisorQ]
      have : (divisor : ℚ) < ((2 * rem : Nat) : ℚ) := by exact_mod_cast high
      push_cast at this
      linarith
    push_cast
    rw [abs_le]
    constructor <;> linarith
  all_goals
    have tie : (rem : ℚ) / divisor = 1 / 2 := by
      rw [div_eq_iff divisorQ.ne']
      have : ((2 * rem : Nat) : ℚ) = divisor := by exact_mod_cast (by omega : 2 * rem = divisor)
      push_cast at this
      linarith
    push_cast
    rw [tie, abs_le]
    constructor <;> linarith

theorem roundEven_nearest (positive : 0 < divisor) (below : rem < divisor) (k : ℤ) :
    |(roundEven quotient rem divisor : ℚ) - (quotient + rem / divisor)| ≤
      |(k : ℚ) - (quotient + rem / divisor)| := by
  have error := roundEven_error quotient positive below
  by_cases same : (roundEven quotient rem divisor : ℤ) = k
  · rw [← same]
    rfl
  · have apart : (1 : ℚ) ≤ |(roundEven quotient rem divisor : ℚ) - k| := by
      have whole : (1 : ℤ) ≤ |(roundEven quotient rem divisor : ℤ) - k| := by
        have := abs_pos.mpr (sub_ne_zero.mpr same)
        omega
      exact_mod_cast whole
    have triangle := abs_sub_le (roundEven quotient rem divisor : ℚ) (quotient + rem / divisor) k
    rw [abs_sub_comm (quotient + rem / divisor : ℚ)] at triangle
    linarith

theorem roundEven_eq_zero (positive : 0 < divisor) (nothing : (quotient : ℚ) + rem / divisor = 0) :
    roundEven quotient rem divisor = 0 := by
  have remainderNonneg : (0 : ℚ) ≤ rem / divisor := by positivity
  have quotientNonneg : (0 : ℚ) ≤ quotient := by positivity
  have quotientZero : quotient = 0 := by
    have : (quotient : ℚ) = 0 := by linarith
    exact_mod_cast this
  have remainderZero : rem = 0 := by
    have : (rem : ℚ) / divisor = 0 := by linarith
    have : (rem : ℚ) = 0 := by
      simpa [(show (divisor : ℚ) ≠ 0 by positivity)] using this
    exact_mod_cast this
  simp [roundEven, quotientZero, remainderZero, positive]

end RoundEven

/-! ### The last place -/

theorem scaledDivision_floor (num : Nat) {den : Nat} (positive : 0 < den) (E : Int) :
    ((scaledDivision num den E).1 : ℚ) ≤ num / den * 2 ^ (-E) ∧
      (num : ℚ) / den * 2 ^ (-E) < (scaledDivision num den E).1 + 1 := by
  obtain ⟨divisor, below, value⟩ := scaledDivision_value num positive E
  have divisorQ : (0 : ℚ) < (scaledDivision num den E).2.2 := by exact_mod_cast divisor
  have fraction : ((scaledDivision num den E).2.1 : ℚ) / (scaledDivision num den E).2.2 < 1 := by
    rw [div_lt_one divisorQ]
    exact_mod_cast below
  have nonnegative : (0 : ℚ) ≤ (scaledDivision num den E).2.1 / (scaledDivision num den E).2.2 := by
    positivity
  constructor <;> linarith

theorem guess_bounds {num den : Nat} (nonzero : 0 < num) (positive : 0 < den) :
    2 ^ 52 < (num : ℚ) / den * 2 ^ (-((num.log2 : Int) - den.log2 - 53)) ∧
      (num : ℚ) / den * 2 ^ (-((num.log2 : Int) - den.log2 - 53)) < 2 ^ 54 := by
  have numLow : 2 ^ num.log2 ≤ num := Nat.log2_self_le (by omega)
  have numHigh : num < 2 ^ (num.log2 + 1) := Nat.lt_log2_self
  have denLow : 2 ^ den.log2 ≤ den := Nat.log2_self_le (by omega)
  have denHigh : den < 2 ^ (den.log2 + 1) := Nat.lt_log2_self
  have scale : (2 : ℚ) ^ (-((num.log2 : Int) - den.log2 - 53)) =
      2 ^ 53 * 2 ^ den.log2 / 2 ^ num.log2 := by
    rw [← pow_add, ← zpow_natCast, ← zpow_natCast, ← zpow_sub₀ two_ne_zero]
    congr 1
    push_cast
    ring
  rw [scale]
  have numLowQ : (2 : ℚ) ^ num.log2 ≤ num := by exact_mod_cast numLow
  have numHighQ : (num : ℚ) < 2 * 2 ^ num.log2 := by
    have : (num : ℚ) < ((2 ^ (num.log2 + 1) : Nat) : ℚ) := by exact_mod_cast numHigh
    rw [pow_succ] at this
    push_cast at this
    linarith
  have denLowQ : (2 : ℚ) ^ den.log2 ≤ den := by exact_mod_cast denLow
  have denHighQ : (den : ℚ) < 2 * 2 ^ den.log2 := by
    have : (den : ℚ) < ((2 ^ (den.log2 + 1) : Nat) : ℚ) := by exact_mod_cast denHigh
    rw [pow_succ] at this
    push_cast at this
    linarith
  have denQ : (0 : ℚ) < den := by exact_mod_cast positive
  have numPow : (0 : ℚ) < 2 ^ num.log2 := by positivity
  have denPow : (0 : ℚ) < 2 ^ den.log2 := by positivity
  constructor
  · rw [div_mul_div_comm, lt_div_iff₀ (by positivity)]
    nlinarith
  · rw [div_mul_div_comm, div_lt_iff₀ (by positivity)]
    nlinarith

theorem ratio_scaled_succ (t : ℚ) (E : Int) : t * 2 ^ (-(E + 1)) = t * 2 ^ (-E) / 2 := by
  rw [neg_add, zpow_add₀ two_ne_zero, zpow_neg_one]
  ring

/-- The last place of the double nearest to `num / den`: it is never below the least one, the ratio
has fewer than 53 bits above it, and at least 53 unless it is the least place. -/
theorem placeExponent_spec (num : Nat) {den : Nat} (positive : 0 < den) :
    -1074 ≤ placeExponent num den ∧
      (num : ℚ) / den * 2 ^ (-placeExponent num den) < 2 ^ 53 ∧
      (0 < num → placeExponent num den = -1074 ∨
        2 ^ 52 ≤ (num : ℚ) / den * 2 ^ (-placeExponent num den)) := by
  have least : leastExponent = -1074 := rfl
  unfold placeExponent
  simp only [least]
  generalize guessed : (num.log2 : Int) - den.log2 - 53 = g
  generalize corrected : (if (scaledDivision num den g).1 < 2 ^ 53 then g else g + 1) = E₀
  have placed : 0 < num → 2 ^ 52 ≤ (num : ℚ) / den * 2 ^ (-E₀) ∧
      (num : ℚ) / den * 2 ^ (-E₀) < 2 ^ 53 := by
    intro nonzero
    obtain ⟨low, high⟩ := guess_bounds nonzero positive
    rw [guessed] at low high
    obtain ⟨floorLow, floorHigh⟩ := scaledDivision_floor num positive g
    rw [← corrected]
    split_ifs with narrow
    · have narrowQ : ((scaledDivision num den g).1 : ℚ) + 1 ≤ 2 ^ 53 := by
        exact_mod_cast narrow
      constructor <;> linarith
    · have wideQ : (2 : ℚ) ^ 53 ≤ (scaledDivision num den g).1 := by
        exact_mod_cast Nat.not_lt.mp narrow
      rw [ratio_scaled_succ]
      constructor <;> linarith
  have bounded : (num : ℚ) / den * 2 ^ (-E₀) < 2 ^ 53 := by
    rcases Nat.eq_zero_or_pos num with zero | nonzero
    · simp [zero]
    · exact (placed nonzero).2
  refine ⟨le_max_right _ _, ?_, fun nonzero => ?_⟩
  · rcases le_total (-1074) E₀ with above | below
    · rw [max_eq_left above]
      exact bounded
    · rw [max_eq_right below]
      calc (num : ℚ) / den * 2 ^ (-(-1074 : Int))
          ≤ (num : ℚ) / den * 2 ^ (-E₀) := by
            gcongr
            · norm_num
        _ < 2 ^ 53 := bounded
  · rcases le_total (-1074) E₀ with above | below
    · rw [max_eq_left above]
      exact .inr (placed nonzero).1
    · exact .inl (max_eq_right below)

/-! ### The bits of the result -/

/-- The rounded ratio in places, and the place. -/
def placed (num den : Nat) : Nat × Int :=
  let E := placeExponent num den
  let d := scaledDivision num den E
  (roundEven d.1 d.2.1 d.2.2, E)

/-- The double with `R` places of `2 ^ E` and the given sign: a significand of 54 bits carries into
the next place, and a place beyond the largest exponent gives an infinity. -/
def carried (negative : Bool) (R : Nat) (E : Int) : Float :=
  let (significand, exponent) := if R == 2 ^ 53 then (2 ^ 52, E + 1) else (R, E)
  if exponent > 971 then Float.ofBits (infinityBits negative)
  else Float.ofBits (encode negative significand exponent)

theorem nearest_eq_carried (negative : Bool) (num den : Nat) :
    nearest negative num den = carried negative (placed num den).1 (placed num den).2 := rfl

theorem decode_encode_subnormal (negative : Bool) {m : Nat} (small : m < 2 ^ 52) (e : Int) :
    decode (encode negative m e) = .finite negative m leastExponent := by
  have fields :
      (encode negative m e).toNat = (if negative then 2 ^ 63 else 0) + 0 * 2 ^ 52 + m := by
    unfold encode
    rw [if_pos (show m < 2 ^ fractionBits from small)]
    apply toNat_toUInt64
    split <;> omega
  rw [decode_of_fields fields (by decide) small, if_pos rfl]

theorem decode_infinityBits (negative : Bool) :
    decode (infinityBits negative) = .infinity negative := by
  cases negative <;> rfl

/-- The parts of the double built from `R ≤ 2 ^ 53` places of `2 ^ E`: a significand of 54 bits
carries into the next place, one below `2 ^ 52` is read at the least exponent, and an exponent
beyond the largest one gives an infinity. -/
theorem parts_carried_eq (negative : Bool) {R : Nat} {E : Int} (atMost : R ≤ 2 ^ 53)
    (low : -1074 ≤ E) :
    parts (carried negative R E) =
      if R = 2 ^ 53 then
        (if E + 1 > 971 then .infinity negative else .finite negative (2 ^ 52) (E + 1))
      else if E > 971 then .infinity negative
      else if R < 2 ^ 52 then .finite negative R leastExponent
      else .finite negative R E := by
  unfold carried
  by_cases carry : R = 2 ^ 53
  · subst carry
    simp only [beq_self_eq_true, if_true]
    split_ifs with overflow
    · rw [parts_ofBits, decode_infinityBits]
    · rw [parts_ofBits, decode_encode_normal negative ⟨le_refl _, by decide, by omega, by omega⟩]
  · have noCarry : (R == 2 ^ 53) = false := by simpa using carry
    simp only [noCarry, Bool.false_eq_true, if_false, if_neg carry]
    split_ifs with overflow small
    · rw [parts_ofBits, decode_infinityBits]
    · rw [parts_ofBits, decode_encode_subnormal negative small]
    · rw [parts_ofBits, decode_encode_normal negative ⟨by omega, by omega, low, by omega⟩]

/-- A finite double built from `R ≤ 2 ^ 53` places of `2 ^ E` has the sign asked for and magnitude
`R · 2 ^ E`, provided a significand below 53 bits sits at the least place or is zero. -/
theorem parts_carried {negative negative' : Bool} {R m : Nat} {E e : Int} (atMost : R ≤ 2 ^ 53)
    (low : -1074 ≤ E) (tiny : R < 2 ^ 52 → E = -1074 ∨ R = 0)
    (result : parts (carried negative R E) = .finite negative' m e) :
    negative' = negative ∧ m < 2 ^ 53 ∧ -1074 ≤ e ∧ magnitude m e = R * 2 ^ E := by
  rw [parts_carried_eq negative atMost low] at result
  split_ifs at result with carry overflow overflow small
  · obtain ⟨rfl, rfl, rfl⟩ := Parts.finite.inj result
    refine ⟨rfl, by decide, by omega, ?_⟩
    rw [carry, magnitude, zpow_add₀ two_ne_zero]
    push_cast
    ring
  · obtain ⟨rfl, rfl, rfl⟩ := Parts.finite.inj result
    refine ⟨rfl, by omega, by decide, ?_⟩
    rcases tiny small with least | zero
    · rw [least]
      rfl
    · simp [magnitude, zero]
  · obtain ⟨rfl, rfl, rfl⟩ := Parts.finite.inj result
    exact ⟨rfl, by omega, low, rfl⟩

theorem parts_carried_not (negative : Bool) {R : Nat} {E : Int} (atMost : R ≤ 2 ^ 53)
    (low : -1074 ≤ E) : parts (carried (!negative) R E) = (parts (carried negative R E)).neg := by
  rw [parts_carried_eq _ atMost low, parts_carried_eq _ atMost low]
  split_ifs <;> rfl

theorem parts_carried_finite (negative : Bool) {R : Nat} {E : Int} (atMost : R ≤ 2 ^ 53)
    (low : -1074 ≤ E) (fits : E < 971) :
    ∃ m e, parts (carried negative R E) = .finite negative m e := by
  rw [parts_carried_eq negative atMost low]
  split_ifs <;> first | omega | exact ⟨_, _, rfl⟩

/-! ### The nearest double -/

theorem distance_in_places (a t : ℚ) (E : Int) : |a * 2 ^ E - t| = |a - t * 2 ^ (-E)| * 2 ^ E := by
  have place : (0 : ℚ) < 2 ^ E := by positivity
  rw [← abs_of_pos place, ← abs_mul, abs_of_pos place, sub_mul, mul_assoc, zpow_neg,
    inv_mul_cancel₀ place.ne', mul_one]

/-- The ratio rounded at its last place `2 ^ E`: at most `2 ^ 53` places, with fewer than 52 bits
only at the least place or for zero, and no whole number of places closer to the ratio. -/
theorem placed_spec (num : Nat) {den : Nat} (positive : 0 < den) :
    (placed num den).1 ≤ 2 ^ 53 ∧ -1074 ≤ (placed num den).2 ∧
      ((placed num den).1 < 2 ^ 52 → (placed num den).2 = -1074 ∨ (placed num den).1 = 0) ∧
      (num = 0 ∨ (placed num den).2 = -1074 ∨
        2 ^ 52 ≤ (num : ℚ) / den * 2 ^ (-(placed num den).2)) ∧
      ∀ k : ℤ, |((placed num den).1 : ℚ) * 2 ^ (placed num den).2 - num / den| ≤
        |(k : ℚ) * 2 ^ (placed num den).2 - num / den| := by
  obtain ⟨low, bounded, spread⟩ := placeExponent_spec num positive
  obtain ⟨divisor, below, value⟩ := scaledDivision_value num positive (placeExponent num den)
  obtain ⟨floorLow, floorHigh⟩ := scaledDivision_floor num positive (placeExponent num den)
  have closest := roundEven_nearest (scaledDivision num den (placeExponent num den)).1 divisor below
  have bounds := roundEven_bounds (scaledDivision num den (placeExponent num den)).1
    (scaledDivision num den (placeExponent num den)).2.1
    (scaledDivision num den (placeExponent num den)).2.2
  have spread' : num = 0 ∨ placeExponent num den = -1074 ∨
      2 ^ 52 ≤ (num : ℚ) / den * 2 ^ (-placeExponent num den) := by
    rcases Nat.eq_zero_or_pos num with zero | nonzero
    · exact .inl zero
    · exact .inr (spread nonzero)
  rw [value] at closest
  dsimp only [placed]
  generalize placeExponent num den = E at *
  generalize scaledDivision num den E = division at *
  obtain ⟨q, rem, d⟩ := division
  dsimp only at *
  generalize rounded : roundEven q rem d = R at *
  have quotientBelow : q < 2 ^ 53 := by
    have : (q : ℚ) < 2 ^ 53 := lt_of_le_of_lt floorLow bounded
    exact_mod_cast this
  refine ⟨by omega, low, fun small => ?_, spread', fun k => ?_⟩
  · rcases spread' with zero | least | wide
    · subst zero
      right
      rw [← rounded]
      exact roundEven_eq_zero q divisor (by simpa using value)
    · exact .inl least
    · have : (2 : ℚ) ^ 52 < q + 1 := lt_of_le_of_lt wide floorHigh
      have : 2 ^ 52 < q + 1 := by exact_mod_cast this
      omega
  · rw [distance_in_places, distance_in_places]
    exact mul_le_mul_of_nonneg_right (closest k) (by positivity)

/-- The finite double nearest to `num / den` has the sign asked for, and is a whole number of places
of a last place `2 ^ E` that no whole number of places is closer than. The ratio is zero, or the
place is the least one, or the ratio has at least 52 bits above the place. -/
theorem nearest_spec {negative negative' : Bool} {num den m : Nat} {e : Int} (positive : 0 < den)
    (result : parts (nearest negative num den) = .finite negative' m e) :
    negative' = negative ∧ m < 2 ^ 53 ∧ -1074 ≤ e ∧
      ∃ E : Int, -1074 ≤ E ∧ (num = 0 ∨ E = -1074 ∨ 2 ^ 52 ≤ (num : ℚ) / den * 2 ^ (-E)) ∧
        (∃ R : Nat, magnitude m e = R * 2 ^ E) ∧
        ∀ k : ℤ, |magnitude m e - num / den| ≤ |(k : ℚ) * 2 ^ E - num / den| := by
  obtain ⟨atMost, low, tiny, spread, closest⟩ := placed_spec num positive
  rw [nearest_eq_carried] at result
  obtain ⟨rfl, small, lowE, exact⟩ := parts_carried atMost low tiny result
  refine ⟨rfl, small, lowE, _, low, spread, ⟨_, exact⟩, fun k => ?_⟩
  rw [exact]
  exact closest k

theorem nearest_not (negative : Bool) (num : Nat) {den : Nat} (positive : 0 < den) :
    nearest (!negative) num den = -nearest negative num den := by
  obtain ⟨atMost, low, -⟩ := placed_spec num positive
  apply parts_injective
  rw [parts_neg, nearest_eq_carried, nearest_eq_carried, parts_carried_not negative atMost low]

theorem nearest_other_sign {negative n : Bool} {num den m : Nat} {e : Int} (positive : 0 < den)
    (result : parts (nearest negative num den) = .finite n m e) (negative' : Bool) :
    ∃ n', parts (nearest negative' num den) = .finite n' m e := by
  by_cases same : negative' = negative
  · exact ⟨n, same ▸ result⟩
  · have flipped : negative' = !negative := by
      cases negative <;> cases negative' <;> simp_all
    refine ⟨!n, ?_⟩
    rw [flipped, nearest_not negative num positive, parts_neg, result]
    rfl

theorem placeExponent_le (num den : Nat) :
    placeExponent num den ≤ max ((num.log2 : Int) - den.log2 - 52) (-1074) := by
  unfold placeExponent
  exact max_le_max (by split <;> omega) le_rfl

theorem nearest_finite (negative : Bool) {num den : Nat} (positive : 0 < den)
    (bounded : num < den * 2 ^ 200) :
    ∃ m e, parts (nearest negative num den) = .finite negative m e := by
  obtain ⟨atMost, low, -⟩ := placed_spec num positive
  rw [nearest_eq_carried]
  refine parts_carried_finite negative atMost low ?_
  have bits : (num.log2 : Int) ≤ den.log2 + 200 := by
    rcases Nat.eq_zero_or_pos num with zero | nonzero
    · simp only [zero, Nat.log2_zero, Nat.cast_zero]
      omega
    · have denHigh : den < 2 ^ (den.log2 + 1) := Nat.lt_log2_self
      have wide : num < 2 ^ (den.log2 + 201) :=
        calc num < den * 2 ^ 200 := bounded
          _ ≤ 2 ^ (den.log2 + 1) * 2 ^ 200 := Nat.mul_le_mul_right _ denHigh.le
          _ = 2 ^ (den.log2 + 201) := by rw [← pow_add]
      have := (Nat.log2_lt nonzero.ne').mpr wide
      omega
  show placeExponent num den < 971
  rcases le_max_iff.mp (placeExponent_le num den) with high | high <;> omega

theorem nearest_closest {negative negative' : Bool} {num den m m' : Nat} {e e' : Int}
    (positive : 0 < den) (result : parts (nearest negative num den) = .finite negative' m e)
    (small : m' < 2 ^ 53) (low : -1074 ≤ e') :
    |magnitude m e - num / den| ≤ |magnitude m' e' - num / den| := by
  obtain ⟨-, -, -, E, -, spread, -, closest⟩ := nearest_spec positive result
  by_cases onGrid : E ≤ e'
  · have whole : magnitude m' e' = (((m' * 2 ^ (e' - E).toNat : Nat) : ℤ) : ℚ) * 2 ^ E := by
      unfold magnitude
      push_cast
      rw [mul_assoc, ← zpow_natCast, ← zpow_add₀ two_ne_zero, Int.toNat_of_nonneg (by omega)]
      ring_nf
    rw [whole]
    exact closest _
  · rcases spread with zero | least | wide
    · have nothing := closest 0
      simp only [zero, Nat.cast_zero, zero_div, sub_zero, Int.cast_zero, zero_mul, abs_zero]
        at nothing ⊢
      exact nothing.trans (abs_nonneg _)
    · omega
    · have reached : (2 : ℚ) ^ (E + 52) ≤ num / den :=
        calc (2 : ℚ) ^ (E + 52) = 2 ^ 52 * 2 ^ E := by
              rw [zpow_add₀ two_ne_zero, mul_comm]
              norm_num
          _ ≤ num / den * 2 ^ (-E) * 2 ^ E := by gcongr
          _ = num / den := by
              rw [mul_assoc, ← zpow_add₀ two_ne_zero, neg_add_cancel, zpow_zero, mul_one]
      have finer : magnitude m' e' < 2 ^ (E + 52) := by
        have smallQ : (m' : ℚ) < 2 ^ 53 := by exact_mod_cast small
        unfold magnitude
        calc (m' : ℚ) * 2 ^ e' < 2 ^ 53 * 2 ^ e' := by gcongr
          _ = 2 ^ (e' + 53) := by
              rw [zpow_add₀ two_ne_zero, mul_comm]
              norm_num
          _ ≤ 2 ^ (E + 52) := zpow_le_zpow_right₀ (by norm_num) (by omega)
      have corner := closest (2 ^ 52)
      have place : ((2 ^ 52 : ℤ) : ℚ) * 2 ^ E = 2 ^ (E + 52) := by
        rw [zpow_add₀ two_ne_zero, mul_comm]
        norm_num
      rw [place, abs_of_nonpos (show (2 : ℚ) ^ (E + 52) - num / den ≤ 0 by linarith)] at corner
      rw [abs_of_nonpos (by linarith : magnitude m' e' - num / den ≤ 0)]
      linarith

theorem nearest_exact {negative negative' : Bool} {num den m m' : Nat} {e e' : Int}
    (positive : 0 < den) (result : parts (nearest negative num den) = .finite negative' m e)
    (small : m' < 2 ^ 53) (low : -1074 ≤ e') (exact : (num : ℚ) / den = magnitude m' e') :
    magnitude m e = magnitude m' e' := by
  have closest := nearest_closest positive result small low
  rw [exact, sub_self, abs_zero] at closest
  exact sub_eq_zero.mp (abs_nonpos_iff.mp closest)

theorem midpoint_le_of_closer {a b t : ℚ} (lt : b < a) (closer : |a - t| ≤ |b - t|) :
    a + b ≤ 2 * t := by
  have squares := sq_le_sq.mpr closer
  nlinarith

theorem le_midpoint_of_closer {a b t : ℚ} (lt : b < a) (closer : |b - t| ≤ |a - t|) :
    2 * t ≤ a + b := by
  have squares := sq_le_sq.mpr closer
  nlinarith

/-- Rounding to the nearest double is monotone: a larger ratio, over any denominators, has a
nearest double at least as large. -/
theorem nearest_le_of_lt {negative₁ negative₂ n₁ n₂ : Bool} {num₁ den₁ num₂ den₂ m₁ m₂ : Nat}
    {e₁ e₂ : Int} (positive₁ : 0 < den₁) (positive₂ : 0 < den₂) (lt : (num₁ : ℚ) / den₁ < num₂ / den₂)
    (result₁ : parts (nearest negative₁ num₁ den₁) = .finite n₁ m₁ e₁)
    (result₂ : parts (nearest negative₂ num₂ den₂) = .finite n₂ m₂ e₂) :
    magnitude m₁ e₁ ≤ magnitude m₂ e₂ := by
  obtain ⟨-, small₁, low₁, -⟩ := nearest_spec positive₁ result₁
  obtain ⟨-, small₂, low₂, -⟩ := nearest_spec positive₂ result₂
  by_contra reversed
  rw [not_le] at reversed
  have above := midpoint_le_of_closer reversed (nearest_closest positive₁ result₁ small₂ low₂)
  have below := le_midpoint_of_closer reversed (nearest_closest positive₂ result₂ small₁ low₁)
  linarith

theorem nearest_mono {negative n₁ n₂ : Bool} {num₁ num₂ den m₁ m₂ : Nat} {e₁ e₂ : Int}
    (positive : 0 < den) (le : num₁ ≤ num₂)
    (result₁ : parts (nearest negative num₁ den) = .finite n₁ m₁ e₁)
    (result₂ : parts (nearest negative num₂ den) = .finite n₂ m₂ e₂) :
    magnitude m₁ e₁ ≤ magnitude m₂ e₂ := by
  rcases le.eq_or_lt with same | lt
  · subst same
    rw [result₁] at result₂
    obtain ⟨-, rfl, rfl⟩ := Parts.finite.inj result₂
    exact le_rfl
  · have denQ : (0 : ℚ) < den := by exact_mod_cast positive
    exact nearest_le_of_lt positive positive
      (div_lt_div_of_pos_right (by exact_mod_cast lt) denQ) result₁ result₂

end MatrixSteps.Binary
