import MatrixSteps.Proofs.WholeFloat
import MatrixSteps.Matrix.Product

/-!
Whole numbers on the decimal side of doubles. A numeral whose value is a whole number up to
`2 ^ 53` reads as that number exactly (`Whole.numeral`); rounding a whole number to the four places
of a cell leaves it as it is (`Whole.roundCell`); and a whole double from one on is the power count
it stands for (`Whole.exponentCount?`).

The first two go through `Binary.nearest`, which finds the double nearest to a ratio `num / den`. When
`num` is a whole multiple `V · den`, its first guess of the last place is either right or one too
low, the quotient at the right place is `V` shifted to 53 bits, and nothing is left to round.
-/

namespace MatrixSteps.Binary

theorem toNat_toUInt64 {n : Nat} (small : n < 2 ^ 64) : n.toUInt64.toNat = n := by
  rw [UInt64.toNat_ofNat']
  exact Nat.mod_eq_of_lt small

theorem decode_encode_normal (negative : Bool) {m : Nat} {e : Int} (normal : Normal m e) :
    decode (encode negative m e) = .finite negative m e := by
  obtain ⟨atLeast, below, low, high⟩ := normal
  have notSmall : ¬ m < 2 ^ fractionBits := by
    rw [fractionBits]
    omega
  have fields : (encode negative m e).toNat =
      (if negative then 2 ^ 63 else 0) + (e + 1075).toNat * 2 ^ 52 + (m - 2 ^ 52) := by
    unfold encode
    rw [if_neg notSmall, fractionBits]
    apply toNat_toUInt64
    split <;> omega
  rw [decode_of_fields fields (by omega) (by omega), if_neg (by omega)]
  have exponent : ((e + 1075).toNat : Int) - 1075 = e := by omega
  rw [exponent, fractionBits, Nat.sub_add_cancel atLeast]

theorem decode_encode_zero (negative : Bool) (e : Int) :
    decode (encode negative 0 e) = .finite negative 0 leastExponent := by
  have fields : (encode negative 0 e).toNat = (if negative then 2 ^ 63 else 0) + 0 * 2 ^ 52 + 0 := by
    unfold encode
    rw [if_pos (by decide)]
    apply toNat_toUInt64
    split <;> omega
  rw [decode_of_fields fields (by decide) (by decide), if_pos rfl]

theorem scaledDivision_multiple (V : Nat) {den : Nat} (positive : 0 < den) (g : Int) :
    scaledDivision (V * den) den g =
      (V * 2 ^ (-g).toNat / 2 ^ g.toNat, den * (V * 2 ^ (-g).toNat % 2 ^ g.toNat),
        den * 2 ^ g.toNat) := by
  have regroup : V * den * 2 ^ (-g).toNat = den * (V * 2 ^ (-g).toNat) := by
    rw [Nat.mul_comm V den, Nat.mul_assoc]
  simp only [scaledDivision, regroup, Nat.mul_div_mul_left _ _ positive, Nat.mul_mod_mul_left]

theorem placeExponent_multiple {V den : Nat} (nonzero : 0 < V) (bounded : V ≤ 2 ^ 53)
    (positive : 0 < den) : placeExponent (V * den) den = (V.log2 : Int) - 52 := by
  have lowV := Nat.log2_self_le (Nat.pos_iff_ne_zero.mp nonzero)
  have highV : V < 2 ^ (V.log2 + 1) := Nat.lt_log2_self
  have lowD := Nat.log2_self_le (Nat.pos_iff_ne_zero.mp positive)
  have highD : den < 2 ^ (den.log2 + 1) := Nat.lt_log2_self
  have product : V * den ≠ 0 := Nat.mul_ne_zero (by omega) (by omega)
  have lowProduct : V.log2 + den.log2 ≤ (V * den).log2 := by
    rw [Nat.le_log2 product, Nat.pow_add]
    exact Nat.mul_le_mul lowV lowD
  have highProduct : (V * den).log2 < V.log2 + den.log2 + 2 := by
    rw [Nat.log2_lt product]
    calc V * den < 2 ^ (V.log2 + 1) * 2 ^ (den.log2 + 1) := Nat.mul_lt_mul'' highV highD
      _ = 2 ^ (V.log2 + den.log2 + 2) := by rw [← Nat.pow_add]; congr 1; omega
  have top : V.log2 ≤ 53 := by
    have := (Nat.log2_lt (Nat.pos_iff_ne_zero.mp nonzero)).mpr (Nat.lt_of_le_of_lt bounded
      (Nat.pow_lt_pow_right (by decide) (Nat.lt_succ_self 53)))
    omega
  have least : leastExponent = -1074 := rfl
  unfold placeExponent
  simp only [scaledDivision_multiple V positive, least]
  by_cases low : (V * den).log2 = V.log2 + den.log2
  · have guess : ((V * den).log2 : Int) - den.log2 - 53 = (V.log2 : Int) - 53 := by omega
    have up : (-((V.log2 : Int) - 53)).toNat = 53 - V.log2 := by omega
    have down : ((V.log2 : Int) - 53).toNat = 0 := by omega
    have wide : ¬ V * 2 ^ (53 - V.log2) / 2 ^ 0 < 2 ^ 53 := by
      rw [Nat.pow_zero, Nat.div_one, Nat.not_lt]
      calc 2 ^ 53 = 2 ^ V.log2 * 2 ^ (53 - V.log2) := by rw [← Nat.pow_add]; congr 1; omega
        _ ≤ V * 2 ^ (53 - V.log2) := Nat.mul_le_mul_right _ lowV
    rw [guess, up, down, if_neg wide]
    omega
  · have guess : ((V * den).log2 : Int) - den.log2 - 53 = (V.log2 : Int) - 52 := by omega
    have narrow := (normal_quotient nonzero bounded).2.2.1
    rw [guess, if_pos narrow]
    omega

theorem roundEven_exact (quotient : Nat) {divisor : Nat} (positive : 0 < divisor) :
    roundEven quotient 0 divisor = quotient := by
  simp [roundEven, positive]

/-- The double nearest to a whole multiple `V` of the denominator, up to `2 ^ 53`, is `V`
itself: its significand is `V` shifted to 53 bits, with nothing to round. -/
theorem nearest_multiple (negative : Bool) {V den : Nat} (nonzero : 0 < V) (bounded : V ≤ 2 ^ 53)
    (positive : 0 < den) :
    nearest negative (V * den) den =
      Float.ofBits (encode negative (V * 2 ^ (-((V.log2 : Int) - 52)).toNat /
        2 ^ ((V.log2 : Int) - 52).toNat) ((V.log2 : Int) - 52)) := by
  obtain ⟨exact, normal⟩ := normal_quotient nonzero bounded
  have divisor : 0 < den * 2 ^ ((V.log2 : Int) - 52).toNat := Nat.mul_pos positive (Nat.two_pow_pos _)
  unfold nearest
  rw [placeExponent_multiple nonzero bounded positive]
  dsimp only
  rw [scaledDivision_multiple V positive, exact, Nat.mul_zero]
  generalize V * 2 ^ (-((V.log2 : Int) - 52)).toNat / 2 ^ ((V.log2 : Int) - 52).toNat = M at normal ⊢
  have noCarry : (M == 2 ^ 53) = false := by simpa using Nat.ne_of_lt normal.2.1
  have finite : ¬ (V.log2 : Int) - 52 > 971 := by have := normal.2.2.2; omega
  simp only [roundEven_exact M divisor, noCarry, Bool.false_eq_true, if_false, finite]

theorem nearest_zero (negative : Bool) {den : Nat} (positive : 0 < den) :
    ∃ e, nearest negative (0 * den) den = Float.ofBits (encode negative 0 e) := by
  have least : leastExponent = -1074 := rfl
  refine ⟨max (-(den.log2 : Int) - 53) leastExponent, ?_⟩
  unfold nearest placeExponent
  simp only [Nat.zero_mul, scaledDivision, Nat.zero_div, Nat.zero_mod, Nat.log2_zero]
  have divisor : ∀ g : Int, 0 < den * 2 ^ g.toNat := fun g => Nat.mul_pos positive (Nat.two_pow_pos _)
  have finite : ¬ max (-(den.log2 : Int) - 53) leastExponent > 971 := by
    rw [least]
    omega
  simp [roundEven_exact 0 (divisor _), finite]

end MatrixSteps.Binary

namespace MatrixSteps.Whole

open Binary

theorem nearest (negative : Bool) {V den : Nat} (bounded : V ≤ 2 ^ 53) (positive : 0 < den) :
    Whole (Binary.nearest negative (V * den) den) (if negative then -(V : Int) else V) := by
  rcases Nat.eq_zero_or_pos V with zero | nonzero
  · subst zero
    obtain ⟨e, rounded⟩ := nearest_zero negative positive
    rw [rounded]
    apply ofBits
    rw [decode_encode_zero]
    exact toInt?_finite_of_cross (by cases negative <;> simp) (Or.inl (by cases negative <;> simp))
  · obtain ⟨exact, normal⟩ := normal_quotient nonzero bounded
    rw [nearest_multiple negative nonzero bounded positive]
    apply ofBits
    rw [decode_encode_normal negative normal]
    have magnitude : (if negative then -(V : Int) else V).natAbs = V := by cases negative <;> simp
    apply toInt?_finite_of_cross
    · rw [magnitude]
      exact Nat.div_mul_cancel (Nat.dvd_of_mod_eq_zero exact)
    · exact Or.inr (negative_of_signed negative nonzero)

end MatrixSteps.Whole

namespace MatrixSteps

/-- The value of a decimal, when it is a whole number. -/
def Decimal.wholeValue? (d : Decimal) : Option Nat :=
  let num := d.digits * 10 ^ d.exponent.toNat
  let den := 10 ^ (-d.exponent).toNat
  if num % den = 0 then some (num / den) else none

/-- The value of a numeral, when it is a whole number. -/
def Numeral.wholeValue? (n : Numeral) : Option Int :=
  n.value.wholeValue?.map fun (v : Nat) => if n.negative then -(v : Int) else (v : Int)

namespace Whole

open Binary

theorem numeral {n : Numeral} {k : Int} (value : n.wholeValue? = some k)
    (bounded : k.natAbs ≤ 2 ^ 53) : Whole n.toFloat k := by
  unfold Numeral.wholeValue? at value
  obtain ⟨V, decimal, rfl⟩ := Option.map_eq_some_iff.mp value
  have magnitude : (if n.negative then -(V : Int) else (V : Int)).natAbs = V := by
    cases n.negative <;> simp
  rw [magnitude] at bounded
  unfold Decimal.wholeValue? at decimal
  dsimp only at decimal
  split at decimal
  next exact =>
    obtain rfl := Option.some.inj decimal
    have whole := Whole.nearest n.negative bounded (Nat.pow_pos (n := (-n.value.exponent).toNat)
      (by decide : 0 < 10))
    rwa [Nat.div_mul_cancel (Nat.dvd_of_mod_eq_zero exact)] at whole
  next => cases decimal

theorem finite {x : Float} {k : Int} (whole : Whole x k) :
    ∃ negative m e, parts x = .finite negative m e ∧ (Parts.finite negative m e).toInt? = some k := by
  unfold Whole at whole
  cases read : parts x with
  | nan => rw [read] at whole; cases whole
  | infinity negative => rw [read] at whole; cases whole
  | finite negative m e => exact ⟨negative, m, e, rfl, read ▸ whole⟩

end Whole

namespace Binary

theorem isIntegral_of_toInt? {p : Parts} {k : Int} (read : p.toInt? = some k) : p.isIntegral = true := by
  cases p with
  | finite negative m e =>
      simp only [Parts.toInt?] at read
      split at read
      · assumption
      · cases read
  | _ => cases read

theorem signed_of_toInt? {negative : Bool} {m : Nat} {e : Int} {k : Int}
    (read : (Parts.finite negative m e).toInt? = some k) :
    (if negative then -(k.natAbs : Int) else (k.natAbs : Int)) = k := by
  obtain ⟨cross, sign⟩ := cross_of_toInt? read
  rcases Nat.eq_zero_or_pos m with zero | positive
  · exact signed_natAbs (.inl ((mantissa_eq_zero_iff cross).mp zero))
  · exact signed_natAbs (.inr (sign positive))

theorem compareInt_of_cross {m V : Nat} {e : Int} (cross : m * 2 ^ e.toNat = V * 2 ^ (-e).toNat)
    (n : Int) : compareInt false m e n = compare (V : Int) n := by
  have scale : (0 : Int) < 2 ^ (-e).toNat := Int.pow_pos (by decide)
  have value : (m : Int) * 2 ^ e.toNat = V * 2 ^ (-e).toNat := by exact_mod_cast cross
  simp only [compareInt, Bool.false_eq_true, if_false, value]
  rcases Int.lt_trichotomy V n with less | same | more
  · rw [Int.compare_eq_lt.mpr less, Int.compare_eq_lt.mpr (Int.mul_lt_mul_of_pos_right less scale)]
  · rw [same, Int.compare_eq_eq.mpr rfl, Int.compare_eq_eq.mpr rfl]
  · rw [Int.compare_eq_gt.mpr more, Int.compare_eq_gt.mpr (Int.mul_lt_mul_of_pos_right more scale)]

end Binary

namespace Places

open Binary

theorem coefficient_of_cross {m V : Nat} {e : Int} (cross : m * 2 ^ e.toNat = V * 2 ^ (-e).toNat) :
    coefficient m e (-cellPlaces) = V * 10 ^ 4 := by
  have unit : 0 < 2 ^ (-e).toNat := Nat.two_pow_pos _
  show (2 * (m * 2 ^ e.toNat * 10 ^ 4) + 2 ^ (-e).toNat * 10 ^ 0) / (2 * (2 ^ (-e).toNat * 10 ^ 0)) =
    V * 10 ^ 4
  rw [cross, Nat.pow_zero, Nat.mul_one]
  generalize 2 ^ (-e).toNat = D at unit ⊢
  have regroup : 2 * (V * D * 10 ^ 4) = V * 10 ^ 4 * (2 * D) := by
    rw [Nat.mul_right_comm V D, Nat.mul_comm 2, Nat.mul_assoc, Nat.mul_comm D 2]
  rw [regroup]
  apply Nat.div_eq_of_lt_le
  · omega
  · have next : (V * 10 ^ 4 + 1) * (2 * D) = V * 10 ^ 4 * (2 * D) + 2 * D := Nat.succ_mul _ _
    rw [next]
    omega

end Places

namespace Whole

open Binary

theorem roundCell {x : Float} {k : Int} (whole : Whole x k) (bounded : k.natAbs ≤ 2 ^ 53) :
    Whole (Places.roundCell x) k := by
  obtain ⟨negative, m, e, read, value⟩ := whole.finite
  obtain ⟨cross, -⟩ := cross_of_toInt? value
  have below : compareInt false m e Places.ceiling = .lt := by
    rw [compareInt_of_cross cross]
    apply Int.compare_eq_lt.mpr
    have small : (k.natAbs : Int) ≤ 2 ^ 53 := by exact_mod_cast bounded
    simp only [Places.ceiling]
    omega
  have digits : ¬ 10 ^ Places.precision ≤ k.natAbs * 10 ^ 4 := by
    simp only [Places.precision]
    omega
  have rounded : Places.round? Places.cellPlaces x =
      .ok (Decimal.toFloat negative ⟨k.natAbs * 10 ^ 4, -Places.cellPlaces⟩) := by
    unfold Places.round?
    rw [read]
    simp only [below]
    show Places.roundFinite negative m e (-Places.cellPlaces) = _
    unfold Places.roundFinite
    rw [Places.coefficient_of_cross cross, if_neg digits]
  unfold Places.roundCell
  rw [rounded]
  show Whole (Binary.nearest negative (k.natAbs * 10 ^ 4 * 10 ^ 0) (10 ^ 4)) k
  have nearestWhole := Whole.nearest negative bounded (Nat.pow_pos (n := 4) (by decide : 0 < 10))
  rw [signed_of_toInt? value] at nearestWhole
  rwa [Nat.pow_zero, Nat.mul_one]

theorem exponentCount? {x : Float} {k : Int} (whole : Whole x k) (positive : 1 ≤ k) :
    Matrix.exponentCount? x = some k.toNat := by
  obtain ⟨negative, m, e, read, value⟩ := whole.finite
  obtain ⟨cross, sign⟩ := cross_of_toInt? value
  have nonzero : 0 < m := Nat.pos_of_ne_zero fun zero => by
    have := (mantissa_eq_zero_iff cross).mp zero
    omega
  have unsigned : negative = false := by simpa using (sign nonzero).trans (by simp; omega)
  subst unsigned
  have atLeastOne : (Parts.finite false m e).atLeast 1 = true := by
    simp only [Parts.atLeast, compareInt_of_cross cross, bne_iff_ne, ne_eq, Int.compare_eq_lt]
    omega
  have wholePart : (Parts.finite false m e).wholePart = k.toNat := by
    simp only [Parts.wholePart, cross, Nat.mul_div_cancel _ (Nat.two_pow_pos _)]
    omega
  simp [Matrix.exponentCount?, read, Parts.isPositiveInteger, isIntegral_of_toInt? value,
    atLeastOne, wholePart]

end Whole

end MatrixSteps
