import Mathlib
import MatrixSteps.Proofs.FloatBits

/-!
Signed zeros in sums of doubles. Adding `+0` to a double gives the double back unless it is `-0`
(`zero_add_of_not_negativeZero`), and a sum is `-0` only when both terms are (`add_eq_packedZero`):
an exact cancellation gives `+0`, and rounding to nearest never takes a nonzero sum to zero. So a
sum started from `+0` is never `-0` (`foldl_add_not_negativeZero`), and adding it to `+0` once
more changes nothing.

The arithmetic is that of Lean's model of doubles: the operands are unpacked, added exactly, and
the result is rounded and packed. Packing undoes unpacking on the bits of every double, since a
NaN is always the canonical one (`pack_unpack`).
-/

namespace MatrixSteps.Binary

open Float.Model UnpackedFloat

/-- The double is `-0`. -/
def NegativeZero (x : Float) : Prop := x.toModel.unpack = .zero .negative

section Packing

theorem packComponents_fields (b : BitVec 64) :
    packComponents .binary64 (Sign.ofBitVec (@unpackSign .binary64 b)) (@unpackExponent .binary64 b)
      (@unpackMantissa .binary64 b) = b := by
  have below := b.isLt
  have packed := packComponents_toNat (Sign.ofBitVec (@unpackSign .binary64 b))
    (@unpackExponent .binary64 b) (@unpackMantissa .binary64 b)
  rw [signNegative_ofBitVec, signField_toNat, exponentField_toNat, fractionField_toNat,
    fractionBits] at packed
  apply BitVec.eq_of_toNat_eq
  refine packed.trans ?_
  split <;> simp_all <;> omega

theorem pack_unpack {b : BitVec 64} (valid : Format.binary64.Valid b) :
    UnpackedFloat.pack .binary64 (UnpackedFloat.unpack .binary64 b) = b := by
  conv_rhs => rw [← packComponents_fields b]
  have exponentBelow := (@unpackExponent .binary64 b).isLt
  have fractionBelow := (@unpackMantissa .binary64 b).isLt
  change (@unpackExponent .binary64 b).toNat < 2048 at exponentBelow
  change (@unpackMantissa .binary64 b).toNat < 2 ^ 52 at fractionBelow
  unfold UnpackedFloat.unpack
  dsimp only
  by_cases top : @unpackExponent .binary64 b = -1#_
  · rw [if_pos top]
    by_cases empty : @unpackMantissa .binary64 b = 0#_
    · rw [if_pos empty, top, empty]
      rfl
    · rw [if_neg empty, packComponents_fields b]
      exact (valid.eq_packedNaN top empty).symm
  · rw [if_neg top]
    by_cases zero : @unpackExponent .binary64 b = 0#_
    · rw [if_pos zero]
      by_cases empty : @unpackMantissa .binary64 b = 0#_
      · rw [dif_pos empty, zero, empty]
        rfl
      · rw [dif_neg empty]
        have nonzero : (@unpackMantissa .binary64 b).toNat ≠ 0 := fun same =>
          empty (BitVec.eq_of_toNat_eq (by rw [same]; rfl))
        have short : (@unpackMantissa .binary64 b).toNat.log2 + 1 ≠ Format.binary64.mantissaBits := by
          have := (Nat.log2_lt nonzero).mpr fractionBelow
          change _ ≠ 53
          omega
        have field : (@unpackExponent .binary64 b).toNat = 0 := by rw [zero]; rfl
        have subnormal : ¬ 2 ^ Format.binary64.exponentBits ≤
            ((((@unpackExponent .binary64 b).toNat : Int) -
              (Format.binary64.exponentBias + Format.binary64.mantissaBitsWithoutImplicit) + 1) +
              Format.binary64.exponentBias + Format.binary64.mantissaBitsWithoutImplicit).toNat + 1 := by
          rw [field]
          decide
        unfold UnpackedFloat.pack
        rw [if_neg subnormal, if_neg short, zero, BitVec.ofNat_toNat, BitVec.setWidth_eq]
    · rw [if_neg zero]
      have notTop : (@unpackExponent .binary64 b).toNat ≠ 2047 := fun same =>
        top (BitVec.eq_of_toNat_eq (by rw [same]; rfl))
      have notZero : (@unpackExponent .binary64 b).toNat ≠ 0 := fun same =>
        zero (BitVec.eq_of_toNat_eq (by rw [same]; rfl))
      have significand : (1#1 ++ @unpackMantissa .binary64 b).toNat =
          2 ^ 52 + (@unpackMantissa .binary64 b).toNat := by
        rw [BitVec.toNat_append]
        change 1 <<< 52 ||| _ = _
        rw [← Nat.shiftLeft_add_eq_or_of_lt fractionBelow, Nat.shiftLeft_eq]
        rfl
      have leading : (1#1 ++ @unpackMantissa .binary64 b).toNat.log2 + 1 =
          Format.binary64.mantissaBits := by
        have fiftyTwo : (2 ^ 52 + (@unpackMantissa .binary64 b).toNat).log2 = 52 :=
          (Nat.log2_eq_iff (by omega)).mpr ⟨by omega, by omega⟩
        rw [significand, fiftyTwo]
        rfl
      have biased : (((@unpackExponent .binary64 b).toNat : Int) -
          (Format.binary64.exponentBias + Format.binary64.mantissaBitsWithoutImplicit) +
          Format.binary64.exponentBias + Format.binary64.mantissaBitsWithoutImplicit).toNat =
          (@unpackExponent .binary64 b).toNat := by
        omega
      have normal : ¬ 2 ^ Format.binary64.exponentBits ≤ (@unpackExponent .binary64 b).toNat + 1 := by
        change ¬ 2 ^ 11 ≤ _
        omega
      have fraction : BitVec.ofNat 52 (1#1 ++ @unpackMantissa .binary64 b).toNat =
          @unpackMantissa .binary64 b := by
        apply BitVec.eq_of_toNat_eq
        rw [BitVec.toNat_ofNat, significand]
        omega
      unfold UnpackedFloat.pack
      rw [biased, if_neg normal, if_pos leading, BitVec.ofNat_toNat, BitVec.setWidth_eq]
      exact congrArg _ fraction

end Packing

theorem unpack_finite_bounds {b : BitVec 64} {s : Sign} {m : Nat} {e : Int} {positive : 0 < m}
    (unpacked : UnpackedFloat.unpack .binary64 b = .finite s m e positive) :
    m < 2 ^ 53 ∧ -1074 ≤ e := by
  have decoded := decode_eq_ofUnpacked ⟨b⟩
  change decode ⟨b⟩ = ofUnpacked (UnpackedFloat.unpack .binary64 b) at decoded
  rw [unpacked, ofUnpacked] at decoded
  rcases decode_finite_range decoded with ⟨subnormal, least⟩ | normal
  · rw [least]
    exact ⟨by omega, by decide⟩
  · exact ⟨normal.2.1, normal.2.2.1⟩

section Rounding

theorem shiftRight_mantissa (k : Nat) (em : ExtendedMantissa) :
    (em >>> k).mantissa = em.mantissa / 2 ^ k := by
  induction k generalizing em with
  | zero => simp [HShiftRight.hShiftRight, Nat.repeat]
  | succ k ih =>
      change (ExtendedMantissa.shiftRightOne (em >>> k)).mantissa = _
      simp only [ExtendedMantissa.shiftRightOne, ih, Nat.div_div_eq_div_mul, Nat.pow_succ]

theorem ofMantissaAndAccuracy_mantissa (m : Nat) (accuracy : Accuracy) :
    (ExtendedMantissa.ofMantissaAndAccuracy m accuracy).mantissa = m := by
  cases accuracy with
  | exact => rfl
  | inexact relation => cases relation <;> rfl

theorem le_roundToNearestEven (m : Nat) (accuracy : Accuracy) : m ≤ accuracy.roundToNearestEven m := by
  cases accuracy with
  | exact => exact Nat.le_refl _
  | inexact relation => cases relation <;> simp [Accuracy.roundToNearestEven]

theorem shift_bounds {M : Nat} (positive : 0 < M) {E : Int} (low : -1074 ≤ E) :
    0 < M / 2 ^ (Format.binary64.targetExponent (totalExponent M E) - E).toNat ∧
      M / 2 ^ (Format.binary64.targetExponent (totalExponent M E) - E).toNat < 2 ^ 53 := by
  have minimum : Format.binary64.minExponent = -1074 := rfl
  have width : Format.binary64.mantissaBits = 53 := rfl
  simp only [Format.targetExponent, totalExponent, minimum, width, Nat.cast_ofNat]
  have lower := Nat.log2_self_le (Nat.pos_iff_ne_zero.mp positive)
  have upper : M < 2 ^ (M.log2 + 1) := Nat.lt_log2_self
  by_cases wide : 52 ≤ M.log2
  · have shift : (max ((M.log2 : Int) + 1 + E - 53) (-1074) - E).toNat = M.log2 - 52 := by omega
    rw [shift]
    have split : 2 ^ M.log2 = 2 ^ 52 * 2 ^ (M.log2 - 52) := by rw [← Nat.pow_add]; congr 1; omega
    have split' : 2 ^ (M.log2 + 1) = 2 ^ 53 * 2 ^ (M.log2 - 52) := by rw [← Nat.pow_add]; congr 1; omega
    constructor
    · apply Nat.div_pos _ (Nat.two_pow_pos _)
      calc 2 ^ (M.log2 - 52) ≤ 2 ^ 52 * 2 ^ (M.log2 - 52) := Nat.le_mul_of_pos_left _ (Nat.two_pow_pos _)
        _ = 2 ^ M.log2 := split.symm
        _ ≤ M := lower
    · rw [Nat.div_lt_iff_lt_mul (Nat.two_pow_pos _), ← split']
      exact upper
  · have shift : (max ((M.log2 : Int) + 1 + E - 53) (-1074) - E).toNat = 0 := by omega
    rw [shift, Nat.pow_zero, Nat.div_one]
    exact ⟨positive, Nat.lt_of_lt_of_le upper (Nat.pow_le_pow_right (by decide) (by omega))⟩

theorem roundWithAccuracy_finite (s : Sign) {M : Nat} (positive : 0 < M) {E : Int} (low : -1074 ≤ E)
    (accuracy : Accuracy) :
    ∃ F E' nonzero, roundWithAccuracy .binary64 s M E accuracy = .finite s F E' nonzero ∧
      F < 2 ^ 53 ∧ -1074 ≤ E' := by
  obtain ⟨shifted, -⟩ := shift_bounds positive low
  unfold roundWithAccuracy shiftToTargetExponent shiftToExponent
  simp only [shiftRight_mantissa, ofMantissaAndAccuracy_mantissa]
  generalize (Format.binary64.targetExponent (totalExponent M E) - E).toNat = k at *
  generalize rounding : ExtendedMantissa.roundedMantissa _ = R
  have roundedPositive : 0 < R := by
    rw [← rounding, ExtendedMantissa.roundedMantissa, shiftRight_mantissa,
      ofMantissaAndAccuracy_mantissa]
    exact Nat.lt_of_lt_of_le shifted (le_roundToNearestEven _ _)
  obtain ⟨finalPositive, finalBelow⟩ := shift_bounds roundedPositive (E := E + k) (by omega)
  rw [dif_neg (Nat.pos_iff_ne_zero.mp finalPositive)]
  refine ⟨_, _, finalPositive, rfl, finalBelow, ?_⟩
  omega

theorem round_finite (s : Sign) {M : Nat} (positive : 0 < M) {E : Int} (low : -1074 ≤ E) :
    ∃ F E' nonzero, UnpackedFloat.round .binary64 s M E = .finite s F E' nonzero ∧
      F < 2 ^ 53 ∧ -1074 ≤ E' := by
  have minimum : Format.binary64.minExponent = -1074 := rfl
  unfold UnpackedFloat.round decreaseExponent
  apply roundWithAccuracy_finite
  · rw [Nat.shiftLeft_eq]
    exact Nat.mul_pos positive (Nat.two_pow_pos _)
  · simp only [Format.targetExponent, minimum]
    omega

end Rounding

section Sums

theorem packedZero_toNat (s : Sign) :
    (packedZero .binary64 s).toNat = if signNegative s then 2 ^ 63 else 0 := by
  have packed := packComponents_toNat s 0 0
  have zeros : BitVec.toNat (0 : BitVec 52) = 0 := rfl
  have zeros' : BitVec.toNat (0 : BitVec 11) = 0 := rfl
  rw [zeros, zeros'] at packed
  exact packed.trans (by omega)

theorem pack_finite_ne_packedZero (s s' : Sign) {F : Nat} {E : Int} (positive : 0 < F)
    (below : F < 2 ^ 53) (low : -1074 ≤ E) :
    UnpackedFloat.pack .binary64 (.finite s F E positive) ≠ packedZero .binary64 s' := by
  intro same
  have zero : (packedZero .binary64 s').toNat % 2 ^ 63 = 0 := by
    rw [packedZero_toNat]
    split <;> rfl
  have bits := congrArg BitVec.toNat same
  unfold UnpackedFloat.pack at bits
  dsimp only at bits
  split at bits
  · have packed := packComponents_toNat s (-1#11) 0
    have ones : (-1#11 : BitVec 11).toNat = 2047 := rfl
    have zeros : BitVec.toNat (0 : BitVec 52) = 0 := rfl
    rw [ones, zeros] at packed
    change (packComponents .binary64 s (-1#11) 0).toNat = _ at bits
    rw [packed] at bits
    split at bits <;> omega
  · split at bits
    · next overflow _ =>
      have bias : (Format.binary64.exponentBias : Int) = 1023 := rfl
      have packed := packComponents_toNat s
        (BitVec.ofNat 11 (E + Format.binary64.exponentBias + Format.binary64.mantissaBitsWithoutImplicit).toNat)
        (BitVec.ofNat 52 F)
      rw [BitVec.toNat_ofNat, BitVec.toNat_ofNat] at packed
      change (packComponents .binary64 s _ _).toNat = _ at bits
      rw [packed, bias] at bits
      change ¬ 2 ^ 11 ≤ _ at overflow
      rw [bias] at overflow
      have field : (E + 1023 + ((52 : Nat) : Int)).toNat % 2 ^ 11 = (E + 1075).toNat := by omega
      rw [field] at bits
      split at bits <;> omega
    · next _ short =>
      change ¬ F.log2 + 1 = 53 at short
      have narrow : F < 2 ^ 52 := by
        have := (Nat.log2_lt (Nat.pos_iff_ne_zero.mp positive)).mpr below
        exact (Nat.log2_lt (Nat.pos_iff_ne_zero.mp positive)).mp (by omega)
      have packed := packComponents_toNat s 0 (BitVec.ofNat 52 F)
      have zeros' : BitVec.toNat (0 : BitVec 11) = 0 := rfl
      rw [BitVec.toNat_ofNat, zeros'] at packed
      change (packComponents .binary64 s 0 _).toNat = _ at bits
      rw [packed] at bits
      split at bits <;> omega

theorem round_sum_ne_packedZero (s : Sign) {M : Nat} (positive : 0 < M) {E : Int} (low : -1074 ≤ E) :
    UnpackedFloat.pack .binary64 (UnpackedFloat.round .binary64 s M E) ≠
      packedZero .binary64 .negative := by
  obtain ⟨F, E', nonzero, rounded, below, low'⟩ := round_finite s positive low
  rw [rounded]
  exact pack_finite_ne_packedZero s _ nonzero below low'

theorem packedZero_eq_negative {s : Sign}
    (same : UnpackedFloat.pack .binary64 (.zero s) = packedZero .binary64 .negative) : s = .negative := by
  cases s with
  | negative => rfl
  | positive => exact absurd same (by decide)

/-- Only `-0 + -0` is `-0` when rounding to nearest: an exact cancellation gives `+0`, and a
nonzero sum never rounds to zero, since it is a multiple of the least subnormal. -/
theorem add_eq_packedZero {a b : Float.Model}
    (sum : UnpackedFloat.pack .binary64 (UnpackedFloat.add .binary64 a.unpack b.unpack) =
      packedZero .binary64 .negative) :
    a.unpack = .zero .negative ∧ b.unpack = .zero .negative := by
  have boundsA : ∀ {s m e positive}, a.unpack = .finite s m e positive → m < 2 ^ 53 ∧ -1074 ≤ e :=
    unpack_finite_bounds
  have boundsB : ∀ {s m e positive}, b.unpack = .finite s m e positive → m < 2 ^ 53 ∧ -1074 ≤ e :=
    unpack_finite_bounds
  have nan : UnpackedFloat.pack .binary64 .notANumber ≠ packedZero .binary64 .negative := by decide
  have infinite (s : Sign) :
      UnpackedFloat.pack .binary64 (.infinity s) ≠ packedZero .binary64 .negative := by
    cases s <;> decide
  generalize a.unpack = x at *
  generalize b.unpack = y at *
  cases x <;> cases y <;> simp only [UnpackedFloat.add] at sum
  case notANumber.notANumber | notANumber.infinity | notANumber.zero | notANumber.finite
    | infinity.notANumber | zero.notANumber | finite.notANumber =>
    exact absurd sum nan
  case infinity.zero | infinity.finite | zero.infinity | finite.infinity =>
    exact absurd sum (infinite _)
  case infinity.infinity =>
    split at sum
    · exact absurd sum (infinite _)
    · exact absurd sum nan
  case zero.zero first second =>
    split at sum
    · next same =>
      obtain rfl := packedZero_eq_negative sum
      obtain rfl := eq_of_beq same
      exact ⟨rfl, rfl⟩
    · exact absurd (packedZero_eq_negative sum) Sign.noConfusion
  case zero.finite s m e positive =>
    obtain ⟨below, low⟩ := boundsB rfl
    exact absurd sum (pack_finite_ne_packedZero _ _ positive below low)
  case finite.zero s m e positive _ =>
    obtain ⟨below, low⟩ := boundsA rfl
    exact absurd sum (pack_finite_ne_packedZero _ _ positive below low)
  case finite.finite s₁ m₁ e₁ positive₁ s₂ m₂ e₂ positive₂ =>
    have low : -1074 ≤ min e₁ e₂ := le_min (boundsA rfl).2 (boundsB rfl).2
    generalize (_ : Int) + _ = M at sum
    unfold UnpackedFloat.normalize at sum
    split at sum
    · next negative =>
      have := Int.compare_eq_lt.mp negative
      exact absurd sum (round_sum_ne_packedZero _ (by omega) low)
    · exact absurd (packedZero_eq_negative sum) Sign.noConfusion
    · next positive =>
      have := Int.compare_eq_gt.mp positive
      exact absurd sum (round_sum_ne_packedZero _ (by omega) low)

end Sums

section Doubles

theorem not_negativeZero_zero : ¬ NegativeZero 0.0 := by
  intro negative
  have positive : (0.0 : Float).toModel.unpack = .zero .positive := rfl
  rw [NegativeZero, positive] at negative
  exact Sign.noConfusion (UnpackedFloat.zero.inj negative)

theorem add_positiveZero {u : UnpackedFloat} (notNegative : u ≠ .zero .negative) :
    UnpackedFloat.add .binary64 (.zero .positive) u = u := by
  cases u with
  | zero s =>
      cases s with
      | positive => rfl
      | negative => exact absurd rfl notNegative
  | _ => rfl

theorem pack_model_unpack (m : Float.Model) : Float.Model.pack m.unpack = m := by
  obtain ⟨bits, valid⟩ := m
  simp only [Float.Model.pack, Float.Model.unpack, pack_unpack valid]

theorem bits_of_negativeZero {m : Float.Model} (negative : m.unpack = .zero .negative) :
    m.toBits.toBitVec = packedZero .binary64 .negative := by
  rw [← pack_unpack m.valid]
  unfold Float.Model.unpack at negative
  rw [negative]
  rfl

theorem zero_add_of_not_negativeZero {x : Float} (notNegative : ¬ NegativeZero x) : 0.0 + x = x := by
  obtain ⟨m⟩ := x
  have positive : (0.0 : Float).toModel.unpack = .zero .positive := rfl
  change Float.ofModel (Float.Model.pack
    (UnpackedFloat.add .binary64 (0.0 : Float).toModel.unpack m.unpack)) = _
  rw [positive, add_positiveZero notNegative, pack_model_unpack]

theorem add_not_negativeZero {x : Float} (notNegative : ¬ NegativeZero x) (y : Float) :
    ¬ NegativeZero (x + y) := fun negative =>
  notNegative (add_eq_packedZero (bits_of_negativeZero negative)).1

theorem foldl_add_not_negativeZero {α : Type} (f : α → Float) (terms : List α) {start : Float}
    (notNegative : ¬ NegativeZero start) :
    ¬ NegativeZero (terms.foldl (fun acc a => acc + f a) start) := by
  induction terms generalizing start with
  | nil => exact notNegative
  | cons a rest ih => exact ih (add_not_negativeZero notNegative (f a))

end Doubles

end MatrixSteps.Binary
