import Mathlib
import MatrixSteps.Proofs.SignedZero

/-!
Sign and order of doubles, read on their parts.

A double is determined by its parts (`parts_injective`): the model keeps a single NaN, and every
other unpacked value is read back from its parts. Negation flips the sign of the parts and keeps
the rest (`parts_neg`).

Two doubles that are not NaN compare as their values do on the extended line, the infinities at
its two ends and both zeros at zero (`le_iff_toExtended`). The model compares exponents first and
significands second; that is the order of the values because a significand below `2 ^ 52` only
occurs at the least exponent (`magnitude_le_iff`).
-/

namespace MatrixSteps.Binary

open Float.Model UnpackedFloat

/-- The magnitude `significand · 2 ^ exponent` of a finite double, exactly. -/
def magnitude (m : Nat) (e : Int) : ℚ := m * 2 ^ e

theorem magnitude_nonneg (m : Nat) (e : Int) : 0 ≤ magnitude m e := by
  unfold magnitude
  positivity

theorem magnitude_pos {m : Nat} (positive : 0 < m) (e : Int) : 0 < magnitude m e := by
  unfold magnitude
  positivity

/-- The parts with the sign flipped; a NaN stays a NaN. -/
def Parts.neg : Parts → Parts
  | .nan => .nan
  | .infinity negative => .infinity (!negative)
  | .finite negative m e => .finite (!negative) m e

/-- The value `(-1)^negative · m · 2 ^ e` of a finite double. -/
def signedMagnitude (negative : Bool) (m : Nat) (e : Int) : ℚ :=
  if negative then -magnitude m e else magnitude m e

@[simp] theorem signedMagnitude_false (m : Nat) (e : Int) :
    signedMagnitude false m e = magnitude m e := rfl

@[simp] theorem signedMagnitude_true (m : Nat) (e : Int) :
    signedMagnitude true m e = -magnitude m e := rfl

@[simp] theorem signedMagnitude_zero (negative : Bool) (e : Int) :
    signedMagnitude negative 0 e = 0 := by
  cases negative <;> simp [magnitude]

/-- The value of parts on the extended line, the infinities at its ends. A NaN has no value and
is put at the bottom. -/
def Parts.toExtended : Parts → WithBot (WithTop ℚ)
  | .nan => ⊥
  | .infinity negative => if negative then ⊥ else ⊤
  | .finite negative m e => ((signedMagnitude negative m e : WithTop ℚ) : WithBot (WithTop ℚ))

/-! ### Parts determine the double -/

theorem signNegative_injective : Function.Injective signNegative := by
  intro s t same
  cases s <;> cases t <;> first | rfl | cases same

theorem ofUnpacked_injective : Function.Injective ofUnpacked := by
  intro u v same
  cases u <;> cases v <;> simp only [ofUnpacked, reduceCtorEq, Parts.infinity.injEq,
    Parts.finite.injEq] at same
  case infinity.infinity s t => rw [signNegative_injective same]
  case notANumber.notANumber => rfl
  case zero.zero s t => rw [signNegative_injective same.1]
  case zero.finite s t m e positive => omega
  case finite.zero s m e positive t => omega
  case finite.finite s m e positive t m' e' positive' =>
    obtain ⟨sign, rfl, rfl⟩ := same
    rw [signNegative_injective sign]

theorem parts_injective : Function.Injective parts := by
  intro x y same
  rw [parts_eq_ofUnpacked, parts_eq_ofUnpacked] at same
  have models : x.toModel = y.toModel := by
    rw [← pack_model_unpack x.toModel, ← pack_model_unpack y.toModel, ofUnpacked_injective same]
  cases x
  cases y
  cases models
  rfl

theorem unpack_pack_unpack (b : BitVec 64) :
    UnpackedFloat.unpack .binary64
        (UnpackedFloat.pack .binary64 (UnpackedFloat.unpack .binary64 b)) =
      UnpackedFloat.unpack .binary64 b := by
  by_cases nan : UnpackedFloat.unpack .binary64 b = .notANumber
  · rw [nan]
    rfl
  · have valid : Format.binary64.Valid b := ⟨fun top nonzero => by
      refine absurd ?_ nan
      unfold UnpackedFloat.unpack
      simp [top, nonzero]⟩
    rw [MatrixSteps.Binary.pack_unpack valid]

theorem parts_ofBits (b : UInt64) : parts (Float.ofBits b) = decode b := by
  rw [parts_eq_ofUnpacked, decode_eq_ofUnpacked]
  exact congrArg ofUnpacked (unpack_pack_unpack b.toBitVec)

theorem isNaN_iff (x : Float) : x.isNaN = true ↔ parts x = .nan := by
  show x.toModel.unpack.isNaN = true ↔ _
  rw [parts_eq_ofUnpacked]
  cases x.toModel.unpack <;> simp [UnpackedFloat.isNaN, ofUnpacked]

/-! ### Negation -/

theorem sign_packComponents (s : Sign) (exponent : BitVec 11) (fraction : BitVec 52) :
    Sign.ofBitVec (@unpackSign .binary64 (packComponents .binary64 s exponent fraction)) = s := by
  have exponentBelow := exponent.isLt
  have fractionBelow := fraction.isLt
  have packed := packComponents_toNat s exponent fraction
  apply signNegative_injective
  rw [signNegative_ofBitVec, signField_toNat, packed]
  cases s <;> simp only [signNegative, if_true, if_false, Bool.false_eq_true, beq_iff_eq,
    beq_eq_false_iff_ne] at packed ⊢ <;> omega

theorem unpack_packComponents_neg (s : Sign) (exponent : BitVec 11) (fraction : BitVec 52) :
    UnpackedFloat.unpack .binary64 (packComponents .binary64 (-s) exponent fraction) =
      (UnpackedFloat.unpack .binary64 (packComponents .binary64 s exponent fraction)).neg := by
  unfold UnpackedFloat.unpack
  simp only [unpackExponent_packComponents, unpackMantissa_packComponents, sign_packComponents]
  split_ifs <;> rfl

theorem unpack_neg (x : Float) : (-x).toModel.unpack = x.toModel.unpack.neg := by
  obtain ⟨⟨bits, valid⟩⟩ := x
  have fields := packComponents_fields bits.toBitVec
  change UnpackedFloat.unpack .binary64 (UnpackedFloat.pack .binary64
      (UnpackedFloat.unpack .binary64 bits.toBitVec).neg) =
    (UnpackedFloat.unpack .binary64 bits.toBitVec).neg
  rw [← fields, ← unpack_packComponents_neg, unpack_pack_unpack]

theorem signNegative_neg (s : Sign) : signNegative (-s) = !signNegative s := by
  cases s <;> rfl

theorem ofUnpacked_neg (u : UnpackedFloat) : ofUnpacked u.neg = (ofUnpacked u).neg := by
  cases u <;> simp [ofUnpacked, UnpackedFloat.neg, Parts.neg, signNegative_neg]

theorem parts_neg (x : Float) : parts (-x) = (parts x).neg := by
  rw [parts_eq_ofUnpacked, parts_eq_ofUnpacked, unpack_neg, ofUnpacked_neg]

/-! ### Order -/

/-- A significand and exponent that a finite double can have: below `2 ^ 52` at the least
exponent, or normal. -/
def InRange (m : Nat) (e : Int) : Prop := (m < 2 ^ 52 ∧ e = leastExponent) ∨ Normal m e

theorem InRange.small {m : Nat} {e : Int} (range : InRange m e) : m < 2 ^ 53 := by
  rcases range with ⟨small, _⟩ | ⟨_, small, _⟩ <;> omega

theorem InRange.least_le {m : Nat} {e : Int} (range : InRange m e) : leastExponent ≤ e := by
  rcases range with ⟨_, rfl⟩ | ⟨_, _, low, _⟩
  · exact le_refl _
  · exact low

theorem InRange.normal_of_above {m : Nat} {e : Int} (range : InRange m e)
    (above : leastExponent < e) : 2 ^ 52 ≤ m := by
  rcases range with ⟨_, rfl⟩ | ⟨normal, _⟩
  · exact absurd above (lt_irrefl _)
  · exact normal

theorem magnitude_lt_of_exponent_lt {m₁ m₂ : Nat} {e₁ e₂ : Int} (small : m₁ < 2 ^ 53)
    (normal : 2 ^ 52 ≤ m₂) (lt : e₁ < e₂) : magnitude m₁ e₁ < magnitude m₂ e₂ := by
  have step : (2 : ℚ) ^ e₁ * 2 ≤ 2 ^ e₂ := by
    rw [← zpow_add_one₀ two_ne_zero]
    exact zpow_le_zpow_right₀ (by norm_num) (by omega)
  have smallQ : (m₁ : ℚ) < 2 ^ 53 := by exact_mod_cast small
  have normalQ : (2 : ℚ) ^ 52 ≤ m₂ := by exact_mod_cast normal
  unfold magnitude
  calc (m₁ : ℚ) * 2 ^ e₁ < 2 ^ 53 * 2 ^ e₁ := by gcongr
    _ = 2 ^ 52 * (2 ^ e₁ * 2) := by ring
    _ ≤ 2 ^ 52 * 2 ^ e₂ := by gcongr
    _ ≤ m₂ * 2 ^ e₂ := by gcongr

theorem magnitude_le_iff {m₁ m₂ : Nat} {e₁ e₂ : Int} (range₁ : InRange m₁ e₁)
    (range₂ : InRange m₂ e₂) :
    magnitude m₁ e₁ ≤ magnitude m₂ e₂ ↔ e₁ < e₂ ∨ e₁ = e₂ ∧ m₁ ≤ m₂ := by
  constructor
  · intro le
    rcases lt_trichotomy e₁ e₂ with lt | rfl | gt
    · exact .inl lt
    · refine .inr ⟨rfl, ?_⟩
      have : (m₁ : ℚ) ≤ m₂ := le_of_mul_le_mul_right le (by positivity)
      exact_mod_cast this
    · have above : leastExponent < e₁ := lt_of_le_of_lt range₂.least_le gt
      exact absurd le (not_le.mpr
        (magnitude_lt_of_exponent_lt range₂.small (range₁.normal_of_above above) gt))
  · rintro (lt | ⟨rfl, le⟩)
    · have above : leastExponent < e₂ := lt_of_le_of_lt range₁.least_le lt
      exact (magnitude_lt_of_exponent_lt range₁.small (range₂.normal_of_above above) lt).le
    · unfold magnitude
      gcongr

theorem compare_then_isLE_iff (m₁ m₂ : Nat) (e₁ e₂ : Int) :
    ((compare e₁ e₂).then (compare m₁ m₂)).isLE ↔ e₁ < e₂ ∨ e₁ = e₂ ∧ m₁ ≤ m₂ := by
  rw [Ordering.isLE_then_iff_or, compare_lt_iff_lt, compare_eq_iff_eq, Ordering.isLE_iff_ne_gt,
    compare_gt_iff_gt, not_lt]

theorem compare_then_isGE_iff (m₁ m₂ : Nat) (e₁ e₂ : Int) :
    ((compare e₁ e₂).then (compare m₁ m₂)).isGE ↔ e₂ < e₁ ∨ e₂ = e₁ ∧ m₂ ≤ m₁ := by
  rw [Ordering.isGE_iff_ne_lt, Ordering.then_eq_lt, compare_lt_iff_lt, compare_eq_iff_eq,
    compare_lt_iff_lt]
  omega

theorem signedMagnitude_le_of_same_sign {negative : Bool} {m₁ m₂ : Nat} {e₁ e₂ : Int}
    (range₁ : InRange m₁ e₁) (range₂ : InRange m₂ e₂) :
    signedMagnitude negative m₁ e₁ ≤ signedMagnitude negative m₂ e₂ ↔
      if negative then e₂ < e₁ ∨ e₂ = e₁ ∧ m₂ ≤ m₁ else e₁ < e₂ ∨ e₁ = e₂ ∧ m₁ ≤ m₂ := by
  cases negative
  · exact magnitude_le_iff range₁ range₂
  · exact neg_le_neg_iff.trans (magnitude_le_iff range₂ range₁)

/-- The unpacked values that parts are read from: not a NaN, and finite ones in range. -/
def Ranged : UnpackedFloat → Prop
  | .notANumber => False
  | .finite _ m e _ => InRange m e
  | _ => True

theorem ranged_unpack {x : Float} (number : x.isNaN = false) : Ranged x.toModel.unpack := by
  have read := parts_eq_ofUnpacked x
  cases unpacked : x.toModel.unpack with
  | notANumber =>
      have : x.isNaN = true := by
        show x.toModel.unpack.isNaN = true
        rw [unpacked]
        rfl
      rw [number] at this
      exact absurd this Bool.false_ne_true
  | finite s m e positive =>
      rw [unpacked] at read
      exact decode_finite_range read
  | infinity s => trivial
  | zero s => trivial

theorem toExtended_finite_le {n n' : Bool} {m m' : Nat} {e e' : Int} :
    (Parts.finite n m e).toExtended ≤ (Parts.finite n' m' e').toExtended ↔
      signedMagnitude n m e ≤ signedMagnitude n' m' e' :=
  WithBot.coe_le_coe.trans WithTop.coe_le_coe

theorem toExtended_finite_lt_top (n : Bool) (m : Nat) (e : Int) :
    (Parts.finite n m e).toExtended < ⊤ :=
  WithBot.coe_lt_coe.mpr (WithTop.coe_lt_top _)

theorem compare_isLE_iff {u v : UnpackedFloat} (rangedU : Ranged u) (rangedV : Ranged v) :
    (u.compare v).any (·.isLE) = true ↔ (ofUnpacked u).toExtended ≤ (ofUnpacked v).toExtended := by
  cases u with
  | notANumber => exact rangedU.elim
  | infinity s =>
      cases v with
      | notANumber => exact rangedV.elim
      | infinity t => cases s <;> cases t <;> decide
      | zero t =>
          cases s
          · exact iff_of_true rfl bot_le
          · exact iff_of_false Bool.false_ne_true (not_le.mpr (toExtended_finite_lt_top ..))
      | finite t m e positive =>
          cases s
          · exact iff_of_true rfl bot_le
          · exact iff_of_false Bool.false_ne_true (not_le.mpr (toExtended_finite_lt_top ..))
  | zero s =>
      cases v with
      | notANumber => exact rangedV.elim
      | infinity t =>
          cases t
          · exact iff_of_false Bool.false_ne_true (not_le.mpr (WithBot.bot_lt_coe _))
          · exact iff_of_true rfl (toExtended_finite_lt_top ..).le
      | zero t => exact iff_of_true rfl (by simp [ofUnpacked, toExtended_finite_le])
      | finite t m e positive =>
          have above := magnitude_pos positive e
          simp only [ofUnpacked, toExtended_finite_le, signedMagnitude_zero]
          cases t
          · exact iff_of_false Bool.false_ne_true (by simpa [signNegative] using above)
          · exact iff_of_true rfl (by simpa [signNegative] using above.le)
  | finite s m e positive =>
      have above := magnitude_pos positive e
      cases v with
      | notANumber => exact rangedV.elim
      | infinity t =>
          cases t
          · exact iff_of_false Bool.false_ne_true (not_le.mpr (WithBot.bot_lt_coe _))
          · exact iff_of_true rfl (toExtended_finite_lt_top ..).le
      | zero t =>
          simp only [ofUnpacked, toExtended_finite_le, signedMagnitude_zero]
          cases s
          · exact iff_of_true rfl (by simpa [signNegative] using above.le)
          · exact iff_of_false Bool.false_ne_true (by simpa [signNegative] using above)
      | finite t m' e' positive' =>
          have above' := magnitude_pos positive' e'
          simp only [ofUnpacked, toExtended_finite_le]
          cases s <;> cases t
          case negative.negative =>
            rw [signedMagnitude_le_of_same_sign rangedU rangedV]
            simpa [UnpackedFloat.compare, signNegative] using compare_then_isGE_iff m m' e e'
          case negative.positive =>
            exact iff_of_true rfl (by simp [signNegative]; linarith)
          case positive.negative =>
            exact iff_of_false Bool.false_ne_true (by simp [signNegative]; linarith)
          case positive.positive =>
            rw [signedMagnitude_le_of_same_sign rangedU rangedV]
            simpa [UnpackedFloat.compare, signNegative] using compare_then_isLE_iff m m' e e'

theorem le_iff_toExtended {x y : Float} (xNumber : x.isNaN = false) (yNumber : y.isNaN = false) :
    x ≤ y ↔ (parts x).toExtended ≤ (parts y).toExtended := by
  rw [parts_eq_ofUnpacked, parts_eq_ofUnpacked,
    ← compare_isLE_iff (ranged_unpack xNumber) (ranged_unpack yNumber)]
  show decide (x.toModel ≤ y.toModel) = true ↔ _
  rw [decide_eq_true_iff]
  rfl

/-! ### Strict order, equality and absolute value -/

theorem compare_swap (u v : UnpackedFloat) : v.compare u = (u.compare v).map Ordering.swap := by
  rcases u with s | _ | s | ⟨s, m, e, positive⟩ <;> rcases v with t | _ | t | ⟨t, m', e', positive'⟩ <;>
    (try cases s) <;> (try cases t) <;>
    first | rfl | simp [UnpackedFloat.compare, Ordering.swap_then, Int.compare_swap, Nat.compare_swap]

theorem compare_isSome {u v : UnpackedFloat} (rangedU : Ranged u) (rangedV : Ranged v) :
    ∃ o, u.compare v = some o := by
  rcases u with s | _ | s | ⟨s, m, e, positive⟩ <;> rcases v with t | _ | t | ⟨t, m', e', positive'⟩ <;>
    (try cases s) <;> (try cases t) <;> simp_all [UnpackedFloat.compare, Ranged]

theorem lt_iff_toExtended {x y : Float} (xNumber : x.isNaN = false) (yNumber : y.isNaN = false) :
    x < y ↔ (parts x).toExtended < (parts y).toExtended := by
  rw [← not_le, ← le_iff_toExtended yNumber xNumber]
  obtain ⟨o, compared⟩ := compare_isSome (ranged_unpack xNumber) (ranged_unpack yNumber)
  show decide (x.toModel < y.toModel) = true ↔ ¬ decide (y.toModel ≤ x.toModel) = true
  rw [decide_eq_true_iff, decide_eq_true_iff]
  show x.toModel.unpack.lt y.toModel.unpack = true ↔ ¬ y.toModel.unpack.le x.toModel.unpack = true
  simp only [UnpackedFloat.lt, UnpackedFloat.le, compare_swap x.toModel.unpack, compared]
  cases o <;> decide

theorem beq_iff_toExtended {x y : Float} (xNumber : x.isNaN = false) (yNumber : y.isNaN = false) :
    (x == y) = true ↔ (parts x).toExtended = (parts y).toExtended := by
  refine Iff.trans ?_ le_antisymm_iff.symm
  rw [← le_iff_toExtended xNumber yNumber, ← le_iff_toExtended yNumber xNumber]
  obtain ⟨o, compared⟩ := compare_isSome (ranged_unpack xNumber) (ranged_unpack yNumber)
  show x.toModel.unpack.beq y.toModel.unpack = true ↔
    decide (x.toModel ≤ y.toModel) = true ∧ decide (y.toModel ≤ x.toModel) = true
  rw [decide_eq_true_iff, decide_eq_true_iff]
  show x.toModel.unpack.beq y.toModel.unpack = true ↔
    x.toModel.unpack.le y.toModel.unpack = true ∧ y.toModel.unpack.le x.toModel.unpack = true
  simp only [UnpackedFloat.beq, UnpackedFloat.le, compare_swap x.toModel.unpack, compared]
  cases o <;> decide

/-- The parts with the sign cleared. -/
def Parts.abs : Parts → Parts
  | .nan => .nan
  | .infinity _ => .infinity false
  | .finite _ m e => .finite false m e

theorem unpack_abs (x : Float) : x.abs.toModel.unpack = x.toModel.unpack.abs := by
  have cleared : x.toModel.unpack.abs = x.toModel.unpack ∨
      x.toModel.unpack.abs = x.toModel.unpack.neg := by
    rcases x.toModel.unpack with s | _ | s | ⟨s, m, e, positive⟩ <;> (try cases s) <;>
      simp [UnpackedFloat.abs, UnpackedFloat.neg] <;> rfl
  show UnpackedFloat.unpack _ (UnpackedFloat.pack _ x.toModel.unpack.abs) = _
  rcases cleared with same | flipped
  · rw [same]
    exact unpack_pack_unpack _
  · rw [flipped]
    exact unpack_neg x

theorem parts_abs (x : Float) : parts x.abs = (parts x).abs := by
  rw [parts_eq_ofUnpacked, parts_eq_ofUnpacked, unpack_abs]
  cases x.toModel.unpack <;> rfl

end MatrixSteps.Binary
