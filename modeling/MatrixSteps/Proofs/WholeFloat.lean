import MatrixSteps.Proofs.FloatBits

/-!
Doubles that hold whole numbers. Below `2 ^ 53` in magnitude every whole number is a double, and
the sum, difference and product of two such doubles is computed exactly when the exact result is
again below that bound (`Whole.add`, `Whole.sub`, `Whole.mul`).

The proofs follow Lean's own model of doubles: an operation unpacks its operands to a sign, a
significand and an exponent, computes on integers, and rounds the result to 53 bits. The rounding
changes nothing when the exact result has at most 53 significant bits and a normal exponent, which a
whole number up to `2 ^ 53` has. Values are compared without fractions: a significand `m` at
exponent `e` is the whole number `k` when `m · 2 ^ e⁺ = |k| · 2 ^ e⁻`.
-/

namespace MatrixSteps.Binary

open Float.Model UnpackedFloat

section Rounding

theorem shiftRight_exact (m : Nat) : ∀ n, 2 ^ n ∣ m →
    (⟨m, false, false⟩ : ExtendedMantissa) >>> n = ⟨m / 2 ^ n, false, false⟩
  | 0, _ => by simp [HShiftRight.hShiftRight, Nat.repeat]
  | n + 1, divides => by
      have earlier := shiftRight_exact m n (Nat.dvd_trans (Nat.pow_dvd_pow 2 (Nat.le_succ n)) divides)
      change ExtendedMantissa.shiftRightOne ((⟨m, false, false⟩ : ExtendedMantissa) >>> n) = _
      rw [earlier]
      obtain ⟨q, rfl⟩ := divides
      have even : 2 ^ (n + 1) * q / 2 ^ n = 2 * q := by
        rw [Nat.pow_succ, Nat.mul_comm (2 ^ n) 2, Nat.mul_assoc, Nat.mul_left_comm,
          Nat.mul_div_cancel_left _ (Nat.two_pow_pos n)]
      simp [ExtendedMantissa.shiftRightOne, even, Nat.mul_div_cancel_left _ (Nat.two_pow_pos (n + 1))]

theorem log2_mul_two_pow {m : Nat} (k : Nat) (nonzero : m ≠ 0) : (m * 2 ^ k).log2 = m.log2 + k := by
  rw [Nat.log2_eq_iff (Nat.mul_ne_zero nonzero (Nat.pos_iff_ne_zero.mp (Nat.two_pow_pos k)))]
  constructor
  · rw [Nat.pow_add]
    exact Nat.mul_le_mul_right _ (Nat.log2_self_le nonzero)
  · rw [Nat.add_right_comm, Nat.pow_add]
    exact Nat.mul_lt_mul_of_pos_right Nat.lt_log2_self (Nat.two_pow_pos k)

/-- A whole number from one to `2 ^ 53`, shifted to 53 bits: its significand as a normal double,
with the exponent of its leading bit less 52, and no bit lost. -/
theorem normal_quotient {V : Nat} (nonzero : 0 < V) (bounded : V ≤ 2 ^ 53) :
    V * 2 ^ (-((V.log2 : Int) - 52)).toNat % 2 ^ ((V.log2 : Int) - 52).toNat = 0 ∧
      Normal (V * 2 ^ (-((V.log2 : Int) - 52)).toNat / 2 ^ ((V.log2 : Int) - 52).toNat)
        ((V.log2 : Int) - 52) := by
  have lower := Nat.log2_self_le (Nat.pos_iff_ne_zero.mp nonzero)
  have upper : V < 2 ^ (V.log2 + 1) := Nat.lt_log2_self
  have top : V.log2 ≤ 53 := by
    have := (Nat.log2_lt (Nat.pos_iff_ne_zero.mp nonzero)).mpr (Nat.lt_of_le_of_lt bounded
      (Nat.pow_lt_pow_right (by decide) (Nat.lt_succ_self 53)))
    omega
  by_cases short : V.log2 ≤ 52
  · have up : (-((V.log2 : Int) - 52)).toNat = 52 - V.log2 := by omega
    have down : ((V.log2 : Int) - 52).toNat = 0 := by omega
    rw [up, down, Nat.pow_zero, Nat.mod_one, Nat.div_one]
    refine ⟨rfl, ?_, ?_, by omega, by omega⟩
    · calc 2 ^ 52 = 2 ^ V.log2 * 2 ^ (52 - V.log2) := by rw [← Nat.pow_add]; congr 1; omega
        _ ≤ V * 2 ^ (52 - V.log2) := Nat.mul_le_mul_right _ lower
    · calc V * 2 ^ (52 - V.log2) < 2 ^ (V.log2 + 1) * 2 ^ (52 - V.log2) :=
            Nat.mul_lt_mul_of_pos_right upper (Nat.two_pow_pos _)
        _ = 2 ^ 53 := by rw [← Nat.pow_add]; congr 1; omega
  · have leading : V.log2 = 53 := by omega
    have full : V = 2 ^ 53 := by
      rw [leading] at lower
      omega
    rw [leading, full]
    exact ⟨by decide, by decide, by decide, by decide, by decide⟩

theorem exists_normal_form {V : Nat} (nonzero : 0 < V) (bounded : V ≤ 2 ^ 53) :
    ∃ M, Normal M ((V.log2 : Int) - 52) ∧
      M * 2 ^ ((V.log2 : Int) - 52).toNat = V * 2 ^ (-((V.log2 : Int) - 52)).toNat :=
  let ⟨exact, normal⟩ := normal_quotient nonzero bounded
  ⟨_, normal, Nat.div_mul_cancel (Nat.dvd_of_mod_eq_zero exact)⟩

theorem targetExponent_eq {m : Nat} {e T : Int} (leading : (m.log2 : Int) + e = T + 52)
    (inRange : -1074 ≤ T) : Format.binary64.targetExponent (totalExponent m e) = T := by
  have minimum : Format.binary64.minExponent = -1074 := rfl
  have width : Format.binary64.mantissaBits = 53 := rfl
  simp only [Format.targetExponent, totalExponent, minimum, width]
  omega

theorem roundWithAccuracy_split {s : Sign} {m M : Nat} {e T : Int} (positive : 0 < M)
    (normal : Normal M T) (below : e ≤ T) (split : m = M * 2 ^ (T - e).toNat) :
    roundWithAccuracy .binary64 s m e .exact = .finite s M T positive := by
  have leadingM := log2_of_normal normal
  have leading : (m.log2 : Int) + e = T + 52 := by
    rw [split, log2_mul_two_pow _ (by omega)]
    omega
  have first := targetExponent_eq leading normal.2.2.1
  have second : Format.binary64.targetExponent (totalExponent M T) = T :=
    targetExponent_eq (by omega) normal.2.2.1
  have shifted : (⟨m, false, false⟩ : ExtendedMantissa) >>> (T - e).toNat = ⟨M, false, false⟩ := by
    rw [shiftRight_exact m _ ⟨M, by rw [split, Nat.mul_comm]⟩, split,
      Nat.mul_div_cancel _ (Nat.two_pow_pos _)]
  have arrived : e + ((T - e).toNat : Int) = T := by omega
  have stays : (⟨M, false, false⟩ : ExtendedMantissa) >>> 0 = ⟨M, false, false⟩ := rfl
  unfold roundWithAccuracy shiftToTargetExponent shiftToExponent
  have rounded : (⟨M, false, false⟩ : ExtendedMantissa).roundedMantissa = M := rfl
  simp only [first, ExtendedMantissa.ofMantissaAndAccuracy, shifted, arrived, rounded, second,
    Int.sub_self, Int.toNat_zero, stays]
  rw [dif_neg (Nat.pos_iff_ne_zero.mp positive)]
  simp

end Rounding

section Scaling

theorem scaled_of_cross {m V : Nat} {e : Int} (c : Nat) (scaled : 0 ≤ e + c)
    (cross : m * 2 ^ e.toNat = V * 2 ^ (-e).toNat) : m * 2 ^ (e + c).toNat = V * 2 ^ c := by
  have left : (e + c).toNat = e.toNat + (c - (-e).toNat) := by omega
  rw [left, Nat.pow_add, ← Nat.mul_assoc, cross, Nat.mul_assoc, ← Nat.pow_add]
  congr 2
  omega

theorem cross_of_split {m V a b : Nat} {e : Int} (value : m * 2 ^ a = V * 2 ^ b)
    (difference : (a : Int) - b = e) : m * 2 ^ e.toNat = V * 2 ^ (-e).toNat := by
  apply Nat.eq_of_mul_eq_mul_right (Nat.two_pow_pos (a - e.toNat))
  rw [Nat.mul_assoc, Nat.mul_assoc, ← Nat.pow_add, ← Nat.pow_add]
  have left : e.toNat + (a - e.toNat) = a := by omega
  have right : (-e).toNat + (a - e.toNat) = b := by omega
  rw [left, right, value]

theorem cross_shift {v k e t : Int} (d : Nat) (shift : e = t + d)
    (cross : v * 2 ^ e.toNat = k * 2 ^ (-e).toNat) : v * 2 ^ d * 2 ^ t.toNat = k * 2 ^ (-t).toNat := by
  have positive : (2 : Int) ^ (-e).toNat ≠ 0 := Int.ne_of_gt (Int.pow_pos (by decide))
  apply Int.eq_of_mul_eq_mul_right positive
  calc v * 2 ^ d * 2 ^ t.toNat * 2 ^ (-e).toNat = v * 2 ^ e.toNat * 2 ^ (-t).toNat := by
        rw [Int.mul_assoc, Int.mul_assoc, Int.mul_assoc, ← Int.pow_add, ← Int.pow_add, ← Int.pow_add]
        congr 2
        omega
    _ = k * 2 ^ (-t).toNat * 2 ^ (-e).toNat := by
        rw [cross, Int.mul_assoc, Int.mul_assoc, Int.mul_comm (2 ^ (-e).toNat)]

end Scaling

/-- The unpacked double is the whole number `k`: a zero for `0`, or a normal double whose value
`m · 2 ^ e` is `k`. -/
def WholeUnpacked : UnpackedFloat → Int → Prop
  | .zero _, k => k = 0
  | .finite s m e _, k =>
      Normal m e ∧ m * 2 ^ e.toNat = k.natAbs * 2 ^ (-e).toNat ∧ signNegative s = decide (k < 0)
  | _, _ => False

theorem natAbs_apply (s : Sign) (n : Nat) : (s.apply (n : Int)).natAbs = n := by
  cases s <;> simp [Sign.apply]

theorem signNegative_apply (s : Sign) {n : Nat} (positive : 0 < n) :
    signNegative s = decide (s.apply (n : Int) < 0) := by
  cases s with
  | negative => simpa [Sign.apply, signNegative] using positive
  | positive => simp [Sign.apply, signNegative, Int.not_lt.mpr (Int.natCast_nonneg n)]

theorem signed_natAbs {negative : Bool} {k : Int} (sign : k = 0 ∨ negative = decide (k < 0)) :
    (if negative then -(k.natAbs : Int) else (k.natAbs : Int)) = k := by
  rcases sign with rfl | sign
  · cases negative <;> rfl
  · cases negative with
    | false =>
        have nonnegative : ¬ k < 0 := by simpa using sign
        exact Int.natAbs_of_nonneg (by omega)
    | true =>
        have negative : k < 0 := by simpa using sign
        show -(k.natAbs : Int) = k
        rw [Int.ofNat_natAbs_of_nonpos (by omega), Int.neg_neg]

theorem negative_of_signed (negative : Bool) {q : Nat} (positive : 0 < q) :
    negative = decide ((if negative then -(q : Int) else q) < 0) := by
  cases negative with
  | false => exact (decide_eq_false (by simp only [Bool.false_eq_true, if_false]; omega)).symm
  | true => exact (decide_eq_true (by simp only [if_true]; omega)).symm

theorem mantissa_eq_zero_iff {m : Nat} {e k : Int}
    (cross : m * 2 ^ e.toNat = k.natAbs * 2 ^ (-e).toNat) : m = 0 ↔ k = 0 := by
  have scale : 2 ^ e.toNat ≠ 0 := Nat.pos_iff_ne_zero.mp (Nat.two_pow_pos _)
  have unit : 2 ^ (-e).toNat ≠ 0 := Nat.pos_iff_ne_zero.mp (Nat.two_pow_pos _)
  constructor
  · intro zero
    rw [zero, Nat.zero_mul] at cross
    exact Int.natAbs_eq_zero.mp ((Nat.mul_eq_zero.mp cross.symm).resolve_right unit)
  · intro zero
    rw [zero, Int.natAbs_zero, Nat.zero_mul] at cross
    exact (Nat.mul_eq_zero.mp cross).resolve_right scale

theorem apply_eq_signed (s : Sign) (n : Int) : s.apply n = if signNegative s then -n else n := by
  cases s <;> rfl

theorem apply_natAbs_of_sign {s : Sign} {k : Int} (sign : signNegative s = decide (k < 0)) :
    s.apply (k.natAbs : Int) = k := by
  rw [apply_eq_signed]
  exact signed_natAbs (.inr sign)

theorem whole_finite_ne_zero {s : Sign} {m : Nat} {e : Int} {h : 0 < m} {k : Int}
    (whole : WholeUnpacked (.finite s m e h) k) : k ≠ 0 := by
  intro zero
  exact Nat.pos_iff_ne_zero.mp h ((mantissa_eq_zero_iff whole.2.1).mpr zero)

theorem apply_cross {s : Sign} {m : Nat} {e : Int} {h : 0 < m} {k : Int}
    (whole : WholeUnpacked (.finite s m e h) k) : s.apply (m : Int) * 2 ^ e.toNat = k * 2 ^ (-e).toNat := by
  obtain ⟨_, magnitudes, sign⟩ := whole
  rw [← apply_natAbs_of_sign sign]
  have cast : (m : Int) * 2 ^ e.toNat = (k.natAbs : Int) * 2 ^ (-e).toNat := by
    exact_mod_cast magnitudes
  cases s <;> simp [Sign.apply, cast]

theorem apply_shiftLeft (s : Sign) (m d : Nat) :
    s.apply ((m <<< d : Nat) : Int) = s.apply (m : Int) * 2 ^ d := by
  cases s <;> simp [Sign.apply, Nat.shiftLeft_eq]

theorem apply_neg (s : Sign) (n : Int) : (-s).apply n = -s.apply n := by
  cases s
  · show n = - -n
    omega
  · rfl

theorem neg_whole {u : UnpackedFloat} {k : Int} (whole : WholeUnpacked u k) :
    WholeUnpacked u.neg (-k) := by
  cases u with
  | infinity s => exact whole.elim
  | notANumber => exact whole.elim
  | zero s =>
      have zero : k = 0 := whole
      show -k = 0
      omega
  | finite s m e h =>
      have nonzero := whole_finite_ne_zero whole
      obtain ⟨normal, magnitudes, sign⟩ := whole
      refine ⟨normal, by rw [Int.natAbs_neg]; exact magnitudes, ?_⟩
      cases s <;> simp [signNegative] at sign ⊢ <;> omega

theorem zero_add_whole {u : UnpackedFloat} {k : Int} (whole : WholeUnpacked u k) :
    WholeUnpacked (UnpackedFloat.add .binary64 (.zero .positive) u) k := by
  cases u with
  | infinity s => exact whole.elim
  | notANumber => exact whole.elim
  | zero s =>
      show WholeUnpacked (if (Sign.positive == s) = true then .zero .positive else .zero .positive) k
      split <;> exact whole
  | finite s m e h => exact whole

theorem roundWithAccuracy_whole {s : Sign} {m : Nat} {e : Int} (c : Nat) {V : Nat} (wide : 52 ≤ c)
    (value : m * 2 ^ (e + c).toNat = V * 2 ^ c) (scaled : 0 ≤ e + c) (nonzero : 0 < V)
    (bounded : V ≤ 2 ^ 53) (fine : e ≤ (V.log2 : Int) - 52) :
    WholeUnpacked (roundWithAccuracy .binary64 s m e .exact) (s.apply V) := by
  obtain ⟨M, normal, cross⟩ := exists_normal_form nonzero bounded
  have positive : 0 < M := by have := normal.1; omega
  have split : m = M * 2 ^ ((V.log2 : Int) - 52 - e).toNat := by
    have atScale := scaled_of_cross c (by omega) cross
    have exponents : ((V.log2 : Int) - 52 + c).toNat = ((V.log2 : Int) - 52 - e).toNat + (e + c).toNat := by
      omega
    rw [exponents, Nat.pow_add, ← Nat.mul_assoc, ← value] at atScale
    exact (Nat.eq_of_mul_eq_mul_right (Nat.two_pow_pos _) atScale).symm
  rw [roundWithAccuracy_split positive normal fine split]
  refine ⟨normal, ?_, signNegative_apply s nonzero⟩
  rw [natAbs_apply]
  exact cross

theorem round_whole {s : Sign} {m : Nat} {e : Int} (c : Nat) {V : Nat} (wide : 52 ≤ c)
    (value : m * 2 ^ (e + c).toNat = V * 2 ^ c) (scaled : 0 ≤ e + c) (positive : 0 < m)
    (nonzero : 0 < V) (bounded : V ≤ 2 ^ 53) :
    WholeUnpacked (UnpackedFloat.round .binary64 s m e) (s.apply V) := by
  have leading : (m.log2 : Int) + e = V.log2 := by
    have logs := congrArg Nat.log2 value
    rw [log2_mul_two_pow _ (by omega), log2_mul_two_pow _ (by omega)] at logs
    omega
  have top : V.log2 ≤ 53 := by
    have := (Nat.log2_lt (Nat.pos_iff_ne_zero.mp nonzero)).mpr (Nat.lt_of_le_of_lt bounded
      (Nat.pow_lt_pow_right (by decide) (Nat.lt_succ_self 53)))
    omega
  have target := targetExponent_eq (m := m) (e := e) (T := (V.log2 : Int) - 52) (by omega) (by omega)
  unfold UnpackedFloat.round
  simp only [target, decreaseExponent, Nat.shiftLeft_eq]
  apply roundWithAccuracy_whole c wide _ (by omega) nonzero bounded (by omega)
  have exponents : (e + c).toNat = (e - ((e - ((V.log2 : Int) - 52)).toNat : Int) + c).toNat +
      (e - ((V.log2 : Int) - 52)).toNat := by omega
  rw [Nat.mul_assoc, ← Nat.pow_add, Nat.add_comm, ← exponents, value]

theorem normalize_whole {mantissa e k : Int} (zeroSign : Sign)
    (value : mantissa * 2 ^ e.toNat = k * 2 ^ (-e).toNat) (scaled : -1074 ≤ e)
    (bounded : k.natAbs ≤ 2 ^ 53) : WholeUnpacked (UnpackedFloat.normalize .binary64 mantissa e zeroSign) k := by
  have magnitudes : mantissa.natAbs * 2 ^ e.toNat = k.natAbs * 2 ^ (-e).toNat := by
    have := congrArg Int.natAbs value
    simpa [Int.natAbs_mul, Int.natAbs_pow] using this
  have scaledValue := scaled_of_cross (52 + (-e).toNat) (by omega) magnitudes
  have left : (0 : Int) < 2 ^ e.toNat := Int.pow_pos (by decide)
  have right : (0 : Int) < 2 ^ (-e).toNat := Int.pow_pos (by decide)
  unfold UnpackedFloat.normalize
  split
  next below =>
    have negative : mantissa < 0 := Int.compare_eq_lt.mp below
    have negativeK : k < 0 := by
      have product := Int.mul_neg_of_neg_of_pos negative left
      rw [value] at product
      exact Int.lt_of_not_ge fun nonnegative =>
        Int.not_le.mpr product (Int.mul_nonneg nonnegative (Int.le_of_lt right))
    have magnitude : (-mantissa).toNat = mantissa.natAbs := by omega
    have whole := round_whole (s := .negative) (m := (-mantissa).toNat) (e := e) (52 + (-e).toNat) (by omega)
      (by rw [magnitude]; exact scaledValue) (by omega) (by omega) (by omega) bounded
    rwa [apply_natAbs_of_sign (by simp [signNegative, negativeK])] at whole
  next same =>
    have zero : mantissa = 0 := Int.compare_eq_eq.mp same
    rw [zero, Int.zero_mul] at value
    exact (Int.mul_eq_zero.mp value.symm).resolve_right (Int.ne_of_gt right)
  next above =>
    have positive : 0 < mantissa := Int.compare_eq_gt.mp above
    have positiveK : 0 < k := by
      have product := Int.mul_pos positive left
      rw [value] at product
      exact Int.lt_of_not_ge fun nonpositive =>
        Int.not_le.mpr product (Int.mul_nonpos_of_nonpos_of_nonneg nonpositive (Int.le_of_lt right))
    have magnitude : mantissa.toNat = mantissa.natAbs := by omega
    have whole := round_whole (s := .positive) (m := mantissa.toNat) (e := e) (52 + (-e).toNat) (by omega)
      (by rw [magnitude]; exact scaledValue) (by omega) (by omega) (by omega) bounded
    rwa [apply_natAbs_of_sign (by simp [signNegative]; omega)] at whole

theorem add_whole {a b : UnpackedFloat} {x y : Int} (first : WholeUnpacked a x)
    (second : WholeUnpacked b y) (bounded : (x + y).natAbs ≤ 2 ^ 53) :
    WholeUnpacked (UnpackedFloat.add .binary64 a b) (x + y) := by
  cases a with
  | infinity s => exact first.elim
  | notANumber => exact first.elim
  | zero s₁ =>
      have zeroX : x = 0 := first
      cases b with
      | infinity s => exact second.elim
      | notANumber => exact second.elim
      | zero s₂ =>
          have zeroY : y = 0 := second
          show WholeUnpacked (if (s₁ == s₂) = true then .zero s₁ else .zero .positive) (x + y)
          split <;> (show x + y = 0; omega)
      | finite s₂ m₂ e₂ h₂ =>
          rw [zeroX, Int.zero_add]
          exact second
  | finite s₁ m₁ e₁ h₁ =>
      cases b with
      | infinity s => exact second.elim
      | notANumber => exact second.elim
      | zero s₂ =>
          have zeroY : y = 0 := second
          rw [zeroY, Int.add_zero]
          exact first
      | finite s₂ m₂ e₂ h₂ =>
          have alignedX := cross_shift (t := min e₁ e₂) (e₁ - min e₁ e₂).toNat (by omega)
            (apply_cross first)
          have alignedY := cross_shift (t := min e₁ e₂) (e₂ - min e₁ e₂).toNat (by omega)
            (apply_cross second)
          have low : -1074 ≤ min e₁ e₂ := by
            have := first.1.2.2.1
            have := second.1.2.2.1
            omega
          unfold UnpackedFloat.add
          simp only [decreaseExponent]
          apply normalize_whole .positive _ low bounded
          rw [apply_shiftLeft, apply_shiftLeft, Int.add_mul, alignedX, alignedY, Int.add_mul]

theorem sub_eq_add_neg (a b : UnpackedFloat) :
    UnpackedFloat.sub .binary64 a b = UnpackedFloat.add .binary64 a b.neg := by
  cases a <;> cases b <;>
    simp [UnpackedFloat.sub, UnpackedFloat.add, UnpackedFloat.neg, apply_neg, Int.sub_eq_add_neg]

theorem sub_whole {a b : UnpackedFloat} {x y : Int} (first : WholeUnpacked a x)
    (second : WholeUnpacked b y) (bounded : (x - y).natAbs ≤ 2 ^ 53) :
    WholeUnpacked (UnpackedFloat.sub .binary64 a b) (x - y) := by
  rw [sub_eq_add_neg, Int.sub_eq_add_neg]
  rw [Int.sub_eq_add_neg] at bounded
  exact add_whole first (neg_whole second) bounded

theorem signNegative_mul {s₁ s₂ : Sign} {x y : Int} (nonzeroX : x ≠ 0) (nonzeroY : y ≠ 0)
    (signX : signNegative s₁ = decide (x < 0)) (signY : signNegative s₂ = decide (y < 0)) :
    signNegative (s₁ * s₂) = decide (x * y < 0) := by
  cases s₁ <;> cases s₂ <;> simp [signNegative] at signX signY ⊢
  · exact Int.le_of_lt (Int.mul_pos_of_neg_of_neg signX signY)
  · exact Int.mul_neg_of_neg_of_pos signX (by omega)
  · exact Int.mul_neg_of_pos_of_neg (by omega) signY
  · exact Int.mul_nonneg signX signY

theorem mul_whole {a b : UnpackedFloat} {x y : Int} (first : WholeUnpacked a x)
    (second : WholeUnpacked b y) (bounded : (x * y).natAbs ≤ 2 ^ 53) :
    WholeUnpacked (UnpackedFloat.mul .binary64 a b) (x * y) := by
  cases a with
  | infinity s => exact first.elim
  | notANumber => exact first.elim
  | zero s₁ =>
      have zeroX : x = 0 := first
      cases b with
      | infinity s => exact second.elim
      | notANumber => exact second.elim
      | zero s₂ => show x * y = 0; rw [zeroX, Int.zero_mul]
      | finite s₂ m₂ e₂ h₂ => show x * y = 0; rw [zeroX, Int.zero_mul]
  | finite s₁ m₁ e₁ h₁ =>
      cases b with
      | infinity s => exact second.elim
      | notANumber => exact second.elim
      | zero s₂ =>
          have zeroY : y = 0 := second
          show x * y = 0
          rw [zeroY, Int.mul_zero]
      | finite s₂ m₂ e₂ h₂ =>
          have nonzeroX := whole_finite_ne_zero first
          have nonzeroY := whole_finite_ne_zero second
          obtain ⟨normalX, magnitudeX, signX⟩ := first
          obtain ⟨normalY, magnitudeY, signY⟩ := second
          have product : m₁ * m₂ * 2 ^ (e₁.toNat + e₂.toNat) =
              (x * y).natAbs * 2 ^ ((-e₁).toNat + (-e₂).toNat) := by
            rw [Int.natAbs_mul, Nat.pow_add, Nat.pow_add, Nat.mul_mul_mul_comm, magnitudeX,
              magnitudeY, Nat.mul_mul_mul_comm]
          have cross := cross_of_split (e := e₁ + e₂) product (by omega)
          have scaled := scaled_of_cross (52 + (-(e₁ + e₂)).toNat) (by omega) cross
          have nonzero : 0 < (x * y).natAbs := by
            rw [Int.natAbs_mul]
            exact Nat.mul_pos (Int.natAbs_pos.mpr nonzeroX) (Int.natAbs_pos.mpr nonzeroY)
          have wide : 104 ≤ (m₁ * m₂).log2 := by
            rw [Nat.le_log2 (Nat.pos_iff_ne_zero.mp (Nat.mul_pos h₁ h₂))]
            calc 2 ^ 104 = 2 ^ 52 * 2 ^ 52 := by rw [← Nat.pow_add]
              _ ≤ m₁ * m₂ := Nat.mul_le_mul normalX.1 normalY.1
          have leading : ((m₁ * m₂).log2 : Int) + (e₁ + e₂) = (x * y).natAbs.log2 := by
            have logs := congrArg Nat.log2 scaled
            rw [log2_mul_two_pow _ (Nat.pos_iff_ne_zero.mp (Nat.mul_pos h₁ h₂)),
              log2_mul_two_pow _ (Nat.pos_iff_ne_zero.mp nonzero)] at logs
            omega
          have whole := roundWithAccuracy_whole (s := s₁ * s₂) (52 + (-(e₁ + e₂)).toNat) (by omega)
            scaled (by omega) nonzero bounded (by omega)
          rwa [apply_natAbs_of_sign (signNegative_mul nonzeroX nonzeroY signX signY)] at whole

theorem toInt?_finite_of_cross {negative : Bool} {m : Nat} {e : Int} {k : Int}
    (cross : m * 2 ^ e.toNat = k.natAbs * 2 ^ (-e).toNat) (sign : k = 0 ∨ negative = decide (k < 0)) :
    (Parts.finite negative m e).toInt? = some k := by
  have divides : m * 2 ^ e.toNat % 2 ^ (-e).toNat = 0 := by
    rw [cross]
    exact Nat.mul_mod_left _ _
  have quotient : m * 2 ^ e.toNat / 2 ^ (-e).toNat = k.natAbs := by
    rw [cross, Nat.mul_div_cancel _ (Nat.two_pow_pos _)]
  have integral : (Parts.finite negative m e).isIntegral = true := by
    simp only [Parts.isIntegral, Bool.or_eq_true, decide_eq_true_eq, beq_iff_eq]
    by_cases nonnegative : 0 ≤ e
    · exact Or.inl nonnegative
    · have : e.toNat = 0 := by omega
      rw [this, Nat.pow_zero, Nat.mul_one] at divides
      exact Or.inr divides
  have magnitude : (m : Int) * 2 ^ e.toNat / 2 ^ (-e).toNat = (k.natAbs : Int) := by
    exact_mod_cast quotient
  simp only [Parts.toInt?, integral, if_true, magnitude, Option.some.injEq]
  exact signed_natAbs sign

theorem scale_dvd_of_isIntegral {negative : Bool} {m : Nat} {e : Int}
    (integral : (Parts.finite negative m e).isIntegral = true) : 2 ^ (-e).toNat ∣ m * 2 ^ e.toNat := by
  simp only [Parts.isIntegral, Bool.or_eq_true, decide_eq_true_eq, beq_iff_eq] at integral
  rcases integral with nonnegative | remainder
  · have : (-e).toNat = 0 := by omega
    rw [this, Nat.pow_zero]
    exact Nat.one_dvd _
  · exact Nat.dvd_trans (Nat.dvd_of_mod_eq_zero remainder) (Nat.dvd_mul_right _ _)

theorem cross_of_toInt? {negative : Bool} {m : Nat} {e : Int} {k : Int}
    (read : (Parts.finite negative m e).toInt? = some k) :
    m * 2 ^ e.toNat = k.natAbs * 2 ^ (-e).toNat ∧ (0 < m → negative = decide (k < 0)) := by
  simp only [Parts.toInt?] at read
  split at read
  next integral =>
    have divides := scale_dvd_of_isIntegral integral
    have magnitude : (m : Int) * 2 ^ e.toNat / 2 ^ (-e).toNat =
        ((m * 2 ^ e.toNat / 2 ^ (-e).toNat : Nat) : Int) := by
      exact_mod_cast rfl
    simp only [magnitude, Option.some.injEq] at read
    have natAbs : k.natAbs = m * 2 ^ e.toNat / 2 ^ (-e).toNat := by
      rw [← read]
      cases negative <;> simp only [Bool.false_eq_true, if_false, if_true, Int.natAbs_neg,
        Int.natAbs_natCast]
    refine ⟨by rw [natAbs, Nat.div_mul_cancel divides], fun positive => ?_⟩
    have quotientPositive : 0 < m * 2 ^ e.toNat / 2 ^ (-e).toNat :=
      Nat.div_pos (Nat.le_of_dvd (Nat.mul_pos positive (Nat.two_pow_pos _)) divides)
        (Nat.two_pow_pos _)
    rw [← read]
    exact negative_of_signed negative quotientPositive
  · cases read

theorem wholeUnpacked_of_decode {b : UInt64} {k : Int} (read : (decode b).toInt? = some k) :
    WholeUnpacked (UnpackedFloat.unpack .binary64 b.toBitVec) k := by
  have decoded := decode_eq_ofUnpacked b
  generalize UnpackedFloat.unpack .binary64 b.toBitVec = u at decoded
  cases u with
  | infinity s => rw [decoded] at read; cases read
  | notANumber => rw [decoded] at read; cases read
  | zero s =>
      rw [decoded] at read
      exact (mantissa_eq_zero_iff (cross_of_toInt? read).1).mp rfl
  | finite s m e h =>
      rw [decoded] at read
      obtain ⟨cross, sign⟩ := cross_of_toInt? read
      rcases decode_finite_range decoded with ⟨small, least⟩ | normal
      · exfalso
        have flat : e.toNat = 0 := by
          rw [least]
          rfl
        have wide : 2 ^ 52 ≤ 2 ^ (-e).toNat :=
          Nat.pow_le_pow_right (by decide) (by rw [least]; decide)
        rw [flat, Nat.pow_zero, Nat.mul_one] at cross
        generalize 2 ^ (-e).toNat = unit at cross wide
        have : 0 < k.natAbs := by
          rcases Nat.eq_zero_or_pos k.natAbs with zero | positive
          · rw [zero, Nat.zero_mul] at cross
            omega
          · exact positive
        have : unit ≤ k.natAbs * unit := Nat.le_mul_of_pos_left unit this
        omega
      · exact ⟨normal, cross, sign h⟩

end MatrixSteps.Binary

namespace MatrixSteps

open Float.Model UnpackedFloat Binary

/-- The double is the whole number `k`, read exactly. -/
def Whole (x : Float) (k : Int) : Prop := (Binary.parts x).toInt? = some k

namespace Whole

theorem unpack {x : Float} {k : Int} (whole : Whole x k) : WholeUnpacked x.toModel.unpack k :=
  wholeUnpacked_of_decode whole

theorem ofModel_pack {u : UnpackedFloat} {k : Int} (whole : WholeUnpacked u k) :
    Whole (Float.ofModel (Float.Model.pack u)) k := by
  unfold Whole
  cases u with
  | infinity s => exact whole.elim
  | notANumber => exact whole.elim
  | zero s =>
      show (decode ⟨UnpackedFloat.pack .binary64 (.zero s)⟩).toInt? = some k
      rw [decode_pack_zero]
      have zero : k = 0 := whole
      exact toInt?_finite_of_cross (by rw [zero, Int.natAbs_zero, Nat.zero_mul, Nat.zero_mul])
        (Or.inl zero)
  | finite s m e h =>
      obtain ⟨normal, cross, sign⟩ := whole
      show (decode ⟨UnpackedFloat.pack .binary64 (.finite s m e h)⟩).toInt? = some k
      rw [decode_pack_finite h normal]
      exact toInt?_finite_of_cross cross (Or.inr sign)

theorem ofBits {b : UInt64} {k : Int} (read : (decode b).toInt? = some k) : Whole (Float.ofBits b) k :=
  ofModel_pack (wholeUnpacked_of_decode read)

theorem zero : Whole 0.0 0 := by
  have read : parts 0.0 = .finite false 0 leastExponent := rfl
  rw [Whole, read]
  exact toInt?_finite_of_cross (by rw [Int.natAbs_zero, Nat.zero_mul, Nat.zero_mul]) (Or.inl rfl)

theorem zero_add {x : Float} {k : Int} (whole : Whole x k) : Whole (0.0 + x) k := by
  have zeroUnpacked : (0.0 : Float).toModel.unpack = .zero .positive := rfl
  have sum := ofModel_pack (zero_add_whole whole.unpack)
  rwa [← zeroUnpacked] at sum

theorem add {x y : Float} {a b : Int} (first : Whole x a) (second : Whole y b)
    (bounded : (a + b).natAbs ≤ 2 ^ 53) : Whole (x + y) (a + b) :=
  ofModel_pack (add_whole first.unpack second.unpack bounded)

theorem sub {x y : Float} {a b : Int} (first : Whole x a) (second : Whole y b)
    (bounded : (a - b).natAbs ≤ 2 ^ 53) : Whole (x - y) (a - b) :=
  ofModel_pack (sub_whole first.unpack second.unpack bounded)

theorem mul {x y : Float} {a b : Int} (first : Whole x a) (second : Whole y b)
    (bounded : (a * b).natAbs ≤ 2 ^ 53) : Whole (x * y) (a * b) :=
  ofModel_pack (mul_whole first.unpack second.unpack bounded)

end Whole

end MatrixSteps
