import Mathlib
import MatrixSteps.Number.Binary

/-!
The bits of a double read two ways: by `Binary.decode`, on natural numbers, and by the unpacking
of Lean's own model of doubles, on bit vectors, which its arithmetic works on. They agree
(`decode_eq_ofUnpacked`), so the exact reading of a double (`Binary.parts`) is the unpacked
value Lean computes with.

In the other direction, packing a zero or a normal unpacked value gives bits that decode to it
(`decode_pack_finite`, `decode_pack_zero`).
-/

namespace MatrixSteps.Binary

open Float.Model UnpackedFloat

def signNegative : Sign → Bool
  | .negative => true
  | .positive => false

/-- The parts of an unpacked double. A zero is the finite value with no significand at the least
exponent, as its bits decode. -/
def ofUnpacked : UnpackedFloat → Parts
  | .infinity s => .infinity (signNegative s)
  | .notANumber => .nan
  | .zero s => .finite (signNegative s) 0 leastExponent
  | .finite s m e _ => .finite (signNegative s) m e

/-- A significand of 53 bits with an exponent of a normal double. -/
def Normal (m : Nat) (e : Int) : Prop := 2 ^ 52 ≤ m ∧ m < 2 ^ 53 ∧ -1074 ≤ e ∧ e ≤ 971

theorem log2_of_normal {m : Nat} {e : Int} (normal : Normal m e) : m.log2 = 52 :=
  (Nat.log2_eq_iff (by have := normal.1; omega)).mpr ⟨normal.1, normal.2.1⟩

section Fields

variable (b : BitVec 64)

theorem exponentField_toNat :
    (@unpackExponent .binary64 b).toNat = b.toNat / 2 ^ fractionBits % 2 ^ 11 := by
  simp [unpackExponent, BitVec.extractLsb_toNat, Nat.shiftRight_eq_div_pow, fractionBits]

theorem fractionField_toNat :
    (@unpackMantissa .binary64 b).toNat = b.toNat % 2 ^ fractionBits := by
  simp [unpackMantissa, BitVec.extractLsb_toNat, fractionBits]

theorem signField_toNat : (@unpackSign .binary64 b).toNat = b.toNat / 2 ^ 63 := by
  have below := b.isLt
  simp [unpackSign, BitVec.extractLsb_toNat, Nat.shiftRight_eq_div_pow]
  omega

end Fields

theorem signNegative_ofBitVec (v : BitVec 1) :
    signNegative (Sign.ofBitVec v) = (v.toNat == 1) := by
  have below := v.isLt
  by_cases zero : v = 0#1
  · simp [Sign.ofBitVec, zero, signNegative]
  · have one : v.toNat = 1 := by
      have nonzero : v.toNat ≠ 0 := fun same => zero (BitVec.toNat_eq.mpr (by simpa using same))
      omega
    simp [Sign.ofBitVec, zero, signNegative, one]

theorem decode_eq_ofUnpacked (b : UInt64) :
    decode b = ofUnpacked (UnpackedFloat.unpack .binary64 b.toBitVec) := by
  have exponentBits := exponentField_toNat b.toBitVec
  have fractionBits' := fractionField_toNat b.toBitVec
  have signBits := signField_toNat b.toBitVec
  have signed : signNegative (Sign.ofBitVec (@unpackSign .binary64 b.toBitVec)) =
      (b.toNat / 2 ^ 63 == 1) := by
    rw [signNegative_ofBitVec, signBits]
    rfl
  have normal : (1#1 ++ @unpackMantissa .binary64 b.toBitVec).toNat =
      b.toNat % 2 ^ fractionBits + 2 ^ fractionBits := by
    rw [BitVec.toNat_append, fractionBits']
    show 1 <<< 52 ||| b.toNat % 2 ^ 52 = b.toNat % 2 ^ 52 + 2 ^ 52
    rw [← Nat.shiftLeft_add_eq_or_of_lt (Nat.mod_lt _ (by decide)), Nat.shiftLeft_eq]
    omega
  have bias : (Format.binary64.exponentBias : Int) = 1023 := rfl
  have eleven : (2 : Nat) ^ 11 = 2048 := rfl
  unfold decode UnpackedFloat.unpack
  simp only [BitVec.toNat_eq, exponentBits, fractionBits', eleven]
  by_cases infinite : b.toNat / 2 ^ fractionBits % 2048 = 2047
  · by_cases empty : b.toNat % 2 ^ fractionBits = 0
    · simp [infinite, empty, ofUnpacked, signed]
    · simp [infinite, empty, ofUnpacked]
  · by_cases subnormal : b.toNat / 2 ^ fractionBits % 2048 = 0
    · by_cases empty : b.toNat % 2 ^ fractionBits = 0
      · simp [subnormal, empty, ofUnpacked, signed]
      · simp [subnormal, empty, ofUnpacked, signed, leastExponent, bias]
    · simp [infinite, subnormal, ofUnpacked, signed, normal, bias]

theorem parts_eq_ofUnpacked (x : Float) : parts x = ofUnpacked x.toModel.unpack :=
  decode_eq_ofUnpacked x.toBits

theorem decode_finite_range {b : UInt64} {negative : Bool} {m : Nat} {e : Int}
    (decoded : decode b = .finite negative m e) :
    (m < 2 ^ 52 ∧ e = leastExponent) ∨ Normal m e := by
  have eleven : (2 : Nat) ^ 11 = 2048 := rfl
  unfold decode at decoded
  simp only [eleven] at decoded
  generalize biasedField : b.toNat / 2 ^ fractionBits % 2048 = biased at decoded
  have biasedBelow : biased < 2048 := biasedField ▸ Nat.mod_lt _ (by decide)
  generalize fractionField : b.toNat % 2 ^ fractionBits = fraction at decoded
  have fractionBelow : fraction < 2 ^ 52 := fractionField ▸ Nat.mod_lt _ (Nat.two_pow_pos _)
  by_cases top : biased = 2047
  · by_cases empty : fraction = 0 <;> simp [top, empty] at decoded
  · by_cases zero : biased = 0
    · simp [zero] at decoded
      obtain ⟨_, rfl, rfl⟩ := decoded
      exact Or.inl ⟨fractionBelow, rfl⟩
    · simp [top, zero, fractionBits] at decoded
      obtain ⟨_, rfl, rfl⟩ := decoded
      exact Or.inr ⟨by omega, by omega, by omega, by omega⟩

theorem decode_of_fields {bits : UInt64} {negative : Bool} {biased fraction : Nat}
    (fields : bits.toNat = (if negative then 2 ^ 63 else 0) + biased * 2 ^ 52 + fraction)
    (inRange : biased < 2047) (fractionBelow : fraction < 2 ^ 52) :
    decode bits =
      if biased = 0 then .finite negative fraction leastExponent
      else .finite negative (fraction + 2 ^ fractionBits) ((biased : Int) - 1075) := by
  have sign : bits.toNat / 2 ^ 63 = if negative then 1 else 0 := by
    rw [fields]
    split <;> omega
  have exponent : bits.toNat / 2 ^ 52 % 2 ^ 11 = biased := by
    rw [fields]
    split <;> omega
  have low : bits.toNat % 2 ^ 52 = fraction := by
    rw [fields]
    split <;> omega
  unfold decode
  simp only [fractionBits, sign, exponent, low]
  have notTop : (biased == 2047) = false := by
    rw [beq_eq_false_iff_ne]
    omega
  cases negative <;> by_cases zero : biased = 0 <;> simp [zero, notTop]

theorem signBit_toNat (s : Sign) : s.toBitVec.toNat = if signNegative s then 1 else 0 := by
  cases s <;> rfl

theorem packComponents_toNat (s : Sign) (exponent : BitVec 11) (fraction : BitVec 52) :
    (packComponents .binary64 s exponent fraction).toNat =
      (if signNegative s then 2 ^ 63 else 0) + exponent.toNat * 2 ^ 52 + fraction.toNat := by
  have exponentBelow := exponent.isLt
  have fractionBelow := fraction.isLt
  unfold packComponents
  rw [BitVec.toNat_append, BitVec.toNat_append, signBit_toNat,
    ← Nat.shiftLeft_add_eq_or_of_lt exponentBelow, ← Nat.shiftLeft_add_eq_or_of_lt fractionBelow]
  simp only [Nat.shiftLeft_eq]
  split
  · simp only [Nat.add_mul, Nat.one_mul]
    omega
  · simp only [Nat.add_mul, Nat.zero_mul]

theorem decode_pack_zero (s : Sign) :
    decode ⟨UnpackedFloat.pack .binary64 (.zero s)⟩ = .finite (signNegative s) 0 leastExponent := by
  have fields : (⟨UnpackedFloat.pack .binary64 (.zero s)⟩ : UInt64).toNat =
      (if signNegative s then 2 ^ 63 else 0) + 0 * 2 ^ 52 + 0 :=
    packComponents_toNat s 0 0
  rw [decode_of_fields fields (by decide) (by decide), if_pos rfl]

theorem decode_pack_finite {s : Sign} {m : Nat} {e : Int} (positive : 0 < m) (normal : Normal m e) :
    decode ⟨UnpackedFloat.pack .binary64 (.finite s m e positive)⟩ = .finite (signNegative s) m e := by
  obtain ⟨atLeast, below, low, high⟩ := normal
  have fits : ¬ 2 ^ 11 ≤ (e + 1023 + 52).toNat + 1 := by omega
  have fields : (⟨UnpackedFloat.pack .binary64 (.finite s m e positive)⟩ : UInt64).toNat =
      (if signNegative s then 2 ^ 63 else 0) + (e + 1075).toNat * 2 ^ 52 + (m - 2 ^ 52) := by
    show (UnpackedFloat.pack .binary64 (.finite s m e positive)).toNat = _
    unfold UnpackedFloat.pack
    have bias : ((Format.binary64.exponentBias : Nat) : Int) = 1023 := rfl
    have width : ((52 : Nat) : Int) = 52 := rfl
    simp only [log2_of_normal ⟨atLeast, below, low, high⟩, bias, width]
    have significant : 52 + 1 = Format.binary64.mantissaBits := rfl
    rw [if_neg fits, if_pos significant, packComponents_toNat, BitVec.toNat_ofNat,
      BitVec.toNat_ofNat]
    have biased : (e + 1023 + 52).toNat % 2 ^ 11 = (e + 1075).toNat := by omega
    have fraction : m % 2 ^ 52 = m - 2 ^ 52 := by omega
    rw [biased, fraction]
  have notZero : (e + 1075).toNat ≠ 0 := by omega
  rw [decode_of_fields fields (by omega) (by omega), if_neg notZero]
  have exponent : ((e + 1075).toNat : Int) - 1075 = e := by omega
  rw [exponent, fractionBits, Nat.sub_add_cancel atLeast]

end MatrixSteps.Binary
