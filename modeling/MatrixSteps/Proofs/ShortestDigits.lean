import Mathlib
import MatrixSteps.Proofs.ReadingInterval

/-!
The shortest digits of a double read back as it.

`Shortest.digits` tries grids of one, two, … significant digits and stops at the first grid with a
neighbour of the double inside its reading interval. A neighbour that `pick` returns is inside
(`pick_inside`), and some neighbour is inside as soon as the grid is finer than the interval is
wide (`pick_isSome`). The exponent of the leading digit is exact (`leadingExponent_spec`): the
estimate `⌊bits · 0.30103⌋` is off by at most one over the exponents of doubles, read through
`10 ^ 30102 < 2 ^ 100000 < 10 ^ 30103`, and the adjustment corrects up to four. So the grid of 17
digits is fine enough (`grid_finer`), and the search ends inside the interval on a nonzero grid
point (`digits_spec`). A whole double is reached on the grid of units at the latest, so its digits
need no fraction (`digits_exponent_nonneg`).
-/

namespace MatrixSteps.Decimal

theorem normalize_go_spec (fuel : Nat) :
    ∀ {digits : Nat} (exponent : Int), 0 < digits → digits ≤ fuel →
      (normalize.go digits exponent fuel).toRat = (⟨digits, exponent⟩ : Decimal).toRat ∧
        0 < (normalize.go digits exponent fuel).digits ∧
        (normalize.go digits exponent fuel).digits % 10 ≠ 0 ∧
        exponent ≤ (normalize.go digits exponent fuel).exponent := by
  induction fuel with
  | zero => intro digits exponent positive within; omega
  | succ fuel ih =>
      intro digits exponent positive within
      rw [normalize.go]
      split_ifs with divisible
      · obtain ⟨value, positive', last, raised⟩ := @ih (digits / 10) (exponent + 1)
          (by omega) (by omega)
        refine ⟨value.trans ?_, positive', last, by omega⟩
        have split : ((digits / 10 : Nat) : ℚ) * 10 = digits := by
          exact_mod_cast Nat.div_mul_cancel (Nat.dvd_of_mod_eq_zero divisible)
        simp only [toRat, zpow_add₀ (by norm_num : (10 : ℚ) ≠ 0), zpow_one]
        rw [← split]
        ring
      · exact ⟨rfl, positive, divisible, le_rfl⟩

theorem normalize_spec {d : Decimal} (positive : 0 < d.digits) :
    d.normalize.toRat = d.toRat ∧ 0 < d.normalize.digits ∧ d.normalize.digits % 10 ≠ 0 ∧
      d.exponent ≤ d.normalize.exponent := by
  rw [normalize, if_neg positive.ne']
  exact normalize_go_spec d.digits d.exponent positive le_rfl

end MatrixSteps.Decimal

namespace MatrixSteps.Shortest

open Binary

variable {m : Nat} {e t : Int}

theorem gridFloor_spec (m : Nat) (e t : Int) :
    (gridFloor m e t : ℚ) ≤ magnitude m e * 10 ^ (-t) ∧
      magnitude m e * 10 ^ (-t) < gridFloor m e t + 1 := by
  have ratio : ((m * 2 ^ e.toNat * 10 ^ (-t).toNat : Nat) : ℚ) /
      ((2 ^ (-e).toNat * 10 ^ t.toNat : Nat) : ℚ) = magnitude m e * 10 ^ (-t) := by
    rw [magnitude, ← zpow_toNat_div two_ne_zero e,
      ← zpow_toNat_div (by norm_num : (10 : ℚ) ≠ 0) (-t), neg_neg]
    push_cast
    field_simp
  have floor := Nat.floor_div_eq_div (K := ℚ) (m * 2 ^ e.toNat * 10 ^ (-t).toNat)
    (2 ^ (-e).toNat * 10 ^ t.toNat)
  rw [ratio] at floor
  unfold gridFloor
  rw [← floor]
  exact ⟨Nat.floor_le (mul_nonneg (magnitude_nonneg m e) (by positivity)), Nat.lt_floor_add_one _⟩

theorem pick_inside {c : Nat} (picked : pick m e t = some c) : inside m e c t = true := by
  unfold pick at picked
  dsimp only at picked
  generalize compareScaled (2 * gridFloor m e t + 1) t m (e + 1) = side at picked
  cases lower : inside m e (gridFloor m e t) t <;>
    cases upper : inside m e (gridFloor m e t + 1) t <;>
    simp only [lower, upper, Bool.and_self, Bool.and_true, Bool.and_false, Bool.false_eq_true,
      if_true, if_false, Option.some.injEq, reduceCtorEq] at picked
  · rw [← picked, upper]
  · rw [← picked, lower]
  · cases side <;> simp only [Option.some.injEq] at picked <;> rw [← picked]
    · exact upper
    · split_ifs
      · exact lower
      · exact upper
    · exact lower

theorem pick_isSome_of_inside (lower : inside m e (gridFloor m e t) t = true) :
    (pick m e t).isSome := by
  unfold pick
  dsimp only
  generalize compareScaled (2 * gridFloor m e t + 1) t m (e + 1) = side
  cases upper : inside m e (gridFloor m e t + 1) t <;> cases side <;> simp [lower]

theorem pick_isSome_of_inside_upper (upper : inside m e (gridFloor m e t + 1) t = true) :
    (pick m e t).isSome := by
  unfold pick
  dsimp only
  generalize compareScaled (2 * gridFloor m e t + 1) t m (e + 1) = side
  cases lower : inside m e (gridFloor m e t) t <;> cases side <;> simp [upper]

theorem quarter_place (k : ℚ) (e : Int) : k * 2 ^ (e - 2) = k / 4 * 2 ^ e := by
  rw [zpow_sub₀ two_ne_zero]
  ring

theorem center_inside (nonzero : 0 < m) :
    ((interval m e).low : ℚ) * 2 ^ (e - 2) < magnitude m e ∧
      magnitude m e < (interval m e).high * 2 ^ (e - 2) := by
  have place : (0 : ℚ) < 2 ^ e := by positivity
  rw [quarter_place, quarter_place, interval_low_div nonzero, interval_high_div, magnitude]
  constructor
  · split_ifs <;> exact mul_lt_mul_of_pos_right (by linarith) place
  · exact mul_lt_mul_of_pos_right (by linarith) place

theorem pick_isSome (nonzero : 0 < m)
    (wide : (10 : ℚ) ^ t < (((interval m e).high : ℚ) - (interval m e).low) * 2 ^ (e - 2)) :
    (pick m e t).isSome := by
  obtain ⟨floorLow, floorHigh⟩ := gridFloor_spec m e t
  obtain ⟨centerLow, centerHigh⟩ := center_inside (e := e) nonzero
  have grid : (0 : ℚ) < 10 ^ t := by positivity
  have unscale : magnitude m e * 10 ^ (-t) * 10 ^ t = magnitude m e := by
    rw [mul_assoc, ← zpow_add₀ (by norm_num), neg_add_cancel, zpow_zero, mul_one]
  have below : (gridFloor m e t : ℚ) * 10 ^ t ≤ magnitude m e := by
    rw [← unscale]
    exact mul_le_mul_of_nonneg_right floorLow grid.le
  have above : magnitude m e < ((gridFloor m e t + 1 : Nat) : ℚ) * 10 ^ t := by
    rw [← unscale]
    push_cast
    exact mul_lt_mul_of_pos_right floorHigh grid
  by_contra none
  have lowerOut : ¬ (interval m e).Holds e ((gridFloor m e t : Nat) * 10 ^ t) := fun holds =>
    none (pick_isSome_of_inside ((inside_iff m e _ t).mpr holds))
  have upperOut : ¬ (interval m e).Holds e ((gridFloor m e t + 1 : Nat) * 10 ^ t) := fun holds =>
    none (pick_isSome_of_inside_upper ((inside_iff m e _ t).mpr holds))
  have lowerEnd : (gridFloor m e t : ℚ) * 10 ^ t ≤ (interval m e).low * 2 ^ (e - 2) := by
    by_contra inside
    exact lowerOut ⟨.inl (not_le.mp inside), .inl (by linarith)⟩
  have upperEnd :
      ((interval m e).high : ℚ) * 2 ^ (e - 2) ≤ ((gridFloor m e t + 1 : Nat) : ℚ) * 10 ^ t := by
    by_contra inside
    exact upperOut ⟨.inl (by linarith), .inl (not_le.mp inside)⟩
  push_cast at upperEnd
  nlinarith

/-- The search stops at the first grid that reads back, so from `n` digits it returns a grid point
that reads back, on a grid no finer than any that reads back further on. -/
theorem search_spec {E : Int} (fuel : Nat) :
    ∀ {n j : Nat}, j < fuel → (pick m e (E - (n + j : Nat) + 1)).isSome →
      pick m e (search m e E n fuel).exponent = some (search m e E n fuel).digits ∧
        E - (n + j : Nat) + 1 ≤ (search m e E n fuel).exponent := by
  induction fuel with
  | zero => intro n j within; omega
  | succ fuel ih =>
      intro n j within found
      unfold search
      dsimp only
      cases picked : pick m e (E - n + 1) with
      | some c =>
          exact ⟨picked, by push_cast; omega⟩
      | none =>
          cases j with
          | zero =>
              rw [Nat.add_zero, picked] at found
              cases found
          | succ j =>
              have later := ih (n := n + 1) (j := j) (by omega)
                (by rwa [Nat.add_right_comm, Nat.add_assoc])
              refine ⟨later.1, ?_⟩
              have := later.2
              push_cast at this ⊢
              omega

/-! ### The leading decimal exponent -/

theorem ten_pow_below_two_pow : (10 : ℚ) ^ (30102 : Int) < 2 ^ (100000 : Int) := by
  have anchor : (10 : ℕ) ^ 30102 < 2 ^ 100000 := by decide +kernel
  exact_mod_cast anchor

theorem two_pow_below_ten_pow : (2 : ℚ) ^ (100000 : Int) < 10 ^ (30103 : Int) := by
  have anchor : (2 : ℕ) ^ 100000 < 10 ^ 30103 := by decide +kernel
  exact_mod_cast anchor

theorem zpow_le_zpow_of_nonpos {x y : ℚ} {b : Int} (positive : 0 < y) (le : y ≤ x)
    (nonpos : b ≤ 0) : x ^ b ≤ y ^ b := by
  obtain ⟨k, rfl⟩ : ∃ k, b = -k := ⟨-b, by ring⟩
  rw [zpow_neg, zpow_neg, inv_le_inv₀ (zpow_pos (positive.trans_le le) k) (zpow_pos positive k)]
  exact zpow_le_zpow_left₀ (by omega) positive.le le

theorem ten_zpow_le_two_zpow {a b : Int}
    (below : 0 ≤ b ∧ 100000 * a ≤ 30102 * b ∨ b ≤ 0 ∧ 100000 * a ≤ 30103 * b) :
    (10 : ℚ) ^ a ≤ 2 ^ b := by
  rw [← zpow_le_zpow_iff_left₀ (by positivity) (by positivity) (by norm_num : (0 : Int) < 100000),
    ← zpow_mul, ← zpow_mul, mul_comm b, zpow_mul (2 : ℚ) 100000 b]
  rcases below with ⟨up, scaled⟩ | ⟨down, scaled⟩
  · calc (10 : ℚ) ^ (a * 100000) ≤ 10 ^ ((30102 : Int) * b) :=
          zpow_le_zpow_right₀ (by norm_num) (by omega)
      _ = ((10 : ℚ) ^ (30102 : Int)) ^ b := zpow_mul _ _ _
      _ ≤ ((2 : ℚ) ^ (100000 : Int)) ^ b :=
          zpow_le_zpow_left₀ up (by positivity) ten_pow_below_two_pow.le
  · calc (10 : ℚ) ^ (a * 100000) ≤ 10 ^ ((30103 : Int) * b) :=
          zpow_le_zpow_right₀ (by norm_num) (by omega)
      _ = ((10 : ℚ) ^ (30103 : Int)) ^ b := zpow_mul _ _ _
      _ ≤ ((2 : ℚ) ^ (100000 : Int)) ^ b :=
          zpow_le_zpow_of_nonpos (by positivity) two_pow_below_ten_pow.le down

theorem two_zpow_le_ten_zpow {a b : Int}
    (above : 0 ≤ b ∧ 30103 * b ≤ 100000 * a ∨ b ≤ 0 ∧ 30102 * b ≤ 100000 * a) :
    (2 : ℚ) ^ b ≤ 10 ^ a := by
  rw [← zpow_le_zpow_iff_left₀ (by positivity) (by positivity) (by norm_num : (0 : Int) < 100000),
    ← zpow_mul, ← zpow_mul, mul_comm b, zpow_mul (2 : ℚ) 100000 b]
  rcases above with ⟨up, scaled⟩ | ⟨down, scaled⟩
  · calc ((2 : ℚ) ^ (100000 : Int)) ^ b ≤ ((10 : ℚ) ^ (30103 : Int)) ^ b :=
          zpow_le_zpow_left₀ up (by positivity) two_pow_below_ten_pow.le
      _ = 10 ^ ((30103 : Int) * b) := (zpow_mul _ _ _).symm
      _ ≤ 10 ^ (a * 100000) := zpow_le_zpow_right₀ (by norm_num) (by omega)
  · calc ((2 : ℚ) ^ (100000 : Int)) ^ b ≤ ((10 : ℚ) ^ (30102 : Int)) ^ b :=
          zpow_le_zpow_of_nonpos (by positivity) ten_pow_below_two_pow.le down
      _ = 10 ^ ((30102 : Int) * b) := (zpow_mul _ _ _).symm
      _ ≤ 10 ^ (a * 100000) := zpow_le_zpow_right₀ (by norm_num) (by omega)

/-- The estimate `⌊bits · 0.30103⌋` of the leading decimal exponent `E` of a value in
`[2 ^ bits, 2 ^ (bits + 1))` is off by at most one, for the exponents of doubles. -/
theorem guess_near {x : ℚ} {bits E : Int} (range : -1074 ≤ bits ∧ bits ≤ 1023)
    (low : 2 ^ bits ≤ x) (high : x < 2 ^ (bits + 1)) (lowE : 10 ^ E ≤ x)
    (highE : x < 10 ^ (E + 1)) :
    ((bits * 30103).fdiv 100000 - E).natAbs ≤ 1 := by
  rw [Int.fdiv_eq_ediv_of_nonneg _ (by norm_num)]
  generalize guessed : bits * 30103 / 100000 = g
  have floor : 100000 * g ≤ bits * 30103 ∧ bits * 30103 < 100000 * g + 100000 := by omega
  have lower : (10 : ℚ) ^ (g - 1) ≤ x :=
    (ten_zpow_le_two_zpow (by omega)).trans low
  have upper : x < 10 ^ (g + 2) :=
    high.trans_le (two_zpow_le_ten_zpow (by omega))
  have notBelow : g - 1 ≤ E := by
    by_contra below
    have : (10 : ℚ) ^ (E + 1) ≤ 10 ^ (g - 1) := zpow_le_zpow_right₀ (by norm_num) (by omega)
    linarith
  have notAbove : E ≤ g + 1 := by
    by_contra above
    have : (10 : ℚ) ^ (g + 2) ≤ 10 ^ E := zpow_le_zpow_right₀ (by norm_num) (by omega)
    linarith
  omega

theorem compareScaled_one (E : Int) (m : Nat) (e : Int) :
    compareScaled 1 E m e = compare ((10 : ℚ) ^ E) (magnitude m e) := by
  rw [compareScaled_eq, Nat.cast_one, one_mul, magnitude]

theorem adjust_eq {E' : Int} (low : (10 : ℚ) ^ E' ≤ magnitude m e)
    (high : magnitude m e < 10 ^ (E' + 1)) (fuel : Nat) :
    ∀ E : Int, (E - E').natAbs ≤ fuel → leadingExponent.adjust m e E fuel = E' := by
  induction fuel with
  | zero =>
      intro E near
      rw [leadingExponent.adjust]
      omega
  | succ fuel ih =>
      intro E near
      rw [leadingExponent.adjust, compareScaled_one, compareScaled_one]
      rcases lt_trichotomy E E' with below | same | above
      · have first : (10 : ℚ) ^ E ≤ magnitude m e :=
          (zpow_le_zpow_right₀ (by norm_num) below.le).trans low
        have next : (10 : ℚ) ^ (E + 1) ≤ magnitude m e :=
          (zpow_le_zpow_right₀ (by norm_num) (by omega)).trans low
        rw [if_neg (by simpa [compare_gt_iff_gt] using first),
          if_pos (by simpa [compare_gt_iff_gt] using next)]
        exact ih (E + 1) (by omega)
      · subst same
        rw [if_neg (by simpa [compare_gt_iff_gt] using low),
          if_neg (by simpa [compare_gt_iff_gt] using high)]
      · have past : magnitude m e < 10 ^ E :=
          high.trans_le (zpow_le_zpow_right₀ (by norm_num) (by omega))
        rw [if_pos (by simpa [compare_gt_iff_gt] using past)]
        exact ih (E - 1) (by omega)

theorem leadingExponent_spec (range : InRange m e) (nonzero : 0 < m) :
    (10 : ℚ) ^ leadingExponent m e ≤ magnitude m e ∧
      magnitude m e < 10 ^ (leadingExponent m e + 1) := by
  have positive := magnitude_pos nonzero e
  have low : ((10 : Nat) : ℚ) ^ Int.log 10 (magnitude m e) ≤ magnitude m e :=
    Int.zpow_log_le_self (by norm_num) positive
  have high : magnitude m e < ((10 : Nat) : ℚ) ^ (Int.log 10 (magnitude m e) + 1) :=
    Int.lt_zpow_succ_log_self (by norm_num) _
  push_cast at low high
  suffices exact : leadingExponent m e = Int.log 10 (magnitude m e) by
    rw [exact]
    exact ⟨low, high⟩
  have bitLow : 2 ^ m.log2 ≤ m := Nat.log2_self_le nonzero.ne'
  have bitHigh : m < 2 ^ (m.log2 + 1) := Nat.lt_log2_self
  have bits : m.log2 ≤ 52 := by
    have := (Nat.log2_lt nonzero.ne').mpr range.small
    omega
  have least := range.least_le
  have top : e ≤ 971 := by
    rcases range with ⟨-, least⟩ | ⟨-, -, -, high⟩
    · rw [least]
      decide
    · exact high
  have lowBit : (2 : ℚ) ^ ((m.log2 : Int) + e) ≤ magnitude m e := by
    rw [magnitude, zpow_add₀ two_ne_zero, zpow_natCast]
    exact mul_le_mul_of_nonneg_right (by exact_mod_cast bitLow) (by positivity)
  have highBit : magnitude m e < (2 : ℚ) ^ ((m.log2 : Int) + e + 1) := by
    rw [magnitude, add_right_comm, zpow_add₀ two_ne_zero, ← Nat.cast_succ, zpow_natCast]
    exact mul_lt_mul_of_pos_right (by exact_mod_cast bitHigh) (by positivity)
  unfold leadingExponent
  exact adjust_eq low high 4 _
    ((guess_near ⟨by simp [leastExponent] at least; omega, by omega⟩ lowBit highBit low high).trans
      (by norm_num))

theorem grid_finer (range : InRange m e) (nonzero : 0 < m) :
    (10 : ℚ) ^ (leadingExponent m e - 16) <
      (((interval m e).high : ℚ) - (interval m e).low) * 2 ^ (e - 2) := by
  have lead := (leadingExponent_spec range nonzero).1
  have place : (0 : ℚ) < 2 ^ e := by positivity
  have smallQ : (m : ℚ) < 2 ^ 53 := by exact_mod_cast range.small
  have scaled : (10 : ℚ) ^ (leadingExponent m e - 16) ≤ m * 2 ^ e / 10 ^ 16 := by
    rw [zpow_sub₀ (by norm_num)]
    exact div_le_div_of_nonneg_right lead (by positivity)
  rw [sub_mul, quarter_place, quarter_place, ← sub_mul, interval_high_div, interval_low_div nonzero]
  split_ifs with narrow
  · have least : (m : ℚ) = 2 ^ 52 := by exact_mod_cast narrow.1
    rw [show (m : ℚ) + 1 / 2 - (m - 1 / 4) = 3 / 4 by ring]
    calc (10 : ℚ) ^ (leadingExponent m e - 16) ≤ m * 2 ^ e / 10 ^ 16 := scaled
      _ < 3 / 4 * 2 ^ e := by
          rw [div_lt_iff₀ (by positivity), least]
          nlinarith
  · rw [show (m : ℚ) + 1 / 2 - (m - 1 / 2) = 1 by ring, one_mul]
    calc (10 : ℚ) ^ (leadingExponent m e - 16) ≤ m * 2 ^ e / 10 ^ 16 := scaled
      _ < 2 ^ e := by
          rw [div_lt_iff₀ (by positivity)]
          nlinarith

theorem search_reads_back (range : InRange m e) (nonzero : 0 < m) :
    (interval m e).Holds e (search m e (leadingExponent m e) 1 17).toRat ∧
      0 < (search m e (leadingExponent m e) 1 17).digits := by
  have last : leadingExponent m e - ((1 + 16 : Nat) : Int) + 1 = leadingExponent m e - 16 := by
    push_cast
    ring
  have found : (pick m e (leadingExponent m e - ((1 + 16 : Nat) : Int) + 1)).isSome := by
    rw [last]
    exact pick_isSome nonzero (grid_finer range nonzero)
  obtain ⟨picked, -⟩ := search_spec 17 (n := 1) (j := 16) (by norm_num) found
  generalize search m e (leadingExponent m e) 1 17 = r at picked ⊢
  have holds : (interval m e).Holds e r.toRat := (inside_iff m e _ _).mp (pick_inside picked)
  refine ⟨holds, Nat.pos_of_ne_zero fun zero => ?_⟩
  have lowPositive : (0 : ℚ) < (interval m e).low * 2 ^ (e - 2) := by
    rw [quarter_place, interval_low_div nonzero]
    have : (1 : ℚ) ≤ m := by exact_mod_cast nonzero
    split_ifs <;> exact mul_pos (by linarith) (by positivity)
  rw [Decimal.toRat, zero, Nat.cast_zero, zero_mul] at holds
  rcases holds.1 with below | ⟨-, onEnd⟩ <;> linarith

theorem digits_spec (range : InRange m e) (nonzero : 0 < m) :
    (interval m e).Holds e (digits m e).toRat ∧ 0 < (digits m e).digits ∧
      (digits m e).digits % 10 ≠ 0 := by
  obtain ⟨holds, positive⟩ := search_reads_back range nonzero
  obtain ⟨value, positive', last, -⟩ := Decimal.normalize_spec positive
  rw [digits, value]
  exact ⟨holds, positive', last⟩

theorem digits_exponent_nonneg (range : InRange m e) (nonzero : 0 < m) {K : Nat}
    (whole : magnitude m e = K) : 0 ≤ (digits m e).exponent := by
  obtain ⟨lead, below⟩ := leadingExponent_spec range nonzero
  have positive : (0 : ℚ) < K := whole ▸ magnitude_pos nonzero e
  have units : 0 ≤ leadingExponent m e := by
    by_contra negative
    have : (10 : ℚ) ^ (leadingExponent m e + 1) ≤ 1 :=
      zpow_le_one_of_nonpos₀ (by norm_num) (by omega)
    have : (1 : ℚ) ≤ K := by exact_mod_cast (show 1 ≤ K by exact_mod_cast positive)
    linarith
  have reached : ∃ j < 17, 0 ≤ leadingExponent m e - ((1 + j : Nat) : Int) + 1 ∧
      (pick m e (leadingExponent m e - ((1 + j : Nat) : Int) + 1)).isSome := by
    by_cases far : 16 ≤ leadingExponent m e
    · refine ⟨16, by norm_num, by push_cast; omega, ?_⟩
      rw [show leadingExponent m e - ((1 + 16 : Nat) : Int) + 1 = leadingExponent m e - 16 by
        push_cast; ring]
      exact pick_isSome nonzero (grid_finer range nonzero)
    · refine ⟨(leadingExponent m e).toNat, by omega, by omega, ?_⟩
      rw [show leadingExponent m e - ((1 + (leadingExponent m e).toNat : Nat) : Int) + 1 = 0 by
        push_cast; omega]
      apply pick_isSome_of_inside
      obtain ⟨floorLow, floorHigh⟩ := gridFloor_spec m e 0
      rw [zpow_neg, zpow_zero, inv_one, mul_one, whole] at floorLow floorHigh
      have onGrid : gridFloor m e 0 = K := by
        have low : gridFloor m e 0 ≤ K := by exact_mod_cast floorLow
        have high : K < gridFloor m e 0 + 1 := by exact_mod_cast floorHigh
        omega
      rw [onGrid, inside_iff, zpow_zero, mul_one, ← whole]
      exact ⟨.inl (center_inside nonzero).1, .inl (center_inside nonzero).2⟩
  obtain ⟨j, within, nonnegative, found⟩ := reached
  obtain ⟨-, after⟩ := search_spec 17 (n := 1) within found
  obtain ⟨-, -, -, raised⟩ := Decimal.normalize_spec (d := search m e (leadingExponent m e) 1 17)
    (search_reads_back range nonzero).2
  exact nonnegative.trans (after.trans raised)

end MatrixSteps.Shortest
