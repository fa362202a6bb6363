import Mathlib
import MatrixSteps.Proofs.CellRounding
import MatrixSteps.Proofs.TransposeLaws

/-!
Products with an identity matrix round their other factor. A cell of `A·I` adds, from `+0`, the
products of a row of `A` with a column of the identity: every term but one is a zero of either sign,
and the one term left is the cell of `A` times one. A zero added to a running sum that is not `-0`
changes nothing, so the sum is `+0 + A[i][j]`: the cell itself, or `+0` for a `-0` cell
(`foldl_unitColumn`). The product then rounds it, so `A·I` and `I·A` hold the rounded cells of `A`,
equal as values (`identity_products_round`). A matrix that a product or a scalar operation returned
is rounded already, and so is its own product with the identity; the identity itself is rounded
and never `-0`, so every power of it is the identity bit for bit.
-/

namespace MatrixSteps

namespace Binary

open Float.Model UnpackedFloat

/-- The double is a zero of either sign. -/
def IsZero (x : Float) : Prop := ∃ s, x.toModel.unpack = .zero s

section Rounding

theorem targetExponent_inRange {m : Nat} {e : Int} (positive : 0 < m) (range : InRange m e) (k : Nat) :
    Format.binary64.targetExponent (totalExponent (m * 2 ^ k) (e - k)) = e := by
  have minimum : Format.binary64.minExponent = -1074 := rfl
  have width : Format.binary64.mantissaBits = 53 := rfl
  have shifted := log2_mul_two_pow k (Nat.pos_iff_ne_zero.mp positive)
  simp only [Format.targetExponent, totalExponent, minimum, width, shifted]
  rcases range with ⟨small, least⟩ | normal
  · have short : m.log2 < 52 := (Nat.log2_lt (Nat.pos_iff_ne_zero.mp positive)).mpr small
    rw [least, leastExponent]
    omega
  · have leading := log2_of_normal normal
    have low := normal.2.2.1
    omega

theorem roundWithAccuracy_inRange {s : Sign} {m : Nat} {e : Int} (positive : 0 < m)
    (range : InRange m e) (k : Nat) :
    roundWithAccuracy .binary64 s (m * 2 ^ k) (e - k) .exact = .finite s m e positive := by
  have first := targetExponent_inRange positive range k
  have second : Format.binary64.targetExponent (totalExponent m e) = e := by
    simpa using targetExponent_inRange positive range 0
  have shift : (e - (e - k)).toNat = k := by omega
  have shifted : (⟨m * 2 ^ k, false, false⟩ : ExtendedMantissa) >>> k = ⟨m, false, false⟩ := by
    rw [shiftRight_exact _ _ (Nat.dvd_mul_left _ _), Nat.mul_div_cancel _ (Nat.two_pow_pos _)]
  have arrived : e - k + (k : Int) = e := by omega
  have stays : (⟨m, false, false⟩ : ExtendedMantissa) >>> 0 = ⟨m, false, false⟩ := rfl
  have rounded : (⟨m, false, false⟩ : ExtendedMantissa).roundedMantissa = m := rfl
  unfold roundWithAccuracy shiftToTargetExponent shiftToExponent
  simp only [first, shift, ExtendedMantissa.ofMantissaAndAccuracy, shifted, arrived, rounded, second,
    Int.sub_self, Int.toNat_zero, stays]
  rw [dif_neg (Nat.pos_iff_ne_zero.mp positive)]
  simp

end Rounding

section Products

theorem one_unpack : (1.0 : Float).toModel.unpack = .finite .positive (2 ^ 52) (-52) (by decide) :=
  rfl

theorem sign_mul_positive (s : Sign) : s * .positive = s := by
  cases s <;> rfl

theorem mul_one_eq (x : Float) : x * 1.0 = x := by
  obtain ⟨model⟩ := x
  show Float.ofModel (pack (UnpackedFloat.mul .binary64 model.unpack (1.0 : Float).toModel.unpack)) =
    Float.ofModel model
  rw [one_unpack]
  congr 1
  conv_rhs => rw [← pack_model_unpack model]
  congr 1
  cases unpacked : model.unpack with
  | notANumber => rfl
  | infinity s => exact congrArg _ (sign_mul_positive s)
  | zero s => exact congrArg _ (sign_mul_positive s)
  | finite s m e positive =>
      have range : InRange m e := by
        have ranged := ranged_unpack (x := ⟨model⟩) (by
          show model.unpack.isNaN = false
          rw [unpacked]
          rfl)
        rw [show (Float.toModel ⟨model⟩).unpack = model.unpack from rfl, unpacked] at ranged
        exact ranged
      simp only [UnpackedFloat.mul, sign_mul_positive, show e + -52 = e - (52 : Nat) by omega]
      exact roundWithAccuracy_inRange positive range 52

theorem not_negativeZero_one : ¬ NegativeZero 1.0 := by
  intro negative
  rw [NegativeZero, one_unpack] at negative
  cases negative

theorem unpack_pack_zero (s : Sign) : (Float.Model.pack (.zero s)).unpack = .zero s := by
  cases s <;> rfl

theorem zero_unpack : (0.0 : Float).toModel.unpack = .zero .positive := rfl

theorem isZero_mul_zero {x : Float} (finite : x.isFinite = true) : IsZero (x * 0.0) := by
  obtain ⟨model⟩ := x
  change model.unpack.isFinite = true at finite
  show ∃ s, (pack (UnpackedFloat.mul .binary64 model.unpack (0.0 : Float).toModel.unpack)).unpack =
    .zero s
  rw [zero_unpack]
  cases unpacked : model.unpack with
  | zero s => exact ⟨_, unpack_pack_zero _⟩
  | finite s m e positive => exact ⟨_, unpack_pack_zero _⟩
  | notANumber => rw [unpacked] at finite; cases finite
  | infinity s => rw [unpacked] at finite; cases finite

end Products

section Sums

theorem add_isZero {acc y : Float} (notNegative : ¬ NegativeZero acc) (zero : IsZero y) :
    acc + y = acc := by
  obtain ⟨t, zeroY⟩ := zero
  obtain ⟨model⟩ := acc
  change ¬ model.unpack = .zero .negative at notNegative
  show Float.ofModel (pack (UnpackedFloat.add .binary64 model.unpack y.toModel.unpack)) =
    Float.ofModel model
  rw [zeroY]
  congr 1
  conv_rhs => rw [← pack_model_unpack model]
  congr 1
  cases unpacked : model.unpack with
  | notANumber => rfl
  | infinity s => rfl
  | finite s m e positive => rfl
  | zero s =>
      cases s with
      | negative => exact absurd unpacked notNegative
      | positive =>
          show (if Sign.positive == t then UnpackedFloat.zero .positive else .zero .positive) = _
          split <;> rfl

theorem not_negativeZero_zero_add (x : Float) : ¬ NegativeZero (0.0 + x) :=
  add_not_negativeZero not_negativeZero_zero x

theorem zero_add_negativeZero {x : Float} (negative : NegativeZero x) : 0.0 + x = 0.0 := by
  obtain ⟨model⟩ := x
  change model.unpack = .zero .negative at negative
  show Float.ofModel (pack (UnpackedFloat.add .binary64 (0.0 : Float).toModel.unpack model.unpack)) =
    0.0
  rw [zero_unpack, negative]
  rfl

end Sums

section Values

theorem isNaN_eq_false_of_isFinite {x : Float} (finite : x.isFinite = true) : x.isNaN = false := by
  change x.toModel.unpack.isFinite = true at finite
  show x.toModel.unpack.isNaN = false
  cases unpacked : x.toModel.unpack <;> simp_all [UnpackedFloat.isFinite, UnpackedFloat.isNaN]

theorem beq_self {x : Float} (number : x.isNaN = false) : (x == x) = true := by
  change x.toModel.unpack.isNaN = false at number
  show (x.toModel.unpack.compare x.toModel.unpack == some .eq) = true
  cases unpacked : x.toModel.unpack with
  | notANumber => rw [unpacked] at number; cases number
  | infinity s => cases s <;> rfl
  | zero s => rfl
  | finite s m e positive =>
      cases s <;> simp [UnpackedFloat.compare, Ordering.then]

theorem zero_beq_negativeZero {x : Float} (negative : NegativeZero x) : ((0.0 : Float) == x) = true := by
  show ((0.0 : Float).toModel.unpack.compare x.toModel.unpack == some .eq) = true
  rw [zero_unpack, show x.toModel.unpack = .zero .negative from negative]
  rfl

theorem parts_of_negativeZero {x : Float} (negative : NegativeZero x) :
    parts x = .finite true 0 leastExponent := by
  rw [parts_eq_ofUnpacked, show x.toModel.unpack = .zero .negative from negative]
  rfl

theorem roundCell_zero_add_beq {x : Float} (finite : x.isFinite = true) :
    (Places.roundCell (0.0 + x) == Places.roundCell x) = true := by
  by_cases negative : NegativeZero x
  · rw [zero_add_negativeZero negative, Places.roundCell_zero (parts_of_negativeZero negative)]
    have positiveZero : parts (0.0 : Float) = .finite false 0 leastExponent := by
      rw [parts_eq_ofUnpacked, zero_unpack]
      rfl
    rw [Places.roundCell_zero positiveZero]
    exact zero_beq_negativeZero negative
  · rw [zero_add_of_not_negativeZero negative]
    exact beq_self (Places.roundCell_isNaN (isNaN_eq_false_of_isFinite finite))

end Values

end Binary

namespace Matrix

open Binary

/-- The identity matrix of size `n`: ones on the diagonal and `+0` elsewhere. -/
def identity (n : Nat) : Matrix :=
  { name := "I", rows := n, cols := n,
    cells := Narration.gridOf n n fun i j => if i = j then 1.0 else 0.0, steps := none }

/-- Two grids hold equal values, cell by cell, where a `-0` equals a `+0`. -/
def SameValues (xs ys : List (List Float)) : Prop :=
  List.Forall₂ (List.Forall₂ fun x y => (x == y) = true) xs ys

/-- Every cell of the matrix is a finite double. -/
def FiniteCells (m : Matrix) : Prop := ∀ row ∈ m.cells, ∀ x ∈ row, x.isFinite = true

theorem cell_identity {n i j : Nat} (row : i < n) (col : j < n) :
    (identity n).cell i j = if i = j then 1.0 else 0.0 :=
  Narration.gridOf_getD _ _ _ row col

/-- A row of the matrix times the unit column `j`, summed from `+0` over the first `n` positions: the
terms before `j` are zeros that leave `+0` alone, the term at `j` adds the cell to `+0`, and the
zeros after it leave that sum alone, since it is not `-0`. -/
theorem foldl_unitColumn (v : Nat → Float) (j : Nat) {n : Nat}
    (finite : ∀ k < n, (v k).isFinite = true) :
    (List.range n).foldl (fun acc k => acc + v k * (if k = j then 1.0 else 0.0)) 0.0 =
      if j < n then 0.0 + v j else 0.0 := by
  induction n with
  | zero => rfl
  | succ n ih =>
      rw [List.range_succ, List.foldl_append, ih fun k below => finite k (by omega)]
      have zeroTerm : IsZero (v n * 0.0) := isZero_mul_zero (finite n (by omega))
      simp only [List.foldl_cons, List.foldl_nil]
      rcases lt_trichotomy n j with before | rfl | after
      · rw [if_neg (by omega), if_neg (by omega), if_neg (by omega),
          add_isZero not_negativeZero_zero zeroTerm]
      · rw [if_neg (by omega), if_pos rfl, if_pos (by omega), mul_one_eq]
      · rw [if_pos (by omega), if_neg (by omega), if_pos (by omega),
          add_isZero (not_negativeZero_zero_add _) zeroTerm]

theorem cell_productOf_identity {a : Matrix} (finite : ∀ i < a.rows, ∀ k < a.cols, (a.cell i k).isFinite = true)
    {i j : Nat} (row : i < a.rows) (col : j < a.cols) :
    (productOf a (identity a.cols)).cell i j = Places.roundCell (0.0 + a.cell i j) := by
  rw [cell_productOf a (identity a.cols) row col]
  have unit : (List.range a.cols).foldl (fun acc k => acc + a.cell i k * (identity a.cols).cell k j) 0.0 =
      (List.range a.cols).foldl (fun acc k => acc + a.cell i k * (if k = j then 1.0 else 0.0)) 0.0 :=
    List.foldl_ext _ _ _ fun acc k member => by
      rw [cell_identity (List.mem_range.mp member) col]
  rw [unit, foldl_unitColumn (fun k => a.cell i k) j (finite i row), if_pos col]

theorem cell_identity_productOf {a : Matrix} (finite : ∀ k < a.rows, ∀ j < a.cols, (a.cell k j).isFinite = true)
    {i j : Nat} (row : i < a.rows) (col : j < a.cols) :
    (productOf (identity a.rows) a).cell i j = Places.roundCell (0.0 + a.cell i j) := by
  rw [cell_productOf (identity a.rows) a row col]
  have unit : (List.range (identity a.rows).cols).foldl
        (fun acc k => acc + (identity a.rows).cell i k * a.cell k j) 0.0 =
      (List.range a.rows).foldl (fun acc k => acc + a.cell k j * (if k = i then 1.0 else 0.0)) 0.0 :=
    List.foldl_ext _ _ _ fun acc k member => by
      rw [cell_identity row (List.mem_range.mp member), product_comm]
      simp only [eq_comm]
  rw [unit, foldl_unitColumn (fun k => a.cell k j) i fun k below => finite k below j col, if_pos row]

section Grids

variable {rows cols : Nat} {f g : Nat → Nat → Float}

theorem forall₂_gridOf {R : Float → Float → Prop} (related : ∀ i < rows, ∀ j < cols, R (f i j) (g i j)) :
    List.Forall₂ (List.Forall₂ R) (Narration.gridOf rows cols f) (Narration.gridOf rows cols g) := by
  unfold Narration.gridOf
  rw [List.forall₂_map_left_iff, List.forall₂_map_right_iff, List.forall₂_same]
  intro i row
  rw [List.forall₂_map_left_iff, List.forall₂_map_right_iff, List.forall₂_same]
  exact fun j col => related i (List.mem_range.mp row) j (List.mem_range.mp col)

theorem mem_gridOf {row : List Float} {x : Float} (inGrid : row ∈ Narration.gridOf rows cols f)
    (inRow : x ∈ row) : ∃ i j, x = f i j := by
  obtain ⟨i, -, rfl⟩ := List.mem_map.mp inGrid
  obtain ⟨j, -, rfl⟩ := List.mem_map.mp inRow
  exact ⟨i, j, rfl⟩

theorem map_gridOf (h : Float → Float) :
    (Narration.gridOf rows cols f).map (List.map h) = Narration.gridOf rows cols fun i j => h (f i j) := by
  simp [Narration.gridOf]

end Grids

section Cells

variable {a : Matrix}

theorem cell_mem (shaped : a.WellShaped) {i j : Nat} (row : i < a.rows) (col : j < a.cols) :
    ∃ r ∈ a.cells, a.cell i j ∈ r := by
  obtain ⟨-, -, length, widths⟩ := shaped
  have inCells : i < a.cells.length := length ▸ row
  have inRow : j < a.cells[i].length := (widths _ (List.getElem_mem inCells)) ▸ col
  refine ⟨a.cells[i], List.getElem_mem inCells, ?_⟩
  simp only [cell, List.getD_eq_getElem?_getD, List.getElem?_eq_getElem inCells,
    List.getElem?_eq_getElem inRow, Option.getD_some]
  exact List.getElem_mem inRow

theorem FiniteCells.cell (finite : a.FiniteCells) (shaped : a.WellShaped) {i j : Nat}
    (row : i < a.rows) (col : j < a.cols) : (a.cell i j).isFinite = true :=
  let ⟨r, inCells, inRow⟩ := cell_mem shaped row col
  finite r inCells _ inRow

theorem cells_productOf (x y : Matrix) :
    (productOf x y).cells = Narration.gridOf x.rows y.cols (productOf x y).cell :=
  Narration.gridOf_congr fun _ row _ col => (cell_productOf x y row col).symm

theorem productOf_identity_sameValues (shaped : a.WellShaped) (finite : a.FiniteCells) :
    SameValues (productOf a (identity a.cols)).cells (a.cells.map (List.map Places.roundCell)) := by
  rw [cells_productOf, ← gridOf_cell shaped, map_gridOf]
  refine forall₂_gridOf fun i row j col => ?_
  rw [cell_productOf_identity (fun i row k col => finite.cell shaped row col) row col]
  exact roundCell_zero_add_beq (finite.cell shaped row col)

theorem identity_productOf_sameValues (shaped : a.WellShaped) (finite : a.FiniteCells) :
    SameValues (productOf (identity a.rows) a).cells (a.cells.map (List.map Places.roundCell)) := by
  rw [cells_productOf, ← gridOf_cell shaped, map_gridOf]
  refine forall₂_gridOf fun i row j col => ?_
  rw [cell_identity_productOf (fun k row j col => finite.cell shaped row col) row col]
  exact roundCell_zero_add_beq (finite.cell shaped row col)

/-- Every cell of the matrix is its own rounding. -/
def Rounded (m : Matrix) : Prop := ∀ row ∈ m.cells, ∀ x ∈ row, Places.roundCell x = x

theorem rounded_of_grid {m : Matrix} {t : Nat → Nat → Float}
    (laid : m.cells = Narration.gridOf m.rows m.cols fun i j => Places.roundCell (t i j)) :
    m.Rounded := by
  intro row inCells x inRow
  rw [laid] at inCells
  obtain ⟨i, j, rfl⟩ := mem_gridOf inCells inRow
  exact Places.roundCell_idempotent _

theorem rounded_of_returned
    (returned : (∃ x y, product x y = .ok a) ∨ ∃ m k operation, scalarOperation m k operation = .ok a) :
    a.Rounded := by
  rcases returned with ⟨x, y, multiplied⟩ | ⟨m, k, operation, scaled⟩
  · unfold product at multiplied
    split at multiplied
    · cases multiplied
      exact rounded_of_grid rfl
    · cases multiplied
  · unfold scalarOperation at scaled
    split at scaled
    · cases scaled
      exact rounded_of_grid rfl
    · cases scaled

theorem map_roundCell_of_rounded (rounded : a.Rounded) :
    a.cells.map (List.map Places.roundCell) = a.cells := by
  conv_rhs => rw [← List.map_id a.cells]
  refine List.map_congr_left fun row inCells => ?_
  conv_rhs => rw [← List.map_id row]
  exact List.map_congr_left fun x inRow => rounded row inCells x inRow

end Cells

section Powers

variable {n : Nat}

theorem identity_cell_isFinite {i j : Nat} (row : i < n) (col : j < n) :
    ((identity n).cell i j).isFinite = true := by
  rw [cell_identity row col]
  split <;> rfl

theorem roundCell_one : Places.roundCell 1.0 = 1.0 :=
  parts_injective (by decide +kernel)

theorem identity_productOf_identity : SameData (productOf (identity n) (identity n)) (identity n) := by
  refine ⟨rfl, ?_⟩
  rw [cells_productOf]
  refine Narration.gridOf_congr fun i row j col => ?_
  refine (cell_productOf_identity (a := identity n)
    (fun i row k col => identity_cell_isFinite row col) row col).trans ?_
  rw [cell_identity (n := n) row col]
  split
  · rw [zero_add_of_not_negativeZero not_negativeZero_one, roundCell_one]
  · rw [zero_add_of_not_negativeZero not_negativeZero_zero,
      Places.roundCell_zero (show parts (0.0 : Float) = .finite false 0 leastExponent by
        rw [parts_eq_ofUnpacked, zero_unpack]; rfl)]

theorem powerList_go_identity {previous : Matrix} (same : SameData previous (identity n)) (k count : Nat) :
    ∀ p ∈ powerList.go (identity n) previous k count, SameData p (identity n) := by
  induction count generalizing previous k with
  | zero => intro p member; cases member
  | succ count ih =>
      have renamed : SameData { productOf previous (identity n) with
          name := (identity n).name ++ "^" ++ toString k } (productOf previous (identity n)) :=
        ⟨rfl, rfl⟩
      have next := renamed.trans ((productOf_sameData same _).trans identity_productOf_identity)
      intro p member
      rcases List.mem_cons.mp member with rfl | later
      · exact next
      · exact ih next (k + 1) p later

theorem powers_identity {exponent : Float} {ps : List Matrix}
    (powered : powers (identity n) exponent = .ok ps) : ∀ p ∈ ps, SameData p (identity n) := by
  rw [powers_eq] at powered
  cases counted : powerCount (identity n) exponent with
  | error fault => rw [counted] at powered; cases powered
  | ok k =>
      rw [counted] at powered
      cases powered
      intro p member
      have all : ∀ p ∈ powerList (identity n) k, SameData p (identity n) :=
        powerList_go_identity (.refl (identity n)) 2 (k - 1)
      dsimp only [powersUpTo] at member
      cases listed : powerList (identity n) k with
      | nil =>
          rw [listed] at member
          rcases List.mem_singleton.mp member with rfl
          exact ⟨rfl, rfl⟩
      | cons first rest =>
          rw [listed] at member all
          exact all p member

end Powers

/-- A product with an identity matrix rounds its other factor. For every well-shaped matrix `A`
with finite cells, `A·I` and `I·A` exist, have the shape of `A`, and hold the cells of `A` rounded
to four places, equal as values (a `-0` cell of `A` gives `+0`). So a matrix that a product or an
operation with a scalar returned is its own product with the identity on either side, as values; and
every partial power of an identity matrix is that identity matrix, bit for bit. -/
theorem identity_products_round :
    (∀ a : Matrix, a.WellShaped → a.FiniteCells →
      (∃ p, product a (identity a.cols) = .ok p ∧ p.shape = a.shape ∧
        SameValues p.cells (a.cells.map (List.map Places.roundCell))) ∧
      (∃ p, product (identity a.rows) a = .ok p ∧ p.shape = a.shape ∧
        SameValues p.cells (a.cells.map (List.map Places.roundCell)))) ∧
    (∀ a : Matrix, a.WellShaped → a.FiniteCells →
      ((∃ x y, product x y = .ok a) ∨ ∃ m k operation, scalarOperation m k operation = .ok a) →
      (∃ p, product a (identity a.cols) = .ok p ∧ p.shape = a.shape ∧ SameValues p.cells a.cells) ∧
      (∃ p, product (identity a.rows) a = .ok p ∧ p.shape = a.shape ∧ SameValues p.cells a.cells)) ∧
    ∀ (n : Nat) (exponent : Float) (ps : List Matrix), powers (identity n) exponent = .ok ps →
      ∀ p ∈ ps, SameData p (identity n) := by
  have rounds : ∀ a : Matrix, a.WellShaped → a.FiniteCells →
      (∃ p, product a (identity a.cols) = .ok p ∧ p.shape = a.shape ∧
        SameValues p.cells (a.cells.map (List.map Places.roundCell))) ∧
      (∃ p, product (identity a.rows) a = .ok p ∧ p.shape = a.shape ∧
        SameValues p.cells (a.cells.map (List.map Places.roundCell))) := by
    intro a shaped finite
    refine ⟨⟨productOf a (identity a.cols), ?_, rfl, productOf_identity_sameValues shaped finite⟩,
      ⟨productOf (identity a.rows) a, ?_, rfl, identity_productOf_sameValues shaped finite⟩⟩
    · simp [product, identity]
    · simp [product, identity]
  refine ⟨rounds, fun a shaped finite returned => ?_, fun n _ _ powered => powers_identity powered⟩
  rw [← map_roundCell_of_rounded (rounded_of_returned returned)]
  exact rounds a shaped finite

/-- The laws at a row holding `1.5` and `-0`, and at the square of the identity of size two: the
row times the identity holds the rounded row, that product times the identity again holds its own
values, and the one partial power is the identity. -/
theorem identity_products_at_a_row :
    Matrix.WellShaped ⟨"A", 1, 2, [[1.5, -0.0]], none⟩ ∧
      Matrix.FiniteCells ⟨"A", 1, 2, [[1.5, -0.0]], none⟩ ∧
      (∃ p, product ⟨"A", 1, 2, [[1.5, -0.0]], none⟩ (identity 2) = .ok p ∧ p.shape = ⟨1, 2⟩ ∧
        SameValues p.cells [[Places.roundCell 1.5, Places.roundCell (-0.0)]] ∧
        ∃ q, product p (identity 2) = .ok q ∧ SameValues q.cells p.cells) ∧
      ∃ ps, powers (identity 2) 2.0 = .ok ps ∧ ps.length = 1 ∧ ∀ p ∈ ps, SameData p (identity 2) := by
  have shaped : Matrix.WellShaped ⟨"A", 1, 2, [[1.5, -0.0]], none⟩ :=
    ⟨by decide, by decide, rfl, by simp⟩
  have finite : Matrix.FiniteCells ⟨"A", 1, 2, [[1.5, -0.0]], none⟩ := by
    simp only [FiniteCells]
    decide +kernel
  have multiplied : product ⟨"A", 1, 2, [[1.5, -0.0]], none⟩ (identity 2) =
      .ok (productOf ⟨"A", 1, 2, [[1.5, -0.0]], none⟩ (identity 2)) := by
    simp [product, identity]
  have productShaped : (productOf ⟨"A", 1, 2, [[1.5, -0.0]], none⟩ (identity 2)).WellShaped := by
    simp only [WellShaped]
    decide +kernel
  have productFinite : (productOf ⟨"A", 1, 2, [[1.5, -0.0]], none⟩ (identity 2)).FiniteCells := by
    simp only [FiniteCells]
    decide +kernel
  have counted : exponentCount? 2.0 = some 2 := by decide +kernel
  have powered : powers (identity 2) 2.0 = .ok [(powersUpTo (identity 2) 2).1] := by
    rw [powers_eq, powerCount_of_square rfl counted]
    rfl
  obtain ⟨⟨p, multiplied', shape, values⟩, -⟩ := identity_products_round.1 _ shaped finite
  obtain rfl := Except.ok.inj (multiplied'.symm.trans multiplied)
  obtain ⟨⟨q, again, -, same⟩, -⟩ := identity_products_round.2.1 _ productShaped productFinite
    (.inl ⟨_, _, multiplied⟩)
  exact ⟨shaped, finite, ⟨_, multiplied, shape, values, q, again, same⟩, _, powered, rfl,
    identity_products_round.2.2 2 2.0 _ powered⟩

end Matrix

end MatrixSteps
