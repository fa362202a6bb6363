import Mathlib
import MatrixSteps.Proofs.NumberRendering
import MatrixSteps.Proofs.ShapeInvariant
import MatrixSteps.Proofs.TransposedPowers

/-!
The steps of a primitive narrate the cells of its result. After a header comes one line per cell,
the lines going through the cells in row-major order (in the source's row-major order for a
transpose), each labelled `c` with its cell's row and column counted from one and quoting the
narrated value of the cell (`NarratesCells`).

The labels join the two numbers with nothing between them, so they are told apart only while one
of the two counts stays at most ten (`cellName_inj`): the digits of numbers up to ten come apart
only as `1` and `0`, and no other count's digits start with `0` or are `0`. From eleven rows and
eleven columns on, the first row's eleventh cell and the eleventh row's first cell are both `c111`
(`cellName_collide`). The whole behaviour is `Matrix.primitive_steps_narrate_cells`.
-/

namespace MatrixSteps

namespace Narration

theorem toDigits_eq_iff {n k : Nat} : Nat.toDigits 10 n = Nat.toDigits 10 k ↔ n = k := by
  constructor
  · intro same
    have value := congrArg Decimal.digitsValue same
    rwa [Decimal.digitsValue_toDigits, Decimal.digitsValue_toDigits] at value
  · rintro rfl
    rfl

theorem toDigits_split_of_le_ten {n : Nat} (small : n ≤ 10) {u v : List Char}
    (split : Nat.toDigits 10 n = u ++ v) (left : u ≠ []) (right : v ≠ []) :
    u = ['1'] ∧ v = ['0'] := by
  by_cases single : n < 10
  · have length := congrArg List.length split
    rw [Nat.toDigits_of_lt_base single, List.length_append] at length
    have := List.length_pos_of_ne_nil left
    have := List.length_pos_of_ne_nil right
    simp at length
    omega
  · obtain rfl : n = 10 := by omega
    have ten : Nat.toDigits 10 10 = ['1', '0'] := by decide
    rw [ten] at split
    obtain ⟨a, u, rfl⟩ := List.exists_cons_of_ne_nil left
    obtain ⟨b, v, rfl⟩ := List.exists_cons_of_ne_nil right
    rcases u with _ | ⟨c, u⟩
    · obtain ⟨rfl, rfl, rfl⟩ : '1' = a ∧ '0' = b ∧ v = [] := by simpa using split
      exact ⟨rfl, rfl⟩
    · simp at split

/-- When the digits of `a'` are those of `a` and more, the digits of `b` start with the rest: the
pairs are equal when the first numbers, or the second ones, are at most ten. -/
theorem pair_eq_of_split {a b a' b' : Nat} (small : (a ≤ 10 ∧ a' ≤ 10) ∨ (b ≤ 10 ∧ b' ≤ 10))
    (positive : 0 < b) (positive' : 0 < b') {w : List Char}
    (first : Nat.toDigits 10 a' = Nat.toDigits 10 a ++ w)
    (second : Nat.toDigits 10 b = w ++ Nat.toDigits 10 b') : a = a' ∧ b = b' := by
  by_cases empty : w = []
  · subst empty
    rw [List.append_nil] at first
    exact ⟨(toDigits_eq_iff.mp first).symm, toDigits_eq_iff.mp second⟩
  rcases small with ⟨-, row'⟩ | ⟨column, -⟩
  · obtain ⟨-, rfl⟩ := toDigits_split_of_le_ten row' first Nat.toDigits_ne_nil empty
    exact absurd (by rw [second]; rfl) (Decimal.toDigits_head positive)
  · obtain ⟨-, zero⟩ := toDigits_split_of_le_ten column second empty Nat.toDigits_ne_nil
    have : b' = 0 := toDigits_eq_iff.mp (zero.trans (by decide))
    omega

theorem cellName_inj {letter : String} {i j i' j' : Nat}
    (small : (i < 10 ∧ i' < 10) ∨ (j < 10 ∧ j' < 10))
    (same : cellName letter i j = cellName letter i' j') : i = i' ∧ j = j' := by
  have lists := congrArg String.toList same
  simp only [cellName, String.toList_append, Nat.toString_eq_repr, Nat.toList_repr,
    List.append_assoc] at lists
  rcases List.append_eq_append_iff.mp (List.append_cancel_left lists) with
    ⟨w, first, second⟩ | ⟨w, first, second⟩
  · have pair := pair_eq_of_split (by omega) (by omega) (by omega) first second
    omega
  · have pair := pair_eq_of_split (by omega) (by omega) (by omega) first second
    omega

theorem cellName_collide (letter : String) : cellName letter 0 10 = cellName letter 10 0 := by
  simp only [cellName, String.append_assoc]
  rfl

theorem labels_nodup_iff {rows cols : Nat} {positions : List (Nat × Nat)} (nodup : positions.Nodup)
    (cells : ∀ p, p ∈ positions ↔ p.1 < rows ∧ p.2 < cols) :
    (positions.map fun p => cellName "c" p.1 p.2).Nodup ↔ rows ≤ 10 ∨ cols ≤ 10 := by
  rw [List.nodup_map_iff_inj_on nodup]
  constructor
  · intro injective
    by_contra large
    have apart := injective (0, 10) ((cells _).mpr (by simp only; omega)) (10, 0)
      ((cells _).mpr (by simp only; omega)) (cellName_collide "c")
    simp at apart
  · rintro small ⟨i, j⟩ inside ⟨i', j'⟩ inside' same
    rw [cells] at inside inside'
    obtain ⟨rfl, rfl⟩ := cellName_inj (by simp only at inside inside'; omega) same
    rfl

/-- The label of a step line: the text before its first blank. -/
def label (line : String) : String := String.ofList (line.toList.takeWhile (· != ' '))

theorem ne_blank_of_isDigit {c : Char} (digit : c.isDigit = true) : (c != ' ') = true := by
  rw [bne_iff_ne]
  rintro rfl
  exact absurd digit (by decide)

theorem label_cellName (i j : Nat) {rest : String} (blank : rest.toList.head? = some ' ') :
    label (cellName "c" i j ++ rest) = cellName "c" i j := by
  have named : ∀ c ∈ (cellName "c" i j).toList, (c != ' ') = true := by
    intro c member
    simp only [cellName, String.toList_append, Nat.toString_eq_repr, Nat.toList_repr,
      List.mem_append] at member
    rcases member with (letter | row) | column
    · simp at letter
      simp [letter]
    · exact ne_blank_of_isDigit (digits_isDigit _ c row)
    · exact ne_blank_of_isDigit (digits_isDigit _ c column)
  obtain ⟨tail, spelled⟩ := List.head?_eq_some_iff.mp blank
  rw [label, String.toList_append, spelled, List.takeWhile_append_of_pos named]
  simp

theorem blank_not_mem_spell {negative : Bool} {whole fraction : List Char}
    {power : Option (Bool × List Char)} {q : ℚ} (spelled : SpellsValue whole fraction power q) :
    ' ' ∉ spell negative whole fraction power := by
  have blank : ' '.isDigit = false := by decide
  intro member
  simp only [spell, List.mem_append] at member
  rcases member with ((sign | inWhole) | dotted) | inPower
  · split at sign <;> simp at sign
  · exact absurd (spelled.wholeDigits.2 _ inWhole) (by simp [blank])
  · split at dotted
    · simp at dotted
    rcases List.mem_cons.mp dotted with point | inFraction
    · cases point
    · exact absurd (spelled.fractionDigits _ inFraction) (by simp [blank])
  · rcases power with _ | ⟨minus, ds⟩
    · simp [powerText] at inPower
    simp only [powerText, List.mem_cons] at inPower
    rcases inPower with mark | sign | inDigits
    · cases mark
    · split at sign <;> cases sign
    · exact absurd ((spelled.powerDigits _ rfl).2 _ inDigits) (by simp [blank])

theorem blank_not_mem_number (x : Float) : ' ' ∉ (number x).toList := by
  cases decoded : Binary.parts x with
  | nan => simp [number, Notation.render, decoded, Notation.narration]
  | infinity negative =>
      cases negative <;> simp [number, Notation.render, decoded, Notation.narration]
  | finite negative m e =>
      rcases Nat.eq_zero_or_pos m with rfl | nonzero
      · simp [number, Notation.render, decoded, Notation.finite, Notation.finite.zeroText,
          Notation.narration]
      obtain ⟨whole, fraction, power, written, spelled⟩ :=
        render_spells Notation.narration decoded nonzero
      rw [number, written]
      exact blank_not_mem_spell spelled

/-- A line that quotes `value` after its last ` = `: it ends with ` = ` and the value, which has no
blank. -/
def QuotesResult (line value : String) : Prop :=
  ' ' ∉ value.toList ∧ ∃ work, line = work ++ " = " ++ value

/-- A line that quotes `value` in its closing parentheses, with no blank inside them. -/
def QuotesTaken (line value : String) : Prop :=
  ' ' ∉ value.toList ∧ ∃ work, line = work ++ " (" ++ value ++ ")"

/-- The positions of a `rows × cols` grid in row-major order: row by row, each row left to right. -/
def rowMajor (rows cols : Nat) : List (Nat × Nat) := List.range rows ×ˢ List.range cols

theorem rowMajor_nodup (rows cols : Nat) : (rowMajor rows cols).Nodup :=
  List.nodup_range.product List.nodup_range

theorem mem_rowMajor {rows cols : Nat} {p : Nat × Nat} :
    p ∈ rowMajor rows cols ↔ p.1 < rows ∧ p.2 < cols := by
  rw [rowMajor, List.mem_product, List.mem_range, List.mem_range]

theorem length_rowMajor (rows cols : Nat) : (rowMajor rows cols).length = rows * cols := by
  rw [rowMajor, List.length_product, List.length_range, List.length_range]

/-- The steps of `R` narrate its cells in the order `order`: a header, then one line for each
position of `order`, which goes through every cell of `R` once. Each line is labelled with its
cell's name, `c` and the row and column counted from one, and quotes the cell's value as `quotes`
says. The labels are distinct exactly when `R` has at most ten rows or at most ten columns. -/
def NarratesCells (R : Matrix) (order : List (Nat × Nat)) (quotes : String → String → Prop) :
    Prop :=
  ∃ (header : String) (lines : List String),
    R.steps = some (header :: lines) ∧ lines.length = R.rows * R.cols ∧
    order.Nodup ∧ (∀ p, p ∈ order ↔ p.1 < R.rows ∧ p.2 < R.cols) ∧
    List.Forall₂ (fun line p => label line = cellName "c" p.1 p.2 ∧
      quotes line (number (R.cell p.1 p.2))) lines order ∧
    ((lines.map label).Nodup ↔ R.rows ≤ 10 ∨ R.cols ≤ 10)

theorem overCells_eq_map {α : Type} (rows cols : Nat) (f : Nat → Nat → α) :
    overCells rows cols f = (rowMajor rows cols).map fun p => f p.1 p.2 := by
  rw [overCells, rowMajor, show List.range rows ×ˢ List.range cols =
    (List.range rows).flatMap fun i => (List.range cols).map (Prod.mk i) from rfl, List.map_flatMap]
  simp only [List.map_map]
  rfl

theorem narratesCells_of_positions {R : Matrix} {quotes : String → String → Prop} {header : String}
    {positions : List (Nat × Nat)} {line : Nat × Nat → String}
    (steps : R.steps = some (header :: positions.map line)) (nodup : positions.Nodup)
    (cells : ∀ p, p ∈ positions ↔ p.1 < R.rows ∧ p.2 < R.cols)
    (length : positions.length = R.rows * R.cols)
    (labelled : ∀ p ∈ positions, label (line p) = cellName "c" p.1 p.2)
    (quoted : ∀ p ∈ positions, quotes (line p) (number (R.cell p.1 p.2))) :
    NarratesCells R positions quotes := by
  have labels : (positions.map line).map label = positions.map fun p => cellName "c" p.1 p.2 := by
    rw [List.map_map]
    exact List.map_congr_left labelled
  refine ⟨header, positions.map line, steps, by rw [List.length_map, length], nodup, cells,
    ?_, by rw [labels]; exact labels_nodup_iff nodup cells⟩
  rw [List.forall₂_map_left_iff, List.forall₂_same]
  exact fun p member => ⟨labelled p member, quoted p member⟩

theorem number_reads_back_of_finite {x : Float} (finite : x.isFinite = true) :
    ((x == 0) = true ∧ number x = "0") ∨
      ∃ k, Numeral.scan (number x).toList = some (k, []) ∧ k.toFloat = x := by
  cases zero : x == 0
  · obtain ⟨negative, m, e, decoded, positive⟩ := finite_nonzero finite zero
    obtain ⟨k, -, scanned, -, -, read⟩ := number_reads_back decoded positive
    exact .inr ⟨k, scanned, read⟩
  · exact .inl ⟨rfl, number_zero finite zero⟩

/-- A result whose steps are a header and, for each cell in row-major order, a line that names
the cell, shows some work and ends with ` = ` and the value of the cell it computes, narrates its
cells. -/
theorem narratesCells_of_grid {R : Matrix} {header : String} {line : Nat → Nat → String}
    {value : Nat → Nat → Float} (steps : R.steps = some (header :: overCells R.rows R.cols line))
    (shown : ∀ i j, ∃ work,
      line i j = cellName "c" i j ++ " = " ++ work ++ " = " ++ number (value i j))
    (cells : R.cells = gridOf R.rows R.cols value) :
    NarratesCells R (rowMajor R.rows R.cols) QuotesResult := by
  rw [overCells_eq_map] at steps
  refine narratesCells_of_positions steps (rowMajor_nodup _ _) (fun _ => mem_rowMajor)
    (length_rowMajor _ _) (fun p _ => ?_) (fun p member => ?_)
  · obtain ⟨work, spelled⟩ := shown p.1 p.2
    rw [spelled]
    simp only [String.append_assoc]
    exact label_cellName _ _ (by simp)
  · obtain ⟨row, column⟩ := mem_rowMajor.mp member
    obtain ⟨work, spelled⟩ := shown p.1 p.2
    have cell : R.cell p.1 p.2 = value p.1 p.2 := by
      rw [Matrix.cell, cells]
      exact gridOf_getD _ _ _ row column
    rw [cell, spelled]
    exact ⟨blank_not_mem_number _, _, rfl⟩

end Narration

namespace Matrix

open Narration

theorem sumOf_narratesCells (first : Matrix) (rest : List Matrix) :
    NarratesCells (sumOf first rest) (rowMajor (sumOf first rest).rows (sumOf first rest).cols)
      QuotesResult :=
  narratesCells_of_grid rfl (fun _ _ => ⟨_, rfl⟩) rfl

theorem differenceOf_narratesCells (first : Matrix) (rest : List Matrix) :
    NarratesCells (differenceOf first rest)
      (rowMajor (differenceOf first rest).rows (differenceOf first rest).cols) QuotesResult :=
  narratesCells_of_grid rfl (fun _ _ => ⟨_, rfl⟩) rfl

theorem productOf_narratesCells (a b : Matrix) :
    NarratesCells (productOf a b) (rowMajor (productOf a b).rows (productOf a b).cols) QuotesResult :=
  narratesCells_of_grid rfl (fun _ _ => ⟨_, rfl⟩) rfl

theorem scaleBy_narratesCells (step : ScalarStep) (m : Matrix) (k : Float) :
    NarratesCells (scaleBy step m k) (rowMajor (scaleBy step m k).rows (scaleBy step m k).cols)
      QuotesResult :=
  narratesCells_of_grid rfl
    (fun i j => ⟨number (m.cell i j) ++ " " ++ step.symbol ++ " " ++ number k,
      by simp only [String.append_assoc]⟩) rfl

theorem transpose_narratesCells (m : Matrix) :
    NarratesCells m.transpose ((rowMajor m.rows m.cols).map Prod.swap) QuotesTaken := by
  have steps : m.transpose.steps = some ("Swapping rows and columns:" ::
      ((rowMajor m.rows m.cols).map Prod.swap).map fun p =>
        cellName "c" p.1 p.2 ++ " takes the value of " ++ cellName "a" p.2 p.1 ++ " (" ++
          number (m.cell p.2 p.1) ++ ")") := by
    rw [List.map_map, transpose, overCells_eq_map]
    rfl
  have cells : ∀ p, p ∈ (rowMajor m.rows m.cols).map Prod.swap ↔
      p.1 < m.transpose.rows ∧ p.2 < m.transpose.cols := by
    rintro ⟨i, j⟩
    rw [List.mem_map_swap, mem_rowMajor]
    exact And.comm
  refine narratesCells_of_positions steps ((rowMajor_nodup _ _).map Prod.swap_injective) cells
    (by rw [List.length_map, length_rowMajor, Nat.mul_comm]; rfl) (fun p _ => ?_)
    (fun p member => ?_)
  · simp only [String.append_assoc]
    exact label_cellName _ _ (by simp)
  · obtain ⟨row, column⟩ := (cells p).mp member
    rw [cell_transpose m row column]
    exact ⟨blank_not_mem_number _, _, rfl⟩

theorem scalarOperation_narratesCells {m R : Matrix} {k : Float} {operation : Operation}
    (computed : scalarOperation m k operation = .ok R) :
    NarratesCells R (rowMajor R.rows R.cols) QuotesResult := by
  unfold scalarOperation at computed
  split at computed
  next step _ =>
      obtain rfl := (Except.ok.inj computed).symm
      exact scaleBy_narratesCells step m k
  next => cases computed

/-- Every primitive narrates the cells of its result: a header, then one line per cell, the lines
going through the cells in row-major order (for a transpose, in the source's row-major order),
each labelled `c` with the cell's row and column counted from one
and quoting the narrated value of the cell, after the last ` = ` or, for a transpose, in
parentheses; the labels are distinct exactly when the result has at most ten rows or at most ten
columns. A finite value is narrated as `0` when it is zero and otherwise reads back as itself. -/
theorem primitive_steps_narrate_cells :
    (∀ (ms : List Matrix) (R : Matrix), sum ms = .ok R →
      NarratesCells R (rowMajor R.rows R.cols) QuotesResult) ∧
    (∀ (ms : List Matrix) (R : Matrix), difference ms = .ok R →
      NarratesCells R (rowMajor R.rows R.cols) QuotesResult) ∧
    (∀ a b R : Matrix, product a b = .ok R →
      NarratesCells R (rowMajor R.rows R.cols) QuotesResult) ∧
    (∀ (m : Matrix) (k : Float) (operation : Operation) (R : Matrix),
      scalarOperation m k operation = .ok R →
        NarratesCells R (rowMajor R.rows R.cols) QuotesResult) ∧
    (∀ m : Matrix, NarratesCells m.transpose ((rowMajor m.rows m.cols).map Prod.swap) QuotesTaken) ∧
    (∀ x : Float, x.isFinite = true → ((x == 0) = true ∧ number x = "0") ∨
      ∃ k, Numeral.scan (number x).toList = some (k, []) ∧ k.toFloat = x) := by
  refine ⟨fun ms R summed => ?_, fun ms R subtracted => ?_, fun a b R multiplied => ?_,
    fun m k operation R computed => scalarOperation_narratesCells computed, transpose_narratesCells,
    fun x finite => number_reads_back_of_finite finite⟩
  · obtain ⟨first, rest, -, rfl, -⟩ := sum_ok summed
    exact sumOf_narratesCells first rest
  · obtain ⟨first, rest, -, rfl, -⟩ := difference_ok subtracted
    exact differenceOf_narratesCells first rest
  · obtain ⟨-, rfl⟩ := product_ok multiplied
    exact productOf_narratesCells a b

/-- The sum of two one-row matrices narrates its cells, and its cell `4` reads back. -/
theorem row_sum_narrates_cells :
    sum [⟨"A", 1, 2, [[1, 2]], none⟩, ⟨"B", 1, 2, [[3, 4]], none⟩] =
        .ok (sumOf ⟨"A", 1, 2, [[1, 2]], none⟩ [⟨"B", 1, 2, [[3, 4]], none⟩]) ∧
      NarratesCells (sumOf ⟨"A", 1, 2, [[1, 2]], none⟩ [⟨"B", 1, 2, [[3, 4]], none⟩])
        [(0, 0), (0, 1)] QuotesResult ∧
      (4 : Float).isFinite = true ∧
      ((((4 : Float) == 0) = true ∧ number 4 = "0") ∨
        ∃ k, Numeral.scan (number 4).toList = some (k, []) ∧ k.toFloat = 4) := by
  have summed : sum [⟨"A", 1, 2, [[1, 2]], none⟩, ⟨"B", 1, 2, [[3, 4]], none⟩] =
      .ok (sumOf ⟨"A", 1, 2, [[1, 2]], none⟩ [⟨"B", 1, 2, [[3, 4]], none⟩]) := rfl
  have finite : (4 : Float).isFinite = true := by decide +kernel
  exact ⟨summed, primitive_steps_narrate_cells.1 _ _ summed, finite,
    primitive_steps_narrate_cells.2.2.2.2.2 4 finite⟩

/-- From eleven rows and eleven columns on, labels repeat: the sum of two `11 × 11` matrices
labels the first row's eleventh cell and the eleventh row's first cell both `c111`. -/
theorem eleven_square_sum_repeats_a_label :
    ∃ (R : Matrix) (header : String) (lines : List String),
      sum [⟨"A", 11, 11, gridOf 11 11 fun _ _ => 0, none⟩,
          ⟨"B", 11, 11, gridOf 11 11 fun _ _ => 0, none⟩] = .ok R ∧
        R.steps = some (header :: lines) ∧ ¬(lines.map label).Nodup := by
  have summed : sum [⟨"A", 11, 11, gridOf 11 11 fun _ _ => 0, none⟩,
      ⟨"B", 11, 11, gridOf 11 11 fun _ _ => 0, none⟩] =
      .ok (sumOf ⟨"A", 11, 11, gridOf 11 11 fun _ _ => 0, none⟩
        [⟨"B", 11, 11, gridOf 11 11 fun _ _ => 0, none⟩]) := rfl
  obtain ⟨header, lines, steps, -, -, -, -, distinct⟩ :=
    sumOf_narratesCells ⟨"A", 11, 11, gridOf 11 11 fun _ _ => 0, none⟩
      [⟨"B", 11, 11, gridOf 11 11 fun _ _ => 0, none⟩]
  refine ⟨_, header, lines, summed, steps, fun nodup => ?_⟩
  have small := distinct.mp nodup
  simp [sumOf] at small

end Matrix

end MatrixSteps
