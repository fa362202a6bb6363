import Mathlib
import MatrixSteps.Proofs.TransposedPowers

/-!
Transposing moves cells and never rounds them. So a second transpose gives a well-shaped matrix
back with its data unchanged, and every other operation can be taken before or after
transposing, with the same data bit for bit: sums, sequential differences and operations with a
scalar act on each cell alone, and the transposed product is the product of the transposes in
turn (`Matrix.transpose_productOf`). The laws together are `Matrix.transpose_exact_laws`.
-/

namespace MatrixSteps

namespace Matrix

variable {m : Matrix} {f : Nat → Nat → Float}

theorem gridOf_cell (shaped : m.WellShaped) : Narration.gridOf m.rows m.cols m.cell = m.cells := by
  obtain ⟨-, -, length, widths⟩ := shaped
  apply List.ext_getElem
  · simp [Narration.gridOf, length]
  · intro i inGrid inCells
    have width := widths _ (List.getElem_mem inCells)
    apply List.ext_getElem
    · simp [Narration.gridOf, width]
    · intro j _ inRow
      simp [Narration.gridOf, cell, List.getD_eq_getElem?_getD, inCells, inRow]

theorem transpose_cells_of_grid (laid : m.cells = Narration.gridOf m.rows m.cols f) :
    m.transpose.cells = Narration.gridOf m.cols m.rows fun i j => f j i := by
  refine Narration.gridOf_congr fun i row j col => ?_
  rw [cell, laid]
  exact Narration.gridOf_getD _ _ _ col row

theorem transpose_transpose (shaped : m.WellShaped) : SameData m.transpose.transpose m := by
  refine ⟨rfl, ?_⟩
  rw [transpose_cells_of_grid (f := fun i j => m.cell j i) rfl]
  exact gridOf_cell shaped

theorem cell_transpose_of_shape {first : Matrix} (shape : m.shape = first.shape) {i j : Nat}
    (row : i < first.cols) (col : j < first.rows) : m.transpose.cell i j = m.cell j i := by
  obtain ⟨rows, cols⟩ := Shape.mk.inj shape
  exact cell_transpose m (cols ▸ row) (rows ▸ col)

section Combinations

variable {first : Matrix} {rest : List Matrix}

theorem transpose_sumOf (same : ∀ n ∈ rest, n.shape = first.shape) :
    (sumOf first rest).transpose.cells = (sumOf first.transpose (rest.map transpose)).cells := by
  rw [transpose_cells_of_grid rfl]
  refine Narration.gridOf_congr fun i row j col => ?_
  rw [← List.map_cons, List.foldl_map]
  refine List.foldl_ext _ _ _ fun acc n member => ?_
  have shape : n.shape = first.shape := by
    rcases List.mem_cons.mp member with rfl | inRest
    · rfl
    · exact same n inRest
  rw [cell_transpose_of_shape shape row col]

theorem transpose_differenceOf (same : ∀ n ∈ rest, n.shape = first.shape) :
    (differenceOf first rest).transpose.cells =
      (differenceOf first.transpose (rest.map transpose)).cells := by
  rw [transpose_cells_of_grid rfl]
  refine Narration.gridOf_congr fun i row j col => ?_
  show rest.foldl (fun acc n => acc - n.cell j i) (first.cell j i) =
    (rest.map transpose).foldl (fun acc n => acc - n.cell i j) (first.transpose.cell i j)
  rw [List.foldl_map, cell_transpose first row col]
  exact List.foldl_ext _ _ _ fun acc n member => by
    rw [cell_transpose_of_shape (same n member) row col]

theorem transpose_same_shape (same : ∀ n ∈ rest, n.shape = first.shape) :
    ∀ n ∈ rest.map transpose, n.shape = first.transpose.shape := by
  intro n member
  obtain ⟨n, inRest, rfl⟩ := List.mem_map.mp member
  obtain ⟨rows, cols⟩ := Shape.mk.inj (same n inRest)
  simp [shape, transpose, rows, cols]

end Combinations

theorem sum_transpose {ms : List Matrix} {s : Shape} (same : ∀ n ∈ ms, n.shape = s) :
    (sum ms).map (·.transpose.cells) = (sum (ms.map transpose)).map (·.cells) := by
  cases ms with
  | nil => rfl
  | cons first rest =>
      have sameFirst : ∀ n ∈ rest, n.shape = first.shape := fun n member =>
        (same n (List.mem_cons_of_mem _ member)).trans (same first List.mem_cons_self).symm
      simp only [List.map_cons, sum, checkShapes_of_same _ sameFirst,
        checkShapes_of_same _ (transpose_same_shape sameFirst)]
      exact congrArg Except.ok (transpose_sumOf sameFirst)

theorem difference_transpose {ms : List Matrix} {s : Shape} (same : ∀ n ∈ ms, n.shape = s) :
    (difference ms).map (·.transpose.cells) = (difference (ms.map transpose)).map (·.cells) := by
  cases ms with
  | nil => rfl
  | cons first rest =>
      have sameFirst : ∀ n ∈ rest, n.shape = first.shape := fun n member =>
        (same n (List.mem_cons_of_mem _ member)).trans (same first List.mem_cons_self).symm
      simp only [List.map_cons, difference, checkShapes_of_same _ sameFirst,
        checkShapes_of_same _ (transpose_same_shape sameFirst)]
      exact congrArg Except.ok (transpose_differenceOf sameFirst)

theorem transpose_scaleBy (step : ScalarStep) (m : Matrix) (k : Float) :
    (scaleBy step m k).transpose.cells = (scaleBy step m.transpose k).cells := by
  rw [transpose_cells_of_grid rfl]
  refine Narration.gridOf_congr fun i row j col => ?_
  show Places.roundCell (step.apply (m.cell j i) k) = Places.roundCell (step.apply (m.transpose.cell i j) k)
  rw [cell_transpose m row col]

theorem scalarOperation_transpose (m : Matrix) (k : Float) (operation : Operation) :
    (scalarOperation m k operation).map (·.transpose.cells) =
      (scalarOperation m.transpose k operation).map (·.cells) := by
  unfold scalarOperation
  cases ScalarStep.ofOperation? operation with
  | none => rfl
  | some step => exact congrArg Except.ok (transpose_scaleBy step m k)

theorem product_transpose {a b : Matrix} (linked : a.cols = b.rows) :
    (product a b).map (·.transpose.cells) = (product b.transpose a.transpose).map (·.cells) := by
  have linkedTransposes : b.transpose.cols = a.transpose.rows := linked.symm
  simp only [product, beq_iff_eq, linked, linkedTransposes, if_true]
  exact congrArg Except.ok (transpose_productOf linked).cells

/-- Transposing is exact: a second transpose gives a well-shaped matrix back with its shape and
its data, and transposing commutes with every other operation on the data, bit for bit. The
transposed product of linked matrices is the product of the transposes in turn; the sum and the
sequential difference of matrices of one shape, and every operation with a scalar, can be taken
before or after transposing, and fail alike when they fail. -/
theorem transpose_exact_laws :
    (∀ m : Matrix, m.WellShaped → SameData m.transpose.transpose m) ∧
      (∀ a b : Matrix, a.cols = b.rows →
        (product a b).map (·.transpose.cells) = (product b.transpose a.transpose).map (·.cells)) ∧
      (∀ (ms : List Matrix) (s : Shape), (∀ n ∈ ms, n.shape = s) →
        (sum ms).map (·.transpose.cells) = (sum (ms.map transpose)).map (·.cells) ∧
          (difference ms).map (·.transpose.cells) =
            (difference (ms.map transpose)).map (·.cells)) ∧
      ∀ (m : Matrix) (k : Float) (operation : Operation),
        (scalarOperation m k operation).map (·.transpose.cells) =
          (scalarOperation m.transpose k operation).map (·.cells) :=
  ⟨fun _ shaped => transpose_transpose shaped, fun _ _ linked => product_transpose linked,
    fun _ _ same => ⟨sum_transpose same, difference_transpose same⟩, scalarOperation_transpose⟩

/-- The laws at a row of two cells: it is well-shaped, it is linked to its own transpose, and two
copies of it have one shape. -/
theorem transpose_exact_on_a_row :
    Matrix.WellShaped ⟨"R", 1, 2, [[1, 2]], none⟩ ∧
      SameData (transpose (transpose ⟨"R", 1, 2, [[1, 2]], none⟩)) ⟨"R", 1, 2, [[1, 2]], none⟩ ∧
      (product ⟨"R", 1, 2, [[1, 2]], none⟩ (transpose ⟨"R", 1, 2, [[1, 2]], none⟩)).map
          (·.transpose.cells) =
        (product (transpose (transpose ⟨"R", 1, 2, [[1, 2]], none⟩))
          (transpose ⟨"R", 1, 2, [[1, 2]], none⟩)).map (·.cells) ∧
      (sum [⟨"R", 1, 2, [[1, 2]], none⟩, ⟨"S", 1, 2, [[3, 4]], none⟩]).map (·.transpose.cells) =
        (sum [transpose ⟨"R", 1, 2, [[1, 2]], none⟩, transpose ⟨"S", 1, 2, [[3, 4]], none⟩]).map
          (·.cells) := by
  have shaped : Matrix.WellShaped ⟨"R", 1, 2, [[1, 2]], none⟩ := ⟨by decide, by decide, rfl, by simp⟩
  have same : ∀ n ∈ [(⟨"R", 1, 2, [[1, 2]], none⟩ : Matrix), ⟨"S", 1, 2, [[3, 4]], none⟩],
      n.shape = ⟨1, 2⟩ := by
    simp [shape]
  exact ⟨shaped, transpose_exact_laws.1 _ shaped, transpose_exact_laws.2.1 _ _ rfl,
    (transpose_exact_laws.2.2.1 _ _ same).1⟩

end Matrix

end MatrixSteps
