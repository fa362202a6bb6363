import MatrixSteps.Proofs.WholeDecimal
import MatrixSteps.Expression.Tree

/-!
Expressions over whole numbers, and the matrices that hold them.

`Expr.exact` evaluates a tree with exact integer arithmetic: sums and differences of numbers or of
matrices of one shape, products of numbers, of a number and a matrix, and row by column, powers of a
square matrix, and transposes. It refuses what the engine refuses, and also any number, cell,
product or partial sum whose magnitude goes beyond `2 ^ 53`.

A double matrix *holds* a whole-number matrix (`Matrix.Holds`) when it has its dimensions and, cell
by cell, its whole numbers. Each operation of the engine, applied to values that hold whole-number
values, gives a value that holds the exact result (`Operator.apply_holds`): the sums and products of
doubles are exact below `2 ^ 53`, and rounding a cell to four places keeps a whole number.
-/

namespace MatrixSteps

/-- The whole number, when its magnitude is at most `2 ^ 53`: up to there every whole number is a
double. -/
def withinBound (k : Int) : Option Int := if k.natAbs ≤ 2 ^ 53 then some k else none

theorem withinBound_eq_some {k k' : Int} (within : withinBound k = some k') :
    k' = k ∧ k.natAbs ≤ 2 ^ 53 := by
  unfold withinBound at within
  split at within
  next bounded => exact ⟨(Option.some.inj within).symm, bounded⟩
  next => cases within

/-- A matrix of whole numbers, with dimensions and cells by rows as `Matrix` has them. -/
structure IntMatrix where
  rows : Nat
  cols : Nat
  cells : List (List Int)
  deriving DecidableEq, Repr

namespace IntMatrix

def shape (A : IntMatrix) : Shape := ⟨A.rows, A.cols⟩

/-- The cell in row `i` and column `j`, counted from zero (zero outside the cells). -/
def cell (A : IntMatrix) (i j : Nat) : Int := (A.cells.getD i []).getD j 0

/-- The grid of `f i j` over `rows × cols` positions, when every `f i j` has a value. -/
def gridWithin (rows cols : Nat) (f : Nat → Nat → Option Int) : Option (List (List Int)) :=
  (List.range rows).mapM fun i => (List.range cols).mapM fun j => f i j

/-- Two matrices of one shape combined cell by cell, each result within the bound. -/
def cellwise (f : Int → Int → Int) (A B : IntMatrix) : Option IntMatrix :=
  (gridWithin A.rows A.cols fun i j => withinBound (f (A.cell i j) (B.cell i j))).map
    (⟨A.rows, A.cols, ·⟩)

/-- Each cell times `k`, each product within the bound. -/
def scale (A : IntMatrix) (k : Int) : Option IntMatrix :=
  (gridWithin A.rows A.cols fun i j => withinBound (A.cell i j * k)).map (⟨A.rows, A.cols, ·⟩)

/-- Row `i` of `A` times column `j` of `B`, summed from the left from zero, with every product and
every partial sum within the bound. -/
def rowTimesColumn (A B : IntMatrix) (i j : Nat) : Option Int :=
  (List.range A.cols).foldlM (fun acc k => do
    let p ← withinBound (A.cell i k * B.cell k j)
    withinBound (acc + p)) 0

/-- The row-by-column product, for `A.cols = B.rows`. -/
def product (A B : IntMatrix) : Option IntMatrix :=
  (gridWithin A.rows B.cols (rowTimesColumn A B)).map (⟨A.rows, B.cols, ·⟩)

def transpose (A : IntMatrix) : IntMatrix :=
  ⟨A.cols, A.rows, (List.range A.cols).map fun i => (List.range A.rows).map fun j => A.cell j i⟩

/-- The powers of `A` after `previous`, `count` of them, each the previous one times `A`. -/
def powersFrom (A : IntMatrix) (previous : IntMatrix) : Nat → Option (List IntMatrix)
  | 0 => some []
  | count + 1 => do
      let next ← previous.product A
      let later ← powersFrom A next count
      pure (next :: later)

/-- The power `A ^ n` of a square matrix, for `n` from one on. -/
def power (A : IntMatrix) (n : Nat) : Option IntMatrix :=
  (powersFrom A A (n - 1)).map fun later => (A :: later).getLast (List.cons_ne_nil _ _)

/-- The whole numbers the cells of a matrix hold (zero for a cell that holds none). -/
def ofMatrix (m : Matrix) : IntMatrix :=
  ⟨m.rows, m.cols, m.cells.map (·.map fun x => ((Binary.parts x).toInt?).getD 0)⟩

end IntMatrix

/-- A value of an expression over whole numbers: a number or a matrix. -/
inductive IntValue where
  | scalar (k : Int)
  | matrix (A : IntMatrix)
  deriving DecidableEq, Repr

namespace IntValue

def combine (kind : Combination) (a b : IntValue) : Option IntValue :=
  match a, b with
  | .scalar x, .scalar y => (withinBound (if kind == .addition then x + y else x - y)).map .scalar
  | .matrix A, .matrix B =>
      if A.shape = B.shape then
        (IntMatrix.cellwise (if kind == .addition then (· + ·) else (· - ·)) A B).map .matrix
      else none
  | _, _ => none

def multiply (a b : IntValue) : Option IntValue :=
  match a, b with
  | .scalar x, .scalar y => (withinBound (x * y)).map .scalar
  | .scalar x, .matrix A => (A.scale x).map .matrix
  | .matrix A, .scalar y => (A.scale y).map .matrix
  | .matrix A, .matrix B => if A.cols = B.rows then (A.product B).map .matrix else none

def raise (a b : IntValue) : Option IntValue :=
  match a, b with
  | .matrix A, .scalar n =>
      if A.rows = A.cols ∧ 1 ≤ n then (A.power n.toNat).map .matrix else none
  | _, _ => none

def apply (op : Operator) (a b : IntValue) : Option IntValue :=
  match op with
  | .plus => combine .addition a b
  | .minus => combine .subtraction a b
  | .times => multiply a b
  | .power => raise a b

end IntValue

/-- The value of a tree over whole numbers, with `lookup` giving the matrix an identifier names.
There is none where an operation has no meaning (a sum of a number and a matrix, a product of
matrices whose inner dimensions differ, a power of a matrix that is not square or to an exponent
below one, a transposed number, a symbol that is not an operator), where a numeral is not a whole
number, and where a number, a cell, a product or a partial sum the evaluation forms has a magnitude
beyond `2 ^ 53`. -/
def Expr.exact (lookup : String → Option IntMatrix) : Expr → Option IntValue
  | .number lexeme =>
      match FloatLiteral.numeral? lexeme with
      | some n => (n.wholeValue? >>= withinBound).map .scalar
      | none => none
  | .identifier name => (lookup name).map .matrix
  | .binary symbol left right => do
      let a ← left.exact lookup
      let b ← right.exact lookup
      let op ← Operator.ofSymbol? symbol
      IntValue.apply op a b
  | .transpose operand => do
      match ← operand.exact lookup with
      | .matrix A => some (.matrix A.transpose)
      | .scalar _ => none

/-- The whole-number matrices the inputs hold, named as `table` names them. -/
def exactInputs (table : VariableTable) (inputs : List Entry) (name : String) : Option IntMatrix :=
  ((table.resolve? name).bind fun position => inputs[position]?).map
    fun entry => IntMatrix.ofMatrix entry.matrix

/-- Every cell of the matrix is a whole number. -/
def Matrix.Integral (m : Matrix) : Prop :=
  ∀ row ∈ m.cells, ∀ x ∈ row, ((Binary.parts x).toInt?).isSome

instance (m : Matrix) : Decidable m.Integral := by
  unfold Matrix.Integral
  infer_instance

/-- The matrix holds the whole-number matrix `A`: the same dimensions, and cell by cell the same
whole numbers. -/
def Matrix.Holds (m : Matrix) (A : IntMatrix) : Prop :=
  m.rows = A.rows ∧ m.cols = A.cols ∧ List.Forall₂ (List.Forall₂ Whole) m.cells A.cells

/-- The value holds the whole-number value: a number its whole number, a matrix its matrix. -/
def Value.Holds : Value → IntValue → Prop
  | .scalar x, .scalar k => Whole x k
  | .matrix m, .matrix A => m.Holds A
  | _, _ => False

section Lists

variable {α β : Type}

theorem forall₂_of_mapM {R : α → β → Prop} {g : α → Option β} {l : List α} {out : List β}
    (mapped : l.mapM g = some out) (each : ∀ a ∈ l, ∀ b, g a = some b → R a b) :
    List.Forall₂ R l out := by
  induction l generalizing out with
  | nil =>
      obtain rfl : [] = out := Option.some.inj mapped
      exact .nil
  | cons a rest ih =>
      rw [List.mapM_cons] at mapped
      simp only [Option.bind_eq_bind, Option.bind_eq_some_iff, Option.pure_def,
        Option.some.injEq] at mapped
      obtain ⟨b, first, bs, later, rfl⟩ := mapped
      exact .cons (each a List.mem_cons_self b first)
        (ih later fun a' member b' image => each a' (List.mem_cons_of_mem a member) b' image)

theorem forall₂_getD {R : α → β → Prop} {l₁ : List α} {l₂ : List β} (related : List.Forall₂ R l₁ l₂)
    {d₁ : α} {d₂ : β} (defaults : R d₁ d₂) (i : Nat) : R (l₁.getD i d₁) (l₂.getD i d₂) := by
  induction related generalizing i with
  | nil => exact defaults
  | cons head _ ih =>
      cases i with
      | zero => exact head
      | succ i => exact ih i

end Lists

theorem Matrix.Holds.cell {m : Matrix} {A : IntMatrix} (holds : m.Holds A) (i j : Nat) :
    Whole (m.cell i j) (A.cell i j) :=
  forall₂_getD (forall₂_getD holds.2.2 List.Forall₂.nil i) Whole.zero j

theorem gridOf_forall₂ {rows cols : Nat} {f : Nat → Nat → Float} {g : Nat → Nat → Option Int}
    {cells : List (List Int)} (grid : IntMatrix.gridWithin rows cols g = some cells)
    (each : ∀ i < rows, ∀ j < cols, ∀ k, g i j = some k → Whole (f i j) k) :
    List.Forall₂ (List.Forall₂ Whole) (Narration.gridOf rows cols f) cells := by
  unfold Narration.gridOf
  rw [List.forall₂_map_left_iff]
  refine forall₂_of_mapM grid fun i row cellsOfRow mapped => ?_
  rw [List.forall₂_map_left_iff]
  exact forall₂_of_mapM mapped fun j column k cell =>
    each i (List.mem_range.mp row) j (List.mem_range.mp column) k cell

theorem Matrix.holds_ofMatrix {m : Matrix} (integral : m.Integral) :
    m.Holds (IntMatrix.ofMatrix m) := by
  refine ⟨rfl, rfl, ?_⟩
  show List.Forall₂ (List.Forall₂ Whole) m.cells
    (m.cells.map (·.map fun x => ((Binary.parts x).toInt?).getD 0))
  rw [List.forall₂_map_right_iff, List.forall₂_same]
  intro row member
  rw [List.forall₂_map_right_iff, List.forall₂_same]
  intro x cell
  obtain ⟨k, read⟩ := Option.isSome_iff_exists.mp (integral row member x cell)
  show (Binary.parts x).toInt? = some (((Binary.parts x).toInt?).getD 0)
  rw [read]
  rfl

theorem Value.Holds.cases {a : Value} {v : IntValue} (holds : a.Holds v) :
    (∃ x k, a = .scalar x ∧ v = .scalar k ∧ Whole x k) ∨
      (∃ m A, a = .matrix m ∧ v = .matrix A ∧ m.Holds A) := by
  cases a <;> cases v
  · exact .inl ⟨_, _, rfl, rfl, holds⟩
  · exact holds.elim
  · exact holds.elim
  · exact .inr ⟨_, _, rfl, rfl, holds⟩

section Operations

variable {m n : Matrix} {A B C : IntMatrix}

theorem sumOf_holds (first : m.Holds A) (second : n.Holds B)
    (combined : IntMatrix.cellwise (· + ·) A B = some C) : (Matrix.sumOf m [n]).Holds C := by
  obtain ⟨cells, grid, rfl⟩ := Option.map_eq_some_iff.mp combined
  refine ⟨first.1, first.2.1, ?_⟩
  show List.Forall₂ (List.Forall₂ Whole)
    (Narration.gridOf m.rows m.cols fun i j => 0.0 + m.cell i j + n.cell i j) cells
  rw [first.1, first.2.1]
  refine gridOf_forall₂ grid fun i _ j _ k within => ?_
  obtain ⟨rfl, bounded⟩ := withinBound_eq_some within
  exact (Whole.zero_add (first.cell i j)).add (second.cell i j) bounded

theorem differenceOf_holds (first : m.Holds A) (second : n.Holds B)
    (combined : IntMatrix.cellwise (· - ·) A B = some C) : (Matrix.differenceOf m [n]).Holds C := by
  obtain ⟨cells, grid, rfl⟩ := Option.map_eq_some_iff.mp combined
  refine ⟨first.1, first.2.1, ?_⟩
  show List.Forall₂ (List.Forall₂ Whole)
    (Narration.gridOf m.rows m.cols fun i j => m.cell i j - n.cell i j) cells
  rw [first.1, first.2.1]
  refine gridOf_forall₂ grid fun i _ j _ k within => ?_
  obtain ⟨rfl, bounded⟩ := withinBound_eq_some within
  exact (first.cell i j).sub (second.cell i j) bounded

theorem scaleBy_holds {x : Float} {k : Int} (holds : m.Holds A) (scalar : Whole x k)
    (scaled : A.scale k = some C) : (Matrix.scaleBy .mul m x).Holds C := by
  obtain ⟨cells, grid, rfl⟩ := Option.map_eq_some_iff.mp scaled
  refine ⟨holds.1, holds.2.1, ?_⟩
  show List.Forall₂ (List.Forall₂ Whole)
    (Narration.gridOf m.rows m.cols fun i j => Places.roundCell (m.cell i j * x)) cells
  rw [holds.1, holds.2.1]
  refine gridOf_forall₂ grid fun i _ j _ c within => ?_
  obtain ⟨rfl, bounded⟩ := withinBound_eq_some within
  exact ((holds.cell i j).mul scalar bounded).roundCell bounded

/-- The sum of a row by a column, accumulated from the left: each term adds a product exactly while
the products and partial sums stay within the bound. -/
theorem rowSum_holds (first : m.Holds A) (second : n.Holds B) (i j : Nat) (ks : List Nat)
    {x : Float} {acc r : Int} (start : Whole x acc) (bounded : acc.natAbs ≤ 2 ^ 53)
    (summed : ks.foldlM (fun acc k => do
        let p ← withinBound (A.cell i k * B.cell k j)
        withinBound (acc + p)) acc = some r) :
    Whole (ks.foldl (fun acc k => acc + m.cell i k * n.cell k j) x) r ∧ r.natAbs ≤ 2 ^ 53 := by
  induction ks generalizing x acc with
  | nil =>
      obtain rfl : acc = r := Option.some.inj summed
      exact ⟨start, bounded⟩
  | cons k rest ih =>
      rw [List.foldlM_cons] at summed
      simp only [Option.bind_eq_bind, Option.bind_eq_some_iff] at summed
      obtain ⟨next, ⟨p, term, runningSum⟩, summed⟩ := summed
      obtain ⟨rfl, productBound⟩ := withinBound_eq_some term
      obtain ⟨rfl, sumBound⟩ := withinBound_eq_some runningSum
      exact ih (start.add ((first.cell i k).mul (second.cell k j) productBound) sumBound)
        sumBound summed

theorem productOf_holds (first : m.Holds A) (second : n.Holds B)
    (multiplied : A.product B = some C) : (Matrix.productOf m n).Holds C := by
  obtain ⟨cells, grid, rfl⟩ := Option.map_eq_some_iff.mp multiplied
  refine ⟨first.1, second.2.1, ?_⟩
  show List.Forall₂ (List.Forall₂ Whole)
    (Narration.gridOf m.rows n.cols fun i j => Places.roundCell
      ((List.range m.cols).foldl (fun acc k => acc + m.cell i k * n.cell k j) 0.0)) cells
  rw [first.1, second.2.1, first.2.1]
  refine gridOf_forall₂ grid fun i _ j _ r summed => ?_
  obtain ⟨whole, bounded⟩ :=
    rowSum_holds first second i j (List.range A.cols) Whole.zero (Nat.zero_le _) summed
  exact whole.roundCell bounded

theorem transpose_holds (holds : m.Holds A) : m.transpose.Holds A.transpose := by
  refine ⟨holds.2.1, holds.1, ?_⟩
  show List.Forall₂ (List.Forall₂ Whole) (Narration.gridOf m.cols m.rows fun i j => m.cell j i)
    ((List.range A.cols).map fun i => (List.range A.rows).map fun j => A.cell j i)
  rw [holds.1, holds.2.1]
  unfold Narration.gridOf
  rw [List.forall₂_map_left_iff, List.forall₂_map_right_iff, List.forall₂_same]
  intro i _
  rw [List.forall₂_map_left_iff, List.forall₂_map_right_iff, List.forall₂_same]
  intro j _
  exact holds.cell j i

end Operations

theorem forall₂_getLast {α β : Type} {R : α → β → Prop} {a : α} {b : β} {l : List α} {l' : List β}
    (related : List.Forall₂ R (a :: l) (b :: l')) :
    R ((a :: l).getLast (List.cons_ne_nil _ _)) ((b :: l').getLast (List.cons_ne_nil _ _)) := by
  induction l generalizing a b l' with
  | nil =>
      cases related with
      | cons head rest =>
          cases rest
          exact head
  | cons c more ih =>
      cases related with
      | cons _ rest =>
          cases rest with
          | cons next later =>
              rw [List.getLast_cons_cons, List.getLast_cons_cons]
              exact ih (.cons next later)

theorem Produced.ofMatrices_result (first : Matrix) (rest : List Matrix) :
    (Produced.ofMatrices first rest).result = .matrix ((first :: rest).getLast (List.cons_ne_nil _ _)) := by
  induction rest generalizing first with
  | nil => rfl
  | cons next later ih =>
      rw [List.getLast_cons_cons, ← ih next]
      rfl

theorem powers_holds {m : Matrix} {A : IntMatrix} (base : m.Holds A) (count : Nat) {previous : Matrix}
    {P : IntMatrix} (k : Nat) {Ps : List IntMatrix} (holds : previous.Holds P)
    (powered : A.powersFrom P count = some Ps) :
    List.Forall₂ Matrix.Holds (Matrix.powerList.go m previous k count) Ps := by
  induction count generalizing previous P k Ps with
  | zero =>
      obtain rfl : [] = Ps := Option.some.inj powered
      exact .nil
  | succ count ih =>
      simp only [IntMatrix.powersFrom, Option.bind_eq_bind, Option.bind_eq_some_iff,
        Option.pure_def, Option.some.injEq] at powered
      obtain ⟨Q, multiplied, Qs, later, rfl⟩ := powered
      have next := productOf_holds holds base multiplied
      exact .cons next (ih (k + 1) next later)

theorem firstPower_holds {m : Matrix} {A : IntMatrix} (holds : m.Holds A) :
    (Matrix.firstPower m).Holds A := holds

theorem powersUpTo_holds {m : Matrix} {A P : IntMatrix} (base : m.Holds A) {N : Nat}
    (powered : A.power N = some P) :
    (Produced.ofMatrices (Matrix.powersUpTo m N).1 (Matrix.powersUpTo m N).2).result.Holds
      (.matrix P) := by
  obtain ⟨later, powers, rfl⟩ := Option.map_eq_some_iff.mp powered
  have related := powers_holds base (N - 1) 2 base powers
  rw [Produced.ofMatrices_result]
  unfold Matrix.powersUpTo Matrix.powerList
  revert related
  cases Matrix.powerList.go m m 2 (N - 1) with
  | nil =>
      intro related
      cases related
      exact firstPower_holds base
  | cons p ps =>
      intro related
      cases related with
      | cons head rest =>
          rw [List.getLast_cons_cons]
          exact forall₂_getLast (.cons head rest)

namespace Operator

variable {a b : Value} {va vb v : IntValue}

theorem combine_holds (kind : Combination) (first : a.Holds va) (second : b.Holds vb)
    (exact : IntValue.combine kind va vb = some v) :
    ∃ r, Operator.combine kind a b = .ok r ∧ r.Holds v := by
  rcases first.cases with ⟨x, k, rfl, rfl, wx⟩ | ⟨m, A, rfl, rfl, hm⟩ <;>
    rcases second.cases with ⟨y, l, rfl, rfl, wy⟩ | ⟨n, B, rfl, rfl, hn⟩
  · obtain ⟨r, within, rfl⟩ := Option.map_eq_some_iff.mp exact
    obtain ⟨rfl, bounded⟩ := withinBound_eq_some within
    refine ⟨_, rfl, ?_⟩
    by_cases adding : kind = .addition
    · simp only [adding, beq_self_eq_true, if_true] at bounded ⊢
      exact wx.add wy bounded
    · have subtracting : (kind == .addition) = false := by simpa using adding
      simp only [subtracting, Bool.false_eq_true, if_false] at bounded ⊢
      exact wx.sub wy bounded
  · simp [IntValue.combine] at exact
  · simp [IntValue.combine] at exact
  · simp only [IntValue.combine] at exact
    split at exact
    next sameShape =>
      obtain ⟨C, combined, rfl⟩ := Option.map_eq_some_iff.mp exact
      have shapes : (m.shape != n.shape) = false := by
        simp only [bne_eq_false_iff_eq]
        simp only [Matrix.shape, IntMatrix.shape, Shape.mk.injEq] at sameShape ⊢
        exact ⟨hm.1.trans (sameShape.1.trans hn.1.symm), hm.2.1.trans (sameShape.2.trans hn.2.1.symm)⟩
      by_cases adding : kind = .addition
      · simp only [adding, beq_self_eq_true, if_true] at combined
        exact ⟨.matrix (Matrix.sumOf m [n]), by simp [Operator.combine, shapes, adding],
          sumOf_holds hm hn combined⟩
      · have subtracting : (kind == .addition) = false := by simpa using adding
        simp only [subtracting, Bool.false_eq_true, if_false] at combined
        exact ⟨.matrix (Matrix.differenceOf m [n]), by simp [Operator.combine, shapes, subtracting],
          differenceOf_holds hm hn combined⟩
    next => cases exact

theorem multiply_holds (first : a.Holds va) (second : b.Holds vb)
    (exact : IntValue.multiply va vb = some v) :
    ∃ r, Operator.multiply a b = .ok r ∧ r.Holds v := by
  rcases first.cases with ⟨x, k, rfl, rfl, wx⟩ | ⟨m, A, rfl, rfl, hm⟩ <;>
    rcases second.cases with ⟨y, l, rfl, rfl, wy⟩ | ⟨n, B, rfl, rfl, hn⟩
  · obtain ⟨r, within, rfl⟩ := Option.map_eq_some_iff.mp exact
    obtain ⟨rfl, bounded⟩ := withinBound_eq_some within
    exact ⟨_, rfl, wx.mul wy bounded⟩
  · obtain ⟨C, scaled, rfl⟩ := Option.map_eq_some_iff.mp exact
    exact ⟨_, rfl, scaleBy_holds hn wx scaled⟩
  · obtain ⟨C, scaled, rfl⟩ := Option.map_eq_some_iff.mp exact
    exact ⟨_, rfl, scaleBy_holds hm wy scaled⟩
  · simp only [IntValue.multiply] at exact
    split at exact
    next chained =>
      obtain ⟨C, multiplied, rfl⟩ := Option.map_eq_some_iff.mp exact
      have inner : (m.cols == n.rows) = true := by
        simp only [beq_iff_eq]
        exact hm.2.1.trans (chained.trans hn.1.symm)
      exact ⟨.matrix (Matrix.productOf m n), by simp [Operator.multiply, Matrix.product, inner]; rfl,
        productOf_holds hm hn multiplied⟩
    next => cases exact

theorem raise_holds (first : a.Holds va) (second : b.Holds vb)
    (exact : IntValue.raise va vb = some v) :
    ∃ p, Operator.raise a b = .ok p ∧ p.result.Holds v := by
  rcases first.cases with ⟨x, k, rfl, rfl, wx⟩ | ⟨m, A, rfl, rfl, hm⟩ <;>
    rcases second.cases with ⟨e, N, rfl, rfl, we⟩ | ⟨n, B, rfl, rfl, hn⟩
  · simp [IntValue.raise] at exact
  · simp [IntValue.raise] at exact
  · simp only [IntValue.raise] at exact
    split at exact
    next admissible =>
      obtain ⟨square, positive⟩ := admissible
      obtain ⟨P, powered, rfl⟩ := Option.map_eq_some_iff.mp exact
      have isSquare : m.isSquare = true := by
        simp only [Matrix.isSquare, beq_iff_eq]
        exact hm.1.trans (square.trans hm.2.1.symm)
      have count : Matrix.powerCount m e = .ok N.toNat := by
        simp [Matrix.powerCount, isSquare, Whole.exponentCount? we positive]
      exact ⟨_, by simp [Operator.raise, count], powersUpTo_holds hm powered⟩
    next => cases exact
  · simp [IntValue.raise] at exact

theorem apply_holds (op : Operator) (first : a.Holds va) (second : b.Holds vb)
    (exact : IntValue.apply op va vb = some v) :
    ∃ p, op.apply a b = .ok p ∧ p.result.Holds v := by
  cases op with
  | plus =>
      obtain ⟨r, combined, holds⟩ := combine_holds .addition first second exact
      exact ⟨.single r, by simp [Operator.apply, combined], holds⟩
  | minus =>
      obtain ⟨r, combined, holds⟩ := combine_holds .subtraction first second exact
      exact ⟨.single r, by simp [Operator.apply, combined], holds⟩
  | times =>
      obtain ⟨r, multiplied, holds⟩ := multiply_holds first second exact
      exact ⟨.single r, by simp [Operator.apply, multiplied], holds⟩
  | power => exact raise_holds first second exact

end Operator

end MatrixSteps
