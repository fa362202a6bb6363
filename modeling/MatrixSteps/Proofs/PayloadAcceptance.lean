import Mathlib
import MatrixSteps.Proofs.ContractRoundTrip
import MatrixSteps.Proofs.NearestDouble
import MatrixSteps.Proofs.IntegerNumerals

/-!
Which payloads load, and what they load as.

Loading checks each record against the matrix schema and then reads it, with any libraries that do
what their documentation says (`Draft202012`, `LaxReading`). For a record that follows the schema,
reading fails in two ways only: its `rows` and `cols` do not fit its data
(`Contract.ShapeFits`), or one of its cells is an integer too large for a double
(`Contract.CellsFit`). The bound is `Binary.overflowBound`, `2 ^ 1024 - 2 ^ 970`: an integer has a
finite nearest double exactly when its magnitude is below it (`Binary.ofInt?_eq`), the bound
itself rounding up to the even significand and so to an infinity.

So a payload loads exactly when each record follows the schema and fits, and then each entry holds
its record's fields (`Contract.Reads`); otherwise the first record that does not decides the
fault (`Contract.load_accepts_exactly`).
-/

namespace MatrixSteps

section Lists

variable {α β : Type}

theorem exists_forall₂ {R : α → β → Prop} :
    ∀ {xs : List α}, (∀ x ∈ xs, ∃ y, R x y) → ∃ ys, List.Forall₂ R xs ys
  | [], _ => ⟨[], .nil⟩
  | x :: xs, each => by
      obtain ⟨y, related⟩ := each x List.mem_cons_self
      obtain ⟨ys, rest⟩ := exists_forall₂ fun z member => each z (List.mem_cons_of_mem x member)
      exact ⟨y :: ys, .cons related rest⟩

theorem forall₂_iff_and_of_mem {R S : α → β → Prop} {p : α → Prop} {xs : List α}
    (split : ∀ x ∈ xs, ∀ y, R x y ↔ S x y ∧ p x) {ys : List β} :
    List.Forall₂ R xs ys ↔ List.Forall₂ S xs ys ∧ ∀ x ∈ xs, p x := by
  induction xs generalizing ys with
  | nil => cases ys <;> simp
  | cons x xs ih =>
      have rest := fun ys => @ih (fun z member => split z (List.mem_cons_of_mem x member)) ys
      cases ys with
      | nil => simp
      | cons y ys =>
          simp only [List.forall₂_cons, split x List.mem_cons_self, rest ys, List.forall_mem_cons]
          tauto

end Lists

namespace Binary

/-- The least magnitude of a whole number whose nearest double is an infinity, `2 ^ 1024 - 2 ^ 970`:
the midpoint between the largest finite double, `(2 ^ 53 - 1) * 2 ^ 971`, and `2 ^ 1024`. -/
def overflowBound : Nat := (2 ^ 54 - 1) * 2 ^ 970

theorem overflowBound_cast : (overflowBound : ℚ) = (2 ^ 54 - 1) * 2 ^ (970 : ℤ) := by
  rw [overflowBound, Nat.cast_mul, Nat.cast_sub Nat.one_le_two_pow, zpow_ofNat]
  simp only [Nat.cast_pow, Nat.cast_ofNat, Nat.cast_one]

theorem overflowBound_infinite (negative : Bool) :
    (parts (nearest negative overflowBound 1)).isFinite = false := by
  cases negative <;> decide +kernel

theorem isFinite_carried (negative : Bool) {R : Nat} {E : Int} (atMost : R ≤ 2 ^ 53)
    (low : -1074 ≤ E) :
    (parts (carried negative R E)).isFinite = true ↔ E < 971 ∨ (E = 971 ∧ R ≠ 2 ^ 53) := by
  rw [parts_carried_eq negative atMost low]
  split_ifs <;> simp [Parts.isFinite] <;> omega

section TopPlace

/-! The arithmetic at the top place `2 ^ 971 = 2 * Q`, with `Q = 2 ^ 970` kept as one atom and the
bound `(2 ^ 54 - 1) * Q` between `(2 ^ 53 - 1) * 2 ^ 971` and `2 ^ 53 * 2 ^ 971`. -/

variable {x Q : ℚ}

theorem lt_bound_of_place_le {P : ℚ} (unit : 0 < Q) (scaled : x < 2 ^ 53 * P) (place : P ≤ Q) :
    x < (2 ^ 54 - 1) * Q := by
  linarith

theorem le_bound_of_nearer {R : ℚ} (unit : 0 < Q) (short : R + 1 ≤ 2 ^ 53)
    (scaled : x < 2 ^ 53 * (2 * Q))
    (nearer : |R * (2 * Q) - x| ≤ |2 ^ 53 * (2 * Q) - x|) : x ≤ (2 ^ 54 - 1) * Q := by
  have far : |2 ^ 53 * (2 * Q) - x| = 2 ^ 53 * (2 * Q) - x := abs_of_pos (by linarith)
  have near : x - R * (2 * Q) ≤ |R * (2 * Q) - x| := by
    rw [abs_sub_comm]
    exact le_abs_self _
  have product : R * (2 * Q) ≤ (2 ^ 53 - 1) * (2 * Q) :=
    mul_le_mul_of_nonneg_right (by linarith) (by linarith)
  linarith

theorem not_nearer_of_lt_bound (unit : 0 < Q) (under : x < (2 ^ 54 - 1) * Q)
    (nearer : |2 ^ 53 * (2 * Q) - x| ≤ |(2 ^ 53 - 1) * (2 * Q) - x|) : False := by
  rw [abs_of_pos (by linarith : (0 : ℚ) < 2 ^ 53 * (2 * Q) - x)] at nearer
  rcases abs_cases ((2 ^ 53 - 1) * (2 * Q) - x) with ⟨eq, -⟩ | ⟨eq, -⟩ <;>
    rw [eq] at nearer <;> linarith

end TopPlace

theorem nearest_whole_isFinite_iff (negative : Bool) (n : Nat) :
    (parts (nearest negative n 1)).isFinite = true ↔ n < overflowBound := by
  by_cases atBound : n = overflowBound
  · rw [atBound, overflowBound_infinite]
    exact iff_of_false Bool.false_ne_true (lt_irrefl _)
  obtain ⟨atMost, low, -, -, closest⟩ := placed_spec n one_pos
  have bits := (placeExponent_spec n one_pos).2.1
  have exponentLe := placeExponent_le n 1
  rw [nearest_eq_carried, isFinite_carried negative atMost low]
  change (placed n 1).2 < 971 ∨ ((placed n 1).2 = 971 ∧ (placed n 1).1 ≠ 2 ^ 53) ↔ _
  change (n : ℚ) / 1 * 2 ^ (-(placed n 1).2) < 2 ^ 53 at bits
  change (placed n 1).2 ≤ _ at exponentLe
  generalize (placed n 1).1 = R at *
  generalize (placed n 1).2 = E at *
  simp only [Nat.cast_one, div_one] at bits closest
  have scaled : (n : ℚ) < 2 ^ 53 * 2 ^ E := by
    rwa [zpow_neg, ← div_eq_mul_inv, div_lt_iff₀ (by positivity)] at bits
  have unit : (0 : ℚ) < 2 ^ (970 : ℤ) := by positivity
  have top : (2 : ℚ) ^ (971 : ℤ) = 2 * 2 ^ (970 : ℤ) := by
    rw [show (971 : ℤ) = 1 + 970 by norm_num, zpow_one_add₀ two_ne_zero]
  have cast : (n : ℚ) < overflowBound ↔ n < overflowBound := Nat.cast_lt
  rw [overflowBound_cast] at cast
  constructor
  · rintro (below | ⟨rfl, notCarried⟩)
    · have place : (2 : ℚ) ^ E ≤ 2 ^ (970 : ℤ) :=
        zpow_le_zpow_right₀ (by norm_num : (1 : ℚ) ≤ 2) (by omega)
      exact cast.mp (lt_bound_of_place_le unit scaled place)
    · have short : (R : ℚ) + 1 ≤ 2 ^ 53 := by exact_mod_cast (by omega : R + 1 ≤ 2 ^ 53)
      have nearer := closest (2 ^ 53)
      rw [Int.cast_pow, Int.cast_ofNat, top] at nearer
      rw [top] at scaled
      have atMostBound : (n : ℚ) ≤ overflowBound := by
        rw [overflowBound_cast]
        exact le_bound_of_nearer unit short scaled nearer
      exact lt_of_le_of_ne (by exact_mod_cast atMostBound) atBound
  · intro under
    have bitsBelow : n.log2 < 1024 := by
      rcases Nat.eq_zero_or_pos n with zero | positive
      · simp [zero]
      · exact (Nat.log2_lt positive.ne').mpr (by unfold overflowBound at under; omega)
    have atTop : E ≤ 971 := by
      simp only [show Nat.log2 1 = 0 from rfl] at exponentLe
      omega
    rcases atTop.lt_or_eq with below | rfl
    · exact .inl below
    refine .inr ⟨rfl, fun carried => ?_⟩
    subst carried
    have nearer := closest (2 ^ 53 - 1)
    rw [Int.cast_sub, Int.cast_pow, Int.cast_ofNat, Int.cast_one, Nat.cast_pow, Nat.cast_ofNat,
      top] at nearer
    exact not_nearer_of_lt_bound unit (cast.mpr under) nearer

theorem ofInt?_eq (i : Int) :
    ofInt? i = if i.natAbs < overflowBound then some (nearest (decide (i < 0)) i.natAbs 1)
      else none := by
  unfold ofInt?
  simp only [nearest_whole_isFinite_iff]

end Binary

namespace Json

/-- The value is a number: an integer or a double. -/
def IsNumber : Json → Prop
  | .int _ => True
  | .float _ => True
  | _ => False

/-- The value is a number that stands for the integer `k`: an integer, or a double without a
fractional part. -/
def IsWhole : Json → Int → Prop
  | .int i, k => i = k
  | .float x, k => Whole x k
  | _, _ => False

/-- The value is a number that reads as the double `x`: a double as it is, or an integer rounded
to its nearest double. -/
def Denotes : Json → Float → Prop
  | .float y, x => y = x
  | .int i, x => x = Binary.nearest (decide (i < 0)) i.natAbs 1
  | _, _ => False

/-- The value is no integer beyond the doubles. -/
def FitsDouble : Json → Prop
  | .int i => i.natAbs < Binary.overflowBound
  | _ => True

theorem IsWhole.unique {v : Json} {a b : Int} (first : v.IsWhole a) (second : v.IsWhole b) :
    a = b := by
  cases v with
  | int i => exact first.symm.trans second
  | float x => exact Option.some.inj (first.symm.trans second)
  | _ => cases first

theorem IsWhole.natCast_iff {v : Json} {n : Nat} (whole : v.IsWhole n) {m : Nat} :
    v.IsWhole m ↔ m = n :=
  ⟨fun other => by exact_mod_cast other.unique whole, fun same => same ▸ whole⟩

theorem exists_denotes {v : Json} (number : v.IsNumber) : ∃ x, v.Denotes x := by
  cases v with
  | int i => exact ⟨_, rfl⟩
  | float y => exact ⟨y, rfl⟩
  | _ => cases number

theorem map_str_filterMap_str? :
    ∀ {items : List Json}, (∀ item ∈ items, ∃ s, item = .str s) →
      (items.filterMap str?).map str = items
  | [], _ => rfl
  | item :: items, texts => by
      obtain ⟨s, rfl⟩ := texts item List.mem_cons_self
      simp [str?, map_str_filterMap_str? fun other member => texts other (List.mem_cons_of_mem _ member)]

end Json

namespace LaxReading

variable {lib : Libraries} (lax : LaxReading lib)
include lax

theorem int_of_isWhole {v : Json} {k : Int} (whole : v.IsWhole k) : lib.int? v = some k := by
  cases v with
  | int i => rw [lax.int_of_int, whole]
  | float x => rw [lax.int_of_float]; exact whole
  | _ => cases whole

theorem float?_eq_some_iff {v : Json} (number : v.IsNumber) {x : Float} :
    lib.float? v = some x ↔ v.Denotes x ∧ v.FitsDouble := by
  cases v with
  | int i =>
      rw [lax.float_of_int, Binary.ofInt?_eq]
      simp only [Json.Denotes, Json.FitsDouble]
      split_ifs with fits <;> simp [fits, eq_comm]
  | float y => simp [lax.float_of_float, Json.Denotes, Json.FitsDouble]
  | _ => cases number

end LaxReading

namespace Contract

theorem present_properties {ps : List (String × Schema × Bool)} {fields : List (String × Json)} :
    (Schema.properties ps).present fields = true ↔
      ∀ p ∈ ps, p.2.2 = true → fields.any (·.1 == p.1) = true := by
  induction ps with
  | nil => simp [Schema.properties, Properties.present]
  | cons p ps ih =>
      obtain ⟨key, schema, required⟩ := p
      cases required <;> simp [Schema.properties, Properties.present, ih]

/-! ### What the schema asks of each field -/

section Validity

variable {valid : Schema → Json → Bool} (schema : Draft202012 valid)
include schema

theorem number_valid_iff {v : Json} : valid .number v = true ↔ v.IsNumber := by
  rw [schema.number]
  cases v <;> simp [Json.IsNumber]

theorem integer_one {v : Json} (accepted : valid (.integer 1) v = true) :
    ∃ k : Nat, 1 ≤ k ∧ v.IsWhole k := by
  rcases (schema.integer 1 v).mp accepted with ⟨i, rfl, positive⟩ | ⟨x, rfl, integral, atLeast⟩
  · exact ⟨i.toNat, by omega, by simp only [Json.IsWhole]; omega⟩
  · have counted : Matrix.exponentCount? x = some (Binary.parts x).wholePart := by
      simp [Matrix.exponentCount?, Binary.Parts.isPositiveInteger, integral, atLeast]
    obtain ⟨whole, one⟩ := Matrix.exponentCount?_eq_some_iff.mp counted
    exact ⟨_, one, whole⟩

theorem data_numbers {v : Json}
    (accepted : valid (.array 1 (.array 1 .number false) false) v = true) :
    ∃ data, v = .arr data ∧ ∀ row ∈ data, ∃ items, row = .arr items ∧
      ∀ item ∈ items, item.IsNumber := by
  obtain ⟨⟨⟩, -⟩ | ⟨data, rfl, -, rows⟩ := (schema.array _ _ _ v).mp accepted
  refine ⟨data, rfl, fun row member => ?_⟩
  obtain ⟨⟨⟩, -⟩ | ⟨items, rfl, -, numbers⟩ := (schema.array _ _ _ row).mp (rows row member)
  exact ⟨items, rfl, fun item listed => (number_valid_iff schema).mp (numbers item listed)⟩

theorem steps_texts {v : Json} (accepted : valid (.array 0 (.string 0) true) v = true) :
    v = .null ∨ ∃ texts : List String, v = .arr (texts.map .str) := by
  obtain ⟨-, rfl⟩ | ⟨items, rfl, -, strings⟩ := (schema.array _ _ _ v).mp accepted
  · exact .inl rfl
  · have texts : ∀ item ∈ items, ∃ s, item = .str s :=
      fun item member => ((schema.string 0 item).mp (strings item member)).imp fun _ => And.left
    exact .inr ⟨items.filterMap Json.str?, by rw [Json.map_str_filterMap_str? texts]⟩

theorem valid_of_field? {ps : Properties} {fields : List (String × Json)} {name : String}
    {s : Schema} {v : Json} (accepted : valid (.object ps) (.obj fields) = true)
    (named : ps.schemaOf? name = some s) (found : (Json.obj fields).field? name = some v) :
    valid s v = true := by
  obtain ⟨fields', same, -, each⟩ := (schema.object ps _).mp accepted
  cases same
  obtain ⟨s', named', valid'⟩ := each name v found
  rw [named, Option.some.injEq] at named'
  exact named' ▸ valid'

theorem required_field {ps : List (String × Schema × Bool)} {fields : List (String × Json)}
    {name : String} {s : Schema}
    (accepted : valid (.object (Schema.properties ps)) (.obj fields) = true)
    (listed : (name, s, true) ∈ ps) (named : (Schema.properties ps).schemaOf? name = some s) :
    ∃ v, (Json.obj fields).field? name = some v ∧ valid s v = true := by
  obtain ⟨fields', same, present, -⟩ := (schema.object _ _).mp accepted
  cases same
  obtain ⟨⟨key, w⟩, member, keyed⟩ :=
    List.any_eq_true.mp (present_properties.mp present _ listed rfl)
  simp only [beq_iff_eq] at keyed
  subst keyed
  obtain ⟨v, found⟩ := Json.field?_of_mem member
  exact ⟨v, found, valid_of_field? schema accepted named found⟩

theorem matrix_fields {r : Json} (accepted : valid Schema.matrix r = true) :
    (∃ v, r.field? "id" = some v ∧ valid (.string 1) v = true) ∧
      (∃ v, r.field? "name" = some v ∧ valid (.string 0) v = true) ∧
      (∃ v, r.field? "rows" = some v ∧ valid (.integer 1) v = true) ∧
      (∃ v, r.field? "cols" = some v ∧ valid (.integer 1) v = true) ∧
      (∃ v, r.field? "data" = some v ∧
        valid (.array 1 (.array 1 .number false) false) v = true) ∧
      ∀ v, r.field? "steps" = some v → valid (.array 0 (.string 0) true) v = true := by
  obtain ⟨fields, rfl, -⟩ := (schema.object _ r).mp accepted
  exact ⟨required_field schema accepted (by simp) rfl, required_field schema accepted (by simp) rfl,
    required_field schema accepted (by simp) rfl, required_field schema accepted (by simp) rfl,
    required_field schema accepted (by simp) rfl, fun v => valid_of_field? schema accepted rfl⟩

end Validity

/-! ### Records that follow the schema -/

/-- Steps as a record holds them: absent or `null` for none, or an array of the texts. -/
def StepsHeld (field : Option Json) : Option (List String) → Prop
  | none => field = none ∨ field = some .null
  | some texts => field = some (.arr (texts.map .str))

theorem StepsHeld.unique {field : Option Json} :
    ∀ {a b : Option (List String)}, StepsHeld field a → StepsHeld field b → a = b
  | none, none, _, _ => rfl
  | none, some _, absent, held => by rcases absent with rfl | rfl <;> cases held
  | some _, none, held, absent => by rcases absent with rfl | rfl <;> cases held
  | some _, some _, first, second => by
      have same := Json.arr.inj (Option.some.inj (first.symm.trans second))
      exact congrArg some (List.map_injective_iff.mpr (fun _ _ named => Json.str.inj named) same)

theorem StepsHeld.exists {valid : Schema → Json → Bool} (schema : Draft202012 valid)
    {field : Option Json}
    (accepted : ∀ v, field = some v → valid (.array 0 (.string 0) true) v = true) :
    ∃ steps, StepsHeld field steps := by
  cases field with
  | none => exact ⟨none, .inl rfl⟩
  | some v =>
      rcases steps_texts schema (accepted v rfl) with rfl | ⟨texts, rfl⟩
      · exact ⟨none, .inr rfl⟩
      · exact ⟨some texts, rfl⟩

theorem StepsHeld.steps?_eq {lib : Libraries} (lax : LaxReading lib) {field : Option Json} :
    ∀ {steps : Option (List String)}, StepsHeld field steps → steps? lib field = some steps
  | none, .inl absent => by rw [absent]; rfl
  | none, .inr null => by rw [null]; rfl
  | some texts, held => by
      rw [held]
      simp [steps?, List.mapM_map, mapM_str?_str lax]

/-- The fields of a record that follows the matrix schema, as reading meets them: texts for the id
and the name, positive whole dimensions, rows of numbers, and steps. -/
structure Layout (r : Json) where
  id : String
  name : String
  rowsValue : Json
  colsValue : Json
  rows : Nat
  cols : Nat
  data : List Json
  steps : Option (List String)
  idField : r.field? "id" = some (.str id)
  nameField : r.field? "name" = some (.str name)
  rowsField : r.field? "rows" = some rowsValue
  colsField : r.field? "cols" = some colsValue
  rowsWhole : rowsValue.IsWhole rows
  colsWhole : colsValue.IsWhole cols
  rowsPositive : 1 ≤ rows
  colsPositive : 1 ≤ cols
  dataField : r.field? "data" = some (.arr data)
  numbers : ∀ row ∈ data, ∃ items, row = .arr items ∧ ∀ item ∈ items, item.IsNumber
  stepsHeld : StepsHeld (r.field? "steps") steps

theorem Layout.of_valid {valid : Schema → Json → Bool} (schema : Draft202012 valid) {r : Json}
    (accepted : valid Schema.matrix r = true) : Nonempty (Layout r) := by
  obtain ⟨⟨idV, idField, idOk⟩, ⟨nameV, nameField, nameOk⟩, ⟨rowsV, rowsField, rowsOk⟩,
    ⟨colsV, colsField, colsOk⟩, ⟨dataV, dataField, dataOk⟩, stepsOk⟩ :=
    matrix_fields schema accepted
  obtain ⟨id, rfl, -⟩ := (schema.string 1 _).mp idOk
  obtain ⟨name, rfl, -⟩ := (schema.string 0 _).mp nameOk
  obtain ⟨rows, rowsPositive, rowsWhole⟩ := integer_one schema rowsOk
  obtain ⟨cols, colsPositive, colsWhole⟩ := integer_one schema colsOk
  obtain ⟨data, rfl, numbers⟩ := data_numbers schema dataOk
  obtain ⟨steps, stepsHeld⟩ := StepsHeld.exists schema stepsOk
  exact ⟨⟨id, name, rowsV, colsV, rows, cols, data, steps, idField, nameField, rowsField, colsField,
    rowsWhole, colsWhole, rowsPositive, colsPositive, dataField, numbers, stepsHeld⟩⟩

/-! ### Reading a record that follows the schema -/

/-- The entry a layout reads as, given the record's cells as doubles. -/
def Layout.entry {r : Json} (L : Layout r) (cells : List (List Float)) : Entry :=
  ⟨.given L.id, ⟨L.name, L.rows, L.cols, cells, L.steps⟩⟩

/-- Rows of numbers that read as rows of doubles, cell by cell. -/
def GridDenotes (data : List Json) (cells : List (List Float)) : Prop :=
  List.Forall₂ (fun row cs => ∃ items, row = .arr items ∧ List.Forall₂ Json.Denotes items cs)
    data cells

theorem GridDenotes.exists {data : List Json}
    (numbers : ∀ row ∈ data, ∃ items, row = .arr items ∧ ∀ item ∈ items, item.IsNumber) :
    ∃ cells, GridDenotes data cells := by
  refine exists_forall₂ fun row member => ?_
  obtain ⟨items, rfl, each⟩ := numbers row member
  obtain ⟨cs, denotes⟩ := exists_forall₂ fun item listed => Json.exists_denotes (each item listed)
  exact ⟨cs, items, rfl, denotes⟩

theorem GridDenotes.widths_iff {data : List Json} {cells : List (List Float)}
    (grid : GridDenotes data cells) (cols : Nat) :
    (∀ cs ∈ cells, cs.length = cols) ↔
      ∀ row ∈ data, ∃ items, row = .arr items ∧ items.length = cols := by
  induction grid with
  | nil => simp
  | cons head _ ih =>
      obtain ⟨items, rfl, denotes⟩ := head
      simp only [List.forall_mem_cons, ih, Json.arr.injEq, exists_eq_left', denotes.length_eq]

theorem build?_eq_some_iff {name : String} {rows cols : Nat} {cells : List (List Float)}
    {steps : Option (List String)} (rowsPositive : 1 ≤ rows) (colsPositive : 1 ≤ cols)
    {m : Matrix} :
    Matrix.build? name rows cols cells steps = some m ↔
      (cells.length = rows ∧ ∀ cs ∈ cells, cs.length = cols) ∧
        m = ⟨name, rows, cols, cells, steps⟩ := by
  have checks : ((0 : Int) < rows && (0 : Int) < cols &&
      (⟨name, rows, cols, cells, steps⟩ : Matrix).wellShaped) = true ↔
      cells.length = rows ∧ ∀ cs ∈ cells, cs.length = cols := by
    rw [Bool.and_eq_true, Bool.and_eq_true, decide_eq_true_eq, decide_eq_true_eq, wellShaped_iff]
    constructor
    · rintro ⟨⟨-, -⟩, -, -, height, widths⟩
      exact ⟨height, widths⟩
    · rintro ⟨height, widths⟩
      exact ⟨⟨by omega, by omega⟩, rowsPositive, colsPositive, height, widths⟩
  unfold Matrix.build?
  simp only [Int.toNat_natCast, Option.ite_none_right_eq_some, Option.some.injEq, checks]
  exact Iff.and Iff.rfl eq_comm

section Reading

variable {lib : Libraries} (lax : LaxReading lib)
include lax

/-- The rows of numbers read as doubles exactly when every cell fits a double, and then as the
doubles they denote. -/
theorem cells?_eq_some_iff {data : List Json}
    (numbers : ∀ row ∈ data, ∃ items, row = .arr items ∧ ∀ item ∈ items, item.IsNumber)
    {cells : List (List Float)} :
    cells? lib (.arr data) = some cells ↔ GridDenotes data cells ∧
      ∀ row ∈ data, ∀ items, row = .arr items → ∀ v ∈ items, v.FitsDouble := by
  simp only [cells?, Json.arr?, Option.bind_eq_bind, Option.bind_some]
  rw [mapM_eq_some_iff_forall₂, GridDenotes]
  apply forall₂_iff_and_of_mem
  intro row member cs
  obtain ⟨items, rfl, each⟩ := numbers row member
  simp only [Option.bind_some, Json.arr.injEq, exists_eq_left', forall_eq']
  rw [mapM_eq_some_iff_forall₂]
  exact forall₂_iff_and_of_mem fun v listed x => lax.float?_eq_some_iff (each v listed)

variable {r : Json} (L : Layout r)

theorem Layout.readRecord?_eq :
    readRecord? lib r = (cells? lib (.arr L.data)).bind fun cells =>
      (Matrix.build? L.name L.rows L.cols cells L.steps).map (⟨.given L.id, ·⟩) := by
  simp [readRecord?, L.idField, L.nameField, L.rowsField, L.colsField, lax.str_of_str,
    lax.int_of_isWhole L.rowsWhole, lax.int_of_isWhole L.colsWhole, L.dataField,
    L.stepsHeld.steps?_eq lax, Option.map_eq_bind]

/-- A record that follows the schema reads exactly when its cells fit doubles and its data has
its dimensions, and then as the entry of the cells the data denotes. -/
theorem Layout.readRecord?_eq_some_iff {e : Entry} :
    readRecord? lib r = some e ↔ ∃ cells, GridDenotes L.data cells ∧
      (∀ row ∈ L.data, ∀ items, row = .arr items → ∀ v ∈ items, v.FitsDouble) ∧
      (L.data.length = L.rows ∧
        ∀ row ∈ L.data, ∃ items, row = .arr items ∧ items.length = L.cols) ∧
      e = L.entry cells := by
  rw [L.readRecord?_eq lax, Option.bind_eq_some_iff]
  constructor
  · rintro ⟨cells, read, built⟩
    obtain ⟨grid, fits⟩ := (cells?_eq_some_iff lax L.numbers).mp read
    obtain ⟨m, made, rfl⟩ := Option.map_eq_some_iff.mp built
    obtain ⟨⟨height, widths⟩, rfl⟩ := (build?_eq_some_iff L.rowsPositive L.colsPositive).mp made
    exact ⟨cells, grid, fits, ⟨grid.length_eq.trans height, (grid.widths_iff L.cols).mp widths⟩,
      rfl⟩
  · rintro ⟨cells, grid, fits, ⟨height, widths⟩, rfl⟩
    refine ⟨cells, (cells?_eq_some_iff lax L.numbers).mpr ⟨grid, fits⟩, ?_⟩
    rw [(build?_eq_some_iff L.rowsPositive L.colsPositive).mpr
      ⟨⟨grid.length_eq.symm.trans height, (grid.widths_iff L.cols).mpr widths⟩, rfl⟩]
    rfl

end Reading

/-! ### What loads -/

/-- The record's dimensions fit its data: `rows` stands for the number of rows, and `cols` for
the number of items in every row. -/
def ShapeFits (r : Json) : Prop :=
  ∃ rowsValue colsValue data, r.field? "rows" = some rowsValue ∧
    r.field? "cols" = some colsValue ∧ r.field? "data" = some (.arr data) ∧
    rowsValue.IsWhole data.length ∧ ∀ row ∈ data, ∃ items, row = .arr items ∧
      colsValue.IsWhole items.length

/-- No cell of the record is an integer beyond the doubles. -/
def CellsFit (r : Json) : Prop :=
  ∀ data, r.field? "data" = some (.arr data) → ∀ row ∈ data, ∀ items, row = .arr items →
    ∀ v ∈ items, v.FitsDouble

/-- A record that loads: it is valid under the matrix schema, and its shape and cells fit. -/
def Loadable (valid : Schema → Json → Bool) (r : Json) : Prop :=
  valid Schema.matrix r = true ∧ ShapeFits r ∧ CellsFit r

/-- The entry holds the record's fields: the id as its handle, the name, the dimensions, the cells
read as doubles, and the steps, none when absent or `null`. -/
structure Reads (r : Json) (e : Entry) : Prop where
  id : ∃ s, r.field? "id" = some (.str s) ∧ e.handle = .given s
  name : r.field? "name" = some (.str e.matrix.name)
  rows : ∃ v, r.field? "rows" = some v ∧ v.IsWhole e.matrix.rows
  cols : ∃ v, r.field? "cols" = some v ∧ v.IsWhole e.matrix.cols
  cells : ∃ data, r.field? "data" = some (.arr data) ∧ GridDenotes data e.matrix.cells
  steps : StepsHeld (r.field? "steps") e.matrix.steps

section Layouts

variable {r : Json} (L : Layout r)

theorem Layout.shapeFits_iff :
    ShapeFits r ↔ L.data.length = L.rows ∧
      ∀ row ∈ L.data, ∃ items, row = .arr items ∧ items.length = L.cols := by
  constructor
  · rintro ⟨rowsValue, colsValue, data, rowsField, colsField, dataField, height, widths⟩
    obtain rfl := Option.some.inj (L.rowsField.symm.trans rowsField)
    obtain rfl := Option.some.inj (L.colsField.symm.trans colsField)
    obtain rfl := Json.arr.inj (Option.some.inj (L.dataField.symm.trans dataField))
    refine ⟨(L.rowsWhole.natCast_iff).mp height, fun row member => ?_⟩
    obtain ⟨items, rfl, width⟩ := widths row member
    exact ⟨items, rfl, (L.colsWhole.natCast_iff).mp width⟩
  · rintro ⟨height, widths⟩
    refine ⟨L.rowsValue, L.colsValue, L.data, L.rowsField, L.colsField, L.dataField,
      (L.rowsWhole.natCast_iff).mpr height, fun row member => ?_⟩
    obtain ⟨items, rfl, width⟩ := widths row member
    exact ⟨items, rfl, (L.colsWhole.natCast_iff).mpr width⟩

theorem Layout.cellsFit_iff :
    CellsFit r ↔ ∀ row ∈ L.data, ∀ items, row = .arr items → ∀ v ∈ items, v.FitsDouble := by
  simp only [CellsFit, L.dataField, Option.some.injEq, Json.arr.injEq, forall_eq']

theorem Layout.reads_iff {e : Entry} :
    Reads r e ↔ ∃ cells, GridDenotes L.data cells ∧ e = L.entry cells := by
  constructor
  · rintro ⟨⟨s, idField, handle⟩, nameField, ⟨rowsValue, rowsField, rowsWhole⟩,
      ⟨colsValue, colsField, colsWhole⟩, ⟨data, dataField, grid⟩, steps⟩
    obtain rfl := Json.str.inj (Option.some.inj (L.idField.symm.trans idField))
    obtain rfl := Option.some.inj (L.rowsField.symm.trans rowsField)
    obtain rfl := Option.some.inj (L.colsField.symm.trans colsField)
    obtain rfl := Json.arr.inj (Option.some.inj (L.dataField.symm.trans dataField))
    have name := Json.str.inj (Option.some.inj (L.nameField.symm.trans nameField))
    have rows := (L.rowsWhole.natCast_iff).mp rowsWhole
    have cols := (L.colsWhole.natCast_iff).mp colsWhole
    have held := L.stepsHeld.unique steps
    obtain ⟨handle', ⟨name', rows', cols', cells', steps'⟩⟩ := e
    dsimp only at handle name rows cols held grid
    subst handle name rows cols held
    exact ⟨cells', grid, rfl⟩
  · rintro ⟨cells, grid, rfl⟩
    exact ⟨⟨L.id, L.idField, rfl⟩, L.nameField, ⟨_, L.rowsField, L.rowsWhole⟩,
      ⟨_, L.colsField, L.colsWhole⟩, ⟨_, L.dataField, grid⟩, L.stepsHeld⟩

end Layouts

section Loading

variable {lib : Libraries} (schema : Draft202012 lib.valid) (lax : LaxReading lib)
include schema lax

theorem readRecord?_eq_some_iff {r : Json} (accepted : lib.valid Schema.matrix r = true)
    {e : Entry} : readRecord? lib r = some e ↔ ShapeFits r ∧ CellsFit r ∧ Reads r e := by
  obtain ⟨L⟩ := Layout.of_valid schema accepted
  rw [L.readRecord?_eq_some_iff lax, L.shapeFits_iff, L.cellsFit_iff, L.reads_iff]
  constructor
  · rintro ⟨cells, grid, fits, shape, rfl⟩
    exact ⟨shape, fits, cells, grid, rfl⟩
  · rintro ⟨shape, fits, cells, grid, rfl⟩
    exact ⟨cells, grid, fits, shape, rfl⟩

theorem readRecord?_eq_none_iff {r : Json} (accepted : lib.valid Schema.matrix r = true) :
    readRecord? lib r = none ↔ ¬ (ShapeFits r ∧ CellsFit r) := by
  obtain ⟨L⟩ := Layout.of_valid schema accepted
  rw [Option.eq_none_iff_forall_ne_some]
  constructor
  · rintro never ⟨shape, fits⟩
    obtain ⟨cells, grid⟩ := GridDenotes.exists L.numbers
    exact never _ ((readRecord?_eq_some_iff schema lax accepted).mpr
      ⟨shape, fits, L.reads_iff.mpr ⟨cells, grid, rfl⟩⟩)
  · intro unfit e read
    obtain ⟨shape, fits, -⟩ := (readRecord?_eq_some_iff schema lax accepted).mp read
    exact unfit ⟨shape, fits⟩

theorem loadRecord_eq_ok_iff {r : Json} {e : Entry} :
    loadRecord lib r = .ok e ↔ Loadable lib.valid r ∧ Reads r e := by
  by_cases accepted : lib.valid Schema.matrix r = true
  · rw [Loadable, and_assoc, and_iff_right accepted, and_assoc,
      ← readRecord?_eq_some_iff schema lax accepted]
    simp only [loadRecord, accepted, Bool.not_true, Bool.false_eq_true, if_false]
    cases readRecord? lib r <;> simp
  · simp [loadRecord, accepted, Loadable]

theorem loadRecord_eq_model_iff {r : Json} :
    loadRecord lib r = .error .model ↔
      lib.valid Schema.matrix r = true ∧ ¬ (ShapeFits r ∧ CellsFit r) := by
  cases accepted : lib.valid Schema.matrix r
  · simp [loadRecord, accepted]
  · rw [← readRecord?_eq_none_iff schema lax accepted]
    simp only [loadRecord, accepted, Bool.not_true, Bool.false_eq_true, if_false, true_and]
    cases readRecord? lib r <;> simp

theorem exists_loadRecord_eq_ok_iff {r : Json} :
    (∃ e, loadRecord lib r = .ok e) ↔ Loadable lib.valid r := by
  constructor
  · rintro ⟨e, loaded⟩
    exact ((loadRecord_eq_ok_iff schema lax).mp loaded).1
  · rintro ⟨accepted, fits⟩
    cases read : readRecord? lib r with
    | none => exact absurd fits ((readRecord?_eq_none_iff schema lax accepted).mp read)
    | some e => exact ⟨e, by simp [loadRecord, accepted, read]⟩

end Loading

theorem loadRecord_eq_schema_iff {lib : Libraries} {r : Json} :
    loadRecord lib r = .error .schema ↔ lib.valid Schema.matrix r = false := by
  cases accepted : lib.valid Schema.matrix r
  · simp [loadRecord, accepted]
  · simp only [loadRecord, accepted, Bool.not_true, Bool.false_eq_true, if_false]
    cases readRecord? lib r <;> simp

/-- Loading accepts exactly the payloads whose records all follow the schema and fit, and gives one
entry per record, holding its fields, in order. Otherwise the first record that does not decides
the fault: a schema fault if it does not follow the schema, and a model fault if it does but its
dimensions do not fit its data or one of its cells is an integer beyond the doubles. This holds for
any validator that follows draft 2020-12 and any readers that read as lax mode does. -/
theorem load_accepts_exactly (lib : Libraries) (schema : Draft202012 lib.valid)
    (lax : LaxReading lib) (records : List Json) :
    (∀ entries, load lib records = .ok entries ↔
      List.Forall₂ (fun r e => Loadable lib.valid r ∧ Reads r e) records entries) ∧
    (load lib records = .error .schema ↔ ∃ pre r post, records = pre ++ r :: post ∧
      (∀ q ∈ pre, Loadable lib.valid q) ∧ lib.valid Schema.matrix r = false) ∧
    (load lib records = .error .model ↔ ∃ pre r post, records = pre ++ r :: post ∧
      (∀ q ∈ pre, Loadable lib.valid q) ∧ lib.valid Schema.matrix r = true ∧
        ¬ (ShapeFits r ∧ CellsFit r)) := by
  refine ⟨fun entries => ?_, ?_, ?_⟩
  · rw [load, mapM_eq_ok_iff_forall₂]
    simp only [loadRecord_eq_ok_iff schema lax]
  · rw [load, mapM_eq_error_iff]
    simp only [loadRecord_eq_schema_iff, exists_loadRecord_eq_ok_iff schema lax]
  · rw [load, mapM_eq_error_iff]
    simp only [loadRecord_eq_model_iff schema lax, exists_loadRecord_eq_ok_iff schema lax]

/-- A record whose `rows` says two over one row of data. -/
def shortDataRecord : Json :=
  .obj [("id", .str "x"), ("name", .str "M"), ("rows", .int 2), ("cols", .int 1),
    ("data", .arr [.arr [.int 1]])]

/-- The libraries this library runs with refuse, as a model fault, a record that follows the
schema but has fewer rows of data than it declares. -/
theorem short_data_refused_by_model : load Libraries.reference [shortDataRecord] = .error .model := by
  refine (load_accepts_exactly Libraries.reference Libraries.reference_draft202012
    Libraries.reference_laxReading [shortDataRecord]).2.2.mpr
    ⟨[], shortDataRecord, [], rfl, by simp, by decide +kernel, ?_⟩
  rintro ⟨⟨rowsValue, -, data, rowsField, -, dataField, height, -⟩, -⟩
  cases (rowsField.symm.trans rfl : some rowsValue = some (.int 2))
  cases (dataField.symm.trans rfl : some (Json.arr data) = some (.arr [.arr [.int 1]]))
  simp [Json.IsWhole] at height

/-- A one-by-one matrix record whose cell is the integer `10 ^ 400`. -/
def hugeCellRecord : Json :=
  .obj [("id", .str "x"), ("name", .str "M"), ("rows", .int 1), ("cols", .int 1),
    ("data", .arr [.arr [.int (10 ^ 400)]])]

/-- A record can follow the schema and have data of its dimensions, and still not load: the
integer `10 ^ 400` has no finite nearest double. -/
theorem huge_integer_cell_refused :
    Libraries.reference.valid Schema.matrix hugeCellRecord = true ∧ ShapeFits hugeCellRecord ∧
      load Libraries.reference [hugeCellRecord] = .error .model := by
  have accepted : Libraries.reference.valid Schema.matrix hugeCellRecord = true := by
    decide +kernel
  have shape : ShapeFits hugeCellRecord :=
    ⟨.int 1, .int 1, [.arr [.int (10 ^ 400)]], rfl, rfl, rfl, rfl,
      fun _ member => ⟨_, List.mem_singleton.mp member, rfl⟩⟩
  have beyond : ¬ CellsFit hugeCellRecord := fun fits =>
    absurd (fits _ rfl _ List.mem_cons_self _ rfl _ List.mem_cons_self)
      (by decide +kernel : ¬ (10 ^ 400 : Int).natAbs < Binary.overflowBound)
  refine ⟨accepted, shape, mapM_eq_error_iff.mpr ⟨[], hugeCellRecord, [], rfl, by simp, ?_⟩⟩
  exact (loadRecord_eq_model_iff Libraries.reference_draft202012 Libraries.reference_laxReading).mpr
    ⟨accepted, fun fit => beyond fit.2⟩

end Contract

end MatrixSteps
