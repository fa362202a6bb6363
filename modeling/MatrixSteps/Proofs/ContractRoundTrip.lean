import Mathlib
import MatrixSteps.Contract.Load

/-!
Writing matrices as records and loading them back, with any libraries that do what their
documentation says (`Draft202012`, `LaxReading`, `Dumps`). The libraries this library runs with
do (`Libraries.reference_draft202012`, `Libraries.reference_laxReading`).

A payload is loaded record by record, so loading succeeds exactly when every record loads, in
order (`mapM_eq_ok_iff_forall₂`), and fails with the fault of the first record that fails
(`mapM_eq_error_iff`).

The record of a well-shaped matrix under a nonempty id follows the matrix schema
(`Contract.record_valid`) and reads back as that matrix under that id
(`Contract.readRecord?_record`). So a trace of such matrices is a valid trace whose every record
is a valid matrix, and loading it gives back the matrices in order (`Contract.trace_round_trip`).
-/

namespace MatrixSteps

section Lists

variable {ε α β : Type}

theorem mapM_eq_ok_iff_forall₂ {f : α → Except ε β} {xs : List α} {ys : List β} :
    xs.mapM f = .ok ys ↔ List.Forall₂ (fun x y => f x = .ok y) xs ys := by
  induction xs generalizing ys with
  | nil => cases ys <;> simp [pure, Except.pure]
  | cons x xs ih =>
    rw [List.mapM_cons]
    cases first : f x with
    | error e => cases ys <;> simp [bind, Except.bind, first]
    | ok y =>
      cases rest : xs.mapM f with
      | error e => cases ys <;> simp [bind, Except.bind, ← ih, rest, first]
      | ok zs => cases ys <;> simp [bind, Except.bind, pure, Except.pure, ← ih, rest, first]

theorem mapM_cons_eq_error_iff {f : α → Except ε β} {e : ε} {x : α} {xs : List α} :
    (x :: xs).mapM f = .error e ↔ f x = .error e ∨ ∃ b, f x = .ok b ∧ xs.mapM f = .error e := by
  rw [List.mapM_cons]
  cases f x <;> cases xs.mapM f <;> simp [bind, Except.bind, pure, Except.pure]

theorem mapM_eq_error_iff {f : α → Except ε β} {e : ε} :
    ∀ {xs : List α}, xs.mapM f = .error e ↔
      ∃ pre x post, xs = pre ++ x :: post ∧ (∀ y ∈ pre, ∃ b, f y = .ok b) ∧ f x = .error e
  | [] => by simp [pure, Except.pure]
  | x :: xs => by
      rw [mapM_cons_eq_error_iff, mapM_eq_error_iff]
      constructor
      · rintro (first | ⟨b, passes, pre, y, post, rfl, passed, stops⟩)
        · exact ⟨[], x, xs, rfl, by simp, first⟩
        · exact ⟨x :: pre, y, post, rfl, List.forall_mem_cons.mpr ⟨⟨b, passes⟩, passed⟩, stops⟩
      · rintro ⟨pre, y, post, split, passed, stops⟩
        cases pre with
        | nil =>
            obtain ⟨rfl, rfl⟩ := List.cons_eq_cons.mp split
            exact .inl stops
        | cons z pre =>
            obtain ⟨rfl, rfl⟩ := List.cons_eq_cons.mp split
            obtain ⟨b, passes⟩ := passed x List.mem_cons_self
            exact .inr ⟨b, passes, pre, y, post, rfl,
              fun w member => passed w (List.mem_cons_of_mem x member), stops⟩

theorem mapM_eq_some_iff_forall₂ {f : α → Option β} {xs : List α} {ys : List β} :
    xs.mapM f = some ys ↔ List.Forall₂ (fun x y => f x = some y) xs ys := by
  induction xs generalizing ys with
  | nil => cases ys <;> simp
  | cons x xs ih =>
    rw [List.mapM_cons]
    cases first : f x with
    | none => cases ys <;> simp [first]
    | some y =>
      cases rest : xs.mapM f with
      | none => cases ys <;> simp [← ih, rest, first]
      | some zs => cases ys <;> simp [← ih, rest, first]

end Lists

namespace Json

theorem mem_of_field? {fields : List (String × Json)} {key : String} {v : Json}
    (found : (obj fields).field? key = some v) : (key, v) ∈ fields := by
  simp only [field?, Option.map_eq_some_iff] at found
  obtain ⟨⟨k, w⟩, found, rfl⟩ := found
  have named := List.find?_some found
  simp only [beq_iff_eq] at named
  subst named
  exact List.mem_reverse.mp (List.mem_of_find?_eq_some found)

theorem field?_of_mem {fields : List (String × Json)} {key : String} {v : Json}
    (member : (key, v) ∈ fields) : ∃ w, (obj fields).field? key = some w := by
  have found : ((fields.reverse.find? (·.1 == key))).isSome := by
    rw [List.find?_isSome]
    exact ⟨(key, v), List.mem_reverse.mpr member, by simp⟩
  obtain ⟨kv, found⟩ := Option.isSome_iff_exists.mp found
  exact ⟨kv.2, by simp [field?, found]⟩

end Json

/-! ### The libraries this library runs with -/

theorem Properties.admits_eq_schemaOf? :
    ∀ (ps : Properties) (key : String) (v : Json),
      ps.admits key v = ((ps.schemaOf? key).map (·.accepts v)).getD false
  | .nil, _, _ => rfl
  | .cons name s _ rest, key, v => by
      simp only [Properties.admits, Properties.schemaOf?]
      split
      · rfl
      · exact admits_eq_schemaOf? rest key v

theorem Schema.accepts_object (ps : Properties) (v : Json) :
    (Schema.object ps).accepts v = true ↔
      ∃ fields, v = .obj fields ∧ ps.present fields = true ∧
        ∀ key w, (Json.obj fields).field? key = some w →
          ∃ s, ps.schemaOf? key = some s ∧ s.accepts w = true := by
  cases v
  case obj fields =>
    simp only [Schema.accepts, Bool.and_eq_true, List.all_eq_true, Json.obj.injEq, exists_eq_left']
    refine and_congr_right fun _ => ⟨fun each key w found => ?_, fun rule field member => ?_⟩
    · have admitted := each (key, w) (Json.mem_of_field? found)
      rw [found, Option.all_some, Properties.admits_eq_schemaOf?] at admitted
      cases named : ps.schemaOf? key with
      | none => simp [named] at admitted
      | some s => exact ⟨s, rfl, by simpa [named] using admitted⟩
    · obtain ⟨w, found⟩ := Json.field?_of_mem member
      obtain ⟨s, named, accepted⟩ := rule field.1 w found
      rw [found, Option.all_some, Properties.admits_eq_schemaOf?, named]
      exact accepted
  all_goals simp [Schema.accepts]

theorem Libraries.reference_draft202012 : Draft202012 Schema.accepts where
  string minLength v := by cases v <;> simp [Schema.accepts]
  integer minimum v := by
    cases v <;> simp [Schema.accepts, Schema.integral?]
    split_ifs <;> simp_all
  number v := by cases v <;> simp [Schema.accepts]
  array minItems items orNull v := by
    cases orNull <;> cases v <;> simp [Schema.accepts, List.all_eq_true]
  object := Schema.accepts_object

theorem Libraries.reference_laxReading : LaxReading Libraries.reference where
  int_of_int _ := rfl
  int_of_float _ := rfl
  float_of_float _ := by simp [Libraries.reference, Json.toFloat?, Json.toFloat, Except.toOption]
  float_of_int i := by
    simp only [Libraries.reference, Json.toFloat?, Json.toFloat]
    cases Binary.ofInt? i <;> rfl
  str_of_str _ := rfl

theorem Libraries.reference_dumps : Dumps Libraries.reference.dump := fun _ _ => rfl

namespace Contract

theorem wellShaped_iff (m : Matrix) : m.wellShaped = true ↔ m.WellShaped := by
  simp [Matrix.wellShaped, Matrix.WellShaped, List.all_eq_true, and_assoc]

section Writing

variable {valid : Schema → Json → Bool} (schema : Draft202012 valid)
include schema

/-- An object whose every field is a property valid under its schema, with the required
properties present, is valid. -/
theorem object_valid_of_fields {ps : Properties} {fields : List (String × Json)}
    (present : ps.present fields = true)
    (each : ∀ p ∈ fields, ∃ s, ps.schemaOf? p.1 = some s ∧ valid s p.2 = true) :
    valid (.object ps) (.obj fields) = true :=
  (schema.object ps _).mpr ⟨fields, rfl, present, fun key w found => each (key, w) (Json.mem_of_field? found)⟩

theorem number_valid_float (x : Float) : valid .number (.float x) = true :=
  (schema.number _).mpr (.inr ⟨x, rfl⟩)

theorem string_valid (s : String) : valid (.string 0) (.str s) = true :=
  (schema.string 0 _).mpr ⟨s, rfl, Nat.zero_le _⟩

theorem integer_valid {minimum : Int} {n : Nat} (atLeast : minimum ≤ n) :
    valid (.integer minimum) (.int n) = true :=
  (schema.integer minimum _).mpr (.inl ⟨n, rfl, atLeast⟩)

theorem array_valid {minItems : Nat} {items : Schema} {orNull : Bool} {vs : List Json}
    (enough : minItems ≤ vs.length) (each : ∀ w ∈ vs, valid items w = true) :
    valid (.array minItems items orNull) (.arr vs) = true :=
  (schema.array minItems items orNull _).mpr (.inr ⟨vs, rfl, enough, each⟩)

theorem record_valid {id : String} {m : Matrix} (named : id ≠ "") (shaped : m.WellShaped) :
    valid Schema.matrix (record id m) = true := by
  obtain ⟨rows, cols, height, width⟩ := shaped
  have idLength : 1 ≤ id.length := by
    rw [Nat.one_le_iff_ne_zero]
    simpa [String.length_eq_zero_iff] using named
  have data : valid (.array 1 (.array 1 .number false) false)
      (.arr (m.cells.map fun row => .arr (row.map .float))) = true := by
    refine array_valid schema (by simp [height]; omega) fun w member => ?_
    obtain ⟨row, listed, rfl⟩ := List.mem_map.mp member
    exact array_valid schema (by simp [width row listed]; omega) fun v item => by
      obtain ⟨x, -, rfl⟩ := List.mem_map.mp item
      exact number_valid_float schema x
  refine object_valid_of_fields schema (by simp [Schema.properties, Properties.present]) ?_
  simp only [List.forall_mem_cons, List.not_mem_nil, IsEmpty.forall_iff, implies_true, and_true]
  refine ⟨⟨_, rfl, (schema.string 1 _).mpr ⟨id, rfl, idLength⟩⟩, ⟨_, rfl, string_valid schema _⟩,
    ⟨_, rfl, integer_valid schema (by omega)⟩, ⟨_, rfl, integer_valid schema (by omega)⟩,
    ⟨_, rfl, data⟩, ⟨_, rfl, ?_⟩⟩
  cases m.steps with
  | none => exact (schema.array 0 _ true _).mpr (.inl ⟨rfl, rfl⟩)
  | some texts =>
      refine array_valid schema (Nat.zero_le _) fun w member => ?_
      obtain ⟨s, -, rfl⟩ := List.mem_map.mp member
      exact string_valid schema s

end Writing

section Reading

variable {lib : Libraries} (lax : LaxReading lib)
include lax

theorem cells?_record (cells : List (List Float)) :
    cells? lib (.arr (cells.map fun row => .arr (row.map .float))) = some cells := by
  simp only [cells?, Json.arr?, Option.bind_eq_bind, Option.bind_some, List.mapM_map]
  rw [mapM_eq_some_iff_forall₂, List.forall₂_same]
  intro row _
  simp [mapM_eq_some_iff_forall₂, List.forall₂_same, lax.float_of_float]

theorem mapM_str?_str (texts : List String) : texts.mapM (lib.str? ∘ Json.str) = some texts :=
  mapM_eq_some_iff_forall₂.mpr (List.forall₂_same.mpr fun s _ => lax.str_of_str s)

theorem readRecord?_record (id : String) {m : Matrix} (shaped : m.WellShaped) :
    readRecord? lib (record id m) = some ⟨.given id, m⟩ := by
  have built : Matrix.build? m.name m.rows m.cols m.cells m.steps = some m := by
    simp [Matrix.build?, (wellShaped_iff m).mpr shaped, shaped.1, shaped.2.1]
  cases steps : m.steps <;> rw [steps] at built <;>
    simp [readRecord?, record, Json.field?, lax.str_of_str, lax.int_of_int, steps?,
      mapM_str?_str lax, steps, cells?_record lax, built]

end Reading

theorem loadRecord_record {lib : Libraries} (schema : Draft202012 lib.valid) (lax : LaxReading lib)
    {id : String} {m : Matrix} (named : id ≠ "") (shaped : m.WellShaped) :
    loadRecord lib (record id m) = .ok ⟨.given id, m⟩ := by
  simp [loadRecord, record_valid schema named shaped, readRecord?_record lax id shaped]

/-- Round trip through the contracts, with libraries that do what their documentation says: the
dumps of well-shaped matrices under nonempty ids form a valid trace, each of them a valid matrix
record, and loading them gives back the same matrices under the same ids, in order. Cells may be
any doubles. -/
theorem trace_round_trip (lib : Libraries) (schema : Draft202012 lib.valid)
    (lax : LaxReading lib) (dumps : Dumps lib.dump) (ms : List (String × Matrix))
    (valid : ∀ p ∈ ms, p.1 ≠ "" ∧ p.2.WellShaped) :
    lib.valid Schema.trace (.arr (ms.map fun p => lib.dump p.1 p.2)) = true ∧
      (∀ p ∈ ms, lib.valid Schema.matrix (lib.dump p.1 p.2) = true) ∧
      load lib (ms.map fun p => lib.dump p.1 p.2) = .ok (ms.map fun p => ⟨.given p.1, p.2⟩) := by
  have each : ∀ p ∈ ms, lib.valid Schema.matrix (lib.dump p.1 p.2) = true := fun p member => by
    rw [dumps]
    exact record_valid schema (valid p member).1 (valid p member).2
  refine ⟨?_, each, ?_⟩
  · exact array_valid schema (Nat.zero_le _) fun w member => by
      obtain ⟨p, listed, rfl⟩ := List.mem_map.mp member
      exact each p listed
  · rw [load, mapM_eq_ok_iff_forall₂, List.forall₂_map_left_iff, List.forall₂_map_right_iff,
      List.forall₂_same]
    intro p member
    rw [dumps]
    exact loadRecord_record schema lax (valid p member).1 (valid p member).2

/-- A two-by-one matrix with steps and one without, under the ids `x` and `y`, round trip through
the libraries this library runs with. -/
theorem trace_round_trip_two_matrices :
    load Libraries.reference [record "x" ⟨"A", 2, 1, [[1.5], [-0.25]], some ["A = B"]⟩,
        record "y" ⟨"", 1, 1, [[0.0]], none⟩] =
      .ok [⟨.given "x", ⟨"A", 2, 1, [[1.5], [-0.25]], some ["A = B"]⟩⟩,
        ⟨.given "y", ⟨"", 1, 1, [[0.0]], none⟩⟩] :=
  (trace_round_trip Libraries.reference Libraries.reference_draft202012
      Libraries.reference_laxReading Libraries.reference_dumps
      [("x", ⟨"A", 2, 1, [[1.5], [-0.25]], some ["A = B"]⟩), ("y", ⟨"", 1, 1, [[0.0]], none⟩)]
    (by simp [Matrix.WellShaped])).2.2

end Contract

end MatrixSteps
