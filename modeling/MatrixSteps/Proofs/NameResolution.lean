import Mathlib
import MatrixSteps.Proofs.FaultTaxonomy

/-!
How an expression's identifiers name the inputs, against a reference description.

Registering the matrices in order writes, for each one, its name in upper case and then its short
name if it has one: these are the *explicit* registrations, and a later one replaces an earlier one
of the same key. Last comes the letter of the matrix's position, written only while that key is
free. So a key names the position of its last explicit registration; a key with no explicit
registration names the first position whose letter it is; and the keys are exactly the explicit
ones together with the letters of all positions.

Each table operation is described by one lookup equation (`find?_put`, `find?_putIfAbsent`,
`find?_register`), and the registration loop keeps the table equal to the reference description on
every prefix of the names (`find?_ofNames`).
-/

namespace MatrixSteps

namespace VariableTable

/-- The keys of a table, in the order they were first written. -/
def keys (t : VariableTable) : List Key := t.entries.map (·.1)

/-- The keys a matrix called `name` registers explicitly: its name in upper case, then its short
name if it has one. -/
def explicitKeys (name : String) : List Key :=
  Key.ofString (Text.upper name) :: (aliasOf? (Text.upper name)).toList.map Key.ofString

/-- Every explicit registration of a list of names, in order: each key with its position. -/
def registrations (names : List String) : List (Key × Nat) :=
  names.zipIdx.flatMap fun (name, position) => (explicitKeys name).map (·, position)

/-- The position a key names by the reference description: the position of its last explicit
registration, or else the first position whose letter it is. -/
def referencePosition (names : List String) (key : Key) : Option Nat :=
  ((registrations names).reverse.lookup key).or
    ((List.range names.length).find? (positionalKey · == key))

section Operations

variable (t : VariableTable) (key : Key) (position : Nat) (k : Key)

theorem lookup_overwrite (entries : List (Key × Nat)) :
    (entries.map fun (k', p) => if k' == key then (k', position) else (k', p)).lookup k =
      if k = key then (if entries.any (·.1 == key) then some position else none)
      else entries.lookup k := by
  induction entries with
  | nil => simp
  | cons entry rest ih =>
      obtain ⟨k', p⟩ := entry
      rw [List.map_cons]
      dsimp only
      by_cases asked : k = k'
      · subst asked
        by_cases same : k = key
        · subst same
          simp
        · rw [if_neg (by simpa using same), List.lookup_cons_self, List.lookup_cons_self,
            if_neg same]
      · rw [List.lookup_cons, List.lookup_cons, apply_ite Prod.fst, beq_false_of_ne asked]
        dsimp only
        rw [ite_self, beq_false_of_ne asked, ih]
        by_cases same : k = key
        · subst same
          simp only [List.any_cons, beq_false_of_ne (Ne.symm asked), Bool.false_or]
        · simp [same]

theorem lookup_eq_none_of_any (entries : List (Key × Nat))
    (absent : entries.any (·.1 == key) = false) : entries.lookup key = none := by
  rw [List.lookup_eq_none_iff]
  intro entry member
  have other : entry.1 ≠ key := by simpa using List.any_eq_false.mp absent entry member
  simpa [bne] using Ne.symm other

theorem lookup_append_key (entries : List (Key × Nat)) (missing : entries.lookup key = none) :
    (entries ++ [(key, position)]).lookup k = if k = key then some position else entries.lookup k := by
  rw [List.lookup_append, List.lookup_cons]
  by_cases asked : k = key
  · subst asked
    rw [beq_self_eq_true, missing, if_pos rfl]
    rfl
  · rw [beq_false_of_ne asked, if_neg asked]
    exact Option.or_none

theorem find?_put :
    (t.put key position).find? k = if k = key then some position else t.find? k := by
  unfold put find?
  split
  next present => rw [lookup_overwrite]; simp [present]
  next absent =>
      exact lookup_append_key key position k t.entries
        (lookup_eq_none_of_any key t.entries (Bool.eq_false_iff.mpr absent))

theorem find?_putIfAbsent :
    (t.putIfAbsent key position).find? k =
      if k = key then (t.find? k).or (some position) else t.find? k := by
  unfold putIfAbsent find?
  split
  next present =>
      by_cases asked : k = key
      · subst asked
        obtain ⟨entry, member, same⟩ := List.any_eq_true.mp present
        have found : (t.entries.lookup k).isSome := List.lookup_isSome_iff.mpr
          ⟨entry, member, by rw [beq_iff_eq] at same ⊢; exact same.symm⟩
        obtain ⟨p, named⟩ := Option.isSome_iff_exists.mp found
        rw [if_pos rfl, named]
        rfl
      · simp [asked]
  next absent =>
      have missing := lookup_eq_none_of_any key t.entries (Bool.eq_false_iff.mpr absent)
      rw [lookup_append_key key position k t.entries missing]
      by_cases asked : k = key
      · subst asked
        simp [missing]
      · simp [asked]

theorem mem_keys_iff : k ∈ t.keys ↔ (t.find? k).isSome := by
  rw [find?, List.lookup_isSome_iff, keys, List.mem_map]
  constructor
  · rintro ⟨entry, member, rfl⟩
    exact ⟨entry, member, beq_self_eq_true _⟩
  · rintro ⟨entry, member, same⟩
    exact ⟨entry, member, (beq_iff_eq.mp same).symm⟩

end Operations

/-- Registering a matrix: its explicit keys name its position, and its letter names it only if
that letter named nothing before. -/
theorem find?_register (t : VariableTable) (position : Nat) (name : String) (k : Key) :
    (t.register position name).find? k =
      if k ∈ explicitKeys name then some position
      else if k = positionalKey position then (t.find? k).or (some position)
      else t.find? k := by
  unfold register
  rw [find?_putIfAbsent]
  cases named : aliasOf? (Text.upper name) with
  | none =>
      have explicit : k ∈ explicitKeys name ↔ k = Key.ofString (Text.upper name) := by
        simp [explicitKeys, named]
      simp only [find?_put, explicit]
      split_ifs <;> simp_all
  | some short =>
      have explicit : k ∈ explicitKeys name ↔
          k = Key.ofString (Text.upper name) ∨ k = Key.ofString short := by
        simp [explicitKeys, named]
      simp only [find?_put, explicit]
      split_ifs <;> simp_all

theorem ofNames_append (names : List String) (name : String) :
    ofNames (names ++ [name]) = (ofNames names).register names.length name := by
  simp [ofNames, List.zipIdx_append, List.foldl_append]

theorem registrations_append (names : List String) (name : String) :
    registrations (names ++ [name]) =
      registrations names ++ (explicitKeys name).map (·, names.length) := by
  simp [registrations, List.zipIdx_append, List.flatMap_append]

theorem lookup_explicit (name : String) (k : Key) (position : Nat) :
    ((explicitKeys name).map (·, position)).reverse.lookup k =
      if k ∈ explicitKeys name then some position else none := by
  rw [← List.map_reverse]
  split
  next member =>
      exact List.lookup_graph (fun _ => position) (List.mem_reverse.mpr member)
  next absent =>
      rw [List.lookup_eq_none_iff]
      intro entry listed
      obtain ⟨key, keyListed, rfl⟩ := List.mem_map.mp listed
      have other : k ≠ key := fun same => absent (same ▸ List.mem_reverse.mp keyListed)
      simpa using other

/-- The reference description after one more name: the new name's explicit keys name its position,
and its letter names it only if that letter named nothing before. -/
theorem referencePosition_append (names : List String) (name : String) (k : Key) :
    referencePosition (names ++ [name]) k =
      if k ∈ explicitKeys name then some names.length
      else if k = positionalKey names.length then
        (referencePosition names k).or (some names.length)
      else referencePosition names k := by
  unfold referencePosition
  rw [registrations_append, List.reverse_append, List.lookup_append, lookup_explicit,
    List.length_append, List.length_singleton, List.range_succ, List.find?_append]
  by_cases explicitKey : k ∈ explicitKeys name
  · simp [explicitKey]
  · by_cases letter : k = positionalKey names.length
    · subst letter
      simp [explicitKey]
    · simp [explicitKey, letter, beq_false_of_ne (Ne.symm letter)]

theorem find?_ofNames (names : List String) (k : Key) :
    (ofNames names).find? k = referencePosition names k := by
  induction names using List.reverseRecOn with
  | nil => simp [ofNames, find?, referencePosition, registrations]
  | append_singleton names name ih =>
      rw [ofNames_append, find?_register, referencePosition_append, ih]

-- A later short name replaces an earlier name; a letter never replaces an explicit key.
example : referencePosition ["C", "Matriz C"] (Key.ofString "C") = some 1 := by decide +kernel
example : referencePosition ["B", "Q"] (Key.ofString "B") = some 0 ∧
    referencePosition ["B", "Q"] (Key.ofString "A") = some 0 := by
  decide +kernel

theorem referencePosition_isSome_iff (names : List String) (k : Key) :
    (referencePosition names k).isSome ↔
      k ∈ (registrations names).map (·.1) ∨ ∃ i < names.length, positionalKey i = k := by
  unfold referencePosition
  rw [Option.isSome_or, Bool.or_eq_true, List.lookup_isSome_iff, List.find?_isSome]
  simp only [List.mem_reverse, beq_iff_eq, List.mem_map, List.mem_range]
  constructor
  · rintro (⟨entry, registered, rfl⟩ | found)
    · exact .inl ⟨entry, registered, rfl⟩
    · exact .inr found
  · rintro (⟨entry, registered, rfl⟩ | found)
    · exact .inl ⟨entry, registered, rfl⟩
    · exact .inr found

theorem registrations_position_lt (names : List String) {k : Key} {position : Nat}
    (registered : (k, position) ∈ registrations names) : position < names.length := by
  obtain ⟨⟨name, p⟩, listed, pair⟩ := List.mem_flatMap.mp registered
  obtain ⟨key, -, same⟩ := List.mem_map.mp pair
  obtain rfl : p = position := (Prod.mk.inj same).2
  have within := (List.mem_zipIdx listed).2.1
  omega

theorem referencePosition_lt {names : List String} {k : Key} {position : Nat}
    (named : referencePosition names k = some position) : position < names.length := by
  unfold referencePosition at named
  cases explicit : (registrations names).reverse.lookup k with
  | some p =>
      rw [explicit, Option.some_or] at named
      obtain rfl := Option.some.inj named
      obtain ⟨pre, post, split, -⟩ := List.lookup_eq_some_iff.mp explicit
      have listed : (k, p) ∈ (registrations names).reverse := by rw [split]; simp
      exact registrations_position_lt names (List.mem_reverse.mp listed)
  | none =>
      rw [explicit, Option.none_or] at named
      exact List.mem_range.mp (List.mem_of_find?_eq_some named)

theorem lookup?_ofNames (names : List String) (k : Key) :
    (ofNames names).lookup? k = referencePosition names k.upper :=
  find?_ofNames names k.upper

end VariableTable

theorem Key.upper_ofString (s : String) : (Key.ofString s).upper = Key.ofString (Text.upper s) := by
  simp only [Key.upper, Key.ofString, Text.upper, String.toList_ofList, List.flatMap_map,
    List.map_flatMap]
  congr 1
  refine List.flatMap_congr fun c _ => ?_
  rw [if_pos (show c.toNat.isValidChar from c.valid), Char.ofNat_toNat]

open VariableTable

/-- On an identifier, the machine over the inputs' table pushes the input at the position the
reference description gives, and stops when it gives none. -/
theorem Machine.step_identifier (limits : Limits) (inputs : List Entry) (s : Machine) (x : String) :
    match referencePosition (inputs.map (·.matrix.name)) (Key.ofString (Text.upper x)) with
    | some position => ∃ e, inputs[position]? = some e ∧
        Machine.step limits inputs (ofNames (inputs.map (·.matrix.name))) s ⟨.identifier, x⟩ =
          .ok { s with stack := .matrix e :: s.stack }
    | none => Machine.step limits inputs (ofNames (inputs.map (·.matrix.name))) s
        ⟨.identifier, x⟩ = .error (.unknownVariable x) := by
  have resolved : (ofNames (inputs.map (·.matrix.name))).resolve? x =
      referencePosition (inputs.map (·.matrix.name)) (Key.ofString (Text.upper x)) := by
    rw [resolve?, lookup?_ofNames, Key.upper_ofString]
  cases named : referencePosition (inputs.map (·.matrix.name)) (Key.ofString (Text.upper x)) with
  | none => simp [Machine.step, resolved, named]
  | some position =>
      have within : position < inputs.length := by
        simpa using referencePosition_lt named
      refine ⟨inputs[position], List.getElem?_eq_getElem within, ?_⟩
      simp [Machine.step, resolved, named, List.getElem?_eq_getElem within]

/-- The inputs are named as the reference description says, overwrites included. A table exists
when every position has a letter, the letters of distinct positions being distinct keys. Its keys
are the explicit keys and the letters of all positions. It looks up every key, and resolves every
identifier, in upper case to the position the reference gives: the machine then pushes the input
there, and otherwise stops with the fault that the identifier names no matrix. -/
theorem identifiers_resolve_by_registrations (limits : Limits) (inputs : List Entry) (s : Machine)
    (k : Key) (x : String) :
    match inputTable inputs with
    | .error fault => letteredPositions < inputs.length ∧ fault = .noLetter letteredPositions
    | .ok table =>
        (∀ k', k' ∈ table.keys ↔ k' ∈ (registrations (inputs.map (·.matrix.name))).map (·.1) ∨
          ∃ i < inputs.length, positionalKey i = k') ∧
        table.lookup? k = referencePosition (inputs.map (·.matrix.name)) k.upper ∧
        table.resolve? x = referencePosition (inputs.map (·.matrix.name)) (Key.ofString (Text.upper x)) ∧
        match referencePosition (inputs.map (·.matrix.name)) (Key.ofString (Text.upper x)) with
        | some position => ∃ e, inputs[position]? = some e ∧
            Machine.step limits inputs table s ⟨.identifier, x⟩ =
              .ok { s with stack := .matrix e :: s.stack }
        | none => Machine.step limits inputs table s ⟨.identifier, x⟩ = .error (.unknownVariable x) ∧
            (Fault.unknownVariable x).message = "Matrix '" ++ x ++ "' not found." := by
  by_cases fits : inputs.length ≤ letteredPositions
  · rw [inputTable_of_fits fits]
    refine ⟨fun k' => ?_, lookup?_ofNames _ _, ?_, ?_⟩
    · rw [mem_keys_iff, find?_ofNames, referencePosition_isSome_iff, List.length_map]
    · rw [resolve?, lookup?_ofNames, Key.upper_ofString]
    · have stepped := Machine.step_identifier limits inputs s x
      revert stepped
      cases referencePosition (inputs.map (·.matrix.name)) (Key.ofString (Text.upper x)) with
      | none => exact fun stopped => ⟨stopped, rfl⟩
      | some position => exact id
  · rw [inputTable_of_outnumbered (Nat.lt_of_not_le fits)]
    exact ⟨Nat.lt_of_not_le fits, rfl⟩

end MatrixSteps
