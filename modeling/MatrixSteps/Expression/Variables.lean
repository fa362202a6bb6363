import MatrixSteps.Text.Upper
import MatrixSteps.Text.Blank

/-!
Names by which an expression refers to the available matrices. The table is built from the
matrices' names in order, and for the matrix at position `i`:

1. its name in upper case names it;
2. if that name starts with `MATRIZ ` (a space included), the rest, without surrounding blanks,
   names it too, unless nothing is left;
3. the letter `i` places after `A` names it, unless that key is already taken.

A later key replaces an earlier one of the same spelling, except that a positional letter never
replaces anything. Identifiers are looked up in upper case.
-/

namespace MatrixSteps

/-- The prefix whose remainder is a short name for a matrix. -/
def aliasPrefix : String := "MATRIZ "

/-- A key of the table: the code points of a text. The letter of a position may be a surrogate
code point, which no `Char` holds, so a key is a list of code points rather than a string. -/
structure Key where
  points : List Nat
  deriving DecidableEq, Repr, Inhabited

namespace Key

def ofString (s : String) : Key := ⟨s.toList.map Char.toNat⟩

/-- The key in upper case: each character as `Text.upperChar` writes it, and each surrogate code
point as it is. -/
def upper (k : Key) : Key :=
  ⟨k.points.flatMap fun p =>
    if p.isValidChar then (Text.upperChar (Char.ofNat p)).map Char.toNat else [p]⟩

/-- Code point order: the first code point where two keys differ decides, and a prefix comes
first. -/
def pointsAtMost : List Nat → List Nat → Bool
  | [], _ => true
  | _ :: _, [] => false
  | p :: ps, q :: qs => p < q || (p == q && pointsAtMost ps qs)

end Key

/-- Keys naming positions in a list of matrices, each key once. -/
structure VariableTable where
  entries : List (Key × Nat)
  deriving Repr, Inhabited

namespace VariableTable

def find? (t : VariableTable) (key : Key) : Option Nat := t.entries.lookup key

/-- The table with `key` naming `position`, replacing what `key` named before. -/
def put (t : VariableTable) (key : Key) (position : Nat) : VariableTable :=
  if t.entries.any (·.1 == key) then
    ⟨t.entries.map fun (k, p) => if k == key then (k, position) else (k, p)⟩
  else ⟨t.entries ++ [(key, position)]⟩

def putIfAbsent (t : VariableTable) (key : Key) (position : Nat) : VariableTable :=
  if t.entries.any (·.1 == key) then t else ⟨t.entries ++ [(key, position)]⟩

/-- The letter for a position: `A` for the first, `B` for the second, and on through the code
points after `Z`, surrogates included. -/
def positionalKey (position : Nat) : Key := ⟨['A'.toNat + position]⟩

/-- The number of positions that have a letter: the code points from `A` to the last one,
`0x10FFFF`. -/
def letteredPositions : Nat := 0x110000 - 'A'.toNat

/-- The short name in an upper-case name that starts with `aliasPrefix`, if one is left. -/
def aliasOf? (upperName : String) : Option String :=
  if upperName.startsWith aliasPrefix then
    let short := Text.trim (String.ofList (upperName.toList.drop aliasPrefix.length))
    if short.isEmpty then none else some short
  else none

/-- The table after registering the matrix named `name` at `position`. -/
def register (t : VariableTable) (position : Nat) (name : String) : VariableTable :=
  let upperName := Text.upper name
  let named := t.put (Key.ofString upperName) position
  let aliased := match aliasOf? upperName with
    | some short => named.put (Key.ofString short) position
    | none => named
  aliased.putIfAbsent (positionalKey position) position

def ofNames (names : List String) : VariableTable :=
  (names.zipIdx.foldl fun t (name, position) => t.register position name) ⟨[]⟩

/-- The table of a list of matrix names, if every position has a letter. For a longer list the
letter of position `letteredPositions` cannot be formed, and there is no table. -/
def ofNames? (names : List String) : Option VariableTable :=
  if names.length ≤ letteredPositions then some (ofNames names) else none

/-- The position a key refers to, compared in upper case. -/
def lookup? (t : VariableTable) (k : Key) : Option Nat := t.find? k.upper

/-- The position an identifier refers to, compared in upper case. -/
def resolve? (t : VariableTable) (identifier : String) : Option Nat :=
  t.lookup? (Key.ofString identifier)

/-- The keys and their positions, by key in code point order. -/
def sorted (t : VariableTable) : List (Key × Nat) :=
  t.entries.mergeSort fun a b => Key.pointsAtMost a.1.points b.1.points

end VariableTable

end MatrixSteps
