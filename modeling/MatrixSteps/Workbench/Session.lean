import MatrixSteps.Workbench.Log

/-!
A working session: an ordered list of matrices, the results of the last operation, and a counter
for fresh handles. Each command either succeeds, with an outcome and a new session, or fails and
leaves the session as it was.

Positions count from zero; a position below zero or past the last matrix is out of range. The
matrices an operation applies to are selected by position before the operation is performed.
-/

namespace MatrixSteps

/-- The state of a working session. -/
structure Session where
  matrices : List Entry
  last : List Entry
  next : Nat
  deriving Inhabited

/-- What a session can be asked to do. -/
inductive Command where
  /-- Evaluate an expression over the session's matrices. -/
  | solve (expression : String) (limits : Limits)
  /-- Apply an operation to the selected matrices, in that order (see `Session.select?`). -/
  | apply (operation : Operation) (selected : List Entry) (scalar exponent : Float)
  /-- Copy the last result of the last operation into the list. -/
  | promote
  /-- Copy all results of the last operation into the list. -/
  | promoteAll
  /-- Append a matrix. -/
  | add (e : Entry)
  /-- Remove the matrix at a position. -/
  | remove (position : Int)
  /-- Show the names the session's matrices are known by. -/
  | variables

/-- What a command answers. -/
inductive Outcome where
  | log (l : OperationLog)
  | matrix (e : Entry)
  | matrices (es : List Entry)
  | removed (position : Int)
  | variables (table : VariableTable)

/-- Why a command fails. -/
inductive SessionFault where
  /-- The operation itself failed. -/
  | fault (f : Fault)
  /-- There is no result to promote. -/
  | noResult
  /-- A position outside the list. -/
  | outOfRange
  deriving Repr

namespace Session

def start (matrices : List Entry) : Session := ⟨matrices, [], 0⟩

/-- The index a position refers to in a list of `count` elements. -/
def index? (count : Nat) (position : Int) : Option Nat :=
  if 0 ≤ position && position < count then some position.toNat else none

def pick? {α : Type} (xs : List α) (position : Int) : Option α :=
  (index? xs.length position).bind fun i => xs[i]?

/-- The matrices at the given positions, in that order; a position may repeat. -/
def select? (s : Session) (positions : List Int) : Except SessionFault (List Entry) :=
  match positions.mapM (pick? s.matrices) with
  | some selected => .ok selected
  | none => .error .outOfRange

/-- The session's matrices with their names, as a table of names, if every position has a
letter. -/
def table? (s : Session) : Except Fault VariableTable := inputTable s.matrices

/-- The session after logging an operation: its results are the last results. -/
def logged (s : Session) (l : OperationLog) : Session × Outcome :=
  ({ s with last := l.results, next := s.next + l.results.length }, .log l)

/-- Performs a command. -/
def perform (s : Session) : Command → Except SessionFault (Session × Outcome)
  | .solve expression limits =>
      match Workbench.solve limits s.matrices s.next expression with
      | .ok l => .ok (s.logged l)
      | .error f => .error (.fault f)
  | .apply operation selected scalar exponent =>
      match Workbench.apply operation (selected.map (·.matrix)) scalar exponent s.next with
      | .ok l => .ok (s.logged l)
      | .error f => .error (.fault f)
  | .promote =>
      match s.last.getLast? with
      | none => .error .noResult
      | some r =>
          let e : Entry := ⟨.fresh s.next, Workbench.promote r.matrix s.matrices.length⟩
          .ok ({ s with matrices := s.matrices ++ [e], next := s.next + 1 }, .matrix e)
  | .promoteAll =>
      let es := Workbench.freshEntries s.next (Workbench.promoteAll (s.last.map (·.matrix)))
      .ok ({ s with matrices := s.matrices ++ es, next := s.next + es.length }, .matrices es)
  | .add e => .ok ({ s with matrices := s.matrices ++ [e] }, .matrix e)
  | .remove position =>
      match index? s.matrices.length position with
      | none => .error .outOfRange
      | some i => .ok ({ s with matrices := s.matrices.eraseIdx i }, .removed position)
  | .variables =>
      match s.table? with
      | .ok table => .ok (s, .variables table)
      | .error f => .error (.fault f)

end Session

end MatrixSteps
