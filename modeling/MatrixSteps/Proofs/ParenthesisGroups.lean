import Mathlib
import MatrixSteps.Proofs.PostfixOrder

/-!
Parentheses in postfix conversion, for every token list, balanced or not.

Conversion is read one token at a time (`Token.shunt`): a token writes some tokens and leaves a new
stack. `Token.pass` runs it over a list and stops before the final flush, so conversion of
`tokens ++ rest` is what `tokens` writes followed by the conversion of `rest` on the stack `tokens`
leaves (`Token.postfixWith_append`).

Parentheses are matched from left to right, each closing one closing the latest one still open
(`Token.unmatched`). The opening parentheses on the stack are exactly those still open, and the
stack below them is never read (`Token.pass_above_floor`). From this:

- unbalanced input is converted as its completion: as many opening parentheses put before it as
  closing ones found none open, and as many closing ones put after it as opening ones were left
  open; the opening parentheses that conversion flushes at the end are all that differs
  (`unbalanced_parentheses_complete`);
- a parenthesized balanced group is converted on its own, whatever surrounds it
  (`parenthesized_group_converts_alone`).
-/

namespace MatrixSteps

namespace Token

/-- One step of postfix conversion: what reading `t` on top of `stack` writes, and the stack it
leaves. -/
def shunt (stack : List Token) (t : Token) : List Token × List Token :=
  match t.kind with
  | .number | .identifier => ([t], stack)
  | .operator => (stack.takeWhile (yieldsTo · t), t :: stack.dropWhile (yieldsTo · t))
  | .openParen => ([], t :: stack)
  | .closeParen => (stack.takeWhile (·.kind != .openParen), closeGroup stack)

/-- What reading `tokens` on top of `stack` writes before the tokens end, and the stack it
leaves. -/
def pass : List Token → List Token → List Token × List Token
  | [], stack => ([], stack)
  | t :: rest, stack =>
      ((shunt stack t).1 ++ (pass rest (shunt stack t).2).1, (pass rest (shunt stack t).2).2)

theorem postfixWith_cons (t : Token) (rest stack : List Token) :
    postfixWith (t :: rest) stack = (shunt stack t).1 ++ postfixWith rest (shunt stack t).2 := by
  cases kind : t.kind <;> simp [postfixWith, shunt, kind]

theorem postfixWith_append (tokens rest stack : List Token) :
    postfixWith (tokens ++ rest) stack =
      (pass tokens stack).1 ++ postfixWith rest (pass tokens stack).2 := by
  induction tokens generalizing stack with
  | nil => rfl
  | cons t more ih => simp [postfixWith_cons, pass, ih]

theorem postfixWith_eq_pass (tokens stack : List Token) :
    postfixWith tokens stack = (pass tokens stack).1 ++ (pass tokens stack).2 := by
  simpa [postfixWith] using postfixWith_append tokens [] stack

/-! ### Matching parentheses -/

/-- The number of opening parentheses among `tokens`. -/
def openings (tokens : List Token) : Nat := tokens.countP (·.kind == .openParen)

/-- The number of closing parentheses among `tokens`. -/
def closings (tokens : List Token) : Nat := tokens.countP (·.kind == .closeParen)

/-- Parentheses matched from left to right with `depth` of them already open, each closing one
closing the latest one still open: the number of closing parentheses that find none open, and the
number of opening ones left open at the end. -/
def unmatched (depth : Nat) : List Token → Nat × Nat
  | [] => (0, depth)
  | t :: rest =>
      match t.kind, depth with
      | .openParen, _ => unmatched (depth + 1) rest
      | .closeParen, 0 => ((unmatched 0 rest).1 + 1, (unmatched 0 rest).2)
      | .closeParen, d + 1 => unmatched d rest
      | _, _ => unmatched depth rest

/-- Every prefix closes no more parentheses than it opens, and the whole closes as many as it
opens. -/
def Balanced (tokens : List Token) : Prop :=
  (∀ n, closings (tokens.take n) ≤ openings (tokens.take n)) ∧ openings tokens = closings tokens

@[simp] theorem openings_nil : openings [] = 0 := rfl

theorem openings_cons (t : Token) (rest : List Token) :
    openings (t :: rest) = openings rest + if t.kind = .openParen then 1 else 0 := by
  simp [openings, List.countP_cons]

theorem closings_cons (t : Token) (rest : List Token) :
    closings (t :: rest) = closings rest + if t.kind = .closeParen then 1 else 0 := by
  simp [closings, List.countP_cons]

theorem unmatched_balance (depth : Nat) (tokens : List Token) :
    depth + openings tokens + (unmatched depth tokens).1 =
      closings tokens + (unmatched depth tokens).2 := by
  induction tokens generalizing depth with
  | nil => simp [unmatched, openings, closings]
  | cons t rest ih =>
      have up := ih (depth + 1)
      have same := ih depth
      have down := ih (depth - 1)
      cases kind : t.kind <;> cases depth <;>
        simp only [unmatched, openings_cons, closings_cons, kind, reduceCtorEq, if_true,
          if_false, Nat.add_sub_cancel] at up same down ⊢ <;> omega

theorem closings_take_le (depth : Nat) (tokens : List Token) (n : Nat) :
    closings (tokens.take n) ≤ depth + openings (tokens.take n) + (unmatched depth tokens).1 := by
  induction tokens generalizing depth n with
  | nil => simp [closings]
  | cons t rest ih =>
      cases n with
      | zero => simp [closings]
      | succ n =>
          have up := ih (depth + 1) n
          have same := ih depth n
          have down := ih (depth - 1) n
          cases kind : t.kind <;> cases depth <;>
            simp only [unmatched, List.take_succ_cons, openings_cons, closings_cons, kind,
              reduceCtorEq, if_true, if_false, Nat.add_sub_cancel] at up same down ⊢ <;> omega

theorem exists_take_of_stray {depth : Nat} {tokens : List Token}
    (stray : 0 < (unmatched depth tokens).1) :
    ∃ n, depth + openings (tokens.take n) < closings (tokens.take n) := by
  induction tokens generalizing depth with
  | nil => simp [unmatched] at stray
  | cons t rest ih =>
      cases kind : t.kind
      case closeParen =>
        cases depth with
        | zero => exact ⟨1, by simp [kind, openings, closings]⟩
        | succ d =>
            simp only [unmatched, kind] at stray
            obtain ⟨n, short⟩ := ih stray
            refine ⟨n + 1, ?_⟩
            simp only [List.take_succ_cons, openings_cons, closings_cons, kind, reduceCtorEq,
              if_true, if_false]
            omega
      case openParen =>
        simp only [unmatched, kind] at stray
        obtain ⟨n, short⟩ := ih stray
        refine ⟨n + 1, ?_⟩
        simp only [List.take_succ_cons, openings_cons, closings_cons, kind, reduceCtorEq, if_true,
          if_false]
        omega
      all_goals
        simp only [unmatched, kind] at stray
        obtain ⟨n, short⟩ := ih stray
        refine ⟨n + 1, ?_⟩
        simp only [List.take_succ_cons, openings_cons, closings_cons, kind, reduceCtorEq, if_false]
        omega

theorem balanced_iff_unmatched (tokens : List Token) :
    Balanced tokens ↔ unmatched 0 tokens = (0, 0) := by
  have counted := unmatched_balance 0 tokens
  constructor
  · rintro ⟨prefixes, total⟩
    have noStray : (unmatched 0 tokens).1 = 0 := by
      by_contra stray
      obtain ⟨n, short⟩ := exists_take_of_stray (Nat.pos_of_ne_zero stray)
      have := prefixes n
      omega
    ext
    · exact noStray
    · simp only
      omega
  · intro matched
    rw [matched] at counted
    refine ⟨fun n => ?_, by simpa using counted⟩
    have bound := closings_take_le 0 tokens n
    rw [matched] at bound
    simpa using bound

instance : DecidablePred Balanced :=
  fun tokens => decidable_of_iff _ (balanced_iff_unmatched tokens).symm

theorem unmatched_append (depth : Nat) (first second : List Token) :
    unmatched depth (first ++ second) =
      ((unmatched depth first).1 + (unmatched (unmatched depth first).2 second).1,
        (unmatched (unmatched depth first).2 second).2) := by
  induction first generalizing depth with
  | nil => simp [unmatched]
  | cons t rest ih =>
      cases kind : t.kind <;> cases depth <;>
        simp only [List.cons_append, unmatched, kind, ih, Nat.add_right_comm]

theorem unmatched_add (depth extra : Nat) (tokens : List Token) :
    unmatched (depth + extra) tokens =
      ((unmatched depth tokens).1 - extra,
        (unmatched depth tokens).2 + (extra - (unmatched depth tokens).1)) := by
  induction tokens generalizing depth extra with
  | nil => simp [unmatched]
  | cons t rest ih =>
      cases kind : t.kind
      case openParen =>
        simp only [unmatched, kind]
        rw [Nat.add_right_comm, ih]
      case closeParen =>
        cases depth with
        | succ d =>
            simp only [unmatched, kind, Nat.add_right_comm d 1 extra]
            exact ih d extra
        | zero =>
            cases extra with
            | zero => simp [unmatched, kind]
            | succ e =>
                simp only [unmatched, kind, Nat.zero_add]
                rw [show (unmatched e rest) = unmatched (0 + e) rest by rw [Nat.zero_add], ih]
                ext <;> simp only <;> omega
      all_goals
        simp only [unmatched, kind]
        exact ih depth extra

theorem opening_kind : opening.kind = .openParen := rfl

theorem closing_kind : closing.kind = .closeParen := rfl

theorem unmatched_openings (depth j : Nat) :
    unmatched depth (List.replicate j opening) = (0, depth + j) := by
  induction j generalizing depth with
  | zero => simp [unmatched]
  | succ j ih =>
      rw [List.replicate_succ]
      simp only [unmatched, opening_kind, ih, Nat.add_right_comm, Nat.add_assoc]

theorem unmatched_closings (depth j : Nat) :
    unmatched depth (List.replicate j closing) = (j - depth, depth - j) := by
  induction j generalizing depth with
  | zero => simp [unmatched]
  | succ j ih =>
      rw [List.replicate_succ]
      cases depth with
      | zero => simp [unmatched, closing_kind, ih]
      | succ d =>
          simp only [unmatched, closing_kind, ih]
          ext <;> simp only <;> omega

/-- The completion of a token list: an opening parenthesis put before it for each closing one that
finds none open, and a closing one put after it for each opening one left open. -/
def completion (tokens : List Token) : List Token :=
  List.replicate (unmatched 0 tokens).1 opening ++ tokens ++
    List.replicate (unmatched 0 tokens).2 closing

theorem completion_balanced (tokens : List Token) : Balanced (completion tokens) := by
  have absorbed : unmatched (unmatched 0 tokens).1 tokens = (0, (unmatched 0 tokens).2) := by
    simpa using unmatched_add 0 (unmatched 0 tokens).1 tokens
  rw [completion, balanced_iff_unmatched, unmatched_append, unmatched_append, unmatched_openings]
  simp [absorbed, unmatched_closings]

/-! ### The stack holds the open parentheses -/

theorem takeWhile_append_of_stop {α : Type} {p : α → Bool} {xs ys : List α}
    (stops : (∃ x ∈ xs, p x = false) ∨ ∀ y ∈ ys.head?, p y = false) :
    (xs ++ ys).takeWhile p = xs.takeWhile p ∧ (xs ++ ys).dropWhile p = xs.dropWhile p ++ ys := by
  induction xs with
  | nil =>
      simp only [List.not_mem_nil, false_and, exists_false, false_or] at stops
      cases ys with
      | nil => simp
      | cons y more => simp [stops y rfl]
  | cons x more ih =>
      cases passes : p x with
      | false => simp [passes]
      | true =>
          have later : (∃ z ∈ more, p z = false) ∨ ∀ y ∈ ys.head?, p y = false := by
            rcases stops with ⟨z, member, fails⟩ | below
            · rcases List.mem_cons.mp member with rfl | inMore
              · rw [passes] at fails
                cases fails
              · exact .inl ⟨z, inMore, fails⟩
            · exact .inr below
          obtain ⟨taken, dropped⟩ := ih later
          simp [passes, taken, dropped]

theorem openings_takeWhile {p : Token → Bool} (unopened : ∀ t, p t = true → t.kind ≠ .openParen)
    (stack : List Token) : openings (stack.takeWhile p) = 0 :=
  List.countP_eq_zero.mpr fun t member => by
    simpa using unopened t (List.mem_takeWhile_imp member)

theorem dropWhile_unopened (stack : List Token) :
    stack.dropWhile (·.kind != .openParen) = [] ∨
      ∃ top, top.kind = .openParen ∧ stack.dropWhile (·.kind != .openParen) = top :: closeGroup stack := by
  cases found : stack.dropWhile (·.kind != .openParen) with
  | nil => exact .inl rfl
  | cons top rest =>
      have nonempty : stack.dropWhile (·.kind != .openParen) ≠ [] := by simp [found]
      have isOpen := List.head_dropWhile_not (fun x : Token => x.kind != .openParen) nonempty
      simp only [found, List.head_cons, bne_eq_false_iff_eq] at isOpen
      exact .inr ⟨top, isOpen, by simp [closeGroup, found]⟩

theorem openings_closeGroup (stack : List Token) :
    openings (closeGroup stack) = openings stack - 1 := by
  have split := congrArg openings
    (List.takeWhile_append_dropWhile (p := (·.kind != .openParen)) (l := stack))
  rw [openings, List.countP_append, ← openings, ← openings,
    openings_takeWhile (by simp) stack, Nat.zero_add] at split
  rcases dropWhile_unopened stack with none | ⟨top, isOpen, found⟩
  · have empty : openings stack = 0 := by rw [← split, none]; rfl
    simp only [closeGroup, none, List.drop_nil, empty]
    rfl
  · rw [found, openings_cons, if_pos isOpen] at split
    omega

theorem openings_dropWhile_yieldsTo (t : Token) (stack : List Token) :
    openings (stack.dropWhile (yieldsTo · t)) = openings stack := by
  have split := congrArg openings
    (List.takeWhile_append_dropWhile (p := (yieldsTo · t)) (l := stack))
  have operators : ∀ top, yieldsTo top t = true → top.kind ≠ .openParen := by
    intro top yields
    simp only [yieldsTo, Bool.and_eq_true, beq_iff_eq] at yields
    simp [yields.1.1]
  rw [openings, List.countP_append, ← openings, ← openings, openings_takeWhile operators stack,
    Nat.zero_add] at split
  exact split

/-- One conversion step is one matching step: the opening parentheses on the stack are the ones
still open, and a closing parenthesis finds none open exactly when the stack holds none. -/
theorem unmatched_cons_shunt (t : Token) (stack rest : List Token) :
    unmatched (openings stack) (t :: rest) =
      ((unmatched (openings (shunt stack t).2) rest).1 +
          (if t.kind = .closeParen ∧ openings stack = 0 then 1 else 0),
        (unmatched (openings (shunt stack t).2) rest).2) := by
  cases kind : t.kind
  case closeParen =>
    simp only [shunt, kind, openings_closeGroup, true_and]
    cases openings stack with
    | zero => simp [unmatched, kind]
    | succ d => simp [unmatched, kind]
  case openParen => simp [shunt, unmatched, kind, openings_cons]
  case operator => simp [shunt, unmatched, kind, openings_cons, openings_dropWhile_yieldsTo]
  all_goals simp [shunt, unmatched, kind]

theorem openings_pass (tokens stack : List Token) :
    openings (pass tokens stack).2 = (unmatched (openings stack) tokens).2 := by
  induction tokens generalizing stack with
  | nil => rfl
  | cons t rest ih => rw [unmatched_cons_shunt, ← ih]; rfl

/-- Below a stack `pending` of pending tokens, an opening parenthesis, or the bottom, stops every
step: a step on `pending ++ floor` is the step on `pending` alone, over the same floor, unless a
closing parenthesis finds no opening one in `pending`. -/
theorem shunt_above_floor {pending floor : List Token} {t : Token}
    (sheltered : ∀ top ∈ floor.head?, top.kind = .openParen)
    (reaches : t.kind = .closeParen → 0 < openings pending) :
    shunt (pending ++ floor) t = ((shunt pending t).1, (shunt pending t).2 ++ floor) := by
  cases kind : t.kind
  case operator =>
    have stops : ∀ top ∈ floor.head?, yieldsTo top t = false := fun top member => by
      simp [yieldsTo, sheltered top member]
    obtain ⟨taken, dropped⟩ := @takeWhile_append_of_stop _ _ pending floor (.inr stops)
    simp [shunt, kind, taken, dropped]
  case closeParen =>
    obtain ⟨top, member, isOpen⟩ := List.countP_pos_iff.mp (reaches kind)
    have stops : ∃ x ∈ pending, (x.kind != .openParen) = false := ⟨top, member, by simpa using isOpen⟩
    obtain ⟨taken, dropped⟩ := @takeWhile_append_of_stop _ _ pending floor (.inl stops)
    have nonempty : 1 ≤ (pending.dropWhile (·.kind != .openParen)).length := by
      rw [Nat.one_le_iff_ne_zero, Ne, List.length_eq_zero_iff, List.dropWhile_eq_nil_iff]
      intro allPass
      have passes := allPass top member
      simp only [beq_iff_eq] at isOpen
      simp [isOpen] at passes
    simp [shunt, kind, taken, closeGroup, dropped, List.drop_append_of_le_length nonempty]
  all_goals simp [shunt, kind]

theorem shunt_close_floor {pending floor : List Token} {t : Token} (free : openings pending = 0)
    (kind : t.kind = .closeParen) :
    shunt (pending ++ opening :: floor) t = (pending, floor) ∧ shunt pending t = (pending, []) := by
  have allPass : ∀ x ∈ pending, (x.kind != .openParen) = true :=
    fun x member => by simpa using List.countP_eq_zero.mp free x member
  simp [shunt, kind, closeGroup, List.takeWhile_append_of_pos allPass,
    List.dropWhile_append_of_pos allPass, opening, List.takeWhile_eq_self_iff.mpr allPass,
    List.dropWhile_eq_nil_iff.mpr allPass]

theorem pass_openings (j : Nat) (stack : List Token) :
    pass (List.replicate j opening) stack = ([], List.replicate j opening ++ stack) := by
  induction j generalizing stack with
  | zero => rfl
  | succ j ih =>
      calc pass (List.replicate (j + 1) opening) stack
          = pass (opening :: List.replicate j opening) stack := by rw [List.replicate_succ]
        _ = ([], List.replicate j opening ++ opening :: stack) := by
          simp [pass, shunt, opening_kind, ih]
        _ = ([], List.replicate (j + 1) opening ++ stack) := by simp [List.replicate_succ']

/-- The stack below the pending tokens is read only through its opening parentheses. Over a floor
of `j` opening parentheses on top of `below`, conversion writes what it writes without them, and
each closing parenthesis that would find none open takes one of the floor's instead. The floor
must hold more of them than are taken unless nothing lies below it. -/
theorem pass_above_floor (tokens pending below : List Token) (j : Nat)
    (enough : (unmatched (openings pending) tokens).1 ≤ j)
    (covered : (unmatched (openings pending) tokens).1 < j ∨ below = []) :
    pass tokens (pending ++ (List.replicate j opening ++ below)) =
      ((pass tokens pending).1,
        (pass tokens pending).2 ++
          (List.replicate (j - (unmatched (openings pending) tokens).1) opening ++ below)) := by
  induction tokens generalizing pending j with
  | nil => simp [pass, unmatched]
  | cons t rest ih =>
      rw [unmatched_cons_shunt] at enough covered ⊢
      by_cases stray : t.kind = .closeParen ∧ openings pending = 0
      · rw [if_pos stray] at enough covered ⊢
        obtain ⟨onFloor, alone⟩ :=
          @shunt_close_floor pending (List.replicate (j - 1) opening ++ below) t stray.2 stray.1
        have emptied : (shunt pending t).2 = [] := by rw [alone]
        rw [emptied, openings_nil] at enough covered ⊢
        obtain ⟨j, rfl⟩ : ∃ j', j = j' + 1 := ⟨j - 1, by omega⟩
        have later := ih [] j (by simpa using enough) (covered.imp (fun fewer => by simp; omega) id)
        rw [List.nil_append, openings_nil] at later
        rw [Nat.add_sub_cancel] at onFloor
        rw [List.replicate_succ, List.cons_append, pass, pass, onFloor, alone, later]
        simp [Nat.add_sub_add_right]
      · rw [if_neg stray, Nat.add_zero] at enough covered ⊢
        have reaches : t.kind = .closeParen → 0 < openings pending := fun kind =>
          Nat.pos_of_ne_zero fun free => stray ⟨kind, free⟩
        have sheltered : ∀ top ∈ (List.replicate j opening ++ below).head?,
            top.kind = .openParen := by
          cases j with
          | zero =>
              have nothingBelow : below = [] := covered.resolve_left (Nat.not_lt_zero _)
              simp [nothingBelow]
          | succ j => simp [List.replicate_succ, opening_kind]
        rw [pass, pass, shunt_above_floor sheltered reaches, ih _ j enough covered]

theorem postfixWith_closings (stack : List Token) :
    postfixWith (List.replicate (openings stack) closing) stack =
      stack.filter (·.kind != .openParen) := by
  obtain ⟨n, counted⟩ : ∃ n, openings stack = n := ⟨_, rfl⟩
  induction n generalizing stack with
  | zero =>
      rw [counted, List.replicate_zero, postfixWith, eq_comm, List.filter_eq_self]
      intro t member
      simpa using List.countP_eq_zero.mp counted t member
  | succ n ih =>
      have fewer : openings (closeGroup stack) = n := by rw [openings_closeGroup, counted]; rfl
      rw [counted, List.replicate_succ, postfixWith_cons]
      simp only [shunt, closing_kind]
      have flushed := ih _ fewer
      rw [fewer] at flushed
      rw [flushed]
      conv_rhs => rw [← List.takeWhile_append_dropWhile (p := (·.kind != .openParen)) (l := stack)]
      rw [List.filter_append, (List.filter_eq_self (l := stack.takeWhile (·.kind != .openParen))).mpr
        fun t member => List.mem_takeWhile_imp member]
      rcases dropWhile_unopened stack with none | ⟨top, isOpen, found⟩
      · have unopened := congrArg openings
          (List.takeWhile_append_dropWhile (p := (·.kind != .openParen)) (l := stack))
        rw [none, List.append_nil, openings_takeWhile (by simp), counted] at unopened
        cases unopened
      · simp [found, isOpen]

/-- Pending tokens above an opening parenthesis that are no opening parentheses themselves are
written by the closing parenthesis that drops it. -/
theorem postfixWith_closing_floor {pending : List Token} (free : openings pending = 0)
    (rest below : List Token) :
    postfixWith (closing :: rest) (pending ++ opening :: below) =
      pending ++ postfixWith rest below := by
  rw [postfixWith_cons, (shunt_close_floor free closing_kind).1]

/-- Every token written or left on the stack came from the input, which writes no closing
parenthesis, or from the stack. No opening parenthesis is written before the end. -/
theorem mem_shunt {x t : Token} {stack : List Token} :
    (x ∈ (shunt stack t).1 →
        x.kind ≠ .openParen ∧ ((x = t ∧ x.kind ≠ .closeParen) ∨ x ∈ stack)) ∧
      (x ∈ (shunt stack t).2 → (x = t ∧ x.kind ≠ .closeParen) ∨ x ∈ stack) := by
  cases kind : t.kind
  case number | identifier =>
    simp only [shunt, kind, List.mem_singleton]
    refine ⟨fun same => ?_, .inr⟩
    subst same
    simp [kind]
  case operator =>
    simp only [shunt, kind, List.mem_cons]
    refine ⟨fun member => ⟨?_, .inr ((List.takeWhile_sublist _).subset member)⟩, ?_⟩
    · have yields := List.mem_takeWhile_imp member
      simp only [yieldsTo, Bool.and_eq_true, beq_iff_eq] at yields
      simp [yields.1.1]
    · rintro (rfl | below)
      · exact .inl ⟨rfl, by simp [kind]⟩
      · exact .inr ((List.dropWhile_suffix _).subset below)
  case openParen =>
    simp only [shunt, kind, List.not_mem_nil, false_implies, List.mem_cons, true_and]
    rintro (rfl | below)
    · exact .inl ⟨rfl, by simp [kind]⟩
    · exact .inr below
  case closeParen =>
    simp only [shunt, kind]
    refine ⟨fun member => ⟨?_, .inr ((List.takeWhile_sublist _).subset member)⟩, fun member => ?_⟩
    · simpa using List.mem_takeWhile_imp member
    · exact .inr ((List.dropWhile_suffix _).subset (List.mem_of_mem_drop member))

theorem mem_pass {x : Token} (tokens stack : List Token) :
    (x ∈ (pass tokens stack).1 →
        x.kind ≠ .openParen ∧ ((x ∈ tokens ∧ x.kind ≠ .closeParen) ∨ x ∈ stack)) ∧
      (x ∈ (pass tokens stack).2 → (x ∈ tokens ∧ x.kind ≠ .closeParen) ∨ x ∈ stack) := by
  induction tokens generalizing stack with
  | nil => simp [pass]
  | cons t rest ih =>
      obtain ⟨stepWritten, stepLeft⟩ := @mem_shunt x t stack
      obtain ⟨laterWritten, laterLeft⟩ := ih (shunt stack t).2
      have fromLeft : x ∈ (shunt stack t).2 → (x ∈ t :: rest ∧ x.kind ≠ .closeParen) ∨ x ∈ stack :=
        fun member => (stepLeft member).imp (fun ⟨same, kind⟩ => ⟨same ▸ List.mem_cons_self, kind⟩) id
      refine ⟨fun member => ?_, fun member => ?_⟩
      · rcases List.mem_append.mp member with first | later
        · obtain ⟨unopened, origin⟩ := stepWritten first
          exact ⟨unopened, origin.imp (fun ⟨same, kind⟩ => ⟨same ▸ List.mem_cons_self, kind⟩) id⟩
        · obtain ⟨unopened, origin⟩ := laterWritten later
          exact ⟨unopened, origin.elim
            (fun ⟨inRest, kind⟩ => .inl ⟨List.mem_cons_of_mem t inRest, kind⟩) fromLeft⟩
      · exact (laterLeft member).elim
          (fun ⟨inRest, kind⟩ => .inl ⟨List.mem_cons_of_mem t inRest, kind⟩) fromLeft

theorem mem_postfixWith {x : Token} {tokens stack : List Token}
    (member : x ∈ postfixWith tokens stack) : x ∈ tokens ∨ x ∈ stack := by
  rw [postfixWith_eq_pass, List.mem_append] at member
  rcases member with written | left
  · exact ((mem_pass tokens stack).1 written).2.imp_left And.left
  · exact ((mem_pass tokens stack).2 left).imp_left And.left

theorem flatMap_replace_absent {x : Token} {replacement tokens : List Token}
    (absent : ∀ u ∈ tokens, u ≠ x) :
    tokens.flatMap (fun u => if u = x then replacement else [u]) = tokens := by
  rw [List.flatMap_congr fun u member => if_neg (absent u member)]
  exact List.flatMap_singleton' tokens

end Token

open Token in
/-- Unbalanced parentheses are read as their completion. Conversion writes no closing parenthesis,
and as many opening ones as are left open, flushed at the end. Without those it writes what the
completion writes, which is balanced and whose conversion writes no parenthesis at all. -/
theorem unbalanced_parentheses_complete (tokens : List Token) :
    (∀ t ∈ toPostfix tokens, t.kind ≠ .closeParen) ∧
      openings (toPostfix tokens) = (unmatched 0 tokens).2 ∧
      (toPostfix tokens).filter (·.kind != .openParen) = toPostfix (completion tokens) ∧
      Balanced (completion tokens) ∧
      ∀ t ∈ toPostfix (completion tokens), t.kind ≠ .openParen ∧ t.kind ≠ .closeParen := by
  have converted : toPostfix tokens = (pass tokens []).1 ++ (pass tokens []).2 :=
    postfixWith_eq_pass tokens []
  have noClosing : ∀ t ∈ toPostfix tokens, t.kind ≠ .closeParen := by
    intro t member
    rw [converted, List.mem_append] at member
    rcases member with written | left
    · rcases ((mem_pass tokens []).1 written).2 with ⟨-, kind⟩ | none
      · exact kind
      · cases none
    · rcases (mem_pass tokens []).2 left with ⟨-, kind⟩ | none
      · exact kind
      · cases none
  have writtenUnopened : ∀ t ∈ (pass tokens []).1, (t.kind != .openParen) = true :=
    fun t written => by simpa using ((mem_pass tokens []).1 written).1
  have leftOpen : openings (pass tokens []).2 = (unmatched 0 tokens).2 := openings_pass tokens []
  have completed : toPostfix (completion tokens) =
      (pass tokens []).1 ++ (pass tokens []).2.filter (·.kind != .openParen) := by
    have floor := pass_above_floor tokens [] [] (unmatched 0 tokens).1 (by simp) (.inr rfl)
    simp only [openings_nil, Nat.sub_self, List.replicate_zero, List.nil_append,
      List.append_nil] at floor
    rw [completion, toPostfix, List.append_assoc, postfixWith_append, pass_openings,
      postfixWith_append, List.append_nil, floor, ← leftOpen, postfixWith_closings]
    simp
  refine ⟨noClosing, ?_, ?_, completion_balanced tokens, ?_⟩
  · have none : openings (pass tokens []).1 = 0 :=
      List.countP_eq_zero.mpr fun t written => by simpa using writtenUnopened t written
    rw [converted, openings, List.countP_append, ← openings, ← openings, leftOpen, none,
      Nat.zero_add]
  · rw [completed, converted, List.filter_append, List.filter_eq_self.mpr writtenUnopened]
  · intro t member
    have unclosed : t ∈ toPostfix tokens := by
      rw [completed, List.mem_append, List.mem_filter] at member
      rw [converted, List.mem_append]
      exact member.imp id And.left
    refine ⟨?_, noClosing t unclosed⟩
    rw [completed, List.mem_append, List.mem_filter] at member
    rcases member with written | ⟨-, unopened⟩
    · simpa using writtenUnopened t written
    · simpa using unopened

open Token in
/-- A parenthesized balanced group is converted on its own. In any surroundings, however unbalanced,
conversion writes what it writes with a number or a name found nowhere else in the group's place,
with the group's own conversion where that token stands. -/
theorem parenthesized_group_converts_alone (pre group post : List Token) (x : Token)
    (balanced : Balanced group) (atom : x.kind = .number ∨ x.kind = .identifier)
    (freshBefore : x ∉ pre) (freshAfter : x ∉ post) :
    toPostfix (pre ++ [opening] ++ group ++ [closing] ++ post) =
      (toPostfix (pre ++ [x] ++ post)).flatMap fun u => if u = x then toPostfix group else [u] := by
  have matched := (balanced_iff_unmatched group).mp balanced
  have floor := pass_above_floor group [] (pass pre []).2 1 (by simp [matched])
    (.inl (by simp [matched]))
  have closed : openings (pass group []).2 = 0 := by rw [openings_pass, openings_nil, matched]
  have grouped : toPostfix (pre ++ [opening] ++ group ++ [closing] ++ post) =
      (pass pre []).1 ++ (toPostfix group ++ postfixWith post (pass pre []).2) := by
    simp only [List.append_assoc, List.cons_append]
    rw [toPostfix, postfixWith_append, postfixWith_cons]
    simp only [shunt, opening_kind, List.nil_append]
    rw [postfixWith_append]
    simp only [openings_nil, matched, List.nil_append, Nat.sub_zero, List.replicate_one,
      List.singleton_append] at floor
    rw [floor, postfixWith_closing_floor closed, toPostfix, postfixWith_eq_pass group [],
      List.append_assoc]
  have placed : toPostfix (pre ++ [x] ++ post) =
      (pass pre []).1 ++ x :: postfixWith post (pass pre []).2 := by
    rw [toPostfix, List.append_assoc, postfixWith_append, List.singleton_append, postfixWith_cons]
    rcases atom with kind | kind <;> simp [shunt, kind]
  have elsewhere : ∀ u ∈ (pass pre []).1 ++ postfixWith post (pass pre []).2, u ≠ x := by
    rintro u member rfl
    rcases List.mem_append.mp member with written | later
    · rcases ((mem_pass pre []).1 written).2 with ⟨inPre, -⟩ | none
      · exact freshBefore inPre
      · cases none
    · rcases mem_postfixWith later with inPost | left
      · exact freshAfter inPost
      · rcases (mem_pass pre []).2 left with ⟨inPre, -⟩ | none
        · exact freshBefore inPre
        · cases none
  rw [grouped, placed, List.flatMap_append, List.flatMap_cons, if_pos rfl,
    flatMap_replace_absent fun u member => elsewhere u (List.mem_append_left _ member),
    flatMap_replace_absent fun u member => elsewhere u (List.mem_append_right _ member)]

theorem group_after_stray_closing_converts_alone :
    Token.Balanced [⟨.identifier, "B"⟩, ⟨.operator, "+"⟩, ⟨.identifier, "C"⟩] ∧
      Token.toPostfix ([Token.closing, ⟨.identifier, "A"⟩, ⟨.operator, "*"⟩] ++ [Token.opening] ++
          [⟨.identifier, "B"⟩, ⟨.operator, "+"⟩, ⟨.identifier, "C"⟩] ++ [Token.closing] ++
          [⟨.operator, "'"⟩]) =
        (Token.toPostfix ([Token.closing, ⟨.identifier, "A"⟩, ⟨.operator, "*"⟩] ++
            [⟨.identifier, "G"⟩] ++ [⟨.operator, "'"⟩])).flatMap fun u =>
          if u = ⟨.identifier, "G"⟩ then
            Token.toPostfix [⟨.identifier, "B"⟩, ⟨.operator, "+"⟩, ⟨.identifier, "C"⟩]
          else [u] := by
  have balanced : Token.Balanced [⟨.identifier, "B"⟩, ⟨.operator, "+"⟩, ⟨.identifier, "C"⟩] := by
    decide
  exact ⟨balanced, parenthesized_group_converts_alone _ _ _ _ balanced (.inr rfl) (by decide)
    (by decide)⟩

end MatrixSteps
