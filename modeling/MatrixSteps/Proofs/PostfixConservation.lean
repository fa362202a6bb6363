import Mathlib
import MatrixSteps.Proofs.ParenthesisGroups

/-!
Postfix conversion loses and duplicates no token, on every token list, well formed or not.

Conversion is followed on tagged tokens (`Token.postfixBy`), each step deciding by the token alone,
so that the tagged run writes the tags in the order the plain run writes their tokens
(`Token.map_postfixBy`). Tagged by their positions, the tokens of the input are then followed one
by one.

Conversion keeps every token but the closing parentheses and the opening parentheses that a later
closing one matches (`Token.keptBy`). The invariant is that what is written, together with what
stays on the stack less the opening parentheses that the rest of the input closes, is a
permutation of what is kept (`Token.postfixBy_perm`). Numbers and identifiers are written as they
come, and never wait on the stack (`Token.filter_postfixBy`), so an operator, which is written only
after it was read, follows every number and identifier before it (`Token.pair_sublist_postfixBy`).
-/

namespace MatrixSteps

namespace Token

/-- Numbers and identifiers: the tokens that conversion writes as soon as it reads them. -/
def isOperand (t : Token) : Bool := t.kind == .number || t.kind == .identifier

/-- The token heading `t :: rest` is still there in postfix order: it is no parenthesis, or an
opening one that no closing parenthesis of `rest` matches. Matching from the left, a closing
parenthesis of `rest` that finds none of `rest` open closes `t`. -/
def keeps (t : Token) (rest : List Token) : Bool :=
  match t.kind with
  | .closeParen => false
  | .openParen => (unmatched 0 rest).1 == 0
  | _ => true

section Tagged

variable {α : Type} (tok : α → Token)

/-- The tagged tokens of a list that postfix conversion keeps. -/
def keptBy : List α → List α
  | [] => []
  | x :: rest => if keeps (tok x) (rest.map tok) then x :: keptBy rest else keptBy rest

/-- One step of postfix conversion on tagged tokens, as `shunt` takes it on their tokens. -/
def shuntBy (stack : List α) (x : α) : List α × List α :=
  match (tok x).kind with
  | .number | .identifier => ([x], stack)
  | .operator =>
      (stack.takeWhile (fun y => yieldsTo (tok y) (tok x)),
        x :: stack.dropWhile fun y => yieldsTo (tok y) (tok x))
  | .openParen => ([], x :: stack)
  | .closeParen =>
      (stack.takeWhile (fun y => (tok y).kind != .openParen),
        (stack.dropWhile fun y => (tok y).kind != .openParen).drop 1)

/-- Postfix conversion of tagged tokens on a stack of pending ones, top first. -/
def postfixBy : List α → List α → List α
  | [], stack => stack
  | x :: rest, stack => (shuntBy tok stack x).1 ++ postfixBy rest (shuntBy tok stack x).2

/-- The stack less its `k` topmost opening parentheses. -/
def dropOpens : Nat → List α → List α
  | 0, stack => stack
  | _ + 1, [] => []
  | k + 1, y :: stack =>
      if (tok y).kind = .openParen then dropOpens k stack else y :: dropOpens (k + 1) stack

theorem map_shuntBy (stack : List α) (x : α) :
    Prod.map (List.map tok) (List.map tok) (shuntBy tok stack x) =
      shunt (stack.map tok) (tok x) := by
  cases kind : (tok x).kind <;>
    simp [shuntBy, shunt, kind, List.takeWhile_map, List.dropWhile_map, closeGroup,
      Function.comp_def]

theorem map_postfixBy (xs stack : List α) :
    (postfixBy tok xs stack).map tok = postfixWith (xs.map tok) (stack.map tok) := by
  induction xs generalizing stack with
  | nil => rfl
  | cons x rest ih =>
      have step := map_shuntBy tok stack x
      rw [Prod.ext_iff] at step
      rw [postfixBy, List.map_append, ih, List.map_cons, postfixWith_cons, ← step.1, ← step.2]
      rfl

@[simp] theorem dropOpens_zero (stack : List α) : dropOpens tok 0 stack = stack := by
  cases stack <;> rfl

@[simp] theorem dropOpens_nil (k : Nat) : dropOpens tok k ([] : List α) = [] := by
  cases k <;> rfl

theorem dropOpens_append_of_unopened {pending : List α}
    (unopened : ∀ y ∈ pending, (tok y).kind ≠ .openParen) (k : Nat) (stack : List α) :
    dropOpens tok k (pending ++ stack) = pending ++ dropOpens tok k stack := by
  cases k with
  | zero => simp
  | succ k =>
      induction pending with
      | nil => rfl
      | cons y more ih =>
          rw [List.cons_append, dropOpens, if_neg (unopened y List.mem_cons_self),
            ih (fun z member => unopened z (List.mem_cons_of_mem y member)), List.cons_append]

theorem dropOpens_cons_of_unopened {y : α} (unopened : (tok y).kind ≠ .openParen) (k : Nat)
    (stack : List α) : dropOpens tok k (y :: stack) = y :: dropOpens tok k stack := by
  have single : ∀ z ∈ [y], (tok z).kind ≠ .openParen := by simpa using unopened
  simpa using dropOpens_append_of_unopened tok single k stack

theorem dropOpens_succ (k : Nat) (stack : List α) :
    dropOpens tok (k + 1) stack =
      stack.takeWhile (fun y => (tok y).kind != .openParen) ++
        dropOpens tok k ((stack.dropWhile fun y => (tok y).kind != .openParen).drop 1) := by
  induction stack with
  | nil => simp
  | cons y more ih =>
      by_cases opened : (tok y).kind = .openParen
      · simp [dropOpens, opened]
      · simp [dropOpens, opened, ih]

theorem unmatched_cons_openParen {t : Token} (kind : t.kind = .openParen) (rest : List Token) :
    (unmatched 0 (t :: rest)).1 = (unmatched 0 rest).1 - 1 := by
  simp [unmatched, kind, unmatched_add 0 1 rest]

theorem postfixBy_perm (xs stack : List α) :
    (postfixBy tok xs stack).Perm
      (keptBy tok xs ++ dropOpens tok (unmatched 0 (xs.map tok)).1 stack) := by
  induction xs generalizing stack with
  | nil => simp [postfixBy, keptBy, unmatched]
  | cons x rest ih =>
      cases kind : (tok x).kind
      case number | identifier =>
        simpa [postfixBy, shuntBy, keptBy, keeps, unmatched, kind] using (ih stack).cons x
      case operator =>
        have unopened : ∀ y ∈ stack.takeWhile (fun y => yieldsTo (tok y) (tok x)),
            (tok y).kind ≠ .openParen := by
          intro y member
          have yields := List.mem_takeWhile_imp member
          simp only [yieldsTo, Bool.and_eq_true, beq_iff_eq] at yields
          simp [yields.1.1]
        have split := dropOpens_append_of_unopened tok unopened (unmatched 0 (rest.map tok)).1
          (stack.dropWhile fun y => yieldsTo (tok y) (tok x))
        rw [List.takeWhile_append_dropWhile] at split
        have below := dropOpens_cons_of_unopened tok (y := x) (by simp [kind])
          (unmatched 0 (rest.map tok)).1 (stack.dropWhile fun y => yieldsTo (tok y) (tok x))
        simp only [postfixBy, shuntBy, keptBy, keeps, kind, List.map_cons, unmatched, if_true,
          split, List.cons_append]
        refine ((ih _).append_left _).trans ?_
        rw [below]
        exact (List.perm_middle.append_left _).trans
          (List.perm_middle.trans ((List.perm_append_comm_assoc _ _ _).cons x))
      case openParen =>
        have opens := ih (x :: stack)
        simp only [postfixBy, shuntBy, keptBy, keeps, kind, List.map_cons,
          unmatched_cons_openParen kind]
        cases closes : (unmatched 0 (rest.map tok)).1 with
        | zero =>
            rw [closes, dropOpens_zero] at opens
            simpa using opens.trans List.perm_middle
        | succ k =>
            rw [closes, dropOpens, if_pos kind] at opens
            simpa using opens
      case closeParen =>
        simp only [postfixBy, shuntBy, keptBy, keeps, kind, List.map_cons, unmatched,
          dropOpens_succ, Bool.false_eq_true, if_false]
        exact ((ih _).append_left _).trans (List.perm_append_comm_assoc _ _ _)

theorem map_keptBy {β : Type} (f : α → β) (tok : β → Token) (xs : List α) :
    (keptBy (fun x => tok (f x)) xs).map f = keptBy tok (xs.map f) := by
  induction xs with
  | nil => rfl
  | cons x rest ih =>
      by_cases kept : keeps (tok (f x)) ((rest.map f).map tok) = true
      · simp [keptBy, List.map_map, Function.comp_def] at kept ⊢
        simp [kept, ih]
      · simp [keptBy, List.map_map, Function.comp_def] at kept ⊢
        simp [kept, ih]

theorem keptBy_sublist (xs : List α) : (keptBy tok xs).Sublist xs := by
  induction xs with
  | nil => exact List.Sublist.slnil
  | cons x rest ih =>
      unfold keptBy
      split
      · exact ih.cons_cons x
      · exact ih.cons x

theorem mem_keptBy_of_operator {x : α} {xs : List α} (member : x ∈ xs)
    (operator : (tok x).kind = .operator) : x ∈ keptBy tok xs := by
  induction xs with
  | nil => simp at member
  | cons z rest ih =>
      unfold keptBy
      rcases List.mem_cons.mp member with rfl | later
      · simp [keeps, operator]
      · split
        · exact List.mem_cons_of_mem z (ih later)
        · exact ih later

theorem shuntBy_of_isOperand {x : α} (operand : (tok x).isOperand = true) (stack : List α) :
    shuntBy tok stack x = ([x], stack) := by
  cases kind : (tok x).kind <;> simp_all [isOperand, shuntBy]

theorem mem_shuntBy {x y : α} {stack : List α}
    (member : y ∈ (shuntBy tok stack x).1 ∨ y ∈ (shuntBy tok stack x).2) :
    y = x ∨ y ∈ stack := by
  have taken : ∀ p, y ∈ stack.takeWhile p → y ∈ stack :=
    fun p m => (List.takeWhile_sublist p).subset m
  have dropped : ∀ p, y ∈ stack.dropWhile p → y ∈ stack :=
    fun p m => (List.dropWhile_suffix p).subset m
  cases kind : (tok x).kind <;> simp only [shuntBy, kind, List.mem_cons, List.not_mem_nil,
    false_or, or_false] at member
  case number | identifier => exact member.imp_right id
  case operator => exact member.elim (.inr ∘ taken _) (Or.imp_right (dropped _))
  case openParen => exact member
  case closeParen => exact .inr (member.elim (taken _) (dropped _ ∘ List.mem_of_mem_drop))

theorem filter_postfixBy (xs stack : List α)
    (waiting : ∀ y ∈ stack, (tok y).isOperand = false) :
    (postfixBy tok xs stack).filter (fun y => (tok y).isOperand) =
      xs.filter (fun y => (tok y).isOperand) := by
  induction xs generalizing stack with
  | nil => simpa [postfixBy] using waiting
  | cons x rest ih =>
      by_cases operand : (tok x).isOperand = true
      · simp [postfixBy, shuntBy_of_isOperand tok operand, operand, ih stack waiting]
      · have fromStep : ∀ y, y ∈ (shuntBy tok stack x).1 ∨ y ∈ (shuntBy tok stack x).2 →
            (tok y).isOperand = false := by
          intro y member
          rcases mem_shuntBy tok member with rfl | below
          · simpa using operand
          · exact waiting y below
        rw [postfixBy, List.filter_append, ih _ fun y below => fromStep y (.inr below),
          List.filter_eq_nil_iff.mpr fun y written => by simp [fromStep y (.inl written)]]
        simp [operand]

theorem pair_sublist_postfixBy {y x : α} {xs stack : List α} (before : [y, x].Sublist xs)
    (operand : (tok y).isOperand = true) (operator : (tok x).kind = .operator)
    (waiting : ∀ z ∈ stack, (tok z).isOperand = false) :
    [y, x].Sublist (postfixBy tok xs stack) := by
  induction xs generalizing stack with
  | nil => simp at before
  | cons z rest ih =>
      rcases List.sublist_cons_iff.mp before with later | ⟨r, pair, after⟩
      · have left : ∀ w ∈ (shuntBy tok stack z).2, (tok w).isOperand = false := by
          intro w member
          by_cases zOperand : (tok z).isOperand = true
          · rw [shuntBy_of_isOperand tok zOperand] at member
            exact waiting w member
          · rcases mem_shuntBy tok (.inr member) with rfl | below
            · simpa using zOperand
            · exact waiting w below
        exact (ih later left).trans (List.sublist_append_right _ _)
      · obtain ⟨rfl, rfl⟩ := List.cons_eq_cons.mp pair
        have kept := mem_keptBy_of_operator tok (List.singleton_sublist.mp after) operator
        have written : x ∈ postfixBy tok rest stack :=
          (postfixBy_perm tok rest stack).mem_iff.mpr (List.mem_append_left _ kept)
        rw [postfixBy, shuntBy_of_isOperand tok operand]
        exact (List.singleton_sublist.mpr written).cons_cons y

end Tagged

/-- Postfix conversion loses and duplicates nothing. Its output is a permutation of the input less
its closing parentheses and the opening parentheses that a later closing one matches; numbers and
identifiers keep their order. Followed by position, every token of the output comes from its own
position of the input, every operator comes out exactly once, and after every number and
identifier that came before it. -/
theorem postfix_keeps_every_token_once (ts : List Token) :
    (toPostfix ts).Perm (keptBy id ts) ∧
      (toPostfix ts).filter isOperand = ts.filter isOperand ∧
      ∃ ps : List (Fin ts.length), ps.map ts.get = toPostfix ts ∧
        ps.Perm (keptBy ts.get (List.finRange ts.length)) ∧
        ps.filter (fun i => (ts.get i).isOperand) =
          (List.finRange ts.length).filter (fun i => (ts.get i).isOperand) ∧
        (∀ i, (ts.get i).kind = .operator → ps.count i = 1) ∧
        ∀ j i, j < i → (ts.get j).isOperand = true → (ts.get i).kind = .operator →
          [j, i].Sublist ps := by
  set ps := postfixBy ts.get (List.finRange ts.length) []
  have written : ps.map ts.get = toPostfix ts := by
    rw [map_postfixBy, List.map_get_finRange]
    rfl
  have perm : ps.Perm (keptBy ts.get (List.finRange ts.length)) := by
    simpa using postfixBy_perm ts.get (List.finRange ts.length) []
  have operands := filter_postfixBy ts.get (List.finRange ts.length) [] (by simp)
  refine ⟨?_, ?_, ps, written, perm, operands, ?_, ?_⟩
  · have mapped := (perm.map ts.get).trans (List.Perm.of_eq (map_keptBy ts.get id _))
    rwa [List.map_get_finRange, written] at mapped
  · conv_rhs => rw [← List.map_get_finRange ts]
    rw [← written, List.filter_map, List.filter_map, Function.comp_def, operands]
  · intro i operator
    have kept := mem_keptBy_of_operator ts.get (List.mem_finRange i) operator
    rw [perm.count_eq]
    exact List.count_eq_one_of_mem
      ((keptBy_sublist ts.get _).nodup (List.nodup_finRange ts.length)) kept
  · intro j i earlier operand operator
    have ordered : [j, i].Sublist (List.finRange ts.length) := by
      apply List.sublist_of_subperm_of_pairwise (r := fun a b : Fin ts.length => a ≤ b)
      · exact List.subperm_of_subset (by simp [earlier.ne]) (by simp)
      · simp [earlier.le]
      · exact (List.sortedLT_finRange _).pairwise.imp le_of_lt
    exact pair_sublist_postfixBy ts.get ordered operand operator (by simp)

end Token

end MatrixSteps
