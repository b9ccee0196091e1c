import KernelTuner.Proofs.Expression.Unfolding
import Mathlib.Data.List.Forall2

/-!
Contract: trees read back from their symbols.

Owns: the likeness of trees that differ in sizes, values and buffer identities only;
saturated trees, in which the operator tells which operands are present; and
`alike_of_symbols`, by which the symbols of saturated trees one after another
determine the trees. An expression whose reachable nodes are fully applied unfolds to
such a tree; among them is the assignment of one operation.
-/

set_option autoImplicit false

namespace KernelTuner

variable {rename : BufferId → BufferId}

/-! ### Likeness -/

/-- Buffers that differ in their sizes and, by `rename`, in their identities. -/
structure Buffer.Alike (rename : BufferId → BufferId) (left right : Buffer) : Prop where
  rank : left.rank = right.rank
  elementType : left.elementType = right.elementType
  id : right.id = rename left.id

/-- Symbols that differ in what a fingerprint leaves out. -/
inductive Symbol.Alike (rename : BufferId → BufferId) : Symbol → Symbol → Prop where
  | operator (found : Operator) : Alike rename (.operator found) (.operator found)
  | buffer {left right : Buffer} (alike : left.Alike rename right) :
      Alike rename (.leaf (.buffer left)) (.leaf (.buffer right))
  | scalar (elementType : ElementType) (left right : Float) :
      Alike rename (.leaf (.scalar elementType left)) (.leaf (.scalar elementType right))

/-- Trees of one form, up to host scalar values, buffer sizes and identities. -/
inductive Tree.Alike (rename : BufferId → BufferId) : Tree → Tree → Prop where
  | empty : Alike rename .empty .empty
  | buffer {left right : Buffer} (alike : left.Alike rename right) :
      Alike rename (.buffer left) (.buffer right)
  | scalar (elementType : ElementType) (left right : Float) :
      Alike rename (.scalar elementType left) (.scalar elementType right)
  | node (operator : Operator) {leftLhs leftRhs rightLhs rightRhs : Tree}
      (lhs : Alike rename leftLhs rightLhs) (rhs : Alike rename leftRhs rightRhs) :
      Alike rename (.node operator leftLhs leftRhs) (.node operator rightLhs rightRhs)

namespace Tree

theorem Alike.symbols {left right : Tree} (alike : left.Alike rename right) :
    List.Forall₂ (Symbol.Alike rename) left.symbols right.symbols := by
  induction alike with
  | empty => exact .nil
  | buffer alike => exact .cons (.buffer alike) .nil
  | scalar elementType left right => exact .cons (.scalar elementType left right) .nil
  | node operator _ _ lhsHypothesis rhsHypothesis =>
      exact .cons (.operator operator) (List.rel_append lhsHypothesis rhsHypothesis)

/-! ### Reading back -/

/-- A transposition has a left operand only; every other node has both. -/
def Saturated : Tree → Prop
  | empty => False
  | buffer _ => True
  | scalar _ _ => True
  | node operator lhs rhs =>
      lhs.Saturated ∧ if operator = .transpose then rhs = empty else rhs.Saturated

/-- The symbols of a saturated tree determine it, whatever follows them. -/
theorem alike_of_symbols {left right : Tree} (leftSaturated : left.Saturated)
    (rightSaturated : right.Saturated) {leftRest rightRest : List Symbol}
    (alike : List.Forall₂ (Symbol.Alike rename) (left.symbols ++ leftRest)
      (right.symbols ++ rightRest)) :
    left.Alike rename right ∧ List.Forall₂ (Symbol.Alike rename) leftRest rightRest := by
  induction left generalizing right leftRest rightRest with
  | empty => exact leftSaturated.elim
  | buffer leftHandle =>
      cases right with
      | empty => exact rightSaturated.elim
      | buffer rightHandle =>
          obtain _ | ⟨first, rest⟩ := alike
          cases first with
          | buffer handles => exact ⟨.buffer handles, rest⟩
      | scalar elementType value =>
          obtain _ | ⟨first, rest⟩ := alike
          cases first
      | node operator lhs rhs =>
          obtain _ | ⟨first, rest⟩ := alike
          cases first
  | scalar leftType leftValue =>
      cases right with
      | empty => exact rightSaturated.elim
      | buffer rightHandle =>
          obtain _ | ⟨first, rest⟩ := alike
          cases first
      | scalar rightType rightValue =>
          obtain _ | ⟨first, rest⟩ := alike
          cases first
          exact ⟨.scalar _ _ _, rest⟩
      | node operator lhs rhs =>
          obtain _ | ⟨first, rest⟩ := alike
          cases first
  | node leftOperator leftLhs leftRhs lhsHypothesis rhsHypothesis =>
      cases right with
      | empty => exact rightSaturated.elim
      | buffer rightHandle =>
          obtain _ | ⟨first, rest⟩ := alike
          cases first
      | scalar elementType value =>
          obtain _ | ⟨first, rest⟩ := alike
          cases first
      | node rightOperator rightLhs rightRhs =>
          obtain ⟨leftLhsSaturated, leftRhsSaturated⟩ := leftSaturated
          obtain ⟨rightLhsSaturated, rightRhsSaturated⟩ := rightSaturated
          simp only [symbols, List.cons_append, List.append_assoc] at alike
          obtain _ | ⟨first, rest⟩ := alike
          cases first
          obtain ⟨lhsAlike, afterLhs⟩ := lhsHypothesis leftLhsSaturated rightLhsSaturated rest
          by_cases unary : leftOperator = .transpose
          · rw [if_pos unary] at leftRhsSaturated rightRhsSaturated
            subst leftRhsSaturated rightRhsSaturated
            exact ⟨.node _ lhsAlike .empty, afterLhs⟩
          · rw [if_neg unary] at leftRhsSaturated rightRhsSaturated
            obtain ⟨rhsAlike, afterRhs⟩ :=
              rhsHypothesis leftRhsSaturated rightRhsSaturated afterLhs
            exact ⟨.node _ lhsAlike rhsAlike, afterRhs⟩

theorem Saturated.symbols_ne_nil {tree : Tree} (saturated : tree.Saturated) :
    tree.symbols ≠ [] := by
  cases tree with
  | empty => exact saturated.elim
  | buffer handle => exact List.cons_ne_nil _ _
  | scalar elementType value => exact List.cons_ne_nil _ _
  | node operator lhs rhs => exact List.cons_ne_nil _ _

/-- Neither the number of trees nor where one ends is lost in the symbols. -/
theorem forall₂_alike_of_symbols {left right : List Tree}
    (leftSaturated : ∀ tree ∈ left, tree.Saturated)
    (rightSaturated : ∀ tree ∈ right, tree.Saturated)
    (alike : List.Forall₂ (Symbol.Alike rename) (left.flatMap symbols) (right.flatMap symbols)) :
    List.Forall₂ (Tree.Alike rename) left right := by
  induction left generalizing right with
  | nil =>
      cases right with
      | nil => exact .nil
      | cons tree rest =>
          rw [List.flatMap_nil, List.flatMap_cons, List.forall₂_nil_left_iff,
            List.append_eq_nil_iff] at alike
          exact absurd alike.1 (rightSaturated tree List.mem_cons_self).symbols_ne_nil
  | cons leftTree leftRest inductionHypothesis =>
      cases right with
      | nil =>
          rw [List.flatMap_nil, List.flatMap_cons, List.forall₂_nil_right_iff,
            List.append_eq_nil_iff] at alike
          exact absurd alike.1 (leftSaturated leftTree List.mem_cons_self).symbols_ne_nil
      | cons rightTree rightRest =>
          rw [List.flatMap_cons, List.flatMap_cons] at alike
          obtain ⟨treeAlike, restAlike⟩ :=
            alike_of_symbols (leftSaturated leftTree List.mem_cons_self)
              (rightSaturated rightTree List.mem_cons_self) alike
          refine .cons treeAlike (inductionHypothesis ?_ ?_ restAlike)
          · intro tree member
            exact leftSaturated tree (List.mem_cons_of_mem _ member)
          · intro tree member
            exact rightSaturated tree (List.mem_cons_of_mem _ member)

end Tree

/-! ### Fully applied expressions -/

/-- A transposition has its left operand only; every other node has both operands. -/
def Node.FullyApplied (node : Node) : Prop :=
  node.lhs ≠ .empty ∧ (node.rhs = .empty ↔ node.operator = .transpose)

namespace Expression

/-- The places that the root leads to. -/
inductive Reachable (expression : Expression) : Nat → Prop where
  | root : Reachable expression expression.rootIndex
  | lhs {index child : Nat} {node : Node} (reached : Reachable expression index)
      (found : expression.node? index = some node) (operand : node.lhs = .node child) :
      Reachable expression child
  | rhs {index child : Nat} {node : Node} (reached : Reachable expression index)
      (found : expression.node? index = some node) (operand : node.rhs = .node child) :
      Reachable expression child

/-- Every reachable node is fully applied. -/
def FullyApplied (expression : Expression) : Prop :=
  ∀ (index : Nat) (node : Node), expression.Reachable index →
    expression.node? index = some node → node.FullyApplied

theorem treeFrom_saturated {expression : Expression} (applied : expression.FullyApplied)
    (index : Nat) (bound : index < expression.nodes.size)
    (reached : expression.Reachable index) :
    (expression.treeFrom index bound).Saturated := by
  induction index using Nat.strongRecOn with
  | _ index inductionHypothesis =>
      have found : expression.node? index = some expression.nodes[index] :=
        Array.getElem?_eq_getElem bound
      obtain ⟨lhsPresent, rhsPresent⟩ := applied index expression.nodes[index] reached found
      have operandSaturated (operand : Operand) (present : operand ≠ .empty)
          (admissible : operand.Admissible expression.context index)
          (leads : ∀ child, operand = .node child → expression.Reachable child) :
          (expression.operandTree bound operand admissible).Saturated := by
        cases operand with
        | empty => exact absurd rfl present
        | buffer handle => trivial
        | scalar elementType value => trivial
        | node child => exact inductionHypothesis child admissible _ (leads child rfl)
      rw [treeFrom_eq]
      refine ⟨operandSaturated _ lhsPresent _ fun child => .lhs reached found, ?_⟩
      by_cases unary : expression.nodes[index].operator = .transpose
      · rw [if_pos unary]
        simp only [rhsPresent.2 unary]
        rfl
      · rw [if_neg unary]
        have present : expression.nodes[index].rhs ≠ .empty := fun missing =>
          unary (rhsPresent.1 missing)
        exact operandSaturated _ present _ fun child => .rhs reached found

theorem FullyApplied.tree_saturated {expression : Expression}
    (applied : expression.FullyApplied) : expression.tree.Saturated :=
  treeFrom_saturated applied expression.rootIndex expression.rootIndex_lt .root

end Expression

/-! ### Assignments of one operation -/

/-- The tree of an operand that refers to no node. -/
def Operand.leafTree : Operand → Tree
  | .buffer handle => .buffer handle
  | .scalar elementType value => .scalar elementType value
  | _ => .empty

namespace Expression

/-- `target = lhs operator rhs`, on the context of the target. -/
def assignment (elementType : ElementType) (target : Buffer) (operator : Operator)
    (lhs rhs : Operand) (allowed : (Node.mk lhs operator rhs).Admissible target.context 0) :
    Expression where
  nodes := #[⟨lhs, operator, rhs⟩, ⟨.buffer target, .assign, .node 0⟩]
  context := target.context
  elementType := elementType
  nonempty := Nat.zero_lt_succ 1
  admissible := fun index bound =>
    match index, bound with
    | 0, _ => allowed
    | 1, _ => ⟨rfl, Nat.zero_lt_one⟩

variable {elementType : ElementType} {target : Buffer} {operator : Operator} {lhs rhs : Operand}
  (allowed : (Node.mk lhs operator rhs).Admissible target.context 0)

theorem assignment_tree :
    (assignment elementType target operator lhs rhs allowed).tree =
      .node .assign (.buffer target) (.node operator lhs.leafTree rhs.leafTree) := by
  have leaf (operand : Operand) (expression : Expression) (bound : 0 < expression.nodes.size)
      (admissible : operand.Admissible expression.context 0) :
      expression.operandTree bound operand admissible = operand.leafTree := by
    cases operand with
    | empty => rfl
    | buffer handle => rfl
    | scalar elementType value => rfl
    | node child => exact absurd admissible (Nat.not_lt_zero child)
  have bound : 0 < (assignment elementType target operator lhs rhs allowed).nodes.size :=
    Nat.zero_lt_succ 1
  have product : (assignment elementType target operator lhs rhs allowed).treeFrom 0 bound =
      .node operator lhs.leafTree rhs.leafTree := by
    rw [treeFrom_eq]
    exact congrArg₂ (Tree.node operator) (leaf lhs _ _ _) (leaf rhs _ _ _)
  rw [tree_eq]
  exact congrArg (Tree.node .assign (.buffer target)) product

theorem assignment_fullyApplied (applied : (Node.mk lhs operator rhs).FullyApplied) :
    (assignment elementType target operator lhs rhs allowed).FullyApplied := by
  intro index node _ found
  match index with
  | 0 =>
      cases found
      exact applied
  | 1 =>
      cases found
      exact ⟨nofun, nofun, nofun⟩
  | index + 2 => cases found

end Expression

end KernelTuner
