import KernelTuner.Expression.Basic

/-!
Contract: expressions unfolded to trees.

Owns: the tree that an expression stands for, in which shared nodes are repeated,
and the leaves of that tree from left to right.
-/

set_option autoImplicit false

namespace KernelTuner

/-- An expression without sharing. -/
inductive Tree where
  | empty
  | buffer (handle : Buffer)
  | scalar (elementType : ElementType) (value : Float)
  | node (operator : Operator) (lhs rhs : Tree)
deriving Inhabited

/-- A leaf that occupies a kernel parameter. -/
inductive Leaf where
  | buffer (handle : Buffer)
  | scalar (elementType : ElementType) (value : Float)
deriving Inhabited

namespace Tree

/-- The leaves from left to right. -/
def leaves : Tree → List Leaf
  | empty => []
  | buffer handle => [.buffer handle]
  | scalar elementType value => [.scalar elementType value]
  | node _ lhs rhs => lhs.leaves ++ rhs.leaves

end Tree

namespace Expression

/-- The tree below place `index`. -/
def treeFrom (expression : Expression) (index : Nat)
    (bound : index < expression.nodes.size) : Tree :=
  let node := expression.nodes[index]
  let below (operand : Operand) (admissible : operand.Admissible expression.context index) :
      Tree :=
    operand.elimAt admissible
      (fun child earlier => treeFrom expression child (Nat.lt_trans earlier bound))
      .buffer .scalar .empty
  .node node.operator (below node.lhs (expression.admissible index bound).1)
    (below node.rhs (expression.admissible index bound).2)
termination_by index

/-- The tree that the expression stands for. -/
def tree (expression : Expression) : Tree :=
  expression.treeFrom expression.rootIndex expression.rootIndex_lt

end Expression

end KernelTuner
