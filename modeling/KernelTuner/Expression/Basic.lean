import KernelTuner.Expression.Node

/-!
Contract: symbolic expressions.

Owns: the expression type. An expression is an array of binary nodes in which
every operand refers to an earlier node or to a buffer of the expression's
context. The array is therefore acyclic, and the last node is the root. Nodes may
be shared: unfolding one can take exponentially many steps.
-/

set_option autoImplicit false

namespace KernelTuner

/-- An expression on the buffers of one context. -/
structure Expression where
  nodes : Array Node
  context : ContextId
  elementType : ElementType
  nonempty : 0 < nodes.size
  admissible : ∀ (index : Nat) (bound : index < nodes.size),
    nodes[index].Admissible context index

namespace Expression

def rootIndex (expression : Expression) : Nat := expression.nodes.size - 1

theorem rootIndex_lt (expression : Expression) :
    expression.rootIndex < expression.nodes.size :=
  Nat.sub_lt expression.nonempty Nat.one_pos

def root (expression : Expression) : Node :=
  have bound := expression.rootIndex_lt
  expression.nodes[expression.rootIndex]

def node? (expression : Expression) (index : Nat) : Option Node := expression.nodes[index]?

/-- The buffer that a root assignment writes. -/
def assigned? (expression : Expression) : Option Buffer :=
  match expression.root.operator, expression.root.lhs with
  | .assign, .buffer handle => some handle
  | _, _ => none

end Expression

/-- Case split on an operand that may stand at place `index`: a reference comes
with the proof that it leads to an earlier place. -/
def Operand.elimAt {ρ : Type} {context : ContextId} {index : Nat} (operand : Operand)
    (admissible : operand.Admissible context index)
    (onNode : (child : Nat) → child < index → ρ) (onBuffer : Buffer → ρ)
    (onScalar : ElementType → Float → ρ) (onEmpty : ρ) : ρ :=
  match operand, admissible with
  | .empty, _ => onEmpty
  | .buffer handle, _ => onBuffer handle
  | .scalar elementType value, _ => onScalar elementType value
  | .node child, earlier => onNode child earlier

end KernelTuner
