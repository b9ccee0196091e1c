import KernelTuner.Buffer
import KernelTuner.Decimal.Layout
import KernelTuner.Expression.Operator

/-!
Contract: operands and nodes of expressions.

Owns: the operand and node types, how diagnostics show an operand, and the
condition under which a node may stand at a place of an expression.
-/

set_option autoImplicit false

namespace KernelTuner

/-- Operand of a node. -/
inductive Operand where
  /-- The missing operand of a unary node. -/
  | empty
  | buffer (handle : Buffer)
  | scalar (elementType : ElementType) (value : Float)
  /-- Another node of the same expression. -/
  | node (index : Nat)
deriving Inhabited

/-- A binary node. -/
structure Node where
  lhs : Operand
  operator : Operator
  rhs : Operand
deriving Inhabited

namespace Operand

/-- The operand with all its fields, as diagnostics show it. -/
def shown : Operand → String
  | .empty => "Empty"
  | .buffer handle => "Buffer(" ++ handle.shown ++ ")"
  | .scalar elementType value =>
      "HostScalar \x7b dtype: " ++ elementType.label ++ ", value: " ++
        Decimal.diagnostic.render value.toBits ++ " \x7d"
  | .node index => s!"Node({index})"

/-- An operand may stand at place `index` of an expression on `context` when it
refers to an earlier node or to a buffer of that context. -/
def Admissible (context : ContextId) (index : Nat) : Operand → Prop
  | .empty => True
  | .buffer handle => handle.context = context
  | .scalar _ _ => True
  | .node child => child < index

instance (context : ContextId) (index : Nat) (operand : Operand) :
    Decidable (operand.Admissible context index) := by
  cases operand <;> simp only [Admissible] <;> infer_instance

end Operand

/-- Both operands may stand at place `index`. -/
def Node.Admissible (context : ContextId) (index : Nat) (node : Node) : Prop :=
  node.lhs.Admissible context index ∧ node.rhs.Admissible context index

instance (context : ContextId) (index : Nat) (node : Node) :
    Decidable (node.Admissible context index) :=
  inferInstanceAs (Decidable (_ ∧ _))

end KernelTuner
