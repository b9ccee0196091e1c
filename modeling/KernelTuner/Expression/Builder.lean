import KernelTuner.Error
import KernelTuner.Expression.Basic

/-!
Contract: the construction of expressions.

Owns: the builder, which collects nodes without looking at them and checks all of
them at the end, and the constructors of the four standard updates.
`violation?_eq_none_iff` says which nodes pass that check.
-/

set_option autoImplicit false

namespace KernelTuner

/-- Nodes collected for an expression. -/
structure Builder where
  context : ContextId
  elementType : ElementType
  nodes : Array Node := #[]

/-- Why an operand may not stand at place `index`. -/
def Operand.violation? (context : ContextId) (index : Nat) : Operand → Option InvalidArgument
  | .node child => if child < index then none else some (.laterNode index child)
  | .buffer handle =>
      if handle.context = context then none
      else some (.foreignBuffer handle.id handle.context context)
  | _ => none

/-- Why a node may not stand at place `index`; the left operand is looked at first. -/
def Node.violation? (context : ContextId) (index : Nat) (node : Node) : Option InvalidArgument :=
  match node.lhs.violation? context index with
  | some cause => some cause
  | none => node.rhs.violation? context index

theorem Operand.violation?_eq_none_iff {context : ContextId} {index : Nat} {operand : Operand} :
    operand.violation? context index = none ↔ operand.Admissible context index := by
  cases operand <;> simp [Operand.violation?, Operand.Admissible]

theorem Node.violation?_eq_none_iff {context : ContextId} {index : Nat} {node : Node} :
    node.violation? context index = none ↔ node.Admissible context index := by
  unfold Node.violation? Node.Admissible
  rw [← Operand.violation?_eq_none_iff, ← Operand.violation?_eq_none_iff]
  cases node.lhs.violation? context index <;> simp

namespace Builder

/-- Appends a node and gives the operand that refers to it. -/
def push (builder : Builder) (lhs : Operand) (operator : Operator) (rhs : Operand) :
    Builder × Operand :=
  ({ builder with nodes := builder.nodes.push ⟨lhs, operator, rhs⟩ }, .node builder.nodes.size)

/-- The first violation among the nodes, in order. -/
def violation? (builder : Builder) : Option InvalidArgument :=
  builder.nodes.toList.zipIdx.findSome? fun entry => entry.1.violation? builder.context entry.2

theorem violation?_eq_none_iff {builder : Builder} :
    builder.violation? = none ↔
      ∀ (index : Nat) (bound : index < builder.nodes.size),
        builder.nodes[index].Admissible builder.context index := by
  unfold violation?
  rw [List.findSome?_eq_none_iff]
  constructor
  · intro clean index bound
    refine Node.violation?_eq_none_iff.1 (clean (builder.nodes[index], index) ?_)
    rw [List.mk_mem_zipIdx_iff_getElem?]
    simp [bound]
  · intro allowed entry member
    obtain ⟨node, index⟩ := entry
    rw [List.mk_mem_zipIdx_iff_getElem?] at member
    obtain ⟨bound, found⟩ := List.getElem?_eq_some_iff.1 member
    have fits : index < builder.nodes.size := by simpa using bound
    have same : builder.nodes[index] = node := by simpa using found
    exact same ▸ Node.violation?_eq_none_iff.2 (allowed index fits)

/-- Checks that `root` is the last node and that every node, reachable or not, may
stand at its place. On an empty builder the greatest machine word is no root: its
successor is not a word. -/
def finish (builder : Builder) (root : Operand) : Except Error Expression :=
  match root with
  | .node index =>
      if last : index + 1 = builder.nodes.size then
        match clean : builder.violation? with
        | some cause => refuse cause
        | none =>
            .ok {
              nodes := builder.nodes
              context := builder.context
              elementType := builder.elementType
              nonempty := by omega
              admissible := violation?_eq_none_iff.1 clean }
      else if index + 1 = Size.wordCount ∧ builder.nodes.size = 0 then
        .error (.fault .indexOverflow)
      else refuse (.rootNotLast (builder.nodes.size - 1) root)
  | _ => refuse (.rootNotLast (builder.nodes.size - 1) root)

end Builder

namespace Expression

/-- `out = alpha * x + y` on single values, vectors or matrices. -/
def axpy (out : Buffer) (alpha : Float) (x y : Buffer) : Except Error Expression :=
  let builder : Builder := ⟨out.context, out.elementType, #[]⟩
  let (builder, scaled) := builder.push (.buffer x) .scale (.scalar out.elementType alpha)
  let (builder, sum) := builder.push scaled .add (.buffer y)
  let (builder, root) := builder.push (.buffer out) .assign sum
  builder.finish root

/-- `out = x · y`, with `out` a single value. -/
def dot (out x y : Buffer) : Except Error Expression :=
  let builder : Builder := ⟨out.context, out.elementType, #[]⟩
  let (builder, product) := builder.push (.buffer x) .innerProduct (.buffer y)
  let (builder, root) := builder.push (.buffer out) .assign product
  builder.finish root

/-- `out = A x`, or `out = Aᵀ x` when `transposed`. -/
def matrixVector (out a x : Buffer) (transposed : Bool) : Except Error Expression :=
  let builder : Builder := ⟨out.context, out.elementType, #[]⟩
  let operator := if transposed then .matrixVectorColumns else .matrixVectorRows
  let (builder, product) := builder.push (.buffer a) operator (.buffer x)
  let (builder, root) := builder.push (.buffer out) .assign product
  builder.finish root

/-- The operand that reads `handle`, through a transposition when asked. -/
def pushOperand (builder : Builder) (handle : Buffer) (transposed : Bool) : Builder × Operand :=
  if transposed then builder.push (.buffer handle) .transpose .empty
  else (builder, .buffer handle)

/-- `out = op(A) op(B)`, where `op` transposes when the flag of its operand is set. -/
def matrixProduct (out a b : Buffer) (transposedA transposedB : Bool) :
    Except Error Expression :=
  let builder : Builder := ⟨out.context, out.elementType, #[]⟩
  let (builder, lhs) := pushOperand builder a transposedA
  let (builder, rhs) := pushOperand builder b transposedB
  let (builder, product) := builder.push lhs .matrixProduct rhs
  let (builder, root) := builder.push (.buffer out) .assign product
  builder.finish root

end Expression

end KernelTuner
