import KernelTuner.Expression.Tree
import KernelTuner.Kernel.Basic
import KernelTuner.Launch
import KernelTuner.Variant.Check

/-!
Contract: kernels that evaluate expressions element by element.

Owns: the parameters of such a kernel, one statement per expression of a batch,
and the arguments of a launch. A buffer that occurs several times has one
parameter; every host scalar has its own. Batches with the same fingerprint have
the same parameters.
-/

set_option autoImplicit false

namespace KernelTuner

/-- Kernel parameters of an element-wise batch, in order of first use. -/
structure Bindings where
  parameters : List Leaf

/-- How an element of a buffer is read and written. A buffer of rank zero always
stands for its only element. -/
inductive Access where
  /-- The element at this index. -/
  | element (index : Kernel.Index)
  /-- The vector of this width at index `i`. -/
  | vector (width : Nat)

namespace Access

def index : Kernel.Index := .var "i"

def first (name : String) : Kernel.Place := .element name [.literal 0]

def read (access : Access) (buffer : Buffer) (name : String) : Kernel.Value :=
  if buffer.rank = 0 then .read (first name)
  else
    match access with
    | .element index => .read (.element name [index])
    | .vector width => .load width index name

def write (access : Access) (buffer : Buffer) (name : String) (value : Kernel.Value) :
    Kernel.Instruction :=
  if buffer.rank = 0 then .assign (first name) value
  else
    match access with
    | .element index => .assign (.element name [index]) value
    | .vector width => .store width value index name

end Access

namespace Leaf

/-- Whether the leaf is the buffer with this identity. -/
def isBuffer (id : BufferId) : Leaf → Bool
  | .buffer handle => handle.id = id
  | .scalar _ _ => false

def isScalar : Leaf → Bool
  | .buffer _ => false
  | .scalar _ _ => true

end Leaf

namespace Bindings

/-- Binds a leaf: a buffer that is bound already keeps its parameter. -/
def bind (parameters : List Leaf) (leaf : Leaf) : List Leaf :=
  match leaf with
  | .buffer handle =>
      if parameters.any (Leaf.isBuffer handle.id) then parameters else parameters ++ [leaf]
  | .scalar _ _ => parameters ++ [leaf]

/-- Binds the leaves of the batch from left to right. -/
def collect (batch : Batch) : Bindings :=
  ⟨(batch.expressions.flatMap (fun expression => expression.tree.leaves)).foldl bind []⟩

/-- Name of the parameter at `position`. -/
def name (position : Nat) : String := s!"arg{position}"

def position? (bindings : Bindings) (id : BufferId) : Option Nat :=
  bindings.parameters.findIdx? (Leaf.isBuffer id)

/-- Positions of the host scalars, in order. -/
def scalarPositions (bindings : Bindings) : List Nat :=
  bindings.parameters.zipIdx.filterMap (fun entry =>
    if entry.1.isScalar then some entry.2 else none)

def declarations (bindings : Bindings) : List Kernel.Parameter :=
  bindings.parameters.zipIdx.map fun entry =>
    match entry.1 with
    | .buffer handle => .pointer false handle.elementType (name entry.2)
    | .scalar elementType _ => .scalar elementType (name entry.2)

/-- What a launch passes for the parameters. -/
def arguments (bindings : Bindings) : List Argument :=
  bindings.parameters.map fun leaf =>
    match leaf with
    | .buffer handle => .buffer handle.id
    | .scalar _ value => .scalar value

/-- The parameter of a buffer. -/
def nameOf (bindings : Bindings) (buffer : Buffer) : Except Error String :=
  match bindings.position? buffer.id with
  | some position => .ok (name position)
  | none => refuse (.unboundBuffer buffer.id)

/-- The value of a tree at one index. `scalars` are the positions of the host
scalars that come next; those that the tree does not use are given back. -/
def render (bindings : Bindings) (access : Access) :
    Tree → List Nat → Except Error (Kernel.Value × List Nat)
  | .buffer handle, scalars => do
      return (access.read handle (← bindings.nameOf handle), scalars)
  | .scalar _ _, position :: scalars => .ok (.read (.var (name position)), scalars)
  | .scalar _ _, [] => refuse .unboundScalar
  | .node operator lhs rhs, scalars =>
      match operator.arithmetic? with
      | none => refuse (.notElementWise operator)
      | some arithmetic => do
          let (left, scalars) ← bindings.render access lhs scalars
          let (right, scalars) ← bindings.render access rhs scalars
          return (.group (.binary arithmetic left right), scalars)
  | .empty, _ => refuse .missingOperand

/-- The store that an expression amounts to at one index. -/
def statement (bindings : Bindings) (access : Access) (tree : Tree) (scalars : List Nat) :
    Except Error (Kernel.Instruction × List Nat) :=
  match tree with
  | .node .assign (.buffer target) rhs => do
      let name ← bindings.nameOf target
      let (value, scalars) ← bindings.render access rhs scalars
      return (access.write target name value, scalars)
  | _ => refuse .noElementTarget

/-- One store per expression. -/
def statementsFrom (bindings : Bindings) (access : Access) :
    List Tree → List Nat → Except Error (List Kernel.Instruction)
  | [], _ => .ok []
  | tree :: rest, scalars => do
      let (store, scalars) ← bindings.statement access tree scalars
      return store :: (← bindings.statementsFrom access rest scalars)

/-- The stores of a batch, in the order of its expressions. -/
def statements (bindings : Bindings) (batch : Batch) (access : Access) :
    Except Error (List Kernel.Statement) := do
  let stores ← bindings.statementsFrom access (batch.expressions.map Expression.tree)
    bindings.scalarPositions
  return stores.map .run

end Bindings

end KernelTuner
