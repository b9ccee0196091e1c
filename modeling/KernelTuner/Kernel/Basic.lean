import KernelTuner.ElementType
import KernelTuner.Expression.Operator

/-!
Contract: device kernels as data.

Owns: the part of OpenCL C that the library emits. Index arithmetic, conditions
and element values are three types, because they follow different rules: an index
is an unsigned integer, a condition compares indices, and a value is an element
or a vector of elements.

Does not own: the text of a kernel (`Kernel.Text`), or which kernel a variant
emits (`Variant`).
-/

set_option autoImplicit false

namespace KernelTuner.Kernel

/-- Question about a work item's place in the launch, asked per dimension. -/
inductive WorkItem where
  | globalId
  | globalSize
  | localId
  | groupId
  | groupCount
deriving DecidableEq, Repr

/-- Unsigned integer expression. -/
inductive Index where
  | literal (value : Nat)
  | var (name : String)
  | workItem (query : WorkItem) (dimension : Nat)
  | add (left right : Index)
  | sub (left right : Index)
  | mul (left right : Index)
  | div (left right : Index)
  | mod (left right : Index)
  | minimum (left right : Index)
  /-- Conversion to `unsigned int`. -/
  | narrow (index : Index)
deriving DecidableEq, Repr

inductive Condition where
  | less (left right : Index)
  | greater (left right : Index)
  | equal (left right : Index)
  | both (left right : Condition)
deriving DecidableEq, Repr

/-- What an assignment writes: a variable, or an element of an array. -/
inductive Place where
  | var (name : String)
  | element (array : String) (indices : List Index)
deriving DecidableEq, Repr

/-- Element, or vector of elements. -/
inductive Value where
  | literal (value : Nat)
  | read (place : Place)
  /-- `width` consecutive elements of `array`, from element `width * index` on. -/
  | load (width : Nat) (index : Index) (array : String)
  /-- One element of a vector variable. -/
  | lane (vector : String) (lane : Nat)
  | binary (operator : Arithmetic) (left right : Value)
  /-- `value` where the condition holds, zero elsewhere. -/
  | orZero (condition : Condition) (value : Value)
  /-- The same value in parentheses of its own. -/
  | group (value : Value)
deriving DecidableEq, Repr

/-- Type of a value: one element, or a vector when there are several lanes. -/
structure ValueType where
  element : ElementType
  lanes : Nat := 1
deriving DecidableEq, Repr

/-- Step without control flow. -/
inductive Instruction where
  | declareIndex (name : String) (value : Index)
  | declareValue (type : ValueType) (name : String) (value : Value)
  /-- An array without initial contents, shared by the work group when `shared`. -/
  | declareArray (shared : Bool) (element : ElementType) (name : String) (extents : List Index)
  | assign (place : Place) (value : Value)
  | accumulate (place : Place) (value : Value)
  /-- Writes `width` elements of `array`, from element `width * index` on. -/
  | store (width : Nat) (value : Value) (index : Index) (array : String)
  /-- Waits for the work group, with its local memory consistent afterwards. -/
  | barrier
deriving DecidableEq, Repr

/-- How a loop variable moves on. -/
inductive Stride where
  | increment
  | advance (distance : Index)
  | halve
deriving DecidableEq, Repr

/-- Head of a counting loop. -/
structure LoopHead where
  counter : String
  start : Index
  condition : Condition
  stride : Stride
deriving DecidableEq, Repr

inductive Statement where
  | run (instruction : Instruction)
  /-- The instruction stands on the line of its condition when `sameLine`. -/
  | guarded (condition : Condition) (instruction : Instruction) (sameLine : Bool)
  /-- Statements in braces of their own. -/
  | scope (body : List Statement)
  | loop (head : LoopHead) (body : List Statement)
  /-- Loop over one statement, without braces. -/
  | loopOver (head : LoopHead) (body : Statement)
  /-- Hint that the next loop be unrolled. -/
  | unroll (factor : Nat)

/-- Parameter of a kernel. -/
inductive Parameter where
  /-- A size, passed as `unsigned int`. -/
  | size (name : String)
  | pointer (readOnly : Bool) (element : ElementType) (name : String)
  | scalar (element : ElementType) (name : String)
deriving DecidableEq, Repr

end Kernel

/-- A kernel entry point. -/
structure Kernel where
  name : String
  parameters : List Kernel.Parameter
  body : List Kernel.Statement

end KernelTuner
