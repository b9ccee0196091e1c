import KernelTuner.Axis
import KernelTuner.Expression.Node
import KernelTuner.Json.Decode
import KernelTuner.Operation

/-!
Contract: everything that can go wrong.

Owns: the causes of refusal, from a malformed expression to a failing backend,
and their wording. A cause is data; only `message` turns it into text.

A `Fault` is not a refusal. It marks arithmetic that has no result, and a
computation that meets one stops there.
-/

set_option autoImplicit false

namespace KernelTuner

/-- Why a regression tree is refused. -/
inductive TreeError where
  | noNodes
  | lengthsDiffer (nodes : Nat) (others : List Nat)
  | leafWithoutCosts (node : Nat)
  | leafWidth (node costs expected : Nat)
  | childOutside (node : Nat) (child : Int) (nodes : Nat)
  | negativeFeature (node : Nat) (feature : Int)
  | noLeaves
deriving DecidableEq, Repr

def TreeError.message : TreeError → String
  | .noNodes => "tree has no nodes"
  | .lengthsDiffer nodes others =>
      s!"node arrays disagree on length: {nodes} vs " ++ Buffer.listed others
  | .leafWithoutCosts node => s!"leaf {node} has no costs"
  | .leafWidth node costs expected => s!"leaf {node} holds {costs} costs, expected {expected}"
  | .childOutside node child nodes =>
      s!"node {node} has child {child} outside {node + 1}..{nodes}"
  | .negativeFeature node feature => s!"node {node} splits on feature {feature}"
  | .noLeaves => "tree has no leaves"

/-- Why an argument is refused. -/
inductive InvalidArgument where
  -- expressions and batches
  | rootNotLast (last : Nat) (root : Operand)
  | laterNode (node child : Nat)
  | foreignBuffer (buffer : BufferId) (home expected : ContextId)
  | emptyBatch
  | mixedContexts (first stray : ContextId)
  -- parameters of variants
  | profileLength (operation : Operation) (found : Nat)
  | sizeOutside (quantity : String) (value : Int)
  | fetchIndex (index : Int)
  | productTooLarge (quantity : String) (factors : List Nat)
  | simdWidth (found : Nat)
  | tileStep (tile step : Nat)
  | fetchLayout (fetch group : Nat × Nat)
  -- batches that a kernel cannot run
  | severalExpressions (kernels : String) (count : Nat)
  | noVectorTarget
  | lengthsDiffer (expected found : Nat)
  | noMatrixTarget
  | extentsDiffer (expected found : Nat × Nat)
  | noElementTarget
  | notElementWise (operator : Operator)
  | missingOperand
  | unboundBuffer (buffer : BufferId)
  | unboundScalar
  | noReductionTarget
  | noInnerProduct
  | innerProductOperands
  | noMatrixVectorTarget
  | noMatrixVectorProduct (axis : Axis)
  | matrixVectorOperands
  | matrixVectorSizes (rows columns inputs outputs foundInputs foundOutputs : Nat)
  | noMatrixProductTarget
  | noMatrixProduct
  | matrixProductLeft
  | matrixProductRight
  | transposition (found expected : Bool × Bool)
  | matrixProductOperands
  | matrixProductSizes (left right target : Nat × Nat)
  -- models and programs
  | noVariants
  | needlessPredictor
  | predictorWidth (scored variants : Nat)
  | costCount (costs variants : Nat)
  | noSuchSlot (slot : Nat) (fingerprint : String)
  -- predictors
  | malformedPredictor (cause : Json.DecodeError)
  | tree (position : Nat) (cause : TreeError)
  | noTrees
  | treeWidth (position costs expected : Nat)
  -- model descriptions
  | notKeyedByOperation
  | unknownOperation (name : String)
  | notKeyedByType (operation : String)
  | unknownType (operation name : String)
  | malformedEntry (cause : Json.DecodeError)
  | noProfiles
  | noPredictor (profiles : Nat)
  /-- A cause met while reading the entry of this name. -/
  | inEntry (entry : String) (cause : InvalidArgument)

/-- `(8, 4)` -/
def shownPair (pair : Nat × Nat) : String := s!"({pair.1}, {pair.2})"

/-- `(true, false)` -/
def shownFlags (flags : Bool × Bool) : String := s!"({flags.1}, {flags.2})"

/-- `8x4` -/
def byPair (pair : Nat × Nat) : String := s!"{pair.1}x{pair.2}"

namespace InvalidArgument

def message : InvalidArgument → String
  | rootNotLast last root =>
      s!"expression root must be the last node ({last}), got " ++ root.shown
  | laterNode node child =>
      s!"node {node} refers to node {child}, which is not built before it"
  | foreignBuffer buffer home expected =>
      "buffer " ++ buffer.field ++ " lives on " ++ home.display ++
        ", expression is built on " ++ expected.display
  | emptyBatch => "expression batch must not be empty"
  | mixedContexts first stray =>
      "expression batch mixes " ++ first.display ++ " and " ++ stray.display
  | profileLength operation found =>
      operation.display ++ s!" profiles take {operation.profileArity} integers, got {found}"
  | sizeOutside quantity value =>
      quantity ++ s!" must be in 1..={Size.kernelLimit}, got {value}"
  | fetchIndex index => s!"fetch policy index {index} is out of range 0..3"
  | productTooLarge quantity factors =>
      quantity ++ " " ++ Buffer.listed factors ++ s!" exceeds {Size.kernelLimit}"
  | simdWidth found => s!"simd width must be one of [1, 2, 4, 8, 16], got {found}"
  | tileStep tile step => s!"k tile {tile} is not a multiple of the per-item k step {step}"
  | fetchLayout fetch group =>
      "local fetch layout " ++ byPair fetch ++ " does not cover the " ++ byPair group ++
        " work group"
  | severalExpressions kernels count =>
      kernels ++ s!" kernels take a single expression, got {count}"
  | noVectorTarget => "vaxpy expressions must assign to a device buffer"
  | lengthsDiffer expected found =>
      s!"fused vaxpy expressions disagree on length: {expected} vs {found}"
  | noMatrixTarget => "maxpy expressions must assign to a device matrix"
  | extentsDiffer expected found =>
      "fused maxpy expressions disagree on shape: " ++ shownPair expected ++ " vs " ++
        shownPair found
  | noElementTarget => "element-wise expressions must assign to a device buffer"
  | notElementWise operator => "element-wise kernels cannot evaluate " ++ operator.label
  | missingOperand => "element-wise node is missing an operand"
  | unboundBuffer buffer => "buffer " ++ buffer.field ++ " is not bound"
  | unboundScalar => "host scalar is not bound"
  | noReductionTarget =>
      "reduction expressions must assign an inner product to a device scalar"
  | noInnerProduct => "reduction expression has no inner product"
  | innerProductOperands => "inner product operands must be device vectors of equal length"
  | noMatrixVectorTarget =>
      "matrix reductions must assign a matrix-vector product to a device vector"
  | noMatrixVectorProduct axis =>
      "expression is not a " ++ axis.label ++ " matrix-vector product"
  | matrixVectorOperands =>
      "matrix-vector product operands must be a device matrix and a device vector"
  | matrixVectorSizes rows columns inputs outputs foundInputs foundOutputs =>
      s!"matrix-vector product of {rows}x{columns} expects {inputs} inputs and {outputs} outputs" ++
        s!", got {foundInputs} and {foundOutputs}"
  | noMatrixProductTarget => "matrix products must assign to a device matrix"
  | noMatrixProduct => "expression has no matrix product"
  | matrixProductLeft => "matrix product lhs is not a device matrix"
  | matrixProductRight => "matrix product rhs is not a device matrix"
  | transposition found expected =>
      "expression transposition " ++ shownFlags found ++ " does not match the kernel's " ++
        shownFlags expected
  | matrixProductOperands => "matrix product operands must be matrices"
  | matrixProductSizes left right target =>
      "cannot multiply " ++ byPair left ++ " by " ++ byPair right ++ " into " ++ byPair target
  | noVariants => "a selection model needs at least one variant"
  | needlessPredictor => "single-variant models never consult a predictor"
  | predictorWidth scored variants =>
      s!"predictor scores {scored} variants, the model has {variants}"
  | costCount costs variants => s!"predictor returned {costs} costs for {variants} variants"
  | noSuchSlot slot fingerprint => s!"program slot {slot} does not exist for {fingerprint}"
  | malformedPredictor cause => "malformed predictor description: " ++ cause.message
  | tree position cause => s!"predictor tree {position}: " ++ cause.message
  | noTrees => "predictor forest has no trees"
  | treeWidth position costs expected =>
      s!"predictor tree {position} predicts {costs} costs, tree 0 predicts {expected}"
  | notKeyedByOperation => "model description must be an object keyed by operation name"
  | unknownOperation name => "unknown operation \"" ++ name ++ "\""
  | notKeyedByType operation => operation ++ ": expected an object keyed by data type"
  | unknownType operation name => operation ++ ": unknown data type \"" ++ name ++ "\""
  | malformedEntry cause => cause.message
  | noProfiles => "no profiles listed"
  | noPredictor profiles => s!"{profiles} profiles listed without a predictor"
  | inEntry entry cause => entry ++ ": " ++ cause.message

end InvalidArgument

/-- Why a file could not be read as text. -/
inductive ReadError where
  | notFound
  | isDirectory
  /-- The path goes on after a file. -/
  | notDirectory
  | nameTooLong
  /-- The path holds the character NUL. -/
  | malformedPath
  /-- The content is not UTF-8. -/
  | notText
deriving DecidableEq, Repr

def ReadError.message : ReadError → String
  | notFound => "no such file"
  | isDirectory => "is a directory"
  | notDirectory => "not a directory"
  | nameTooLong => "name is too long"
  | malformedPath => "path holds a NUL"
  | notText => "content is not UTF-8"

/-- Failure that a compute backend reports. -/
inductive BackendError where
  | compilation (program log : String)
  | unsupported (operation reason : String)
  | execution (message : String)
deriving DecidableEq, Repr

def BackendError.message : BackendError → String
  | compilation program log => "failed to compile program " ++ program ++ ": " ++ log
  | unsupported operation reason => operation ++ " is not supported: " ++ reason
  | execution message => "backend execution failure: " ++ message

/-- Arithmetic without a result. -/
inductive Fault where
  | divisionByZero
  | indexOverflow
  | indexOutOfRange
deriving DecidableEq, Repr

def Fault.message : Fault → String
  | divisionByZero => "division by zero"
  | indexOverflow => "index arithmetic left the machine word"
  | indexOutOfRange => "index out of range"

/-- Failure of an operation of this library. -/
inductive Error where
  | invalidArgument (cause : InvalidArgument)
  | modelNotFound (operation : Operation) (elementType : ElementType)
  | contextMismatch (expected found : ContextId)
  | fingerprintOverflow (limit : Nat)
  | unreadable (path : String) (cause : ReadError)
  /-- A model description that is not JSON. -/
  | malformedJson
  | backend (cause : BackendError)
  | fault (cause : Fault)

namespace Error

def message : Error → String
  | invalidArgument cause => "invalid argument: " ++ cause.message
  | modelNotFound operation elementType =>
      "no selection model registered for " ++ operation.display ++ " / " ++
        elementType.kernelName
  | contextMismatch expected found =>
      "expression batch belongs to " ++ found.display ++
        ", but the model is bound to a queue on " ++ expected.display
  | fingerprintOverflow limit => s!"structural fingerprint exceeds {limit} characters"
  | unreadable path cause =>
      "failed to read model description " ++ path ++ ": " ++ cause.message
  | malformedJson => "malformed model description"
  | backend cause => cause.message
  | fault cause => cause.message

def isInvalidArgument : Error → Bool
  | invalidArgument _ => true
  | _ => false

end Error

/-- Stops with a refused argument. -/
def refuse {α : Type} (cause : InvalidArgument) : Except Error α :=
  .error (.invalidArgument cause)

end KernelTuner
