import KernelTuner.Launch
import KernelTuner.Shape
import KernelTuner.Variant.Check
import KernelTuner.Variant.Emission
import KernelTuner.Variant.RangeLoop

/-!
Contract: inner products in two passes.

Owns: the parameters of the two kernels, their text and their launches. The first
pass leaves one partial sum per work group in the workspace, and the second lets a
single group fold those partial sums.
-/

set_option autoImplicit false

namespace KernelTuner

structure InnerProduct where
  simdWidth : Nat
  localSize0 : Nat
  groups0 : Nat
  fetch : Fetch
deriving DecidableEq, Repr

namespace InnerProduct

structure Operands where
  out : Buffer
  x : Buffer
  y : Buffer

def check (params : InnerProduct) : Except Error InnerProduct := do
  checkSimdWidth params.simdWidth
  let _ ← checkedProduct "global size" [params.localSize0, params.groups0]
  return params

/-- The operands of a batch that assigns one inner product. -/
def operands (batch : Batch) : Except Error Operands := do
  let expression ← batch.onlyExpression "reduction"
  match expression.root.operator, expression.root.lhs, expression.root.rhs with
  | .assign, .buffer out, .node index =>
      match expression.node? index with
      | some ⟨lhs, .innerProduct, rhs⟩ =>
          match lhs, rhs with
          | .buffer x, .buffer y =>
              if x.dims = y.dims then do
                checkExtent x
                return ⟨out, x, y⟩
              else refuse .innerProductOperands
          | _, _ => refuse .innerProductOperands
      | _ => refuse .noInnerProduct
  | _, _, _ => refuse .noReductionTarget

def sizes (batch : Batch) : Except Error Shape := do
  let operands ← operands batch
  return ⟨[Size.signed operands.x.length]⟩

def firstEntry (index : Nat) : String := s!"dot{index}_0"

def secondEntry (index : Nat) : String := s!"dot{index}_1"

open Kernel

/-- A variable, read as a value. -/
def read (name : String) : Value := .read (.var name)

/-- Element `index` of an array, read as a value. -/
def element (array : String) (index : Index) : Value := .read (.element array [index])

/-- The sum of the lanes of `vacc`, from the first on. -/
def laneSum (width : Nat) : Value :=
  (List.range' 1 (width - 1)).foldl
    (fun sum lane => .binary .add sum (.lane "vacc" lane)) (.lane "vacc" 0)

/-- Declarations that both kernels start with. -/
def preamble (element : ElementType) (localSize : Nat) : List Statement := [
  .run (.declareArray true element "buf" [.literal localSize]),
  .run (.declareIndex "lid" (.workItem .localId 0)),
  .run (.declareValue ⟨element, 1⟩ "acc" (.literal 0))]

/-- The work group's sum of `acc`, stored by its first work item. -/
def groupSum (localSize : Nat) (target : Place) : List Statement :=
  [.run (.assign (.element "buf" [.var "lid"]) (read "acc"))] ++
    localFold "lid" (fun index => .element "buf" [index]) localSize ++
    [.guarded (.equal (.var "lid") (.literal 0))
      (.assign target (element "buf" (.literal 0))) false]

/-- The work item's share of the products, added to `acc`. -/
def accumulation (params : InnerProduct) (type : ElementType) : List Statement :=
  let index : Index := .var "i"
  let product := Statement.run
    (.accumulate (.var "acc") (.binary .mul (element "x" index) (element "y" index)))
  if 1 < params.simdWidth then
    let width := params.simdWidth
    [.run (.declareValue ⟨type, width⟩ "vacc" (.literal 0)),
      rangeLoop params.fetch "i" (.div (.var "N") (.literal width)) 0 [
        .run (.accumulate (.var "vacc")
          (.binary .mul (.load width index "x") (.load width index "y")))],
      .run (.accumulate (.var "acc") (laneSum width)),
      tailLoop width [product]]
  else [rangeLoop params.fetch "i" (.var "N") 0 [product]]

def firstPass (params : InnerProduct) (index : Nat) (type : ElementType) : Kernel where
  name := firstEntry index
  parameters := [.size "N", .pointer false type "x", .pointer false type "y",
    .pointer false type "partials"]
  body := preamble type params.localSize0 ++ params.accumulation type ++
    groupSum params.localSize0 (.element "partials" [.workItem .groupId 0])

def secondPass (params : InnerProduct) (index : Nat) (type : ElementType) : Kernel where
  name := secondEntry index
  parameters := [.size "G", .pointer false type "partials", .pointer false type "out"]
  body := preamble type params.localSize0 ++
    [.loop
      ⟨"i", .var "lid", .less (.var "i") (.var "G"),
        .advance (.literal params.localSize0)⟩
      [.run (.accumulate (.var "acc") (element "partials" (.var "i")))]] ++
    groupSum params.localSize0 (.element "out" [.literal 0])

def emit (params : InnerProduct) (index : Nat) (batch : Batch) : Except Error Emission := do
  let _ ← operands batch
  let type := batch.elementType
  return { primary := [params.firstPass index type, params.secondPass index type] }

/-- Bytes of one partial sum per work group. -/
def partialsBytes (params : InnerProduct) (type : ElementType) : Nat :=
  Size.word (params.groups0 * type.bytes)

def plan (params : InnerProduct) (index : Nat) (batch : Batch) : Except Error LaunchPlan := do
  let operands ← operands batch
  let partials : Argument := .workspace 0 (params.partialsBytes batch.elementType)
  return {
    slot := .primary
    launches := [
      { kernel := firstEntry index
        globalSize := [params.localSize0 * params.groups0]
        localSize := [params.localSize0]
        arguments := [.size operands.x.length, .buffer operands.x.id, .buffer operands.y.id,
          partials] },
      { kernel := secondEntry index
        globalSize := [params.localSize0]
        localSize := [params.localSize0]
        arguments := [.size params.groups0, partials, .buffer operands.out.id] }] }

end InnerProduct

end KernelTuner
