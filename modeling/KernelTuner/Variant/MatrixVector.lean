import KernelTuner.Launch
import KernelTuner.Shape
import KernelTuner.Variant.Check
import KernelTuner.Variant.Emission
import KernelTuner.Variant.RangeLoop

/-!
Contract: matrix-vector products as a batch of row or column reductions.

Owns: the parameters of the kernel, its text and its launch. Each work group owns
`localSize0` outputs at a time and folds every one of them across `localSize1`
work items.
-/

set_option autoImplicit false

namespace KernelTuner

structure MatrixVector where
  axis : Axis
  simdWidth : Nat
  localSize0 : Nat
  localSize1 : Nat
  groups0 : Nat
  fetch : Fetch
deriving DecidableEq, Repr

/-- Operator of the products that the axis stands for. -/
def Axis.operator : Axis → Operator
  | .rows => .matrixVectorRows
  | .columns => .matrixVectorColumns

namespace MatrixVector

structure Operands where
  out : Buffer
  matrix : Buffer
  x : Buffer

def check (params : MatrixVector) : Except Error MatrixVector := do
  checkSimdWidth params.simdWidth
  let _ ← checkedProduct "work group" [params.localSize0, params.localSize1]
  let _ ← checkedProduct "global size" [params.localSize0, params.groups0]
  return params

/-- Number of outputs and reduced length for a matrix. -/
def extents (axis : Axis) (rows columns : Nat) : Nat × Nat :=
  match axis with
  | .rows => (rows, columns)
  | .columns => (columns, rows)

/-- Checks that the vectors conform to the matrix. -/
def conforming (axis : Axis) (out matrix x : Buffer) : Except Error Operands := do
  checkExtent matrix
  checkExtent x
  checkExtent out
  let (outputs, inputs) := extents axis matrix.rows matrix.columns
  if x.length = inputs ∧ out.length = outputs then return ⟨out, matrix, x⟩
  else
    refuse (.matrixVectorSizes matrix.rows matrix.columns inputs outputs x.length out.length)

/-- The operands of a batch that assigns one product along `axis`. -/
def operands (axis : Axis) (batch : Batch) : Except Error Operands := do
  let expression ← batch.onlyExpression "matrix reduction"
  match expression.root.operator, expression.root.lhs, expression.root.rhs with
  | .assign, .buffer out, .node index =>
      match expression.node? index with
      | some product =>
          if product.operator = axis.operator then
            match product.lhs, product.rhs with
            | .buffer matrix, .buffer x =>
                if matrix.rank = 2 then conforming axis out matrix x
                else refuse .matrixVectorOperands
            | _, _ => refuse .matrixVectorOperands
          else refuse (.noMatrixVectorProduct axis)
      | none => refuse (.noMatrixVectorProduct axis)
  | _, _, _ => refuse .noMatrixVectorTarget

def sizes (params : MatrixVector) (batch : Batch) : Except Error Shape := do
  let operands ← operands params.axis batch
  return ⟨[Size.signed operands.matrix.rows, Size.signed operands.matrix.columns]⟩

def entry (index : Nat) : String := s!"gemv{index}"

open Kernel

/-- Name of the size that counts outputs. -/
def outerName : Axis → String
  | .rows => "M"
  | .columns => "N"

/-- Name of the size that is folded. -/
def innerName : Axis → String
  | .rows => "N"
  | .columns => "M"

/-- The matrix element that contributes entry `c` to output `r`. -/
def matrixElement (axis : Axis) : Value :=
  let row : Index := .var (match axis with | .rows => "r" | .columns => "c")
  let column : Index := .var (match axis with | .rows => "c" | .columns => "r")
  .read (.element "A" [.add (.mul row (.var "N")) column])

/-- Adds the product of the matrix element with an entry of the vector. -/
def addProduct (axis : Axis) (array : String) (index : Index) : Instruction :=
  .accumulate (.var "acc")
    (.binary .mul (matrixElement axis) (.read (.element array [index])))

/-- The work item's share of output `r`, added to `acc`. -/
def accumulation (params : MatrixVector) : List Statement :=
  let axis := params.axis
  let width : Index := .literal params.localSize1
  let lane : Index := .var "lid1"
  let c : Index := .var "c"
  let c0 : Index := .var "c0"
  let inner : Index := .var (innerName axis)
  let rowInside : Condition := .less (.var "r") (.var (outerName axis))
  match params.fetch with
  | .staged => [
      .loop ⟨"c0", .literal 0, .less c0 inner, .advance width⟩ [
        .run (.declareIndex "c" (.add c0 lane)),
        .run .barrier,
        .guarded (.both (.equal (.var "lid0") (.literal 0)) (.less c inner))
          (.assign (.element "xs" [lane]) (.read (.element "x" [c]))) false,
        .run .barrier,
        .guarded (.both rowInside (.less c inner)) (addProduct axis "xs" lane) false]]
  | .strided => [
      .loopOver ⟨"c", lane, .both rowInside (.less c inner), .advance width⟩
        (.run (addProduct axis "x" c))]
  | .contiguous => [
      .run (.declareIndex "chunk" (.div (.sub (.add inner width) (.literal 1)) width)),
      .run (.declareIndex "end"
        (.minimum (.mul (.add lane (.literal 1)) (.var "chunk")) (.narrow inner))),
      .loopOver
        ⟨"c", .mul lane (.var "chunk"), .both rowInside (.less c (.var "end")),
          .increment⟩
        (.run (addProduct axis "x" c))]

/-- The computation of the outputs from `r0` on. -/
def outputs (params : MatrixVector) (type : ElementType) : List Statement :=
  let cell (index : Index) : Place := .element "buf" [.var "lid0", index]
  let hints : List Statement := if 1 < params.simdWidth then [.unroll params.simdWidth] else []
  [.run (.declareIndex "r" (.add (.var "r0") (.var "lid0"))),
    .run (.declareValue ⟨type, 1⟩ "acc" (.literal 0))] ++
  hints ++
  params.accumulation ++
  [.run (.assign (cell (.var "lid1")) (.read (.var "acc")))] ++
  localFold "lid1" cell params.localSize1 ++
  [.guarded
    (.both (.equal (.var "lid1") (.literal 0))
      (.less (.var "r") (.var (outerName params.axis))))
    (.assign (.element "y" [.var "r"]) (.read (cell (.literal 0)))) false]

def kernel (params : MatrixVector) (index : Nat) (type : ElementType) : Kernel :=
  let block : Index := .literal params.localSize0
  let width : Index := .literal params.localSize1
  let staging : List Statement :=
    if params.fetch = .staged then [.run (.declareArray true type "xs" [width])] else []
  { name := entry index
    parameters := [.size "M", .size "N", .pointer false type "A", .pointer false type "x",
      .pointer false type "y"]
    body :=
      [.run (.declareArray true type "buf" [block, .add width (.literal 1)]),
        .run (.declareIndex "lid0" (.workItem .localId 0)),
        .run (.declareIndex "lid1" (.workItem .localId 1))] ++
      staging ++
      [.loop
        ⟨"r0", .mul (.workItem .groupId 0) block,
          .less (.var "r0") (.var (outerName params.axis)),
          .advance (.mul (.workItem .groupCount 0) block)⟩
        (params.outputs type)] }

def emit (params : MatrixVector) (index : Nat) (batch : Batch) : Except Error Emission := do
  let _ ← operands params.axis batch
  return { primary := [params.kernel index batch.elementType] }

def plan (params : MatrixVector) (index : Nat) (batch : Batch) : Except Error LaunchPlan := do
  let operands ← operands params.axis batch
  return {
    slot := .primary
    launches := [{
      kernel := entry index
      globalSize := [params.localSize0 * params.groups0, params.localSize1]
      localSize := [params.localSize0, params.localSize1]
      arguments := [.size operands.matrix.rows, .size operands.matrix.columns,
        .buffer operands.matrix.id, .buffer operands.x.id, .buffer operands.out.id] }] }

end MatrixVector

end KernelTuner
