import KernelTuner.Expression.Walk
import KernelTuner.Launch
import KernelTuner.Shape
import KernelTuner.Variant.Check
import KernelTuner.Variant.Emission
import KernelTuner.Variant.RangeLoop

/-!
Contract: tiled matrix products.

Owns: the tiling parameters, the operands of a product, the two kernels and their
launch. A work group computes a block of `localSize0 * perItemM` rows and
`localSize1 * perItemN` columns of the output and walks `K` in steps of `tileK`.

The primary kernel assumes that all tiles are full. The fallback kernel guards
every access and runs on sizes rounded up to full tiles.
-/

set_option autoImplicit false

namespace KernelTuner

structure MatrixProduct where
  transposedA : Bool
  transposedB : Bool
  simdWidth : Nat
  localSize0 : Nat
  tileK : Nat
  localSize1 : Nat
  perItemM : Nat
  perItemK : Nat
  perItemN : Nat
  fetchA : Fetch
  fetchB : Fetch
  /-- Layout of the work group while it copies tiles to local memory. -/
  localFetch0 : Nat
  localFetch1 : Nat
deriving DecidableEq, Repr

namespace MatrixProduct

/-- Rows of the output that a work group computes. -/
def tileM (params : MatrixProduct) : Nat := params.localSize0 * params.perItemM

/-- Columns of the output that a work group computes. -/
def tileN (params : MatrixProduct) : Nat := params.localSize1 * params.perItemN

/-- Whether some operand goes through local memory. -/
def staged (params : MatrixProduct) : Bool :=
  params.fetchA = .staged || params.fetchB = .staged

def check (params : MatrixProduct) : Except Error MatrixProduct := do
  checkSimdWidth params.simdWidth
  let remainder ← checkedRemainder params.tileK params.perItemK
  if remainder ≠ 0 then refuse (.tileStep params.tileK params.perItemK)
  let _ ← checkedProduct "m tile" [params.localSize0, params.perItemM]
  let _ ← checkedProduct "n tile" [params.localSize1, params.perItemN]
  let group ← checkedProduct "work group" [params.localSize0, params.localSize1]
  let fetch ← checkedProduct "local fetch layout" [params.localFetch0, params.localFetch1]
  if params.staged ∧ fetch ≠ group then
    refuse (.fetchLayout (params.localFetch0, params.localFetch1)
      (params.localSize0, params.localSize1))
  return params

/-- Buffers and sizes of a product `C = op(A) op(B)`: `op(A)` has `m` rows and `k`
columns, `op(B)` has `k` rows and `n` columns. -/
structure Operands where
  c : Buffer
  a : Buffer
  b : Buffer
  m : Nat
  n : Nat
  k : Nat

/-- Rows and columns of a matrix as it is read. -/
def readDims (buffer : Buffer) (transposed : Bool) : Nat × Nat :=
  if transposed then (buffer.columns, buffer.rows) else (buffer.rows, buffer.columns)

/-- Checks that the matrices conform. -/
def conforming (c a b : Buffer) (transposedA transposedB : Bool) : Except Error Operands := do
  if c.rank ≠ 2 ∨ a.rank ≠ 2 ∨ b.rank ≠ 2 then refuse .matrixProductOperands
  checkExtent c
  checkExtent a
  checkExtent b
  let (rowsA, columnsA) := readDims a transposedA
  let (rowsB, columnsB) := readDims b transposedB
  if rowsA = c.rows ∧ columnsB = c.columns ∧ rowsB = columnsA then
    return ⟨c, a, b, c.rows, c.columns, columnsA⟩
  else
    refuse (.matrixProductSizes (rowsA, columnsA) (rowsB, columnsB) (c.rows, c.columns))

/-- The operands of a batch that assigns one product with these transpositions. -/
def operands (params : MatrixProduct) (batch : Batch) : Except Error Operands := do
  let expression ← batch.onlyExpression "matrix product"
  match expression.root.operator, expression.root.lhs, expression.root.rhs with
  | .assign, .buffer c, .node index =>
      match expression.node? index with
      | some ⟨lhs, .matrixProduct, rhs⟩ =>
          match expression.bufferOperand? lhs with
          | none => refuse .matrixProductLeft
          | some (a, transposedA) =>
              match expression.bufferOperand? rhs with
              | none => refuse .matrixProductRight
              | some (b, transposedB) =>
                  if (transposedA, transposedB) = (params.transposedA, params.transposedB) then
                    conforming c a b transposedA transposedB
                  else
                    refuse (.transposition (transposedA, transposedB)
                      (params.transposedA, params.transposedB))
      | _ => refuse .noMatrixProduct
  | _, _, _ => refuse .noMatrixProductTarget

def sizes (params : MatrixProduct) (batch : Batch) : Except Error Shape := do
  let operands ← params.operands batch
  return ⟨[Size.signed operands.m, Size.signed operands.n, Size.signed operands.k]⟩

/-- Whether a product of these sizes has partial tiles. -/
def needsFallback (params : MatrixProduct) (m n k : Nat) : Except Error Bool := do
  if (← checkedRemainder m params.tileM) ≠ 0 then return true
  if (← checkedRemainder n params.tileN) ≠ 0 then return true
  return (← checkedRemainder k params.tileK) ≠ 0

def primaryEntry (index : Nat) : String := s!"gemm{index}"

def fallbackEntry (index : Nat) : String := s!"gemm{index}_fb"

open Kernel

/-- Element of `A` for a row of `op(A)` and a step along `K`. -/
def elementA (params : MatrixProduct) (row step : Index) : Value :=
  .read (.element "A" [
    if params.transposedA then .add (.mul step (.var "M")) row
    else .add (.mul row (.var "K")) step])

/-- Element of `B` for a step along `K` and a column of `op(B)`. -/
def elementB (params : MatrixProduct) (step column : Index) : Value :=
  .read (.element "B" [
    if params.transposedB then .add (.mul column (.var "K")) step
    else .add (.mul step (.var "N")) column])

/-- `value`, or zero past the edges when the kernel is guarded. -/
def guardedValue (guarded : Bool) (position : Index) (extent : String) (step : Index)
    (value : Value) : Value :=
  if guarded then
    .group (.orZero (.both (.less position (.var extent)) (.less step (.var "K"))) value)
  else value

/-- Row of the block in the output, for a row of the tile. -/
def blockRow (row : String) : Index := .add (.var "row0") (.var row)

/-- Column of the block in the output, for a column of the tile. -/
def blockColumn (column : String) : Index := .add (.var "col0") (.var column)

/-- Place along `K`, for a place in the tile. -/
def blockStep (step : String) : Index := .add (.var "k0") (.var step)

/-- Loop of `counter` from `start` in steps of `distance` below `count`. -/
def strideLoop (counter start : String) (count distance : Nat) (body : Statement) : Statement :=
  .loopOver ⟨counter, .var start, .less (.var counter) (.literal count),
    .advance (.literal distance)⟩ body

/-- Head of a loop of `counter` over `0 .. count`. -/
def countTo (counter : String) (count : Nat) : LoopHead :=
  ⟨counter, .literal 0, .less (.var counter) (.literal count), .increment⟩

/-- Copies the tile of `A` to local memory. -/
def stageA (params : MatrixProduct) (guarded : Bool) : Statement :=
  strideLoop "sk" "fj" params.tileK params.localFetch1 <|
    strideLoop "sm" "fi" params.tileM params.localFetch0 <|
      .run (.assign (.element "As" [.var "sk", .var "sm"])
        (guardedValue guarded (blockRow "sm") "M" (blockStep "sk")
          (params.elementA (blockRow "sm") (blockStep "sk"))))

/-- Copies the tile of `B` to local memory. -/
def stageB (params : MatrixProduct) (guarded : Bool) : Statement :=
  strideLoop "sk" "fj" params.tileK params.localFetch1 <|
    strideLoop "sn" "fi" params.tileN params.localFetch0 <|
      .run (.assign (.element "Bs" [.var "sk", .var "sn"])
        (guardedValue guarded (blockColumn "sn") "N" (blockStep "sk")
          (params.elementB (blockStep "sk") (blockColumn "sn"))))

/-- The factor from `op(A)` at tile row `lr`. -/
def factorA (params : MatrixProduct) (guarded : Bool) : Value :=
  if params.fetchA = .staged then .read (.element "As" [.var "kk", .var "lr"])
  else
    guardedValue guarded (blockRow "lr") "M" (blockStep "kk")
      (params.elementA (blockRow "lr") (blockStep "kk"))

/-- The factor from `op(B)` at tile column `lc`. -/
def factorB (params : MatrixProduct) (guarded : Bool) : Value :=
  if params.fetchB = .staged then .read (.element "Bs" [.var "kk", .var "lc"])
  else
    guardedValue guarded (blockColumn "lc") "N" (blockStep "kk")
      (params.elementB (blockStep "kk") (blockColumn "lc"))

def accumulator : Place := .element "acc" [.var "mm", .var "nn"]

/-- Work item index, accumulators and local tiles. -/
def preamble (params : MatrixProduct) (type : ElementType) : List Statement :=
  let groupIndex : Index := .add (.mul (.var "lid0") (.literal params.localSize1)) (.var "lid1")
  [.run (.declareIndex "lid0" (.workItem .localId 0)),
    .run (.declareIndex "lid1" (.workItem .localId 1)),
    .run (.declareIndex "row0" (.mul (.workItem .groupId 0) (.literal params.tileM))),
    .run (.declareIndex "col0" (.mul (.workItem .groupId 1) (.literal params.tileN))),
    .run (.declareArray false type "acc" [.literal params.perItemM, .literal params.perItemN]),
    .loopOver (countTo "mm" params.perItemM) <|
      .loopOver (countTo "nn" params.perItemN) <| .run (.assign accumulator (.literal 0))] ++
  (if params.fetchA = .staged then
    [.run (.declareArray true type "As"
      [.literal params.tileK, .add (.literal params.tileM) (.literal 1)])]
  else []) ++
  (if params.fetchB = .staged then
    [.run (.declareArray true type "Bs"
      [.literal params.tileK, .add (.literal params.tileN) (.literal 1)])]
  else []) ++
  (if params.staged then
    [.run (.declareIndex "fi" (.mod groupIndex (.literal params.localFetch0))),
      .run (.declareIndex "fj" (.div groupIndex (.literal params.localFetch0)))]
  else [])

/-- The products of one tile along `K`, added to the accumulators. -/
def tileProduct (params : MatrixProduct) (guarded : Bool) (type : ElementType) :
    List Statement :=
  let barrier : List Statement := if params.staged then [.run .barrier] else []
  barrier ++
  (if params.fetchA = .staged then [params.stageA guarded] else []) ++
  (if params.fetchB = .staged then [params.stageB guarded] else []) ++
  barrier ++
  [.unroll params.perItemK,
    .loop (countTo "kk" params.tileK) [
      .loop (countTo "mm" params.perItemM) [
        .run (.declareIndex "lr"
          (.add (.var "lid0") (.mul (.var "mm") (.literal params.localSize0)))),
        .run (.declareValue ⟨type, 1⟩ "a" (params.factorA guarded)),
        .unroll params.simdWidth,
        .loop (countTo "nn" params.perItemN) [
          .run (.declareIndex "lc"
            (.add (.var "lid1") (.mul (.var "nn") (.literal params.localSize1)))),
          .run (.accumulate accumulator
            (.binary .mul (.read (.var "a")) (params.factorB guarded)))]]]]

/-- Writes the accumulators to the output. -/
def store (params : MatrixProduct) (guarded : Bool) : Statement :=
  let write : Instruction :=
    .assign (.element "C" [.add (.mul (.var "r") (.var "N")) (.var "c")]) (.read accumulator)
  .loopOver (countTo "mm" params.perItemM) <|
    .loop (countTo "nn" params.perItemN) [
      .run (.declareIndex "r" (.add (.add (.var "row0") (.var "lid0"))
        (.mul (.var "mm") (.literal params.localSize0)))),
      .run (.declareIndex "c" (.add (.add (.var "col0") (.var "lid1"))
        (.mul (.var "nn") (.literal params.localSize1)))),
      if guarded then
        .guarded (.both (.less (.var "r") (.var "M")) (.less (.var "c") (.var "N"))) write true
      else .run write]

def kernel (params : MatrixProduct) (name : String) (guarded : Bool) (type : ElementType) :
    Kernel where
  name := name
  parameters := [.size "M", .size "N", .size "K", .pointer false type "C",
    .pointer true type "A", .pointer true type "B"]
  body :=
    params.preamble type ++
    [.loop ⟨"k0", .literal 0, .less (.var "k0") (.var "K"), .advance (.literal params.tileK)⟩
      (params.tileProduct guarded type),
      params.store guarded]

def emit (params : MatrixProduct) (index : Nat) (batch : Batch) : Except Error Emission := do
  let _ ← params.operands batch
  let type := batch.elementType
  return {
    primary := [params.kernel (primaryEntry index) false type]
    fallback := some [params.kernel (fallbackEntry index) true type] }

/-- Slot, entry and rounded sizes of a launch. -/
def path (params : MatrixProduct) (index m n k : Nat) :
    Except Error (Slot × String × Nat × Nat) := do
  if ← params.needsFallback m n k then
    return (.fallback, fallbackEntry index, ← checkedRoundUp m params.tileM,
      ← checkedRoundUp n params.tileN)
  else return (.primary, primaryEntry index, m, n)

def plan (params : MatrixProduct) (index : Nat) (batch : Batch) : Except Error LaunchPlan := do
  let operands ← params.operands batch
  let (slot, entry, rows, columns) ← params.path index operands.m operands.n operands.k
  return {
    slot
    launches := [{
      kernel := entry
      globalSize := [rows / params.perItemM, columns / params.perItemN]
      localSize := [params.localSize0, params.localSize1]
      arguments := [.size operands.m, .size operands.n, .size operands.k,
        .buffer operands.c.id, .buffer operands.a.id, .buffer operands.b.id] }] }

end MatrixProduct

end KernelTuner
