import KernelTuner.Shape
import KernelTuner.Variant.ElementWise
import KernelTuner.Variant.Emission
import KernelTuner.Variant.RangeLoop

/-!
Contract: element-wise updates of row-major matrices.

Owns: the parameters of the kernel, its text and its launch over a range of two
dimensions.
-/

set_option autoImplicit false

namespace KernelTuner

structure MatrixUpdate where
  simdWidth : Nat
  localSize0 : Nat
  localSize1 : Nat
  groups0 : Nat
  groups1 : Nat
  fetch : Fetch
deriving DecidableEq, Repr

namespace MatrixUpdate

def check (params : MatrixUpdate) : Except Error MatrixUpdate := do
  checkSimdWidth params.simdWidth
  let _ ← checkedProduct "work group" [params.localSize0, params.localSize1]
  let _ ← checkedProduct "global size 0" [params.localSize0, params.groups0]
  let _ ← checkedProduct "global size 1" [params.localSize1, params.groups1]
  return params

/-- Rows and columns of the matrix that an expression assigns. -/
def targetDims (expression : Expression) : Except Error (Nat × Nat) :=
  match expression.assigned? with
  | some target =>
      if target.rank = 2 then do
        checkExtent target
        return (target.rows, target.columns)
      else refuse .noMatrixTarget
  | none => refuse .noMatrixTarget

/-- Checks that the targets of `expressions` have these rows and columns. -/
def checkDims (dims : Nat × Nat) : List Expression → Except Error Unit
  | [] => .ok ()
  | expression :: rest => do
      let found ← targetDims expression
      if dims ≠ found then refuse (.extentsDiffer dims found)
      else checkDims dims rest

/-- The common rows and columns of all targets. -/
def dims (batch : Batch) : Except Error (Nat × Nat) := do
  let dims ← targetDims batch.first
  checkDims dims batch.rest
  return dims

def sizes (batch : Batch) : Except Error Shape := do
  let (rows, columns) ← dims batch
  return ⟨[Size.signed rows, Size.signed columns]⟩

def entry (index : Nat) : String := s!"maxpy{index}"

open Kernel in
def emit (params : MatrixUpdate) (index : Nat) (batch : Batch) : Except Error Emission := do
  let bindings := Bindings.collect batch
  let element : Index := .add (.mul (.var "i") (.var "N")) (.var "j")
  let statements ← bindings.statements batch (.element element)
  let columns := rangeLoop params.fetch "j" (.var "N") 1 statements
  let hints : List Statement := if 1 < params.simdWidth then [.unroll params.simdWidth] else []
  return {
    primary := [{
      name := entry index
      parameters := .size "M" :: .size "N" :: bindings.declarations
      body := [rangeLoop params.fetch "i" (.var "M") 0 (hints ++ [columns])] }] }

def plan (params : MatrixUpdate) (index : Nat) (batch : Batch) : Except Error LaunchPlan := do
  let (rows, columns) ← dims batch
  return {
    slot := .primary
    launches := [{
      kernel := entry index
      globalSize := [params.localSize0 * params.groups0, params.localSize1 * params.groups1]
      localSize := [params.localSize0, params.localSize1]
      arguments := .size rows :: .size columns :: (Bindings.collect batch).arguments }] }

end MatrixUpdate

end KernelTuner
