import KernelTuner.Shape
import KernelTuner.Variant.ElementWise
import KernelTuner.Variant.Emission
import KernelTuner.Variant.RangeLoop

/-!
Contract: element-wise updates of vectors and single values.

Owns: the parameters of the kernel, its text and its launch. Independent batches
fuse into one kernel. With a vector width above one, a vector loop covers
`N / width` indices and a scalar tail the rest.
-/

set_option autoImplicit false

namespace KernelTuner

structure VectorUpdate where
  simdWidth : Nat
  localSize0 : Nat
  groups0 : Nat
  fetch : Fetch
deriving DecidableEq, Repr

namespace VectorUpdate

def check (params : VectorUpdate) : Except Error VectorUpdate := do
  checkSimdWidth params.simdWidth
  let _ ← checkedProduct "global size" [params.localSize0, params.groups0]
  return params

/-- The length of the buffer that an expression assigns. -/
def targetLength (expression : Expression) : Except Error Nat :=
  match expression.assigned? with
  | none => refuse .noVectorTarget
  | some target => do
      checkExtent target
      return target.length

/-- Checks that the targets of `expressions` have `length` elements. -/
def checkLengths (length : Nat) : List Expression → Except Error Unit
  | [] => .ok ()
  | expression :: rest => do
      let found ← targetLength expression
      if length ≠ found then refuse (.lengthsDiffer length found)
      else checkLengths length rest

/-- The common length of all targets. -/
def length (batch : Batch) : Except Error Nat := do
  let length ← targetLength batch.first
  checkLengths length batch.rest
  return length

def sizes (batch : Batch) : Except Error Shape := do
  return ⟨[Size.signed (← length batch)]⟩

def entry (index : Nat) : String := s!"axpy{index}"

open Kernel in
def emit (params : VectorUpdate) (index : Nat) (batch : Batch) : Except Error Emission := do
  let bindings := Bindings.collect batch
  let scalar ← bindings.statements batch (.element (.var "i"))
  let count : Index := .var "N"
  let body ←
    if 1 < params.simdWidth then do
      let vector ← bindings.statements batch (.vector params.simdWidth)
      pure [
        rangeLoop params.fetch "i" (.div count (.literal params.simdWidth)) 0 vector,
        tailLoop params.simdWidth scalar]
    else pure [rangeLoop params.fetch "i" count 0 scalar]
  return {
    primary := [{
      name := entry index
      parameters := .size "N" :: bindings.declarations
      body }] }

def plan (params : VectorUpdate) (index : Nat) (batch : Batch) : Except Error LaunchPlan := do
  let length ← length batch
  return {
    slot := .primary
    launches := [{
      kernel := entry index
      globalSize := [params.localSize0 * params.groups0]
      localSize := [params.localSize0]
      arguments := .size length :: (Bindings.collect batch).arguments }] }

end VectorUpdate

end KernelTuner
