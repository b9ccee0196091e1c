import KernelTuner.Variant.InnerProduct
import KernelTuner.Variant.MatrixProduct
import KernelTuner.Variant.MatrixUpdate
import KernelTuner.Variant.MatrixVector
import KernelTuner.Variant.VectorUpdate

/-!
Contract: kernel-generation strategies.

Owns: the union of the five kinds of variant and what each of them provides: the
sizes of a batch, the kernels it emits, and the launches it plans. Entry points
carry the index of the variant within its model, so that all variants of a model
share one program.
-/

set_option autoImplicit false

namespace KernelTuner

/-- A fully parameterized strategy for one kind of operation. -/
inductive Variant where
  | vectorUpdate (params : VectorUpdate)
  | innerProduct (params : InnerProduct)
  | matrixUpdate (params : MatrixUpdate)
  | matrixVector (params : MatrixVector)
  | matrixProduct (params : MatrixProduct)
deriving DecidableEq, Repr

namespace Variant

/-- Short tag of the kind. -/
def kind : Variant → String
  | vectorUpdate _ => "vaxpy"
  | innerProduct _ => "reduction"
  | matrixUpdate _ => "maxpy"
  | matrixVector params =>
      match params.axis with
      | .rows => "row-reduction"
      | .columns => "col-reduction"
  | matrixProduct _ => "mproduct"

/-- Checks the parameters on their own. -/
def check : Variant → Except Error Variant
  | vectorUpdate params => return vectorUpdate (← params.check)
  | innerProduct params => return innerProduct (← params.check)
  | matrixUpdate params => return matrixUpdate (← params.check)
  | matrixVector params => return matrixVector (← params.check)
  | matrixProduct params => return matrixProduct (← params.check)

/-- Sizes of a batch: the features of a predictor and the key of an override. -/
def sizes : Variant → Batch → Except Error Shape
  | vectorUpdate _, batch => VectorUpdate.sizes batch
  | innerProduct _, batch => InnerProduct.sizes batch
  | matrixUpdate _, batch => MatrixUpdate.sizes batch
  | matrixVector params, batch => params.sizes batch
  | matrixProduct params, batch => params.sizes batch

/-- Kernels for a batch, as variant number `index` of a model. -/
def emit : Variant → Nat → Batch → Except Error Emission
  | vectorUpdate params, index, batch => params.emit index batch
  | innerProduct params, index, batch => params.emit index batch
  | matrixUpdate params, index, batch => params.emit index batch
  | matrixVector params, index, batch => params.emit index batch
  | matrixProduct params, index, batch => params.emit index batch

/-- Launches for a batch, as variant number `index` of a model. -/
def plan : Variant → Nat → Batch → Except Error LaunchPlan
  | vectorUpdate params, index, batch => params.plan index batch
  | innerProduct params, index, batch => params.plan index batch
  | matrixUpdate params, index, batch => params.plan index batch
  | matrixVector params, index, batch => params.plan index batch
  | matrixProduct params, index, batch => params.plan index batch

end Variant

end KernelTuner
