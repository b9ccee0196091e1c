import KernelTuner.Error
import KernelTuner.Expression.Batch

/-!
Contract: checks that all variants share.

Owns: the range of a profile size, the bound on products of sizes, the vector
widths, the reach of a buffer and the restriction to one expression.
-/

set_option autoImplicit false

namespace KernelTuner

/-- A profile entry that is a size: at least one and at most the kernel limit. -/
def profileSize (quantity : String) (value : Int) : Except Error Nat :=
  if 1 ≤ value ∧ value ≤ Size.kernelLimit then .ok value.toNat
  else refuse (.sizeOutside quantity value)

/-- The product of `factors`, refused when it is no kernel size. -/
def checkedProduct (quantity : String) (factors : List Nat) : Except Error Nat :=
  let product := factors.foldl (· * ·) 1
  if product ≤ Size.kernelLimit then .ok product
  else refuse (.productTooLarge quantity factors)

/-- Refuses buffers with elements beyond the reach of an index. -/
def checkExtent (buffer : Buffer) : Except Error Unit := do
  let _ ← checkedProduct "buffer dims" buffer.dims

def simdWidths : List Nat := [1, 2, 4, 8, 16]

def checkSimdWidth (width : Nat) : Except Error Unit :=
  if width ∈ simdWidths then .ok () else refuse (.simdWidth width)

/-- The only expression of a batch, for kernels that cannot fuse. -/
def Batch.onlyExpression (batch : Batch) (kernels : String) : Except Error Expression :=
  match batch.rest with
  | [] => .ok batch.first
  | rest => refuse (.severalExpressions kernels (rest.length + 1))

/-- The remainder of a division, which a zero divisor stops. -/
def checkedRemainder (value divisor : Nat) : Except Error Nat :=
  if divisor = 0 then .error (.fault .divisionByZero) else .ok (value % divisor)

/-- `Size.roundUp` as a machine word holds it; a zero multiple stops. -/
def checkedRoundUp (value multiple : Nat) : Except Error Nat :=
  if multiple = 0 then .error (.fault .divisionByZero)
  else .ok (Size.word (Size.roundUp value multiple))

end KernelTuner
