/-!
Contract: the operators of expression nodes.

Owns: the twelve operators, their fingerprint tokens and the arithmetic that
element-wise operators stand for in kernels.
-/

set_option autoImplicit false

namespace KernelTuner

/-- Arithmetic on elements. -/
inductive Arithmetic where
  | add | sub | mul | div
deriving DecidableEq, Repr, Inhabited

def Arithmetic.symbol : Arithmetic → String
  | add => "+"
  | sub => "-"
  | mul => "*"
  | div => "/"

/-- Operator of an expression node. -/
inductive Operator where
  | assign
  | add
  | sub
  | mul
  | div
  | elementProduct
  | scale
  | innerProduct
  /-- `A x`, one inner product per matrix row. -/
  | matrixVectorRows
  /-- `Aᵀ x`, one inner product per matrix column. -/
  | matrixVectorColumns
  | matrixProduct
  | transpose
deriving DecidableEq, Repr, Inhabited

namespace Operator

def all : List Operator :=
  [assign, add, sub, mul, div, elementProduct, scale, innerProduct, matrixVectorRows,
    matrixVectorColumns, matrixProduct, transpose]

/-- Tag by which diagnostics name the operator. -/
def label : Operator → String
  | assign => "Assign" | add => "Add" | sub => "Sub" | mul => "Mul" | div => "Div"
  | elementProduct => "ElementProd" | scale => "Scale" | innerProduct => "InnerProduct"
  | matrixVectorRows => "MatVecRows" | matrixVectorColumns => "MatVecCols"
  | matrixProduct => "MatMat" | transpose => "Transpose"

def ofLabel? (label : String) : Option Operator :=
  all.find? (fun operator => operator.label = label)

/-- What stands for the operator in a fingerprint. -/
def token : Operator → String
  | assign => "as" | add => "ad" | sub => "sb" | mul => "mu" | div => "dv"
  | elementProduct => "ep" | scale => "sc" | innerProduct => "ip"
  | matrixVectorRows => "mr" | matrixVectorColumns => "mc" | matrixProduct => "mm"
  | transpose => "tr"

/-- The arithmetic of an element-wise operator. -/
def arithmetic? : Operator → Option Arithmetic
  | add => some .add
  | sub => some .sub
  | mul | elementProduct | scale => some .mul
  | div => some .div
  | _ => none

def isElementWise (operator : Operator) : Bool := operator.arithmetic?.isSome

theorem token_injective {left right : Operator} (same : left.token = right.token) :
    left = right := by
  revert same
  cases left <;> cases right <;> decide

end Operator

end KernelTuner
