/-!
Contract: the folded dimension of a matrix reduction.
-/

set_option autoImplicit false

namespace KernelTuner

/-- What a matrix reduction computes one output for. -/
inductive Axis where
  /-- One output per row: `y = A x`. -/
  | rows
  /-- One output per column: `y = Aᵀ x`. -/
  | columns
deriving DecidableEq, Repr, Inhabited

/-- Tag by which diagnostics name the axis. -/
def Axis.label : Axis → String
  | rows => "Rows"
  | columns => "Cols"

def Axis.all : List Axis := [.rows, .columns]

def Axis.ofLabel? (label : String) : Option Axis := Axis.all.find? (fun axis => axis.label = label)

end KernelTuner
