import KernelTuner.Identity

/-!
Contract: what is handed to a queue to run.

Owns: the arguments of a kernel, the two program slots and the plan of launches
that a variant makes for a batch. A plan names its kernels; the program they come
from is supplied when the plan is carried out.
-/

set_option autoImplicit false

namespace KernelTuner

/-- Argument of a kernel. -/
inductive Argument where
  | buffer (id : BufferId)
  | scalar (value : Float)
  | size (value : Nat)
  /-- Scratch memory, shared by launches that use the same slot. -/
  | workspace (slot bytes : Nat)
deriving Inhabited

/-- Which program of a set a launch takes its kernel from. -/
inductive Slot where
  /-- Kernels for aligned problem sizes. -/
  | primary
  /-- Kernels that handle ragged edges. -/
  | fallback
deriving DecidableEq, Repr, Inhabited

def Slot.all : List Slot := [.primary, .fallback]

def Slot.ofNumber? (number : Nat) : Option Slot := Slot.all[number]?

/-- One kernel over one range of work items. -/
structure PlannedLaunch where
  kernel : String
  globalSize : List Nat
  localSize : List Nat
  arguments : List Argument
deriving Inhabited

/-- Launches from one slot, in order. -/
structure LaunchPlan where
  slot : Slot
  launches : List PlannedLaunch

end KernelTuner
