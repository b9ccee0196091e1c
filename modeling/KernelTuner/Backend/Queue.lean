import KernelTuner.Backend.Basic
import KernelTuner.Buffer
import KernelTuner.Table

/-!
Contract: the reference queue.

Owns: the check of a launch, the list of launches that are still pending, the
history of accepted launches and the simulated time that finishing takes.
-/

set_option autoImplicit false

namespace KernelTuner

/-- An accepted launch. -/
structure LaunchRecord where
  program : String
  kernel : String
  variant : Nat
  globalSize : List Nat
  localSize : List Nat
  arguments : List Argument

/-- State of one reference queue. -/
structure QueueState where
  /-- Time per pending launch. -/
  latency : Nat := 0
  /-- Extra time per launch of a variant. -/
  variantLatency : Table Nat Nat := {}
  pending : List LaunchRecord := []
  history : List LaunchRecord := []
  finishes : Nat := 0

namespace QueueState

/-- The first dimension, from `dimension` on, in which the local size does not
divide the global size. -/
def unevenDimension? (dimension : Nat) : List (Nat × Nat) → Option (Nat × Nat × Nat)
  | [] => none
  | (globalSize, localSize) :: rest =>
      if localSize = 0 ∨ globalSize % localSize ≠ 0 then some (dimension, globalSize, localSize)
      else unevenDimension? (dimension + 1) rest

/-- Work sizes have one to three dimensions, and groups fill the range. -/
def checkWorkSizes (kernel : String) (globalSize localSize : List Nat) :
    Except BackendError Unit :=
  if globalSize.isEmpty ∨ 3 < globalSize.length ∨ globalSize.length ≠ localSize.length then
    .error (.execution (kernel ++ ": global " ++ Buffer.listed globalSize ++ " and local " ++
      Buffer.listed localSize ++ " work sizes disagree on dimensions"))
  else
    match unevenDimension? 0 (globalSize.zip localSize) with
    | some (dimension, globalSize, localSize) =>
        .error (.execution (kernel ++ s!": global size {globalSize} is not a multiple of " ++
          s!"local size {localSize} in dimension {dimension}"))
    | none => .ok ()

def checkLaunch (launch : Launch) : Except BackendError Unit :=
  if launch.program.hasKernel launch.kernel then
    checkWorkSizes launch.kernel launch.globalSize launch.localSize
  else
    .error (.execution
      ("program " ++ launch.program.name ++ " has no kernel " ++ launch.kernel))

def recordOf (launch : Launch) : LaunchRecord where
  program := launch.program.name
  kernel := launch.kernel
  variant := launch.variant
  globalSize := launch.globalSize
  localSize := launch.localSize
  arguments := launch.arguments

/-- Accepts a launch, or leaves the queue as it is. -/
def submit (launch : Launch) (queue : QueueState) : Except BackendError Unit × QueueState :=
  match checkLaunch launch with
  | .error cause => (.error cause, queue)
  | .ok () =>
      (.ok (), { queue with
        pending := queue.pending ++ [recordOf launch]
        history := queue.history ++ [recordOf launch] })

/-- Time that the pending launches take. -/
def pendingTime (queue : QueueState) : Nat :=
  queue.pending.foldl (fun time launch =>
    time + queue.latency + (queue.variantLatency.get? launch.variant).getD 0) 0

def finish (queue : QueueState) : QueueState :=
  { queue with pending := [], finishes := queue.finishes + 1 }

def clearLaunches (queue : QueueState) : QueueState := { queue with history := [] }

end QueueState

end KernelTuner
