import KernelTuner.Backend.Basic
import KernelTuner.Table

/-!
Contract: queues that fail on purpose.

Owns: the wrapper that fails chosen submissions and finishes of a queue without
forwarding them, and the counters by which it chooses.
-/

set_option autoImplicit false

namespace KernelTuner

/-- Numbers, counted from one, of the calls that fail. -/
structure FaultPlan where
  submits : List Nat
  finishes : List Nat
deriving DecidableEq, Repr

/-- Calls that a wrapper has seen, failures included. -/
structure FaultCounts where
  submits : Nat := 0
  finishes : Nat := 0
deriving DecidableEq, Repr

/-- A backend with the counters of its wrappers. -/
structure Injected (σ : Type) where
  backend : σ
  counts : Table Nat FaultCounts := {}

namespace Injected

variable {σ α : Type}

/-- Runs a call of the backend below. -/
def forward (call : σ → Except BackendError α × σ) (state : Injected σ) :
    Except BackendError α × Injected σ :=
  let (result, backend) := call state.backend
  (result, { state with backend })

def countsOf (state : Injected σ) (wrapper : Nat) : FaultCounts :=
  (state.counts.get? wrapper).getD {}

end Injected

namespace CommandQueue

variable {σ : Type}

/-- The queue itself, on a backend that has wrappers. -/
def beneath (queue : CommandQueue σ) : CommandQueue (Injected σ) where
  id := queue.id
  context := queue.context
  device := queue.device
  compile := fun request => Injected.forward (queue.compile request)
  submit := fun launch => Injected.forward (queue.submit launch)
  finish := Injected.forward queue.finish
  clock := fun state => queue.clock state.backend

/-- The queue behind wrapper number `wrapper`. -/
def withFaults (queue : CommandQueue σ) (wrapper : Nat) (plan : FaultPlan) :
    CommandQueue (Injected σ) :=
  { queue.beneath with
    submit := fun launch state =>
      let counts := state.countsOf wrapper
      let number := counts.submits + 1
      let state := { state with
        counts := state.counts.insert wrapper { counts with submits := number } }
      if number ∈ plan.submits then
        (.error (.execution s!"injected failure of submit {number}"), state)
      else Injected.forward (queue.submit launch) state
    finish := fun state =>
      let counts := state.countsOf wrapper
      let number := counts.finishes + 1
      let state := { state with
        counts := state.counts.insert wrapper { counts with finishes := number } }
      if number ∈ plan.finishes then
        (.error (.unsupported "finish" s!"injected failure {number}"), state)
      else Injected.forward queue.finish state }

end CommandQueue

end KernelTuner
