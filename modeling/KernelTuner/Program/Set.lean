import KernelTuner.Fingerprint
import KernelTuner.Program.Shell
import KernelTuner.Variant.Basic

/-!
Contract: the programs of one fingerprint.

Owns: the two shells of a set, the emission of all variants into them, and the
compilation of one slot or of all that hold kernels.
-/

set_option autoImplicit false

namespace KernelTuner

/-- Primary and fallback program with the kernels of every variant of a model. -/
structure ProgramSet where
  fingerprint : Fingerprint
  primary : Shell
  fallback : Shell
  /-- Number of variants whose kernels were emitted. -/
  variantCount : Nat

namespace ProgramSet

def shell (set : ProgramSet) : Slot → Shell
  | .primary => set.primary
  | .fallback => set.fallback

def putShell (set : ProgramSet) (slot : Slot) (shell : Shell) : ProgramSet :=
  match slot with
  | .primary => { set with primary := shell }
  | .fallback => { set with fallback := shell }

/-- Emits the variants, the first of which has number `index`, into both shells. -/
def emitFrom (batch : Batch) (index : Nat) :
    List Variant → Shell × Shell → Except Error (Shell × Shell)
  | [], shells => .ok shells
  | variant :: rest, (primary, fallback) => do
      let emission ← variant.emit index batch
      emitFrom batch (index + 1) rest
        (primary.add emission.primaryText, fallback.add emission.fallbackText)

/-- The set of `fingerprint`, with sources emitted from `batch`. -/
def build (context : ContextId) (fingerprint : Fingerprint) (device : Device)
    (variants : List Variant) (batch : Batch) (force : Bool) : Except Error ProgramSet := do
  let source := device.defineExtension "cl_khr_fp64"
  let primary : Shell := { context, name := fingerprint.text, force, source }
  let fallback : Shell := { context, name := fingerprint.fallbackName, force, source }
  let (primary, fallback) ← emitFrom batch 0 variants (primary, fallback)
  return { fingerprint, primary, fallback, variantCount := variants.length }

variable {σ : Type}

/-- The program of a slot, compiled if needed. -/
def program (queue : CommandQueue σ) (slot : Slot) : Action (ProgramSet × Bench σ) Program :=
  (Shell.program queue).on (fun state => (state.1.shell slot, state.2))
    (fun state part => (state.1.putShell slot part.1, part.2))

/-- The program of the slot with this number. -/
def programAt (queue : CommandQueue σ) (number : Nat) :
    Action (ProgramSet × Bench σ) Program := fun state =>
  match Slot.ofNumber? number with
  | some slot => program queue slot state
  | none =>
      (.error (.invalidArgument (.noSuchSlot number state.1.fingerprint.text)), state)

/-- Compiles the program of a slot if it holds kernels. -/
def compileSlot (queue : CommandQueue σ) (slot : Slot) : Action (ProgramSet × Bench σ) Unit :=
  fun state =>
    if (state.1.shell slot).isEmpty then (.ok (), state)
    else ((program queue slot).andThen fun _ => Action.pure ()) state

/-- Compiles every program that holds kernels, the primary one first. -/
def compileAll (queue : CommandQueue σ) : Action (ProgramSet × Bench σ) Unit :=
  (compileSlot queue .primary).andThen fun _ => compileSlot queue .fallback

end ProgramSet

end KernelTuner
