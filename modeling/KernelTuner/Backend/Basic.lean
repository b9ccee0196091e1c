import KernelTuner.Error
import KernelTuner.Launch
import KernelTuner.Profile
import KernelTuner.Text.Blank

/-!
Contract: what the library asks of a compute backend.

Owns: devices, compiled programs, compile requests, launches and the interface of
a command queue. A queue acts on a backend state of any type; its calls report
failures and always hand the state on.
-/

set_option autoImplicit false

namespace KernelTuner

structure Device where
  name : String
  /-- Position of the device on its platform. -/
  ordinal : Nat
  /-- Blank-separated extension list. -/
  extensions : String
deriving DecidableEq, Repr

namespace Device

def hasExtension (device : Device) (extension : String) : Bool :=
  (Text.words device.extensions).contains extension

/-- The pragma that enables an extension, for devices that list it. -/
def defineExtension (device : Device) (extension : String) : String :=
  if device.hasExtension extension then
    "#pragma OPENCL EXTENSION " ++ extension ++ " : enable\n"
  else ""

end Device

/-- Identity of a compiled program: which compiler built it, and as which one of
its successful builds. -/
structure ProgramId where
  compiler : ContextId
  build : Nat
deriving DecidableEq, Repr

/-- A compiled program with its kernel entry points. -/
structure Program where
  id : ProgramId
  name : String
  kernels : List String
deriving DecidableEq, Repr

def Program.hasKernel (program : Program) (entry : String) : Bool :=
  program.kernels.contains entry

structure CompileRequest where
  context : ContextId
  name : String
  source : String
  /-- Whether an artifact cached for the same source must not be served. -/
  force : Bool
deriving DecidableEq, Repr

/-- One kernel submission. -/
structure Launch where
  program : Program
  kernel : String
  globalSize : List Nat
  localSize : List Nat
  arguments : List Argument
  /-- Index of the variant within its model. -/
  variant : Nat

/-- A command queue on backend states of type `σ`. -/
structure CommandQueue (σ : Type) where
  id : QueueId
  context : ContextId
  device : Device
  compile : CompileRequest → σ → Except BackendError Program × σ
  /-- Accepts a launch without waiting for it. -/
  submit : Launch → σ → Except BackendError Unit × σ
  /-- Waits until every submitted launch has completed. -/
  finish : σ → Except BackendError Unit × σ
  /-- Time that has passed on the backend. -/
  clock : σ → Nat

/-- A backend state together with the profile of the calls on it. -/
structure Bench (σ : Type) where
  backend : σ
  profile : Profile := {}

def Bench.record {σ : Type} (event : Event) (bench : Bench σ) : Bench σ :=
  { bench with profile := bench.profile.record event }

end KernelTuner
