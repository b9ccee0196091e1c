import KernelTuner.Backend.Compiler
import KernelTuner.Backend.Queue

/-!
Contract: the reference platform.

Owns: contexts, each a device with its compiler, the queues on them and the
simulated clock. `commandQueue` makes a queue of the platform usable by the rest
of the library.
-/

set_option autoImplicit false

namespace KernelTuner

/-- State of the platform. Contexts and queues are numbered from one. -/
structure Platform where
  devices : Table ContextId Device := {}
  compilers : Table ContextId Compiler := {}
  queues : Table QueueId QueueState := {}
  /-- Context of every queue. -/
  homes : Table QueueId ContextId := {}
  clock : Nat := 0

/-- The device that contexts have unless told otherwise. -/
def Device.reference : Device where
  name := "reference"
  ordinal := 0
  extensions :=
    "cl_khr_fp64 cl_khr_global_int32_base_atomics cl_khr_local_int32_base_atomics"

namespace Platform

def addContext (platform : Platform) (device : Device) : Platform × ContextId :=
  let id : ContextId := ⟨platform.devices.size + 1⟩
  ({ platform with
      devices := platform.devices.insert id device
      compilers := platform.compilers.insert id {} }, id)

def device (platform : Platform) (context : ContextId) : Device :=
  (platform.devices.get? context).getD .reference

def compiler (platform : Platform) (context : ContextId) : Compiler :=
  (platform.compilers.get? context).getD {}

def queue (platform : Platform) (id : QueueId) : QueueState :=
  (platform.queues.get? id).getD {}

/-- Queue whose finishing takes `latency` per pending launch. -/
def addQueue (platform : Platform) (context : ContextId) (latency : Nat) :
    Platform × QueueId :=
  let id : QueueId := ⟨platform.queues.size + 1⟩
  ({ platform with
      queues := platform.queues.insert id { latency }
      homes := platform.homes.insert id context }, id)

def modifyCompiler (platform : Platform) (context : ContextId)
    (update : Compiler → Compiler) : Platform :=
  { platform with compilers := platform.compilers.modify context update }

def modifyQueue (platform : Platform) (id : QueueId) (update : QueueState → QueueState) :
    Platform :=
  { platform with queues := platform.queues.modify id update }

/-- Compiles with the compiler of `owner`. -/
def compile (owner : ContextId) (request : CompileRequest) (platform : Platform) :
    Except BackendError Program × Platform :=
  let (result, compiler) := (platform.compiler owner).compile owner request
  (result, platform.modifyCompiler owner (fun _ => compiler))

def submit (id : QueueId) (launch : Launch) (platform : Platform) :
    Except BackendError Unit × Platform :=
  let (result, queue) := (platform.queue id).submit launch
  (result, platform.modifyQueue id (fun _ => queue))

def finish (id : QueueId) (platform : Platform) : Except BackendError Unit × Platform :=
  let queue := platform.queue id
  (.ok (), { platform.modifyQueue id (fun _ => queue.finish) with
    clock := platform.clock + queue.pendingTime })

/-- Queue `id` of the platform. -/
def commandQueue (platform : Platform) (id : QueueId) : CommandQueue Platform :=
  let context := (platform.homes.get? id).getD ⟨1⟩
  { id
    context
    device := platform.device context
    compile := compile context
    submit := submit id
    finish := finish id
    clock := Platform.clock }

end Platform

end KernelTuner
