/-!
Contract: identities of contexts, queues and buffers.

Owns: the three identity types and the two ways they are written: `context#1`
where a message addresses the object, `ContextId(1)` where it shows a field.
-/

set_option autoImplicit false

namespace KernelTuner

/-- Identity of a compute context. Programs are partitioned by context. -/
structure ContextId where
  number : Nat
deriving DecidableEq, Repr, Inhabited

/-- Identity of a command queue. -/
structure QueueId where
  number : Nat
deriving DecidableEq, Repr, Inhabited

/-- Identity of a device buffer. Copies of a handle share it. -/
structure BufferId where
  number : Nat
deriving DecidableEq, Repr, Inhabited

def ContextId.display (context : ContextId) : String := s!"context#{context.number}"

def ContextId.field (context : ContextId) : String := s!"ContextId({context.number})"

def QueueId.display (queue : QueueId) : String := s!"queue#{queue.number}"

def BufferId.field (buffer : BufferId) : String := s!"BufferId({buffer.number})"

end KernelTuner
