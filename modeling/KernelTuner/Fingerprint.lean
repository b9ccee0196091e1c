import KernelTuner.Expression.Batch
import KernelTuner.Expression.Walk

/-!
Contract: structural fingerprints of batches.

Owns: the tokens of nodes and leaves, the two ways of numbering buffers and the
length limit. A fingerprint names the program that a batch compiles to. Sizes are
absent from it: kernels receive them as arguments.

The counter of unique numbers outlives a fingerprint: it belongs to the process, and
each fingerprint goes on where the one before has stopped.

A fingerprint that would exceed the limit is refused, never cut: a cut name would
stand for two programs. The walk stops at the first token that does not fit.
-/

set_option autoImplicit false

namespace KernelTuner

/-- Name of a device program. -/
structure Fingerprint where
  text : String
deriving DecidableEq, Repr, Inhabited

namespace Fingerprint

/-- Most characters of a fingerprint. -/
def lengthLimit : Nat := 255

/-- Name of the fallback program beside the primary one. -/
def fallbackName (fingerprint : Fingerprint) : String := fingerprint.text ++ "_fb"

end Fingerprint

/-- How buffers are numbered. -/
inductive Binding where
  /-- Equal handles share a number. Numbers count up in order of first use. -/
  | toHandle
  /-- Every occurrence takes the next number of a counter of one machine word. -/
  | allUnique
deriving DecidableEq, Repr, Inhabited

/-- What numbering has handed out so far. -/
structure Binder where
  /-- Handles in order of first use. -/
  bound : List BufferId := []
  /-- How many numbers the counter of unique occurrences has handed out. -/
  fresh : Nat := 0
deriving Repr

namespace Binder

/-- The number of an occurrence of `buffer`. -/
def bind (binder : Binder) (policy : Binding) (buffer : BufferId) : Nat × Binder :=
  match policy with
  | .toHandle =>
      match binder.bound.idxOf? buffer with
      | some number => (number, binder)
      | none => (binder.bound.length, { binder with bound := binder.bound ++ [buffer] })
  | .allUnique => (Size.word binder.fresh, { binder with fresh := binder.fresh + 1 })

/-- The token of an item: the operator's token, `h` and a type code for a host
scalar, or kind, type code and number for a buffer. -/
def token (binder : Binder) (policy : Binding) : Item → String × Binder
  | .node node => (node.operator.token, binder)
  | .leaf (.buffer handle) =>
      let (number, binder) := binder.bind policy handle.id
      (String.ofList [handle.kindCode, handle.elementType.code] ++ toString number, binder)
  | .leaf (.scalar elementType _) => (String.ofList ['h', elementType.code], binder)
  | .leaf _ => ("", binder)

end Binder

/-- A fingerprint under construction. -/
structure Scribe where
  text : String
  binder : Binder

namespace Scribe

/-- Appends the token of an item, or stops when it does not fit. The number of an
occurrence is taken either way. -/
def write (policy : Binding) (item : Item) (scribe : Scribe) : Flow Scribe Scribe :=
  let (token, binder) := scribe.binder.token policy item
  if scribe.text.length + token.length ≤ Fingerprint.lengthLimit then
    .next ⟨scribe.text ++ token, binder⟩
  else .stop ⟨scribe.text, binder⟩

/-- Writes the expressions one after another. -/
def writeAll (policy : Binding) : List Expression → Scribe → Flow Scribe Scribe
  | [], scribe => .next scribe
  | expression :: rest, scribe =>
      (expression.walk (write policy) scribe).andThen (writeAll policy rest)

end Scribe

namespace Batch

/-- The fingerprint of the batch, and how many unique numbers are handed out with it.
Unique numbering goes on behind the first `fresh` ones. -/
def fingerprint (batch : Batch) (policy : Binding) (fresh : Nat) :
    Except Error Fingerprint × Nat :=
  let start : Scribe := ⟨String.singleton batch.order.mark, { fresh }⟩
  match Scribe.writeAll policy batch.expressions start with
  | .next scribe => (.ok ⟨scribe.text⟩, scribe.binder.fresh)
  | .stop scribe => (.error (.fingerprintOverflow Fingerprint.lengthLimit), scribe.binder.fresh)

/-- The fingerprint under which programs of the batch are stored. -/
def programName (batch : Batch) : Except Error Fingerprint := (batch.fingerprint .toHandle 0).1

end Batch

end KernelTuner
