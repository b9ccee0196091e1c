import KernelTuner.Kernel.Basic
import KernelTuner.Variant.Fetch

/-!
Contract: loops and folds that several kernels share.

Owns: the distribution of a range over work items, the scalar tail behind a
vector loop, and the fold of a work group's local memory.
-/

set_option autoImplicit false

namespace KernelTuner.Kernel

/-- A loop of `counter` over `0 .. count` along a work dimension. Contiguous
fetching gives every work item one chunk; streaming kernels have nothing to stage,
so staged fetching strides like strided fetching. -/
def rangeLoop (fetch : Fetch) (counter : String) (count : Index) (dimension : Nat)
    (body : List Statement) : Statement :=
  let position : Index := .workItem .globalId dimension
  let items : Index := .workItem .globalSize dimension
  match fetch with
  | .contiguous =>
      let chunk := "chunk_" ++ counter
      let start := "start_" ++ counter
      let finish := "end_" ++ counter
      .scope [
        .run (.declareIndex chunk (.div (.sub (.add count items) (.literal 1)) items)),
        .run (.declareIndex start (.mul position (.var chunk))),
        .run (.declareIndex finish
          (.minimum (.add (.var start) (.var chunk)) (.narrow count))),
        .loop ⟨counter, .var start, .less (.var counter) (.var finish), .increment⟩
          body]
  | .staged | .strided =>
      .loop ⟨counter, position, .less (.var counter) count, .advance items⟩ body

/-- The elements that a vector loop over `N / width` leaves, one at a time. -/
def tailLoop (width : Nat) (body : List Statement) : Statement :=
  let covered : Index := .mul (.div (.var "N") (.literal width)) (.literal width)
  .loop
    ⟨"i", .add covered (.workItem .globalId 0), .less (.var "i") (.var "N"),
      .advance (.workItem .globalSize 0)⟩
    body

/-- Distance of the first step of a fold over `size` entries: half of the least
power of two that is not below `size`. -/
def foldStart (size : Nat) : Nat := Size.word (Size.leastPowerOfTwo size) / 2

/-- Folds `size` entries of local memory into the first one. `place` is the entry
of a work item, named by its index; `lane` is the work item's own index. -/
def localFold (lane : String) (place : Index → Place) (size : Nat) : List Statement :=
  let distance : Index := .var "stride"
  let other : Index := .add (.var lane) distance
  [.run .barrier,
    .loop ⟨"stride", .literal (foldStart size), .greater distance (.literal 0), .halve⟩ [
      .guarded (.both (.less (.var lane) distance) (.less other (.literal size)))
        (.accumulate (place (.var lane)) (.read (place other))) false,
      .run .barrier]]

end KernelTuner.Kernel
