import KernelTuner.Proofs.Kernel.Distribution
import KernelTuner.Proofs.Variant.Accepted
import KernelTuner.Proofs.Variant.ElementWise
import KernelTuner.Proofs.Variant.UpdateAccess
import Mathlib.Data.List.Perm.Basic

/-!
Contract: how updates of vectors and inner products share out their elements.

Owns: the loops by which the kernels of these variants go through a range, and the elements
that a turn takes; what it means that the loops share the range out; and
`Variant.sharesOut_iff`, which says exactly for which ranges and work items they do. The device
counts in 32 bits, so near the greatest size they do not.
-/

set_option autoImplicit false

namespace KernelTuner

open Kernel
open Function (update)

/-- How a kernel goes through a range: by vectors of `width` elements and a scalar tail, or
one element at a time if `width` is one. -/
structure Stream where
  fetch : Fetch
  width : Nat
  items : Nat

namespace Stream

variable (stream : Stream)

/-- The elements that a work item processes whose loops count through these values. -/
def elements (vector scalar : List Nat) : List Nat :=
  if 1 < stream.width then
    vector.flatMap (fun index => List.range' (stream.width * index) stream.width) ++ scalar
  else scalar

/-- One entry for each loop of the stream, in front of those for the loops behind. -/
def perLoop {α : Type} (vector scalar : α) (behind : List α) : List α :=
  if 1 < stream.width then vector :: scalar :: behind else scalar :: behind

/-- The counters of a work item in the loops of the stream over `count` elements. -/
def Counts (count position : Nat) (vector scalar : List Nat) : Prop :=
  if 1 < stream.width then
    Ranges stream.fetch (count / stream.width) stream.items position vector ∧
      Strides (count / stream.width * stream.width) count stream.items position scalar
  else Ranges stream.fetch count stream.items position scalar

/-- The loops do not wrap before they are done. Without work items nothing is done. -/
def Fits (count : Nat) : Prop :=
  if stream.items = 0 then count = 0
  else if 1 < stream.width then count + stream.items ≤ uintCount
  else RangeFits stream.fetch count stream.items

instance (count : Nat) : Decidable (stream.Fits count) :=
  inferInstanceAs (Decidable (if stream.items = 0 then count = 0
    else if 1 < stream.width then count + stream.items ≤ uintCount
    else RangeFits stream.fetch count stream.items))

end Stream

def VectorUpdate.stream (params : VectorUpdate) : Stream :=
  ⟨params.fetch, params.simdWidth, params.localSize0 * params.groups0⟩

def InnerProduct.stream (params : InnerProduct) : Stream :=
  ⟨params.fetch, params.simdWidth, params.localSize0 * params.groups0⟩

/-- How the first kernel of a variant goes through its elements, with the work items of its
launches, if it goes through one range. -/
def Variant.stream? : Variant → Option Stream
  | vectorUpdate params => some params.stream
  | innerProduct params => some params.stream
  | _ => none

/-- Work items with these counters together process each of `count` elements once: each whole
vector in the vector loop, if there is one, and every element behind them in the scalar loop. -/
structure Stream.Shared (stream : Stream) (count : Nat) (vector scalar : Nat → List Nat) :
    Prop where
  vectors : 1 < stream.width → Allotment stream.items vector (List.range (count / stream.width))
  scalars : Allotment stream.items scalar
    (if 1 < stream.width then
      List.range' (count / stream.width * stream.width) (count % stream.width)
    else List.range count)
  elements : Allotment stream.items
    (fun position => stream.elements (vector position) (scalar position)) (List.range count)

/-- The loops of the kernel end for every work item, and those of the stream share out `count`
elements. -/
def Kernel.SharesOut (kernel : Kernel) (stream : Stream) (count : Nat) : Prop :=
  ∃ (vector scalar : Nat → List Nat) (behind : List (List Nat)),
    (∀ (position : Nat) (seat : Seat) (locals : Variables), position < stream.items →
      seat .globalId 0 = position → seat .globalSize 0 = stream.items → locals "N" = count →
        blockCounts seat locals kernel.body
          (stream.perLoop (vector position) (scalar position) behind)) ∧
      stream.Shared count vector scalar

/-- What a turn touches of the arrays: of each of them `width` elements side by side in the
vector loop, one in the scalar loop, and none in loops behind. -/
structure Stream.Takes (stream : Stream) (arrays : Set String) (vector scalar : List Statement)
    (behind : List (List Statement)) : Prop where
  vector : 1 < stream.width → ∀ array ∈ arrays, ∀ seat locals indices,
    ⟨array, indices⟩ ∈ blockTouched seat locals vector ↔
      ∃ lane < stream.width, indices = [stream.width * locals "i" + lane]
  scalar : ∀ array ∈ arrays, ∀ seat locals indices,
    ⟨array, indices⟩ ∈ blockTouched seat locals scalar ↔ indices = [locals "i"]
  behind : ∀ array ∈ arrays, ∀ seat locals indices, ∀ body ∈ behind,
    ⟨array, indices⟩ ∉ blockTouched seat locals body

/-- The loops of the kernel are those of the stream, with such loops behind. -/
def Kernel.Takes (kernel : Kernel) (stream : Stream) (arrays : Set String) : Prop :=
  ∃ vector scalar behind, blockBodies kernel.body = stream.perLoop vector scalar behind ∧
    stream.Takes arrays vector scalar behind

/-- The parameters of a batch that hold more than single values. -/
def Batch.vectorNames (batch : Batch) : Set String :=
  {name | (∃ handle, .buffer handle ∈ batch.leaves ∧
      (Bindings.collect batch).nameOf handle = .ok name) ∧
    ∀ handle, .buffer handle ∈ batch.leaves → (Bindings.collect batch).nameOf handle = .ok name →
      handle.rank ≠ 0}

/-- The parameters whose elements the first kernel of such a variant goes through. -/
def Variant.streamed : Variant → Batch → Set String
  | vectorUpdate _, batch => batch.vectorNames
  | innerProduct _, _ => {"x", "y"}
  | _, _ => ∅

/-! ### Streams -/

namespace Stream

/-- Loops behind those of a stream only add their entries. -/
theorem perLoop_append {α : Type} (stream : Stream) (vector scalar : α) (behind : List α) :
    stream.perLoop vector scalar [] ++ behind = stream.perLoop vector scalar behind := by
  unfold perLoop
  split <;> rfl

variable {stream : Stream} {count : Nat} {vector scalar : Nat → List Nat}

/-- The vectors of a range side by side. -/
theorem flatMap_vectors (width vectors : Nat) :
    (List.range vectors).flatMap (fun index => List.range' (width * index) width) =
      List.range (vectors * width) := by
  induction vectors with
  | zero => simp
  | succ vectors inductionHypothesis =>
      rw [List.range_succ, List.flatMap_append, inductionHypothesis, List.flatMap_singleton,
        List.range_eq_range', List.range_eq_range', Nat.succ_mul, Nat.mul_comm width vectors,
        ← List.range'_append_1, Nat.zero_add]

/-- What whole vectors leave of a range is behind them. -/
theorem range_append_tail (width count : Nat) :
    List.range (count / width * width) ++
      List.range' (count / width * width) (count % width) = List.range count := by
  have joined : List.range' 0 (count / width * width) ++
      List.range' (0 + count / width * width) (count % width) =
        List.range' 0 (count / width * width + count % width) :=
    List.range'_append_1
  rwa [Nat.zero_add, Nat.div_add_mod', ← List.range_eq_range', ← List.range_eq_range'] at joined

/-- Whole vectors and the elements behind them are all elements. -/
theorem allotment_elements (wide : 1 < stream.width)
    (vectors : Allotment stream.items vector (List.range (count / stream.width)))
    (scalars : Allotment stream.items scalar
      (List.range' (count / stream.width * stream.width) (count % stream.width))) :
    Allotment stream.items (fun position => stream.elements (vector position) (scalar position))
      (List.range count) := by
  have whole := List.Perm.flatMap_right
    (fun index => List.range' (stream.width * index) stream.width) vectors
  rw [flatMap_vectors, List.flatMap_assoc] at whole
  rw [← range_append_tail stream.width count]
  simp only [Allotment, elements, if_pos wide]
  exact (List.flatMap_append_perm _ _ _).symm.trans (whole.append scalars)

theorem shared_of_alone (narrow : ¬ 1 < stream.width)
    (scalars : Allotment stream.items scalar (List.range count)) :
    stream.Shared count vector scalar where
  vectors := fun wide => absurd wide narrow
  scalars := by rwa [if_neg narrow]
  elements := by simpa only [elements, if_neg narrow] using scalars

theorem shared_of_vectors (wide : 1 < stream.width)
    (vectors : Allotment stream.items vector (List.range (count / stream.width)))
    (scalars : Allotment stream.items scalar
      (List.range' (count / stream.width * stream.width) (count % stream.width))) :
    stream.Shared count vector scalar where
  vectors := fun _ => vectors
  scalars := by rwa [if_pos wide]
  elements := allotment_elements wide vectors scalars

/-- Without work items there is nothing to share out. -/
theorem exists_shared_iff_of_idle (idle : stream.items = 0) :
    (∃ vector scalar, (∀ position < stream.items,
        stream.Counts count position (vector position) (scalar position)) ∧
          stream.Shared count vector scalar) ↔ count = 0 := by
  constructor
  · rintro ⟨vector, scalar, _, shared⟩
    have nothing := shared.elements
    rw [Allotment, idle, List.range_zero, List.flatMap_nil] at nothing
    exact List.range_eq_nil.1 nothing.nil_eq.symm
  · rintro rfl
    have nothing : Allotment stream.items (fun _ => []) [] := by
      rw [Allotment, idle, List.range_zero, List.flatMap_nil]
    refine ⟨fun _ => [], fun _ => [], fun position inside => by omega, ?_⟩
    by_cases wide : 1 < stream.width
    · refine shared_of_vectors wide ?_ ?_
      · simpa using nothing
      · simpa using nothing
    · exact shared_of_alone wide nothing

/-- The tail is the loop that wraps first. -/
theorem exists_shared_iff_of_wide (wide : 1 < stream.width) (working : 0 < stream.items)
    (small : count < uintCount) (itemsSmall : stream.items < uintCount) :
    (∃ vector scalar, (∀ position < stream.items,
        stream.Counts count position (vector position) (scalar position)) ∧
          stream.Shared count vector scalar) ↔ count + stream.items ≤ uintCount := by
  have covered := Nat.div_mul_le_self count stream.width
  have left : count - count / stream.width * stream.width = count % stream.width := by
    have split := Nat.div_add_mod' count stream.width
    omega
  simp only [Counts, if_pos wide]
  constructor
  · rintro ⟨vector, scalar, counts, shared⟩
    have scalars := shared.scalars
    rw [if_pos wide, ← left] at scalars
    exact room_of_strides_allotment covered small itemsSmall
      (fun position inside => (counts position inside).2) scalars
  · intro room
    have fewer := Nat.div_le_self count stream.width
    obtain ⟨vector, vectorCounts, vectors⟩ := (ranges_allotment_iff stream.fetch working
      (Nat.lt_of_le_of_lt fewer small) itemsSmall).2
        (rangeFits_of_room stream.fetch working (by omega))
    obtain ⟨scalar, scalarCounts, scalars⟩ := exists_strides_allotment covered working room
    rw [left] at scalars
    exact ⟨vector, scalar,
      fun position inside => ⟨vectorCounts position inside, scalarCounts position inside⟩,
      shared_of_vectors wide vectors scalars⟩

theorem exists_shared_iff_of_narrow (narrow : ¬ 1 < stream.width) (working : 0 < stream.items)
    (small : count < uintCount) (itemsSmall : stream.items < uintCount) :
    (∃ vector scalar, (∀ position < stream.items,
        stream.Counts count position (vector position) (scalar position)) ∧
          stream.Shared count vector scalar) ↔ RangeFits stream.fetch count stream.items := by
  simp only [Counts, if_neg narrow, ← ranges_allotment_iff stream.fetch working small itemsSmall]
  constructor
  · rintro ⟨_, scalar, counts, shared⟩
    have scalars := shared.scalars
    rw [if_neg narrow] at scalars
    exact ⟨scalar, counts, scalars⟩
  · rintro ⟨scalar, counts, scalars⟩
    exact ⟨fun _ => [], scalar, counts, shared_of_alone narrow scalars⟩

/-- The loops of a stream end for all work items and share out the elements exactly when they
do not wrap before they are done. -/
theorem exists_shared_iff (small : count < uintCount) (itemsSmall : stream.items < uintCount) :
    (∃ vector scalar, (∀ position < stream.items,
        stream.Counts count position (vector position) (scalar position)) ∧
          stream.Shared count vector scalar) ↔ stream.Fits count := by
  unfold Fits
  split
  · next idle => exact exists_shared_iff_of_idle idle
  · next working =>
      have nonempty : 0 < stream.items := Nat.pos_of_ne_zero working
      split
      · next wide => exact exists_shared_iff_of_wide wide nonempty small itemsSmall
      · next narrow => exact exists_shared_iff_of_narrow narrow nonempty small itemsSmall

/-- Loops whose last steps stay in 32 bits do not wrap. -/
theorem fits_of_room (working : 0 < stream.items) (room : count + stream.items ≤ uintCount) :
    stream.Fits count := by
  unfold Fits
  rw [if_neg working.ne']
  split
  · exact room
  · exact rangeFits_of_room stream.fetch working room

end Stream

/-! ### Kernels -/

section Loops

variable {seat : Seat} {locals : Variables} {counters : List (List Nat)}

@[simp] theorem rangeLoop_declares (fetch : Fetch) (counter : String) (count : Index)
    (dimension : Nat) (body : List Statement) :
    (rangeLoop fetch counter count dimension body).declares seat locals = locals := by
  cases fetch <;> rfl

@[simp] theorem rangeLoop_bodies (fetch : Fetch) (counter : String) (count : Index)
    (dimension : Nat) (body : List Statement) :
    (rangeLoop fetch counter count dimension body).bodies = [body] := by
  cases fetch <;> rfl

@[simp] theorem tailLoop_bodies (width : Nat) (body : List Statement) :
    (tailLoop width body).bodies = [body] := rfl

theorem exists_halving (start : Nat) :
    ∃ values, Counting (fun value => value / 2) (fun value => 0 < value) start values := by
  induction start using Nat.strongRecOn with
  | ind start inductionHypothesis =>
      rcases Nat.eq_zero_or_pos start with rfl | positive
      · exact ⟨[], .ends (Nat.lt_irrefl 0)⟩
      · obtain ⟨later, rest⟩ :=
          inductionHypothesis (start / 2) (Nat.div_lt_self positive Nat.one_lt_two)
        exact ⟨start :: later, .turn positive rest⟩

/-- A fold of local memory ends, with the same counters for every work item. -/
theorem exists_localFold_counts (lane : String) (place : Index → Place) (size : Nat) :
    ∃ values, ∀ (seat : Seat) (locals : Variables) (counters : List (List Nat)),
      blockCounts seat locals (localFold lane place size) counters ↔ counters = [values] := by
  obtain ⟨values, counting⟩ := exists_halving (foldStart size % uintCount)
  refine ⟨values, fun seat locals counters => ?_⟩
  have halves (inner : Variables) (others : List Nat) :
      LoopHead.Counts seat inner ⟨"stride", .literal (foldStart size),
          .greater (.var "stride") (.literal 0), .halve⟩ others ↔
        Counting (fun value => value / 2) (fun value => 0 < value) (foldStart size % uintCount)
          others := by
    refine LoopHead.counts_iff (fun _ => rfl) (fun value => ?_) rfl
    simp [Condition.Met, Index.computed]
  rw [localFold, blockCounts_run_cons, blockCounts_singleton, counts_loop_iff]
  · simp only [halves]
    constructor
    · rintro ⟨others, rfl, other⟩
      rw [counting.unique other]
    · rintro rfl
      exact ⟨values, rfl, counting⟩
  · intro inner
    rw [blockCounts_guarded_cons, blockCounts_run_cons, blockCounts_nil]

/-- The statements of a batch touch a parameter that is no single value where they reach its
elements. -/
theorem Batch.mem_touched_iff_of_vectorNames {batch : Batch} {access : Access}
    {body : List Statement} {name : String} {indices : List Nat} {reached : Set (List Nat)}
    (stated : (Bindings.collect batch).statements batch access = .ok body)
    (member : name ∈ batch.vectorNames)
    (several : ∀ handle, handle.rank ≠ 0 → access.reached seat locals handle = reached) :
    ⟨name, indices⟩ ∈ blockTouched seat locals body ↔ indices ∈ reached := by
  obtain ⟨⟨leaf, inLeaves, leafNamed⟩, vectors⟩ := member
  rw [Batch.touched_of_statements stated]
  constructor
  · rintro ⟨handle, held, named, inside⟩
    rwa [several handle (vectors handle held named)] at inside
  · intro inside
    refine ⟨leaf, inLeaves, leafNamed, ?_⟩
    rwa [several leaf (vectors leaf inLeaves leafNamed)]

/-- The statements of a batch end. -/
theorem Batch.statements_end {bindings : Bindings} {batch : Batch} {access : Access}
    {body : List Statement} (stated : bindings.statements batch access = .ok body)
    (inner : Variables) : blockCounts seat inner body [] := by
  obtain ⟨stores, _, same⟩ := bind_eq_ok_iff.1 stated
  cases pure_eq_ok_iff.1 same
  exact blockCounts_runs stores inner

namespace Stream

variable {stream : Stream}

/-- A scalar loop over the whole range. -/
theorem blockCounts_alone_iff {body : List Statement} (narrow : ¬ 1 < stream.width)
    (ends : ∀ inner, blockCounts seat inner body []) (inside : seat .globalId 0 < stream.items)
    (sized : seat .globalSize 0 = stream.items) (itemsSmall : stream.items < uintCount)
    (small : locals "N" < uintCount) :
    blockCounts seat locals [rangeLoop stream.fetch "i" (.var "N") 0 body] counters ↔
      ∃ vector scalar, counters = stream.perLoop vector scalar [] ∧
        stream.Counts (locals "N") (seat .globalId 0) vector scalar := by
  have stable (inner : Variables) (same : SameOutside "i" inner locals) :
      (Index.var "N").computed seat inner = locals "N" := same "N" (by decide)
  rw [blockCounts_singleton,
    counts_rangeLoop_iff ends stable rfl sized inside small itemsSmall]
  simp only [Stream.perLoop, Counts, if_neg narrow, exists_const]

/-- A vector loop with the tail behind it. -/
theorem blockCounts_vectors_iff {body rest : List Statement} (wide : 1 < stream.width)
    (ends : ∀ inner, blockCounts seat inner body []) (inside : seat .globalId 0 < stream.items)
    (sized : seat .globalSize 0 = stream.items) (itemsSmall : stream.items < uintCount)
    (small : locals "N" < uintCount)
    (later : ∀ own, blockCounts seat locals rest own ↔ ∃ scalar, own = [scalar] ∧
      Strides (locals "N" / stream.width * stream.width) (locals "N") stream.items
        (seat .globalId 0) scalar) :
    blockCounts seat locals
        (rangeLoop stream.fetch "i" (.div (.var "N") (.literal stream.width)) 0 body :: rest)
        counters ↔
      ∃ vector scalar, counters = stream.perLoop vector scalar [] ∧
        stream.Counts (locals "N") (seat .globalId 0) vector scalar := by
  have stable (inner : Variables) (same : SameOutside "i" inner locals) :
      (Index.div (.var "N") (.literal stream.width)).computed seat inner =
        locals "N" / stream.width := by
    simp only [Index.computed, same "N" (by decide)]
  have fewer : locals "N" / stream.width < uintCount :=
    Nat.lt_of_le_of_lt (Nat.div_le_self _ _) small
  simp only [blockCounts, rangeLoop_declares, later,
    counts_rangeLoop_iff ends stable rfl sized inside fewer itemsSmall, Stream.perLoop, Counts,
    if_pos wide]
  constructor
  · rintro ⟨_, _, rfl, ⟨vector, rfl, vectorCounts⟩, scalar, rfl, scalarCounts⟩
    exact ⟨vector, scalar, rfl, vectorCounts, scalarCounts⟩
  · rintro ⟨vector, scalar, rfl, vectorCounts, scalarCounts⟩
    exact ⟨[vector], [scalar], rfl, ⟨vector, rfl, vectorCounts⟩, scalar, rfl, scalarCounts⟩

end Stream

end Loops

/-- The kernel goes through `N` elements by the loops of the stream, with loops behind them
that end. -/
def Kernel.Streams (kernel : Kernel) (stream : Stream) : Prop :=
  ∃ behind, ∀ (seat : Seat) (locals : Variables) (counters : List (List Nat)),
    seat .globalId 0 < stream.items → seat .globalSize 0 = stream.items →
      locals "N" < uintCount →
        (blockCounts seat locals kernel.body counters ↔
          ∃ vector scalar, counters = stream.perLoop vector scalar behind ∧
            stream.Counts (locals "N") (seat .globalId 0) vector scalar)

theorem Stream.Counts.of_perLoop_eq {stream : Stream} {count position : Nat}
    {vector scalar otherVector otherScalar : List Nat} {behind otherBehind : List (List Nat)}
    (counts : stream.Counts count position otherVector otherScalar)
    (same : stream.perLoop vector scalar behind =
      stream.perLoop otherVector otherScalar otherBehind) :
    stream.Counts count position vector scalar := by
  unfold Stream.Counts at counts ⊢
  unfold Stream.perLoop at same
  split at same
  · next wide =>
      rw [if_pos wide] at counts ⊢
      obtain ⟨sameVector, others⟩ := List.cons.inj same
      rwa [sameVector, (List.cons.inj others).1]
  · next narrow =>
      rw [if_neg narrow] at counts ⊢
      rwa [(List.cons.inj same).1]

/-- A kernel shares a range out exactly when the loops of its stream do not wrap. -/
theorem Kernel.Streams.sharesOut_iff_fits {kernel : Kernel} {stream : Stream} {count : Nat}
    (streams : kernel.Streams stream) (small : count < uintCount)
    (itemsSmall : stream.items < uintCount) :
    kernel.SharesOut stream count ↔ stream.Fits count := by
  rw [← Stream.exists_shared_iff small itemsSmall]
  obtain ⟨behind, counted⟩ := streams
  constructor
  · rintro ⟨vector, scalar, others, counts, shared⟩
    refine ⟨vector, scalar, fun position inside => ?_, shared⟩
    let seat : Seat
      | .globalId, _ => position
      | .globalSize, _ => stream.items
      | _, _ => 0
    have own := counts position seat (fun _ => count) inside rfl rfl rfl
    obtain ⟨_, _, same, found⟩ := (counted seat (fun _ => count) _ inside rfl small).1 own
    exact found.of_perLoop_eq same
  · rintro ⟨vector, scalar, counts, shared⟩
    refine ⟨vector, scalar, behind, ?_, shared⟩
    rintro position seat locals inside stands sized rfl
    refine (counted seat locals _ (by rwa [stands]) sized small).2 ⟨_, _, rfl, ?_⟩
    rw [stands]
    exact counts position inside

theorem VectorUpdate.streams_of_emit {params : VectorUpdate} {index : Nat} {batch : Batch}
    {emission : Emission} {kernel : Kernel} (emits : params.emit index batch = .ok emission)
    (member : kernel ∈ emission.primary) (itemsSmall : params.stream.items < uintCount) :
    kernel.Streams params.stream := by
  obtain ⟨only, scalar, primary, _, stated, body⟩ := kernel_of_emit emits
  rw [primary] at member
  cases List.mem_singleton.1 member
  refine ⟨[], fun seat locals counters inside sized small => ?_⟩
  rcases body with ⟨narrow, body⟩ | ⟨wide, vector, vectors, body⟩
  · rw [body]
    exact Stream.blockCounts_alone_iff narrow (Batch.statements_end stated) inside sized
      itemsSmall small
  · rw [body]
    refine Stream.blockCounts_vectors_iff wide (Batch.statements_end vectors) inside sized
      itemsSmall small fun own => ?_
    rw [blockCounts_singleton]
    exact counts_tailLoop_iff (Batch.statements_end stated) rfl small rfl sized

theorem VectorUpdate.takes_of_emit {params : VectorUpdate} {index : Nat} {batch : Batch}
    {emission : Emission} {kernel : Kernel} (emits : params.emit index batch = .ok emission)
    (member : kernel ∈ emission.primary) : kernel.Takes params.stream batch.vectorNames := by
  obtain ⟨only, scalar, primary, _, stated, body⟩ := kernel_of_emit emits
  rw [primary] at member
  cases List.mem_singleton.1 member
  have single (seat : Seat) (locals : Variables) (handle : Buffer) (several : handle.rank ≠ 0) :
      (Access.element (.var "i")).reached seat locals handle = {[locals "i"]} := if_neg several
  rcases body with ⟨narrow, body⟩ | ⟨wide, vector, vectors, body⟩
  · refine ⟨[], scalar, [], ?bodies, ?takes⟩
    case bodies =>
      rw [body, blockBodies, rangeLoop_bodies]
      exact (if_neg narrow).symm
    case takes => exact {
      vector := fun wide => absurd wide narrow
      scalar := fun name named seat locals indices =>
        Batch.mem_touched_iff_of_vectorNames stated named (single seat locals)
      behind := fun _ _ _ _ _ _ absent => by cases absent }
  · refine ⟨vector, scalar, [], ?bodies, ?takes⟩
    case bodies =>
      rw [body, blockBodies, blockBodies, rangeLoop_bodies, tailLoop_bodies]
      exact (if_pos wide).symm
    case takes => exact {
      vector := fun _ name named seat locals indices =>
        Batch.mem_touched_iff_of_vectorNames vectors named fun handle several => if_neg several
      scalar := fun name named seat locals indices =>
        Batch.mem_touched_iff_of_vectorNames stated named (single seat locals)
      behind := fun _ _ _ _ _ _ absent => by cases absent }

namespace InnerProduct

/-- A turn adds products of the elements that it stands for. -/
theorem accumulation_takes (params : InnerProduct) (type : ElementType) :
    ∃ vector scalar,
      blockBodies (params.accumulation type) = params.stream.perLoop vector scalar [] ∧
        params.stream.Takes {"x", "y"} vector scalar [] := by
  refine ⟨[.run (.accumulate (.var "vacc") (.binary .mul
      (.load params.simdWidth (.var "i") "x") (.load params.simdWidth (.var "i") "y")))],
    [.run (.accumulate (.var "acc") (.binary .mul
      (element "x" (.var "i")) (element "y" (.var "i"))))], ?bodies, ?takes⟩
  case bodies =>
    unfold accumulation
    split
    · next wide =>
        simp only [blockBodies, rangeLoop_bodies, tailLoop_bodies, Statement.bodies]
        exact (if_pos wide).symm
    · next narrow =>
        simp only [blockBodies, rangeLoop_bodies]
        exact (if_neg narrow).symm
  case takes =>
    constructor
    case vector =>
      rintro wide array (rfl | rfl) seat locals indices
      all_goals simp [blockTouched, Instruction.touched, vectorTouched, Index.eval, stream]
    case scalar =>
      rintro array (rfl | rfl) seat locals indices
      all_goals simp [blockTouched, Instruction.touched, Place.touched, Index.eval, element]
    case behind => exact fun _ _ _ _ _ => List.forall_mem_nil _

/-- The sum of a work group touches no operand in its loop. -/
theorem groupSum_bodies_untouched {localSize : Nat} {target : Place} {array : String}
    (operand : array ∈ ({"x", "y"} : Set String)) (seat : Seat) (locals : Variables)
    (indices : List Nat) :
    ∀ body ∈ blockBodies (groupSum localSize target),
      ⟨array, indices⟩ ∉ blockTouched seat locals body := by
  intro body member
  have other : array ≠ "buf" := by
    rcases operand with rfl | rfl <;> decide
  simp only [groupSum, localFold, List.cons_append, blockBodies,
    Statement.bodies, List.nil_append, List.append_nil, List.mem_singleton] at member
  rw [member]
  simp [blockTouched, Statement.touched, Instruction.touched, Place.touched, other]

theorem firstPass_takes (params : InnerProduct) (index : Nat) (type : ElementType) :
    (params.firstPass index type).Takes params.stream {"x", "y"} := by
  obtain ⟨vector, scalar, streamed, takes⟩ := accumulation_takes params type
  have started : blockBodies (preamble type params.localSize0) = [] := rfl
  refine ⟨vector, scalar,
    blockBodies (groupSum params.localSize0 (.element "partials" [.workItem .groupId 0])),
    ?_, takes.vector, takes.scalar,
    fun array operand seat locals indices => groupSum_bodies_untouched operand seat locals indices⟩
  rw [firstPass, blockBodies_append, blockBodies_append, started, streamed, List.nil_append,
    Stream.perLoop_append]

/-- The sum of a work group ends, with the same counters for every work item. -/
theorem exists_groupSum_counts (localSize : Nat) (target : Place) :
    ∃ values, ∀ (seat : Seat) (locals : Variables) (counters : List (List Nat)),
      blockCounts seat locals (groupSum localSize target) counters ↔ counters = [values] := by
  obtain ⟨values, folded⟩ :=
    exists_localFold_counts "lid" (fun index => .element "buf" [index]) localSize
  refine ⟨values, fun seat locals counters => ?_⟩
  rw [groupSum, List.append_assoc, List.singleton_append, blockCounts_run_cons, blockCounts_append]
  simp only [folded, blockCounts_guarded_cons, blockCounts_nil]
  constructor
  · rintro ⟨_, _, rfl, rfl, rfl⟩
    rfl
  · rintro rfl
    exact ⟨[values], [], rfl, rfl, rfl⟩

theorem firstPass_streams {params : InnerProduct} {index : Nat} {type : ElementType}
    (itemsSmall : params.stream.items < uintCount) :
    (params.firstPass index type).Streams params.stream := by
  obtain ⟨values, sumCounts⟩ :=
    exists_groupSum_counts params.localSize0 (.element "partials" [.workItem .groupId 0])
  refine ⟨[values], fun seat locals counters inside sized small => ?_⟩
  have counted : (update locals "lid" (seat .localId 0 % uintCount)) "N" = locals "N" :=
    Function.update_of_ne (by decide) _ _
  have streamed (inner : Variables) (same : inner "N" = locals "N") (own : List (List Nat)) :
      blockCounts seat inner (params.accumulation type) own ↔
        ∃ vector scalar, own = params.stream.perLoop vector scalar [] ∧
          params.stream.Counts (locals "N") (seat .globalId 0) vector scalar := by
    rw [← same] at small ⊢
    have ends (instruction : Instruction) (deeper : Variables) :
        blockCounts seat deeper [.run instruction] [] := blockCounts_runs [instruction] deeper
    unfold accumulation
    split
    · next wide =>
        rw [blockCounts_run_cons]
        refine Stream.blockCounts_vectors_iff wide (ends _) inside sized itemsSmall small
          fun own => ?_
        rw [blockCounts_run_cons, blockCounts_singleton]
        exact counts_tailLoop_iff (ends _) rfl small rfl sized
    · next narrow =>
        exact Stream.blockCounts_alone_iff narrow (ends _) inside sized itemsSmall small
  rw [firstPass, List.append_assoc, preamble, List.cons_append, List.cons_append, List.cons_append,
    List.nil_append, blockCounts_run_cons, blockCounts_run_cons, blockCounts_run_cons,
    blockCounts_append]
  constructor
  · rintro ⟨first, second, rfl, started, summed⟩
    obtain ⟨vector, scalar, rfl, counts⟩ := (streamed _ counted first).1 started
    obtain rfl := (sumCounts _ _ second).1 summed
    exact ⟨vector, scalar, Stream.perLoop_append _ _ _ _, counts⟩
  · rintro ⟨vector, scalar, rfl, counts⟩
    exact ⟨_, [values], (Stream.perLoop_append _ _ _ _).symm,
      (streamed _ counted _).2 ⟨vector, scalar, rfl, counts⟩, (sumCounts _ _ _).2 rfl⟩

end InnerProduct

/-! ### Variants -/

namespace Variant

variable {variant : Variant} {stream : Stream} {index count : Nat} {batch : Batch}
  {emission : Emission} {kernel : Kernel}

theorem streams_of_emit (accepted : variant.check = .ok variant)
    (ranged : variant.stream? = some stream) (emits : variant.emit index batch = .ok emission)
    (first : emission.primary.head? = some kernel) :
    stream.items < uintCount ∧ kernel.Streams stream ∧
      kernel.Takes stream (variant.streamed batch) := by
  obtain ⟨checked, _⟩ := check_eq_ok_iff.1 accepted
  cases variant with
  | vectorUpdate params =>
      obtain rfl := Option.some.inj ranged
      have small : params.stream.items < uintCount :=
        Nat.lt_succ_of_le (checked.products _ List.mem_cons_self)
      have member := List.mem_of_head? first
      exact ⟨small, VectorUpdate.streams_of_emit emits member small,
        VectorUpdate.takes_of_emit emits member⟩
  | innerProduct params =>
      obtain rfl := Option.some.inj ranged
      have small : params.stream.items < uintCount :=
        Nat.lt_succ_of_le (checked.products _ List.mem_cons_self)
      obtain ⟨_, _, same⟩ := bind_eq_ok_iff.1 emits
      cases pure_eq_ok_iff.1 same
      obtain rfl := Option.some.inj first
      exact ⟨small, InnerProduct.firstPass_streams small,
        InnerProduct.firstPass_takes params index _⟩
  | matrixUpdate => cases ranged
  | matrixVector => cases ranged
  | matrixProduct => cases ranged

/-- A turn of the loops over the elements of vectors takes the elements that it stands for. The
loops end for every work item, and together take each element once, exactly when none of them
wraps before it is done. -/
theorem sharesOut_iff (accepted : variant.check = .ok variant)
    (ranged : variant.stream? = some stream) (emits : variant.emit index batch = .ok emission)
    (first : emission.primary.head? = some kernel) (admitted : count ≤ Size.kernelLimit) :
    kernel.Takes stream (variant.streamed batch) ∧
      (kernel.SharesOut stream count ↔ stream.Fits count) := by
  obtain ⟨itemsSmall, streams, takes⟩ := streams_of_emit accepted ranged emits first
  exact ⟨takes, streams.sharesOut_iff_fits (Nat.lt_succ_of_le admitted) itemsSmall⟩

/-- Scaling a vector takes one kernel, whatever its length. -/
theorem streaming_kernel (length : UInt64) :
    ∃ emission kernel, streaming.emit 0 (.scaling ⟨0⟩ ⟨1⟩ length 2) = .ok emission ∧
      emission.primary.head? = some kernel := by
  have emitted : ∃ emission, streaming.emit 0 (.scaling ⟨0⟩ ⟨1⟩ length 2) = .ok emission :=
    scaling_emits (by decide)
  obtain ⟨emission, emits⟩ := emitted
  obtain ⟨kernel, _, primary, _⟩ := VectorUpdate.kernel_of_emit emits
  exact ⟨emission, kernel, emits, by rw [primary, List.head?_cons]⟩

/-- Eight elements are shared out among the first eight of 8192 work items. -/
theorem streaming_shares_eight :
    streaming.check = .ok streaming ∧ streaming.stream? = some ⟨.strided, 1, 8192⟩ ∧
      8 ≤ Size.kernelLimit ∧
        ∃ emission kernel, streaming.emit 0 (.scaling ⟨0⟩ ⟨1⟩ 8 2) = .ok emission ∧
          emission.primary.head? = some kernel ∧
          kernel.Takes ⟨.strided, 1, 8192⟩ (streaming.streamed (.scaling ⟨0⟩ ⟨1⟩ 8 2)) ∧
          kernel.SharesOut ⟨.strided, 1, 8192⟩ 8 := by
  have accepted : streaming.check = .ok streaming := rfl
  have ranged : streaming.stream? = some ⟨.strided, 1, 8192⟩ := rfl
  have admitted : 8 ≤ Size.kernelLimit := by decide
  have fits : Stream.Fits ⟨.strided, 1, 8192⟩ 8 := Stream.fits_of_room (by decide) (by decide)
  obtain ⟨emission, kernel, emits, first⟩ := streaming_kernel 8
  obtain ⟨takes, shared_iff⟩ := sharesOut_iff accepted ranged emits first admitted
  exact ⟨accepted, ranged, admitted, emission, kernel, emits, first,
    takes, shared_iff.2 fits⟩

/-- A vector of the greatest length is accepted, and is not shared out: the counters wrap. -/
theorem streaming_overruns :
    streaming.check = .ok streaming ∧ streaming.stream? = some ⟨.strided, 1, 8192⟩ ∧
      VectorUpdate.length (.scaling ⟨0⟩ ⟨1⟩ 0xFFFFFFFF 2) = .ok Size.kernelLimit ∧
        ∃ emission kernel, streaming.emit 0 (.scaling ⟨0⟩ ⟨1⟩ 0xFFFFFFFF 2) = .ok emission ∧
          emission.primary.head? = some kernel ∧
          ¬ kernel.SharesOut ⟨.strided, 1, 8192⟩ Size.kernelLimit := by
  have accepted : streaming.check = .ok streaming := rfl
  have ranged : streaming.stream? = some ⟨.strided, 1, 8192⟩ := rfl
  have wraps : ¬ Stream.Fits ⟨.strided, 1, 8192⟩ Size.kernelLimit := by decide
  obtain ⟨emission, kernel, emits, first⟩ := streaming_kernel 0xFFFFFFFF
  obtain ⟨itemsSmall, streams, _⟩ := streams_of_emit accepted ranged emits first
  have small : Size.kernelLimit < uintCount := by decide
  have shared_iff := streams.sharesOut_iff_fits small itemsSmall
  have length : VectorUpdate.length (.scaling ⟨0⟩ ⟨1⟩ 0xFFFFFFFF 2) = .ok Size.kernelLimit := rfl
  exact ⟨accepted, ranged, length, emission, kernel, emits, first, mt shared_iff.1 wraps⟩

end Variant

end KernelTuner
