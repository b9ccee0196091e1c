import KernelTuner.Proofs.Kernel.Distribution
import KernelTuner.Proofs.Kernel.Unrolling
import Mathlib.Algebra.BigOperators.Group.Finset.Basic

/-!
Contract: what each work item has of a range, with arithmetic taken as exact.

Owns: the portions of work items, which share out the range (`portion_allotment`); the steps of
the loops over a range; and sums over portions.

Does not own: when a device counts through the same portions (`Proofs.Kernel.Distribution`,
`Proofs.Kernel.Exactness`).
-/

set_option autoImplicit false

namespace KernelTuner.Kernel

open Function (update)

/-! ### Portions -/

/-- The indices of a range up to `count` that a work item has, by its position among `items`. -/
def portion (fetch : Fetch) (items count position : Nat) : List Nat :=
  match fetch with
  | .contiguous =>
      stepsBelow (position * chunkSize count items)
        (min (position * chunkSize count items + chunkSize count items) count) 1
  | .staged | .strided => stepsBelow position count items

section Portions

variable {items count position value : Nat}

theorem mem_chunk : value ∈ portion .contiguous items count position ↔
    position * chunkSize count items ≤ value ∧
      value < position * chunkSize count items + chunkSize count items ∧ value < count := by
  rw [portion, mem_stepsBelow Nat.one_pos, Nat.lt_min]
  constructor
  · rintro ⟨inside, rounds, rfl⟩
    exact ⟨Nat.le_add_right _ _, inside⟩
  · rintro ⟨behind, inside⟩
    exact ⟨inside, value - position * chunkSize count items, by omega⟩

theorem lt_of_mem_portion {fetch : Fetch} (positive : 0 < items)
    (listed : value ∈ portion fetch items count position) : value < count := by
  cases fetch with
  | contiguous => exact (mem_chunk.1 listed).2.2
  | staged => exact ((mem_stepsBelow positive).1 listed).1
  | strided => exact ((mem_stepsBelow positive).1 listed).1

theorem strides_allotment {base : Nat} (ordered : base ≤ count) (nonempty : 0 < items) :
    Allotment items (fun position => stepsBelow (base + position) count items)
      (List.range' base (count - base)) := by
  refine Allotment.of_owner (fun value => (value - base) % items) List.nodup_range'
    (fun position _ => nodup_stepsBelow nonempty) ?_ fun value _ => Nat.mod_lt _ nonempty
  intro position inside value
  rw [mem_stepsBelow nonempty, List.mem_range'_1]
  constructor
  · rintro ⟨below, rounds, rfl⟩
    have offset : base + position + rounds * items - base = position + rounds * items := by omega
    rw [offset, Nat.add_mul_mod_self_right, Nat.mod_eq_of_lt inside]
    exact ⟨by omega, rfl⟩
  · rintro ⟨⟨behind, below⟩, rfl⟩
    have split := Nat.mod_add_div' (value - base) items
    exact ⟨by omega, (value - base) / items, by omega⟩

theorem chunks_allotment (nonempty : 0 < items) :
    Allotment items (portion .contiguous items count) (List.range count) := by
  have covers : count ≤ items * chunkSize count items := le_items_mul_chunkSize nonempty
  refine Allotment.of_owner (fun value => value / chunkSize count items) List.nodup_range
    (fun position _ => nodup_stepsBelow Nat.one_pos) ?_ fun value below => ?_
  · intro position _ value
    rw [mem_chunk, List.mem_range]
    rcases Nat.eq_zero_or_pos (chunkSize count items) with none | positive
    · rw [none] at covers ⊢
      omega
    · rw [Nat.div_eq_iff positive]
      omega
  · refine Nat.div_lt_of_lt_mul ?_
    rw [Nat.mul_comm]
    exact Nat.lt_of_lt_of_le (List.mem_range.1 below) covers

/-- Work items share out a range. -/
theorem portion_allotment (fetch : Fetch) (count : Nat) (nonempty : 0 < items) :
    Allotment items (portion fetch items count) (List.range count) := by
  have strides : Allotment items (fun position => stepsBelow position count items)
      (List.range count) := by
    simpa [List.range_eq_range'] using strides_allotment (Nat.zero_le count) nonempty
  cases fetch with
  | contiguous => exact chunks_allotment nonempty
  | staged => exact strides
  | strided => exact strides

section Sums

variable {α : Type} [AddCommMonoid α]

theorem sum_map_range' (term : Nat → α) (start length : Nat) :
    ((List.range' start length).map term).sum =
      ∑ offset ∈ Finset.range length, term (start + offset) := by
  induction length with
  | zero => rfl
  | succ length inductionHypothesis =>
      rw [List.range'_1_concat, List.map_append, List.sum_append, inductionHypothesis,
        Finset.sum_range_succ]
      simp

/-- What work items sum up over their shares of a range is the sum over the range. -/
theorem Allotment.sum_eq {values : Nat → List Nat} (allotment : Allotment items values (List.range count))
    (term : Nat → α) :
    ∑ position ∈ Finset.range items, ((values position).map term).sum =
      ∑ value ∈ Finset.range count, term value := by
  have whole := (List.Perm.map term allotment).sum_eq
  have along (some : Nat) : ∑ position ∈ Finset.range some, ((values position).map term).sum =
      (((List.range some).flatMap values).map term).sum := by
    induction some with
    | zero => rfl
    | succ some inductionHypothesis =>
        rw [Finset.sum_range_succ, inductionHypothesis, List.range_succ, List.flatMap_append,
          List.map_append, List.sum_append, List.flatMap_singleton]
  rw [along, whole, List.range_eq_range', sum_map_range']
  simp only [Nat.zero_add]

end Sums

end Portions

/-! ### Loops -/

/-- A step that only declares an index. -/
def Step.Idle (step : Step) : Prop := ∃ name value, step.instruction = .declareIndex name value

section Loops

variable {seat : Seat} {locals : Variables} {counter : String} {count : Index} {bound : Nat}
  {body : List Statement} {rounds : Nat → List Step}

/-- Declarations of indices are steps that only declare indices. -/
theorem exists_idle (seat : Seat) (locals : Variables) (declarations : List (String × Index)) :
    ∃ declared : List Step, (∀ step ∈ declared, step.Idle) ∧ blockUnrolls seat locals
      (declarations.map fun declaration => .run (.declareIndex declaration.1 declaration.2))
        declared := by
  induction declarations generalizing locals with
  | nil => exact ⟨[], List.forall_mem_nil _, rfl⟩
  | cons declaration rest inductionHypothesis =>
      obtain ⟨declared, idle, unrolls⟩ := inductionHypothesis _
      exact ⟨_, List.forall_mem_cons.2 ⟨⟨_, _, rfl⟩, idle⟩,
        blockUnrolls_run_cons.2 ⟨declared, rfl, unrolls⟩⟩

theorem unrolls_stridedLoop {dimension : Nat} (positive : 0 < seat .globalSize dimension)
    (stable : ∀ inner, SameOutside counter inner locals → count.eval seat inner = bound)
    (each : ∀ value ∈ portion .strided (seat .globalSize dimension) bound (seat .globalId dimension),
      blockUnrolls seat (update locals counter value) body (rounds value)) :
    (rangeLoop .strided counter count dimension body).Unrolls seat locals
      ((portion .strided (seat .globalSize dimension) bound
        (seat .globalId dimension)).flatMap rounds) := by
  refine ⟨_, rounds, (LoopHead.takes_iff positive bound (fun _ => rfl) fun value => ?_).2 rfl, each,
    rfl⟩
  have start : SameOutside counter locals locals := fun _ _ => rfl
  have bounded := stable (update locals counter value) (start.update List.mem_cons_self value)
  simp only [Condition.Holds, Index.eval, Function.update_self, bounded]

theorem unrolls_chunkedLoop {dimension : Nat}
    (stable : ∀ inner, SameOutside counter inner locals → count.eval seat inner = bound)
    (each : ∀ value ∈ portion .contiguous (seat .globalSize dimension) bound
        (seat .globalId dimension),
      blockUnrolls seat (rangeVariables .contiguous counter (seat .globalSize dimension) bound
        (seat .globalId dimension) locals value) body (rounds value)) :
    ∃ declared : List Step, (∀ step ∈ declared, step.Idle) ∧
      (rangeLoop .contiguous counter count dimension body).Unrolls seat locals
        (declared ++ (portion .contiguous (seat .globalSize dimension) bound
          (seat .globalId dimension)).flatMap rounds) := by
  have start : SameOutside counter locals locals := fun _ _ => rfl
  have chunkApart : "chunk_" ++ counter ≠ "start_" ++ counter := by simp
  have startApart : "start_" ++ counter ≠ "end_" ++ counter := by simp
  have counterApart : "end_" ++ counter ≠ counter := by simp
  have own := stable locals start
  have bounded (chunk first : Nat) := stable (update (update locals
    ("chunk_" ++ counter) chunk) ("start_" ++ counter) first)
      ((start.update (by simp [rangeNames]) _).update (by simp [rangeNames]) _)
  let items : Index := .workItem .globalSize dimension
  let declarations : List (String × Index) := [
    ("chunk_" ++ counter, .div (.sub (.add count items) (.literal 1)) items),
    ("start_" ++ counter, .mul (.workItem .globalId dimension) (.var ("chunk_" ++ counter))),
    ("end_" ++ counter, .minimum (.add (.var ("start_" ++ counter)) (.var ("chunk_" ++ counter)))
      (.narrow count))]
  obtain ⟨declared, idle, unrolls⟩ := exists_idle seat locals declarations
  refine ⟨declared, idle, blockUnrolls_append.2 ⟨_, _, rfl, unrolls, blockUnrolls_singleton.2 ?_⟩⟩
  have declares : blockBind seat locals
      (declarations.map fun declaration => .run (.declareIndex declaration.1 declaration.2)) =
        update (update (update locals ("chunk_" ++ counter) (chunkSize bound
          (seat .globalSize dimension))) ("start_" ++ counter)
            (seat .globalId dimension * chunkSize bound (seat .globalSize dimension)))
          ("end_" ++ counter) (min (seat .globalId dimension * chunkSize bound
            (seat .globalSize dimension) + chunkSize bound (seat .globalSize dimension)) bound) := by
    simp only [declarations, items, blockBind, List.map_cons, List.map_nil, List.foldl_cons,
      List.foldl_nil, Statement.bind, Index.eval, own, Function.update_self, bounded,
      Function.update_of_ne chunkApart]
    rfl
  rw [declares]
  refine ⟨_, rounds, (LoopHead.takes_iff Nat.one_pos (min (seat .globalId dimension * chunkSize bound
    (seat .globalSize dimension) + chunkSize bound (seat .globalSize dimension)) bound)
      (fun _ => rfl) fun value => ?_).2 rfl, ?_, ?_⟩
  · simp [Condition.Holds, Index.eval, counterApart]
  all_goals simp only [Index.eval, Function.update_of_ne startApart, Function.update_self]
  · exact each
  · rfl

/-- The loop over a range runs its body for the portion of the work item. -/
theorem exists_unrolls_rangeLoop (fetch : Fetch) {dimension : Nat}
    (positive : 0 < seat .globalSize dimension)
    (stable : ∀ inner, SameOutside counter inner locals → count.eval seat inner = bound)
    (each : ∀ value ∈ portion fetch (seat .globalSize dimension) bound (seat .globalId dimension),
      blockUnrolls seat (rangeVariables fetch counter (seat .globalSize dimension) bound
        (seat .globalId dimension) locals value) body (rounds value)) :
    ∃ declared : List Step, (∀ step ∈ declared, step.Idle) ∧
      (rangeLoop fetch counter count dimension body).Unrolls seat locals
        (declared ++ (portion fetch (seat .globalSize dimension) bound
          (seat .globalId dimension)).flatMap rounds) := by
  cases fetch with
  | contiguous => exact unrolls_chunkedLoop stable each
  | staged => exact ⟨[], List.forall_mem_nil _, unrolls_stridedLoop positive stable each⟩
  | strided => exact ⟨[], List.forall_mem_nil _, unrolls_stridedLoop positive stable each⟩

/-- The scalar tail of a vector loop goes on behind the whole vectors. -/
theorem unrolls_tailLoop {width : Nat} (positive : 0 < seat .globalSize 0)
    (each : ∀ value ∈ stepsBelow (locals "N" / width * width + seat .globalId 0) (locals "N")
        (seat .globalSize 0), blockUnrolls seat (update locals "i" value) body (rounds value)) :
    (tailLoop width body).Unrolls seat locals
      ((stepsBelow (locals "N" / width * width + seat .globalId 0) (locals "N")
        (seat .globalSize 0)).flatMap rounds) :=
  ⟨_, rounds, (LoopHead.takes_iff positive (locals "N") (fun _ => rfl)
    fun value => by simp [Condition.Holds, Index.eval]).2 rfl, each, rfl⟩

end Loops

end KernelTuner.Kernel
