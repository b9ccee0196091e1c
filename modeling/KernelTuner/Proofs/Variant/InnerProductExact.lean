import KernelTuner.Proofs.Kernel.Exactness
import KernelTuner.Proofs.Kernel.Folding
import KernelTuner.Variant.InnerProduct

/-!
Contract: inner products whose indices do not wrap.

Owns: when the loops over a range and the fold of a group are exact; and that both passes of an
inner product are, as long as the vectors and the range of the launch together are counted in
32 bits.

Does not own: what the passes compute (`Proofs.Variant.InnerProductRuns`).
-/

set_option autoImplicit false

namespace KernelTuner

open Kernel
open Function (update)

namespace Kernel

variable {seat : Seat} {locals : Variables}

/-! ### Loops -/

section Loops

variable {counter : String} {count : Index} {dimension bound items : Nat} {body : List Statement}

theorem stridedLoop_exact
    (stable : ∀ inner, SameOutside counter inner locals →
      count.computed seat inner = bound ∧ count.eval seat inner = bound)
    (sized : seat .globalSize dimension = items) (inside : seat .globalId dimension < items)
    (room : bound + items < uintCount)
    (each : ∀ inner, SameOutside counter inner locals → inner counter < bound →
      blockExact seat inner body) :
    (rangeLoop .strided counter count dimension body).Exact seat locals := by
  have start : SameOutside counter locals locals := fun _ _ => rfl
  have goes (value : Nat) := stable (update locals counter value)
    (start.update List.mem_cons_self value)
  have exact : LoopHead.Exact seat locals ⟨counter, .workItem .globalId dimension,
      .less (.var counter) count, .advance (.workItem .globalSize dimension)⟩ := by
    refine LoopHead.exact_of_bound bound ?_ (fun value => ?_) (fun value => ?_) fun value below => ?_
    · exact Nat.mod_eq_of_lt (by simp only [Index.computed]; omega)
    · simp [Condition.Met, Index.computed, (goes value).1]
    · simp [Condition.Holds, Index.eval, (goes value).2]
    · simp only [LoopHead.moved, LoopHead.next, Index.computed, Index.eval, sized]
      exact Nat.mod_eq_of_lt (by omega)
  refine ⟨exact, fun value turn => each _ (start.update List.mem_cons_self value) ?_⟩
  have below := turn.runs
  simp only [Condition.Holds, Index.eval, (goes value).2] at below
  exact below

/-- The last work item's chunk ends below the bound and the number of items together. -/
theorem chunk_end_lt {position : Nat} (inside : position < items) (room : bound + items < uintCount) :
    position * chunkSize bound items + chunkSize bound items < uintCount := by
  have whole := items_mul_chunkSize_le bound items
  have few := Nat.mul_le_mul_right (chunkSize bound items) (Nat.succ_le_of_lt inside)
  rw [Nat.succ_mul] at few
  omega

theorem chunkedLoop_exact
    (stable : ∀ inner, SameOutside counter inner locals →
      count.computed seat inner = bound ∧ count.eval seat inner = bound)
    (sized : seat .globalSize dimension = items) (inside : seat .globalId dimension < items)
    (room : bound + items < uintCount)
    (each : ∀ inner, SameOutside counter inner locals → inner counter < bound →
      blockExact seat inner body) :
    (rangeLoop .contiguous counter count dimension body).Exact seat locals := by
  have start : SameOutside counter locals locals := fun _ _ => rfl
  have chunkApart : "chunk_" ++ counter ≠ "start_" ++ counter := by simp
  have startApart : "start_" ++ counter ≠ "end_" ++ counter := by simp
  have counterApart : "end_" ++ counter ≠ counter := by simp
  obtain ⟨ownComputed, own⟩ := stable locals start
  have nonempty : 0 < items := Nat.zero_lt_of_lt inside
  have small : bound < uintCount := by omega
  have word : uintCount ≤ Size.wordCount := by decide
  have ends := chunk_end_lt inside room
  have bounded (chunk first : Nat) := stable (update (update locals
    ("chunk_" ++ counter) chunk) ("start_" ++ counter) first)
      ((start.update (by simp [rangeNames]) _).update (by simp [rangeNames]) _)
  have sumWide : operandCount count (.workItem .globalSize dimension) = Size.wordCount :=
    operandCount_of_wide (Bool.or_true _)
  have differenceWide :
      operandCount (.add count (.workItem .globalSize dimension)) (.literal 1) =
        Size.wordCount := operandCount_of_wide (by simp [Index.isWide])
  have chunk := chunkSize_computed nonempty small (Nat.lt_of_le_of_lt (Nat.le_add_left _ _) room)
  have isChunk : (bound + items - 1) / items = chunkSize bound items := rfl
  simp only [rangeLoop, Statement.Exact, blockExact_cons, blockExact_nil, and_true,
    Instruction.Exact, Statement.bind, Index.computed, Index.eval, ownComputed, own, sized, sumWide,
    differenceWide, chunk, isChunk, Function.update_self, Function.update_of_ne chunkApart, bounded,
    true_and]
  refine ⟨?_, ?_, ?_, ?_⟩
  · rw [mod_operandCount (by omega)]
    exact Nat.mod_eq_of_lt (by omega)
  · rw [mod_operandCount ends, Nat.mod_eq_of_lt small]
    exact Nat.mod_eq_of_lt (by omega)
  · refine LoopHead.exact_of_bound (min (seat .globalId dimension * chunkSize bound items +
      chunkSize bound items) bound) ?_ (fun value => ?_) (fun value => ?_) fun value below => ?_
    · simp only [Index.computed, Index.eval, Function.update_self, Function.update_of_ne startApart]
      exact Nat.mod_eq_of_lt (by omega)
    · simp [Condition.Met, Index.computed, counterApart]
    · simp [Condition.Holds, Index.eval, counterApart]
    · exact Nat.mod_eq_of_lt (by omega)
  · intro value turn
    have below := turn.runs
    simp only [Condition.Holds, Index.eval, Function.update_self, Function.update_of_ne counterApart]
      at below
    refine each _ ((((start.update (by simp [rangeNames]) _).update (by simp [rangeNames]) _).update
      (by simp [rangeNames]) _).update List.mem_cons_self _) ?_
    rw [Function.update_self]
    omega

/-- The loop over a range is exact where the range and the work items are counted in 32 bits
together. -/
theorem rangeLoop_exact (fetch : Fetch)
    (stable : ∀ inner, SameOutside counter inner locals →
      count.computed seat inner = bound ∧ count.eval seat inner = bound)
    (sized : seat .globalSize dimension = items) (inside : seat .globalId dimension < items)
    (room : bound + items < uintCount)
    (each : ∀ inner, SameOutside counter inner locals → inner counter < bound →
      blockExact seat inner body) :
    (rangeLoop fetch counter count dimension body).Exact seat locals := by
  cases fetch with
  | contiguous => exact chunkedLoop_exact stable sized inside room each
  | staged => exact stridedLoop_exact stable sized inside room each
  | strided => exact stridedLoop_exact stable sized inside room each

theorem tailLoop_exact {width : Nat} (sized : seat .globalSize 0 = items)
    (inside : seat .globalId 0 < items) (room : locals "N" + items < uintCount)
    (each : ∀ value, blockExact seat (update locals "i" value) body) :
    (tailLoop width body).Exact seat locals := by
  have whole : locals "N" / width * width ≤ locals "N" := Nat.div_mul_le_self _ _
  refine ⟨LoopHead.exact_of_bound (locals "N") ?_ (fun value => ?_) (fun value => ?_)
    fun value below => ?_, fun value _ => each value⟩
  · simp only [Index.computed, Index.eval]
    rw [mod_operandCount (lt_of_le_of_lt whole (by omega)), mod_operandCount (by omega)]
    exact Nat.mod_eq_of_lt (by omega)
  · simp [Condition.Met, Index.computed]
  · simp [Condition.Holds, Index.eval]
  · simp only [LoopHead.moved, LoopHead.next, Index.computed, Index.eval, sized]
    exact Nat.mod_eq_of_lt (by omega)

end Loops

/-! ### Folds -/

theorem foldStart_le {size : Nat} (small : size ≤ Size.kernelLimit) :
    foldStart size ≤ 0x80000000 := by
  have limited : Size.leastPowerOfTwo size ≤ 2 ^ 32 :=
    leastPowerOfTwo_le (le_trans small (by decide))
  rw [foldStart, Size.word_eq_self (lt_of_le_of_lt limited (by decide))]
  omega

/-- The fold of a row of local memory is exact. -/
theorem localFold_exact {name array : String} (front : List Index)
    (plain : ∀ index ∈ front, ∀ inner, index.Exact seat inner) {size : Nat}
    (small : size ≤ Size.kernelLimit) (apart : name ≠ "stride") :
    blockExact seat locals
      (localFold name (fun index => .element array (front ++ [index])) size) := by
  have limited := foldStart_le small
  have head : LoopHead.Exact seat locals
      ⟨"stride", .literal (foldStart size), .greater (.var "stride") (.literal 0), .halve⟩ := by
    refine ⟨?_, fun _ _ => Iff.rfl, fun _ _ => rfl⟩
    exact Nat.mod_eq_of_lt (lt_of_le_of_lt limited (by decide))
  have near (value : Nat) (turn : LoopHead.Turn seat locals
      ⟨"stride", .literal (foldStart size), .greater (.var "stride") (.literal 0), .halve⟩ value) :
      value ≤ foldStart size := by
    induction turn with
    | first _ => exact Nat.le_refl _
    | next _ _ inductionHypothesis => exact le_trans (Nat.div_le_self _ 2) inductionHypothesis
  refine ⟨trivial, ⟨head, fun value turn => ?_⟩, trivial⟩
  have short := near value turn
  -- The sum is computed where the lane is below the stride, and does not wrap there.
  have exact (below : locals name < value) :
      (locals name + value) % operandCount (.var name) (.var "stride") = locals name + value :=
    mod_operandCount (by unfold uintCount; omega)
  have own : update locals "stride" value name = locals name := Function.update_of_ne apart ..
  have entry {index : Index} (last : index.Exact seat (update locals "stride" value)) :
      ∀ other ∈ front ++ [index], other.Exact seat (update locals "stride" value) :=
    List.forall_mem_append.2
      ⟨fun other listed => plain other listed _, List.forall_mem_singleton.2 last⟩
  simp only [blockExact_cons, blockExact_nil, and_true, Statement.Exact, Instruction.Exact,
    Condition.Met, Condition.Holds, Place.Exact, Value.Exact, Index.computed, Index.eval,
    Statement.bind, Function.update_self, own]
  refine ⟨and_congr_right fun below => ?_, fun both => ⟨entry rfl, entry ?_⟩⟩
  · rw [exact below]
  · simp only [Index.Exact, Index.computed, Index.eval, Function.update_self, own]
    exact exact both.1

end Kernel

namespace InnerProduct

variable {seat : Seat} {locals : Variables} {params : InnerProduct} {index : Nat}
  {type : ElementType} {size : Nat}

/-! ### Passes -/

theorem laneSum_exact (width : Nat) : (laneSum width).Exact seat locals := by
  have added (lanes : List Nat) (sum : Value) (exact : sum.Exact seat locals) :
      (lanes.foldl (fun sum lane => .binary .add sum (.lane "vacc" lane)) sum).Exact seat
        locals := by
    induction lanes generalizing sum with
    | nil => exact exact
    | cons lane rest inductionHypothesis => exact inductionHypothesis _ ⟨exact, trivial⟩
  exact added _ _ trivial

theorem preamble_exact (small : seat .localId 0 < uintCount) :
    blockExact seat locals (preamble type size) :=
  ⟨trivial, Nat.mod_eq_of_lt small, trivial, trivial⟩

theorem groupSum_exact {array : String} {index : Index} (small : size ≤ Size.kernelLimit)
    (target : ∀ inner, index.Exact seat inner) :
    blockExact seat locals (groupSum size (.element array [index])) := by
  simp only [groupSum, blockExact_append]
  refine ⟨⟨⟨⟨?_, trivial⟩, trivial⟩, localFold_exact [] (List.forall_mem_nil _) small (by decide)⟩,
    ⟨⟨Iff.rfl, fun _ => ?_⟩, trivial⟩⟩
  · exact List.forall_mem_singleton.2 rfl
  · exact ⟨List.forall_mem_singleton.2 (target _), List.forall_mem_singleton.2 rfl⟩

theorem accumulation_exact (sized : seat .globalSize 0 = params.localSize0 * params.groups0)
    (inside : seat .globalId 0 < params.localSize0 * params.groups0)
    (room : locals "N" + params.localSize0 * params.groups0 < uintCount) :
    blockExact seat locals (params.accumulation type) := by
  have product (inner : Variables) : blockExact seat inner [.run (.accumulate (.var "acc")
      (.binary .mul (element "x" (.var "i")) (element "y" (.var "i"))))] :=
    ⟨⟨trivial, List.forall_mem_singleton.2 rfl, List.forall_mem_singleton.2 rfl⟩, trivial⟩
  unfold accumulation
  split
  · have fewer := Nat.div_le_self (locals "N") params.simdWidth
    refine ⟨trivial, ?_, ⟨trivial, laneSum_exact _⟩, ?_, trivial⟩
    · refine rangeLoop_exact params.fetch (fun inner same => ?_) sized inside
        (show locals "N" / params.simdWidth + params.localSize0 * params.groups0 < uintCount by omega)
        fun inner _ _ => ?_
      · simp [Index.computed, Index.eval, same "N" (by decide), Statement.bind]
      · exact ⟨⟨trivial, rfl, rfl⟩, trivial⟩
    · simp only [rangeLoop_bind]
      exact tailLoop_exact sized inside room fun value => product _
  · refine ⟨rangeLoop_exact params.fetch (fun inner same => ?_) sized inside room
      fun inner _ _ => product inner, trivial⟩
    simp [Index.computed, Index.eval, same "N" (by decide)]

theorem firstPass_exact (lane : seat .localId 0 < uintCount)
    (sized : seat .globalSize 0 = params.localSize0 * params.groups0)
    (inside : seat .globalId 0 < params.localSize0 * params.groups0)
    (small : params.localSize0 ≤ Size.kernelLimit)
    (room : locals "N" + params.localSize0 * params.groups0 < uintCount) :
    blockExact seat locals (params.firstPass index type).body := by
  simp only [firstPass, blockExact_append]
  exact ⟨⟨preamble_exact lane, accumulation_exact sized inside room⟩,
    groupSum_exact small fun _ => rfl⟩

theorem secondPass_exact (lane : seat .localId 0 < params.localSize0)
    (small : params.localSize0 ≤ Size.kernelLimit)
    (room : locals "G" + params.localSize0 ≤ uintCount) :
    blockExact seat locals (params.secondPass index type).body := by
  simp only [secondPass, blockExact_append]
  refine ⟨⟨preamble_exact (by omega), ⟨?_, ?_⟩, trivial⟩, groupSum_exact small fun _ => rfl⟩
  · refine LoopHead.exact_of_bound (locals "G") ?_ (fun value => ?_) (fun value => ?_)
      fun value below => ?_
    · exact Nat.mod_eq_of_lt (lt_of_lt_of_le lane (by omega))
    · simp [Condition.Met, Index.computed, blockBind, preamble, Statement.bind]
    · simp [Condition.Holds, Index.eval, blockBind, preamble, Statement.bind]
    · exact Nat.mod_eq_of_lt (by simp only [Index.computed]; omega)
  · intro value _
    exact ⟨⟨trivial, List.forall_mem_singleton.2 rfl⟩, trivial⟩

end InnerProduct

end KernelTuner
