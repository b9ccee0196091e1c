import KernelTuner.Proofs.Kernel.Unrolling
import KernelTuner.Proofs.Variant.Accepted
import KernelTuner.Proofs.Variant.ProductAccess

/-!
Contract: the steps of a work item through the kernels of matrix products.

Owns: the values that the counters of these kernels take; that all of their loops end for
accepted parameters (`kernel_ascends`); and the arrays that their parts assign.
-/

set_option autoImplicit false

namespace KernelTuner

open Kernel
open Function (update)

namespace MatrixProduct

variable {params : MatrixProduct} {seat : Seat} {locals : Variables} {steps : List Step}
  {counter start : String} {count distance : Nat}

/-! ### Counters -/

/-- A loop up to `count` counts from zero. -/
theorem countTo_takes : (countTo counter count).Takes seat locals (List.range count) := by
  rw [← stepsBelow_one]
  exact (LoopHead.takes_iff Nat.one_pos count (fun _ => rfl)
    fun value => by simp [countTo, Condition.Holds, Index.eval]).2 rfl

@[simp] theorem countTo_ascends : (countTo counter count).Ascends :=
  ⟨1, Nat.one_pos, fun _ _ => ⟨fun _ => rfl, count,
    fun _ => by simp [countTo, Condition.Holds, Index.eval]⟩⟩

theorem unrolls_countTo {body : List Statement} :
    (Statement.loop (countTo counter count) body).Unrolls seat locals steps ↔
      ∃ rounds, (∀ value ∈ List.range count,
        blockUnrolls seat (update locals counter value) body (rounds value)) ∧
          steps = (List.range count).flatMap rounds :=
  unrolls_loop_of_takes countTo_takes

/-- A strided loop takes the values from its start on, as far apart as it says. -/
theorem unrolls_strideLoop {body : Statement} (positive : 0 < distance) :
    (strideLoop counter start count distance body).Unrolls seat locals steps ↔
      ∃ rounds, (∀ value ∈ stepsBelow (locals start) count distance,
        body.Unrolls seat (update locals counter value) (rounds value)) ∧
          steps = (stepsBelow (locals start) count distance).flatMap rounds := by
  have takes : LoopHead.Takes seat
      ⟨counter, .var start, .less (.var counter) (.literal count), .advance (.literal distance)⟩
      locals (stepsBelow (locals start) count distance) :=
    (LoopHead.takes_iff positive count (fun _ => rfl)
      fun value => by simp [Condition.Holds, Index.eval]).2 rfl
  rw [strideLoop, unrolls_loopOver, unrolls_loop_of_takes takes]
  simp only [blockUnrolls_singleton]

theorem strideLoop_ascends {body : Statement} (positive : 0 < distance) (ascends : body.Ascends) :
    (strideLoop counter start count distance body).Ascends :=
  ⟨⟨distance, positive, fun _ _ => ⟨fun _ => rfl, count,
    fun _ => by simp [Condition.Holds, Index.eval]⟩⟩, ascends⟩

/-! ### Accepted parameters -/

/-- How work items are laid out while they copy tiles: all of them are, in a grid that has
both dimensions. -/
structure Fetches (params : MatrixProduct) : Prop where
  localFetch0 : 0 < params.localFetch0
  localFetch1 : 0 < params.localFetch1
  layout : params.staged = true →
    params.localFetch0 * params.localFetch1 = params.localSize0 * params.localSize1

theorem fetches_of_accepted {operation : Operation} {profile : List Int}
    (accepted : Variant.ofProfile operation profile = .ok (.matrixProduct params)) :
    params.Fetches := by
  obtain ⟨-, valid, -⟩ := Variant.ofProfile_eq_ok_iff.1 accepted
  have counted := valid.counted
  simp only [Variant.listedSizes, List.forall_mem_cons, Size.Counted] at counted
  exact {
    localFetch0 := by omega
    localFetch1 := by omega
    layout := valid.tiles.2.2 }

theorem stageA_ascends (fetches : params.Fetches) (guarded : Bool) :
    (params.stageA guarded).Ascends :=
  strideLoop_ascends fetches.localFetch1 (strideLoop_ascends fetches.localFetch0 trivial)

theorem stageB_ascends (fetches : params.Fetches) (guarded : Bool) :
    (params.stageB guarded).Ascends :=
  strideLoop_ascends fetches.localFetch1 (strideLoop_ascends fetches.localFetch0 trivial)

theorem optional_ascends {condition : Prop} [Decidable condition] {block : List Statement}
    (ascends : blockAscends block) : blockAscends (if condition then block else []) := by
  split
  · exact ascends
  · trivial

theorem tileProduct_ascends (fetches : params.Fetches) (guarded : Bool) (type : ElementType) :
    blockAscends (params.tileProduct guarded type) := by
  simp only [tileProduct, blockAscends_append]
  refine ⟨⟨⟨⟨?_, ?_⟩, ?_⟩, ?_⟩, ?_⟩
  · exact optional_ascends ⟨trivial, trivial⟩
  · exact optional_ascends ⟨stageA_ascends fetches guarded, trivial⟩
  · exact optional_ascends ⟨stageB_ascends fetches guarded, trivial⟩
  · exact optional_ascends ⟨trivial, trivial⟩
  · simp [Statement.Ascends]

theorem preamble_ascends (type : ElementType) : blockAscends (params.preamble type) := by
  simp only [preamble, blockAscends_append]
  refine ⟨⟨⟨?_, ?_⟩, ?_⟩, ?_⟩
  · simp [Statement.Ascends]
  all_goals exact optional_ascends (by simp [Statement.Ascends])

/-- All loops of the kernels end. -/
theorem kernel_ascends (sized : params.Sized) (fetches : params.Fetches) (name : String)
    (guarded : Bool) (type : ElementType) : blockAscends (params.kernel name guarded type).body := by
  have steps : LoopHead.Ascends
      ⟨"k0", .literal 0, .less (.var "k0") (.var "K"), .advance (.literal params.tileK)⟩ :=
    ⟨params.tileK, sized.tileK, fun _ locals => ⟨fun _ => rfl, locals "K",
      fun _ => by simp [Condition.Holds, Index.eval]⟩⟩
  have stores : (params.store guarded).Ascends := by
    unfold store
    cases guarded <;> simp [Statement.Ascends]
  simp only [kernel, blockAscends_append, blockAscends_cons, blockAscends_nil, and_true]
  exact ⟨preamble_ascends type, ⟨steps, tileProduct_ascends fetches guarded type⟩, stores⟩

/-! ### Parts -/

variable (params) in
/-- Copies the tiles to local memory. -/
def stages (guarded : Bool) : List Statement :=
  (if params.fetchA = .staged then [params.stageA guarded] else []) ++
    (if params.fetchB = .staged then [params.stageB guarded] else [])

variable (params) in
/-- The products of one tile along `K`, where the tiles have been copied. -/
def products (guarded : Bool) (type : ElementType) : List Statement :=
  [.unroll params.perItemK,
    .loop (countTo "kk" params.tileK) [
      .loop (countTo "mm" params.perItemM) [
        .run (.declareIndex "lr"
          (.add (.var "lid0") (.mul (.var "mm") (.literal params.localSize0)))),
        .run (.declareValue ⟨type, 1⟩ "a" (params.factorA guarded)),
        .unroll params.simdWidth,
        .loop (countTo "nn" params.perItemN) [
          .run (.declareIndex "lc"
            (.add (.var "lid1") (.mul (.var "nn") (.literal params.localSize1)))),
          .run (.accumulate accumulator
            (.binary .mul (.read (.var "a")) (params.factorB guarded)))]]]]

theorem tileProduct_eq (guarded : Bool) (type : ElementType) :
    params.tileProduct guarded type =
      (if params.staged then [.run .barrier] else []) ++ params.stages guarded ++
        (if params.staged then [.run .barrier] else []) ++ params.products guarded type := by
  simp only [tileProduct, stages, products, List.append_assoc]

variable {guarded : Bool} {type : ElementType}

theorem preamble_confined : ∀ instruction ∈ blockInstructions (params.preamble type),
    instruction.Confined ["acc"] ["acc"] := by
  simp only [preamble, blockInstructions_append, List.forall_mem_append]
  refine ⟨⟨⟨?_, ?_⟩, ?_⟩, ?_⟩
  · simp [Statement.instructions, Instruction.Confined, accumulator]
  all_goals
    apply forall_instructions_optional
    simp [Statement.instructions, Instruction.Confined]

theorem stages_confined : ∀ instruction ∈ blockInstructions (params.stages guarded),
    instruction.Confined ["As", "Bs"] [] := by
  simp only [stages, blockInstructions_append, List.forall_mem_append]
  constructor
  · apply forall_instructions_optional
    simp [stageA, strideLoop, Statement.instructions, Instruction.Confined]
  · apply forall_instructions_optional
    simp [stageB, strideLoop, Statement.instructions, Instruction.Confined]

theorem products_confined : ∀ instruction ∈ blockInstructions (params.products guarded type),
    instruction.Confined ["acc"] [] := by
  simp [products, Statement.instructions, Instruction.Confined, accumulator]

theorem store_confined : ∀ instruction ∈ blockInstructions [params.store guarded],
    instruction.Confined ["C"] [] := by
  cases guarded <;> simp [store, Statement.instructions, Instruction.Confined]

/-- But for its barriers, a turn along `K` assigns the accumulators and the tiles. -/
theorem tileProduct_confined {instruction : Instruction}
    (member : instruction ∈ blockInstructions (params.tileProduct guarded type))
    (goes : instruction ≠ .barrier) : instruction.Confined ["As", "Bs", "acc"] [] := by
  have barrier : ∀ instruction ∈ blockInstructions
      (if params.staged then [Statement.run .barrier] else []), instruction = .barrier :=
    forall_instructions_optional (by simp [Statement.instructions])
  simp only [tileProduct_eq, blockInstructions_append, List.mem_append] at member
  rcases member with ((waits | copies) | waits) | sums
  · exact absurd (barrier instruction waits) goes
  · exact (stages_confined instruction copies).mono (by simp) (by simp)
  · exact absurd (barrier instruction waits) goes
  · exact (products_confined instruction sums).mono (by simp) (by simp)

/-- But for its barriers, a kernel assigns the accumulators, the tiles and the output, and declares
the accumulators for each work item. -/
theorem kernel_confined {name : String} {instruction : Instruction}
    (member : instruction ∈ blockInstructions (params.kernel name guarded type).body)
    (goes : instruction ≠ .barrier) :
    instruction.Confined ["acc", "As", "Bs", "C"] ["acc"] := by
  simp only [kernel, blockInstructions_append, blockInstructions_cons, Statement.instructions,
    blockInstructions_nil, List.append_nil, List.mem_append] at member
  rcases member with first | turn | last
  · exact (preamble_confined instruction first).mono (by simp) (by simp)
  · exact (tileProduct_confined turn goes).mono (by simp) (by simp)
  · exact (store_confined instruction (by simpa using last)).mono (by simp) (by simp)

theorem preamble_targets {array : String}
    (member : array ∈ blockTargets (params.preamble type)) : array = "acc" := by
  obtain ⟨instruction, listed, writes⟩ := List.mem_filterMap.1 member
  exact List.mem_singleton.1 ((preamble_confined instruction listed).target_mem writes)

theorem tileProduct_targets {array : String}
    (member : array ∈ blockTargets (params.tileProduct guarded type)) :
    array ∈ ["As", "Bs", "acc"] := by
  obtain ⟨instruction, listed, writes⟩ := List.mem_filterMap.1 member
  exact (tileProduct_confined listed (Instruction.ne_barrier_of_target writes)).target_mem writes

end MatrixProduct

end KernelTuner
