import KernelTuner.Proofs.Kernel.RangeAccess
import KernelTuner.Variant.InnerProduct
import KernelTuner.Variant.MatrixVector

/-!
Contract: the elements that kernels of one type touch.

Owns: for every kernel of the variants that are not element-wise, which elements of its
arrays a work item touches, in terms of the sizes that it is given and of its place in the
launch.
-/

set_option autoImplicit false

namespace KernelTuner

open Kernel

variable {seat : Seat} {locals : Variables} {allowed : Set Touch}

/-! ### Inner products -/

namespace InnerProduct

variable (params : InnerProduct) (index : Nat) (type : ElementType)

theorem laneSum_touched (width : Nat) : (laneSum width).touched seat locals = ∅ := by
  have added (lanes : List Nat) (sum : Value) (free : sum.touched seat locals = ∅) :
      (lanes.foldl (fun sum lane => .binary .add sum (.lane "vacc" lane)) sum).touched seat
        locals = ∅ := by
    induction lanes generalizing sum with
    | nil => exact free
    | cons lane rest inductionHypothesis =>
        apply inductionHypothesis
        simp [free]
  exact added _ _ rfl

theorem preamble_subset (localSize : Nat) :
    blockTouched seat locals (preamble type localSize) ⊆ allowed := by
  simp [preamble, Instruction.touched]

theorem groupSum_subset {localSize : Nat} {target : Place}
    (scratch : ∀ indices, ⟨"buf", indices⟩ ∈ allowed)
    (first : locals "lid" = 0 → target.touched seat locals ⊆ allowed) :
    blockTouched seat locals (groupSum localSize target) ⊆ allowed := by
  have fold : blockTouched seat locals
      (localFold "lid" (fun index => .element "buf" [index]) localSize) ⊆ allowed := by
    apply localFold_subset
    intro inner index
    rw [Place.touched_element_subset]
    exact scratch _
  simp only [groupSum, blockTouched_append_subset]
  refine ⟨⟨?_, ?_⟩, ?_⟩
  · simp [Instruction.touched, read, scratch]
  · simpa [blockBind, Statement.bind] using fold
  · simpa [blockBind, Statement.bind, localFold, Instruction.touched, Condition.Holds, Index.eval,
      element, scratch] using first

/-- A work item multiplies elements below `N` only. -/
theorem accumulation_subset (x : ∀ i < locals "N", ⟨"x", [i]⟩ ∈ allowed)
    (y : ∀ i < locals "N", ⟨"y", [i]⟩ ∈ allowed) :
    blockTouched seat locals (params.accumulation type) ⊆ allowed := by
  have product (inner : Variables) (below : inner "i" < locals "N") :
      blockTouched seat inner [.run (.accumulate (.var "acc")
        (.binary .mul (element "x" (.var "i")) (element "y" (.var "i"))))] ⊆ allowed := by
    simp [Instruction.touched, element, Index.eval, x _ below, y _ below]
  unfold accumulation
  by_cases wide : 1 < params.simdWidth
  · rw [if_pos wide]
    simp only [blockTouched_cons_subset, rangeLoop_bind]
    refine ⟨?_, ?_, ?_, ?_, ?_⟩
    · simp [Instruction.touched]
    · apply rangeLoop_subset
      · intro inner same
        simp [Index.eval, same "N" (by decide)]
      · intro inner same below
        have lanes (lane : Nat) (within : lane < params.simdWidth) :
            ⟨"x", [params.simdWidth * inner "i" + lane]⟩ ∈ allowed ∧
              ⟨"y", [params.simdWidth * inner "i" + lane]⟩ ∈ allowed :=
          ⟨x _ (lane_lt below within), y _ (lane_lt below within)⟩
        simpa [Instruction.touched, Index.eval, forall_and] using lanes
    · simp [Instruction.touched, laneSum_touched]
    · exact tailLoop_subset fun inner _ => product inner
    · simp
  · rw [if_neg wide]
    simp only [blockTouched_cons_subset, blockTouched_nil, Set.empty_subset, and_true]
    apply rangeLoop_subset
    · intro inner same
      simp [Index.eval, same "N" (by decide)]
    · intro inner _
      exact product inner

/-- The first pass reads both operands below `N` and writes the partial sum of its group. -/
theorem firstPass_subset (x : ∀ i < locals "N", ⟨"x", [i]⟩ ∈ allowed)
    (y : ∀ i < locals "N", ⟨"y", [i]⟩ ∈ allowed)
    (partials : ⟨"partials", [seat .groupId 0]⟩ ∈ allowed)
    (scratch : ∀ indices, ⟨"buf", indices⟩ ∈ allowed) :
    blockTouched seat locals (params.firstPass index type).body ⊆ allowed := by
  simp only [firstPass, blockTouched_append_subset]
  refine ⟨⟨preamble_subset type _, ?_⟩, groupSum_subset scratch fun _ => ?_⟩
  · apply accumulation_subset
    · simpa [blockBind, preamble, Statement.bind] using x
    · simpa [blockBind, preamble, Statement.bind] using y
  · simpa [Index.eval] using partials

/-- The second pass reads the partial sums below `G`, and its first work item writes the
one element of the output. -/
theorem secondPass_subset (partials : ∀ i < locals "G", ⟨"partials", [i]⟩ ∈ allowed)
    (out : ⟨"out", [0]⟩ ∈ allowed) (scratch : ∀ indices, ⟨"buf", indices⟩ ∈ allowed) :
    blockTouched seat locals (params.secondPass index type).body ⊆ allowed := by
  simp only [secondPass, blockTouched_append_subset]
  refine ⟨⟨preamble_subset type _, ?_⟩, groupSum_subset scratch fun _ => ?_⟩
  · simp only [blockTouched_cons_subset, blockTouched_nil, Set.empty_subset, and_true,
      Statement.touched_loop_subset]
    intro value turn
    have below : value < locals "G" := by
      simpa [Condition.Holds, Index.eval, blockBind, preamble, Statement.bind] using turn.runs
    simpa [Instruction.touched, element, Index.eval] using partials value below
  · simpa [Index.eval] using out

/-- The first work item of the second pass writes the output. -/
theorem secondPass_writes (first : seat .localId 0 = 0) :
    ⟨"out", [0]⟩ ∈ blockTouched seat locals (params.secondPass index type).body := by
  have target : ⟨"out", [0]⟩ ∈ (Place.element "out" [.literal 0]).touched seat locals := rfl
  simp only [secondPass, groupSum, blockTouched_append, Set.mem_union]
  refine .inr (.inr ?_)
  rw [mem_blockTouched_cons]
  refine .inl ⟨?_, .inl target⟩
  simp [Condition.Holds, Index.eval, blockBind, Statement.bind, preamble, localFold, first]

end InnerProduct

/-! ### Matrix-vector products -/

namespace MatrixVector

variable {params : MatrixVector} {outer inner : Variables}

/-- Variables with the same sizes of the matrix. -/
def SameSizes (inner outer : Variables) : Prop := inner "M" = outer "M" ∧ inner "N" = outer "N"

theorem SameSizes.update (same : SameSizes inner outer) {name : String} (notM : "M" ≠ name)
    (notN : "N" ≠ name) (value : Nat) : SameSizes (Function.update inner name value) outer := by
  unfold SameSizes
  rw [Function.update_of_ne notM, Function.update_of_ne notN]
  exact same

theorem SameSizes.outer_eq (same : SameSizes inner outer) (axis : Axis) :
    inner (outerName axis) = outer (outerName axis) := by
  cases axis
  · exact same.1
  · exact same.2

theorem SameSizes.inner_eq (same : SameSizes inner outer) (axis : Axis) :
    inner (innerName axis) = outer (innerName axis) := by
  cases axis
  · exact same.2
  · exact same.1

/-- The elements of the operands, by the sizes that the kernel is given, and the local arrays
may be touched. -/
structure Opens (params : MatrixVector) (outer : Variables) (allowed : Set Touch) : Prop where
  matrix : ∀ row < outer "M", ∀ column < outer "N", ⟨"A", [row * outer "N" + column]⟩ ∈ allowed
  x : ∀ c < outer (innerName params.axis), ⟨"x", [c]⟩ ∈ allowed
  y : ∀ r < outer (outerName params.axis), ⟨"y", [r]⟩ ∈ allowed
  folded : ∀ indices, ⟨"buf", indices⟩ ∈ allowed
  staged : ∀ indices, ⟨"xs", indices⟩ ∈ allowed

/-- A product reads an element of the matrix and the entry that it is multiplied with. -/
theorem addProduct_subset (opens : params.Opens outer allowed) (same : SameSizes inner outer)
    {array : String} {entry : Index} (output : inner "r" < outer (outerName params.axis))
    (input : inner "c" < outer (innerName params.axis))
    (vector : ⟨array, [entry.eval seat inner]⟩ ∈ allowed) :
    (addProduct params.axis array entry).touched seat inner ⊆ allowed := by
  cases axis : params.axis with
  | rows =>
      rw [axis] at output input
      have element := opens.matrix _ output _ input
      simp [addProduct, matrixElement, Instruction.touched, Index.eval, vector, same.2, element]
  | columns =>
      rw [axis] at output input
      have element := opens.matrix _ input _ output
      simp [addProduct, matrixElement, Instruction.touched, Index.eval, vector, same.2, element]

theorem accumulation_subset (opens : params.Opens outer allowed) (same : SameSizes inner outer) :
    blockTouched seat inner params.accumulation ⊆ allowed := by
  cases fetch : params.fetch with
  | staged =>
      simp only [accumulation, fetch, blockTouched_cons_subset, blockTouched_nil,
        Set.empty_subset, and_true, Statement.touched_loop_subset]
      intro value _
      have sizes (c : Nat) : SameSizes
          (Function.update (Function.update inner "c0" value) "c" c) outer :=
        (same.update (by decide) (by decide) _).update (by decide) (by decide) _
      simp only [Statement.touched_run, Statement.touched_guarded_subset, Statement.bind,
        Instruction.touched, Set.empty_subset, true_and]
      refine ⟨?_, ?_⟩
      · rintro ⟨_, input⟩
        simp only [Condition.Holds, Index.eval, (sizes _).inner_eq, Function.update_self] at input
        apply Set.union_subset
        · simp [opens.staged]
        · simpa [Index.eval] using opens.x _ input
      · rintro ⟨output, input⟩
        simp only [Condition.Holds, Index.eval, (sizes _).outer_eq, (sizes _).inner_eq] at output input
        exact addProduct_subset opens (sizes _) output input (opens.staged _)
  | strided =>
      simp only [accumulation, fetch, blockTouched_cons_subset, blockTouched_nil,
        Set.empty_subset, and_true, Statement.touched_loopOver_subset, Statement.touched_run]
      intro value turn
      have sizes : SameSizes (Function.update inner "c" value) outer :=
        same.update (by decide) (by decide) _
      obtain ⟨output, input⟩ := turn.runs
      simp only [Condition.Holds, Index.eval, sizes.outer_eq, sizes.inner_eq] at output input
      exact addProduct_subset opens sizes output input (opens.x _ input)
  | contiguous =>
      simp only [accumulation, fetch, blockTouched_cons_subset, blockTouched_nil,
        Set.empty_subset, and_true, Statement.touched_loopOver_subset, Statement.touched_run,
        Instruction.touched, true_and, Statement.bind]
      intro value turn
      have bound (chunk : Nat) : SameSizes (Function.update inner "chunk" chunk) outer :=
        same.update (by decide) (by decide) _
      have sizes (chunk last : Nat) : SameSizes (Function.update (Function.update (Function.update
          inner "chunk" chunk) "end" last) "c" value) outer :=
        ((bound chunk).update (by decide) (by decide) _).update (by decide) (by decide) _
      obtain ⟨output, turned⟩ := turn.runs
      simp only [Condition.Holds, Index.eval, (sizes _ _).outer_eq] at output
      have input : value < outer (innerName params.axis) := by
        have below : value < min _ (Function.update inner "chunk" _ (innerName params.axis)) :=
          turned
        rw [(bound _).inner_eq] at below
        omega
      exact addProduct_subset opens (sizes _ _) output input (opens.x _ input)

theorem SameSizes.accumulation (same : SameSizes inner outer) :
    SameSizes (blockBind seat inner params.accumulation) outer := by
  cases fetch : params.fetch <;>
    simpa [MatrixVector.accumulation, fetch, blockBind, Statement.bind, SameSizes] using same

/-- The outputs from `r0` on are folded in local memory and written below their count. -/
theorem outputs_subset (opens : params.Opens outer allowed) (same : SameSizes inner outer)
    (type : ElementType) : blockTouched seat inner (params.outputs type) ⊆ allowed := by
  have unbound (inner : Variables) : blockBind seat inner
      (if 1 < params.simdWidth then [.unroll params.simdWidth] else []) = inner :=
    blockBind_optional _ rfl
  have fold (inner : Variables) : blockTouched seat inner (localFold "lid1"
      (fun index => .element "buf" [.var "lid0", index]) params.localSize1) ⊆ allowed := by
    apply localFold_subset
    intro inner index
    rw [Place.touched_element_subset]
    exact opens.folded _
  have declared (row : Nat) : SameSizes (Function.update inner "r" row) outer :=
    same.update (by decide) (by decide) row
  have written (after : Variables) (sizes : SameSizes after outer) :
      blockTouched seat after [.guarded
        (.both (.equal (.var "lid1") (.literal 0)) (.less (.var "r") (.var (outerName params.axis))))
        (.assign (.element "y" [.var "r"]) (.read (.element "buf" [.var "lid0", .literal 0])))
        false] ⊆ allowed := by
    simp only [blockTouched_cons_subset, blockTouched_nil, Set.empty_subset, and_true,
      Statement.touched_guarded_subset]
    rintro ⟨_, output⟩
    simp only [Condition.Holds, Index.eval, sizes.outer_eq] at output
    simp [Instruction.touched, opens.folded, Index.eval, opens.y _ output]
  simp only [outputs, blockTouched_append_subset, blockBind_append, unbound]
  refine ⟨⟨⟨⟨⟨?_, ?_⟩, ?_⟩, ?_⟩, fold _⟩, ?_⟩
  · simp [Instruction.touched]
  · apply blockTouched_optional_subset
    simp
  · exact accumulation_subset opens (declared _)
  · simp [Instruction.touched, opens.folded]
  · exact written _ (declared _).accumulation

/-- The kernel stays below the sizes of the matrix and of its vectors. -/
theorem kernel_subset (index : Nat) (type : ElementType) (opens : params.Opens locals allowed) :
    blockTouched seat locals (params.kernel index type).body ⊆ allowed := by
  have unbound (inner : Variables) : blockBind seat inner
      (if params.fetch = .staged then
        [.run (.declareArray true type "xs" [.literal params.localSize1])] else []) = inner :=
    blockBind_optional _ rfl
  simp only [kernel, blockTouched_append_subset, blockBind_append, unbound]
  refine ⟨⟨?_, ?_⟩, ?_⟩
  · simp [Instruction.touched]
  · apply blockTouched_optional_subset
    simp [Instruction.touched]
  · simp only [blockTouched_cons_subset, blockTouched_nil, Set.empty_subset, and_true,
      Statement.touched_loop_subset]
    intro value _
    apply outputs_subset opens
    simp [blockBind, Statement.bind, SameSizes]

end MatrixVector

end KernelTuner
