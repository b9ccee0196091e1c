import KernelTuner.Proofs.Variant.MatrixVectorShares

/-!
Contract: the rounds of a work group of a matrix-vector product.

Owns: the segments of a round, in which a group deals with one output in each of its rows; who adds
what to which output, and who writes it; and `MatrixVector.shared_of_sums`, by which the work items
of a row fold the sum of the products of their output.

Does not own: what one round stores and another one finds (`Proofs.Variant.MatrixVectorOrder`).
-/

set_option autoImplicit false

namespace KernelTuner

open Kernel
open Function (update)

namespace MatrixVector

variable {ι α : Type}

section Definitions

variable (params : MatrixVector) (type : ElementType) (sizes : Variables) (seat : ι → Seat)
  (row lane : ι → Nat)

/-- The variables of a work item that knows its place. -/
def seated (item : ι) : Variables := update (update sizes "lid0" (row item)) "lid1" (lane item)

/-- The same in the round of the outputs from `first` on. -/
def inRound (first : Nat) (item : ι) : Variables :=
  update (update (seated sizes row lane item) "r0" first) "r" (first + row item)

/-- The same behind the loop over columns. -/
def behindColumns (first : Nat) (item : ι) : Variables :=
  blockBind (seat item) (inRound sizes row lane first item) params.accumulation

/-- The steps with which a work item begins a round. -/
def beginSteps (first : Nat) (item : ι) : List Step :=
  [⟨update (seated sizes row lane item) "r0" first,
      .declareIndex "r" (.add (.var "r0") (.var "lid0"))⟩,
    ⟨inRound sizes row lane first item, .declareValue ⟨type, 1⟩ "acc" (.literal 0)⟩]

/-- The step with which a work item hands its sum over. -/
def handSteps (first : Nat) (item : ι) : List Step :=
  [⟨params.behindColumns sizes seat row lane first item,
    .assign (.element "buf" [.var "lid0", .var "lid1"]) (.read (.var "acc"))⟩]

/-- The step with which the first work item of a row stores its output. -/
def storeSteps (first : Nat) (item : ι) : List Step :=
  if lane item = 0 ∧ first + row item < sizes (outerName params.axis) then
    [⟨params.behindColumns sizes seat row lane first item,
      .assign (.element "y" [.var "r"]) (.read (.element "buf" [.var "lid0", .literal 0]))⟩]
  else []

variable (accumulating : Nat → List (Segment ι)) (strides : List Nat)

/-- What a group does in a round before it stores anything. -/
def sumSegments (first : Nat) : List (Segment ι) :=
  [.work (beginSteps type sizes row lane first)] ++ accumulating first ++
    [.work (params.handSteps sizes seat row lane first)] ++
      foldSegments seat (params.behindColumns sizes seat row lane first) "lid1" "buf" [.var "lid0"]
        params.localSize1 strides

/-- What a group does in a round. -/
def roundSegments (first : Nat) : List (Segment ι) :=
  params.sumSegments type sizes seat row lane accumulating strides first ++
    [.work (params.storeSteps sizes seat row lane first)]

end Definitions

section Groups

variable {params : MatrixVector} {type : ElementType} {sizes : Variables} {seat : ι → Seat}
  {row lane : ι → Nat} {rows first : Nat} {accumulating : Nat → List (Segment ι)} {strides : List Nat}

/-! ### Knowledge -/

theorem knows_inRound (item : ι) : Knows sizes (row item) (lane item) (first + row item)
    (inRound sizes row lane first item) := by
  constructor <;> simp [inRound, seated]

/-- The loop over columns leaves what a work item knows. -/
theorem Knows.accumulation {locals : Variables} {place : Seat} {own position output : Nat}
    (knows : Knows sizes own position output locals) :
    Knows sizes own position output (blockBind place locals params.accumulation) := by
  cases fetched : params.fetch with
  | staged =>
      rw [MatrixVector.accumulation, fetched]
      exact knows
  | strided =>
      rw [MatrixVector.accumulation, fetched]
      exact knows
  | contiguous =>
      rw [MatrixVector.accumulation, fetched]
      exact (knows.update _ _ (by decide)).update _ _ (by decide)

theorem knows_behind (item : ι) : Knows sizes (row item) (lane item) (first + row item)
    (params.behindColumns sizes seat row lane first item) :=
  (knows_inRound item).accumulation

theorem Ranked.folds (ranked : Ranked seat rows params.localSize1 row lane) :
    Folds seat (params.behindColumns sizes seat row lane first) "lid1" "buf" [.var "lid0"]
      params.localSize1 lane fun item => [row item] where
  laneKnown := fun item stride => ((knows_behind item).update "stride" stride (by decide)).lane
  rowKnown := fun item stride =>
    congrArg (fun value => [value]) ((knows_behind item).update "stride" stride (by decide)).row
  inside := ranked.laneInside
  only := fun item other same => ranked.only item other (List.singleton_inj.1 same)
  whole := fun item entry inside =>
    (ranked.whole (row item) (ranked.rowInside item) entry inside).imp fun _ both =>
      ⟨congrArg (fun value => [value]) both.1, both.2⟩

/-! ### Steps -/

/-- The statements with which a work item begins a round. -/
def beginStatements (params : MatrixVector) (type : ElementType) : List Statement :=
  [.run (.declareIndex "r" (.add (.var "r0") (.var "lid0"))),
    .run (.declareValue ⟨type, 1⟩ "acc" (.literal 0))] ++
  if 1 < params.simdWidth then [.unroll params.simdWidth] else []

/-- The statements of a round up to the one that stores an output. -/
def sumStatements (params : MatrixVector) (type : ElementType) : List Statement :=
  params.beginStatements type ++ params.accumulation ++
  [.run (.assign (.element "buf" [.var "lid0", .var "lid1"]) (.read (.var "acc")))] ++
  localFold "lid1" (fun index => .element "buf" [.var "lid0", index]) params.localSize1

theorem declares_output (item : ι) :
    (Statement.run (.declareIndex "r" (.add (.var "r0") (.var "lid0")))).bind (seat item)
      (update (seated sizes row lane item) "r0" first) = inRound sizes row lane first item := by
  simp [Statement.bind, Index.eval, inRound, seated]

theorem begin_binds (item : ι) : blockBind (seat item) (update (seated sizes row lane item) "r0" first)
    (params.beginStatements type) = inRound sizes row lane first item := by
  rw [beginStatements, blockBind_append, blockBind_optional _ rfl]
  exact declares_output item

theorem accumulation_binds (item : ι) :
    blockBind (seat item) (update (seated sizes row lane item) "r0" first)
      (params.beginStatements type ++ params.accumulation) =
        params.behindColumns sizes seat row lane first item := by
  rw [blockBind_append, begin_binds]
  rfl

theorem hand_binds (item : ι) :
    blockBind (seat item) (update (seated sizes row lane item) "r0" first)
      (params.beginStatements type ++ params.accumulation ++
        [.run (.assign (.element "buf" [.var "lid0", .var "lid1"]) (.read (.var "acc")))]) =
        params.behindColumns sizes seat row lane first item := by
  rw [blockBind_append, accumulation_binds]
  rfl

theorem sum_binds (item : ι) :
    blockBind (seat item) (update (seated sizes row lane item) "r0" first)
      (params.sumStatements type) = params.behindColumns sizes seat row lane first item := by
  rw [sumStatements, blockBind_append, hand_binds]
  rfl

section Unrolling

variable [AddCommMonoid α] {meaning : Meaning α}
  (accumulates : params.Accumulates sizes seat (inRound sizes row lane first) lane
    (fun item => first + row item) meaning (accumulating first))
  (counting : Counting (fun value => value / 2) (fun value => 0 < value)
    (foldStart params.localSize1) strides)
include counting

section Statements

include accumulates

theorem sum_unrolls : GroupUnrolls seat (fun item => update (seated sizes row lane item) "r0" first)
    (params.sumStatements type)
    (params.sumSegments type sizes seat row lane accumulating strides first) := by
  have begins : GroupUnrolls seat (fun item => update (seated sizes row lane item) "r0" first)
      (params.beginStatements type) [.work (beginSteps type sizes row lane first)] := by
    refine GroupUnrolls.work fun item => blockUnrolls_append.2
      ⟨_, [], (List.append_nil _).symm, blockUnrolls_run_cons.2 ⟨_, rfl, ?_⟩, ?_⟩
    · rw [declares_output]
      exact blockUnrolls_singleton.2 rfl
    · split
      · exact blockUnrolls_singleton.2 rfl
      · rfl
  refine ((begins.append ?_).append ?_).append ?_
  · simp only [begin_binds]
    exact accumulates.unrolls
  · simp only [accumulation_binds]
    exact GroupUnrolls.work fun item => blockUnrolls_singleton.2 rfl
  · simp only [hand_binds]
    exact groupUnrolls_localFold counting

theorem round_unrolls : GroupUnrolls seat
    (fun item => update (seated sizes row lane item) "r0" first) (params.outputs type)
    (params.roundSegments type sizes seat row lane accumulating strides first) := by
  refine (sum_unrolls accumulates counting).append (.work fun item => blockUnrolls_singleton.2 ?_)
  have known : Knows sizes (row item) (lane item) (first + row item)
      (params.behindColumns sizes seat row lane first item) := knows_behind item
  simp only [Statement.Unrolls, storeSteps, sum_binds, Condition.Holds, Index.eval, known.lane,
    known.output, known.outer]

end Statements

/-! ### Visits -/

theorem fold_adds_nothing (item : ι) : ∀ step ∈ stepsOf (foldSegments seat
    (params.behindColumns sizes seat row lane first) "lid1" "buf" [.var "lid0"] params.localSize1
    strides) item, ¬ Adds step.instruction := by
  intro step listed
  have text := instruction_of_step listed _ (groupUnrolls_localFold counting item)
  simp only [localFold, blockInstructions, Statement.instructions, List.mem_append, List.mem_cons,
    List.not_mem_nil, or_false] at text
  rcases text with rest | rest | rest <;> simp [rest, Adds]

omit counting in
theorem store_adds_nothing (item : ι) :
    ∀ step ∈ params.storeSteps sizes seat row lane first item, ¬ Adds step.instruction := by
  unfold storeSteps
  split
  · simp [Adds]
  · exact nofun

/-- Only the loop over columns adds to sums. -/
theorem round_visits (item : ι) (r : Nat) :
    visited r (stepsOf (params.roundSegments type sizes seat row lane accumulating strides first)
      item) = visited r (stepsOf (accumulating first) item) := by
  simp only [roundSegments, sumSegments, stepsOf_append, stepsOf_work, visited_append,
    visited_eq_nil (fold_adds_nothing counting item), visited_eq_nil (store_adds_nothing item)]
  simp [beginSteps, handSteps, visited, Adds]

include accumulates in
theorem inside_of_round (item : ι) :
    ∀ step ∈ stepsOf (params.roundSegments type sizes seat row lane accumulating strides first) item,
      params.Inside sizes step := by
  intro step listed adds
  simp only [roundSegments, sumSegments, stepsOf_append, stepsOf_work, List.mem_append] at listed
  rcases listed with (((begins | among) | hands) | folds) | stores
  · simp only [beginSteps, List.mem_cons, List.not_mem_nil, or_false] at begins
    rcases begins with rfl | rfl <;> simp [Adds] at adds
  · exact accumulates.inside item step among adds
  · obtain rfl := List.mem_singleton.1 hands
    simp [Adds] at adds
  · exact absurd adds (fold_adds_nothing counting item step folds)
  · exact absurd adds (store_adds_nothing item step stores)

end Unrolling

/-! ### Barriers -/

theorem beginSteps_keep {item : ι} :
    ∀ step ∈ beginSteps type sizes row lane first item, step.instruction.Keeps [] := by
  simp [beginSteps, Instruction.Keeps, Value.arrays]

theorem round_plain [AddCommMonoid α] {meaning : Meaning α}
    (accumulates : params.Accumulates sizes seat (inRound sizes row lane first) lane
      (fun item => first + row item) meaning (accumulating first)) :
    ∀ segment ∈ params.roundSegments type sizes seat row lane accumulating strides first,
      segment.Plain := by
  intro segment listed
  simp only [roundSegments, sumSegments, List.mem_append, List.mem_singleton] at listed
  rcases listed with (((rfl | among) | rfl) | folds) | rfl
  · intro item
    simp [BarrierFree, beginSteps]
  · exact accumulates.plain segment among
  · intro item
    simp [BarrierFree, handSteps]
  · exact foldSegments_plain segment folds
  · intro item
    unfold storeSteps
    split
    · simp [BarrierFree]
    · exact List.forall_mem_nil _

/-! ### Outputs -/

theorem sum_targets : blockTargets (params.sumStatements type) ⊆ ["xs", "buf"] := by
  have hints : blockTargets (if 1 < params.simdWidth then [.unroll params.simdWidth] else []) =
      [] := by
    split <;> rfl
  have columns : blockTargets params.accumulation ⊆ ["xs", "buf"] := by
    cases fetched : params.fetch with
    | staged =>
        rw [accumulation, fetched]
        exact List.subset_append_left ["xs"] ["buf"]
    | strided =>
        rw [accumulation, fetched]
        exact List.nil_subset _
    | contiguous =>
        rw [accumulation, fetched]
        exact List.nil_subset _
  have folds : blockTargets (localFold "lid1" (fun index => .element "buf" [.var "lid0", index])
      params.localSize1) = ["buf"] := rfl
  rw [sumStatements, beginStatements]
  simp only [blockTargets_append, hints, folds]
  simpa [blockTargets, Statement.instructions, Instruction.target?] using columns

theorem round_targets : blockTargets (params.outputs type) ⊆ ["xs", "buf", "y"] := by
  have whole : blockTargets (params.outputs type) =
      blockTargets (params.sumStatements type) ++ ["y"] := blockTargets_append
  rw [whole]
  exact List.append_subset.2 ⟨List.Subset.trans sum_targets (by decide), by decide⟩

/-- The first work item of a row writes its output in a round, and nothing else is written there. -/
theorem written_of_round [AddCommMonoid α] {meaning : Meaning α}
    (accumulates : params.Accumulates sizes seat (inRound sizes row lane first) lane
      (fun item => first + row item) meaning (accumulating first))
    (counting : Counting (fun value => value / 2) (fun value => 0 < value)
      (foldStart params.localSize1) strides) (item : ι) :
    (written (seat item) (stepsOf (params.roundSegments type sizes seat row lane accumulating strides
      first) item)).filter (fun touch => touch.array = "y") =
        if lane item = 0 ∧ first + row item < sizes (outerName params.axis) then
          [⟨"y", [first + row item]⟩] else [] := by
  have known : Knows sizes (row item) (lane item) (first + row item)
      (params.behindColumns sizes seat row lane first item) := knows_behind item
  have untouched : "y" ∉ blockTargets (params.sumStatements type) :=
    fun target => absurd (sum_targets target) (by decide)
  rw [roundSegments, stepsOf_append, stepsOf_work, written_append, List.filter_append,
    filter_written_eq_nil untouched (sum_unrolls accumulates counting item), List.nil_append]
  unfold storeSteps
  split
  · simp [Instruction.written, Index.eval, known.output]
  · rfl

section Sums

variable [AddCommMonoid α] {meaning : Meaning α} {before after : View ι α}
  (accumulates : params.Accumulates sizes seat (inRound sizes row lane first) lane
    (fun item => first + row item) meaning (accumulating first))
  (ranked : Ranked seat rows params.localSize1 row lane) (sums : meaning.Sums)

/-- The sum of the products of an output. -/
def total (params : MatrixVector) (sizes : Variables) (meaning : Meaning α) (elements : Touch → α)
    (r : Nat) : α :=
  ∑ c ∈ Finset.range (sizes (innerName params.axis)),
    productAt meaning params.axis (sizes "N") r elements c

omit [AddCommMonoid α] in
/-- A work item hands over what it has summed up. -/
theorem handed_over (hands : Settles meaning seat (params.handSteps sizes seat row lane first)
    before after) (item : ι) :
    after.shared (entryOf "buf" [row item] (lane item)) = before.registers item "acc" 0 := by
  have known : Knows sizes (row item) (lane item) (first + row item)
      (params.behindColumns sizes seat row lane first item) := knows_behind item
  refine hands.shared_of_assign rfl ?_
  simp [entryOf, Index.eval, known.row, known.lane]

include accumulates ranked sums

/-- What each work item sums up in a round, they fold. -/
theorem shared_of_sums (wide : 0 < params.localSize1) (small : params.localSize1 ≤ Size.kernelLimit)
    (counting : Counting (fun value => value / 2) (fun value => 0 < value)
      (foldStart params.localSize1) strides)
    (runs : Runs meaning seat
      (params.sumSegments type sizes seat row lane accumulating strides first) before after)
    (item : ι) (below : first + row item < sizes (outerName params.axis)) :
    after.shared (entryOf "buf" [row item] 0) =
      params.total sizes meaning before.shared (first + row item) := by
  obtain ⟨handed, inHand, folds⟩ := runs_append.1 runs
  obtain ⟨summed, inAdds, hands⟩ := runs_append.1 inHand
  obtain ⟨begun, begins, adds⟩ := runs_append.1 inAdds
  rw [runs_work] at begins hands
  have started (other : ι) : begun.registers other "acc" 0 = 0 := by
    rw [begins.registers other]
    exact (congrFun (Function.update_self "acc" _ (before.registers other)) 0).trans sums.zero
  have unmoved : begun.shared = before.shared :=
    begins.shared_of_keeps fun _ => beginSteps_keep
  have allotment := columns_allotment wide below
  rw [ranked.folds.shared_of_runs sums small counting folds item, total, ← allotment.sum_eq]
  refine Finset.sum_congr rfl fun entry inside => ?_
  obtain ⟨other, sameRow, rfl⟩ :=
    ranked.whole (row item) (ranked.rowInside item) entry (Finset.mem_range.1 inside)
  rw [← sameRow, handed_over hands other, accumulates.adds begun summed adds other, started, zero_add,
    unmoved]

end Sums

end Groups

end MatrixVector

end KernelTuner
