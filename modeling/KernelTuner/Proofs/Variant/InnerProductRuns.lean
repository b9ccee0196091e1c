import KernelTuner.Proofs.Variant.InnerProductExact
import KernelTuner.Proofs.Variant.InnerProductPasses
import KernelTuner.Proofs.Variant.InnerProductShares

/-!
Contract: an inner product in two launches.

Owns: the two passes over the operands of a batch, as launches that a device runs over what is
stored; and `InnerProduct.two_passes`, by which the second of them leaves the inner product behind.

Does not own: how a group sums up (`Proofs.Variant.InnerProductPasses`).
-/

set_option autoImplicit false

namespace KernelTuner

open Kernel
open Function (update)

/-- A device comes to these steps in a launch, as exact arithmetic does, and computes their indices
without wrapping. -/
structure PlannedLaunch.ComesTo (launch : PlannedLaunch) (kernel : Kernel)
    (steps : launch.Item → List Step) : Prop where
  executes : ∀ item, blockExecutes item.seat (launch.sizes kernel) kernel.body (steps item)
  unrolls : ∀ item, blockUnrolls item.seat (launch.sizes kernel) kernel.body (steps item)
  exact : ∀ item, ∀ step ∈ steps item, step.instruction.Exact item.seat step.locals

theorem PlannedLaunch.comesTo_of_exact {launch : PlannedLaunch} {kernel : Kernel}
    {steps : launch.Item → List Step}
    (exact : ∀ item : launch.Item, blockExact item.seat (launch.sizes kernel) kernel.body)
    (unrolls : ∀ item, blockUnrolls item.seat (launch.sizes kernel) kernel.body (steps item)) :
    launch.ComesTo kernel steps where
  executes := fun item => (executes_of_unrolls kernel.body (exact item) (unrolls item)).1
  unrolls := unrolls
  exact := fun item => (executes_of_unrolls kernel.body (exact item) (unrolls item)).2

namespace InnerProduct

variable {α : Type} [AddCommMonoid α]

section Definitions

variable (params : InnerProduct) (operands : Operands) (meaning : Meaning α) (store : Store α)

/-- The product of two elements of the operands, as they are stored. -/
def Operands.product (i : Nat) : α :=
  meaning.operate .mul (store (.buffer operands.x.id) i) (store (.buffer operands.y.id) i)

/-- The sum of the products that the work items of a group have. -/
def partialSum (group : Nat) : α :=
  ∑ place ∈ Finset.range params.localSize0,
    ((params.stream.share operands.x.length (group * params.localSize0 + place)).map
      (operands.product meaning store)).sum

/-- What is stored behind the first pass. -/
def behindFirst : Store α :=
  store.refill (.workspace 0) params.groups0 (params.partialSum operands meaning store)

/-- The two passes over the operands by these steps. The first one writes each partial sum once, and
no others; it has room for them; and the second one, a single group, reads all of them, and no
others. Behind it the first element of the output is the inner product. -/
structure Passes (index : Nat) (batch : Batch)
    (first : (params.firstLaunch index batch operands).Item → List Step)
    (second : (params.secondLaunch index batch operands).Item → List Step) : Prop where
  firstComes : (params.firstLaunch index batch operands).ComesTo
    (params.firstPass index batch.elementType) first
  secondComes : (params.secondLaunch index batch operands).ComesTo
    (params.secondPass index batch.elementType) second
  writesOnce : (params.firstLaunch index batch operands).WritesOnce
    (params.firstPass index batch.elementType) "partials" params.groups0
  room : params.partialsBytes batch.elementType = batch.elementType.bytes * params.groups0
  counted : (params.secondLaunch index batch operands).sizes
    (params.secondPass index batch.elementType) "G" = params.groups0
  alone : ∀ dimension, (params.secondLaunch index batch operands).groupsAlong dimension = 1
  reads : ∀ element,
    (∃ item, ∃ step ∈ second item,
      ⟨"partials", [element]⟩ ∈ step.instruction.reads item.seat step.locals) ↔
        element < params.groups0
  firstCompletes : (params.firstLaunch index batch operands).Completes
    (params.firstPass index batch.elementType) meaning first store
      (params.behindFirst operands meaning store)
  secondCompletes : (params.secondLaunch index batch operands).Completes
    (params.secondPass index batch.elementType) meaning second
      (params.behindFirst operands meaning store)
      ((params.behindFirst operands meaning store).refill (.buffer operands.out.id) 1 fun _ =>
        ∑ i ∈ Finset.range operands.x.length, operands.product meaning store i)

end Definitions

variable {params : InnerProduct} {operands : Operands} {meaning : Meaning α} {store : Store α}
  {index : Nat} {batch : Batch} {type : ElementType}

/-! ### Texts -/

omit [AddCommMonoid α] in
theorem accumulation_keeps : ∀ instruction ∈ blockInstructions (params.accumulation type),
    instruction.Keeps ["x", "y"] := by
  have lanes (width : Nat) : (laneSum width).arrays = [] := by
    have added (own : List Nat) (sum : Value) (none : sum.arrays = []) :
        (own.foldl (fun sum lane => .binary .add sum (.lane "vacc" lane)) sum).arrays = [] := by
      induction own generalizing sum with
      | nil => exact none
      | cons lane rest inductionHypothesis =>
          exact inductionHypothesis _ (by simp [Value.arrays, none])
    exact added _ _ rfl
  unfold accumulation
  split
  · cases params.fetch <;>
      simp [rangeLoop, tailLoop, Statement.instructions, Instruction.Keeps, Value.arrays, element,
        lanes]
  · cases params.fetch <;>
      simp [rangeLoop, Statement.instructions, Instruction.Keeps, Value.arrays, element]

omit [AddCommMonoid α] in
theorem firstPass_pass : Pass (params.firstPass index type) type params.localSize0 "partials"
    (.workItem .groupId 0) (params.accumulation type) ["x", "y"] where
  body := rfl
  inert := by
    intro seat locals
    unfold accumulation
    split
    · simp only [blockBind, List.foldl_cons, List.foldl_nil, rangeLoop_bind]
      rfl
    · simp only [blockBind, List.foldl_cons, List.foldl_nil, rangeLoop_bind]
  keeps := accumulation_keeps
  apart := by decide
  unread := by decide
  outside := by decide

/-- The loop of the second pass. -/
def foldPartials (params : InnerProduct) : List Statement :=
  [.loop ⟨"i", .var "lid", .less (.var "i") (.var "G"), .advance (.literal params.localSize0)⟩
    [.run (.accumulate (.var "acc") (element "partials" (.var "i")))]]

omit [AddCommMonoid α] in
theorem secondPass_pass : Pass (params.secondPass index type) type params.localSize0 "out"
    (.literal 0) params.foldPartials ["partials"] where
  body := rfl
  inert := fun _ _ => rfl
  keeps := by simp [foldPartials, Statement.instructions, Instruction.Keeps, Value.arrays, element]
  apart := by decide
  unread := by decide
  outside := by decide

omit [AddCommMonoid α] in
theorem firstPass_scratch : (params.firstPass index type).scratch = ["buf"] := by
  simp only [Kernel.scratch, firstPass, accumulation]
  split <;> cases params.fetch <;> rfl

omit [AddCommMonoid α] in
theorem firstLaunch_storage? (array : String) :
    (params.firstLaunch index batch operands).storage? (params.firstPass index type) array =
      if "x" = array then some (.buffer operands.x.id)
      else if "y" = array then some (.buffer operands.y.id)
      else if "partials" = array then some (.workspace 0) else none := by
  simp only [PlannedLaunch.storage?, firstPass, firstLaunch, List.zip_cons_cons, List.zip_nil_left,
    List.findSome?_cons, List.findSome?_nil, Argument.storage?]
  split_ifs <;> rfl

omit [AddCommMonoid α] in
theorem secondLaunch_storage? (array : String) :
    (params.secondLaunch index batch operands).storage? (params.secondPass index type) array =
      if "partials" = array then some (.workspace 0)
      else if "out" = array then some (.buffer operands.out.id) else none := by
  simp only [PlannedLaunch.storage?, secondPass, secondLaunch, List.zip_cons_cons,
    List.zip_nil_left, List.findSome?_cons, List.findSome?_nil, Argument.storage?]
  split_ifs <;> rfl

/-! ### Sums -/

/-- The partial sums together are the inner product. -/
theorem sum_partialSum (sized : 0 < params.localSize0) (grouped : 0 < params.groups0) :
    ∑ group ∈ Finset.range params.groups0, params.partialSum operands meaning store group =
      ∑ i ∈ Finset.range operands.x.length, operands.product meaning store i := by
  have along (groups : Nat) : ∑ group ∈ Finset.range groups,
      params.partialSum operands meaning store group =
        ∑ position ∈ Finset.range (params.localSize0 * groups),
          ((params.stream.share operands.x.length position).map
            (operands.product meaning store)).sum := by
    induction groups with
    | zero => rfl
    | succ groups inductionHypothesis =>
        rw [Finset.sum_range_succ, inductionHypothesis, Nat.mul_succ, Finset.sum_range_add,
          partialSum, Nat.mul_comm groups]
  rw [along]
  have shares : Allotment (params.localSize0 * params.groups0)
      (params.stream.share operands.x.length) (List.range operands.x.length) :=
    Stream.share_allotment (Nat.mul_pos sized grouped) _
  exact shares.sum_eq (operands.product meaning store)

/-! ### Launches -/

section Launches

omit [AddCommMonoid α]

theorem firstLaunch_line : (params.firstLaunch index batch operands).Line
    (params.localSize0 * params.groups0) params.localSize0 := ⟨rfl, rfl⟩

theorem secondLaunch_line :
    (params.secondLaunch index batch operands).Line params.localSize0 params.localSize0 := ⟨rfl, rfl⟩

theorem firstLaunch_groups (sized : 0 < params.localSize0) :
    (params.firstLaunch index batch operands).groupsAlong 0 = params.groups0 := by
  rw [firstLaunch_line.groupsAlong_zero, Nat.mul_div_cancel_left _ sized]

theorem secondLaunch_groups (sized : 0 < params.localSize0) (dimension : Nat) :
    (params.secondLaunch index batch operands).groupsAlong dimension = 1 := by
  cases dimension with
  | zero => rw [secondLaunch_line.groupsAlong_zero, Nat.div_self sized]
  | succ dimension => exact secondLaunch_line.groupsAlong_beyond dimension

theorem secondLaunch_group (sized : 0 < params.localSize0)
    (item : (params.secondLaunch index batch operands).Item) : item.group 0 = 0 := by
  have inside := item.group_lt 0
  rw [secondLaunch_groups sized] at inside
  omega

/-- A work item of the first pass is at a place of the range. -/
theorem firstLaunch_position (sized : 0 < params.localSize0)
    (item : (params.firstLaunch index batch operands).Item) :
    item.seat .globalId 0 < params.localSize0 * params.groups0 := by
  have group := item.group_lt 0
  have place : item.place 0 < params.localSize0 := item.place_lt 0
  rw [firstLaunch_groups sized] at group
  have covered := Nat.mul_le_mul_right params.localSize0 (Nat.succ_le_of_lt group)
  show item.group 0 * params.localSize0 + item.place 0 < _
  rw [Nat.succ_mul, Nat.mul_comm params.groups0] at covered
  omega

/-- The second pass reads the partial sums of all groups, and no others. -/
theorem mem_reads_iff (sized : 0 < params.localSize0)
    {second : (params.secondLaunch index batch operands).Item → List Step}
    (comes : (params.secondLaunch index batch operands).ComesTo (params.secondPass index type) second)
    (adds : ∀ item, ∀ turn ∈ portion .strided params.localSize0 params.groups0 (item.place 0),
      ∃ step ∈ second item, ⟨"partials", [turn]⟩ ∈ step.instruction.reads item.seat step.locals)
    (element : Nat) :
    (∃ item, ∃ step ∈ second item,
      ⟨"partials", [element]⟩ ∈ step.instruction.reads item.seat step.locals) ↔
        element < params.groups0 := by
  constructor
  · rintro ⟨item, step, listed, found⟩
    let allowed : Set Touch := {touch | touch.array = "partials" →
      ∃ other < params.groups0, touch.indices = [other]}
    have inside : blockTouched item.seat
        ((params.secondLaunch index batch operands).sizes (params.secondPass index type))
        (params.secondPass index type).body ⊆ allowed := by
      refine secondPass_subset params index type (fun other below _ => ⟨other, below, rfl⟩) ?_ ?_
      · simp [allowed]
      · simp [allowed]
    have touched := touched_of_step listed (params.secondPass index type).body (comes.unrolls item)
    obtain ⟨other, below, same⟩ :=
      inside (touched (Instruction.reads_subset_touched step.instruction found)) rfl
    obtain rfl := List.singleton_inj.1 same
    exact below
  · intro below
    obtain ⟨position, inside, listed⟩ := (portion_allotment .strided params.groups0
      sized).exists_position (List.mem_range.2 below)
    have line := @secondLaunch_line params operands index batch
    obtain ⟨place, rfl⟩ := line.exists_place inside
    obtain ⟨group, _⟩ := line.exists_group
      (Nat.one_pos.trans_eq (secondLaunch_groups sized 0).symm)
    obtain ⟨step, among, reads⟩ := adds (PlannedLaunch.itemAt group place) element listed
    exact ⟨_, step, among, reads⟩

end Launches

/-! ### The first pass -/

section First

variable {adds : (params.firstLaunch index batch operands).Item → List Step} {strides : List Nat}
  (counting : Counting (fun value => value / 2) (fun value => 0 < value)
    (foldStart params.localSize0) strides)
  (unrolls : ∀ item : (params.firstLaunch index batch operands).Item, blockUnrolls item.seat
    (update ((params.firstLaunch index batch operands).sizes (params.firstPass index type)) "lid"
      (item.place 0)) (params.accumulation type) (adds item))
  (sized : 0 < params.localSize0)
include counting unrolls sized

omit [AddCommMonoid α] in
theorem firstLaunch_writesOnce : (params.firstLaunch index batch operands).WritesOnce
    (params.firstPass index type) "partials" params.groups0 := by
  rw [← @firstLaunch_groups params operands index batch sized]
  refine firstPass_pass.writesOnce firstLaunch_line sized (fun _ _ => rfl) fun item => ?_
  exact ⟨_, firstPass_pass.splits firstLaunch_line counting unrolls ⟨item.group, item.group_lt⟩
    ⟨item.place, item.place_lt⟩⟩

/-- The first pass leaves the partial sum of each group behind. -/
theorem firstLaunch_completes (sums : meaning.Sums) (small : params.localSize0 ≤ Size.kernelLimit)
    (adding : ∀ (item : (params.firstLaunch index batch operands).Item) (memory : Memory α),
      memory.registers "acc" 0 = 0 →
        (performAll meaning item.seat memory (adds item)).registers "acc" 0 =
          ((params.stream.share operands.x.length (item.seat .globalId 0)).map
            (productAt meaning memory)).sum) :
    (params.firstLaunch index batch operands).Completes (params.firstPass index type) meaning
      (passSteps (params.firstLaunch index batch operands) (params.firstPass index type) type
        params.localSize0 "partials" (.workItem .groupId 0) adds strides) store
      (params.behindFirst operands meaning store) := by
  have line := @firstLaunch_line params operands index batch
  obtain ⟨somewhere, _⟩ := line.exists_place sized
  have : Nonempty (params.firstLaunch index batch operands).Place := ⟨somewhere⟩
  rw [behindFirst, ← @firstLaunch_groups params operands index batch sized]
  refine firstPass_pass.completes (fun group place =>
    ((params.stream.share operands.x.length (group * params.localSize0 + place)).map
      (operands.product meaning store)).sum)
    line sized small sums (fun _ _ => rfl) counting unrolls (fun other => ?_) ?_
    fun item memory holds start => ?_
  · rw [firstLaunch_storage?]
    split_ifs with isX isY isPartials
    · simp [← isX]
    · simp [← isY]
    · simp [← isPartials]
    · exact ⟨nofun, fun same => absurd same.symm isPartials⟩
  · rw [firstPass_scratch]
    simp [firstLaunch_storage?]
  · have same : productAt meaning memory = operands.product meaning store := by
      funext i
      rw [productAt, holds "x" _ (firstLaunch_storage? "x") i,
        holds "y" _ (firstLaunch_storage? "y") i]
      rfl
    rw [adding item memory start, same]
    rfl

end First

theorem exists_first (sums : meaning.Sums) (sized : 0 < params.localSize0)
    (grouped : 0 < params.groups0) (small : params.localSize0 * params.groups0 ≤ Size.kernelLimit)
    (room : operands.x.length + params.localSize0 * params.groups0 < uintCount) :
    ∃ first, (params.firstLaunch index batch operands).ComesTo (params.firstPass index type) first ∧
      (params.firstLaunch index batch operands).WritesOnce (params.firstPass index type) "partials"
          params.groups0 ∧
        (params.firstLaunch index batch operands).Completes (params.firstPass index type) meaning
          first store (params.behindFirst operands meaning store) := by
  have few : params.localSize0 ≤ Size.kernelLimit :=
    le_trans (Nat.le_mul_of_pos_right _ grouped) small
  have limited : Size.kernelLimit < uintCount := by decide
  obtain ⟨strides, counting⟩ := exists_halving (foldStart params.localSize0)
  choose adds unrolls adding using
    fun item : (params.firstLaunch index batch operands).Item =>
      exists_accumulation item.seat
        (update ((params.firstLaunch index batch operands).sizes (params.firstPass index type)) "lid"
          (item.place 0)) params type sums (Nat.mul_pos sized grouped) rfl
  have splits := firstPass_pass.splits firstLaunch_line counting unrolls
  refine ⟨_, PlannedLaunch.comesTo_of_exact (fun item => ?_)
    fun item => splits ⟨item.group, item.group_lt⟩ ⟨item.place, item.place_lt⟩,
    firstLaunch_writesOnce counting unrolls sized,
    firstLaunch_completes counting unrolls sized sums few adding⟩
  have place : item.place 0 < params.localSize0 := item.place_lt 0
  exact firstPass_exact (lt_of_lt_of_le place (le_trans few limited.le)) rfl
    (firstLaunch_position sized item) few room

/-! ### The second pass -/

section Second

/-- The steps by which a work item of the second pass adds up partial sums. -/
def partialSteps (params : InnerProduct) (locals : Variables) (place : Nat) : List Step :=
  (portion .strided params.localSize0 params.groups0 place).flatMap fun turn =>
    [⟨update (update locals "lid" place) "i" turn,
      .accumulate (.var "acc") (element "partials" (.var "i"))⟩]

omit [AddCommMonoid α] in
theorem partialSteps_unroll (sized : 0 < params.localSize0) {seat : Seat} {locals : Variables}
    (counted : locals "G" = params.groups0) (place : Nat) :
    blockUnrolls seat (update locals "lid" place) params.foldPartials
      (params.partialSteps locals place) := by
  refine blockUnrolls_singleton.2 ⟨_, _, (LoopHead.takes_iff sized params.groups0 (fun _ => rfl)
    fun value => ?_).2 ?_, fun turn _ => blockUnrolls_singleton.2 rfl, rfl⟩
  · simp [Condition.Holds, Index.eval, counted]
  · simp [Index.eval, portion]

/-- They add up the partial sums that the work item has. -/
theorem performAll_partialSteps (sums : meaning.Sums) (sized : 0 < params.localSize0) {seat : Seat}
    {locals : Variables} {place : Nat} {memory : Memory α} {value : Nat → α}
    (found : ∀ group < params.groups0, memory.elements ⟨"partials", [group]⟩ = value group) :
    (performAll meaning seat memory (params.partialSteps locals place)).registers "acc" 0 =
      memory.registers "acc" 0 +
        ((portion .strided params.localSize0 params.groups0 place).map value).sum := by
  rw [partialSteps, performAll_turns sums (fun turn _ => value turn)
    fun turn listed register lane => ?_, Memory.registers_setVariable_self]
  rw [← found turn (lt_of_mem_portion sized listed)]
  simp [element, Value.inLane, Place.found, Index.eval]

/-- Behind the last partial sum there is room for one more stride. -/
theorem second_room (sized : 0 < params.localSize0) (grouped : 0 < params.groups0)
    (small : params.localSize0 * params.groups0 ≤ Size.kernelLimit) :
    params.groups0 + params.localSize0 ≤ uintCount := by
  have limited : Size.kernelLimit < uintCount := by decide
  obtain ⟨otherItems, isSize⟩ := Nat.exists_eq_add_one.2 sized
  obtain ⟨otherGroups, isCount⟩ := Nat.exists_eq_add_one.2 grouped
  have both : params.groups0 + params.localSize0 ≤ params.localSize0 * params.groups0 + 1 := by
    rw [isSize, isCount, Nat.succ_mul, Nat.mul_succ]
    omega
  omega

variable {strides : List Nat}
  (counting : Counting (fun value => value / 2) (fun value => 0 < value)
    (foldStart params.localSize0) strides)
  (sized : 0 < params.localSize0)

/-- The steps of a work item of the second pass. -/
def secondSteps (params : InnerProduct) (operands : Operands) (index : Nat) (batch : Batch)
    (type : ElementType) (strides : List Nat) :
    (params.secondLaunch index batch operands).Item → List Step :=
  passSteps (params.secondLaunch index batch operands) (params.secondPass index type) type
    params.localSize0 "out" (.literal 0)
    (fun item => params.partialSteps
      ((params.secondLaunch index batch operands).sizes (params.secondPass index type))
      (item.place 0)) strides

omit [AddCommMonoid α] in
include counting sized in
theorem secondLaunch_comes (grouped : 0 < params.groups0)
    (small : params.localSize0 * params.groups0 ≤ Size.kernelLimit) :
    (params.secondLaunch index batch operands).ComesTo (params.secondPass index type)
      (params.secondSteps operands index batch type strides) := by
  have few : params.localSize0 ≤ Size.kernelLimit :=
    le_trans (Nat.le_mul_of_pos_right _ grouped) small
  have splits := (@secondPass_pass params index type).splits
    (@secondLaunch_line params operands index batch) counting
    fun item => partialSteps_unroll sized rfl (item.place 0)
  exact PlannedLaunch.comesTo_of_exact
    (fun item => secondPass_exact (item.place_lt 0) few (second_room sized grouped small))
    fun item => splits ⟨item.group, item.group_lt⟩ ⟨item.place, item.place_lt⟩

omit [AddCommMonoid α] in
/-- The second pass reads the partial sums of all groups, and no others. -/
theorem secondLaunch_reads (comes : (params.secondLaunch index batch operands).ComesTo
      (params.secondPass index type) (params.secondSteps operands index batch type strides))
    (sized : 0 < params.localSize0) (group : Nat) :
    (∃ item, ∃ step ∈ params.secondSteps operands index batch type strides item,
      ⟨"partials", [group]⟩ ∈ step.instruction.reads item.seat step.locals) ↔
        group < params.groups0 := by
  refine mem_reads_iff sized comes (fun item turn listed => ?_) group
  refine ⟨_, subset_passSteps item (List.mem_flatMap.2 ⟨turn, listed, List.mem_singleton_self _⟩),
    .inr ?_⟩
  simp [element, Place.touched, Index.eval]

include counting sized in
/-- The second pass leaves the inner product behind. -/
theorem secondLaunch_completes (grouped : 0 < params.groups0)
    (small : params.localSize0 ≤ Size.kernelLimit) (sums : meaning.Sums) :
    (params.secondLaunch index batch operands).Completes (params.secondPass index type) meaning
      (params.secondSteps operands index batch type strides)
      (params.behindFirst operands meaning store)
      ((params.behindFirst operands meaning store).refill (.buffer operands.out.id) 1 fun _ =>
        ∑ i ∈ Finset.range operands.x.length, operands.product meaning store i) := by
  have line := @secondLaunch_line params operands index batch
  obtain ⟨somewhere, _⟩ := line.exists_place sized
  have : Nonempty (params.secondLaunch index batch operands).Place := ⟨somewhere⟩
  have whole : (∑ i ∈ Finset.range operands.x.length, operands.product meaning store i) =
      ∑ place ∈ Finset.range params.localSize0,
        ((portion .strided params.localSize0 params.groups0 place).map
          (params.partialSum operands meaning store)).sum := by
    rw [(portion_allotment .strided params.groups0 sized).sum_eq, sum_partialSum sized grouped]
  rw [whole, ← @secondLaunch_groups params operands index batch sized 0]
  refine secondPass_pass.completes (fun _ place =>
    ((portion .strided params.localSize0 params.groups0 place).map
      (params.partialSum operands meaning store)).sum)
    line sized small sums (fun item _ => (secondLaunch_group sized item).symm) counting
    (fun item => partialSteps_unroll sized rfl (item.place 0)) (fun other => ?_) ?_
    fun item memory holds start => ?_
  · rw [secondLaunch_storage?]
    split_ifs with isPartials isOut
    · simp [← isPartials]
    · simp [← isOut]
    · exact ⟨nofun, fun same => absurd same.symm isOut⟩
  · have scratch : (params.secondPass index type).scratch = ["buf"] := rfl
    rw [scratch]
    simp [secondLaunch_storage?]
  · have found (group : Nat) (below : group < params.groups0) :
        memory.elements ⟨"partials", [group]⟩ = params.partialSum operands meaning store group := by
      rw [holds "partials" _ (secondLaunch_storage? "partials") group]
      exact if_pos ⟨rfl, below⟩
    rw [performAll_partialSteps sums sized found, start, zero_add]

end Second

/-- The two passes that are launched for an inner product leave it in the first element of the
output, whatever the order of their steps. -/
theorem two_passes {operation : Operation} {profile : List Int} (index : Nat) (store : Store α)
    (accepted : Variant.ofProfile operation profile = .ok (.innerProduct params))
    (found : InnerProduct.operands batch = .ok operands)
    (room : operands.x.length + params.localSize0 * params.groups0 < uintCount)
    (sums : meaning.Sums) :
    (Variant.innerProduct params).emit index batch =
        .ok ⟨[params.firstPass index batch.elementType, params.secondPass index batch.elementType],
          none⟩ ∧
      (Variant.innerProduct params).plan index batch =
        .ok ⟨.primary, [params.firstLaunch index batch operands,
          params.secondLaunch index batch operands]⟩ ∧
      ∃ first second, params.Passes operands meaning store index batch first second := by
  have sized : 0 < params.localSize0 := Variant.ofProfile_sized accepted
  obtain ⟨grouped, few⟩ : 0 < params.groups0 ∧ params.groups0 ≤ Size.kernelLimit :=
    Variant.ofProfile_grouped accepted
  obtain ⟨_, valid, _⟩ := Variant.ofProfile_eq_ok_iff.1 accepted
  have small : params.localSize0 * params.groups0 ≤ Size.kernelLimit :=
    valid.products _ List.mem_cons_self
  have fewItems : params.localSize0 ≤ Size.kernelLimit :=
    le_trans (Nat.le_mul_of_pos_right _ grouped) small
  obtain ⟨first, firstComes, once, firstCompletes⟩ := @exists_first α _ params operands meaning store
    index batch batch.elementType sums sized grouped small room
  obtain ⟨strides, counting⟩ := exists_halving (foldStart params.localSize0)
  have secondComes := @secondLaunch_comes params operands index batch batch.elementType strides
    counting sized grouped small
  exact ⟨bind_eq_ok_iff.2 ⟨operands, found, rfl⟩, bind_eq_ok_iff.2 ⟨operands, found, rfl⟩, first, _, {
    firstComes := firstComes
    secondComes := secondComes
    writesOnce := once
    room := Variant.partialsBytes_eq few _
    counted := rfl
    alone := secondLaunch_groups sized
    reads := secondLaunch_reads secondComes sized
    firstCompletes := firstCompletes
    secondCompletes := secondLaunch_completes counting sized grouped fewItems sums }⟩

end InnerProduct

/-! ### Seven elements -/

namespace Batch

theorem pairing_allowed (length : UInt64) :
    (Node.mk (.buffer ⟨⟨1⟩, .f32, .vector length, ⟨1⟩⟩) .innerProduct
      (.buffer ⟨⟨2⟩, .f32, .vector length, ⟨1⟩⟩)).Admissible ⟨1⟩ 0 := ⟨rfl, rfl⟩

/-- The inner product of two vectors of this length. -/
def pairing (length : UInt64) : Batch :=
  .single (.assignment .f32 ⟨⟨0⟩, .f32, .scalar, ⟨1⟩⟩ .innerProduct
    (.buffer ⟨⟨1⟩, .f32, .vector length, ⟨1⟩⟩) (.buffer ⟨⟨2⟩, .f32, .vector length, ⟨1⟩⟩)
    (pairing_allowed length))

end Batch

/-- Two groups of three work items, with vectors of two lanes, pair seven elements up. -/
theorem InnerProduct.seven_elements :
    Variant.ofProfile .reduction [2, 3, 2, 2] = .ok (.innerProduct ⟨2, 3, 2, .contiguous⟩) ∧
      ∃ operands, InnerProduct.operands (.pairing 7) = .ok operands ∧
        operands.x.length + 3 * 2 < uintCount ∧ Meaning.natural.Sums ∧
        (∃ first second, InnerProduct.Passes ⟨2, 3, 2, .contiguous⟩ operands Meaning.natural
          (fun _ i => i) 0 (.pairing 7) first second) ∧
        ∑ i ∈ Finset.range operands.x.length,
          operands.product Meaning.natural (fun _ i => i) i = 91 := by
  have accepted : Variant.ofProfile .reduction [2, 3, 2, 2] =
      .ok (.innerProduct ⟨2, 3, 2, .contiguous⟩) := rfl
  have found : InnerProduct.operands (.pairing 7) = .ok ⟨⟨⟨0⟩, .f32, .scalar, ⟨1⟩⟩,
    ⟨⟨1⟩, .f32, .vector 7, ⟨1⟩⟩, ⟨⟨2⟩, .f32, .vector 7, ⟨1⟩⟩⟩ := rfl
  have passes := two_passes 0 (fun _ i => i) accepted found (by decide) Meaning.natural_sums
  exact ⟨accepted, _, found, by decide, Meaning.natural_sums, passes.2.2, by decide⟩

end KernelTuner
