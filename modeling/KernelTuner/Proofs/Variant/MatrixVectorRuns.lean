import KernelTuner.Proofs.Variant.MatrixVectorLaunch

/-!
Contract: matrix-vector products, launched.

Owns: `MatrixVector.same_sums`, by which a launch leaves in each output the same sum of products
under each fetch policy, and shares the products out among the work items along a row of the group
that has the output; and what a single work item leaves where it overwrites its vector output by
output (`MatrixVector.exists_completes_alone`), which is not the product.

Does not own: how a group comes to its sums (`Proofs.Variant.MatrixVectorGroups`).
-/

set_option autoImplicit false

namespace KernelTuner

open Kernel
open PlannedLaunch (itemAt)

variable {α : Type}

namespace MatrixVector

section Definitions

variable (params : MatrixVector) (operands : Operands) (index : Nat) (batch : Batch)

/-- The launch by these steps. Each output is written once, by the first work item along a row of a
group. The work items along this row, and no others, add to the output, and share out its columns
among them. They multiply elements inside the matrix only. Behind the launch each output is the sum
of its products, whichever operands are one buffer, unless the output overwrites the vector and
there are more outputs than a group has rows. -/
structure Reduces [AddCommMonoid α] (meaning : Meaning α)
    (steps : (params.launch operands index).Item → List Step) : Prop where
  unrolls : ∀ item, blockUnrolls item.seat
    ((params.launch operands index).sizes (params.kernel index batch.elementType))
    (params.kernel index batch.elementType).body (steps item)
  writesOnce : (params.launch operands index).WritesOnce (params.kernel index batch.elementType) "y"
    (operands.outputs params.axis)
  leads : ∀ item r, ⟨"y", [r]⟩ ∈ written item.seat (steps item) → item.place 1 = 0
  shares : ∀ item r, ⟨"y", [r]⟩ ∈ written item.seat (steps item) →
    ∃ team : Nat → (params.launch operands index).Item,
      (∀ lane < params.localSize1, (team lane).group = item.group ∧
        (team lane).place 0 = item.place 0 ∧ (team lane).place 1 = lane) ∧
      Allotment params.localSize1 (fun lane => visited r (steps (team lane)))
        (List.range (operands.inputs params.axis)) ∧
      ∀ other, visited r (steps other) ≠ [] → ∃ lane < params.localSize1, other = team lane
  reads : ∀ item, ∀ step ∈ steps item, ∀ indices : List Nat,
    ⟨"A", indices⟩ ∈ step.instruction.reads item.seat step.locals ↔
      Adds step.instruction ∧ indices =
        [placeOf params.axis operands.matrix.columns (step.locals "r") (step.locals "c")]
  inside : ∀ item, ∀ step ∈ steps item, Adds step.instruction →
    step.locals "r" < operands.outputs params.axis ∧ step.locals "c" < operands.inputs params.axis ∧
      placeOf params.axis operands.matrix.columns (step.locals "r") (step.locals "c") <
        operands.matrix.extent.elements
  completes : batch.Coherent →
    (operands.out.id = operands.x.id → operands.outputs params.axis ≤ params.localSize0) →
      ∀ store : Store α, (params.launch operands index).Completes
        (params.kernel index batch.elementType) meaning steps store
          (store.refill (.buffer operands.out.id) (operands.outputs params.axis)
            (operands.storedSum params.axis meaning store))

end Definitions

/-! ### Steps -/

section Steps

variable (params : MatrixVector) (operands : Operands) (index : Nat) (type : ElementType)
  (accumulating : (params.launch operands index).Group →
    Nat → List (Segment (params.launch operands index).Place))
  (strides : List Nat)

/-- What a group of the launch does, where it adds up shares of its outputs in these segments. -/
def launchSegments (group : (params.launch operands index).Group) :
    List (Segment (params.launch operands index).Place) :=
  params.groupSegments type ((params.launch operands index).sizes (params.kernel index type))
    (fun place => (itemAt group place).seat) (fun place => place.1 0) (fun place => place.1 1)
    (accumulating group) strides (group.1 0) params.groups0

/-- The steps of a work item of the launch. -/
def launchSteps (item : (params.launch operands index).Item) : List Step :=
  stepsOf (params.launchSegments operands index type accumulating strides
    ⟨item.group, item.group_lt⟩) ⟨item.place, item.place_lt⟩

end Steps

section Runs

variable [AddCommMonoid α] {params : MatrixVector} {operands : Operands} {index : Nat}
  {type : ElementType} {meaning : Meaning α}
  {accumulating : (params.launch operands index).Group →
    Nat → List (Segment (params.launch operands index).Place)}
  {strides : List Nat}
  (accumulates : ∀ group first, params.Accumulates
    ((params.launch operands index).sizes (params.kernel index type))
    (fun place => (itemAt group place).seat)
    (inRound ((params.launch operands index).sizes (params.kernel index type))
      (fun place : (params.launch operands index).Place => place.1 0) (fun place => place.1 1) first)
    (fun place => place.1 1) (fun place => first + place.1 0) meaning (accumulating group first))
  (counting : Counting (fun value => value / 2) (fun value => 0 < value)
    (foldStart params.localSize1) strides)
  (sized : 0 < params.localSize0)

include accumulates counting

section Sized

include sized

theorem launch_splits (group : (params.launch operands index).Group) :
    GroupUnrolls (fun place => (itemAt group place).seat)
      (fun _ => (params.launch operands index).sizes (params.kernel index type))
      (params.kernel index type).body
      (params.launchSegments operands index type accumulating strides group) :=
  group_unrolls (launch_ranked group) (accumulates group) counting sized
    ((group.2 0).trans_eq (launch_groups sized)) (fun _ => rfl) fun _ => launch_groups sized

theorem launch_unrolls (item : (params.launch operands index).Item) : blockUnrolls item.seat
    ((params.launch operands index).sizes (params.kernel index type)) (params.kernel index type).body
    (params.launchSteps operands index type accumulating strides item) :=
  launch_splits accumulates counting sized ⟨item.group, item.group_lt⟩ ⟨item.place, item.place_lt⟩

theorem launch_visits (item : (params.launch operands index).Item) (r : Nat) :
    visited r (params.launchSteps operands index type accumulating strides item) =
      if FallsToItem item r then params.columns
        ((params.launch operands index).sizes (params.kernel index type)) r (item.place 1) else [] :=
  group_visits (launch_ranked ⟨item.group, item.group_lt⟩) (accumulates _) counting sized
    ((item.group_lt 0).trans_eq (launch_groups sized)) ⟨item.place, item.place_lt⟩ r

theorem launch_writes (item : (params.launch operands index).Item) (touch : Touch) :
    touch ∈ (written item.seat (params.launchSteps operands index type accumulating strides
      item)).filter (fun touch => touch.array = "y") ↔
        item.place 1 = 0 ∧ ∃ r < operands.outputs params.axis, FallsToItem item r ∧
          touch = ⟨"y", [r]⟩ := by
  rw [← @launch_outer params operands index type]
  exact mem_written_of_group (launch_ranked ⟨item.group, item.group_lt⟩) (accumulates _) counting
    ((item.group_lt 0).trans_eq (launch_groups sized)) ⟨item.place, item.place_lt⟩ touch

theorem launch_writesOnce (wide : 0 < params.localSize1) (grouped : 0 < params.groups0) :
    (params.launch operands index).WritesOnce (params.kernel index type) "y"
      (operands.outputs params.axis) :=
  writesOnce_of_writes (launch_writes accumulates counting sized) sized wide grouped
    (launch_unrolls accumulates counting sized) fun item =>
      nodup_written_of_group (accumulates ⟨item.group, item.group_lt⟩) counting sized
        ((item.group_lt 0).trans_eq (launch_groups sized)) ⟨item.place, item.place_lt⟩

end Sized

theorem launch_inside (item : (params.launch operands index).Item) :
    ∀ step ∈ params.launchSteps operands index type accumulating strides item,
      params.Inside ((params.launch operands index).sizes (params.kernel index type)) step :=
  group_inside (accumulates _) counting ⟨item.place, item.place_lt⟩

/-- A work item finds an element of the matrix where it adds a product, and only there. -/
theorem launch_reads (sized : 0 < params.localSize0) (item : (params.launch operands index).Item)
    {step : Step} (listed : step ∈ params.launchSteps operands index type accumulating strides item)
    (indices : List Nat) :
    ⟨"A", indices⟩ ∈ step.instruction.reads item.seat step.locals ↔
      Adds step.instruction ∧ indices =
        [placeOf params.axis operands.matrix.columns (step.locals "r") (step.locals "c")] := by
  have found (adds : Adds step.instruction) :
      ⟨"A", indices⟩ ∈ step.instruction.reads item.seat step.locals ↔ indices =
        [placeOf params.axis operands.matrix.columns (step.locals "r") (step.locals "c")] := by
    obtain ⟨_, _, columns, array, entry, apart, isProduct⟩ :=
      launch_inside accumulates counting item step listed adds
    rw [isProduct, product_reads apart, columns]
    rfl
  constructor
  · intro reads
    have adds := kernel_reads _ (instruction_of_step listed (params.kernel index type).body
      (launch_unrolls accumulates counting sized item)) reads
    exact ⟨adds, (found adds).1 reads⟩
  · rintro ⟨adds, same⟩
    exact (found adds).2 same

/-- No group finds what another one stores. -/
theorem launch_apart (sized : 0 < params.localSize0) (wide : 0 < params.localSize1)
    (undisturbed : params.Undisturbed
      ((params.launch operands index).sizes (params.kernel index type))
      ((params.launch operands index).home (params.kernel index type)))
    (item other : (params.launch operands index).Item) :
    ∀ step ∈ params.launchSteps operands index type accumulating strides item,
      ∀ touch ∈ step.instruction.footprint item.seat step.locals, touch.array ≠ "y" →
        ∀ r, ⟨"y", [r]⟩ ∈ written other.seat
          (params.launchSteps operands index type accumulating strides other) →
            touch.rename ((params.launch operands index).home (params.kernel index type)) =
              ⟨(params.launch operands index).home (params.kernel index type) "y", [r]⟩ →
                item.group = other.group := by
  intro step listed touch inside notOutput r wrote same
  have ownNames : OwnNames ((params.launch operands index).home (params.kernel index type)) :=
    launch_ownNames
  have shares : (params.launch operands index).home (params.kernel index type) touch.array =
      (params.launch operands index).home (params.kernel index type) "y" := congrArg Touch.array same
  rcases group_finds (accumulates ⟨item.group, item.group_lt⟩) counting ⟨item.place, item.place_lt⟩
    step listed touch inside with own | ⟨first, isFirst, found⟩
  · simp only [List.mem_cons, List.not_mem_nil, or_false] at own
    rcases own with staged | folded | output
    · rw [staged] at shares
      exact absurd (ownNames.stagedAlone "y" shares.symm) (by decide)
    · rw [folded] at shares
      exact absurd (ownNames.foldedAlone "y" shares.symm) (by decide)
    · exact absurd output notOutput
  · have counted : item.group 0 < params.groups0 := (item.group_lt 0).trans_eq (launch_groups sized)
    obtain ⟨begins, whole, isGroup⟩ := (mem_firsts sized counted).1 isFirst
    obtain ⟨_, below, falls⟩ :=
      (mem_written_iff (launch_writes accumulates counting sized) other r).1 wrote
    have round := div_of_round whole (item.place_lt 0)
    by_cases together : (first + item.place 0) / params.localSize0 = r / params.localSize0
    · have quotient : first / params.localSize0 = r / params.localSize0 :=
        (congrArg (· / params.localSize0) round).symm.trans
          ((Nat.mul_div_cancel _ sized).trans together)
      have sameGroup : item.group 0 = other.group 0 := by
        rw [← isGroup, ← falls.2, quotient]
      exact group_ext wide sameGroup
    · exact absurd same (undisturbed _ r (round.trans_lt begins) (below.trans_eq launch_outer.symm)
        together touch found)

/-- The launch leaves in each output the sum of its products, if no output is found in another
round. -/
theorem launch_completes (sized : 0 < params.localSize0) (wide : 0 < params.localSize1)
    (grouped : 0 < params.groups0) (small : params.localSize1 ≤ Size.kernelLimit)
    (sums : meaning.Sums) (undisturbed : params.Undisturbed
      ((params.launch operands index).sizes (params.kernel index type))
      ((params.launch operands index).home (params.kernel index type))) (store : Store α) :
    (params.launch operands index).Completes (params.kernel index type) meaning
      (params.launchSteps operands index type accumulating strides) store
      (store.refill (.buffer operands.out.id) (operands.outputs params.axis)
        (operands.storedSum params.axis meaning store)) := by
  have : Nonempty (params.launch operands index).Place := nonempty_place sized wide grouped
  have counted (group : (params.launch operands index).Group) : group.1 0 < params.groups0 :=
    (group.2 0).trans_eq (launch_groups sized)
  refine PlannedLaunch.Completes.of_segments kernel_fills
    (launch_unrolls accumulates counting sized) launch_scratch
    (launch_writesOnce accumulates counting sized wide grouped)
    (launch_splits accumulates counting sized) (fun group => group_plain (accumulates group))
    (fun group => group_raceFree (launch_ranked group) (accumulates group) sized (counted group)
      launch_ownNames undisturbed)
    (launch_apart accumulates counting sized wide undisturbed) launch_output ?_
  intro group place r below wrote first last holds runs
  obtain ⟨leads, _, falls⟩ :=
    (mem_written_iff (launch_writes accumulates counting sized) (itemAt group place) r).1 wrote
  rw [shared_of_group (launch_ranked group) (accumulates group) counting sized (counted group)
    launch_ownNames undisturbed sums wide small runs leads (below.trans_eq launch_outer.symm) falls,
    total_of_holds holds]

end Runs

/-! ### Sums -/

section Sums

variable [AddCommMonoid α] {params : MatrixVector} {operands : Operands} {meaning : Meaning α}

/-- The groups of a launch come to add up shares of their outputs under each fetch policy. -/
theorem exists_accumulating (operands : Operands) (index : Nat) (type : ElementType)
    (sized : 0 < params.localSize0) (wide : 0 < params.localSize1) (sums : meaning.Sums) :
    ∃ accumulating : (params.launch operands index).Group →
        Nat → List (Segment (params.launch operands index).Place),
      ∀ group first, params.Accumulates
        ((params.launch operands index).sizes (params.kernel index type))
        (fun place => (itemAt group place).seat)
        (inRound ((params.launch operands index).sizes (params.kernel index type))
          (fun place : (params.launch operands index).Place => place.1 0) (fun place => place.1 1)
          first)
        (fun place => place.1 1) (fun place => first + place.1 0) meaning
        (accumulating group first) := by
  choose accumulating accumulates using
    fun (group : (params.launch operands index).Group) first => exists_accumulates
      (fun place => @knows_inRound _ ((params.launch operands index).sizes (params.kernel index type))
        (fun place : (params.launch operands index).Place => place.1 0) (fun place => place.1 1) first
          place) wide (launch_ranked group) sized sums
  exact ⟨accumulating, accumulates⟩

/-- A group adds up shares of its outputs under each fetch policy. -/
theorem exists_reduces (index : Nat) {batch : Batch}
    (checked : operands.Checked params.axis batch) (sized : 0 < params.localSize0)
    (wide : 0 < params.localSize1) (grouped : 0 < params.groups0)
    (small : params.localSize1 ≤ Size.kernelLimit) (sums : meaning.Sums) :
    ∃ steps, params.Reduces operands index batch meaning steps := by
  obtain ⟨strides, counting⟩ := exists_halving (foldStart params.localSize1)
  obtain ⟨accumulating, accumulates⟩ :=
    exists_accumulating operands index batch.elementType sized wide sums
  have writes := launch_writes accumulates counting sized
  refine ⟨params.launchSteps operands index batch.elementType accumulating strides, {
    unrolls := launch_unrolls accumulates counting sized
    writesOnce := launch_writesOnce accumulates counting sized wide grouped
    leads := fun item r listed => ((mem_written_iff writes item r).1 listed).1
    shares := fun item r listed => ?_
    reads := fun item step listed => launch_reads accumulates counting sized item listed
    inside := fun item step listed adds => ?_
    completes := fun coherent once => launch_completes accumulates counting sized wide grouped small
      sums (launch_undisturbed checked coherent once) }⟩
  · obtain ⟨_, below, falls⟩ := (mem_written_iff writes item r).1 listed
    exact exists_shares wide (launch_visits accumulates counting sized) item below falls
  · obtain ⟨output, input, _⟩ := launch_inside accumulates counting item step listed adds
    rw [launch_outer] at output
    rw [launch_inner] at input
    refine ⟨output, input, ?_⟩
    rw [checked.elements]
    exact placeOf_lt output input

/-- The launch of a matrix-vector product leaves in each output the sum of its products, whatever the
policy by which its groups fetch the vector. -/
theorem same_sums {operation : Operation} {profile : List Int} {batch : Batch} (index : Nat)
    (accepted : Variant.ofProfile operation profile = .ok (.matrixVector params))
    (found : MatrixVector.operands params.axis batch = .ok operands) (sums : meaning.Sums) :
    (Variant.matrixVector params).emit index batch =
        .ok ⟨[params.kernel index batch.elementType], none⟩ ∧
      (Variant.matrixVector params).plan index batch =
        .ok ⟨.primary, [params.launch operands index]⟩ ∧
      ∃ steps, params.Reduces operands index batch meaning steps := by
  obtain ⟨sized, wide⟩ : 0 < params.localSize0 ∧ 0 < params.localSize1 :=
    Variant.ofProfile_sized accepted
  have grouped : 0 < params.groups0 := Variant.ofProfile_grouped accepted
  obtain ⟨_, valid, _⟩ := Variant.ofProfile_eq_ok_iff.1 accepted
  have few : params.localSize0 * params.localSize1 ≤ Size.kernelLimit :=
    valid.products _ List.mem_cons_self
  have small : params.localSize1 ≤ Size.kernelLimit :=
    le_trans (Nat.le_mul_of_pos_left _ sized) few
  exact ⟨bind_eq_ok_iff.2 ⟨operands, found, rfl⟩, bind_eq_ok_iff.2 ⟨operands, found, rfl⟩,
    exists_reduces index (checked_of_operands found) sized wide grouped small sums⟩

end Sums

end MatrixVector

/-! ### Three columns -/

namespace Batch

theorem columnSums_allowed (rows columns : UInt64) :
    (Node.mk (.buffer ⟨⟨1⟩, .f32, .matrix rows columns, ⟨1⟩⟩) .matrixVectorColumns
      (.buffer ⟨⟨2⟩, .f32, .vector rows, ⟨1⟩⟩)).Admissible ⟨1⟩ 0 := ⟨rfl, rfl⟩

/-- The sums of the columns of a matrix, each row of it weighted by an element of a vector. -/
def columnSums (rows columns : UInt64) : Batch :=
  .single (.assignment .f32 ⟨⟨0⟩, .f32, .vector columns, ⟨1⟩⟩ .matrixVectorColumns
    (.buffer ⟨⟨1⟩, .f32, .matrix rows columns, ⟨1⟩⟩) (.buffer ⟨⟨2⟩, .f32, .vector rows, ⟨1⟩⟩)
    (columnSums_allowed rows columns))

theorem columnSums_coherent {rows columns : UInt64} : (columnSums rows columns).Coherent := by
  refine coherent_of_assignment ?_
  simp only [Operand.buffer.injEq]
  rintro _ _ (rfl | rfl | rfl) (rfl | rfl | rfl) same
  all_goals first | rfl | cases same

end Batch

/-- Two groups with two rows of three work items each add up three columns of five elements. -/
theorem MatrixVector.three_columns :
    Variant.ofProfile .colWiseReduction [2, 2, 3, 2, 2] =
        .ok (.matrixVector ⟨.columns, 2, 2, 3, 2, .contiguous⟩) ∧
      ∃ operands, MatrixVector.operands .columns (.columnSums 5 3) = .ok operands ∧
        Meaning.natural.Sums ∧ (Batch.columnSums 5 3).Coherent ∧ operands.out.id ≠ operands.x.id ∧
        (∃ steps, MatrixVector.Reduces ⟨.columns, 2, 2, 3, 2, .contiguous⟩ operands 0
          (.columnSums 5 3) Meaning.natural steps) ∧
        operands.outputs .columns = 3 ∧
        operands.storedSum .columns Meaning.natural (fun _ i => i) 2 = 110 := by
  have accepted : Variant.ofProfile .colWiseReduction [2, 2, 3, 2, 2] =
      .ok (.matrixVector ⟨.columns, 2, 2, 3, 2, .contiguous⟩) := rfl
  have found : MatrixVector.operands .columns (.columnSums 5 3) = .ok ⟨⟨⟨0⟩, .f32, .vector 3, ⟨1⟩⟩,
    ⟨⟨1⟩, .f32, .matrix 5 3, ⟨1⟩⟩, ⟨⟨2⟩, .f32, .vector 5, ⟨1⟩⟩⟩ := rfl
  have reduces := MatrixVector.same_sums 0 accepted found Meaning.natural_sums
  exact ⟨accepted, _, found, Meaning.natural_sums, Batch.columnSums_coherent, by decide,
    reduces.2.2, rfl, by decide⟩

/-! ### In place -/

namespace MatrixVector

section InPlace

variable [AddCommMonoid α] (params : MatrixVector) (operands : Operands) (meaning : Meaning α)

/-- What is stored behind the round of the outputs from `first` on. -/
def Operands.behindRound (store : Store α) (first : Nat) : Store α := fun storage element =>
  if storage = .buffer operands.out.id ∧ element < operands.outputs params.axis ∧
      first ≤ element ∧ element < first + params.localSize0 then
    operands.storedSum params.axis meaning store element
  else store storage element

variable {params operands meaning} {index : Nat} {type : ElementType}

section Rounds

variable {group : (params.launch operands index).Group}
  {accumulating : Nat → List (Segment (params.launch operands index).Place)} {strides : List Nat}
  (accumulates : ∀ first, params.Accumulates
    ((params.launch operands index).sizes (params.kernel index type))
    (fun place => (itemAt group place).seat)
    (inRound ((params.launch operands index).sizes (params.kernel index type))
      (fun place : (params.launch operands index).Place => place.1 0) (fun place => place.1 1) first)
    (fun place => place.1 1) (fun place => first + place.1 0) meaning (accumulating first))
  (counting : Counting (fun value => value / 2) (fun value => 0 < value)
    (foldStart params.localSize1) strides)
  (sums : meaning.Sums) (wide : 0 < params.localSize1) (small : params.localSize1 ≤ Size.kernelLimit)
include accumulates counting sums wide small

/-- Behind a round the arrays hold what they held in front of it, but for the outputs of the round,
whichever operands are one buffer. -/
theorem holds_of_round {first : Nat} {store : Store α}
    {before after : View (params.launch operands index).Place α}
    (holds : (params.launch operands index).Holds (params.kernel index type) store
      (before.under ((params.launch operands index).home (params.kernel index type))).shared)
    (runs : Runs meaning (fun place => (itemAt group place).seat) ((params.roundSegments type
      ((params.launch operands index).sizes (params.kernel index type))
      (fun place => (itemAt group place).seat) (fun place => place.1 0) (fun place => place.1 1)
      accumulating strides first).map (Segment.rename ((params.launch operands index).home
        (params.kernel index type)))) before after) :
    (params.launch operands index).Holds (params.kernel index type)
      (operands.behindRound params meaning store first)
      (after.under ((params.launch operands index).home (params.kernel index type))).shared := by
  intro array storage stored element
  by_cases isOutput : storage = .buffer operands.out.id ∧ element < operands.outputs params.axis ∧
      first ≤ element ∧ element < first + params.localSize0
  · obtain ⟨rfl, below, begins, ends⟩ := isOutput
    obtain ⟨place, row, leads⟩ :=
      (launch_ranked group).whole (element - first) (by omega) 0 wide
    have isElement : first + place.1 0 = element := by omega
    have left := output_of_round launch_ownNames accumulates counting (launch_ranked group) sums wide
      small runs leads ((isElement.trans_lt below).trans_eq launch_outer.symm)
    rw [isElement, total_of_holds holds] at left
    refine Eq.trans ?_ (left.trans (if_pos ⟨rfl, below, begins, ends⟩).symm)
    show after.shared ⟨_, [element]⟩ = _
    rw [PlannedLaunch.home_eq_iff.2 (.inr ⟨_, stored, launch_output⟩)]
  · refine Eq.trans ?_ ((holds array storage stored element).trans (if_neg isOutput).symm)
    have shared : (⟨array, [element]⟩ : Touch).array ∉ ["xs", "buf"] := by
      intro own
      have scratch : (params.launch operands index).storage? (params.kernel index type) array =
          none := by
        simp only [List.mem_cons, List.not_mem_nil, or_false] at own
        rcases own with rfl | rfl <;> exact launch_storage? _
      rw [scratch] at stored
      cases stored
    refine kept_of_round launch_ownNames (accumulates first) counting runs shared
      fun place leads below same => isOutput ?_
    obtain rfl : element = first + place.1 0 :=
      List.singleton_inj.1 (congrArg Touch.indices same)
    have inside : place.1 0 < params.localSize0 := place.2 0
    have sameHome : (params.launch operands index).home (params.kernel index type) array =
        (params.launch operands index).home (params.kernel index type) "y" :=
      congrArg Touch.array same
    have here : (params.launch operands index).storage? (params.kernel index type) array =
        some (.buffer operands.out.id) := by
      rw [← PlannedLaunch.storage?_home, sameHome, PlannedLaunch.storage?_home, launch_output]
    exact ⟨Option.some.inj (stored.symm.trans here), below.trans_eq launch_outer, by omega,
      by omega⟩

theorem holds_of_rounds {firsts : List Nat} {store : Store α}
    {before after : View (params.launch operands index).Place α}
    (holds : (params.launch operands index).Holds (params.kernel index type) store
      (before.under ((params.launch operands index).home (params.kernel index type))).shared)
    (runs : Runs meaning (fun place => (itemAt group place).seat) ((firsts.flatMap
      (params.roundSegments type ((params.launch operands index).sizes (params.kernel index type))
        (fun place => (itemAt group place).seat) (fun place => place.1 0) (fun place => place.1 1)
        accumulating strides)).map (Segment.rename ((params.launch operands index).home
          (params.kernel index type)))) before after) :
    (params.launch operands index).Holds (params.kernel index type)
      (firsts.foldl (operands.behindRound params meaning) store)
      (after.under ((params.launch operands index).home (params.kernel index type))).shared := by
  induction firsts generalizing store before with
  | nil =>
      obtain rfl : after = before := runs
      exact holds
  | cons first rest inductionHypothesis =>
      rw [List.flatMap_cons, List.map_append] at runs
      obtain ⟨between, inRound, inRest⟩ := runs_append.1 runs
      exact inductionHypothesis
        (holds_of_round accumulates counting sums wide small holds inRound) inRest

end Rounds

/-- A work item that is alone in its launch leaves what its rounds do, one behind another, whichever
operands are one buffer. -/
theorem exists_completes_alone (oneRow : params.localSize0 = 1) (oneLane : params.localSize1 = 1)
    (oneGroup : params.groups0 = 1) (sums : meaning.Sums) :
    ∃ steps, (∀ item, blockUnrolls item.seat
        ((params.launch operands index).sizes (params.kernel index type))
        (params.kernel index type).body (steps item)) ∧
      ∀ store : Store α, (params.launch operands index).Completes (params.kernel index type) meaning
        steps store (store.refill (.buffer operands.out.id) (operands.outputs params.axis)
          ((List.range (operands.outputs params.axis)).foldl (operands.behindRound params meaning)
            store (.buffer operands.out.id))) := by
  have sized : 0 < params.localSize0 := Nat.one_pos.trans_eq oneRow.symm
  have wide : 0 < params.localSize1 := Nat.one_pos.trans_eq oneLane.symm
  have grouped : 0 < params.groups0 := Nat.one_pos.trans_eq oneGroup.symm
  have small : params.localSize1 ≤ Size.kernelLimit := by
    rw [oneLane]
    decide
  have : Nonempty (params.launch operands index).Place := nonempty_place sized wide grouped
  have first (number : Nat) (inside : number < (params.launch operands index).groupsAlong 0) :
      number = 0 := by
    rw [launch_groups sized, oneGroup] at inside
    exact Nat.lt_one_iff.1 inside
  have oneItem (group : (params.launch operands index).Group)
      (place other : (params.launch operands index).Place) : place = other := by
    have row : place.1 0 < params.localSize0 := place.2 0
    have otherRow : other.1 0 < params.localSize0 := other.2 0
    have lane : place.1 1 < params.localSize1 := place.2 1
    have otherLane : other.1 1 < params.localSize1 := other.2 1
    exact (launch_ranked group).only place other (by omega) (by omega)
  obtain ⟨strides, counting⟩ := exists_halving (foldStart params.localSize1)
  obtain ⟨accumulating, accumulates⟩ :=
    exists_accumulating operands index type sized wide sums
  refine ⟨params.launchSteps operands index type accumulating strides,
    launch_unrolls accumulates counting sized, fun store => ?_⟩
  refine PlannedLaunch.Completes.of_segments kernel_fills
    (launch_unrolls accumulates counting sized) launch_scratch
    (launch_writesOnce accumulates counting sized wide grouped)
    (launch_splits accumulates counting sized) (fun group => group_plain (accumulates group))
    (fun group _ _ place other apart => absurd (oneItem group place other) apart)
    (fun item other _ _ _ _ _ _ _ _ => ?_) launch_output ?_
  · exact group_ext wide ((first _ (item.group_lt 0)).trans (first _ (other.group_lt 0)).symm)
  · intro group place r below wrote before last holds runs
    obtain ⟨opened, unmoved, rounds⟩ := rounds_of_group runs
    have firsts : params.firsts ((params.launch operands index).sizes (params.kernel index type))
        (group.1 0) params.groups0 = List.range (operands.outputs params.axis) := by
      rw [firsts, launch_outer, first _ (group.2 0), oneRow, oneGroup, Nat.zero_mul, Nat.mul_one,
        stepsBelow_one]
    rw [firsts] at rounds
    have opens : (params.launch operands index).Holds (params.kernel index type) store
        (opened.under ((params.launch operands index).home (params.kernel index type))).shared := by
      rw [View.under, unmoved]
      exact holds
    exact holds_of_rounds (accumulates group) counting sums wide small opens rounds "y" _
      launch_output r

end InPlace

end MatrixVector

namespace Batch

theorem inPlace_allowed (size : UInt64) :
    (Node.mk (.buffer ⟨⟨1⟩, .f32, .matrix size size, ⟨1⟩⟩) .matrixVectorRows
      (.buffer ⟨⟨2⟩, .f32, .vector size, ⟨1⟩⟩)).Admissible ⟨1⟩ 0 := ⟨rfl, rfl⟩

/-- A vector is multiplied by a matrix, and overwritten with the product. -/
def inPlace (size : UInt64) : Batch :=
  .single (.assignment .f32 ⟨⟨2⟩, .f32, .vector size, ⟨1⟩⟩ .matrixVectorRows
    (.buffer ⟨⟨1⟩, .f32, .matrix size size, ⟨1⟩⟩) (.buffer ⟨⟨2⟩, .f32, .vector size, ⟨1⟩⟩)
    (inPlace_allowed size))

theorem inPlace_coherent {size : UInt64} : (inPlace size).Coherent := by
  refine coherent_of_assignment ?_
  simp only [Operand.buffer.injEq]
  rintro _ _ (rfl | rfl | rfl) (rfl | rfl | rfl) same
  all_goals first | rfl | cases same

end Batch

namespace MatrixVector

/-- One work item comes to all outputs. -/
def oneByOne : MatrixVector := ⟨.rows, 1, 1, 1, 1, .strided⟩

/-- A matrix that reverses two elements, and the elements one and two. -/
def reversal : Store Nat := fun storage element =>
  if storage = .buffer ⟨1⟩ then if element = 1 ∨ element = 2 then 1 else 0 else element + 1

/-- A vector that is overwritten with its reversal is not reversed: the second output is the element
that the first one has left. -/
theorem reversed_in_place :
    Variant.ofProfile .rowWiseReduction [1, 1, 1, 1, 1] = .ok (.matrixVector oneByOne) ∧
      ∃ operands, MatrixVector.operands .rows (.inPlace 2) = .ok operands ∧
        (Batch.inPlace 2).Coherent ∧ Meaning.natural.Sums ∧
        (Variant.matrixVector oneByOne).plan 0 (.inPlace 2) =
          .ok ⟨.primary, [oneByOne.launch operands 0]⟩ ∧
        (List.range 2).map (operands.storedSum .rows Meaning.natural reversal) = [2, 1] ∧
        ∃ steps, (∀ item, blockUnrolls item.seat
            ((oneByOne.launch operands 0).sizes (oneByOne.kernel 0 .f32))
            (oneByOne.kernel 0 .f32).body (steps item)) ∧
          (oneByOne.launch operands 0).Completes (oneByOne.kernel 0 .f32) Meaning.natural steps
            reversal (reversal.refill (.buffer operands.out.id) 2 fun _ => 2) ∧
          ¬ (oneByOne.launch operands 0).Completes (oneByOne.kernel 0 .f32) Meaning.natural steps
            reversal (reversal.refill (.buffer operands.out.id) 2
              (operands.storedSum .rows Meaning.natural reversal)) := by
  have accepted : Variant.ofProfile .rowWiseReduction [1, 1, 1, 1, 1] =
      .ok (.matrixVector oneByOne) := rfl
  let operands : Operands := ⟨⟨⟨2⟩, .f32, .vector 2, ⟨1⟩⟩, ⟨⟨1⟩, .f32, .matrix 2 2, ⟨1⟩⟩,
    ⟨⟨2⟩, .f32, .vector 2, ⟨1⟩⟩⟩
  have found : MatrixVector.operands .rows (.inPlace 2) = .ok operands := rfl
  obtain ⟨steps, unrolls, completes⟩ : ∃ steps, (∀ item, blockUnrolls item.seat
      ((oneByOne.launch operands 0).sizes (oneByOne.kernel 0 .f32)) (oneByOne.kernel 0 .f32).body
      (steps item)) ∧ ∀ store : Store Nat, (oneByOne.launch operands 0).Completes
        (oneByOne.kernel 0 .f32) Meaning.natural steps store
          (store.refill (.buffer operands.out.id) 2 ((List.range 2).foldl
            (operands.behindRound oneByOne Meaning.natural) store (.buffer operands.out.id))) :=
    exists_completes_alone rfl rfl rfl Meaning.natural_sums
  have outputs : ∀ r < 2, (List.range 2).foldl (operands.behindRound oneByOne Meaning.natural)
      reversal (.buffer operands.out.id) r = 2 := by decide
  have left := Store.refill_congr outputs ▸ completes reversal
  refine ⟨accepted, operands, found, Batch.inPlace_coherent, Meaning.natural_sums, rfl, by decide,
    steps, unrolls, left, fun reverses => ?_⟩
  have same : (1 : Nat) = 2 := congrFun (congrFun (left.unique reverses) (.buffer ⟨2⟩)) 1
  cases same

end MatrixVector

end KernelTuner
