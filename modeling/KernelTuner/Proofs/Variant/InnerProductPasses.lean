import KernelTuner.Proofs.Variant.InnerProductSums
import KernelTuner.Proofs.Variant.LaunchRuns

/-!
Contract: launches of a pass of an inner product.

Owns: launches over one dimension; kernels whose work groups each sum something up; and
`InnerProduct.Pass.completes`, by which such a kernel leaves in element `g` of its array the sum of
what the work items of group `g` have.

Does not own: what the work items have (`Proofs.Variant.InnerProductRuns`).
-/

set_option autoImplicit false

namespace KernelTuner

open Kernel
open Function (update)

/-! ### Lines -/

namespace PlannedLaunch

/-- A launch over one dimension. -/
structure Line (launch : PlannedLaunch) (range size : Nat) : Prop where
  globalSize : launch.globalSize = [range]
  localSize : launch.localSize = [size]

namespace Line

variable {launch : PlannedLaunch} {range size : Nat} (line : launch.Line range size)
include line

theorem groupSize_zero : launch.groupSize 0 = size := by
  rw [groupSize, line.localSize]
  rfl

theorem itemsAlong_zero : launch.itemsAlong 0 = range := by
  rw [itemsAlong, line.globalSize]
  rfl

theorem groupsAlong_zero : launch.groupsAlong 0 = range / size := by
  rw [groupsAlong, line.itemsAlong_zero, line.groupSize_zero]

theorem groupSize_beyond (dimension : Nat) : launch.groupSize (dimension + 1) = 1 := by
  rw [groupSize, line.localSize]
  rfl

theorem groupsAlong_beyond (dimension : Nat) : launch.groupsAlong (dimension + 1) = 1 := by
  rw [groupsAlong, itemsAlong, line.globalSize, line.groupSize_beyond]
  exact Nat.div_one _

/-- Work items are told apart by their group and their place in it. -/
theorem item_ext {item other : launch.Item} (group : item.group 0 = other.group 0)
    (place : item.place 0 = other.place 0) : item = other := by
  have groups : item.group = other.group := by
    funext dimension
    cases dimension with
    | zero => exact group
    | succ dimension =>
        have first := item.group_lt (dimension + 1)
        have second := other.group_lt (dimension + 1)
        rw [line.groupsAlong_beyond] at first second
        omega
  have places : item.place = other.place := by
    funext dimension
    cases dimension with
    | zero => exact place
    | succ dimension =>
        have first := item.place_lt (dimension + 1)
        have second := other.place_lt (dimension + 1)
        rw [line.groupSize_beyond] at first second
        omega
  cases item
  cases other
  cases groups
  cases places
  rfl

theorem exists_place {entry : Nat} (inside : entry < size) :
    ∃ place : launch.Place, place.1 0 = entry := by
  refine ⟨⟨fun dimension => [entry].getD dimension 0, fun dimension => ?_⟩, rfl⟩
  cases dimension with
  | zero =>
      rw [line.groupSize_zero]
      exact inside
  | succ dimension =>
      rw [line.groupSize_beyond]
      exact Nat.one_pos

theorem exists_group {number : Nat} (inside : number < launch.groupsAlong 0) :
    ∃ group : launch.Group, group.1 0 = number := by
  refine ⟨⟨fun dimension => [number].getD dimension 0, fun dimension => ?_⟩, rfl⟩
  cases dimension with
  | zero => exact inside
  | succ dimension =>
      rw [line.groupsAlong_beyond]
      exact Nat.one_pos

theorem teamed (group : launch.Group) : InnerProduct.Teamed
    (fun place => (itemAt group place).seat) (fun place : launch.Place => place.1 0) size where
  stands := fun _ => rfl
  inside := fun place => Nat.lt_of_lt_of_eq (place.2 0) line.groupSize_zero
  only := fun place other same => by
    have equal : itemAt group place = itemAt group other := line.item_ext rfl same
    exact Subtype.ext (congrArg Item.place equal)
  whole := fun _ inside => line.exists_place inside

end Line

end PlannedLaunch

/-! ### Passes -/

namespace InnerProduct

open PlannedLaunch (itemAt)

/-- A kernel by which the work items of a group add up elements of some arrays, and the first of
them stores the group's sum in another one. -/
structure Pass (kernel : Kernel) (type : ElementType) (size : Nat) (array : String) (index : Index)
    (added : List Statement) (sources : List String) : Prop where
  body : kernel.body = preamble type size ++ added ++ groupSum size (.element array [index])
  inert : ∀ seat locals, blockBind seat locals added = locals
  keeps : ∀ instruction ∈ blockInstructions added, instruction.Keeps sources
  apart : "buf" ∉ sources
  unread : array ∉ sources
  outside : array ≠ "buf"

section Definitions

variable (launch : PlannedLaunch) (kernel : Kernel) (type : ElementType) (size : Nat)
  (array : String) (index : Index) (adds : launch.Item → List Step) (strides : List Nat)

/-- What a group of the launch does in a pass, where its work items add things up by these steps. -/
def groupSegments (group : launch.Group) : List (Segment launch.Place) :=
  passSegments (fun place => (itemAt group place).seat) (launch.sizes kernel)
    (fun place => place.1 0) type size array index (fun place => adds (itemAt group place)) strides

/-- The steps of a work item in a pass. -/
def passSteps (item : launch.Item) : List Step :=
  stepsOf (groupSegments launch kernel type size array index adds strides
    ⟨item.group, item.group_lt⟩) ⟨item.place, item.place_lt⟩

end Definitions

variable {launch : PlannedLaunch} {kernel : Kernel} {type : ElementType} {range size : Nat}
  {array : String} {index : Index} {added : List Statement} {sources : List String}
  {adds : launch.Item → List Step} {strides : List Nat}

/-- A work item adds things up on its way. -/
theorem subset_passSteps (item : launch.Item) :
    adds item ⊆ passSteps launch kernel type size array index adds strides item := by
  intro step listed
  refine List.mem_append_left _ (List.mem_append_left _ (List.mem_append_right _ listed))

namespace Pass

variable (pass : Pass kernel type size array index added sources)
include pass

theorem fills : kernel.Fills array := by
  have buffered : "buf" ∈ kernel.scratch := by
    refine List.mem_filterMap.2 ⟨.declareArray true type "buf" [.literal size], ?_, rfl⟩
    rw [pass.body]
    simp [preamble, Statement.instructions]
  have keeps {instruction : Instruction} (keeps : instruction.Keeps sources) :
      instruction.own? = none ∧ array ∉ instruction.sources ∧
        ∀ target, instruction.target? = some target → target = array ∨ target ∈ kernel.scratch := by
    rw [keeps.target?_eq_none]
    refine ⟨keeps.own?_eq_none, fun listed => pass.unread (keeps.sources_subset listed), ?_⟩
    rintro target ⟨⟩
  have outside := pass.outside
  unfold Fills
  rw [pass.body, blockInstructions_append, blockInstructions_append, List.forall_mem_append,
    List.forall_mem_append]
  refine ⟨⟨?_, fun instruction listed => keeps (pass.keeps instruction listed)⟩, ?_⟩
  · simp [preamble, Statement.instructions, Instruction.own?, Instruction.target?,
      Instruction.sources, Value.arrays]
  · simp [groupSum, localFold, Statement.instructions, Instruction.own?, Instruction.target?,
      Instruction.sources, Value.arrays, read, element, outside, buffered]

/-! ### Steps -/

theorem splits (line : launch.Line range size)
    (counting : Counting (fun value => value / 2) (fun value => 0 < value) (foldStart size) strides)
    (unrolls : ∀ item : launch.Item, blockUnrolls item.seat
      (update (launch.sizes kernel) "lid" (item.place 0)) added (adds item)) (group : launch.Group) :
    GroupUnrolls (fun place => (itemAt group place).seat) (fun _ => launch.sizes kernel) kernel.body
      (groupSegments launch kernel type size array index adds strides group) := by
  rw [pass.body]
  exact (line.teamed group).unrolls counting (fun place => unrolls (itemAt group place)) pass.inert

theorem keeps_of_unrolls {item : launch.Item} {locals : Variables} {steps : List Step}
    (unrolls : blockUnrolls item.seat locals added steps) :
    ∀ step ∈ steps, step.instruction.Keeps sources :=
  fun _ listed => pass.keeps _ (instruction_of_step listed added unrolls)

/-- The first work item of a group, and no other, writes an element. -/
theorem written_of_unrolls {item : launch.Item} {steps : List Step}
    (stores : ∀ locals, index.eval item.seat locals = item.group 0)
    (unrolls : blockUnrolls item.seat (launch.sizes kernel) kernel.body steps) :
    (written item.seat steps).filter (fun touch => touch.array = array) =
      if item.place 0 = 0 then [⟨array, [item.group 0]⟩] else [] := by
  have outside := pass.outside
  have untouched : blockTargets added = [] :=
    List.filterMap_eq_nil_iff.2 fun instruction among => (pass.keeps instruction among).target?_eq_none
  rw [pass.body, groupSum, ← List.append_assoc] at unrolls
  obtain ⟨front, last, rfl, inFront, inLast⟩ := blockUnrolls_append.1 unrolls
  have others : (written item.seat front).filter (fun touch => touch.array = array) = [] := by
    refine filter_written_eq_nil ?_ inFront
    simp only [blockTargets_append, untouched]
    simp [blockTargets, preamble, localFold, Statement.instructions, Instruction.target?,
      outside, outside.symm]
  have lane : (blockBind item.seat (launch.sizes kernel) (preamble type size ++ added ++
      ([.run (.assign (.element "buf" [.var "lid"]) (read "acc"))] ++
        localFold "lid" (fun index => .element "buf" [index]) size))) "lid" = item.place 0 := by
    simp only [blockBind_append, pass.inert]
    rfl
  obtain rfl := blockUnrolls_singleton.1 inLast
  rw [written_append, List.filter_append, others, List.nil_append]
  simp only [Condition.Holds, Index.eval, lane]
  split
  · simp [Instruction.written, stores]
  · rfl

theorem mem_written_iff {item : launch.Item} {steps : List Step} {element : Nat}
    (stores : ∀ locals, index.eval item.seat locals = item.group 0)
    (unrolls : blockUnrolls item.seat (launch.sizes kernel) kernel.body steps) :
    ⟨array, [element]⟩ ∈ written item.seat steps ↔ item.place 0 = 0 ∧ element = item.group 0 := by
  have filtered : ⟨array, [element]⟩ ∈ written item.seat steps ↔
      ⟨array, [element]⟩ ∈ (written item.seat steps).filter (fun touch => touch.array = array) := by
    simp
  rw [filtered, pass.written_of_unrolls stores unrolls]
  split
  · next first => simp [first]
  · next other => simp [other]

/-- Each group writes one element, and only once. -/
theorem writesOnce (line : launch.Line range size) (sized : 0 < size)
    (stores : ∀ (item : launch.Item) (locals : Variables),
      index.eval item.seat locals = item.group 0)
    (ends : ∀ item : launch.Item, ∃ steps,
      blockUnrolls item.seat (launch.sizes kernel) kernel.body steps) :
    launch.WritesOnce kernel array (launch.groupsAlong 0) where
  ends := ends
  inside := by
    intro item steps unrolls touch listed isArray
    have member : touch ∈ (written item.seat steps).filter fun touch => touch.array = array :=
      List.mem_filter.2 ⟨listed, decide_eq_true isArray⟩
    rw [pass.written_of_unrolls (stores item) unrolls] at member
    split at member
    · obtain rfl := List.mem_singleton.1 member
      exact ⟨_, item.group_lt 0, rfl⟩
    · cases member
  distinct := by
    intro item steps unrolls
    rw [pass.written_of_unrolls (stores item) unrolls]
    split
    · exact List.nodup_singleton _
    · exact List.nodup_nil
  writer := by
    intro element inside
    obtain ⟨group, rfl⟩ := line.exists_group inside
    obtain ⟨place, first⟩ := line.exists_place sized
    obtain ⟨steps, unrolls⟩ := ends (itemAt group place)
    refine ⟨itemAt group place, ⟨steps, unrolls, ?_⟩, ?_⟩
    · exact (pass.mem_written_iff (stores _) unrolls).2 ⟨first, rfl⟩
    · rintro other ⟨otherSteps, otherUnrolls, listed⟩
      obtain ⟨otherFirst, same⟩ := (pass.mem_written_iff (stores other) otherUnrolls).1 listed
      exact line.item_ext same.symm (otherFirst.trans first.symm)

/-! ### Sums -/

/-- A pass leaves in each element the sum of what a group has. -/
theorem completes {α : Type} [AddCommMonoid α] {meaning : Meaning α} {before : Store α}
    {storage : Storage} (term : Nat → Nat → α) (line : launch.Line range size) (sized : 0 < size)
    (small : size ≤ Size.kernelLimit) (sums : meaning.Sums)
    (stores : ∀ (item : launch.Item) (locals : Variables),
      index.eval item.seat locals = item.group 0)
    (counting : Counting (fun value => value / 2) (fun value => 0 < value) (foldStart size) strides)
    (unrolls : ∀ item : launch.Item, blockUnrolls item.seat
      (update (launch.sizes kernel) "lid" (item.place 0)) added (adds item))
    (only : ∀ other, launch.storage? kernel other = some storage ↔ other = array)
    (given : ∀ own ∈ kernel.scratch, launch.storage? kernel own = none)
    (adding : ∀ (item : launch.Item) (memory : Memory α),
      launch.Holds kernel before memory.elements → memory.registers "acc" 0 = 0 →
        (performAll meaning item.seat memory (adds item)).registers "acc" 0 =
          term (item.group 0) (item.place 0)) :
    launch.Completes kernel meaning
      (passSteps launch kernel type size array index adds strides) before
      (before.refill storage (launch.groupsAlong 0) fun group =>
        ∑ entry ∈ Finset.range size, term group entry) := by
  have splits := pass.splits line counting unrolls
  have comes (item : launch.Item) : blockUnrolls item.seat (launch.sizes kernel) kernel.body
      (passSteps launch kernel type size array index adds strides item) :=
    splits ⟨item.group, item.group_lt⟩ ⟨item.place, item.place_lt⟩
  have keeps (group : launch.Group) (place : launch.Place) :
      ∀ step ∈ adds (itemAt group place), step.instruction.Keeps sources :=
    pass.keeps_of_unrolls (unrolls (itemAt group place))
  obtain ⟨somewhere, _⟩ := line.exists_place sized
  have : Nonempty launch.Place := ⟨somewhere⟩
  refine PlannedLaunch.Completes.of_alone pass.fills comes given
    (pass.writesOnce line sized stores fun item => ⟨_, comes item⟩) splits
    (fun group => pass_plain (keeps group)) only
    (fun group => (pass_orderly (keeps group) (line.teamed group) pass.apart).raceFree) ?_
  intro group place element inside writes first last holds runs
  obtain ⟨isFirst, rfl⟩ := (pass.mem_written_iff (stores _) (comes (itemAt group place))).1 writes
  have left : last.shared _ = ∑ entry ∈ Finset.range size, term (group.1 0) entry :=
    shared_of_pass (line.teamed group) sums small counting
    (fun place memory found start => adding (itemAt group place) memory
      (fun name stored isStored entry => (congrFun found _).trans (holds name stored isStored entry))
      start) runs isFirst
  rwa [stores (itemAt group place)] at left

end Pass

end InnerProduct

end KernelTuner
