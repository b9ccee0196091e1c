import KernelTuner.Proofs.Kernel.Access
import KernelTuner.Proofs.Variant.Signatures

/-!
Contract: what the work items of a launch touch of its arguments.

Owns: the work items of a launch and what each of them is told about its place; the sizes
that a kernel is given; when an argument has an element; and launches that stay inside
their arguments.
-/

set_option autoImplicit false

namespace KernelTuner

open Kernel (Seat Touch Variables)

namespace PlannedLaunch

/-! ### Work items -/

/-- The work items of the launch along a dimension. -/
def itemsAlong (launch : PlannedLaunch) (dimension : Nat) : Nat :=
  launch.globalSize.getD dimension 1

/-- The work items of one work group along a dimension. -/
def groupSize (launch : PlannedLaunch) (dimension : Nat) : Nat :=
  launch.localSize.getD dimension 1

/-- The work groups along a dimension. -/
def groupsAlong (launch : PlannedLaunch) (dimension : Nat) : Nat :=
  launch.itemsAlong dimension / launch.groupSize dimension

/-- A work item: its work group and its place in the group, by dimension. -/
structure Item (launch : PlannedLaunch) where
  group : Nat → Nat
  place : Nat → Nat
  group_lt : ∀ dimension, group dimension < launch.groupsAlong dimension
  place_lt : ∀ dimension, place dimension < launch.groupSize dimension

/-- What a work item is told about its place. -/
def Item.seat {launch : PlannedLaunch} (item : launch.Item) : Seat
  | .globalId, dimension =>
      item.group dimension * launch.groupSize dimension + item.place dimension
  | .globalSize, dimension => launch.itemsAlong dimension
  | .localId, dimension => item.place dimension
  | .groupId, dimension => item.group dimension
  | .groupCount, dimension => launch.groupsAlong dimension

theorem Fills.even {launch : PlannedLaunch} (fills : launch.Fills) (dimension : Nat) :
    0 < launch.groupSize dimension ∧
      launch.groupSize dimension ∣ launch.itemsAlong dimension := by
  obtain ⟨_, _, filled⟩ := fills
  unfold groupSize itemsAlong
  generalize launch.globalSize = ranges at filled ⊢
  generalize launch.localSize = groups at filled ⊢
  induction filled generalizing dimension with
  | nil => exact ⟨Nat.one_pos, Nat.dvd_refl 1⟩
  | cons head _ inductionHypothesis =>
      cases dimension with
      | zero => exact head
      | succ dimension => exact inductionHypothesis dimension

/-- In a launch whose work groups fill its range there is a work item at every position. -/
theorem Fills.exists_item {launch : PlannedLaunch} (fills : launch.Fills) {position : Nat → Nat}
    (inside : ∀ dimension, position dimension < launch.itemsAlong dimension) :
    ∃ item : launch.Item, ∀ dimension, item.seat .globalId dimension = position dimension := by
  let item : launch.Item := {
    group := fun dimension => position dimension / launch.groupSize dimension
    place := fun dimension => position dimension % launch.groupSize dimension
    group_lt := fun dimension =>
      Nat.div_lt_div_of_lt_of_dvd (fills.even dimension).2 (inside dimension)
    place_lt := fun dimension => Nat.mod_lt _ (fills.even dimension).1 }
  exact ⟨item, fun dimension => Nat.div_add_mod' _ _⟩

/-- In a launch over one dimension there is a work item at every position of its range. -/
theorem exists_item_of_range {name : String} {range group position : Nat}
    {arguments : List Argument} (positive : 0 < group) (divides : group ∣ range)
    (inside : position < range) :
    ∃ item : (PlannedLaunch.mk name [range] [group] arguments).Item,
      item.seat .globalId 0 = position := by
  have fills : (PlannedLaunch.mk name [range] [group] arguments).Fills :=
    Variant.fills_one positive divides
  have within (dimension : Nat) : (if dimension = 0 then position else 0) <
      (PlannedLaunch.mk name [range] [group] arguments).itemsAlong dimension := by
    cases dimension with
    | zero => exact inside
    | succ dimension => exact Nat.one_pos
  obtain ⟨item, stands⟩ := fills.exists_item within
  exact ⟨item, stands 0⟩

/-! ### Arguments -/

/-- The sizes that a kernel is given, by the names of its parameters. -/
def sizes (launch : PlannedLaunch) (kernel : Kernel) : Variables := fun name =>
  ((kernel.parameters.zip launch.arguments).findSome? fun passed =>
    match passed with
    | (.size declared, .size value) => if declared = name then some value else none
    | _ => none).getD 0

end PlannedLaunch

/-- Whether an argument has an element of this index. The elements of a workspace are as
large as those of the batch. -/
def Argument.HasElement (batch : Batch) (element : Nat) : Argument → Prop
  | .buffer id => ∀ handle, batch.Holds handle → handle.id = id → element < handle.extent.elements
  | .workspace _ bytes => batch.elementType.bytes * (element + 1) ≤ bytes
  | _ => False

/-- Handles of one identity are of one buffer: an identity is given out once. -/
def Batch.Coherent (batch : Batch) : Prop :=
  ∀ handle other, batch.Holds handle → batch.Holds other → handle.id = other.id →
    handle.extent = other.extent

theorem Batch.coherent_of_assignment {elementType : ElementType} {target : Buffer}
    {operator : Operator} {lhs rhs : Operand}
    {allowed : (Node.mk lhs operator rhs).Admissible target.context 0}
    (agree : ∀ handle other, (handle = target ∨ lhs = .buffer handle ∨ rhs = .buffer handle) →
      (other = target ∨ lhs = .buffer other ∨ rhs = .buffer other) → handle.id = other.id →
        handle.extent = other.extent) :
    (single (.assignment elementType target operator lhs rhs allowed)).Coherent :=
  fun handle other holds otherHolds =>
    agree handle other (holds_of_assignment holds) (holds_of_assignment otherHolds)

theorem Batch.Coherent.hasElement_iff {batch : Batch} (coherent : batch.Coherent) {handle : Buffer}
    (holds : batch.Holds handle) (element : Nat) :
    (Argument.buffer handle.id).HasElement batch element ↔ element < handle.extent.elements := by
  constructor
  · intro has
    exact has handle holds rfl
  · intro inside other otherHolds same
    rwa [coherent other handle otherHolds holds same]

namespace PlannedLaunch

/-- The elements of arrays that a launch may touch: where an array is a parameter, those
that the argument for it has. -/
def allowed (launch : PlannedLaunch) (batch : Batch) (kernel : Kernel) : Set Touch :=
  {touch | ∀ readOnly type argument,
    (Kernel.Parameter.pointer readOnly type touch.array, argument) ∈
        kernel.parameters.zip launch.arguments →
      ∃ element, touch.indices = [element] ∧ argument.HasElement batch element}

variable {launch : PlannedLaunch} {batch : Batch} {kernel : Kernel} {array : String}

theorem mem_allowed {element : Nat}
    (has : ∀ readOnly type argument, (Kernel.Parameter.pointer readOnly type array, argument) ∈
      kernel.parameters.zip launch.arguments → argument.HasElement batch element) :
    ⟨array, [element]⟩ ∈ launch.allowed batch kernel := by
  intro readOnly type argument passed
  exact ⟨element, rfl, has readOnly type argument passed⟩

/-- An array that is no parameter is the kernel's own. -/
theorem mem_allowed_of_own (own : ∀ readOnly type, .pointer readOnly type array ∉ kernel.parameters)
    (indices : List Nat) : ⟨array, indices⟩ ∈ launch.allowed batch kernel := by
  intro readOnly type argument passed
  exact absurd (List.of_mem_zip passed).1 (own readOnly type)

/-- No work item touches an element that an argument does not have. -/
def Inside (launch : PlannedLaunch) (batch : Batch) (kernel : Kernel) : Prop :=
  ∀ item : launch.Item,
    Kernel.blockTouched item.seat (launch.sizes kernel) kernel.body ⊆ launch.allowed batch kernel

end PlannedLaunch

end KernelTuner
