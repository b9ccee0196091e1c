import KernelTuner.Proofs.Variant.SharedKernels
import KernelTuner.Proofs.Variant.UpdateAccess
import KernelTuner.Proofs.Variant.WorkItems

/-!
Contract: element-wise launches inside their buffers.

Owns: which buffer is passed for a leaf; and, for both element-wise variants, that a launch
stays inside its buffers exactly when every leaf that is not a single value has the elements
that are updated.
-/

set_option autoImplicit false

namespace KernelTuner

open Kernel (Parameter)

/-! ### Parameters of leaves -/

namespace Bindings

theorem name_injective {left right : Nat} (same : name left = name right) : left = right := by
  have digits := congrArg String.toList same
  apply Token.toDigits_injective
  simpa [name] using digits

variable {bindings : Bindings} {handle : Buffer} {array : String}

theorem position_of_nameOf (named : bindings.nameOf handle = .ok array) :
    ∃ position other, bindings.parameters[position]? = some (.buffer other) ∧
      other.id = handle.id ∧ array = name position := by
  unfold nameOf at named
  split at named
  · next position found =>
      cases named
      obtain ⟨inside, isBuffer, _⟩ := List.findIdx?_eq_some_iff_getElem.1 found
      cases parameter : bindings.parameters[position] with
      | buffer other =>
          rw [parameter] at isBuffer
          exact ⟨position, other, List.getElem?_eq_some_iff.2 ⟨inside, parameter⟩,
            of_decide_eq_true isBuffer, rfl⟩
      | scalar elementType value =>
          rw [parameter] at isBuffer
          cases isBuffer
  · simp at named

/-- What is passed for a parameter is the leaf at its position. -/
theorem passed_iff {parameter : Parameter} {argument : Argument} :
    (parameter, argument) ∈ bindings.declarations.zip bindings.arguments ↔
      ∃ position : Nat, bindings.declarations[position]? = some parameter ∧
        bindings.parameters[position]?.map Leaf.argument = some argument := by
  rw [List.mem_iff_getElem?]
  apply exists_congr
  intro position
  rw [List.getElem?_zip_eq_some, arguments_eq, List.getElem?_map]

theorem declaration_of_buffer {position : Nat} {other : Buffer}
    (found : bindings.parameters[position]? = some (.buffer other)) :
    bindings.declarations[position]? = some (.pointer false other.elementType (name position)) := by
  simp [declarations, List.getElem?_zipIdx, found]

theorem name_of_declaration {position : Nat} {readOnly : Bool} {type : ElementType}
    (declared : bindings.declarations[position]? = some (.pointer readOnly type array)) :
    array = name position := by
  simp only [declarations, List.getElem?_map, List.getElem?_zipIdx] at declared
  cases found : bindings.parameters[position]? with
  | none => simp [found] at declared
  | some leaf =>
      cases leaf with
      | buffer other =>
          simp [found] at declared
          exact declared.2.2.symm
      | scalar elementType value => simp [found] at declared

/-- The buffer of a leaf is passed for the parameter by which the leaf is named. -/
theorem exists_passed (named : bindings.nameOf handle = .ok array) :
    ∃ readOnly type, (Parameter.pointer readOnly type array, Argument.buffer handle.id) ∈
      bindings.declarations.zip bindings.arguments := by
  obtain ⟨position, other, found, sameId, rfl⟩ := position_of_nameOf named
  refine ⟨false, other.elementType, passed_iff.2 ⟨position, declaration_of_buffer found, ?_⟩⟩
  rw [found, ← sameId]
  rfl

/-- Nothing else is passed for it. -/
theorem passed_eq (named : bindings.nameOf handle = .ok array) {readOnly : Bool}
    {type : ElementType} {argument : Argument}
    (passed : (Parameter.pointer readOnly type array, argument) ∈
      bindings.declarations.zip bindings.arguments) : argument = .buffer handle.id := by
  obtain ⟨position, other, found, sameId, rfl⟩ := position_of_nameOf named
  obtain ⟨place, declared, stands⟩ := passed_iff.1 passed
  cases name_injective (name_of_declaration declared)
  rw [found] at stands
  cases stands
  exact congrArg Argument.buffer sameId

end Bindings

/-! ### Launches -/

/-- Every leaf that is not a single value has `count` elements. -/
def Batch.Spans (batch : Batch) (count : Nat) : Prop :=
  ∀ handle, .buffer handle ∈ batch.leaves → handle.rank ≠ 0 → count ≤ handle.extent.elements

section Launches

variable {batch : Batch} {launch : PlannedLaunch} {kernel : Kernel} {count : Nat}

/-- The launch passes buffers to the kernel only for the leaves of the batch. -/
def PlannedLaunch.PassesLeaves (launch : PlannedLaunch) (batch : Batch) (kernel : Kernel) : Prop :=
  ∀ readOnly type array argument,
    (Parameter.pointer readOnly type array, argument) ∈ kernel.parameters.zip launch.arguments ↔
      (Parameter.pointer readOnly type array, argument) ∈
        (Bindings.collect batch).declarations.zip (Bindings.collect batch).arguments

theorem PlannedLaunch.inside_of_spans (passes : launch.PassesLeaves batch kernel)
    (coherent : batch.Coherent)
    (reach : ∀ item : launch.Item, Kernel.blockTouched item.seat (launch.sizes kernel) kernel.body ⊆
      {touch | batch.Addresses count touch})
    (spans : batch.Spans count) : launch.Inside batch kernel := by
  intro item touch touched readOnly type argument passed
  obtain ⟨handle, element, leaf, named, indices, below⟩ := reach item touched
  rw [Bindings.passed_eq named ((passes _ _ _ _).1 passed)]
  refine ⟨element, indices, (coherent.hasElement_iff (Batch.holds_of_leaf leaf) element).2 ?_⟩
  by_cases single : handle.rank = 0
  · rw [if_pos single] at below
    rwa [Buffer.elements_of_single single]
  · rw [if_neg single] at below
    exact Nat.lt_of_lt_of_le below (spans handle leaf single)

theorem PlannedLaunch.spans_of_inside (passes : launch.PassesLeaves batch kernel)
    (covers : ∀ handle name, .buffer handle ∈ batch.leaves →
      (Bindings.collect batch).nameOf handle = .ok name → handle.rank ≠ 0 → ∀ element < count,
        ∃ item : launch.Item,
          ⟨name, [element]⟩ ∈ Kernel.blockTouched item.seat (launch.sizes kernel) kernel.body)
    (inside : launch.Inside batch kernel) : batch.Spans count := by
  intro handle leaf several
  by_contra short
  have occurs : Occurrence.buffer handle.id ∈ occurrencesFrom 0 batch.leaves :=
    buffer_mem_occurrencesFrom.2 ⟨handle, leaf, rfl⟩
  have named := Bindings.nameOf_collected occurs
  obtain ⟨item, touched⟩ :=
    covers handle _ leaf named several handle.extent.elements (Nat.lt_of_not_le short)
  obtain ⟨readOnly, type, passed⟩ := Bindings.exists_passed named
  obtain ⟨element, same, has⟩ := inside item touched _ _ _ ((passes _ _ _ _).2 passed)
  cases same
  exact Nat.lt_irrefl _ (has handle (Batch.holds_of_leaf leaf) rfl)

end Launches

namespace VectorUpdate

variable {params : VectorUpdate} {index : Nat} {batch : Batch} {emission : Emission}

/-- A launch over `length` elements stays inside the leaves exactly when they have as many. -/
theorem launch_inside_iff (sized : 0 < params.localSize0) (grouped : 0 < params.groups0)
    (coherent : batch.Coherent) (emits : params.emit index batch = .ok emission) {kernel : Kernel}
    (member : kernel ∈ emission.primary) (length : Nat) :
    (PlannedLaunch.mk (entry index) [params.localSize0 * params.groups0] [params.localSize0]
      (.size length :: (Bindings.collect batch).arguments)).Inside batch kernel ↔
      batch.Spans length := by
  let launch : PlannedLaunch := ⟨entry index, [params.localSize0 * params.groups0],
    [params.localSize0], .size length :: (Bindings.collect batch).arguments⟩
  obtain ⟨only, _, primary, parameters, _⟩ := kernel_of_emit emits
  have same : kernel = only := List.mem_singleton.1 (primary ▸ member)
  rw [← same] at parameters
  have passes : launch.PassesLeaves batch kernel := by
    intro readOnly type array argument
    simp [launch, parameters]
  have size : launch.sizes kernel "N" = length := by
    simp [PlannedLaunch.sizes, launch, parameters]
  constructor
  · apply PlannedLaunch.spans_of_inside passes
    intro handle name leaf named several element below
    rw [← size] at below
    obtain ⟨position, inside, touches⟩ := kernel_covers emits member leaf named several
      (Nat.mul_pos sized grouped) below
    have filled : ∃ item : launch.Item, item.seat .globalId 0 = position :=
      PlannedLaunch.exists_item_of_range sized (Nat.dvd_mul_right _ _) inside
    obtain ⟨item, stands⟩ := filled
    exact ⟨item, touches item.seat stands rfl⟩
  · apply PlannedLaunch.inside_of_spans passes coherent
    intro item
    rw [← size]
    exact kernel_subset emits member

end VectorUpdate

namespace MatrixUpdate

variable {params : MatrixUpdate} {index : Nat} {batch : Batch} {emission : Emission}

/-- A launch over `rows` times `columns` elements stays inside the leaves exactly when they
have as many. -/
theorem launch_inside_iff (sized : 0 < params.localSize0 ∧ 0 < params.localSize1)
    (grouped : 0 < params.groups0 ∧ 0 < params.groups1)
    (coherent : batch.Coherent) (emits : params.emit index batch = .ok emission) {kernel : Kernel}
    (member : kernel ∈ emission.primary) (rows columns : Nat) :
    (PlannedLaunch.mk (entry index)
      [params.localSize0 * params.groups0, params.localSize1 * params.groups1]
      [params.localSize0, params.localSize1]
      (.size rows :: .size columns :: (Bindings.collect batch).arguments)).Inside batch kernel ↔
      batch.Spans (rows * columns) := by
  let launch : PlannedLaunch := ⟨entry index,
    [params.localSize0 * params.groups0, params.localSize1 * params.groups1],
    [params.localSize0, params.localSize1],
    .size rows :: .size columns :: (Bindings.collect batch).arguments⟩
  obtain ⟨only, _, _, primary, parameters, _⟩ := kernel_of_emit emits
  have same : kernel = only := List.mem_singleton.1 (primary ▸ member)
  rw [← same] at parameters
  have passes : launch.PassesLeaves batch kernel := by
    intro readOnly type array argument
    simp [launch, parameters]
  have rowCount : launch.sizes kernel "M" = rows := by
    simp [PlannedLaunch.sizes, launch, parameters]
  have columnCount : launch.sizes kernel "N" = columns := by
    simp [PlannedLaunch.sizes, launch, parameters]
  constructor
  · apply PlannedLaunch.spans_of_inside passes
    intro handle name leaf named several element below
    have someColumns : 0 < columns := Nat.pos_of_mul_pos_left (Nat.zero_lt_of_lt below)
    have rowInside : element / columns < launch.sizes kernel "M" := by
      rw [rowCount]
      exact (Nat.div_lt_iff_lt_mul someColumns).2 below
    have columnInside : element % columns < launch.sizes kernel "N" := by
      rw [columnCount]
      exact Nat.mod_lt _ someColumns
    obtain ⟨rowPosition, rowWithin, columnPosition, columnWithin, touches⟩ :=
      kernel_covers emits member leaf named several (Nat.mul_pos sized.1 grouped.1)
        (Nat.mul_pos sized.2 grouped.2) rowInside columnInside
    rw [columnCount, Nat.div_add_mod'] at touches
    have fills : launch.Fills :=
      Variant.fills_two sized (Nat.dvd_mul_right _ _) (Nat.dvd_mul_right _ _)
    have within (dimension : Nat) :
        [rowPosition, columnPosition].getD dimension 0 < launch.itemsAlong dimension := by
      match dimension with
      | 0 => exact rowWithin
      | 1 => exact columnWithin
      | dimension + 2 => exact Nat.one_pos
    obtain ⟨item, stands⟩ := fills.exists_item within
    exact ⟨item, touches item.seat (stands 0) rfl (stands 1) rfl⟩
  · apply PlannedLaunch.inside_of_spans passes coherent
    intro item
    rw [← rowCount, ← columnCount]
    exact kernel_subset emits member

end MatrixUpdate

end KernelTuner
