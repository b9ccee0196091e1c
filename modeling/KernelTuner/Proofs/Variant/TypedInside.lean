import KernelTuner.Proofs.Variant.ProductAccess
import KernelTuner.Proofs.Variant.TypedAccess
import KernelTuner.Proofs.Variant.TypedKernels
import KernelTuner.Proofs.Variant.WorkItems

/-!
Contract: launches of one type inside their buffers.

Owns: for every variant that is not element-wise, whether the launches of a plan stay inside
what they are passed. Matrix-vector and matrix products always do; an inner product does
exactly when its output has an element.
-/

set_option autoImplicit false

namespace KernelTuner

open Kernel

variable {batch : Batch}

/-! ### Inner products -/

namespace InnerProduct

variable {params : InnerProduct} {operands : Operands}

/-- The launch of the first pass for these operands. -/
def firstLaunch (params : InnerProduct) (index : Nat) (batch : Batch) (operands : Operands) :
    PlannedLaunch where
  kernel := firstEntry index
  globalSize := [params.localSize0 * params.groups0]
  localSize := [params.localSize0]
  arguments := [.size operands.x.length, .buffer operands.x.id, .buffer operands.y.id,
    .workspace 0 (params.partialsBytes batch.elementType)]

/-- The launch of the second pass. -/
def secondLaunch (params : InnerProduct) (index : Nat) (batch : Batch) (operands : Operands) :
    PlannedLaunch where
  kernel := secondEntry index
  globalSize := [params.localSize0]
  localSize := [params.localSize0]
  arguments := [.size params.groups0, .workspace 0 (params.partialsBytes batch.elementType),
    .buffer operands.out.id]

/-- The workspace has a partial sum for every work group. -/
theorem partials_hasElement {group : Nat}
    (room : params.partialsBytes batch.elementType = batch.elementType.bytes * params.groups0)
    (inside : group < params.groups0) :
    (Argument.workspace 0 (params.partialsBytes batch.elementType)).HasElement batch group := by
  rw [room]
  exact Nat.mul_le_mul_left _ inside

theorem firstPass_inside (index : Nat) (type : ElementType) (sized : 0 < params.localSize0)
    (room : params.partialsBytes batch.elementType = batch.elementType.bytes * params.groups0)
    (coherent : batch.Coherent) (checked : operands.Checked batch) :
    (params.firstLaunch index batch operands).Inside batch (params.firstPass index type) := by
  intro item
  have size : (params.firstLaunch index batch operands).sizes (params.firstPass index type) "N" =
      operands.x.extent.elements := checked.reachable.length_eq
  apply firstPass_subset
  · intro i below
    rw [size] at below
    apply PlannedLaunch.mem_allowed
    simpa [firstPass, firstLaunch, coherent.hasElement_iff checked.x] using below
  · intro i below
    rw [size, ← checked.sameElements] at below
    apply PlannedLaunch.mem_allowed
    simpa [firstPass, firstLaunch, coherent.hasElement_iff checked.y] using below
  · have group : item.seat .groupId 0 < params.localSize0 * params.groups0 / params.localSize0 :=
      item.group_lt 0
    rw [Nat.mul_div_cancel_left _ sized] at group
    have stands := partials_hasElement room group
    apply PlannedLaunch.mem_allowed
    simpa [firstPass, firstLaunch] using stands
  · apply PlannedLaunch.mem_allowed_of_own
    simp [firstPass]

theorem secondPass_inside (index : Nat) (type : ElementType)
    (room : params.partialsBytes batch.elementType = batch.elementType.bytes * params.groups0)
    (coherent : batch.Coherent) (checked : operands.Checked batch)
    (holds : 0 < operands.out.extent.elements) :
    (params.secondLaunch index batch operands).Inside batch (params.secondPass index type) := by
  intro item
  apply secondPass_subset
  · intro i below
    have group : i < params.groups0 := below
    have stands := partials_hasElement room group
    apply PlannedLaunch.mem_allowed
    simpa [secondPass, secondLaunch] using stands
  · apply PlannedLaunch.mem_allowed
    simpa [secondPass, secondLaunch, coherent.hasElement_iff checked.out] using holds
  · apply PlannedLaunch.mem_allowed_of_own
    simp [secondPass]

/-- The second pass needs an output that has an element. -/
theorem output_of_inside {index : Nat} {type : ElementType} (sized : 0 < params.localSize0)
    (coherent : batch.Coherent) (checked : operands.Checked batch)
    (inside : (params.secondLaunch index batch operands).Inside batch
      (params.secondPass index type)) :
    0 < operands.out.extent.elements := by
  have filled : ∃ item : (params.secondLaunch index batch operands).Item,
      item.seat .globalId 0 = 0 :=
    PlannedLaunch.exists_item_of_range sized (Nat.dvd_refl _) sized
  obtain ⟨item, stands⟩ := filled
  have first : item.seat .localId 0 = 0 := (Nat.add_eq_zero_iff.1 stands).2
  obtain ⟨element, same, has⟩ := inside item (secondPass_writes params index type first) false type
    (.buffer operands.out.id) (by simp [secondPass, secondLaunch])
  cases same
  exact (coherent.hasElement_iff checked.out 0).1 has

end InnerProduct

/-! ### Matrix-vector products -/

namespace MatrixVector

variable {params : MatrixVector} {operands : Operands}

/-- The matrix and the vectors are as large as the kernel takes them to be. -/
theorem opens_of_passed {launch : PlannedLaunch} {index : Nat} {type : ElementType}
    (coherent : batch.Coherent) (checked : operands.Checked params.axis batch)
    (passed : launch.arguments = [.size operands.matrix.rows, .size operands.matrix.columns,
      .buffer operands.matrix.id, .buffer operands.x.id, .buffer operands.out.id]) :
    params.Opens (launch.sizes (params.kernel index type))
      (launch.allowed batch (params.kernel index type)) := by
  have rows : launch.sizes (params.kernel index type) "M" = operands.matrix.rows := by
    simp [PlannedLaunch.sizes, kernel, passed]
  have columns : launch.sizes (params.kernel index type) "N" = operands.matrix.columns := by
    simp [PlannedLaunch.sizes, kernel, passed]
  constructor
  · intro row rowInside column columnInside
    rw [rows] at rowInside
    rw [columns] at columnInside ⊢
    have place := place_lt rowInside columnInside
    apply PlannedLaunch.mem_allowed
    simpa [kernel, passed, coherent.hasElement_iff checked.matrix, checked.elements] using place
  · intro c below
    apply PlannedLaunch.mem_allowed
    suffices c < (extents params.axis operands.matrix.rows operands.matrix.columns).2 by
      simpa [kernel, passed, coherent.hasElement_iff checked.x, checked.inputs] using this
    cases axis : params.axis with
    | rows => simpa [axis, innerName, columns, extents] using below
    | columns => simpa [axis, innerName, rows, extents] using below
  · intro r below
    apply PlannedLaunch.mem_allowed
    suffices r < (extents params.axis operands.matrix.rows operands.matrix.columns).1 by
      simpa [kernel, passed, coherent.hasElement_iff checked.out, checked.outputs] using this
    cases axis : params.axis with
    | rows => simpa [axis, outerName, rows, extents] using below
    | columns => simpa [axis, outerName, columns, extents] using below
  · apply PlannedLaunch.mem_allowed_of_own
    simp [kernel]
  · apply PlannedLaunch.mem_allowed_of_own
    simp [kernel]

theorem kernel_inside {launch : PlannedLaunch} (index : Nat) (type : ElementType)
    (coherent : batch.Coherent) (checked : operands.Checked params.axis batch)
    (passed : launch.arguments = [.size operands.matrix.rows, .size operands.matrix.columns,
      .buffer operands.matrix.id, .buffer operands.x.id, .buffer operands.out.id]) :
    launch.Inside batch (params.kernel index type) := by
  intro item
  exact kernel_subset index type (opens_of_passed coherent checked passed)

end MatrixVector

/-! ### Matrix products -/

namespace MatrixProduct

variable {params : MatrixProduct} {operands : Operands}

/-- The three matrices are as large as the kernel takes them to be. -/
theorem opens_of_passed {launch : PlannedLaunch} {name : String} {guarded : Bool}
    {type : ElementType} (coherent : batch.Coherent) (checked : operands.Checked batch)
    (passed : launch.arguments = [.size operands.m, .size operands.n, .size operands.k,
      .buffer operands.c.id, .buffer operands.a.id, .buffer operands.b.id]) :
    params.Opens (launch.sizes (params.kernel name guarded type))
      (launch.allowed batch (params.kernel name guarded type)) := by
  have m : launch.sizes (params.kernel name guarded type) "M" = operands.m := by
    simp [PlannedLaunch.sizes, kernel, passed]
  have n : launch.sizes (params.kernel name guarded type) "N" = operands.n := by
    simp [PlannedLaunch.sizes, kernel, passed]
  have k : launch.sizes (params.kernel name guarded type) "K" = operands.k := by
    simp [PlannedLaunch.sizes, kernel, passed]
  constructor
  · intro row rowInside column columnInside
    rw [m] at rowInside
    rw [n] at columnInside ⊢
    have place := place_lt rowInside columnInside
    apply PlannedLaunch.mem_allowed
    simpa [kernel, passed, coherent.hasElement_iff checked.c, checked.elementsC] using place
  · intro row rowInside step stepInside
    rw [m] at rowInside ⊢
    rw [k] at stepInside ⊢
    have place : params.offsetA operands.m operands.k row step < operands.m * operands.k :=
      offsetA_lt rowInside stepInside
    apply PlannedLaunch.mem_allowed
    simpa [kernel, passed, coherent.hasElement_iff checked.a, checked.elementsA] using place
  · intro step stepInside column columnInside
    rw [n] at columnInside ⊢
    rw [k] at stepInside ⊢
    have place : params.offsetB operands.n operands.k step column < operands.k * operands.n :=
      offsetB_lt stepInside columnInside
    apply PlannedLaunch.mem_allowed
    simpa [kernel, passed, coherent.hasElement_iff checked.b, checked.elementsB] using place
  · apply PlannedLaunch.mem_allowed_of_own
    simp [kernel]
  · apply PlannedLaunch.mem_allowed_of_own
    simp [kernel]
  · apply PlannedLaunch.mem_allowed_of_own
    simp [kernel]

/-- A work group that a size has room for ends within that size. -/
theorem group_le {group size perItem localSize : Nat} (room : group < size / perItem / localSize) :
    group * (localSize * perItem) + localSize * perItem ≤ size := by
  rw [Nat.div_div_eq_div_mul, Nat.mul_comm perItem] at room
  have covered := Nat.mul_le_of_le_div _ _ _ room
  rwa [Nat.succ_mul] at covered

theorem kernel_inside {rows columns : Nat} (name : String) (guarded : Bool) (type : ElementType)
    (coherent : batch.Coherent) (checked : operands.Checked batch)
    (tiled : guarded = false → rows = operands.m ∧ columns = operands.n ∧
      params.tileK ∣ operands.k) :
    (PlannedLaunch.mk name [rows / params.perItemM, columns / params.perItemN]
      [params.localSize0, params.localSize1]
      [.size operands.m, .size operands.n, .size operands.k, .buffer operands.c.id,
        .buffer operands.a.id, .buffer operands.b.id]).Inside batch
      (params.kernel name guarded type) := by
  intro item
  apply kernel_subset name type (opens_of_passed coherent checked rfl)
  · exact item.place_lt 0
  · exact item.place_lt 1
  · intro unguarded
    obtain ⟨rfl, _, _⟩ := tiled unguarded
    exact group_le (item.group_lt 0)
  · intro unguarded
    obtain ⟨_, rfl, _⟩ := tiled unguarded
    exact group_le (item.group_lt 1)
  · intro unguarded
    exact (tiled unguarded).2.2

end MatrixProduct

end KernelTuner
