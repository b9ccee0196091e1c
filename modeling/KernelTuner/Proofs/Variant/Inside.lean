import KernelTuner.Proofs.Variant.TypedInside
import KernelTuner.Proofs.Variant.UpdateInside

/-!
Contract: launches of accepted variants inside their buffers.

Owns: how many elements the kernels of a variant address in each buffer; which of these
numbers no check of the variant has looked at; and `plan_inside_iff`, by which the launches
of a plan stay inside their buffers exactly when these have as many elements.
-/

set_option autoImplicit false

namespace KernelTuner

/-! ### Targets of updates -/

/-- The leaves of a batch that are read: all but the target of each expression. -/
def Batch.readLeaves (batch : Batch) : List Leaf :=
  batch.trees.flatMap fun tree => tree.leaves.tail

/-- Every leaf that is read, other than single values, has `count` elements. -/
def Batch.ReadsSpan (batch : Batch) (count : Nat) : Prop :=
  ∀ handle, .buffer handle ∈ batch.readLeaves → handle.rank ≠ 0 → count ≤ handle.extent.elements

theorem Tree.leaves_of_target {operator : Operator} {lhs rhs : Tree} {target : Buffer}
    (isBuffer : lhs = .buffer target) :
    ∃ rest, (Tree.node operator lhs rhs).leaves = .buffer target :: rest := by
  subst isBuffer
  exact ⟨_, rfl⟩

theorem Expression.leaves_of_assigned {expression : Expression} {target : Buffer}
    (assigned : expression.assigned? = some target) :
    ∃ rest, expression.tree.leaves = .buffer target :: rest := by
  unfold assigned? at assigned
  split at assigned
  · next isAssign isBuffer =>
      cases assigned
      rw [tree_eq]
      exact Tree.leaves_of_target (operandTree_buffer isBuffer)
  · simp at assigned

/-- Where the targets have `count` elements, the other leaves decide. -/
theorem Batch.spans_iff_readsSpan {batch : Batch} {count : Nat}
    (targets : ∀ expression ∈ batch.expressions, ∃ target,
      expression.assigned? = some target ∧ target.extent.elements = count) :
    batch.Spans count ↔ batch.ReadsSpan count := by
  have flattened : batch.leaves = batch.trees.flatMap Tree.leaves := (List.flatMap_map ..).symm
  constructor
  · intro spans handle read
    apply spans handle
    obtain ⟨tree, member, tail⟩ := List.mem_flatMap.1 read
    rw [flattened]
    exact List.mem_flatMap.2 ⟨tree, member, List.mem_of_mem_tail tail⟩
  · intro reads handle leaf several
    rw [flattened] at leaf
    obtain ⟨tree, member, leaf⟩ := List.mem_flatMap.1 leaf
    obtain ⟨expression, listed, rfl⟩ := List.mem_map.1 member
    obtain ⟨target, assigned, elements⟩ := targets expression listed
    obtain ⟨rest, leaves⟩ := Expression.leaves_of_assigned assigned
    rw [leaves] at leaf
    rcases List.mem_cons.1 leaf with first | later
    · cases first
      exact Nat.le_of_eq elements.symm
    · apply reads handle _ several
      exact List.mem_flatMap.2 ⟨expression.tree, member, by rwa [leaves]⟩

/-! ### Capacities -/

namespace Variant

/-- Every buffer holds as many elements as the kernels of the variant address in it at the
sizes that are launched. -/
def Spacious : Variant → Batch → Prop
  | vectorUpdate _, batch => ∀ length, VectorUpdate.length batch = .ok length →
      batch.Spans length
  | matrixUpdate _, batch => ∀ rows columns, MatrixUpdate.dims batch = .ok (rows, columns) →
      batch.Spans (rows * columns)
  | innerProduct _, batch => ∀ operands, InnerProduct.operands batch = .ok operands →
      operands.x.length ≤ operands.x.extent.elements ∧
        operands.x.length ≤ operands.y.extent.elements ∧ 0 < operands.out.extent.elements
  | matrixVector params, batch => ∀ operands, MatrixVector.operands params.axis batch = .ok operands →
      operands.matrix.rows * operands.matrix.columns ≤ operands.matrix.extent.elements ∧
        (MatrixVector.extents params.axis operands.matrix.rows operands.matrix.columns).2 ≤
          operands.x.extent.elements ∧
        (MatrixVector.extents params.axis operands.matrix.rows operands.matrix.columns).1 ≤
          operands.out.extent.elements
  | matrixProduct params, batch => ∀ operands, params.operands batch = .ok operands →
      operands.m * operands.n ≤ operands.c.extent.elements ∧
        operands.m * operands.k ≤ operands.a.extent.elements ∧
        operands.k * operands.n ≤ operands.b.extent.elements

/-- What of this no check of the variant looks at: the buffers that an update reads, and the
output of an inner product. -/
def Unchecked : Variant → Batch → Prop
  | vectorUpdate _, batch => ∀ length, VectorUpdate.length batch = .ok length →
      batch.ReadsSpan length
  | matrixUpdate _, batch => ∀ rows columns, MatrixUpdate.dims batch = .ok (rows, columns) →
      batch.ReadsSpan (rows * columns)
  | innerProduct _, batch => ∀ operands, InnerProduct.operands batch = .ok operands →
      0 < operands.out.extent.elements
  | _, _ => True

/-- The checks of a variant ensure all capacities but those that they do not look at. -/
theorem spacious_iff_unchecked {variant : Variant} {batch : Batch} :
    variant.Spacious batch ↔ variant.Unchecked batch := by
  cases variant with
  | vectorUpdate params =>
      apply forall₂_congr
      intro length measured
      exact Batch.spans_iff_readsSpan (VectorUpdate.targets_of_length measured)
  | matrixUpdate params =>
      apply forall₃_congr
      intro rows columns measured
      exact Batch.spans_iff_readsSpan (MatrixUpdate.targets_of_dims measured)
  | innerProduct params =>
      apply forall₂_congr
      intro operands found
      have checked := InnerProduct.checked_of_operands found
      have length := checked.reachable.length_eq
      rw [checked.sameElements, length]
      simp
  | matrixVector params =>
      refine iff_true_intro fun operands found => ?_
      have checked := MatrixVector.checked_of_operands found
      exact ⟨Nat.le_of_eq checked.elements.symm, Nat.le_of_eq checked.inputs.symm,
        Nat.le_of_eq checked.outputs.symm⟩
  | matrixProduct params =>
      refine iff_true_intro fun operands found => ?_
      have checked := MatrixProduct.checked_of_operands found
      exact ⟨Nat.le_of_eq checked.elementsC.symm, Nat.le_of_eq checked.elementsA.symm,
        Nat.le_of_eq checked.elementsB.symm⟩

/-! ### Plans -/

variable {variant : Variant} {index : Nat} {emitted launched : Batch} {name : Fingerprint}
  {emission : Emission} {plan : LaunchPlan}

/-- Every launch of the plan stays inside what it is passed, in its kernel. -/
def InsideKernels (batch : Batch) (plan : LaunchPlan) (emission : Emission) : Prop :=
  List.Forall₂ (fun launch kernel => launch.Inside batch kernel) plan.launches
    (emission.kernels plan.slot)

theorem inside_iff_of_update (elementWise : variant.IsElementWise) (sized : variant.Sized)
    (grouped : variant.Grouped) (coherent : launched.Coherent)
    (emits : variant.emit index launched = .ok emission)
    (planned : variant.plan index launched = .ok plan) :
    InsideKernels launched plan emission ↔ variant.Spacious launched := by
  cases variant with
  | vectorUpdate params =>
      obtain ⟨length, measured, planned⟩ := bind_eq_ok_iff.1 planned
      cases planned
      obtain ⟨kernel, _, primary, _⟩ := VectorUpdate.kernel_of_emit emits
      have member : kernel ∈ emission.primary := primary ▸ List.mem_singleton.2 rfl
      have spacious : (Variant.vectorUpdate params).Spacious launched ↔ launched.Spans length := by
        simp [Spacious, measured]
      have kernels : emission.kernels .primary = [kernel] := primary
      rw [spacious, ← VectorUpdate.launch_inside_iff sized grouped coherent emits member,
        InsideKernels, kernels, List.forall₂_cons, and_iff_left .nil]
  | matrixUpdate params =>
      obtain ⟨⟨rows, columns⟩, measured, planned⟩ := bind_eq_ok_iff.1 planned
      cases planned
      obtain ⟨kernel, _, _, primary, _⟩ := MatrixUpdate.kernel_of_emit emits
      have member : kernel ∈ emission.primary := primary ▸ List.mem_singleton.2 rfl
      have spacious : (Variant.matrixUpdate params).Spacious launched ↔
          launched.Spans (rows * columns) := by
        simp [Spacious, measured]
      have kernels : emission.kernels .primary = [kernel] := primary
      rw [spacious, ← MatrixUpdate.launch_inside_iff sized grouped coherent emits member,
        InsideKernels, kernels, List.forall₂_cons, and_iff_left .nil]
  | innerProduct params => exact elementWise.elim
  | matrixVector params => exact elementWise.elim
  | matrixProduct params => exact elementWise.elim

theorem inside_iff_of_typed (typed : ¬ variant.IsElementWise) (sized : variant.Sized)
    (grouped : variant.Grouped) (coherent : launched.Coherent) (type : ElementType)
    (planned : variant.plan index launched = .ok plan) :
    InsideKernels launched plan (variant.typedEmission index type) ↔
      variant.Spacious launched := by
  rw [spacious_iff_unchecked]
  cases variant with
  | vectorUpdate params => exact absurd trivial typed
  | matrixUpdate params => exact absurd trivial typed
  | innerProduct params =>
      obtain ⟨operands, found, planned⟩ := bind_eq_ok_iff.1 planned
      cases planned
      have checked := InnerProduct.checked_of_operands found
      have unchecked : (Variant.innerProduct params).Unchecked launched ↔
          0 < operands.out.extent.elements := by
        simp [Unchecked, found]
      have room := partialsBytes_eq grouped.2 launched.elementType
      rw [unchecked]
      constructor
      · intro inside
        have second := (List.forall₂_cons.1 (List.forall₂_cons.1 inside).2).1
        exact InnerProduct.output_of_inside sized coherent checked second
      · intro holds
        exact .cons (InnerProduct.firstPass_inside index type sized room coherent checked)
          (.cons (InnerProduct.secondPass_inside index type room coherent checked holds) .nil)
  | matrixVector params =>
      obtain ⟨operands, found, planned⟩ := bind_eq_ok_iff.1 planned
      cases planned
      have checked := MatrixVector.checked_of_operands found
      refine iff_of_true (.cons ?_ .nil) trivial
      exact MatrixVector.kernel_inside index type coherent checked rfl
  | matrixProduct params =>
      obtain ⟨operands, found, planned⟩ := bind_eq_ok_iff.1 planned
      obtain ⟨⟨slot, entry, rows, columns⟩, path, planned⟩ := bind_eq_ok_iff.1 planned
      cases planned
      have checked := MatrixProduct.checked_of_operands found
      refine iff_of_true ?_ trivial
      rcases MatrixProduct.path_cases path with ⟨rfl, rfl, rfl, rfl, _, _, tiled⟩ | ⟨rfl, rfl⟩
      · exact .cons (MatrixProduct.kernel_inside _ false type coherent checked
          fun _ => ⟨rfl, rfl, tiled⟩) .nil
      · exact .cons (MatrixProduct.kernel_inside _ true type coherent checked nofun) .nil

/-- The launches of an accepted variant stay inside their buffers, in kernels that were
emitted from any batch of the same name, exactly when every buffer holds what the kernels
address in it at the launched sizes. The checks of the variant ensure this for the targets of
updates, the operands of inner products and all matrices and vectors of the products. What
they leave open is the buffers that an update reads, and the output of an inner product. -/
theorem plan_inside_iff {operation : Operation} {profile : List Int}
    (accepted : Variant.ofProfile operation profile = .ok variant) (coherent : launched.Coherent)
    (emittedName : emitted.programName = .ok name) (launchedName : launched.programName = .ok name)
    (emits : variant.emit index emitted = .ok emission)
    (planned : variant.plan index launched = .ok plan) :
    List.Forall₂ PlannedLaunch.FitsKernel plan.launches (emission.kernels plan.slot) ∧
      (InsideKernels launched plan emission ↔ variant.Spacious launched) ∧
      (variant.Spacious launched ↔ variant.Unchecked launched) := by
  have sized := ofProfile_sized accepted
  have grouped := ofProfile_grouped accepted
  have fits := (plan_passes sized grouped emittedName launchedName emits planned).imp
    fun _ _ passes => passes.toFitsKernel
  refine ⟨fits, ?_, spacious_iff_unchecked⟩
  by_cases elementWise : variant.IsElementWise
  · obtain ⟨shape, accepts⟩ := sizes_of_plan elementWise planned
    have own := emit_of_name elementWise emittedName launchedName emits accepts
    exact inside_iff_of_update elementWise sized grouped coherent own planned
  · rw [emit_typed elementWise emits]
    exact inside_iff_of_typed elementWise sized grouped coherent emitted.elementType planned

/-! ### Updates that read another length -/

end Variant

namespace Batch

theorem stretching_allowed (length : UInt64) :
    (Node.mk (.buffer ⟨⟨1⟩, .f32, .vector length, ⟨1⟩⟩) .scale (.scalar .f32 2)).Admissible
      ⟨1⟩ 0 := ⟨rfl, trivial⟩

/-- A vector of eight elements is assigned twice a vector of `length` elements. -/
def stretching (length : UInt64) : Batch :=
  .single (.assignment .f32 ⟨⟨0⟩, .f32, .vector 8, ⟨1⟩⟩ .scale
    (.buffer ⟨⟨1⟩, .f32, .vector length, ⟨1⟩⟩) (.scalar .f32 2) (stretching_allowed length))

variable {length : UInt64}

theorem stretching_tree : (stretching length).first.tree =
    .node .assign (.buffer ⟨⟨0⟩, .f32, .vector 8, ⟨1⟩⟩)
      (.node .scale (.buffer ⟨⟨1⟩, .f32, .vector length, ⟨1⟩⟩) (.scalar .f32 2)) :=
  Expression.assignment_tree (stretching_allowed length)

theorem stretching_programName : (stretching length).programName = .ok ⟨"sasvf0scvf1hf"⟩ := by
  have symbols : (stretching length).symbols = (stretching length).first.tree.symbols ++ [] := rfl
  have tokens : (stretching length).tokens =
      [.operator .assign, .buffer .vector .f32 0, .operator .scale, .buffer .vector .f32 1,
        .scalar .f32] := by
    simp only [Batch.tokens, ids, symbols, stretching_tree]
    rfl
  rw [programName_eq, tokens]
  rfl

theorem stretching_coherent : (stretching length).Coherent := by
  refine coherent_of_assignment ?_
  simp only [Operand.buffer.injEq, reduceCtorEq, or_false]
  rintro _ _ (rfl | rfl) (rfl | rfl) same
  all_goals first | rfl | cases same

end Batch

namespace Variant

variable (length : UInt64)

theorem stretching_length : VectorUpdate.length (.stretching length) = .ok 8 := by
  have assigned : (Batch.stretching length).first.assigned? =
      some ⟨⟨0⟩, .f32, .vector 8, ⟨1⟩⟩ := rfl
  have product : checkedProduct "buffer dims" [8] = .ok 8 := by
    simp [checkedProduct, Size.kernelLimit]
  have checked : VectorUpdate.targetLength (Batch.stretching length).first = .ok 8 := by
    rw [VectorUpdate.targetLength, assigned]
    exact bind_eq_ok_iff.2 ⟨(), bind_eq_ok_iff.2 ⟨8, product, rfl⟩, rfl⟩
  exact bind_eq_ok_iff.2 ⟨8, checked, bind_eq_ok_iff.2 ⟨(), rfl, rfl⟩⟩

theorem stretching_plan : ∃ plan, streaming.plan 0 (.stretching length) = .ok plan :=
  ⟨_, bind_eq_ok_iff.2 ⟨8, stretching_length length, rfl⟩⟩

/-- The kernel is that of an update whose vectors have one length. -/
theorem stretching_emits :
    ∃ emission, streaming.emit 0 (.scaling ⟨0⟩ ⟨1⟩ 8 2) = .ok emission ∧
      streaming.emit 0 (.stretching length) = .ok emission := by
  have name : (Batch.scaling ⟨0⟩ ⟨1⟩ 8 2).programName = .ok ⟨"sasvf0scvf1hf"⟩ :=
    Batch.scaling_programName (by decide)
  have emitted : ∃ emission, streaming.emit 0 (.scaling ⟨0⟩ ⟨1⟩ 8 2) = .ok emission :=
    scaling_emits (by decide)
  obtain ⟨emission, emits⟩ := emitted
  have elementWise : streaming.IsElementWise := trivial
  have accepts : streaming.sizes (.stretching length) = .ok ⟨[8]⟩ :=
    bind_eq_ok_iff.2 ⟨8, stretching_length length, rfl⟩
  exact ⟨emission, emits,
    emit_of_name elementWise name Batch.stretching_programName emits accepts⟩

/-- Only the length of the vector that is read is open. -/
theorem stretching_spacious_iff :
    streaming.Spacious (.stretching length) ↔ 8 ≤ length.toNat := by
  have read : (Batch.stretching length).readLeaves =
      [.buffer ⟨⟨1⟩, .f32, .vector length, ⟨1⟩⟩, .scalar .f32 2] := by
    have trees : (Batch.stretching length).trees = [(Batch.stretching length).first.tree] := rfl
    rw [Batch.readLeaves, trees, Batch.stretching_tree]
    rfl
  have elements : (Extent.vector length).elements = length.toNat := by
    simp [Extent.elements, Extent.dims]
  have several : Buffer.rank ⟨⟨1⟩, .f32, .vector length, ⟨1⟩⟩ ≠ 0 := by
    simp [Buffer.rank, Extent.rank, Extent.dims]
  rw [spacious_iff_unchecked]
  simp [streaming, Unchecked, stretching_length length, Batch.ReadsSpan, read, several, elements]

/-- An update that reads a longer vector stays inside it, in a kernel that was emitted for
another update. -/
theorem stretching_inside :
    Variant.ofProfile .vectorAxpy [1, 64, 128, 1] = .ok streaming ∧
      (Batch.stretching 16).Coherent ∧
      (Batch.scaling ⟨0⟩ ⟨1⟩ 8 2).programName = .ok ⟨"sasvf0scvf1hf"⟩ ∧
      (Batch.stretching 16).programName = .ok ⟨"sasvf0scvf1hf"⟩ ∧
      ∃ emission plan, streaming.emit 0 (.scaling ⟨0⟩ ⟨1⟩ 8 2) = .ok emission ∧
        streaming.plan 0 (.stretching 16) = .ok plan ∧
        InsideKernels (.stretching 16) plan emission := by
  have accepted : Variant.ofProfile .vectorAxpy [1, 64, 128, 1] = .ok streaming := rfl
  have coherent : (Batch.stretching 16).Coherent := Batch.stretching_coherent
  have emittedName : (Batch.scaling ⟨0⟩ ⟨1⟩ 8 2).programName = .ok ⟨"sasvf0scvf1hf"⟩ :=
    Batch.scaling_programName (by decide)
  have launchedName : (Batch.stretching 16).programName = .ok ⟨"sasvf0scvf1hf"⟩ :=
    Batch.stretching_programName
  obtain ⟨emission, emits, _⟩ := stretching_emits 16
  obtain ⟨plan, planned⟩ := stretching_plan 16
  obtain ⟨_, inside_iff, _⟩ :=
    plan_inside_iff accepted coherent emittedName launchedName emits planned
  have spacious : streaming.Spacious (.stretching 16) := (stretching_spacious_iff 16).2 (by decide)
  exact ⟨accepted, coherent, emittedName, launchedName, emission, plan, emits, planned,
    inside_iff.2 spacious⟩

/-- An update that reads a shorter vector is launched and addresses elements past its end. -/
theorem stretching_breaks_bounds :
    Variant.ofProfile .vectorAxpy [1, 64, 128, 1] = .ok streaming ∧
      (Batch.stretching 4).Coherent ∧
      ∃ emission plan, streaming.emit 0 (.stretching 4) = .ok emission ∧
        streaming.plan 0 (.stretching 4) = .ok plan ∧
        ¬ streaming.Spacious (.stretching 4) ∧ ¬ InsideKernels (.stretching 4) plan emission := by
  have accepted : Variant.ofProfile .vectorAxpy [1, 64, 128, 1] = .ok streaming := rfl
  have coherent : (Batch.stretching 4).Coherent := Batch.stretching_coherent
  obtain ⟨emission, _, emits⟩ := stretching_emits 4
  obtain ⟨plan, planned⟩ := stretching_plan 4
  have elementWise : streaming.IsElementWise := trivial
  have short : ¬ streaming.Spacious (.stretching 4) := by
    rw [stretching_spacious_iff]
    decide
  have inside_iff := inside_iff_of_update elementWise (ofProfile_sized accepted)
    (ofProfile_grouped accepted) coherent emits planned
  exact ⟨accepted, coherent, emission, plan, emits, planned, short, mt inside_iff.1 short⟩

end Variant

end KernelTuner
