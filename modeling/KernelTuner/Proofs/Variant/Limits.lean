import KernelTuner.Proofs.Expression.PrefixNotation
import KernelTuner.Proofs.Variant.Signatures

/-!
Contract: sizes within the kernel limit.

Owns: shapes and launches whose sizes a kernel can count; variants whose arithmetic stays
within the machine word; which of the sizes no check of a variant bounds; and
`countable_iff_fits`, by which these are the only ones that can be too large.

The checks of a batch bound products of dimensions. A dimension beyond the limit passes them
beside a dimension that is zero. Sizes that are rounded up to full tiles are not checked
again.
-/

set_option autoImplicit false

namespace KernelTuner

/-! ### Countable sizes -/

/-- Every size is a number that a kernel can count. -/
def Shape.Countable (shape : Shape) : Prop :=
  ∀ size ∈ shape.sizes, 0 ≤ size ∧ size ≤ Size.kernelLimit

/-- A size among the arguments is one that a kernel can count. -/
def Argument.Countable : Argument → Prop
  | .size value => value ≤ Size.kernelLimit
  | _ => True

@[simp] theorem Argument.countable_size {value : Nat} :
    (Argument.size value).Countable ↔ value ≤ Size.kernelLimit := Iff.rfl

@[simp] theorem Argument.countable_buffer (id : BufferId) : (Argument.buffer id).Countable :=
  trivial

@[simp] theorem Argument.countable_workspace (slot bytes : Nat) :
    (Argument.workspace slot bytes).Countable := trivial

/-- All sizes of the launch are such that a kernel can count them. -/
@[mk_iff] structure PlannedLaunch.Countable (launch : PlannedLaunch) : Prop where
  globalSize : ∀ size ∈ launch.globalSize, size ≤ Size.kernelLimit
  localSize : ∀ size ∈ launch.localSize, size ≤ Size.kernelLimit
  arguments : ∀ argument ∈ launch.arguments, argument.Countable

def LaunchPlan.Countable (plan : LaunchPlan) : Prop := ∀ launch ∈ plan.launches, launch.Countable

theorem Bindings.arguments_countable (batch : Batch) :
    ∀ argument ∈ (collect batch).arguments, argument.Countable := by
  refine List.forall_mem_map.2 fun leaf _ => ?_
  cases leaf with
  | buffer handle => trivial
  | scalar elementType value => trivial

namespace Size

/-- A size that is no kernel size is read as one that is too large, or as negative. -/
theorem signed_countable_iff {value : Nat} (isWord : value < wordCount) :
    (0 ≤ signed value ∧ signed value ≤ kernelLimit) ↔ value ≤ kernelLimit := by
  by_cases low : 2 * value < wordCount
  · rw [signed_eq_self low]
    omega
  · have negative : signed value < 0 := by
      unfold signed wordCount at *
      rw [Int.bmod_def, if_neg (by omega)]
      omega
    have large : kernelLimit < value := by
      unfold kernelLimit wordCount at *
      omega
    omega

/-- The work items for a size that is rounded up to full tiles can be counted, unless each of
them has a single element of the tile. -/
theorem items_le_iff {size localSize perItem : Nat} (localPositive : 0 < localSize)
    (perItemPositive : 0 < perItem) (small : size ≤ kernelLimit)
    (tileSmall : localSize * perItem ≤ kernelLimit) :
    roundUp size (localSize * perItem) / perItem ≤ kernelLimit ↔
      (perItem = 1 → roundUp size localSize ≤ kernelLimit) := by
  by_cases single : perItem = 1
  · subst single
    simp
  · have rounded : roundUp size (localSize * perItem) < size + localSize * perItem :=
      roundUp_lt size (Nat.mul_pos localPositive perItemPositive)
    have halved : roundUp size (localSize * perItem) / perItem ≤
        roundUp size (localSize * perItem) / 2 := Nat.div_le_div_left (by omega) (by decide)
    have fits : roundUp size (localSize * perItem) / perItem ≤ kernelLimit := by omega
    simp [single, fits]

theorem word_eq_self_iff {value : Nat} : word value = value ↔ value < wordCount :=
  Nat.mod_eq_iff_lt (by decide)

end Size

theorem checkedRoundUp_eq_iff {value multiple : Nat} (positive : 0 < multiple) :
    checkedRoundUp value multiple = .ok (Size.roundUp value multiple) ↔
      Size.roundUp value multiple < Size.wordCount := by
  rw [checkedRoundUp, if_neg (Nat.ne_of_gt positive), Except.ok.injEq, Size.word_eq_self_iff]

/-! ### Sizes of a batch -/

/-- No buffer of the batch is empty. -/
def Batch.Filled (batch : Batch) : Prop := ∀ handle, batch.Holds handle → 0 < handle.extent.elements

theorem Expression.holds_of_assigned {expression : Expression} {target : Buffer}
    (assigned : expression.assigned? = some target) : expression.Holds target := by
  unfold assigned? at assigned
  split at assigned
  · next isAssign isBuffer =>
      cases assigned
      exact holds_of_root_lhs isBuffer
  · simp at assigned

theorem VectorUpdate.length_le {batch : Batch} {length : Nat}
    (measured : VectorUpdate.length batch = .ok length) : length ≤ Size.kernelLimit := by
  obtain ⟨found, first, measured⟩ := bind_eq_ok_iff.1 measured
  obtain ⟨_, _, same⟩ := bind_eq_ok_iff.1 measured
  cases same
  obtain ⟨target, _, reachable, rfl⟩ := measured_of_targetLength first
  exact reachable.length_eq.trans_le reachable

/-- The sizes of an update are those of a matrix that it assigns. -/
theorem MatrixUpdate.measured_of_dims {batch : Batch} {rows columns : Nat}
    (measured : dims batch = .ok (rows, columns)) :
    ∃ target, batch.Holds target ∧ target.rank = 2 ∧ target.Reachable ∧ target.rows = rows ∧
      target.columns = columns := by
  obtain ⟨found, first, measured⟩ := bind_eq_ok_iff.1 measured
  obtain ⟨_, _, same⟩ := bind_eq_ok_iff.1 measured
  cases same
  obtain ⟨target, assigned, sizes⟩ := measured_of_targetDims first
  have holds := Expression.holds_of_assigned assigned
  exact ⟨target, ⟨batch.first, List.mem_cons_self, holds⟩, sizes⟩

/-- The vectors of a matrix-vector product bound both sizes of its matrix. -/
theorem MatrixVector.Operands.Checked.sizes_le {axis : Axis} {batch : Batch} {operands : Operands}
    (checked : operands.Checked axis batch) :
    operands.matrix.rows ≤ Size.kernelLimit ∧ operands.matrix.columns ≤ Size.kernelLimit := by
  have outputs := checked.outputs.symm.trans_le checked.reachableOut
  have inputs := checked.inputs.symm.trans_le checked.reachableX
  cases axis with
  | rows => exact ⟨outputs, inputs⟩
  | columns => exact ⟨inputs, outputs⟩

theorem factors_le {left right limit : Nat} (positive : 0 < left * right)
    (small : left * right ≤ limit) : left ≤ limit ∧ right ≤ limit :=
  ⟨(Nat.le_mul_of_pos_right left (Nat.pos_of_mul_pos_left positive)).trans small,
    (Nat.le_mul_of_pos_left right (Nat.pos_of_mul_pos_right positive)).trans small⟩

namespace MatrixProduct

variable {params : MatrixProduct} {index m n k rows columns : Nat} {slot : Slot} {entry : String}

/-- Sizes are rounded up as they are when the rounded sizes are machine words. -/
theorem roundings_iff (sized : params.Sized) :
    (checkedRoundUp m params.tileM = .ok (Size.roundUp m params.tileM) ∧
        checkedRoundUp n params.tileN = .ok (Size.roundUp n params.tileN)) ↔
      Size.roundUp m params.tileM < Size.wordCount ∧
        Size.roundUp n params.tileN < Size.wordCount :=
  and_congr (checkedRoundUp_eq_iff sized.tileM_pos) (checkedRoundUp_eq_iff sized.tileN_pos)

/-- The ranges of a launch come from the sizes themselves, or from the rounded sizes. -/
theorem ranges_of_path (sized : params.Sized) (rowsSmall : m ≤ Size.kernelLimit)
    (columnsSmall : n ≤ Size.kernelLimit)
    (path : params.path index m n k = .ok (slot, entry, rows, columns)) :
    (params.needsFallback m n k = .ok false ∧ rows = m ∧ columns = n) ∨
      params.needsFallback m n k = .ok true ∧ rows = Size.roundUp m params.tileM ∧
        columns = Size.roundUp n params.tileN := by
  obtain ⟨ragged, checked, path⟩ := bind_eq_ok_iff.1 path
  cases ragged with
  | false =>
      cases path
      exact .inl ⟨checked, rfl, rfl⟩
  | true =>
      rw [checkedRoundUp_eq sized.tileM_pos rowsSmall sized.tileM_le,
        checkedRoundUp_eq sized.tileN_pos columnsSmall sized.tileN_le] at path
      cases path
      exact .inr ⟨checked, rfl, rfl⟩

/-- Only rounded ranges can be too large, and only where a work item computes a single row or
column. -/
theorem ranges_le_iff (sized : params.Sized) (rowsSmall : m ≤ Size.kernelLimit)
    (columnsSmall : n ≤ Size.kernelLimit)
    (path : params.path index m n k = .ok (slot, entry, rows, columns)) :
    (rows / params.perItemM ≤ Size.kernelLimit ∧ columns / params.perItemN ≤ Size.kernelLimit) ↔
      (params.needsFallback m n k = .ok true →
        (params.perItemM = 1 → Size.roundUp m params.localSize0 ≤ Size.kernelLimit) ∧
          (params.perItemN = 1 → Size.roundUp n params.localSize1 ≤ Size.kernelLimit)) := by
  rcases ranges_of_path sized rowsSmall columnsSmall path with
    ⟨full, rfl, rfl⟩ | ⟨ragged, rfl, rfl⟩
  · have rowsLess := Nat.div_le_self rows params.perItemM
    have columnsLess := Nat.div_le_self columns params.perItemN
    simp only [full, Except.ok.injEq, Bool.false_eq_true, false_implies, iff_true]
    omega
  · simp only [ragged, true_implies]
    apply and_congr
    · exact Size.items_le_iff sized.localSize0 sized.perItemM rowsSmall sized.tileM_le
    · exact Size.items_le_iff sized.localSize1 sized.perItemN columnsSmall sized.tileN_le

end MatrixProduct

namespace Variant

/-! ### Sizes that no check bounds -/

/-- The sizes of an update of matrices and of a matrix product, of which the checks bound
products only. -/
def SizesFit : Variant → Batch → Prop
  | matrixUpdate _, batch => ∀ rows columns, MatrixUpdate.dims batch = .ok (rows, columns) →
      rows ≤ Size.kernelLimit ∧ columns ≤ Size.kernelLimit
  | matrixProduct params, batch => ∀ operands, params.operands batch = .ok operands →
      operands.m ≤ Size.kernelLimit ∧ operands.n ≤ Size.kernelLimit ∧
        operands.k ≤ Size.kernelLimit
  | _, _ => True

/-- The ranges of a matrix product with partial tiles, where a work item computes a single row
or column. -/
def RangesFit : Variant → Batch → Prop
  | matrixProduct params, batch => ∀ operands, params.operands batch = .ok operands →
      params.needsFallback operands.m operands.n operands.k = .ok true →
        (params.perItemM = 1 →
            Size.roundUp operands.m params.localSize0 ≤ Size.kernelLimit) ∧
          (params.perItemN = 1 →
            Size.roundUp operands.n params.localSize1 ≤ Size.kernelLimit)
  | _, _ => True

/-- The sizes of a matrix product with partial tiles, rounded up to full tiles. -/
def RoundingsFit : Variant → Batch → Prop
  | matrixProduct params, batch => ∀ operands, params.operands batch = .ok operands →
      params.needsFallback operands.m operands.n operands.k = .ok true →
        Size.roundUp operands.m params.tileM < Size.wordCount ∧
          Size.roundUp operands.n params.tileN < Size.wordCount
  | _, _ => True

/-- Nothing that a variant computes from its parameters and the sizes of a batch leaves the
machine word. The largest number on the way to a rounded size is that size. -/
structure Unwrapped (variant : Variant) (batch : Batch) : Prop where
  products : ∀ product ∈ variant.products, product < Size.wordCount
  lengths : ∀ handle, batch.Holds handle → checkExtent handle = .ok () →
    handle.length = handle.extent.elements
  bytes : ∀ params, variant = innerProduct params →
    params.partialsBytes batch.elementType = batch.elementType.bytes * params.groups0
  roundings : ∀ params, variant = matrixProduct params →
    ∀ operands, params.operands batch = .ok operands →
      params.needsFallback operands.m operands.n operands.k = .ok true →
        checkedRoundUp operands.m params.tileM = .ok (Size.roundUp operands.m params.tileM) ∧
          checkedRoundUp operands.n params.tileN = .ok (Size.roundUp operands.n params.tileN)

section

variable {params : MatrixProduct} {batch : Batch} {operands : MatrixProduct.Operands}
  (found : params.operands batch = .ok operands)

include found

theorem sizesFit_product_iff : (Variant.matrixProduct params).SizesFit batch ↔
    operands.m ≤ Size.kernelLimit ∧ operands.n ≤ Size.kernelLimit ∧
      operands.k ≤ Size.kernelLimit := by
  simp [SizesFit, found]

theorem rangesFit_product_iff : (Variant.matrixProduct params).RangesFit batch ↔
    (params.needsFallback operands.m operands.n operands.k = .ok true →
      (params.perItemM = 1 → Size.roundUp operands.m params.localSize0 ≤ Size.kernelLimit) ∧
        (params.perItemN = 1 →
          Size.roundUp operands.n params.localSize1 ≤ Size.kernelLimit)) := by
  simp [RangesFit, found]

theorem roundingsFit_product_iff : (Variant.matrixProduct params).RoundingsFit batch ↔
    (params.needsFallback operands.m operands.n operands.k = .ok true →
      Size.roundUp operands.m params.tileM < Size.wordCount ∧
        Size.roundUp operands.n params.tileN < Size.wordCount) := by
  simp [RoundingsFit, found]

end

variable {variant : Variant} {index : Nat} {batch : Batch} {shape : Shape} {plan : LaunchPlan}

/-- A dimension that is too large makes a matrix that has an element too large. -/
theorem sizesFit_of_filled (filled : batch.Filled) : variant.SizesFit batch := by
  cases variant with
  | matrixUpdate params =>
      intro rows columns measured
      obtain ⟨target, holds, isMatrix, reachable, rfl, rfl⟩ :=
        MatrixUpdate.measured_of_dims measured
      have elements := Buffer.elements_of_matrix isMatrix
      exact factors_le (elements ▸ filled target holds) (elements.symm.trans_le reachable)
  | matrixProduct params =>
      intro operands found
      have checked := MatrixProduct.checked_of_operands found
      have sizesC := factors_le (checked.elementsC ▸ filled _ checked.c)
        (checked.elementsC.symm.trans_le checked.reachableC)
      have sizesA := factors_le (checked.elementsA ▸ filled _ checked.a)
        (checked.elementsA.symm.trans_le checked.reachableA)
      exact ⟨sizesC.1, sizesC.2, sizesA.2⟩
  | vectorUpdate params => trivial
  | innerProduct params => trivial
  | matrixVector params => trivial

/-! ### Shapes -/

theorem shape_countable_iff (accepts : variant.sizes batch = .ok shape) :
    shape.Countable ↔ variant.SizesFit batch := by
  have single {value : Nat} (small : value ≤ Size.kernelLimit) :
      0 ≤ Size.signed value ∧ Size.signed value ≤ Size.kernelLimit :=
    (Size.signed_countable_iff (Nat.lt_of_le_of_lt small (by decide))).2 small
  cases variant with
  | vectorUpdate params =>
      obtain ⟨length, measured, same⟩ := bind_eq_ok_iff.1 accepts
      cases same
      apply iff_of_true _ trivial
      exact List.forall_mem_singleton.2 (single (VectorUpdate.length_le measured))
  | innerProduct params =>
      obtain ⟨operands, found, same⟩ := bind_eq_ok_iff.1 accepts
      cases same
      have reachable := (InnerProduct.checked_of_operands found).reachable
      apply iff_of_true _ trivial
      exact List.forall_mem_singleton.2 (single (reachable.length_eq.trans_le reachable))
  | matrixVector params =>
      obtain ⟨operands, found, same⟩ := bind_eq_ok_iff.1 accepts
      cases same
      obtain ⟨rows, columns⟩ := (MatrixVector.checked_of_operands found).sizes_le
      apply iff_of_true _ trivial
      exact List.forall_mem_cons.2 ⟨single rows, List.forall_mem_singleton.2 (single columns)⟩
  | matrixUpdate params =>
      obtain ⟨⟨rows, columns⟩, measured, same⟩ := bind_eq_ok_iff.1 accepts
      cases same
      obtain ⟨target, _, _, _, rfl, rfl⟩ := MatrixUpdate.measured_of_dims measured
      simp [Shape.Countable, SizesFit, measured, Size.signed_countable_iff target.rows_lt,
        Size.signed_countable_iff target.columns_lt]
  | matrixProduct params =>
      obtain ⟨operands, found, same⟩ := bind_eq_ok_iff.1 accepts
      cases same
      have checked := MatrixProduct.checked_of_operands found
      have rows : operands.m < Size.wordCount := checked.rows.trans_lt operands.c.rows_lt
      have columns : operands.n < Size.wordCount := checked.columns.trans_lt operands.c.columns_lt
      simp [Shape.Countable, SizesFit, found, Size.signed_countable_iff rows,
        Size.signed_countable_iff columns, Size.signed_countable_iff checked.inner]

/-! ### Launches -/

theorem plan_countable_iff (valid : variant.Valid) (sized : variant.Sized)
    (planned : variant.plan index batch = .ok plan) :
    plan.Countable ↔ variant.SizesFit batch ∧ variant.RangesFit batch := by
  have limits := valid.products
  have counted := valid.counted
  have bound := iff_true_intro (Bindings.arguments_countable batch)
  cases variant with
  | vectorUpdate params =>
      obtain ⟨length, measured, planned⟩ := bind_eq_ok_iff.1 planned
      cases planned
      have small := VectorUpdate.length_le measured
      simp only [products, listedSizes, List.forall_mem_cons] at limits counted
      apply iff_of_true _ ⟨trivial, trivial⟩
      simp [LaunchPlan.Countable, PlannedLaunch.countable_iff, small, bound, limits.1,
        counted.2.1.2]
  | innerProduct params =>
      obtain ⟨operands, found, planned⟩ := bind_eq_ok_iff.1 planned
      cases planned
      have reachable := (InnerProduct.checked_of_operands found).reachable
      have small : operands.x.length ≤ Size.kernelLimit := reachable.length_eq.trans_le reachable
      simp only [products, listedSizes, List.forall_mem_cons] at limits counted
      apply iff_of_true _ ⟨trivial, trivial⟩
      simp [LaunchPlan.Countable, PlannedLaunch.countable_iff, small,
        limits.1, counted.2.1.2, counted.2.2.1.2]
  | matrixVector params =>
      obtain ⟨operands, found, planned⟩ := bind_eq_ok_iff.1 planned
      cases planned
      obtain ⟨rows, columns⟩ := (MatrixVector.checked_of_operands found).sizes_le
      simp only [products, listedSizes, List.forall_mem_cons] at limits counted
      apply iff_of_true _ ⟨trivial, trivial⟩
      simp [LaunchPlan.Countable, PlannedLaunch.countable_iff, rows, columns,
        limits.2.1, counted.2.1.2, counted.2.2.1.2]
  | matrixUpdate params =>
      obtain ⟨⟨rows, columns⟩, measured, planned⟩ := bind_eq_ok_iff.1 planned
      cases planned
      simp only [products, listedSizes, List.forall_mem_cons] at limits counted
      simp [LaunchPlan.Countable, PlannedLaunch.countable_iff, SizesFit, RangesFit, measured,
        bound, limits.2.1, limits.2.2.1, counted.2.1.2, counted.2.2.1.2]
  | matrixProduct params =>
      obtain ⟨operands, found, planned⟩ := bind_eq_ok_iff.1 planned
      obtain ⟨⟨slot, entry, rows, columns⟩, path, planned⟩ := bind_eq_ok_iff.1 planned
      cases planned
      simp only [listedSizes, List.forall_mem_cons] at counted
      rw [sizesFit_product_iff found, rangesFit_product_iff found]
      simp only [LaunchPlan.Countable, PlannedLaunch.countable_iff, List.forall_mem_cons]
      constructor
      · rintro ⟨⟨⟨rowsLe, columnsLe, _⟩, _, small, smallN, smallK, _⟩, _⟩
        exact ⟨⟨small, smallN, smallK⟩,
          (MatrixProduct.ranges_le_iff sized small smallN path).1 ⟨rowsLe, columnsLe⟩⟩
      · rintro ⟨⟨small, smallN, smallK⟩, ranges⟩
        have within := (MatrixProduct.ranges_le_iff sized small smallN path).2 ranges
        simp [within.1, within.2, small, smallN, smallK, counted.2.1.2, counted.2.2.2.1.2]

/-! ### Roundings -/

/-- Sizes that a kernel can count are rounded up within the machine word. -/
theorem roundingsFit_of_sizesFit (sized : variant.Sized) (fits : variant.SizesFit batch) :
    variant.RoundingsFit batch := by
  cases variant with
  | matrixProduct params =>
      intro operands found _
      obtain ⟨rowsSmall, columnsSmall, _⟩ := fits operands found
      exact (MatrixProduct.roundings_iff sized).1
        ⟨checkedRoundUp_eq sized.tileM_pos rowsSmall sized.tileM_le,
          checkedRoundUp_eq sized.tileN_pos columnsSmall sized.tileN_le⟩
  | vectorUpdate params => trivial
  | innerProduct params => trivial
  | matrixUpdate params => trivial
  | matrixVector params => trivial

theorem unwrapped_iff (valid : variant.Valid) (sized : variant.Sized) (grouped : variant.Grouped) :
    variant.Unwrapped batch ↔ variant.RoundingsFit batch := by
  constructor
  · intro unwrapped
    cases variant with
    | matrixProduct params =>
        intro operands found ragged
        exact (MatrixProduct.roundings_iff sized).1
          (unwrapped.roundings params rfl operands found ragged)
    | vectorUpdate params => trivial
    | innerProduct params => trivial
    | matrixUpdate params => trivial
    | matrixVector params => trivial
  · intro fits
    refine ⟨?products, ?lengths, ?bytes, ?roundings⟩
    case products =>
      intro product listed
      exact Nat.lt_of_le_of_lt (valid.products product listed) (by decide)
    case lengths =>
      intro handle _ checked
      exact (Buffer.reachable_of_checkExtent checked).length_eq
    case bytes =>
      rintro params rfl
      exact partialsBytes_eq grouped.2 batch.elementType
    case roundings =>
      rintro params rfl operands found ragged
      exact (MatrixProduct.roundings_iff sized).2 (fits operands found ragged)

/-- The shape of a batch, and the launches of an accepted variant for it, have sizes that a
kernel can count exactly when the sizes do of which the checks bound products only, and the
ranges that are rounded up for work items of one row or column. Nothing that is computed leaves
the machine word but for a size that is rounded up, and none does when the sizes can be
counted, as those of a batch without empty buffers always can. -/
theorem countable_iff_fits {operation : Operation} {profile : List Int}
    (accepted : ofProfile operation profile = .ok variant) (batch : Batch) :
    (∀ shape, variant.sizes batch = .ok shape →
        (shape.Countable ↔ variant.SizesFit batch)) ∧
      (∀ index plan, variant.plan index batch = .ok plan →
        (plan.Countable ↔ variant.SizesFit batch ∧ variant.RangesFit batch)) ∧
      (variant.Unwrapped batch ↔ variant.RoundingsFit batch) ∧
      (variant.SizesFit batch → variant.RoundingsFit batch) ∧
      (batch.Filled → variant.SizesFit batch) := by
  obtain ⟨_, valid, _⟩ := ofProfile_eq_ok_iff.1 accepted
  have sized := ofProfile_sized accepted
  have grouped := ofProfile_grouped accepted
  refine ⟨?shapes, ?plans, ?words, ?roundings, ?filled⟩
  case shapes =>
    intro shape accepts
    exact shape_countable_iff accepts
  case plans =>
    intro index plan planned
    exact plan_countable_iff valid sized planned
  case words => exact unwrapped_iff valid sized grouped
  case roundings => exact roundingsFit_of_sizesFit sized
  case filled => exact sizesFit_of_filled

end Variant

/-! ### Products of three sizes -/

namespace Batch

theorem product_allowed (m n k : UInt64) :
    (Node.mk (.buffer ⟨⟨1⟩, .f32, .matrix m k, ⟨1⟩⟩) .matrixProduct
      (.buffer ⟨⟨2⟩, .f32, .matrix k n, ⟨1⟩⟩)).Admissible ⟨1⟩ 0 := ⟨rfl, rfl⟩

/-- A matrix of `m` rows and `n` columns is assigned a product along `k`. -/
def product (m n k : UInt64) : Batch :=
  .single (.assignment .f32 ⟨⟨0⟩, .f32, .matrix m n, ⟨1⟩⟩ .matrixProduct
    (.buffer ⟨⟨1⟩, .f32, .matrix m k, ⟨1⟩⟩) (.buffer ⟨⟨2⟩, .f32, .matrix k n, ⟨1⟩⟩)
    (product_allowed m n k))

end Batch

namespace MatrixProduct

/-- Tiles of eight rows and columns, with a work item for every element. -/
def tiling : MatrixProduct where
  transposedA := false
  transposedB := false
  simdWidth := 1
  localSize0 := 8
  tileK := 8
  localSize1 := 8
  perItemM := 1
  perItemK := 1
  perItemN := 1
  fetchA := .strided
  fetchB := .strided
  localFetch0 := 8
  localFetch1 := 8

theorem checkExtent_matrix {id : BufferId} {context : ContextId} {rows columns : UInt64}
    (small : rows.toNat * columns.toNat ≤ Size.kernelLimit) :
    checkExtent ⟨id, .f32, .matrix rows columns, context⟩ = .ok () := by
  have product : checkedProduct "buffer dims" [rows.toNat, columns.toNat] =
      .ok (rows.toNat * columns.toNat) := by
    simp [checkedProduct, small]
  exact bind_eq_ok_iff.2 ⟨_, product, rfl⟩

/-- The checks look at the products of the sizes only. -/
theorem product_operands (m n k : UInt64) (smallC : m.toNat * n.toNat ≤ Size.kernelLimit)
    (smallA : m.toNat * k.toNat ≤ Size.kernelLimit)
    (smallB : k.toNat * n.toNat ≤ Size.kernelLimit) :
    tiling.operands (.product m n k) = .ok ⟨⟨⟨0⟩, .f32, .matrix m n, ⟨1⟩⟩,
      ⟨⟨1⟩, .f32, .matrix m k, ⟨1⟩⟩, ⟨⟨2⟩, .f32, .matrix k n, ⟨1⟩⟩,
      m.toNat, n.toNat, k.toNat⟩ := by
  show conforming ⟨⟨0⟩, .f32, .matrix m n, ⟨1⟩⟩ ⟨⟨1⟩, .f32, .matrix m k, ⟨1⟩⟩
    ⟨⟨2⟩, .f32, .matrix k n, ⟨1⟩⟩ false false = _
  simp only [conforming, checkExtent_matrix smallC, checkExtent_matrix smallA,
    checkExtent_matrix smallB]
  exact if_pos (And.intro rfl (And.intro rfl rfl))

end MatrixProduct

namespace Variant

open MatrixProduct

theorem tiling_accepted : ofProfile .matrixProductNN [1, 8, 8, 8, 1, 1, 1, 1, 1, 8, 8] =
    .ok (.matrixProduct tiling) := rfl

/-- A product of sizes that do not fill their tiles, and that can all be counted. -/
theorem tiling_countable :
    ofProfile .matrixProductNN [1, 8, 8, 8, 1, 1, 1, 1, 1, 8, 8] = .ok (.matrixProduct tiling) ∧
      ∃ shape plan, (Variant.matrixProduct tiling).sizes (.product 12 20 5) = .ok shape ∧
        (Variant.matrixProduct tiling).plan 0 (.product 12 20 5) = .ok plan ∧
        shape.Countable ∧ plan.Countable ∧
        (Variant.matrixProduct tiling).Unwrapped (.product 12 20 5) := by
  have operands := product_operands 12 20 5 (by decide) (by decide) (by decide)
  have fits : (Variant.matrixProduct tiling).SizesFit (.product 12 20 5) :=
    (sizesFit_product_iff operands).2 (by decide)
  have ranges : (Variant.matrixProduct tiling).RangesFit (.product 12 20 5) :=
    (rangesFit_product_iff operands).2 fun _ => by decide
  obtain ⟨shape, accepts⟩ : ∃ shape,
      (Variant.matrixProduct tiling).sizes (.product 12 20 5) = .ok shape :=
    ⟨_, bind_eq_ok_iff.2 ⟨_, operands, rfl⟩⟩
  obtain ⟨plan, planned⟩ : ∃ plan,
      (Variant.matrixProduct tiling).plan 0 (.product 12 20 5) = .ok plan :=
    ⟨_, bind_eq_ok_iff.2 ⟨_, operands, rfl⟩⟩
  obtain ⟨shapes, plans, words, roundings, _⟩ :=
    countable_iff_fits tiling_accepted (.product 12 20 5)
  exact ⟨tiling_accepted, shape, plan, accepts, planned, (shapes shape accepts).2 fits,
    (plans 0 plan planned).2 ⟨fits, ranges⟩, words.2 (roundings fits)⟩

/-- Beside empty dimensions, one of `2 ^ 63` has no countable shape and one of `2 ^ 64 - 1` is
rounded up out of the machine word. With sizes that can all be counted, `2 ^ 32 - 1` rows are
rounded up to more work items than that. -/
theorem product_uncountable :
    ofProfile .matrixProductNN [1, 8, 8, 8, 1, 1, 1, 1, 1, 8, 8] = .ok (.matrixProduct tiling) ∧
      (∃ shape, (Variant.matrixProduct tiling).sizes (.product 0x8000000000000000 0 0) =
          .ok shape ∧ ¬ shape.Countable) ∧
      (∃ plan, (Variant.matrixProduct tiling).plan 0 (.product 0xFFFFFFFF 1 1) = .ok plan ∧
        (Variant.matrixProduct tiling).SizesFit (.product 0xFFFFFFFF 1 1) ∧
        ¬ plan.Countable) ∧
      ¬ (Variant.matrixProduct tiling).Unwrapped (.product 0xFFFFFFFFFFFFFFFF 0 0) := by
  obtain ⟨_, valid, _⟩ := ofProfile_eq_ok_iff.1 tiling_accepted
  have sized := ofProfile_sized tiling_accepted
  refine ⟨tiling_accepted, ?shape, ?range, ?word⟩
  case shape =>
    have operands := product_operands 0x8000000000000000 0 0 (by decide) (by decide) (by decide)
    obtain ⟨shape, accepts⟩ : ∃ shape,
        (Variant.matrixProduct tiling).sizes (.product 0x8000000000000000 0 0) = .ok shape :=
      ⟨_, bind_eq_ok_iff.2 ⟨_, operands, rfl⟩⟩
    refine ⟨shape, accepts, ?_⟩
    rw [shape_countable_iff accepts, sizesFit_product_iff operands]
    decide
  case range =>
    have operands := product_operands 0xFFFFFFFF 1 1 (by decide) (by decide) (by decide)
    have fits : (Variant.matrixProduct tiling).SizesFit (.product 0xFFFFFFFF 1 1) :=
      (sizesFit_product_iff operands).2 (by decide)
    obtain ⟨plan, planned⟩ : ∃ plan,
        (Variant.matrixProduct tiling).plan 0 (.product 0xFFFFFFFF 1 1) = .ok plan :=
      ⟨_, bind_eq_ok_iff.2 ⟨_, operands, rfl⟩⟩
    refine ⟨plan, planned, fits, ?_⟩
    rw [plan_countable_iff valid sized planned, rangesFit_product_iff operands]
    rintro ⟨_, ranges⟩
    exact absurd (ranges rfl) (by decide)
  case word =>
    have operands := product_operands 0xFFFFFFFFFFFFFFFF 0 0 (by decide) (by decide) (by decide)
    rw [unwrapped_iff valid sized trivial, roundingsFit_product_iff operands]
    intro roundings
    exact absurd (roundings rfl) (by decide)

end Variant

end KernelTuner
