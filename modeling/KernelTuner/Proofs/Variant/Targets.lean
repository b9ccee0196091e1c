import KernelTuner.Proofs.Outcome
import KernelTuner.Variant.MatrixUpdate
import KernelTuner.Variant.VectorUpdate

/-!
Contract: the targets of element-wise updates.

Owns: how many elements a buffer of each rank has; buffers whose elements a kernel can
count; and that the size checks of both element-wise variants promise the common size for
every target.

Does not own: the buffers that an update reads, which these checks do not look at.
-/

set_option autoImplicit false

namespace KernelTuner

/-! ### Extents -/

/-- Buffers whose elements a kernel can count. -/
def Buffer.Reachable (buffer : Buffer) : Prop := buffer.extent.elements ≤ Size.kernelLimit

theorem Buffer.reachable_of_checkExtent {buffer : Buffer} (checked : checkExtent buffer = .ok ()) :
    buffer.Reachable := by
  obtain ⟨product, checked, _⟩ := bind_eq_ok_iff.1 checked
  unfold checkedProduct at checked
  simp only at checked
  split at checked
  · next small => exact small
  · simp at checked

/-- The length of a buffer that can be counted is the number of its elements. -/
theorem Buffer.Reachable.length_eq {buffer : Buffer} (reachable : buffer.Reachable) :
    buffer.length = buffer.extent.elements :=
  Size.word_eq_self (Nat.lt_of_le_of_lt reachable (by decide))

theorem Buffer.elements_of_matrix {buffer : Buffer} (matrix : buffer.rank = 2) :
    buffer.extent.elements = buffer.rows * buffer.columns := by
  unfold rank Extent.rank at matrix
  unfold rows columns Extent.elements Extent.rows Extent.columns
  cases extent : buffer.extent with
  | scalar => simp [extent, Extent.dims] at matrix
  | vector length => simp [extent, Extent.dims] at matrix
  | matrix rows columns => simp [Extent.dims]

/-- Dimensions are machine words. -/
theorem Buffer.rows_lt (buffer : Buffer) : buffer.rows < Size.wordCount := by
  unfold rows Extent.rows
  cases buffer.extent with
  | scalar => decide
  | vector length => exact length.toNat_lt
  | matrix rows columns => exact rows.toNat_lt

theorem Buffer.columns_lt (buffer : Buffer) : buffer.columns < Size.wordCount := by
  unfold columns Extent.columns
  cases buffer.extent with
  | scalar => decide
  | vector length => exact (by decide : 1 < Size.wordCount)
  | matrix rows columns => exact columns.toNat_lt

/-- Buffers that are single values have one element. -/
theorem Buffer.elements_of_single {buffer : Buffer} (single : buffer.rank = 0) :
    buffer.extent.elements = 1 := by
  unfold rank Extent.rank at single
  cases extent : buffer.extent <;> simp_all [Extent.elements, Extent.dims]

/-! ### Size checks -/

namespace VectorUpdate

/-- The length of an expression is that of the buffer it assigns, which a kernel can count. -/
theorem measured_of_targetLength {expression : Expression} {length : Nat}
    (checked : targetLength expression = .ok length) :
    ∃ target, expression.assigned? = some target ∧ target.Reachable ∧ target.length = length := by
  unfold targetLength at checked
  split at checked
  · simp at checked
  · next target assigned =>
      obtain ⟨_, small, checked⟩ := bind_eq_ok_iff.1 checked
      cases checked
      exact ⟨target, assigned, Buffer.reachable_of_checkExtent small, rfl⟩

theorem target_of_targetLength {expression : Expression} {length : Nat}
    (checked : targetLength expression = .ok length) :
    ∃ target, expression.assigned? = some target ∧ target.extent.elements = length := by
  obtain ⟨target, assigned, reachable, rfl⟩ := measured_of_targetLength checked
  exact ⟨target, assigned, reachable.length_eq.symm⟩

theorem targets_of_checkLengths {length : Nat} {expressions : List Expression}
    (checked : checkLengths length expressions = .ok ()) :
    ∀ expression ∈ expressions, ∃ target,
      expression.assigned? = some target ∧ target.extent.elements = length := by
  induction expressions with
  | nil => exact List.forall_mem_nil _
  | cons first rest inductionHypothesis =>
      obtain ⟨found, firstChecked, checked⟩ := bind_eq_ok_iff.1 checked
      by_cases same : length = found
      · subst same
        rw [if_neg (not_not_intro rfl)] at checked
        exact List.forall_mem_cons.2
          ⟨target_of_targetLength firstChecked, inductionHypothesis checked⟩
      · rw [if_pos same] at checked
        simp at checked

/-- All targets have the common length. -/
theorem targets_of_length {batch : Batch} {length : Nat}
    (measured : VectorUpdate.length batch = .ok length) :
    ∀ expression ∈ batch.expressions, ∃ target,
      expression.assigned? = some target ∧ target.extent.elements = length := by
  obtain ⟨found, first, measured⟩ := bind_eq_ok_iff.1 measured
  obtain ⟨_, rest, same⟩ := bind_eq_ok_iff.1 measured
  cases same
  exact List.forall_mem_cons.2 ⟨target_of_targetLength first, targets_of_checkLengths rest⟩

end VectorUpdate

namespace MatrixUpdate

/-- The sizes of an expression are those of the matrix it assigns, whose elements a kernel can
count. -/
theorem measured_of_targetDims {expression : Expression} {rows columns : Nat}
    (checked : targetDims expression = .ok (rows, columns)) :
    ∃ target, expression.assigned? = some target ∧ target.rank = 2 ∧ target.Reachable ∧
      target.rows = rows ∧ target.columns = columns := by
  unfold targetDims at checked
  split at checked
  · next target assigned =>
      split at checked
      · next isMatrix =>
          obtain ⟨_, small, checked⟩ := bind_eq_ok_iff.1 checked
          cases checked
          exact ⟨target, assigned, isMatrix, Buffer.reachable_of_checkExtent small, rfl, rfl⟩
      · simp at checked
  · simp at checked

theorem target_of_targetDims {expression : Expression} {rows columns : Nat}
    (checked : targetDims expression = .ok (rows, columns)) :
    ∃ target, expression.assigned? = some target ∧ target.extent.elements = rows * columns := by
  obtain ⟨target, assigned, isMatrix, _, rfl, rfl⟩ := measured_of_targetDims checked
  exact ⟨target, assigned, Buffer.elements_of_matrix isMatrix⟩

theorem targets_of_checkDims {rows columns : Nat} {expressions : List Expression}
    (checked : checkDims (rows, columns) expressions = .ok ()) :
    ∀ expression ∈ expressions, ∃ target,
      expression.assigned? = some target ∧ target.extent.elements = rows * columns := by
  induction expressions with
  | nil => exact List.forall_mem_nil _
  | cons first rest inductionHypothesis =>
      obtain ⟨found, firstChecked, checked⟩ := bind_eq_ok_iff.1 checked
      by_cases same : (rows, columns) = found
      · subst same
        rw [if_neg (not_not_intro rfl)] at checked
        exact List.forall_mem_cons.2
          ⟨target_of_targetDims firstChecked, inductionHypothesis checked⟩
      · rw [if_pos same] at checked
        simp at checked

/-- All targets have the common rows and columns. -/
theorem targets_of_dims {batch : Batch} {rows columns : Nat}
    (measured : dims batch = .ok (rows, columns)) :
    ∀ expression ∈ batch.expressions, ∃ target,
      expression.assigned? = some target ∧ target.extent.elements = rows * columns := by
  obtain ⟨found, first, measured⟩ := bind_eq_ok_iff.1 measured
  obtain ⟨_, rest, same⟩ := bind_eq_ok_iff.1 measured
  cases same
  exact List.forall_mem_cons.2 ⟨target_of_targetDims first, targets_of_checkDims rest⟩

end MatrixUpdate

end KernelTuner
