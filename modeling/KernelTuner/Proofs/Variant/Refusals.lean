import KernelTuner.Proofs.Variant.Planning

/-!
Contract: how variants fail.

Owns: that the checks of parameters fail with nothing but a refused argument, where they
divide by no zero; and that the sizes, the emission and the plan of an accepted variant fail
on no batch with anything else.
-/

set_option autoImplicit false

namespace KernelTuner

/-! ### Shared checks -/

theorem checkedProduct_onlyRefuses (quantity : String) (factors : List Nat) :
    OnlyRefuses (checkedProduct quantity factors) := by
  unfold checkedProduct
  simp only
  split
  · exact .ok _
  · exact .refuse _

theorem checkSimdWidth_onlyRefuses (width : Nat) : OnlyRefuses (checkSimdWidth width) := by
  unfold checkSimdWidth
  split
  · exact .ok ()
  · exact .refuse _

theorem checkExtent_onlyRefuses (buffer : Buffer) : OnlyRefuses (checkExtent buffer) :=
  .bind (checkedProduct_onlyRefuses _ _) fun _ _ => .pure _

theorem onlyExpression_onlyRefuses (batch : Batch) (kernels : String) :
    OnlyRefuses (batch.onlyExpression kernels) := by
  unfold Batch.onlyExpression
  split
  · exact .ok _
  · exact .refuse _

/-! ### Parameters -/

theorem VectorUpdate.check_onlyRefuses (params : VectorUpdate) : OnlyRefuses params.check :=
  .bind (checkSimdWidth_onlyRefuses _) fun _ _ =>
    .bind (checkedProduct_onlyRefuses _ _) fun _ _ => .pure _

theorem InnerProduct.check_onlyRefuses (params : InnerProduct) : OnlyRefuses params.check :=
  .bind (checkSimdWidth_onlyRefuses _) fun _ _ =>
    .bind (checkedProduct_onlyRefuses _ _) fun _ _ => .pure _

theorem MatrixUpdate.check_onlyRefuses (params : MatrixUpdate) : OnlyRefuses params.check :=
  .bind (checkSimdWidth_onlyRefuses _) fun _ _ =>
    .bind (checkedProduct_onlyRefuses _ _) fun _ _ =>
      .bind (checkedProduct_onlyRefuses _ _) fun _ _ =>
        .bind (checkedProduct_onlyRefuses _ _) fun _ _ => .pure _

theorem MatrixVector.check_onlyRefuses (params : MatrixVector) : OnlyRefuses params.check :=
  .bind (checkSimdWidth_onlyRefuses _) fun _ _ =>
    .bind (checkedProduct_onlyRefuses _ _) fun _ _ =>
      .bind (checkedProduct_onlyRefuses _ _) fun _ _ => .pure _

/-- A step of at least one divides the tile with a remainder. -/
theorem MatrixProduct.check_onlyRefuses {params : MatrixProduct} (positive : 0 < params.perItemK) :
    OnlyRefuses params.check := by
  unfold MatrixProduct.check
  refine .bind (checkSimdWidth_onlyRefuses _) fun _ _ => ?_
  rw [checkedRemainder_eq positive]
  refine .bind (.ok _) fun remainder _ => ?_
  split
  · exact .bind (.refuse _) fun _ impossible => absurd impossible refuse_ne_ok
  · refine .bind (checkedProduct_onlyRefuses _ _) fun _ _ => ?_
    refine .bind (checkedProduct_onlyRefuses _ _) fun _ _ => ?_
    refine .bind (checkedProduct_onlyRefuses _ _) fun _ _ => ?_
    refine .bind (checkedProduct_onlyRefuses _ _) fun _ _ => ?_
    split
    · exact .bind (.refuse _) fun _ impossible => absurd impossible refuse_ne_ok
    · exact .pure _

/-! ### Sizes and operands -/

namespace VectorUpdate

theorem targetLength_onlyRefuses (expression : Expression) :
    OnlyRefuses (targetLength expression) := by
  unfold targetLength
  split
  · exact .refuse _
  · exact .bind (checkExtent_onlyRefuses _) fun _ _ => .pure _

theorem checkLengths_onlyRefuses (length : Nat) (expressions : List Expression) :
    OnlyRefuses (checkLengths length expressions) := by
  induction expressions with
  | nil => exact .ok ()
  | cons expression rest inductionHypothesis =>
      refine .bind (targetLength_onlyRefuses expression) ?_
      intro found _
      split
      · exact .refuse _
      · exact inductionHypothesis

theorem length_onlyRefuses (batch : Batch) : OnlyRefuses (length batch) := by
  refine .bind (targetLength_onlyRefuses batch.first) ?_
  intro length _
  exact .bind (checkLengths_onlyRefuses length batch.rest) fun _ _ => .pure _

end VectorUpdate

namespace MatrixUpdate

theorem targetDims_onlyRefuses (expression : Expression) :
    OnlyRefuses (targetDims expression) := by
  unfold targetDims
  split
  · split
    · exact .bind (checkExtent_onlyRefuses _) fun _ _ => .pure _
    · exact .refuse _
  · exact .refuse _

theorem checkDims_onlyRefuses (dims : Nat × Nat) (expressions : List Expression) :
    OnlyRefuses (checkDims dims expressions) := by
  induction expressions with
  | nil => exact .ok ()
  | cons expression rest inductionHypothesis =>
      refine .bind (targetDims_onlyRefuses expression) ?_
      intro found _
      split
      · exact .refuse _
      · exact inductionHypothesis

theorem dims_onlyRefuses (batch : Batch) : OnlyRefuses (dims batch) := by
  refine .bind (targetDims_onlyRefuses batch.first) ?_
  intro dims _
  exact .bind (checkDims_onlyRefuses dims batch.rest) fun _ _ => .pure _

end MatrixUpdate

theorem InnerProduct.operands_onlyRefuses (batch : Batch) : OnlyRefuses (operands batch) := by
  refine .bind (onlyExpression_onlyRefuses batch _) ?_
  intro expression _
  split
  · split
    · split
      · split
        · exact .bind (checkExtent_onlyRefuses _) fun _ _ => .pure _
        · exact .refuse _
      · exact .refuse _
    · exact .refuse _
  · exact .refuse _

theorem MatrixVector.conforming_onlyRefuses (axis : Axis) (out matrix x : Buffer) :
    OnlyRefuses (conforming axis out matrix x) := by
  refine .bind (checkExtent_onlyRefuses matrix) fun _ _ => ?_
  refine .bind (checkExtent_onlyRefuses x) fun _ _ => ?_
  refine .bind (checkExtent_onlyRefuses out) fun _ _ => ?_
  simp only
  split
  · exact .pure _
  · exact .refuse _

theorem MatrixVector.operands_onlyRefuses (axis : Axis) (batch : Batch) :
    OnlyRefuses (operands axis batch) := by
  refine .bind (onlyExpression_onlyRefuses batch _) ?_
  intro expression _
  split
  · split
    · split
      · split
        · split
          · exact conforming_onlyRefuses axis _ _ _
          · exact .refuse _
        · exact .refuse _
      · exact .refuse _
    · exact .refuse _
  · exact .refuse _

namespace MatrixProduct

theorem conforming_onlyRefuses (c a b : Buffer) (transposedA transposedB : Bool) :
    OnlyRefuses (conforming c a b transposedA transposedB) := by
  unfold conforming
  by_cases unshaped : c.rank ≠ 2 ∨ a.rank ≠ 2 ∨ b.rank ≠ 2
  · rw [if_pos unshaped]
    refine .bind (.refuse _) ?_
    intro _ impossible
    exact absurd impossible refuse_ne_ok
  · rw [if_neg unshaped]
    refine .bind (checkExtent_onlyRefuses c) fun _ _ => ?_
    refine .bind (checkExtent_onlyRefuses a) fun _ _ => ?_
    refine .bind (checkExtent_onlyRefuses b) fun _ _ => ?_
    simp only
    split
    · exact .pure _
    · exact .refuse _

theorem operands_onlyRefuses (params : MatrixProduct) (batch : Batch) :
    OnlyRefuses (params.operands batch) := by
  refine .bind (onlyExpression_onlyRefuses batch _) ?_
  intro expression _
  split
  · split
    · split
      · exact .refuse _
      · split
        · exact .refuse _
        · split
          · exact conforming_onlyRefuses _ _ _ _ _
          · exact .refuse _
    · exact .refuse _
  · exact .refuse _

end MatrixProduct

/-! ### Element-wise statements -/

namespace Bindings

variable (bindings : Bindings) (access : Access)

theorem nameOf_onlyRefuses (buffer : Buffer) : OnlyRefuses (bindings.nameOf buffer) := by
  unfold nameOf
  split
  · exact .ok _
  · exact .refuse _

theorem render_onlyRefuses (tree : Tree) (scalars : List Nat) :
    OnlyRefuses (bindings.render access tree scalars) := by
  induction tree generalizing scalars with
  | empty => exact .refuse _
  | buffer handle => exact .bind (bindings.nameOf_onlyRefuses handle) fun _ _ => .pure _
  | scalar elementType value =>
      cases scalars with
      | nil => exact .refuse _
      | cons position rest => exact .ok _
  | node operator lhs rhs lhsHypothesis rhsHypothesis =>
      rw [render]
      split
      · exact .refuse _
      · refine .bind (lhsHypothesis scalars) ?_
        intro left _
        exact .bind (rhsHypothesis left.2) fun right _ => .pure _

theorem statement_onlyRefuses (tree : Tree) (scalars : List Nat) :
    OnlyRefuses (bindings.statement access tree scalars) := by
  unfold statement
  split
  · refine .bind (bindings.nameOf_onlyRefuses _) ?_
    intro name _
    exact .bind (bindings.render_onlyRefuses access _ scalars) fun value _ => .pure _
  · exact .refuse _

theorem statementsFrom_onlyRefuses (trees : List Tree) (scalars : List Nat) :
    OnlyRefuses (bindings.statementsFrom access trees scalars) := by
  induction trees generalizing scalars with
  | nil => exact .ok _
  | cons tree trees inductionHypothesis =>
      refine .bind (bindings.statement_onlyRefuses access tree scalars) ?_
      intro store _
      exact .bind (inductionHypothesis store.2) fun others _ => .pure _

theorem statements_onlyRefuses (batch : Batch) :
    OnlyRefuses (bindings.statements batch access) :=
  .bind (bindings.statementsFrom_onlyRefuses access _ _) fun _ _ => .pure _

end Bindings

/-! ### Variants -/

namespace Variant

variable {variant : Variant}

theorem sizes_onlyRefuses (batch : Batch) : OnlyRefuses (variant.sizes batch) := by
  cases variant with
  | vectorUpdate params =>
      exact .bind (VectorUpdate.length_onlyRefuses batch) fun _ _ => .pure _
  | innerProduct params =>
      exact .bind (InnerProduct.operands_onlyRefuses batch) fun _ _ => .pure _
  | matrixUpdate params =>
      exact .bind (MatrixUpdate.dims_onlyRefuses batch) fun _ _ => .pure _
  | matrixVector params =>
      exact .bind (MatrixVector.operands_onlyRefuses params.axis batch) fun _ _ => .pure _
  | matrixProduct params =>
      exact .bind (params.operands_onlyRefuses batch) fun _ _ => .pure _

theorem emit_onlyRefuses (index : Nat) (batch : Batch) : OnlyRefuses (variant.emit index batch) := by
  cases variant with
  | vectorUpdate params =>
      refine .bind (Bindings.statements_onlyRefuses _ _ batch) ?_
      intro scalar _
      by_cases wide : 1 < params.simdWidth
      · rw [if_pos wide]
        exact .bind (Bindings.statements_onlyRefuses _ _ batch) fun vector _ => .pure _
      · rw [if_neg wide]
        exact .pure _
  | innerProduct params =>
      exact .bind (InnerProduct.operands_onlyRefuses batch) fun _ _ => .pure _
  | matrixUpdate params =>
      exact .bind (Bindings.statements_onlyRefuses _ _ batch) fun _ _ => .pure _
  | matrixVector params =>
      exact .bind (MatrixVector.operands_onlyRefuses params.axis batch) fun _ _ => .pure _
  | matrixProduct params =>
      exact .bind (params.operands_onlyRefuses batch) fun _ _ => .pure _

theorem plan_onlyRefuses (sized : variant.Sized) (index : Nat) {batch : Batch}
    (countable : batch.Countable) : OnlyRefuses (variant.plan index batch) := by
  cases variant with
  | vectorUpdate params =>
      exact .bind (VectorUpdate.length_onlyRefuses batch) fun _ _ => .pure _
  | innerProduct params =>
      exact .bind (InnerProduct.operands_onlyRefuses batch) fun _ _ => .pure _
  | matrixUpdate params =>
      exact .bind (MatrixUpdate.dims_onlyRefuses batch) fun _ _ => .pure _
  | matrixVector params =>
      exact .bind (MatrixVector.operands_onlyRefuses params.axis batch) fun _ _ => .pure _
  | matrixProduct params =>
      refine .bind (params.operands_onlyRefuses batch) ?_
      intro operands found
      obtain ⟨rowsSmall, columnsSmall⟩ := MatrixProduct.operands_countable countable found
      obtain ⟨slot, entry, rows, columns, path, _⟩ :=
        MatrixProduct.path_full sized index operands.k rowsSmall columnsSmall
      rw [path]
      exact .bind (.ok _) fun _ _ => .pure _

end Variant

end KernelTuner
