import KernelTuner.Proofs.Outcome
import KernelTuner.Proofs.Variant.ElementWise

/-!
Contract: the buffers that a variant works on.

Owns: the handles that a batch holds; that all leaves are among them; for every variant
that is not element-wise, what its checks promise about the operands that it has found; and
`Variant.arguments_heldBy`, by which launches are passed buffers of the batch only.
-/

set_option autoImplicit false

namespace KernelTuner

/-! ### Handles -/

/-- A node of the expression has the handle for an operand. -/
def Expression.Holds (expression : Expression) (handle : Buffer) : Prop :=
  ∃ (index : Nat) (bound : index < expression.nodes.size),
    expression.nodes[index].lhs = .buffer handle ∨ expression.nodes[index].rhs = .buffer handle

/-- An expression of the batch has the handle for an operand. -/
def Batch.Holds (batch : Batch) (handle : Buffer) : Prop :=
  ∃ expression ∈ batch.expressions, expression.Holds handle

namespace Expression

variable {expression : Expression} {handle : Buffer}

theorem holds_of_leaf_from {index : Nat} {bound : index < expression.nodes.size}
    (member : .buffer handle ∈ (expression.treeFrom index bound).leaves) :
    expression.Holds handle := by
  induction index using Nat.strongRecOn with
  | _ index inductionHypothesis =>
      have below {operand : Operand} {admissible : operand.Admissible expression.context index}
          (within : .buffer handle ∈ (expression.operandTree bound operand admissible).leaves) :
          operand = .buffer handle ∨ expression.Holds handle := by
        cases operand with
        | empty => cases within
        | buffer other =>
            cases List.mem_singleton.1 within
            exact .inl rfl
        | scalar elementType value => cases List.mem_singleton.1 within
        | node child => exact .inr (inductionHypothesis child admissible within)
      rw [treeFrom_eq, Tree.leaves] at member
      rcases List.mem_append.1 member with left | right
      · exact (below left).elim (fun same => ⟨index, bound, .inl same⟩) id
      · exact (below right).elim (fun same => ⟨index, bound, .inr same⟩) id

theorem holds_of_transposed {index : Nat} {bound : index < expression.nodes.size} {odd : Bool}
    (found : expression.transposed? index bound = some (handle, odd)) : expression.Holds handle := by
  induction index using Nat.strongRecOn generalizing odd with
  | _ index inductionHypothesis =>
      have reaches {operand : Operand} {even : Bool}
          {admissible : operand.Admissible expression.context index}
          (below : operand.elimAt admissible
            (fun child earlier => expression.transposed? child (Nat.lt_trans earlier bound))
            (fun held => some (held, false)) (fun _ _ => none) none = some (handle, even)) :
          operand = .buffer handle ∨ expression.Holds handle := by
        cases operand with
        | empty => cases below
        | buffer held =>
            cases below
            exact .inl rfl
        | scalar elementType value => cases below
        | node child => exact .inr (inductionHypothesis child admissible below)
      rw [transposed?] at found
      split at found
      · obtain ⟨⟨other, even⟩, below, same⟩ := Option.map_eq_some_iff.1 found
        cases same
        exact (reaches below).elim (fun stands => ⟨index, bound, .inl stands⟩) id
      · cases found

theorem holds_of_bufferOperand {index : Nat} {bound : index < expression.nodes.size}
    {operand : Operand} {odd : Bool}
    (stands : expression.nodes[index].lhs = operand ∨ expression.nodes[index].rhs = operand)
    (found : expression.bufferOperand? operand = some (handle, odd)) : expression.Holds handle := by
  cases operand with
  | empty => cases found
  | buffer held =>
      cases found
      exact ⟨index, bound, stands⟩
  | scalar elementType value => cases found
  | node child =>
      simp only [bufferOperand?] at found
      split at found
      · exact holds_of_transposed found
      · cases found

theorem holds_of_root_lhs (target : expression.root.lhs = .buffer handle) :
    expression.Holds handle :=
  ⟨expression.rootIndex, expression.rootIndex_lt, .inl target⟩

theorem node?_eq_some {index : Nat} {node : Node} (found : expression.node? index = some node) :
    ∃ bound : index < expression.nodes.size, expression.nodes[index] = node :=
  Array.getElem?_eq_some_iff.1 found

end Expression

namespace Batch

variable {batch : Batch} {handle : Buffer}

theorem holds_of_leaf (member : .buffer handle ∈ batch.leaves) : batch.Holds handle := by
  obtain ⟨expression, listed, within⟩ := List.mem_flatMap.1 member
  exact ⟨expression, listed, Expression.holds_of_leaf_from within⟩

theorem onlyExpression_eq_ok {kernels : String} {expression : Expression}
    (only : batch.onlyExpression kernels = .ok expression) : expression ∈ batch.expressions := by
  unfold onlyExpression at only
  split at only
  · cases only
    exact List.mem_cons_self
  · simp at only

/-- A batch of one operation holds the target and the operands of the operation. -/
theorem holds_of_assignment {elementType : ElementType} {target : Buffer} {operator : Operator}
    {lhs rhs : Operand} {allowed : (Node.mk lhs operator rhs).Admissible target.context 0}
    (holds : (single (.assignment elementType target operator lhs rhs allowed)).Holds handle) :
    handle = target ∨ lhs = .buffer handle ∨ rhs = .buffer handle := by
  obtain ⟨expression, member, index, bound, stands⟩ := holds
  obtain rfl := List.mem_singleton.1 member
  match index, bound, stands with
  | 0, _, stands => exact .inr stands
  | 1, _, .inl isTarget => exact .inl (Operand.buffer.inj isTarget).symm

/-- Every buffer parameter is a leaf of the batch. -/
theorem leaf_of_parameter {leaf : Leaf} (member : leaf ∈ (Bindings.collect batch).parameters) :
    leaf ∈ batch.leaves := by
  have kept (leaves bound : List Leaf) (within : leaf ∈ leaves.foldl Bindings.bind bound) :
      leaf ∈ bound ∨ leaf ∈ leaves := by
    induction leaves generalizing bound with
    | nil => exact .inl within
    | cons first rest inductionHypothesis =>
        have grown : leaf ∈ Bindings.bind bound first → leaf ∈ bound ∨ leaf = first := by
          intro listed
          unfold Bindings.bind at listed
          split at listed
          · split at listed
            · exact .inl listed
            · exact (List.mem_append.1 listed).imp_right List.mem_singleton.1
          · exact (List.mem_append.1 listed).imp_right List.mem_singleton.1
        rcases inductionHypothesis _ within with early | late
        · rcases grown early with old | rfl
          · exact .inl old
          · exact .inr List.mem_cons_self
        · exact .inr (List.mem_cons_of_mem _ late)
  exact (kept batch.leaves [] member).resolve_left List.not_mem_nil

end Batch

/-! ### Operands -/

namespace InnerProduct

/-- What the checks of an inner product promise about its operands. -/
structure Operands.Checked (batch : Batch) (operands : Operands) : Prop where
  out : batch.Holds operands.out
  x : batch.Holds operands.x
  y : batch.Holds operands.y
  sameDims : operands.x.dims = operands.y.dims
  reachable : operands.x.Reachable

theorem Operands.Checked.sameElements {batch : Batch} {operands : Operands}
    (checked : operands.Checked batch) :
    operands.y.extent.elements = operands.x.extent.elements :=
  congrArg (fun dims : List Nat => dims.foldl (· * ·) 1) checked.sameDims.symm

theorem checked_of_operands {batch : Batch} {found : Operands}
    (accepted : operands batch = .ok found) : found.Checked batch := by
  obtain ⟨expression, only, accepted⟩ := bind_eq_ok_iff.1 accepted
  have listed := Batch.onlyExpression_eq_ok only
  split at accepted
  · next isAssign target isNode =>
      split at accepted
      · next product =>
          obtain ⟨bound, node⟩ := Expression.node?_eq_some product
          split at accepted
          · split at accepted
            · next sameDims =>
                obtain ⟨_, small, accepted⟩ := bind_eq_ok_iff.1 accepted
                cases accepted
                have sides := And.intro (congrArg Node.lhs node) (congrArg Node.rhs node)
                exact {
                  out := ⟨expression, listed, Expression.holds_of_root_lhs target⟩
                  x := ⟨expression, listed, _, bound, .inl sides.1⟩
                  y := ⟨expression, listed, _, bound, .inr sides.2⟩
                  sameDims := sameDims
                  reachable := Buffer.reachable_of_checkExtent small }
            · simp at accepted
          · simp at accepted
      · simp at accepted
  · simp at accepted

end InnerProduct

namespace MatrixVector

/-- What the checks of a matrix-vector product promise about its operands. -/
structure Operands.Checked (axis : Axis) (batch : Batch) (operands : Operands) : Prop where
  out : batch.Holds operands.out
  matrix : batch.Holds operands.matrix
  x : batch.Holds operands.x
  elements : operands.matrix.extent.elements = operands.matrix.rows * operands.matrix.columns
  inputs : operands.x.extent.elements =
    (extents axis operands.matrix.rows operands.matrix.columns).2
  outputs : operands.out.extent.elements =
    (extents axis operands.matrix.rows operands.matrix.columns).1
  reachableX : operands.x.Reachable
  reachableOut : operands.out.Reachable

theorem checked_of_operands {axis : Axis} {batch : Batch} {found : Operands}
    (accepted : operands axis batch = .ok found) : found.Checked axis batch := by
  obtain ⟨expression, only, accepted⟩ := bind_eq_ok_iff.1 accepted
  have listed := Batch.onlyExpression_eq_ok only
  split at accepted
  · next isAssign target isNode =>
      split at accepted
      · next product =>
          obtain ⟨bound, node⟩ := Expression.node?_eq_some product
          split at accepted
          · split at accepted
            · next left right =>
                split at accepted
                · next isMatrix =>
                    obtain ⟨_, _, accepted⟩ := bind_eq_ok_iff.1 accepted
                    obtain ⟨_, xSmall, accepted⟩ := bind_eq_ok_iff.1 accepted
                    obtain ⟨_, outSmall, accepted⟩ := bind_eq_ok_iff.1 accepted
                    simp only at accepted
                    split at accepted
                    · next sizes =>
                        cases accepted
                        have reachableX := Buffer.reachable_of_checkExtent xSmall
                        have reachableOut := Buffer.reachable_of_checkExtent outSmall
                        rw [← node] at left right
                        rw [reachableX.length_eq, reachableOut.length_eq] at sizes
                        exact {
                          out := ⟨expression, listed, Expression.holds_of_root_lhs target⟩
                          matrix := ⟨expression, listed, _, bound, .inl left⟩
                          x := ⟨expression, listed, _, bound, .inr right⟩
                          elements := Buffer.elements_of_matrix isMatrix
                          inputs := sizes.1
                          outputs := sizes.2
                          reachableX := reachableX
                          reachableOut := reachableOut }
                    · simp at accepted
                · simp at accepted
            · simp at accepted
          · simp at accepted
      · simp at accepted
  · simp at accepted

end MatrixVector

namespace MatrixProduct

/-- What the checks of a matrix product promise about its operands. -/
structure Operands.Checked (batch : Batch) (operands : Operands) : Prop where
  c : batch.Holds operands.c
  a : batch.Holds operands.a
  b : batch.Holds operands.b
  elementsC : operands.c.extent.elements = operands.m * operands.n
  elementsA : operands.a.extent.elements = operands.m * operands.k
  elementsB : operands.b.extent.elements = operands.k * operands.n
  reachableC : operands.c.Reachable
  reachableA : operands.a.Reachable
  reachableB : operands.b.Reachable
  rows : operands.m = operands.c.rows
  columns : operands.n = operands.c.columns
  inner : operands.k < Size.wordCount

theorem readDims_elements {buffer : Buffer} (matrix : buffer.rank = 2) (transposed : Bool) :
    buffer.extent.elements = (readDims buffer transposed).1 * (readDims buffer transposed).2 := by
  rw [Buffer.elements_of_matrix matrix]
  cases transposed with
  | false => rfl
  | true => exact Nat.mul_comm _ _

theorem readDims_columns_lt (buffer : Buffer) (transposed : Bool) :
    (readDims buffer transposed).2 < Size.wordCount := by
  cases transposed with
  | false => exact buffer.columns_lt
  | true => exact buffer.rows_lt

theorem checked_of_conforming {batch : Batch} {c a b : Buffer} {transposedA transposedB : Bool}
    {found : Operands} (heldC : batch.Holds c) (heldA : batch.Holds a) (heldB : batch.Holds b)
    (conforms : conforming c a b transposedA transposedB = .ok found) : found.Checked batch := by
  unfold conforming at conforms
  by_cases unshaped : c.rank ≠ 2 ∨ a.rank ≠ 2 ∨ b.rank ≠ 2
  · rw [if_pos unshaped] at conforms
    cases conforms
  · rw [if_neg unshaped] at conforms
    have matrixC : c.rank = 2 := by omega
    have matrixA : a.rank = 2 := by omega
    have matrixB : b.rank = 2 := by omega
    obtain ⟨_, smallC, conforms⟩ := bind_eq_ok_iff.1 conforms
    obtain ⟨_, smallA, conforms⟩ := bind_eq_ok_iff.1 conforms
    obtain ⟨_, smallB, conforms⟩ := bind_eq_ok_iff.1 conforms
    simp only at conforms
    split at conforms
    · next sizes =>
        cases conforms
        obtain ⟨rowsA, columnsB, rowsB⟩ := sizes
        exact {
          c := heldC
          a := heldA
          b := heldB
          elementsC := Buffer.elements_of_matrix matrixC
          elementsA := by rw [readDims_elements matrixA transposedA, rowsA]
          elementsB := by rw [readDims_elements matrixB transposedB, rowsB, columnsB]
          reachableC := Buffer.reachable_of_checkExtent smallC
          reachableA := Buffer.reachable_of_checkExtent smallA
          reachableB := Buffer.reachable_of_checkExtent smallB
          rows := rfl
          columns := rfl
          inner := readDims_columns_lt a transposedA }
    · simp at conforms

theorem checked_of_operands {params : MatrixProduct} {batch : Batch} {found : Operands}
    (accepted : params.operands batch = .ok found) : found.Checked batch := by
  obtain ⟨expression, only, accepted⟩ := bind_eq_ok_iff.1 accepted
  have listed := Batch.onlyExpression_eq_ok only
  split at accepted
  · next isAssign target isNode =>
      split at accepted
      · next product =>
          obtain ⟨bound, node⟩ := Expression.node?_eq_some product
          split at accepted
          · simp at accepted
          · next a transposedA left =>
              split at accepted
              · simp at accepted
              · next b transposedB right =>
                  split at accepted
                  · have heldA : expression.Holds a :=
                      Expression.holds_of_bufferOperand (.inl (congrArg Node.lhs node)) left
                    have heldB : expression.Holds b :=
                      Expression.holds_of_bufferOperand (.inr (congrArg Node.rhs node)) right
                    exact checked_of_conforming
                      ⟨expression, listed, Expression.holds_of_root_lhs target⟩
                      ⟨expression, listed, heldA⟩ ⟨expression, listed, heldB⟩ accepted
                  · simp at accepted
      · simp at accepted
  · simp at accepted

end MatrixProduct

/-! ### Arguments -/

/-- Whether the argument is a buffer that the batch holds, or no buffer. -/
def Argument.HeldBy (batch : Batch) : Argument → Prop
  | .buffer id => ∃ handle, batch.Holds handle ∧ handle.id = id
  | _ => True

theorem Bindings.arguments_heldBy (batch : Batch) :
    ∀ argument ∈ (collect batch).arguments, argument.HeldBy batch := by
  refine List.forall_mem_map.2 fun leaf bound => ?_
  cases leaf with
  | buffer handle => exact ⟨handle, Batch.holds_of_leaf (Batch.leaf_of_parameter bound), rfl⟩
  | scalar elementType value => trivial

/-- The launches of a plan are passed buffers of the batch only. -/
theorem Variant.arguments_heldBy {variant : Variant} {index : Nat} {batch : Batch}
    {plan : LaunchPlan} (planned : variant.plan index batch = .ok plan) :
    ∀ launch ∈ plan.launches, ∀ argument ∈ launch.arguments, argument.HeldBy batch := by
  have held (handle : Buffer) (holds : batch.Holds handle) :
      (Argument.buffer handle.id).HeldBy batch := ⟨handle, holds, rfl⟩
  cases variant with
  | vectorUpdate params =>
      obtain ⟨length, _, planned⟩ := bind_eq_ok_iff.1 planned
      cases planned
      simpa [Argument.HeldBy] using Bindings.arguments_heldBy batch
  | matrixUpdate params =>
      obtain ⟨dims, _, planned⟩ := bind_eq_ok_iff.1 planned
      cases planned
      simpa [Argument.HeldBy] using Bindings.arguments_heldBy batch
  | innerProduct params =>
      obtain ⟨operands, accepted, planned⟩ := bind_eq_ok_iff.1 planned
      have checked := InnerProduct.checked_of_operands accepted
      cases planned
      have first := And.intro (held _ checked.x) (held _ checked.y)
      simpa [Argument.HeldBy] using And.intro first (held _ checked.out)
  | matrixVector params =>
      obtain ⟨operands, accepted, planned⟩ := bind_eq_ok_iff.1 planned
      have checked := MatrixVector.checked_of_operands accepted
      cases planned
      have inputs := And.intro (held _ checked.matrix) (held _ checked.x)
      simpa [Argument.HeldBy, and_assoc] using And.intro inputs (held _ checked.out)
  | matrixProduct params =>
      obtain ⟨operands, accepted, planned⟩ := bind_eq_ok_iff.1 planned
      obtain ⟨path, _, planned⟩ := bind_eq_ok_iff.1 planned
      have checked := MatrixProduct.checked_of_operands accepted
      cases planned
      have inputs := And.intro (held _ checked.a) (held _ checked.b)
      simpa [Argument.HeldBy] using And.intro (held _ checked.c) inputs

end KernelTuner
