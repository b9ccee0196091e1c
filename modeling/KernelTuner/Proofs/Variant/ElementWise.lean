import KernelTuner.Proofs.Expression.Balance
import KernelTuner.Proofs.Variant.Correspondence
import KernelTuner.Proofs.Variant.Targets
import KernelTuner.Variant.Basic

/-!
Contract: element-wise kernels launched for another batch than they were emitted from.

Owns: the place of the scalar statements in the kernels of element-wise variants; what
it means that a kernel serves a batch; and `emit_serves_launch`, by which the kernel
emitted from one batch serves every batch of the same name that its size check accepts.
-/

set_option autoImplicit false

namespace KernelTuner

/-! ### Scalar statements -/

theorem Tree.Infix.elementWise {element text : String} {tree : Tree} {places : List Nat}
    (written : tree.Infix element places text) : tree.ElementWise := by
  induction written with
  | buffer handle place => trivial
  | scalar elementType value place => trivial
  | node means _ _ lhsHypothesis rhsHypothesis =>
      exact ⟨by rw [Operator.isElementWise, means]; rfl, lhsHypothesis, rhsHypothesis⟩

theorem Tree.Stores.updates {element : String} {trees : List Tree} {places : List Nat}
    {texts : List String} (written : Stores element trees places texts) :
    ∀ tree ∈ trees, tree.Update := by
  induction written with
  | nil => exact nofun
  | cons first _ inductionHypothesis =>
      intro tree member
      rcases List.mem_cons.1 member with rfl | later
      · cases first with
        | assign target place valueText => exact valueText.elementWise
      · exact inductionHypothesis tree later

namespace Variant

/-- Whether the kernels of the variant evaluate expressions element by element. -/
def IsElementWise : Variant → Prop
  | vectorUpdate _ => True
  | matrixUpdate _ => True
  | _ => False

/-- The index at which scalar statements read and write buffers. -/
def elementIndex : Variant → Kernel.Index
  | matrixUpdate _ => .add (.mul (.var "i") (.var "N")) (.var "j")
  | _ => .var "i"

/-- The parameters in front of those for leaves. -/
def sizeParameters : Variant → List Kernel.Parameter
  | vectorUpdate _ => [.size "N"]
  | matrixUpdate _ => [.size "M", .size "N"]
  | _ => []

/-- The entry point of an element-wise variant. -/
def updateEntry : Variant → Nat → String
  | matrixUpdate _, index => MatrixUpdate.entry index
  | _, index => VectorUpdate.entry index

open Kernel in
/-- Kernel bodies whose scalar statements are `statements`. A vector update of several
lanes runs them on what its vector loop leaves. -/
inductive ScalarLoop (statements : List Statement) : Variant → List Statement → Prop where
  | range {params : VectorUpdate} (narrow : ¬ 1 < params.simdWidth) :
      ScalarLoop statements (.vectorUpdate params)
        [rangeLoop params.fetch "i" (.var "N") 0 statements]
  | tail {params : VectorUpdate} (wide : 1 < params.simdWidth) (vector : List Statement) :
      ScalarLoop statements (.vectorUpdate params)
        [rangeLoop params.fetch "i" (.div (.var "N") (.literal params.simdWidth)) 0 vector,
          tailLoop params.simdWidth statements]
  | rows {params : MatrixUpdate} (hints : List Statement) :
      ScalarLoop statements (.matrixUpdate params)
        [rangeLoop params.fetch "i" (.var "M") 0
          (hints ++ [rangeLoop params.fetch "j" (.var "N") 1 statements])]

/-- What an element-wise kernel consists of, in terms of the batch it is emitted from. -/
theorem emit_elementWise {variant : Variant} {index : Nat} {batch : Batch} {emission : Emission}
    (elementWise : variant.IsElementWise) (emits : variant.emit index batch = .ok emission) :
    ∃ (kernel : Kernel) (statements : List Kernel.Statement),
      emission.primary = [kernel] ∧ emission.fallback = none ∧
      kernel.name = variant.updateEntry index ∧
      kernel.parameters = variant.sizeParameters ++ (Bindings.collect batch).declarations ∧
      (Bindings.collect batch).statements batch (.element variant.elementIndex) =
        .ok statements ∧
      ScalarLoop statements variant kernel.body := by
  cases variant with
  | vectorUpdate params =>
      obtain ⟨statements, stated, emits⟩ := bind_eq_ok_iff.1 emits
      by_cases wide : 1 < params.simdWidth
      · rw [if_pos wide] at emits
        obtain ⟨vector, _, emits⟩ := bind_eq_ok_iff.1 emits
        cases emits
        exact ⟨_, statements, rfl, rfl, rfl, rfl, stated, .tail wide vector⟩
      · rw [if_neg wide] at emits
        cases emits
        exact ⟨_, statements, rfl, rfl, rfl, rfl, stated, .range wide⟩
  | matrixUpdate params =>
      obtain ⟨statements, stated, emits⟩ := bind_eq_ok_iff.1 emits
      cases emits
      exact ⟨_, statements, rfl, rfl, rfl, rfl, stated, .rows _⟩
  | innerProduct params => exact elementWise.elim
  | matrixVector params => exact elementWise.elim
  | matrixProduct params => exact elementWise.elim

end Variant

/-! ### Size checks -/

namespace Expression

theorem operandTree_buffer {expression : Expression} {index : Nat}
    {inside : index < expression.nodes.size} {operand : Operand} {handle : Buffer}
    {admissible : operand.Admissible expression.context index} (same : operand = .buffer handle) :
    expression.operandTree inside operand admissible = .buffer handle := by
  subst same
  rfl

theorem assignsBuffer_node {operator : Operator} {lhs rhs : Tree} {target : Buffer}
    (isAssign : operator = .assign) (isBuffer : lhs = .buffer target) :
    (Tree.node operator lhs rhs).AssignsBuffer := by
  subst isAssign isBuffer
  trivial

theorem assignsBuffer_of_assigned? {expression : Expression} {target : Buffer}
    (assigned : expression.assigned? = some target) : expression.tree.AssignsBuffer := by
  unfold assigned? at assigned
  split at assigned
  · next isAssign isBuffer =>
      rw [tree_eq]
      exact assignsBuffer_node isAssign (operandTree_buffer isBuffer)
  · simp at assigned

end Expression

namespace Variant

/-- The size check of an element-wise variant accepts assignments to buffers only. -/
theorem assigned_of_sizes {variant : Variant} {batch : Batch} {shape : Shape}
    (elementWise : variant.IsElementWise) (accepts : variant.sizes batch = .ok shape) :
    ∀ tree ∈ batch.trees, tree.AssignsBuffer := by
  have assigned : ∀ expression ∈ batch.expressions,
      ∃ target, expression.assigned? = some target := by
    cases variant with
    | vectorUpdate params =>
        obtain ⟨_, checked, _⟩ := bind_eq_ok_iff.1 accepts
        intro expression member
        obtain ⟨target, found, _⟩ := VectorUpdate.targets_of_length checked expression member
        exact ⟨target, found⟩
    | matrixUpdate params =>
        obtain ⟨⟨_, _⟩, checked, _⟩ := bind_eq_ok_iff.1 accepts
        intro expression member
        obtain ⟨target, found, _⟩ := MatrixUpdate.targets_of_dims checked expression member
        exact ⟨target, found⟩
    | innerProduct params => exact elementWise.elim
    | matrixVector params => exact elementWise.elim
    | matrixProduct params => exact elementWise.elim
  intro tree member
  obtain ⟨expression, expressionMember, rfl⟩ := List.mem_map.1 member
  obtain ⟨target, found⟩ := assigned expression expressionMember
  exact Expression.assignsBuffer_of_assigned? found

/-- What is launched for a batch whose sizes an element-wise variant accepts. -/
theorem plan_elementWise {variant : Variant} {index : Nat} {batch : Batch} {shape : Shape}
    (elementWise : variant.IsElementWise) (accepts : variant.sizes batch = .ok shape) :
    ∃ (launch : PlannedLaunch) (counts : List Nat),
      variant.plan index batch = .ok ⟨.primary, [launch]⟩ ∧
      launch.kernel = variant.updateEntry index ∧
      counts.length = variant.sizeParameters.length ∧
      launch.arguments = counts.map .size ++ (Bindings.collect batch).arguments := by
  cases variant with
  | vectorUpdate params =>
      obtain ⟨length, checked, _⟩ := bind_eq_ok_iff.1 accepts
      exact ⟨_, [length], bind_eq_ok_iff.2 ⟨length, checked, rfl⟩, rfl, rfl, rfl⟩
  | matrixUpdate params =>
      obtain ⟨⟨rows, columns⟩, checked, _⟩ := bind_eq_ok_iff.1 accepts
      exact ⟨_, [rows, columns], bind_eq_ok_iff.2 ⟨(rows, columns), checked, rfl⟩, rfl, rfl, rfl⟩
  | innerProduct params => exact elementWise.elim
  | matrixVector params => exact elementWise.elim
  | matrixProduct params => exact elementWise.elim

/-! ### Kernels of other batches -/

/-- A kernel serves a batch when its scalar statements are the stores that the
expressions of the batch amount to, every leaf is written as the parameter for which a
launch of the batch passes that leaf, and two leaves share a parameter only as
occurrences of one buffer. -/
structure Serves (variant : Variant) (kernel : Kernel) (batch : Batch) : Prop where
  parameters :
    kernel.parameters = variant.sizeParameters ++ (Bindings.collect batch).declarations
  stores : ∃ stores : List Kernel.Instruction,
    variant.ScalarLoop (stores.map .run) kernel.body ∧
      Tree.Stores variant.elementIndex.text batch.trees batch.places
        (stores.map Kernel.Instruction.text)
  arguments : ∀ (index : Nat) (leaf : Leaf), batch.leaves[index]? = some leaf →
    ∃ place, batch.places[index]? = some place ∧
      (Bindings.collect batch).arguments[place]? = some leaf.argument
  sharing : ∀ (first second : Nat) (left right : Leaf), batch.leaves[first]? = some left →
    batch.leaves[second]? = some right →
      (batch.places[first]? = batch.places[second]? ↔
        first = second ∨
          ∃ one other, left = .buffer one ∧ right = .buffer other ∧ one.id = other.id)

theorem places_getElem? {batch : Batch} {index : Nat} {leaf : Leaf}
    (found : batch.leaves[index]? = some leaf) :
    batch.places[index]? = some (Bindings.place batch.leaves (leaf.occurrence index)) := by
  rw [Batch.places, List.getElem?_map, getElem?_occurrencesFrom, found, Nat.zero_add]
  rfl

/-- The kernel that an element-wise variant emits from one batch serves every batch of
the same name whose sizes the variant accepts. The two batches have equally many
expressions, their kernels declare the same parameters, and the launch passes its sizes
first and then the leaves. -/
theorem emit_serves_launch {variant : Variant} {index : Nat} {emitted launched : Batch}
    {name : Fingerprint} {emission : Emission} {shape : Shape}
    (elementWise : variant.IsElementWise)
    (emittedName : emitted.programName = .ok name)
    (launchedName : launched.programName = .ok name)
    (emits : variant.emit index emitted = .ok emission)
    (accepts : variant.sizes launched = .ok shape) :
    launched.expressions.length = emitted.expressions.length ∧
      (Bindings.collect launched).declarations = (Bindings.collect emitted).declarations ∧
      (∃ kernel, emission.primary = [kernel] ∧ emission.fallback = none ∧
        kernel.name = variant.updateEntry index ∧ variant.Serves kernel launched) ∧
      ∃ (launch : PlannedLaunch) (counts : List Nat),
        variant.plan index launched = .ok ⟨.primary, [launch]⟩ ∧
        launch.kernel = variant.updateEntry index ∧
        counts.length = variant.sizeParameters.length ∧
        launch.arguments = counts.map .size ++ (Bindings.collect launched).arguments := by
  obtain ⟨kernel, statements, primary, fallback, entry, parameters, stated, looped⟩ :=
    emit_elementWise elementWise emits
  obtain ⟨stores, rfl, written⟩ := Batch.stores_of_statements stated
  have ownStores : Tree.Stores variant.elementIndex.text emitted.trees emitted.places
      (stores.map Kernel.Instruction.text) := written
  obtain ⟨_, sameTokens⟩ := Batch.tokens_eq_of_programName_eq emittedName launchedName
  obtain ⟨rename, alike⟩ := Batch.tokens_eq_iff_alike.1 sameTokens
  have treesAlike : List.Forall₂ (Tree.Alike rename) emitted.trees launched.trees := by
    apply Tree.alike_of_updates ownStores.updates (assigned_of_sizes elementWise accepts)
    rw [← Batch.symbols_eq_flatMap, ← Batch.symbols_eq_flatMap]
    exact alike.symbols
  have sameCount : launched.expressions.length = emitted.expressions.length := by
    simpa [Batch.trees] using treesAlike.length_eq.symm
  have sameDeclarations := alike.declarations_eq
  refine ⟨sameCount, sameDeclarations.symm, ⟨kernel, primary, fallback, entry, ?_⟩,
    plan_elementWise elementWise accepts⟩
  refine ⟨?parameters, ⟨stores, looped, ?stores⟩, ?arguments, ?sharing⟩
  case parameters => rw [parameters, sameDeclarations]
  case stores =>
    rw [← alike.places_eq]
    exact ownStores.of_alike treesAlike
  case arguments =>
    intro position leaf found
    exact ⟨_, places_getElem? found, Bindings.argument_at_place found⟩
  case sharing =>
    intro first second left right leftFound rightFound
    rw [places_getElem? leftFound, places_getElem? rightFound, Option.some_inj]
    exact Bindings.place_eq_iff leftFound rightFound

section Scaling

open Batch

variable {target x : BufferId} {length : UInt64} {factor : Float}

/-- Strided updates of one lane. -/
def streaming : Variant := .vectorUpdate ⟨1, 64, 128, .strided⟩

theorem scaling_collect (apart : target ≠ x) :
    Bindings.collect (scaling target x length factor) =
      ⟨[.buffer ⟨target, .f32, .vector length, ⟨1⟩⟩, .buffer ⟨x, .f32, .vector length, ⟨1⟩⟩,
        .scalar .f32 factor]⟩ := by
  have collect : Bindings.collect (scaling target x length factor) =
      Bindings.collected ((scaling target x length factor).first.tree.leaves ++ []) := rfl
  rw [collect, scaling_tree]
  simp [Bindings.collected, Tree.leaves, Bindings.bind, Leaf.isBuffer, apart]

/-- The scaling is stated in whatever way its buffers are reached. -/
theorem scaling_stated (apart : target ≠ x) (access : Access) :
    ∃ statements, (Bindings.collect (scaling target x length factor)).statements
      (scaling target x length factor) access = .ok statements := by
  have trees : (scaling target x length factor).expressions.map Expression.tree =
      [(scaling target x length factor).first.tree] := rfl
  rw [Bindings.statements, trees, scaling_tree, scaling_collect apart]
  simp [Bindings.statementsFrom, Bindings.statement, Bindings.nameOf, Bindings.position?,
    Bindings.scalarPositions, Bindings.render, List.findIdx?_cons, Leaf.isBuffer, apart,
    Leaf.isScalar, Operator.arithmetic?, Except.bind, pure, Except.pure, bind]

theorem scaling_emits (apart : target ≠ x) :
    ∃ emission, streaming.emit 0 (scaling target x length factor) = .ok emission := by
  obtain ⟨statements, stated⟩ := scaling_stated apart (.element (.var "i"))
  exact ⟨_, bind_eq_ok_iff.2 ⟨statements, stated, rfl⟩⟩

theorem scaling_sizes : streaming.sizes (scaling target x 8 factor) = .ok ⟨[8]⟩ := by
  have assigned : (scaling target x 8 factor).first.assigned? =
      some ⟨target, .f32, .vector 8, ⟨1⟩⟩ := rfl
  have product : checkedProduct "buffer dims" [8] = .ok 8 := by
    simp [checkedProduct, Size.kernelLimit]
  have checked : VectorUpdate.targetLength (scaling target x 8 factor).first = .ok 8 := by
    rw [VectorUpdate.targetLength, assigned]
    exact bind_eq_ok_iff.2 ⟨(), bind_eq_ok_iff.2 ⟨8, product, rfl⟩, rfl⟩
  have common : VectorUpdate.length (scaling target x 8 factor) = .ok 8 :=
    bind_eq_ok_iff.2 ⟨8, checked, bind_eq_ok_iff.2 ⟨(), rfl, rfl⟩⟩
  exact bind_eq_ok_iff.2 ⟨8, common, rfl⟩

/-- A kernel emitted for vectors of length four runs on two other vectors of length
eight, with another factor. -/
theorem scaling_serves_rescaling :
    streaming.IsElementWise ∧
      (scaling ⟨0⟩ ⟨1⟩ 4 2).programName = .ok ⟨"sasvf0scvf1hf"⟩ ∧
      (scaling ⟨7⟩ ⟨5⟩ 8 3).programName = .ok ⟨"sasvf0scvf1hf"⟩ ∧
      streaming.sizes (scaling ⟨7⟩ ⟨5⟩ 8 3) = .ok ⟨[8]⟩ ∧
      ∃ emission kernel, streaming.emit 0 (scaling ⟨0⟩ ⟨1⟩ 4 2) = .ok emission ∧
        emission.primary = [kernel] ∧ streaming.Serves kernel (scaling ⟨7⟩ ⟨5⟩ 8 3) := by
  have emittedName : (scaling ⟨0⟩ ⟨1⟩ 4 2).programName = .ok ⟨"sasvf0scvf1hf"⟩ :=
    scaling_programName (by decide)
  have launchedName : (scaling ⟨7⟩ ⟨5⟩ 8 3).programName = .ok ⟨"sasvf0scvf1hf"⟩ :=
    scaling_programName (by decide)
  have elementWise : streaming.IsElementWise := trivial
  have emitted : ∃ emission, streaming.emit 0 (scaling ⟨0⟩ ⟨1⟩ 4 2) = .ok emission :=
    scaling_emits (by decide)
  obtain ⟨emission, emits⟩ := emitted
  obtain ⟨_, _, ⟨kernel, primary, _, _, serves⟩, _⟩ :=
    emit_serves_launch elementWise emittedName launchedName emits scaling_sizes
  exact ⟨elementWise, emittedName, launchedName, scaling_sizes, emission, kernel, emits, primary,
    serves⟩

end Scaling

end Variant

end KernelTuner
