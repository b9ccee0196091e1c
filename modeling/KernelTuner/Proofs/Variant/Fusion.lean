import KernelTuner.Proofs.Variant.Inside
import KernelTuner.Proofs.Variant.StoreMeaning
import KernelTuner.Proofs.Variant.Streams

/-!
Contract: element-wise kernels compute what their batch means.

Owns: the turns of the loops of element-wise kernels, one for each index, and the elements that
a turn stands for; runs of turns one after another, by any work items; and
`Variant.runs_evaluate`, by which the turns leave behind, in whatever order they are taken, what
the expressions of the batch do one after another over whole arrays.

Does not own: which work item takes which turn (`Proofs.Variant.Streams`).
-/

set_option autoImplicit false

namespace KernelTuner

open Kernel

/-! ### Turns -/

/-- A turn of the loops of an element-wise kernel. -/
inductive Turn where
  /-- For the element at this index. -/
  | element (index : Nat)
  /-- For the vector of this width at this index. -/
  | vector (width index : Nat)
  /-- For the element in this row and column of a matrix. -/
  | cell (columns row column : Nat)

namespace Turn

/-- How the statements of the turn reach elements. -/
def access : Turn → Access
  | element _ => .element (.var "i")
  | vector width _ => .vector width
  | cell _ _ _ => .element (.add (.mul (.var "i") (.var "N")) (.var "j"))

/-- The variables have the values of the turn. -/
def Binds (locals : Variables) : Turn → Prop
  | element index => locals "i" = index
  | vector _ index => locals "i" = index
  | cell columns row column => locals "i" = row ∧ locals "j" = column ∧ locals "N" = columns

/-- The elements that the turn stands for. -/
def block : Turn → List Nat
  | element index => [index]
  | vector width index => List.range' (width * index) width
  | cell columns row column => [row * columns + column]

variable {turn : Turn} {seat : Seat} {locals : Variables}

theorem exists_binds (turn : Turn) : ∃ locals, turn.Binds locals := by
  cases turn with
  | element index => exact ⟨fun _ => index, rfl⟩
  | vector width index => exact ⟨fun _ => index, rfl⟩
  | cell columns row column =>
      refine ⟨fun name => if name = "i" then row else if name = "j" then column else columns, ?_⟩
      simp [Binds]

theorem access_block (binds : turn.Binds locals) :
    turn.access.block seat locals = turn.block := by
  cases turn with
  | element index => simp_all [Access.block, Access.lanes, Access.elementAt, access, block, Binds,
      Index.eval]
  | vector width index =>
      have counter : locals "i" = index := binds
      rw [block, List.range'_eq_map_range, ← counter]
      rfl
  | cell columns row column =>
      obtain ⟨rfl, rfl, rfl⟩ := binds
      rfl

end Turn

/-- The turns of an update of `count` elements: one for each whole vector and one for each
element behind them, or one for each element. -/
def VectorUpdate.turns (params : VectorUpdate) (count : Nat) : List Turn :=
  if 1 < params.simdWidth then
    (List.range (count / params.simdWidth)).map (.vector params.simdWidth) ++
      (List.range' (count / params.simdWidth * params.simdWidth)
        (count % params.simdWidth)).map .element
  else (List.range count).map .element

/-- The turns of an update of a matrix: one for each row and column. -/
def MatrixUpdate.turns (rows columns : Nat) : List Turn :=
  (List.range rows).flatMap fun row => (List.range columns).map (.cell columns row)

/-- The turns of an element-wise variant that is launched with these sizes. -/
def Variant.turns : Variant → List Nat → List Turn
  | vectorUpdate params, [count] => params.turns count
  | matrixUpdate _, [rows, columns] => MatrixUpdate.turns rows columns
  | _, _ => []

theorem VectorUpdate.flatMap_turns (params : VectorUpdate) (count : Nat) :
    (params.turns count).flatMap Turn.block = List.range count := by
  have elements (indices : List Nat) :
      (indices.map Turn.element).flatMap Turn.block = indices := by
    simp [List.flatMap_map, Turn.block]
  unfold turns
  split
  · rw [List.flatMap_append, elements, List.flatMap_map]
    exact (congrArg (· ++ _) (Stream.flatMap_vectors _ _)).trans
      (Stream.range_append_tail params.simdWidth count)
  · exact elements _

theorem MatrixUpdate.flatMap_turns (rows columns : Nat) :
    (turns rows columns).flatMap Turn.block = List.range (rows * columns) := by
  rw [turns, List.flatMap_assoc, ← Stream.flatMap_vectors columns rows]
  apply List.flatMap_congr
  intro row _
  rw [List.flatMap_map, List.range'_eq_map_range, Nat.mul_comm columns row]
  exact List.map_eq_flatMap.symm

/-! ### Runs -/

section Runs

variable {α : Type} {meaning : Meaning α} {constant : ElementType → Float → α} {batch : Batch}
  {contents : Elements α} {before after : Memory α} {order : List Turn}

/-- Turns one after another lead from one memory to another. Any work item may take a turn, with
any other variables. -/
inductive Batch.Runs (meaning : Meaning α) (batch : Batch) :
    List Turn → Memory α → Memory α → Prop where
  | done (memory : Memory α) : Runs meaning batch [] memory memory
  | turn {turn : Turn} {rest : List Turn} {seat : Seat} {locals : Variables}
      {statements : List Statement} {steps : List Step} {memory after : Memory α}
      (binds : turn.Binds locals)
      (stated : (Bindings.collect batch).statements batch turn.access = .ok statements)
      (unrolls : blockUnrolls seat locals statements steps)
      (later : Runs meaning batch rest (performAll meaning seat memory steps) after) :
      Runs meaning batch (turn :: rest) memory after

/-- The turns can be run in any order, and then leave in every buffer what the expressions of the
batch do one after another over whole arrays. -/
def Batch.ComputedBy (batch : Batch) (turns : List Turn) : Prop :=
  ∀ {α : Type} (meaning : Meaning α) (constant : ElementType → Float → α)
    (contents : Elements α) (before : Memory α) (order : List Turn), order.Perm turns →
    (Bindings.collect batch).Loads constant contents before →
      (∃ after, batch.Runs meaning order before after) ∧
      ∀ after, batch.Runs meaning order before after →
        (Bindings.collect batch).Loads constant (batch.evaluate meaning constant contents) after

/-- A single value is assigned only in a turn that stands for its only element. -/
def Turn.Suits (turn : Turn) (batch : Batch) : Prop :=
  ∀ target rhs, .node .assign (.buffer target) rhs ∈ batch.trees → target.rank = 0 →
    turn.block = [0]

/-- Turns that can be stated can be run. -/
theorem Batch.exists_run
    (stated : ∀ turn ∈ order, ∃ statements,
      (Bindings.collect batch).statements batch turn.access = .ok statements)
    (before : Memory α) : ∃ after, batch.Runs meaning order before after := by
  induction order generalizing before with
  | nil => exact ⟨before, .done before⟩
  | cons turn rest inductionHypothesis =>
      obtain ⟨⟨statements, first⟩, later⟩ := List.forall_mem_cons.1 stated
      obtain ⟨locals, binds⟩ := turn.exists_binds
      let seat : Seat := fun _ _ => 0
      obtain ⟨steps, unrolls⟩ : ∃ steps, blockUnrolls seat locals statements steps :=
        Batch.exists_steps first
      obtain ⟨after, runs⟩ := inductionHypothesis later (performAll meaning seat before steps)
      exact ⟨after, .turn binds first unrolls runs⟩

/-- Turns do to memory what the batch assigns block by block. -/
theorem Batch.Runs.loads (runs : batch.Runs meaning order before after)
    (suits : ∀ turn ∈ order, turn.Suits batch)
    (loads : (Bindings.collect batch).Loads constant contents before) :
    (Bindings.collect batch).Loads constant
      (assignBlocks meaning constant (order.map Turn.block) contents batch.trees) after := by
  induction runs generalizing contents with
  | done memory => exact loads
  | @turn turn rest seat locals statements steps memory after binds stated unrolls _
      inductionHypothesis =>
      obtain ⟨own, later⟩ := List.forall_mem_cons.1 suits
      apply inductionHypothesis later
      rw [← turn.access_block binds]
      apply Batch.loads_of_statements stated _ unrolls loads
      intro target rhs member single
      rw [turn.access_block binds]
      exact own target rhs member single

/-- Turns that have each element once, in any order, do to memory what the batch means. -/
theorem Batch.Runs.evaluate {turns : List Turn} {count : Nat}
    (runs : batch.Runs meaning order before after) (aligned : Aligned batch.trees count)
    (covers : turns.flatMap Turn.block = List.range count)
    (suits : ∀ turn ∈ turns, turn.Suits batch) (reordered : order.Perm turns)
    (loads : (Bindings.collect batch).Loads constant contents before) :
    (Bindings.collect batch).Loads constant (batch.evaluate meaning constant contents) after := by
  have blocks : (order.map Turn.block).flatten.Perm (List.range count) := by
    rw [← List.flatMap_def, ← covers]
    exact List.Perm.flatMap_right _ reordered
  rw [← Batch.evaluate_blocks aligned blocks]
  exact runs.loads (fun turn member => suits turn (reordered.mem_iff.1 member)) loads

end Runs

/-! ### Kernels -/

/-- Statements are the body of a loop of the kernel, or of a loop right inside one. -/
def Kernel.Repeats (kernel : Kernel) (statements : List Statement) : Prop :=
  statements ∈ blockBodies kernel.body ∨
    ∃ body ∈ blockBodies kernel.body, statements ∈ blockBodies body

section Batches

variable {batch : Batch} {count : Nat}

theorem Batch.aligned_of_targets (coherent : batch.Coherent)
    (targets : ∀ expression ∈ batch.expressions, ∃ target,
      expression.assigned? = some target ∧ target.extent.elements = count) :
    Aligned batch.trees count where
  targets := by
    intro target rhs member
    obtain ⟨expression, listed, same⟩ := List.mem_map.1 member
    obtain ⟨assigned, found, elements⟩ := targets expression listed
    obtain ⟨rest, leaves⟩ := Expression.leaves_of_assigned found
    rw [same] at leaves
    have first : target = assigned := Leaf.buffer.inj (List.cons.inj leaves).1
    rw [first, elements]
  coherent := by
    have flattened : batch.trees.flatMap Tree.leaves = batch.leaves := List.flatMap_map ..
    rw [flattened]
    intro handle other leaf otherLeaf same
    exact coherent handle other (Batch.holds_of_leaf leaf) (Batch.holds_of_leaf otherLeaf) same

/-- Where single values are assigned there is one element, for which every turn stands. -/
theorem Batch.suits_of_covers {turns : List Turn} (aligned : Aligned batch.trees count)
    (covers : turns.flatMap Turn.block = List.range count)
    (nonempty : ∀ turn ∈ turns, turn.block ≠ []) : ∀ turn ∈ turns, turn.Suits batch := by
  intro turn member target rhs assigns single
  have one : count = 1 := by
    rw [← aligned.targets target rhs assigns, Buffer.elements_of_single single]
  have within : turn.block.Sublist [0] := by
    rw [← List.range_one, ← one, ← covers, List.flatMap_def]
    exact List.sublist_flatten_of_mem (List.mem_map_of_mem member)
  exact (List.sublist_singleton.1 within).resolve_left (nonempty turn member)

end Batches

/-- A turn has elements, and its statements are repeated by the kernel. -/
def Turn.Repeated (turn : Turn) (batch : Batch) (kernel : Kernel) : Prop :=
  turn.block ≠ [] ∧ ∃ statements,
    (Bindings.collect batch).statements batch turn.access = .ok statements ∧
      kernel.Repeats statements

/-- Turns compute a batch if they have each element of its targets once. -/
theorem Batch.computedBy_of_turns {batch : Batch} {kernel : Kernel} {turns : List Turn}
    {count : Nat} (coherent : batch.Coherent)
    (covers : turns.flatMap Turn.block = List.range count)
    (repeated : ∀ turn ∈ turns, turn.Repeated batch kernel)
    (targets : ∀ expression ∈ batch.expressions, ∃ target,
      expression.assigned? = some target ∧ target.extent.elements = count) :
    batch.ComputedBy turns := by
  have aligned : Aligned batch.trees count := Batch.aligned_of_targets coherent targets
  have suits : ∀ turn ∈ turns, turn.Suits batch :=
    Batch.suits_of_covers aligned covers fun turn member => (repeated turn member).1
  intro α meaning constant contents before order reordered loads
  constructor
  · apply Batch.exists_run
    intro turn member
    obtain ⟨_, statements, stated, _⟩ := repeated turn (reordered.mem_iff.1 member)
    exact ⟨statements, stated⟩
  · intro after runs
    exact runs.evaluate aligned covers suits reordered loads

theorem VectorUpdate.turns_of_emit {params : VectorUpdate} {index : Nat} {batch : Batch}
    {emission : Emission} (emits : params.emit index batch = .ok emission) (count : Nat) :
    ∃ kernel, emission.primary = [kernel] ∧
      kernel.parameters = .size "N" :: (Bindings.collect batch).declarations ∧
      ∀ turn ∈ params.turns count, turn.Repeated batch kernel := by
  obtain ⟨kernel, scalar, primary, parameters, stated, body⟩ := kernel_of_emit emits
  refine ⟨kernel, primary, parameters, fun turn member => ?_⟩
  unfold turns at member
  rcases body with ⟨narrow, body⟩ | ⟨wide, vector, vectors, body⟩
  · rw [if_neg narrow] at member
    obtain ⟨element, _, rfl⟩ := List.mem_map.1 member
    refine ⟨List.cons_ne_nil _ _, scalar, stated, .inl ?_⟩
    simp [body, blockBodies]
  · rw [if_pos wide] at member
    rcases List.mem_append.1 member with whole | tail
    · obtain ⟨element, _, rfl⟩ := List.mem_map.1 whole
      refine ⟨?_, vector, vectors, .inl ?_⟩
      · simp [Turn.block, Nat.ne_of_gt (Nat.zero_lt_of_lt wide)]
      · simp [body, blockBodies]
    · obtain ⟨element, _, rfl⟩ := List.mem_map.1 tail
      refine ⟨List.cons_ne_nil _ _, scalar, stated, .inl ?_⟩
      simp [body, blockBodies]

theorem MatrixUpdate.turns_of_emit {params : MatrixUpdate} {index : Nat} {batch : Batch}
    {emission : Emission} (emits : params.emit index batch = .ok emission) (rows columns : Nat) :
    ∃ kernel, emission.primary = [kernel] ∧
      kernel.parameters = .size "M" :: .size "N" :: (Bindings.collect batch).declarations ∧
      ∀ turn ∈ turns rows columns, turn.Repeated batch kernel := by
  obtain ⟨kernel, statements, hints, primary, parameters, stated, _, body⟩ := kernel_of_emit emits
  refine ⟨kernel, primary, parameters, fun turn member => ?_⟩
  obtain ⟨row, _, member⟩ := List.mem_flatMap.1 member
  obtain ⟨column, _, rfl⟩ := List.mem_map.1 member
  refine ⟨List.cons_ne_nil _ _, statements, stated, .inr ?_⟩
  simp [body, blockBodies, blockBodies_append]

namespace Variant

/-- The kernel that an element-wise variant emits repeats the statements of turns, and these turns
compute the batch. The launch passes its sizes first and then the buffers and host scalars. -/
theorem runs_evaluate {variant : Variant} {index : Nat} {batch : Batch} {emission : Emission}
    {shape : Shape} (elementWise : variant.IsElementWise)
    (emits : variant.emit index batch = .ok emission)
    (accepts : variant.sizes batch = .ok shape) (coherent : batch.Coherent) :
    ∃ (kernel : Kernel) (launch : PlannedLaunch) (counts : List Nat),
      emission.primary = [kernel] ∧
      variant.plan index batch = .ok ⟨.primary, [launch]⟩ ∧
      kernel.parameters = variant.sizeParameters ++ (Bindings.collect batch).declarations ∧
      launch.arguments = counts.map .size ++ (Bindings.collect batch).arguments ∧
      counts.length = variant.sizeParameters.length ∧
      (∀ turn ∈ variant.turns counts, turn.Repeated batch kernel) ∧
      batch.ComputedBy (variant.turns counts) := by
  cases variant with
  | vectorUpdate params =>
      obtain ⟨length, measured, _⟩ := bind_eq_ok_iff.1 accepts
      obtain ⟨kernel, primary, parameters, repeated⟩ := VectorUpdate.turns_of_emit emits length
      have computed : batch.ComputedBy (params.turns length) :=
        Batch.computedBy_of_turns coherent (params.flatMap_turns length) repeated
          (VectorUpdate.targets_of_length measured)
      exact ⟨kernel, _, [length], primary, bind_eq_ok_iff.2 ⟨length, measured, rfl⟩, parameters,
        rfl, rfl, repeated, computed⟩
  | matrixUpdate params =>
      obtain ⟨⟨rows, columns⟩, measured, _⟩ := bind_eq_ok_iff.1 accepts
      obtain ⟨kernel, primary, parameters, repeated⟩ :=
        MatrixUpdate.turns_of_emit emits rows columns
      have computed : batch.ComputedBy (MatrixUpdate.turns rows columns) :=
        Batch.computedBy_of_turns coherent (MatrixUpdate.flatMap_turns rows columns) repeated
          (MatrixUpdate.targets_of_dims measured)
      exact ⟨kernel, _, [rows, columns], primary,
        bind_eq_ok_iff.2 ⟨(rows, columns), measured, rfl⟩, parameters, rfl, rfl, repeated, computed⟩
  | innerProduct params => exact elementWise.elim
  | matrixVector params => exact elementWise.elim
  | matrixProduct params => exact elementWise.elim

/-- Vectors of four lanes. -/
def quads : Variant := .vectorUpdate ⟨4, 64, 128, .strided⟩

/-- Eight elements are scaled by two vectors, the second one first. -/
theorem quads_scale_backwards :
    quads.IsElementWise ∧ quads.sizes (.scaling ⟨0⟩ ⟨1⟩ 8 2) = .ok ⟨[8]⟩ ∧
      (Batch.scaling ⟨0⟩ ⟨1⟩ 8 2).Coherent ∧
      ∃ emission, quads.emit 0 (.scaling ⟨0⟩ ⟨1⟩ 8 2) = .ok emission ∧
        ∀ contents : Elements Nat, ∃ before after : Memory Nat,
          (Bindings.collect (.scaling ⟨0⟩ ⟨1⟩ 8 2)).Loads (fun _ _ => 2) contents before ∧
          (Batch.scaling ⟨0⟩ ⟨1⟩ 8 2).Runs ⟨fun _ left right => left * right, id⟩
            [.vector 4 1, .vector 4 0] before after ∧
          (Bindings.collect (.scaling ⟨0⟩ ⟨1⟩ 8 2)).Loads (fun _ _ => 2)
            ((Batch.scaling ⟨0⟩ ⟨1⟩ 8 2).evaluate ⟨fun _ left right => left * right, id⟩
              (fun _ _ => 2) contents) after := by
  have elementWise : quads.IsElementWise := trivial
  have accepts : quads.sizes (.scaling ⟨0⟩ ⟨1⟩ 8 2) = .ok ⟨[8]⟩ := scaling_sizes
  have coherent : (Batch.scaling ⟨0⟩ ⟨1⟩ 8 2).Coherent := @Batch.stretching_coherent 8
  have stated (access : Access) : ∃ statements, (Bindings.collect (.scaling ⟨0⟩ ⟨1⟩ 8 2)).statements
      (.scaling ⟨0⟩ ⟨1⟩ 8 2) access = .ok statements := scaling_stated (by decide) access
  obtain ⟨scalar, scalars⟩ := stated (.element (.var "i"))
  obtain ⟨vector, vectors⟩ := stated (.vector 4)
  have emitted : ∃ emission, quads.emit 0 (.scaling ⟨0⟩ ⟨1⟩ 8 2) = .ok emission :=
    ⟨_, bind_eq_ok_iff.2 ⟨scalar, scalars, bind_eq_ok_iff.2 ⟨vector, vectors, rfl⟩⟩⟩
  obtain ⟨emission, emits⟩ := emitted
  obtain ⟨_, launch, counts, _, planned, _, passed, sized, _, computed⟩ :=
    runs_evaluate elementWise emits accepts coherent
  obtain ⟨count, rfl⟩ := List.length_eq_one_iff.1 sized
  obtain ⟨length, measured, same⟩ := bind_eq_ok_iff.1 planned
  obtain rfl : 8 = length := Except.ok.inj ((stretching_length 8).symm.trans measured)
  cases same
  obtain rfl : 8 = count := Argument.size.inj (List.cons.inj passed).1
  refine ⟨elementWise, accepts, coherent, emission, emits, fun contents => ?_⟩
  obtain ⟨before, loads⟩ : ∃ before : Memory Nat,
      (Bindings.collect (.scaling ⟨0⟩ ⟨1⟩ 8 2)).Loads (fun _ _ => 2) contents before :=
    Bindings.exists_loads _ _ contents
  have backwards : [Turn.vector 4 1, .vector 4 0].Perm (quads.turns [8]) :=
    .swap (Turn.vector 4 0) (Turn.vector 4 1) []
  obtain ⟨⟨after, runs⟩, evaluated⟩ := computed ⟨fun _ left right => left * right, id⟩
    (fun _ _ => 2) contents before _ backwards loads
  exact ⟨before, after, loads, runs, evaluated after runs⟩

end Variant

end KernelTuner
