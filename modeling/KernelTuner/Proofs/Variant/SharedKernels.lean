import KernelTuner.Proofs.Variant.ElementWise

/-!
Contract: kernels that a name determines.

Owns: `emit_eq_of_tokens`, by which an element-wise variant emits the same kernels, as
data, from any two batches with the same tokens that it can be emitted from. Everything
that its emission reads off a batch is invariant under likeness of batches.
-/

set_option autoImplicit false

namespace KernelTuner

variable {rename : BufferId → BufferId}

/-! ### Statements -/

namespace Bindings

variable {first second : Bindings}

theorem access_read_eq (access : Access) {left right : Buffer} (sameRank : left.rank = right.rank)
    (name : String) : access.read left name = access.read right name := by
  unfold Access.read
  rw [sameRank]

theorem access_write_eq (access : Access) {left right : Buffer} (sameRank : left.rank = right.rank)
    (name : String) (value : Kernel.Value) :
    access.write left name value = access.write right name value := by
  unfold Access.write
  rw [sameRank]

/-- Bindings that name corresponding buffers alike render alike trees alike. -/
theorem render_of_alike (access : Access) {left right : Tree} (alike : left.Alike rename right)
    (sameName : ∀ handle other, .buffer handle ∈ left.leaves → handle.Alike rename other →
      first.nameOf handle = second.nameOf other) (scalars : List Nat) :
    first.render access left scalars = second.render access right scalars := by
  induction alike generalizing scalars with
  | empty => rfl
  | @buffer handle other handles =>
      have named := sameName handle other List.mem_cons_self handles
      rw [render, render, named]
      simp only [access_read_eq access handles.rank]
  | scalar elementType left right =>
      cases scalars <;> rfl
  | node operator _ _ lhsHypothesis rhsHypothesis =>
      have lhsSame := lhsHypothesis
        fun handle other member => sameName handle other (List.mem_append_left _ member)
      have rhsSame := rhsHypothesis
        fun handle other member => sameName handle other (List.mem_append_right _ member)
      rw [render, render]
      simp only [lhsSame, rhsSame]

theorem statement_of_alike (access : Access) {left right : Tree} (alike : left.Alike rename right)
    (sameName : ∀ handle other, .buffer handle ∈ left.leaves → handle.Alike rename other →
      first.nameOf handle = second.nameOf other) (scalars : List Nat) :
    first.statement access left scalars = second.statement access right scalars := by
  cases alike with
  | empty => rfl
  | buffer handles => rfl
  | scalar elementType left right => rfl
  | node operator lhs rhs =>
      cases lhs with
      | @buffer handle other handles =>
          have named := sameName handle other List.mem_cons_self handles
          have rendered := render_of_alike access rhs
            fun handle other member => sameName handle other (List.mem_cons_of_mem _ member)
          cases operator <;> try rfl
          simp only [statement, named, rendered, access_write_eq access handles.rank]
      | empty => cases operator <;> rfl
      | scalar elementType left right => cases operator <;> rfl
      | node inner lhs rhs => cases operator <;> rfl

theorem statementsFrom_of_alike (access : Access) {left right : List Tree}
    (alike : List.Forall₂ (Tree.Alike rename) left right)
    (sameName : ∀ handle other, .buffer handle ∈ left.flatMap Tree.leaves →
      handle.Alike rename other → first.nameOf handle = second.nameOf other)
    (scalars : List Nat) :
    first.statementsFrom access left scalars = second.statementsFrom access right scalars := by
  induction alike generalizing scalars with
  | nil => rfl
  | cons head _ inductionHypothesis =>
      rw [List.flatMap_cons] at sameName
      have stated := statement_of_alike access head
        fun handle other member => sameName handle other (List.mem_append_left _ member)
      have others := inductionHypothesis
        fun handle other member => sameName handle other (List.mem_append_right _ member)
      rw [statementsFrom, statementsFrom]
      simp only [stated, others]

end Bindings

namespace Batch

variable {left right : Batch}

theorem SymbolsAlike.nameOf_eq (alike : SymbolsAlike rename left right) {handle other : Buffer}
    (member : .buffer handle ∈ left.leaves) (handles : handle.Alike rename other) :
    (Bindings.collect left).nameOf handle = (Bindings.collect right).nameOf other := by
  have leftMember : Occurrence.buffer handle.id ∈ occurrencesFrom 0 left.leaves :=
    buffer_mem_occurrencesFrom.2 ⟨handle, member, rfl⟩
  have rightMember : Occurrence.buffer other.id ∈ occurrencesFrom 0 right.leaves := by
    rw [occurrences_of_alike alike.leaves 0, handles.id]
    exact List.mem_map_of_mem leftMember
  have samePlace : Bindings.place right.leaves (.buffer other.id) =
      Bindings.place left.leaves (.buffer handle.id) := by
    rw [handles.id]
    exact alike.place_eq leftMember
  have leftName : (Bindings.collect left).nameOf handle =
      .ok (Bindings.name (Bindings.place left.leaves (.buffer handle.id))) :=
    Bindings.nameOf_collected leftMember
  have rightName : (Bindings.collect right).nameOf other =
      .ok (Bindings.name (Bindings.place right.leaves (.buffer other.id))) :=
    Bindings.nameOf_collected rightMember
  rw [leftName, rightName, samePlace]

theorem SymbolsAlike.scalarPositions_eq (alike : SymbolsAlike rename left right) :
    (Bindings.collect left).scalarPositions = (Bindings.collect right).scalarPositions := by
  have leftPositions : (Bindings.collect left).scalarPositions =
      Bindings.scalarPlaces left.leaves (occurrencesFrom 0 left.leaves) :=
    Bindings.scalarPositions_collected left.leaves
  have rightPositions : (Bindings.collect right).scalarPositions =
      Bindings.scalarPlaces right.leaves (occurrencesFrom 0 right.leaves) :=
    Bindings.scalarPositions_collected right.leaves
  rw [leftPositions, rightPositions, occurrences_of_alike alike.leaves 0]
  unfold Bindings.scalarPlaces
  rw [List.filterMap_map]
  apply List.filterMap_congr
  intro occurrence member
  cases occurrence with
  | buffer id => rfl
  | scalar index => exact congrArg some (alike.place_eq member).symm

/-- Alike batches have the same statements, however buffers are accessed. -/
theorem SymbolsAlike.statements_eq (alike : SymbolsAlike rename left right)
    (trees : List.Forall₂ (Tree.Alike rename) left.trees right.trees) (access : Access) :
    (Bindings.collect left).statements left access =
      (Bindings.collect right).statements right access := by
  have flattened : left.trees.flatMap Tree.leaves = left.leaves := List.flatMap_map ..
  have stores := Bindings.statementsFrom_of_alike access trees
    (fun handle other member => alike.nameOf_eq (flattened ▸ member))
    (Bindings.collect left).scalarPositions
  rw [Bindings.statements, Bindings.statements, ← alike.scalarPositions_eq]
  have leftTrees : left.expressions.map Expression.tree = left.trees := rfl
  have rightTrees : right.expressions.map Expression.tree = right.trees := rfl
  rw [leftTrees, rightTrees, stores]

end Batch

/-! ### Emissions -/

namespace Variant

variable {variant : Variant} {index : Nat} {left right : Batch} {emission : Emission}

theorem emit_of_alike (elementWise : variant.IsElementWise)
    (alike : Batch.SymbolsAlike rename left right)
    (trees : List.Forall₂ (Tree.Alike rename) left.trees right.trees) :
    variant.emit index left = variant.emit index right := by
  have statements := alike.statements_eq trees
  have declarations := alike.declarations_eq
  cases variant with
  | vectorUpdate params =>
      simp only [emit, VectorUpdate.emit, statements, declarations]
  | matrixUpdate params =>
      simp only [emit, MatrixUpdate.emit, statements, declarations]
  | innerProduct params => exact elementWise.elim
  | matrixVector params => exact elementWise.elim
  | matrixProduct params => exact elementWise.elim

theorem updates_of_emit (elementWise : variant.IsElementWise)
    (emits : variant.emit index left = .ok emission) : ∀ tree ∈ left.trees, tree.Update := by
  obtain ⟨_, statements, _, _, _, _, stated, _⟩ := emit_elementWise elementWise emits
  obtain ⟨stores, _, written⟩ := Batch.stores_of_statements stated
  exact written.updates

/-- An element-wise variant emits the same kernels from batches with the same tokens. -/
theorem emit_eq_of_tokens {leftEmission rightEmission : Emission}
    (elementWise : variant.IsElementWise) (sameTokens : left.tokens = right.tokens)
    (leftEmits : variant.emit index left = .ok leftEmission)
    (rightEmits : variant.emit index right = .ok rightEmission) :
    leftEmission = rightEmission := by
  obtain ⟨rename, alike⟩ := Batch.tokens_eq_iff_alike.1 sameTokens
  have trees : List.Forall₂ (Tree.Alike rename) left.trees right.trees := by
    apply Tree.alike_of_updates (updates_of_emit elementWise leftEmits)
      (fun tree member => (updates_of_emit elementWise rightEmits tree member).assignsBuffer)
    rw [← Batch.symbols_eq_flatMap, ← Batch.symbols_eq_flatMap]
    exact alike.symbols
  rw [emit_of_alike elementWise alike trees, rightEmits] at leftEmits
  exact (Except.ok.inj leftEmits).symm

/-- What an element-wise variant emits from one batch it emits from every batch of the same
name whose sizes it accepts. -/
theorem emit_of_name {name : Fingerprint} {shape : Shape} (elementWise : variant.IsElementWise)
    (leftName : left.programName = .ok name) (rightName : right.programName = .ok name)
    (emits : variant.emit index left = .ok emission)
    (accepts : variant.sizes right = .ok shape) : variant.emit index right = .ok emission := by
  obtain ⟨_, sameTokens⟩ := Batch.tokens_eq_of_programName_eq leftName rightName
  obtain ⟨rename, alike⟩ := Batch.tokens_eq_iff_alike.1 sameTokens
  have trees : List.Forall₂ (Tree.Alike rename) left.trees right.trees := by
    apply Tree.alike_of_updates (updates_of_emit elementWise emits)
      (assigned_of_sizes elementWise accepts)
    rw [← Batch.symbols_eq_flatMap, ← Batch.symbols_eq_flatMap]
    exact alike.symbols
  rw [← emit_of_alike elementWise alike trees, emits]

end Variant

end KernelTuner
