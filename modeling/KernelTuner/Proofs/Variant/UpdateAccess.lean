import KernelTuner.Proofs.Kernel.RangeAccess
import KernelTuner.Proofs.Variant.ElementWise

/-!
Contract: the elements that element-wise kernels touch.

Owns: where an access reaches a leaf; that the statements of a batch touch their leaves
there and nothing else; and, for the whole kernel, that its work items stay below the number
of elements that it updates (`update_subset`) and reach all of them (`update_covers`).
-/

set_option autoImplicit false

namespace KernelTuner

open Kernel

variable {seat : Seat} {locals : Variables} {access : Access} {bindings : Bindings}

/-! ### Statements -/

/-- The indices at which an access reaches a leaf. -/
def Access.reached (access : Access) (seat : Seat) (locals : Variables) (handle : Buffer) :
    Set (List Nat) :=
  if handle.rank = 0 then {[0]}
  else
    match access with
    | .element index => {[index.eval seat locals]}
    | .vector width => {indices | ∃ lane < width, indices = [width * locals "i" + lane]}

/-- What a kernel with these parameters touches of leaves. -/
def Bindings.touched (bindings : Bindings) (access : Access) (seat : Seat) (locals : Variables)
    (leaves : List Leaf) : Set Touch :=
  {touch | ∃ handle, .buffer handle ∈ leaves ∧ bindings.nameOf handle = .ok touch.array ∧
    touch.indices ∈ access.reached seat locals handle}

theorem Access.mem_read {handle : Buffer} {name : String} {touch : Touch} :
    touch ∈ (access.read handle name).touched seat locals ↔
      touch.array = name ∧ touch.indices ∈ access.reached seat locals handle := by
  obtain ⟨array, indices⟩ := touch
  unfold read reached
  by_cases single : handle.rank = 0
  · simp [single, first, Place.touched, Index.eval]
  · cases access with
    | element index => simp [single, Place.touched]
    | vector width => simp [single, vectorTouched, Access.index, Index.eval, and_left_comm]

theorem Access.mem_write {handle : Buffer} {name : String} {value : Value} {touch : Touch} :
    touch ∈ (access.write handle name value).touched seat locals ↔
      (touch.array = name ∧ touch.indices ∈ access.reached seat locals handle) ∨
        touch ∈ value.touched seat locals := by
  rw [← mem_read]
  unfold read write
  by_cases single : handle.rank = 0
  · simp [single, Instruction.touched]
  · cases access with
    | element index => simp [single, Instruction.touched]
    | vector width => simp [single, Instruction.touched, or_comm]

/-- A store declares nothing. -/
theorem Access.bind_write {handle : Buffer} {name : String} {value : Value} :
    (Statement.run (access.write handle name value)).bind seat locals = locals := by
  unfold write
  split
  · rfl
  · split <;> rfl

namespace Bindings

theorem touched_nil : bindings.touched access seat locals [] = ∅ := by
  simp [touched]

theorem touched_append (front back : List Leaf) :
    bindings.touched access seat locals (front ++ back) =
      bindings.touched access seat locals front ∪ bindings.touched access seat locals back := by
  ext touch
  simp [touched, or_and_right, exists_or]

theorem touched_buffer {handle : Buffer} {name : String} (named : bindings.nameOf handle = .ok name) :
    bindings.touched access seat locals [.buffer handle] =
      {touch | touch.array = name ∧ touch.indices ∈ access.reached seat locals handle} := by
  ext touch
  simp [touched, named, eq_comm]

theorem touched_scalar (elementType : ElementType) (value : Float) :
    bindings.touched access seat locals [.scalar elementType value] = ∅ := by
  simp [touched]

/-- A rendered tree reads its leaves. -/
theorem touched_of_render {tree : Tree} {scalars rest : List Nat} {value : Value}
    (rendered : bindings.render access tree scalars = .ok (value, rest)) :
    value.touched seat locals = bindings.touched access seat locals tree.leaves := by
  induction tree generalizing scalars rest value with
  | empty => cases rendered
  | buffer handle =>
      obtain ⟨name, named, rendered⟩ := bind_eq_ok_iff.1 rendered
      cases rendered
      rw [Tree.leaves, touched_buffer named]
      ext touch
      exact Access.mem_read
  | scalar elementType number =>
      cases scalars with
      | nil => cases rendered
      | cons position scalars =>
          cases rendered
          rw [Tree.leaves, touched_scalar]
          rfl
  | node operator lhs rhs lhsHypothesis rhsHypothesis =>
      obtain ⟨arithmetic, left, right, between, _, leftRendered, rightRendered, rfl⟩ :=
        operands_of_render rendered
      rw [Tree.leaves, touched_append, ← lhsHypothesis leftRendered,
        ← rhsHypothesis rightRendered, Value.touched_group, Value.touched_binary]

/-- The store of a tree touches all its leaves, the target among them. -/
theorem touched_of_statement {tree : Tree} {scalars rest : List Nat} {store : Instruction}
    (stated : bindings.statement access tree scalars = .ok (store, rest)) :
    store.touched seat locals = bindings.touched access seat locals tree.leaves ∧
      (Statement.run store).bind seat locals = locals := by
  obtain ⟨target, rhs, name, value, rfl, named, rendered, rfl⟩ := assignment_of_statement stated
  refine ⟨?_, Access.bind_write⟩
  rw [Tree.leaves, Tree.leaves, touched_append, touched_buffer named,
    ← touched_of_render rendered]
  ext touch
  exact Access.mem_write

theorem touched_of_statementsFrom {trees : List Tree} {scalars : List Nat}
    {stores : List Instruction}
    (stated : bindings.statementsFrom access trees scalars = .ok stores) :
    blockTouched seat locals (stores.map .run) =
      bindings.touched access seat locals (trees.flatMap Tree.leaves) := by
  induction trees generalizing scalars stores with
  | nil =>
      cases stated
      exact touched_nil.symm
  | cons tree trees inductionHypothesis =>
      obtain ⟨⟨store, afterStore⟩, first, stated⟩ := bind_eq_ok_iff.1 stated
      obtain ⟨others, rest, stated⟩ := bind_eq_ok_iff.1 stated
      cases stated
      obtain ⟨touches, unbound⟩ := touched_of_statement first
      rw [List.flatMap_cons, touched_append, ← touches, ← inductionHypothesis rest,
        List.map_cons, blockTouched, unbound, Statement.touched_run]

end Bindings

/-- The statements of a batch touch the leaves of the batch. -/
theorem Batch.touched_of_statements {batch : Batch} {statements : List Statement}
    (stated : (Bindings.collect batch).statements batch access = .ok statements) :
    blockTouched seat locals statements =
      (Bindings.collect batch).touched access seat locals batch.leaves := by
  obtain ⟨stores, listed, stated⟩ := bind_eq_ok_iff.1 stated
  cases stated
  have flattened : (batch.expressions.map Expression.tree).flatMap Tree.leaves = batch.leaves :=
    List.flatMap_map ..
  rw [Bindings.touched_of_statementsFrom listed, flattened]

/-! ### Kernels -/

/-- An element of a leaf, by the parameter of the leaf, where `count` elements of every
leaf that is not a single value are updated. -/
def Batch.Addresses (batch : Batch) (count : Nat) (touch : Touch) : Prop :=
  ∃ handle element, .buffer handle ∈ batch.leaves ∧
    (Bindings.collect batch).nameOf handle = .ok touch.array ∧ touch.indices = [element] ∧
      element < if handle.rank = 0 then 1 else count

section Statements

variable {batch : Batch} {statements : List Statement} {count : Nat}

/-- Statements that reach elements below `count` of any leaf address these only. -/
theorem Batch.addresses_of_statements
    (stated : (Bindings.collect batch).statements batch access = .ok statements)
    (below : ∀ handle, handle.rank ≠ 0 → ∀ indices ∈ access.reached seat locals handle,
      ∃ element < count, indices = [element]) :
    blockTouched seat locals statements ⊆ {touch | batch.Addresses count touch} := by
  rw [touched_of_statements stated]
  rintro ⟨array, indices⟩ ⟨handle, member, named, reached⟩
  by_cases single : handle.rank = 0
  · have first : indices = [0] := by simpa [Access.reached, single] using reached
    exact ⟨handle, 0, member, named, first, by simp [single]⟩
  · obtain ⟨element, inside, same⟩ := below handle single indices reached
    exact ⟨handle, element, member, named, same, by simpa [single] using inside⟩

theorem Batch.addresses_of_elements {index : Index}
    (stated : (Bindings.collect batch).statements batch (.element index) = .ok statements)
    (below : index.eval seat locals < count) :
    blockTouched seat locals statements ⊆ {touch | batch.Addresses count touch} := by
  apply addresses_of_statements stated
  intro handle several indices reached
  exact ⟨_, below, by simpa [Access.reached, several] using reached⟩

theorem Batch.addresses_of_vectors {width : Nat}
    (stated : (Bindings.collect batch).statements batch (.vector width) = .ok statements)
    (below : locals "i" < count / width) :
    blockTouched seat locals statements ⊆ {touch | batch.Addresses count touch} := by
  apply addresses_of_statements stated
  intro handle several indices reached
  obtain ⟨lane, within, same⟩ : ∃ lane < width, indices = [width * locals "i" + lane] := by
    simpa [Access.reached, several] using reached
  exact ⟨_, lane_lt below within, same⟩

variable {handle : Buffer} {name : String}

/-- Statements touch every leaf where they reach it. -/
theorem Batch.touched_of_leaf
    (stated : (Bindings.collect batch).statements batch access = .ok statements)
    (member : .buffer handle ∈ batch.leaves)
    (named : (Bindings.collect batch).nameOf handle = .ok name) {indices : List Nat}
    (reached : indices ∈ access.reached seat locals handle) :
    ⟨name, indices⟩ ∈ blockTouched seat locals statements := by
  rw [touched_of_statements stated]
  exact ⟨handle, member, named, reached⟩

end Statements

namespace VectorUpdate

variable {params : VectorUpdate} {index : Nat} {batch : Batch} {emission : Emission}

theorem kernel_of_emit (emits : params.emit index batch = .ok emission) :
    ∃ kernel scalar, emission.primary = [kernel] ∧
      kernel.parameters = .size "N" :: (Bindings.collect batch).declarations ∧
      (Bindings.collect batch).statements batch (.element (.var "i")) = .ok scalar ∧
      (¬ 1 < params.simdWidth ∧ kernel.body = [rangeLoop params.fetch "i" (.var "N") 0 scalar] ∨
        1 < params.simdWidth ∧ ∃ vector,
          (Bindings.collect batch).statements batch (.vector params.simdWidth) = .ok vector ∧
          kernel.body = [
            rangeLoop params.fetch "i" (.div (.var "N") (.literal params.simdWidth)) 0 vector,
            tailLoop params.simdWidth scalar]) := by
  obtain ⟨scalar, stated, emits⟩ := bind_eq_ok_iff.1 emits
  by_cases wide : 1 < params.simdWidth
  · rw [if_pos wide] at emits
    obtain ⟨vector, vectors, emits⟩ := bind_eq_ok_iff.1 emits
    cases emits
    exact ⟨_, scalar, rfl, rfl, stated, .inr ⟨wide, vector, vectors, rfl⟩⟩
  · rw [if_neg wide] at emits
    cases emits
    exact ⟨_, scalar, rfl, rfl, stated, .inl ⟨wide, rfl⟩⟩

theorem kernel_subset (emits : params.emit index batch = .ok emission) {kernel : Kernel}
    (member : kernel ∈ emission.primary) :
    blockTouched seat locals kernel.body ⊆ {touch | batch.Addresses (locals "N") touch} := by
  obtain ⟨only, scalar, primary, _, stated, body⟩ := kernel_of_emit emits
  rw [primary] at member
  cases List.mem_singleton.1 member
  rcases body with ⟨_, narrow⟩ | ⟨_, vector, vectors, wide⟩
  · rw [narrow]
    simp only [blockTouched_cons_subset, blockTouched_nil, Set.empty_subset, and_true]
    apply rangeLoop_subset
    · intro inner same
      simp [Index.eval, same "N" (by decide)]
    · intro inner _ below
      exact Batch.addresses_of_elements stated below
  · rw [wide]
    simp only [blockTouched_cons_subset, blockTouched_nil, Set.empty_subset, and_true,
      rangeLoop_bind]
    refine ⟨rangeLoop_subset ?_ ?_, tailLoop_subset ?_⟩
    · intro inner same
      simp [Index.eval, same "N" (by decide)]
    · intro inner _ below
      exact Batch.addresses_of_vectors vectors below
    · intro inner _ below
      exact Batch.addresses_of_elements stated below

/-- Every element below `N` is touched by a work item. -/
theorem kernel_covers (emits : params.emit index batch = .ok emission) {kernel : Kernel}
    (member : kernel ∈ emission.primary) {handle : Buffer} {name : String}
    (leaf : .buffer handle ∈ batch.leaves)
    (named : (Bindings.collect batch).nameOf handle = .ok name) (several : handle.rank ≠ 0)
    {items : Nat} (nonempty : 0 < items) {element : Nat} (below : element < locals "N") :
    ∃ position < items, ∀ seat : Seat, seat .globalId 0 = position →
      seat .globalSize 0 = items → ⟨name, [element]⟩ ∈ blockTouched seat locals kernel.body := by
  obtain ⟨only, scalar, primary, _, stated, body⟩ := kernel_of_emit emits
  rw [primary] at member
  cases List.mem_singleton.1 member
  rcases body with ⟨_, narrow⟩ | ⟨wide, vector, vectors, body⟩
  · obtain ⟨position, inside, runs⟩ := rangeLoop_covers params.fetch nonempty below
    refine ⟨position, inside, fun seat stands sized => ?_⟩
    rw [narrow, mem_blockTouched_cons]
    refine .inl (runs stands sized ?_ ?_)
    · intro inner same
      simp [Index.eval, same "N" (by decide)]
    · intro inner _ turn
      apply Batch.touched_of_leaf stated leaf named
      simp [Access.reached, several, Index.eval, turn]
  -- an element is in a whole vector, or in the tail behind them
  · by_cases whole : element / params.simdWidth < locals "N" / params.simdWidth
    · obtain ⟨position, inside, runs⟩ := rangeLoop_covers params.fetch nonempty whole
      refine ⟨position, inside, fun seat stands sized => ?_⟩
      rw [body, mem_blockTouched_cons]
      refine .inl (runs stands sized ?_ ?_)
      · intro inner same
        simp [Index.eval, same "N" (by decide)]
      · intro inner _ turn
        have lane := Nat.mod_lt element (Nat.zero_lt_of_lt wide)
        have place := (Nat.div_add_mod element params.simdWidth).symm
        apply Batch.touched_of_leaf vectors leaf named
        simpa [Access.reached, several, turn] using ⟨_, lane, place⟩
    · obtain ⟨position, inside, runs⟩ :=
        tailLoop_covers nonempty below (Nat.le_of_not_lt whole)
      refine ⟨position, inside, fun seat stands sized => ?_⟩
      rw [body, mem_blockTouched_cons, mem_blockTouched_cons, rangeLoop_bind]
      refine .inr (.inl (runs stands sized ?_))
      apply Batch.touched_of_leaf stated leaf named
      simp [Access.reached, several, Index.eval]

end VectorUpdate

namespace MatrixUpdate

variable {params : MatrixUpdate} {index : Nat} {batch : Batch} {emission : Emission}

theorem kernel_of_emit (emits : params.emit index batch = .ok emission) :
    ∃ kernel statements hints, emission.primary = [kernel] ∧
      kernel.parameters = .size "M" :: .size "N" :: (Bindings.collect batch).declarations ∧
      (Bindings.collect batch).statements batch
        (.element (.add (.mul (.var "i") (.var "N")) (.var "j"))) = .ok statements ∧
      (hints = [] ∨ hints = [.unroll params.simdWidth]) ∧
      kernel.body = [rangeLoop params.fetch "i" (.var "M") 0
        (hints ++ [rangeLoop params.fetch "j" (.var "N") 1 statements])] := by
  obtain ⟨statements, stated, emits⟩ := bind_eq_ok_iff.1 emits
  cases emits
  refine ⟨_, statements, _, rfl, rfl, stated, ?_, rfl⟩
  split
  · exact .inr rfl
  · exact .inl rfl

theorem kernel_subset (emits : params.emit index batch = .ok emission) {kernel : Kernel}
    (member : kernel ∈ emission.primary) :
    blockTouched seat locals kernel.body ⊆
      {touch | batch.Addresses (locals "M" * locals "N") touch} := by
  obtain ⟨only, statements, hints, primary, _, stated, hinted, body⟩ := kernel_of_emit emits
  rw [primary] at member
  cases List.mem_singleton.1 member
  rw [body]
  simp only [blockTouched_cons_subset, blockTouched_nil, Set.empty_subset, and_true]
  apply rangeLoop_subset
  · intro inner same
    simp [Index.eval, same "M" (by decide)]
  · intro inner same rowInside
    have columnCount : inner "N" = locals "N" := same "N" (by decide)
    have hints_subset : blockTouched seat inner hints ⊆
        {touch | batch.Addresses (locals "M" * locals "N") touch} := by
      rcases hinted with rfl | rfl <;> simp
    have unbound : blockBind seat inner hints = inner := by
      rcases hinted with rfl | rfl <;> rfl
    rw [blockTouched_append_subset, unbound]
    simp only [blockTouched_cons_subset, blockTouched_nil, Set.empty_subset, and_true]
    refine ⟨hints_subset, rangeLoop_subset ?_ ?_⟩
    · intro innermost same
      simp [Index.eval, same "N" (by decide)]
    · intro innermost same columnInside
      have row : innermost "i" = inner "i" := same "i" (by decide)
      have columns : innermost "N" = locals "N" := (same "N" (by decide)).trans columnCount
      apply Batch.addresses_of_elements stated
      simp only [Index.eval] at rowInside columnInside ⊢
      rw [row, columns]
      rw [columnCount] at columnInside
      exact place_lt rowInside columnInside

/-- Every element of the matrix is touched by a work item. -/
theorem kernel_covers (emits : params.emit index batch = .ok emission) {kernel : Kernel}
    (member : kernel ∈ emission.primary) {handle : Buffer} {name : String}
    (leaf : .buffer handle ∈ batch.leaves)
    (named : (Bindings.collect batch).nameOf handle = .ok name) (several : handle.rank ≠ 0)
    {rowItems columnItems : Nat} (someRows : 0 < rowItems) (someColumns : 0 < columnItems)
    {row column : Nat} (rowInside : row < locals "M") (columnInside : column < locals "N") :
    ∃ rowPosition < rowItems, ∃ columnPosition < columnItems, ∀ seat : Seat,
      seat .globalId 0 = rowPosition → seat .globalSize 0 = rowItems →
      seat .globalId 1 = columnPosition → seat .globalSize 1 = columnItems →
        ⟨name, [row * locals "N" + column]⟩ ∈ blockTouched seat locals kernel.body := by
  obtain ⟨only, statements, hints, primary, _, stated, hinted, body⟩ := kernel_of_emit emits
  rw [primary] at member
  cases List.mem_singleton.1 member
  obtain ⟨rowPosition, rowWithin, runsRow⟩ := rangeLoop_covers params.fetch someRows rowInside
  obtain ⟨columnPosition, columnWithin, runsColumn⟩ :=
    rangeLoop_covers params.fetch someColumns columnInside
  refine ⟨rowPosition, rowWithin, columnPosition, columnWithin, ?_⟩
  intro seat rowStands rowSized columnStands columnSized
  rw [body, mem_blockTouched_cons]
  refine .inl (runsRow rowStands rowSized ?_ ?_)
  · intro inner same
    simp [Index.eval, same "M" (by decide)]
  · intro inner same rowTurn
    have columnCount : inner "N" = locals "N" := same "N" (by decide)
    have unbound : blockBind seat inner hints = inner := by
      rcases hinted with rfl | rfl <;> rfl
    rw [blockTouched_append, unbound, Set.mem_union, mem_blockTouched_cons]
    refine .inr (.inl (runsColumn columnStands columnSized ?_ ?_))
    · intro innermost same
      simp [Index.eval, same "N" (by decide), columnCount]
    · intro innermost same columnTurn
      have rowKept : innermost "i" = row := (same "i" (by decide)).trans rowTurn
      have columns : innermost "N" = locals "N" := (same "N" (by decide)).trans columnCount
      apply Batch.touched_of_leaf stated leaf named
      simp [Access.reached, several, Index.eval, rowKept, columns, columnTurn]

end MatrixUpdate

end KernelTuner
