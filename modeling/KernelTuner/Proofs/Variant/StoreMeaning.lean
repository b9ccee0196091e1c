import KernelTuner.Proofs.Expression.Evaluation
import KernelTuner.Proofs.Kernel.Meaning
import KernelTuner.Proofs.Variant.UpdateInside

/-!
Contract: what element-wise stores compute.

Owns: the elements that an access stands for; memory that holds the leaves of a batch by their
parameters; and `loads_of_statements`, by which the statements of a batch, run once, do to
memory what the batch assigns to these elements.
-/

set_option autoImplicit false

namespace KernelTuner

open Kernel

variable {α : Type} {meaning : Meaning α} {constant : ElementType → Float → α} {seat : Seat}
  {locals : Variables} {memory : Memory α} {contents : Elements α} {access : Access}

/-! ### Accesses -/

namespace Access

/-- The number of elements that an access stands for. -/
def lanes : Access → Nat
  | .element _ => 1
  | .vector width => width

/-- The element for which an access stands in a lane. -/
def elementAt (access : Access) (seat : Seat) (locals : Variables) (lane : Nat) : Nat :=
  match access with
  | .element index => index.eval seat locals
  | .vector width => width * locals "i" + lane

/-- The elements for which an access stands. -/
def block (access : Access) (seat : Seat) (locals : Variables) : List Nat :=
  (List.range access.lanes).map (access.elementAt seat locals)

theorem inLane_read {handle : Buffer} {name : String} {lane : Nat} :
    (access.read handle name).inLane meaning seat locals memory lane =
      memory.elements ⟨name, [handle.visible (access.elementAt seat locals lane)]⟩ := by
  unfold read Buffer.visible
  by_cases single : handle.rank = 0
  · simp only [single, ↓reduceIte]
    rfl
  · simp only [single, ↓reduceIte]
    cases access with
    | element index => rfl
    | vector width => rfl

section Write

variable {target : Buffer} {name : String} {value : Value}

/-- A write of a single value is one of its only element. -/
theorem perform_write_single (single : target.rank = 0) :
    (access.write target name value).perform meaning seat locals memory =
      memory.setElement ⟨name, [0]⟩ (value.inLane meaning seat locals memory 0) := by
  unfold write
  rw [if_pos single]
  rfl

theorem perform_write_element {index : Index} (several : target.rank ≠ 0) :
    ((Access.element index).write target name value).perform meaning seat locals memory =
      memory.setElement ⟨name, [index.eval seat locals]⟩
        (value.inLane meaning seat locals memory 0) := by
  unfold write
  rw [if_neg several]
  rfl

theorem perform_write_vector {width : Nat} (several : target.rank ≠ 0) :
    ((Access.vector width).write target name value).perform meaning seat locals memory =
      memory.setElements name (width * locals "i") width
        fun lane => value.inLane meaning seat locals memory lane := by
  unfold write
  rw [if_neg several]
  rfl

/-- Where a single value is written, the access stands for its only element. -/
def Suits (access : Access) (seat : Seat) (locals : Variables) (target : Buffer) : Prop :=
  target.rank = 0 → access.block seat locals = [0]

theorem block_eq_zero (single : access.block seat locals = [0]) :
    access.lanes = 1 ∧ access.elementAt seat locals 0 = 0 := by
  have lanes : access.lanes = 1 := by simpa [block] using congrArg List.length single
  have first := single
  simp only [block, lanes, List.range_one, List.map_cons, List.map_nil, List.cons.injEq,
    and_true] at first
  exact ⟨lanes, first⟩

@[simp] theorem registers_write :
    ((access.write target name value).perform meaning seat locals memory).registers =
      memory.registers := by
  by_cases single : target.rank = 0
  · rw [perform_write_single single, Memory.registers_setElement]
  · cases access with
    | element index => rw [perform_write_element single, Memory.registers_setElement]
    | vector width => rw [perform_write_vector single, Memory.registers_setElements]

/-- In every lane, the element that the access stands for takes the value in that lane. -/
theorem elements_write (suits : access.Suits seat locals target) {lane : Nat}
    (within : lane < access.lanes) :
    ((access.write target name value).perform meaning seat locals memory).elements
        ⟨name, [access.elementAt seat locals lane]⟩ =
      value.inLane meaning seat locals memory lane := by
  by_cases single : target.rank = 0
  · obtain ⟨lanes, first⟩ := block_eq_zero (suits single)
    obtain rfl : lane = 0 := by omega
    rw [perform_write_single single, first, Memory.elements_setElement_self]
  · cases access with
    | element index =>
        obtain rfl : lane = 0 := Nat.lt_one_iff.1 within
        rw [perform_write_element single]
        exact Memory.elements_setElement_self
    | vector width =>
        rw [perform_write_vector single]
        exact Memory.elements_setElements within

/-- Nothing else is written. -/
theorem elements_write_of_ne (suits : access.Suits seat locals target) {array : String}
    {index : Nat} (apart : array ≠ name ∨ index ∉ access.block seat locals) :
    ((access.write target name value).perform meaning seat locals memory).elements
      ⟨array, [index]⟩ = memory.elements ⟨array, [index]⟩ := by
  have other (lane : Nat) (within : lane < access.lanes) :
      (⟨array, [index]⟩ : Touch) ≠ ⟨name, [access.elementAt seat locals lane]⟩ := by
    intro same
    have parts : array = name ∧ index = access.elementAt seat locals lane := by simpa using same
    rcases apart with otherArray | outside
    · exact otherArray parts.1
    · apply outside
      rw [parts.2]
      exact List.mem_map_of_mem (List.mem_range.2 within)
  by_cases single : target.rank = 0
  · obtain ⟨lanes, first⟩ := block_eq_zero (suits single)
    have differs := other 0 (by omega)
    rw [first] at differs
    rw [perform_write_single single, Memory.elements_setElement_of_ne differs]
  · cases access with
    | element index =>
        rw [perform_write_element single]
        exact Memory.elements_setElement_of_ne (other 0 Nat.one_pos)
    | vector width =>
        rw [perform_write_vector single]
        exact Memory.elements_setElements_of_ne other

end Write

end Access

/-! ### Memory that holds leaves -/

namespace Bindings

/-- Memory holds what the buffers do, each under the name of its parameter, and the host
scalars. -/
structure Loads (bindings : Bindings) (constant : ElementType → Float → α)
    (contents : Elements α) (memory : Memory α) : Prop where
  buffers : ∀ (position : Nat) (handle : Buffer),
    bindings.parameters[position]? = some (.buffer handle) →
      ∀ index, memory.elements ⟨name position, [index]⟩ = contents handle.id index
  scalars : ∀ (position : Nat) (elementType : ElementType) (value : Float),
    bindings.parameters[position]? = some (.scalar elementType value) →
      ∀ lane, memory.registers (name position) lane = constant elementType value

/-- Memory where every name stands for the leaf that is bound to it. -/
def filled (constant : ElementType → Float → α) (contents : Elements α)
    (bound : String → Option Leaf) : Memory α where
  registers := fun array _ =>
    match bound array with
    | some (.scalar elementType value) => constant elementType value
    | _ => contents ⟨0⟩ 0
  elements := fun touch =>
    match bound touch.array, touch.indices with
    | some (.buffer handle), [index] => contents handle.id index
    | _, _ => contents ⟨0⟩ 0

/-- Whatever the buffers hold, there is memory that holds it. -/
theorem exists_loads (bindings : Bindings) (constant : ElementType → Float → α)
    (contents : Elements α) : ∃ memory, bindings.Loads constant contents memory := by
  let bound (array : String) : Option Leaf := bindings.parameters[Function.invFun name array]?
  have bound_name (position : Nat) : bound (name position) = bindings.parameters[position]? := by
    have back : Function.invFun name (name position) = position :=
      Function.leftInverse_invFun (fun _ _ => name_injective) position
    simp only [bound, back]
  refine ⟨filled constant contents bound, ?buffers, ?scalars⟩
  case buffers =>
    intro position handle found index
    simp only [filled, bound_name, found]
  case scalars =>
    intro position elementType value found lane
    simp only [filled, bound_name, found]

namespace Loads

variable {leaves : List Leaf} {position : Nat}

theorem of_buffer (loads : (collected leaves).Loads constant contents memory) {handle : Buffer}
    (found : leaves[position]? = some (.buffer handle)) (index : Nat) :
    memory.elements ⟨name (place leaves (.buffer handle.id)), [index]⟩ =
      contents handle.id index := by
  obtain ⟨parameter, bound, stands⟩ := stands_at_place (mem_occurrences found)
  cases parameter with
  | buffer other =>
      have same : other.id = handle.id := of_decide_eq_true stands
      rw [← same]
      exact loads.buffers _ other (same ▸ bound) index
  | scalar elementType value => cases stands

theorem of_scalar (loads : (collected leaves).Loads constant contents memory)
    {elementType : ElementType} {value : Float}
    (found : leaves[position]? = some (.scalar elementType value)) (lane : Nat) :
    memory.registers (name (place leaves (.scalar position))) lane =
      constant elementType value := by
  obtain ⟨parameter, bound, _, same⟩ := stands_at_place (mem_occurrences found)
  rw [found] at same
  cases same
  exact loads.scalars _ elementType value bound lane

end Loads

/-! ### Statements -/

variable {leaves front back : List Leaf} {tree : Tree} {rest remaining : List Nat}

/-- A rendered tree has, in each lane, the value of the tree at the element for which the access
stands there. -/
theorem inLane_of_render {value : Value} (whole : leaves = front ++ tree.leaves ++ back)
    (loads : (collected leaves).Loads constant contents memory)
    (rendered : (collected leaves).render access tree
      (scalarPlaces leaves (occurrencesFrom front.length tree.leaves) ++ rest) =
        .ok (value, remaining)) :
    remaining = rest ∧ ∀ lane, value.inLane meaning seat locals memory lane =
      tree.element meaning constant contents (access.elementAt seat locals lane) := by
  induction tree generalizing front back rest remaining value with
  | empty => cases rendered
  | buffer handle =>
      have found : leaves[front.length]? = some (.buffer handle) := by
        simp [whole, Tree.leaves]
      have places :
          scalarPlaces leaves (occurrencesFrom front.length (Tree.buffer handle).leaves) = [] := rfl
      rw [places, render, nameOf_collected (mem_occurrences found)] at rendered
      cases rendered
      refine ⟨rfl, fun lane => ?_⟩
      rw [Access.inLane_read, loads.of_buffer found]
      rfl
  | scalar elementType number =>
      have found : leaves[front.length]? = some (.scalar elementType number) := by
        simp [whole, Tree.leaves]
      have places : scalarPlaces leaves
          (occurrencesFrom front.length (Tree.scalar elementType number).leaves) =
            [place leaves (.scalar front.length)] := rfl
      rw [places, List.cons_append, List.nil_append, render] at rendered
      cases rendered
      exact ⟨rfl, loads.of_scalar found⟩
  | node operator lhs rhs lhsHypothesis rhsHypothesis =>
      have split : occurrencesFrom front.length (Tree.node operator lhs rhs).leaves =
          occurrencesFrom front.length lhs.leaves ++
            occurrencesFrom (front ++ lhs.leaves).length rhs.leaves := by
        rw [List.length_append]
        exact occurrencesFrom_append front.length lhs.leaves rhs.leaves
      rw [split, scalarPlaces_append, List.append_assoc] at rendered
      obtain ⟨arithmetic, left, right, between, means, leftRendered, rightRendered, rfl⟩ :=
        operands_of_render rendered
      have leftWhole : leaves = front ++ lhs.leaves ++ (rhs.leaves ++ back) := by
        simp [whole, Tree.leaves]
      have rightWhole : leaves = front ++ lhs.leaves ++ rhs.leaves ++ back := by
        simp [whole, Tree.leaves]
      obtain ⟨rfl, leftValue⟩ := lhsHypothesis leftWhole leftRendered
      obtain ⟨rfl, rightValue⟩ := rhsHypothesis rightWhole rightRendered
      refine ⟨rfl, fun lane => ?_⟩
      simp only [Value.inLane, Tree.element, means, leftValue, rightValue]

/-- Once a store has run, memory holds what the buffers do behind the assignment. -/
theorem loads_of_statement {store : Instruction} (whole : leaves = front ++ tree.leaves ++ back)
    (suits : ∀ target rhs, tree = .node .assign (.buffer target) rhs →
      access.Suits seat locals target)
    (stated : (collected leaves).statement access tree
      (scalarPlaces leaves (occurrencesFrom front.length tree.leaves) ++ rest) =
        .ok (store, remaining))
    (loads : (collected leaves).Loads constant contents memory) :
    remaining = rest ∧ (collected leaves).Loads constant
      (tree.assign meaning constant (access.block seat locals) contents)
      (store.perform meaning seat locals memory) := by
  obtain ⟨target, rhs, _, value, rfl, named, rendered, rfl⟩ := assignment_of_statement stated
  have targetFound : leaves[front.length]? = some (.buffer target) := by
    simp [whole, Tree.leaves]
  rw [nameOf_collected (mem_occurrences targetFound)] at named
  cases named
  have places : scalarPlaces leaves
      (occurrencesFrom front.length (Tree.node .assign (.buffer target) rhs).leaves) =
        scalarPlaces leaves (occurrencesFrom (front ++ [Leaf.buffer target]).length rhs.leaves) := by
    rw [List.length_append]
    rfl
  have rightWhole : leaves = front ++ [Leaf.buffer target] ++ rhs.leaves ++ back := by
    simp [whole, Tree.leaves]
  rw [places] at rendered
  obtain ⟨rfl, valueInLane⟩ := inLane_of_render rightWhole loads rendered
  have fits := suits target rhs rfl
  refine ⟨rfl, fun position handle found index => ?_, fun position type number found lane => ?_⟩
  · have placed := place_of_parameter found
    by_cases assigned : handle.id = target.id ∧ index ∈ access.block seat locals
    · obtain ⟨same, inBlock⟩ := assigned
      obtain ⟨lane, within, rfl⟩ := List.mem_map.1 inBlock
      rw [← placed, same, Access.elements_write fits (List.mem_range.1 within), valueInLane]
      exact (if_pos ⟨rfl, inBlock⟩).symm
    · have apart : name position ≠ name (place leaves (.buffer target.id)) ∨
          index ∉ access.block seat locals := by
        by_cases same : handle.id = target.id
        · exact .inr fun inBlock => assigned ⟨same, inBlock⟩
        · refine .inl fun names => same ?_
          have number : place leaves (.buffer target.id) = place leaves (.buffer handle.id) :=
            (name_injective names).symm.trans placed.symm
          have occurrences := FirstUse.number_injOn (mem_occurrences targetFound) number
          exact (Occurrence.buffer.inj occurrences).symm
      rw [Access.elements_write_of_ne fits apart, loads.buffers position handle found]
      exact (if_neg assigned).symm
  · rw [Access.registers_write]
    exact loads.scalars position type number found lane

/-- The steps of a work item through stores, in which nothing is bound. -/
theorem blockUnrolls_of_statementsFrom {bindings : Bindings} {trees : List Tree}
    {scalars : List Nat} {stores : List Instruction} {steps : List Step}
    (stated : bindings.statementsFrom access trees scalars = .ok stores) :
    blockUnrolls seat locals (stores.map .run) steps ↔ steps = stores.map (Step.mk locals) := by
  induction trees generalizing scalars stores steps with
  | nil =>
      cases stated
      exact Iff.rfl
  | cons tree trees inductionHypothesis =>
      obtain ⟨⟨store, between⟩, first, stated⟩ := bind_eq_ok_iff.1 stated
      obtain ⟨others, later, stated⟩ := bind_eq_ok_iff.1 stated
      cases stated
      obtain ⟨_, unbound⟩ : _ ∧ (Statement.run store).bind seat locals = locals :=
        touched_of_statement first
      rw [List.map_cons, blockUnrolls_run_cons, unbound]
      simp only [inductionHypothesis later, exists_eq_right]
      rfl

theorem loads_of_statementsFrom {trees : List Tree} {stores : List Instruction}
    (whole : leaves = front ++ trees.flatMap Tree.leaves)
    (suits : ∀ target rhs, .node .assign (.buffer target) rhs ∈ trees →
      access.Suits seat locals target)
    (stated : (collected leaves).statementsFrom access trees
      (scalarPlaces leaves (occurrencesFrom front.length (trees.flatMap Tree.leaves))) =
        .ok stores)
    (loads : (collected leaves).Loads constant contents memory) :
    (collected leaves).Loads constant
      (assignAll meaning constant (access.block seat locals) contents trees)
      (performAll meaning seat memory (stores.map (Step.mk locals))) := by
  induction trees generalizing front contents memory stores with
  | nil =>
      cases stated
      exact loads
  | cons tree trees inductionHypothesis =>
      have split : occurrencesFrom front.length ((tree :: trees).flatMap Tree.leaves) =
          occurrencesFrom front.length tree.leaves ++
            occurrencesFrom (front ++ tree.leaves).length (trees.flatMap Tree.leaves) := by
        rw [List.flatMap_cons, occurrencesFrom_append, List.length_append]
      rw [split, scalarPlaces_append, statementsFrom] at stated
      obtain ⟨⟨store, between⟩, first, stated⟩ := bind_eq_ok_iff.1 stated
      obtain ⟨others, later, stated⟩ := bind_eq_ok_iff.1 stated
      cases stated
      rw [List.flatMap_cons, ← List.append_assoc] at whole
      obtain ⟨rfl, behind⟩ := loads_of_statement whole
        (fun target rhs same => suits target rhs (same ▸ List.mem_cons_self)) first loads
      rw [List.map_cons, performAll_cons]
      exact inductionHypothesis whole
        (fun target rhs member => suits target rhs (List.mem_cons_of_mem _ member)) later behind

end Bindings

variable {batch : Batch} {statements : List Statement}

/-- The statements of a batch come to an end. -/
theorem Batch.exists_steps
    (stated : (Bindings.collect batch).statements batch access = .ok statements) :
    ∃ steps, blockUnrolls seat locals statements steps := by
  obtain ⟨stores, listed, stated⟩ := bind_eq_ok_iff.1 stated
  cases stated
  exact ⟨_, (Bindings.blockUnrolls_of_statementsFrom listed).2 rfl⟩

/-- Once the statements of a batch have run, memory holds what the buffers do behind its
assignments of the elements for which the access stands. -/
theorem Batch.loads_of_statements {steps : List Step}
    (stated : (Bindings.collect batch).statements batch access = .ok statements)
    (suits : ∀ target rhs, .node .assign (.buffer target) rhs ∈ batch.trees →
      access.Suits seat locals target)
    (unrolls : blockUnrolls seat locals statements steps)
    (loads : (Bindings.collect batch).Loads constant contents memory) :
    (Bindings.collect batch).Loads constant
      (assignAll meaning constant (access.block seat locals) contents batch.trees)
      (performAll meaning seat memory steps) := by
  obtain ⟨stores, listed, stated⟩ := bind_eq_ok_iff.1 stated
  cases stated
  obtain rfl := (Bindings.blockUnrolls_of_statementsFrom listed).1 unrolls
  have collect : Bindings.collect batch = Bindings.collected batch.leaves := rfl
  have flattened : batch.trees.flatMap Tree.leaves = batch.leaves := List.flatMap_map ..
  have whole : batch.leaves = [] ++ batch.trees.flatMap Tree.leaves := flattened.symm
  rw [collect, Bindings.scalarPositions_collected] at listed
  nth_rewrite 3 [← flattened] at listed
  exact Bindings.loads_of_statementsFrom whole suits listed loads

end KernelTuner
