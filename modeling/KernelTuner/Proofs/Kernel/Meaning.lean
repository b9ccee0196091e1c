import KernelTuner.Proofs.Kernel.Unrolling

/-!
Contract: what kernels compute.

Owns: the value of an expression over any arithmetic on elements, lane by lane; what an
instruction does to the variables of a work item and to the elements of arrays; and the effect
of steps one after another.

Does not own: the order in which work items run.
-/

set_option autoImplicit false

namespace KernelTuner.Kernel

open Function (update)

deriving instance DecidableEq for Touch

/-- An interpretation of the arithmetic on elements. -/
structure Meaning (α : Type) where
  operate : Arithmetic → α → α → α
  number : Nat → α

/-- What a work item finds. A variable has a value in every lane: where it is a single element,
the same one, and where it is a vector, one for each of the vector's lanes. -/
structure Memory (α : Type) where
  registers : String → Nat → α
  elements : Touch → α

variable {α : Type}

namespace Memory

def setVariable (memory : Memory α) (name : String) (value : Nat → α) : Memory α :=
  { memory with registers := update memory.registers name value }

def setElement (memory : Memory α) (touch : Touch) (value : α) : Memory α :=
  { memory with elements := update memory.elements touch value }

/-- Sets `width` consecutive elements of an array, from `start` on. -/
def setElements (memory : Memory α) (array : String) (start width : Nat) (value : Nat → α) :
    Memory α :=
  (List.range width).foldl
    (fun written lane => written.setElement ⟨array, [start + lane]⟩ (value lane)) memory

end Memory

section Definitions

variable (meaning : Meaning α) (seat : Seat) (locals : Variables)

/-- What is found at a place, in a lane. -/
def Place.found (memory : Memory α) (lane : Nat) : Place → α
  | .var name => memory.registers name lane
  | .element array indices => memory.elements ⟨array, indices.map (Index.eval seat locals)⟩

/-- The value in a lane. A single element is the same in all lanes. -/
def Value.inLane (memory : Memory α) (lane : Nat) : Value → α
  | .literal value => meaning.number value
  | .read place => place.found seat locals memory lane
  | .load width index array =>
      memory.elements ⟨array, [width * index.eval seat locals + lane]⟩
  | .lane vector own => memory.registers vector own
  | .binary operator left right =>
      meaning.operate operator (left.inLane memory lane) (right.inLane memory lane)
  | .orZero condition value =>
      if condition.Holds seat locals then value.inLane memory lane else meaning.number 0
  | .group value => value.inLane memory lane

/-- The memory behind a write, of a value by lanes. An element takes the value of the first. -/
def Place.set (memory : Memory α) (value : Nat → α) : Place → Memory α
  | .var name => memory.setVariable name value
  | .element array indices =>
      memory.setElement ⟨array, indices.map (Index.eval seat locals)⟩ (value 0)

/-- The memory behind an instruction. All values are found before anything is written. -/
def Instruction.perform (memory : Memory α) : Instruction → Memory α
  | .declareIndex _ _ => memory
  | .declareValue _ name value =>
      memory.setVariable name fun lane => value.inLane meaning seat locals memory lane
  | .declareArray _ _ _ _ => memory
  | .assign place value =>
      place.set seat locals memory fun lane => value.inLane meaning seat locals memory lane
  | .accumulate place value =>
      place.set seat locals memory fun lane =>
        meaning.operate .add (place.found seat locals memory lane)
          (value.inLane meaning seat locals memory lane)
  | .store width value index array =>
      memory.setElements array (width * index.eval seat locals) width fun lane =>
        value.inLane meaning seat locals memory lane
  | .barrier => memory

/-- The elements whose contents an instruction finds. -/
def Instruction.reads : Instruction → Set Touch
  | .declareValue _ _ value => value.touched seat locals
  | .assign _ value => value.touched seat locals
  | .accumulate place value => place.touched seat locals ∪ value.touched seat locals
  | .store _ value _ _ => value.touched seat locals
  | _ => ∅

/-- The memory behind steps one after another. -/
def performAll (memory : Memory α) (steps : List Step) : Memory α :=
  steps.foldl (fun memory step => step.instruction.perform meaning seat step.locals memory) memory

end Definitions

namespace Memory

variable {memory : Memory α} {name : String} {touch other : Touch}

@[simp] theorem elements_setVariable {value : Nat → α} :
    (memory.setVariable name value).elements = memory.elements := rfl

@[simp] theorem registers_setElement {value : α} :
    (memory.setElement touch value).registers = memory.registers := rfl

@[simp] theorem elements_setElement_self {value : α} :
    (memory.setElement touch value).elements touch = value :=
  Function.update_self ..

theorem elements_setElement_of_ne {value : α} (apart : other ≠ touch) :
    (memory.setElement touch value).elements other = memory.elements other :=
  Function.update_of_ne apart ..

variable {array : String} {start width : Nat} {value : Nat → α}

theorem setElements_succ :
    memory.setElements array start (width + 1) value =
      (memory.setElements array start width value).setElement ⟨array, [start + width]⟩
        (value width) := by
  rw [setElements, List.range_succ, List.foldl_append]
  rfl

@[simp] theorem registers_setElements :
    (memory.setElements array start width value).registers = memory.registers := by
  induction width with
  | zero => rfl
  | succ width inductionHypothesis =>
      rw [setElements_succ, registers_setElement, inductionHypothesis]

/-- Each of the elements has the value of its lane. -/
theorem elements_setElements {lane : Nat} (within : lane < width) :
    (memory.setElements array start width value).elements ⟨array, [start + lane]⟩ = value lane := by
  induction width with
  | zero => exact absurd within (Nat.not_lt_zero lane)
  | succ width inductionHypothesis =>
      rw [setElements_succ]
      by_cases last : lane = width
      · subst last
        exact elements_setElement_self
      · rw [elements_setElement_of_ne (by simpa using last)]
        exact inductionHypothesis (by omega)

/-- Other elements stay as they are. -/
theorem elements_setElements_of_ne
    (apart : ∀ lane < width, other ≠ ⟨array, [start + lane]⟩) :
    (memory.setElements array start width value).elements other = memory.elements other := by
  induction width with
  | zero => rfl
  | succ width inductionHypothesis =>
      rw [setElements_succ, elements_setElement_of_ne (apart width (Nat.lt_succ_self width))]
      exact inductionHypothesis fun lane within => apart lane (Nat.lt_succ_of_lt within)

end Memory

section Rules

variable {meaning : Meaning α} {seat : Seat} {locals : Variables} {memory : Memory α}

@[simp] theorem performAll_nil : performAll meaning seat memory [] = memory := rfl

@[simp] theorem performAll_cons {step : Step} {steps : List Step} :
    performAll meaning seat memory (step :: steps) =
      performAll meaning seat (step.instruction.perform meaning seat step.locals memory) steps :=
  rfl

theorem Instruction.reads_subset_touched (instruction : Instruction) :
    instruction.reads seat locals ⊆ instruction.touched seat locals := by
  cases instruction with
  | assign place value => exact Set.subset_union_right
  | store width value index array => exact Set.subset_union_left
  | _ => exact Set.Subset.rfl

/-- An instruction leaves the elements alone that it does not write. -/
theorem Instruction.elements_perform_of_not_written {instruction : Instruction} {touch : Touch}
    (untouched : touch ∉ instruction.written seat locals) :
    (instruction.perform meaning seat locals memory).elements touch = memory.elements touch := by
  cases instruction with
  | assign place value =>
      cases place with
      | var name => rfl
      | element array indices =>
          exact Memory.elements_setElement_of_ne (mt List.mem_singleton.2 untouched)
  | accumulate place value =>
      cases place with
      | var name => rfl
      | element array indices =>
          exact Memory.elements_setElement_of_ne (mt List.mem_singleton.2 untouched)
  | store width value index array =>
      refine Memory.elements_setElements_of_ne fun lane within same => untouched ?_
      exact List.mem_map.2 ⟨lane, List.mem_range.2 within, same.symm⟩
  | _ => rfl

end Rules

end KernelTuner.Kernel
