import KernelTuner.Proofs.Kernel.Segments

/-!
Contract: arrays that go by other names.

Owns: instructions, steps and segments with other names for their arrays, where arrays that share
their elements have one name; the elements that they depend on and write; and `Runs.under`, by which
segments whose targets keep names of their own do under other names what they do under the first.

Does not own: which arrays of a launch share their elements (`Proofs.Variant.LaunchRuns`).
-/

set_option autoImplicit false

namespace KernelTuner.Kernel

open Function (update)

variable {ι α : Type}

/-! ### Names -/

section Definitions

variable (names : String → String)

def Touch.rename (touch : Touch) : Touch := ⟨names touch.array, touch.indices⟩

def Place.rename : Place → Place
  | .var name => .var name
  | .element array indices => .element (names array) indices

def Value.rename : Value → Value
  | .literal value => .literal value
  | .read place => .read (place.rename names)
  | .load width index array => .load width index (names array)
  | .lane vector own => .lane vector own
  | .binary operator left right => .binary operator left.rename right.rename
  | .orZero condition value => .orZero condition value.rename
  | .group value => .group value.rename

/-- The same instruction on arrays of other names. -/
def Instruction.rename : Instruction → Instruction
  | .declareIndex name value => .declareIndex name value
  | .declareValue type name value => .declareValue type name (value.rename names)
  | .declareArray shared element name extents => .declareArray shared element (names name) extents
  | .assign place value => .assign (place.rename names) (value.rename names)
  | .accumulate place value => .accumulate (place.rename names) (value.rename names)
  | .store width value index array => .store width (value.rename names) index (names array)
  | .barrier => .barrier

def Step.rename (step : Step) : Step := ⟨step.locals, step.instruction.rename names⟩

def Segment.rename : Segment ι → Segment ι
  | .work steps => .work fun item => (steps item).map (Step.rename names)
  | .barrier locals => .barrier locals

/-- What is found under the first names. -/
def Memory.under (memory : Memory α) : Memory α :=
  ⟨memory.registers, fun touch => memory.elements (touch.rename names)⟩

/-- What is seen under the first names. -/
def View.under (view : View ι α) : View ι α :=
  ⟨view.registers, fun touch => view.shared (touch.rename names)⟩

/-- An array shares its name with no other one. -/
def Alone (array : String) : Prop := ∀ other, names other = names array → other = array

/-- All arrays that steps assign elements of keep names of their own. -/
def TargetsAlone (steps : List Step) : Prop :=
  ∀ step ∈ steps, ∀ target, step.instruction.target? = some target → Alone names target

end Definitions

section Names

variable {names : String → String} {touch other : Touch}

theorem Touch.rename_inj (alone : Alone names touch.array) :
    other.rename names = touch.rename names ↔ other = touch := by
  refine ⟨fun same => ?_, fun same => same ▸ rfl⟩
  obtain ⟨sameName, sameIndices⟩ := Touch.mk.inj same
  obtain ⟨array, indices⟩ := other
  obtain rfl := alone array sameName
  exact congrArg _ sameIndices

/-- Elements of arrays with names of their own are found again under these names. -/
theorem Touch.rename_mem_image {touches : Set Touch}
    (alone : ∀ touch ∈ touches, Alone names touch.array) :
    touch.rename names ∈ Touch.rename names '' touches ↔ touch ∈ touches := by
  refine ⟨?_, fun member => ⟨touch, member, rfl⟩⟩
  rintro ⟨found, member, same⟩
  rwa [(Touch.rename_inj (alone found member)).1 same.symm]

end Names

/-! ### Elements -/

section Elements

variable {names : String → String} {seat : Seat} {locals : Variables} {touch : Touch}
  {steps : List Step}

theorem Place.touched_rename (place : Place) :
    (place.rename names).touched seat locals = Touch.rename names '' place.touched seat locals := by
  cases place with
  | var name => exact (Set.image_empty _).symm
  | element array indices =>
      show _ = Touch.rename names '' {⟨array, _⟩}
      rw [Set.image_singleton]
      rfl

theorem Value.footprint_rename (value : Value) :
    (value.rename names).footprint seat locals =
      Touch.rename names '' value.footprint seat locals := by
  induction value with
  | literal number => exact (Set.image_empty _).symm
  | lane vector own => exact (Set.image_empty _).symm
  | read place => exact place.touched_rename
  | group value inductionHypothesis => exact inductionHypothesis
  | binary operator left right leftHypothesis rightHypothesis =>
      exact (congrArg₂ _ leftHypothesis rightHypothesis).trans (Set.image_union ..).symm
  | load width index array =>
      ext touch
      constructor
      · rintro inArray
        exact ⟨⟨array, touch.indices⟩, rfl, congrArg (Touch.mk · touch.indices) inArray.symm⟩
      · rintro ⟨touch, rfl, rfl⟩
        rfl
  | orZero condition value inductionHypothesis =>
      ext touch
      constructor
      · rintro ⟨holds, inside⟩
        rw [inductionHypothesis] at inside
        obtain ⟨found, inValue, same⟩ := inside
        exact ⟨found, ⟨holds, inValue⟩, same⟩
      · rintro ⟨found, ⟨holds, inValue⟩, same⟩
        refine ⟨holds, ?_⟩
        rw [inductionHypothesis]
        exact ⟨found, inValue, same⟩

/-- Under other names, an instruction depends on the same elements. -/
theorem Instruction.footprint_rename (instruction : Instruction) :
    (instruction.rename names).footprint seat locals =
      Touch.rename names '' instruction.footprint seat locals := by
  have both {place : Place} {value : Value} :
      (place.rename names).touched seat locals ∪ (value.rename names).footprint seat locals =
        Touch.rename names '' (place.touched seat locals ∪ value.footprint seat locals) := by
    rw [Set.image_union, place.touched_rename, value.footprint_rename]
  cases instruction with
  | declareIndex name value => exact (Set.image_empty _).symm
  | declareArray shared element name extents => exact (Set.image_empty _).symm
  | barrier => exact (Set.image_empty _).symm
  | declareValue type name value => exact value.footprint_rename
  | assign place value => exact both
  | accumulate place value => exact both
  | store width value index array =>
      have vector : vectorTouched seat locals width index (names array) =
          Touch.rename names '' vectorTouched seat locals width index array := by
        ext touch
        constructor
        · rintro ⟨lane, within, rfl⟩
          exact ⟨_, ⟨lane, within, rfl⟩, rfl⟩
        · rintro ⟨_, ⟨lane, within, rfl⟩, rfl⟩
          exact ⟨lane, within, rfl⟩
      show _ ∪ _ = Touch.rename names '' (_ ∪ _)
      rw [Set.image_union, value.footprint_rename, vector]

theorem Instruction.written_rename (instruction : Instruction) :
    (instruction.rename names).written seat locals =
      (instruction.written seat locals).map (Touch.rename names) := by
  cases instruction with
  | assign place value => cases place <;> rfl
  | accumulate place value => cases place <;> rfl
  | store width value index array =>
      show _ = ((List.range width).map _).map _
      rw [List.map_map]
      rfl
  | _ => rfl

/-- Under other names, steps write the same elements. -/
theorem written_rename : written seat (steps.map (Step.rename names)) =
    (written seat steps).map (Touch.rename names) := by
  rw [written, written, List.flatMap_map, List.map_flatMap]
  exact List.flatMap_congr fun step _ => step.instruction.written_rename

theorem Instruction.own?_rename (instruction : Instruction) :
    (instruction.rename names).own? = instruction.own?.map names := by
  cases instruction with
  | declareArray shared element name extents => cases shared <;> rfl
  | _ => rfl

theorem Instruction.rename_eq_barrier {instruction : Instruction} :
    instruction.rename names = .barrier ↔ instruction = .barrier := by
  cases instruction <;> simp [rename]

theorem TargetsAlone.of_written (alone : TargetsAlone names steps)
    (writes : touch ∈ written seat steps) : Alone names touch.array := by
  obtain ⟨step, listed, inStep⟩ := List.mem_flatMap.1 writes
  exact alone step listed _ (Instruction.target_of_written inStep)

/-- What keeps its own name is written under other names only where it was written. -/
theorem mem_written_rename (alone : Alone names touch.array) :
    touch.rename names ∈ written seat (steps.map (Step.rename names)) ↔
      touch ∈ written seat steps := by
  rw [written_rename, List.mem_map]
  refine ⟨?_, fun writes => ⟨touch, writes, rfl⟩⟩
  rintro ⟨found, writes, same⟩
  rwa [← (Touch.rename_inj alone).1 same]

end Elements

/-! ### Effects -/

section Effects

variable {names : String → String} {meaning : Meaning α} {seat : Seat} {locals : Variables}
  {memory : Memory α} {steps : List Step}

theorem Place.found_rename (place : Place) (lane : Nat) :
    (place.rename names).found seat locals memory lane =
      place.found seat locals (memory.under names) lane := by
  cases place <;> rfl

theorem Value.inLane_rename (value : Value) (lane : Nat) :
    (value.rename names).inLane meaning seat locals memory lane =
      value.inLane meaning seat locals (memory.under names) lane := by
  induction value with
  | literal number => rfl
  | lane vector own => rfl
  | load width index array => rfl
  | read place => exact place.found_rename lane
  | group value inductionHypothesis => exact inductionHypothesis
  | binary operator left right leftHypothesis rightHypothesis =>
      exact congrArg₂ (meaning.operate operator) leftHypothesis rightHypothesis
  | orZero condition value inductionHypothesis =>
      rw [rename, inLane, inLane, inductionHypothesis]

theorem Memory.under_setElement {touch : Touch} (alone : Alone names touch.array) (value : α) :
    (memory.setElement (touch.rename names) value).under names =
      (memory.under names).setElement touch value := by
  refine congrArg (Memory.mk memory.registers) (funext fun other => ?_)
  show update memory.elements (touch.rename names) value (other.rename names) =
    update (fun touch => memory.elements (touch.rename names)) touch value other
  simp only [Function.update_apply, Touch.rename_inj alone]

theorem Memory.under_setElements {array : String} (alone : Alone names array) (start width : Nat)
    (value : Nat → α) :
    (memory.setElements (names array) start width value).under names =
      (memory.under names).setElements array start width value := by
  induction width with
  | zero => rfl
  | succ width inductionHypothesis =>
      rw [setElements_succ, setElements_succ, ← inductionHypothesis]
      have here : Alone names (⟨array, [start + width]⟩ : Touch).array := alone
      exact under_setElement here _

theorem Place.set_rename (place : Place) (alone : ∀ array indices, place = .element array indices →
      Alone names array) (value : Nat → α) :
    ((place.rename names).set seat locals memory value).under names =
      place.set seat locals (memory.under names) value := by
  cases place with
  | var name => rfl
  | element array indices =>
      have here : Alone names
          (⟨array, indices.map fun index => index.eval seat locals⟩ : Touch).array :=
        alone array indices rfl
      exact Memory.under_setElement here _

/-- Under other names, an instruction does what it does under the first, as long as the array that
it assigns an element of keeps a name of its own. -/
theorem Instruction.perform_rename (instruction : Instruction)
    (alone : ∀ target, instruction.target? = some target → Alone names target) :
    ((instruction.rename names).perform meaning seat locals memory).under names =
      instruction.perform meaning seat locals (memory.under names) := by
  cases instruction with
  | declareIndex name value => rfl
  | declareArray shared element name extents => rfl
  | barrier => rfl
  | declareValue type name value =>
      simp only [rename, perform, Value.inLane_rename]
      rfl
  | assign place value =>
      simp only [rename, perform, Value.inLane_rename]
      refine place.set_rename (fun array indices same => alone array ?_) _
      rw [same]
      rfl
  | accumulate place value =>
      simp only [rename, perform, Value.inLane_rename, Place.found_rename]
      refine place.set_rename (fun array indices same => alone array ?_) _
      rw [same]
      rfl
  | store width value index array =>
      simp only [rename, perform, Value.inLane_rename]
      exact Memory.under_setElements (alone array rfl) _ _ _

theorem performAll_rename (alone : TargetsAlone names steps) :
    (performAll meaning seat memory (steps.map (Step.rename names))).under names =
      performAll meaning seat (memory.under names) steps := by
  induction steps generalizing memory with
  | nil => rfl
  | cons step rest inductionHypothesis =>
      obtain ⟨first, later⟩ := List.forall_mem_cons.1 alone
      rw [List.map_cons, performAll_cons, performAll_cons, inductionHypothesis later]
      exact congrArg (performAll meaning seat · rest) (step.instruction.perform_rename first)

end Effects

/-! ### Groups -/

section Groups

variable {names : String → String} {meaning : Meaning α} {seat : ι → Seat}
  {steps : ι → List Step} {before after : View ι α} {segments : List (Segment ι)} {item : ι}

@[simp] theorem stepsOf_rename :
    stepsOf (segments.map (Segment.rename names)) item =
      (stepsOf segments item).map (Step.rename names) := by
  rw [stepsOf, stepsOf, List.flatMap_map, List.map_flatMap]
  refine List.flatMap_congr fun segment _ => ?_
  cases segment <;> rfl

theorem stages_rename : stages (segments.map (Segment.rename names)) =
    (stages segments).map fun stage item => (stage item).map (Step.rename names) := by
  induction segments with
  | nil => rfl
  | cons segment rest inductionHypothesis =>
      cases segment with
      | barrier locals => exact congrArg (List.cons _) inductionHypothesis
      | work steps =>
          obtain ⟨stage, later, same⟩ := exists_stages rest
          show (stages (rest.map (Segment.rename names))).modifyHead _ = _
          rw [inductionHypothesis, stages, same]
          simp only [List.map_cons, List.modifyHead_cons, List.map_append]

theorem Segment.Plain.rename {segment : Segment ι} (plain : segment.Plain) :
    (segment.rename names).Plain := by
  cases segment with
  | barrier locals => trivial
  | work steps =>
      intro item step listed isBarrier
      obtain ⟨first, among, rfl⟩ := List.mem_map.1 listed
      exact plain item first among (Instruction.rename_eq_barrier.1 isBarrier)

theorem respects_rename {owned : ι → Set Touch} {steps : List Step} :
    Respects seat owned item (steps.map (Step.rename names)) ↔
      Respects seat (fun item => {touch | touch.rename names ∈ owned item}) item steps := by
  refine List.forall_mem_map.trans (forall₂_congr fun step _ => and_congr ?_ ?_)
  · show (∀ touch ∈ (step.instruction.rename names).written _ _, _) ↔ _
    rw [Instruction.written_rename]
    exact List.forall_mem_map
  · show (∀ touch ∈ (step.instruction.rename names).footprint _ _, _) ↔ _
    rw [Instruction.footprint_rename]
    exact Set.forall_mem_image

theorem RaceFree.rename (raceFree : RaceFree seat steps)
    (alone : ∀ item, TargetsAlone names (steps item)) :
    RaceFree seat fun item => (steps item).map (Step.rename names) := by
  intro item other apart touch writes step listed inside
  rw [written_rename] at writes
  obtain ⟨own, wrote, rfl⟩ := List.mem_map.1 writes
  obtain ⟨first, among, rfl⟩ := List.mem_map.1 listed
  rw [Step.rename, Instruction.footprint_rename] at inside
  obtain ⟨found, inside, same⟩ := inside
  obtain rfl := (Touch.rename_inj ((alone item).of_written wrote)).1 same
  exact raceFree item other apart _ wrote first among inside

theorem Settles.under (alone : ∀ item, TargetsAlone names (steps item))
    (settles : Settles meaning seat (fun item => (steps item).map (Step.rename names)) before after) :
    Settles meaning seat steps (before.under names) (after.under names) := by
  have whole (item : ι) : (performAll meaning (seat item) (before.memory item)
      ((steps item).map (Step.rename names))).under names =
        performAll meaning (seat item) ((before.under names).memory item) (steps item) :=
    performAll_rename (alone item)
  constructor
  · intro item
    rw [← whole item]
    exact settles.registers item
  · intro item touch writes
    rw [← whole item]
    exact settles.written item _ ((mem_written_rename ((alone item).of_written writes)).2 writes)
  · intro touch untouched
    refine settles.kept _ fun item writes => ?_
    rw [written_rename] at writes
    obtain ⟨own, wrote, same⟩ := List.mem_map.1 writes
    obtain rfl := (Touch.rename_inj ((alone item).of_written wrote)).1 same.symm
    exact untouched item wrote

/-- Segments that run under other names run under the first, as long as the arrays that they assign
elements of keep names of their own. -/
theorem Runs.under (alone : ∀ item, TargetsAlone names (stepsOf segments item))
    (runs : Runs meaning seat (segments.map (Segment.rename names)) before after) :
    Runs meaning seat segments (before.under names) (after.under names) := by
  induction segments generalizing before with
  | nil =>
      obtain rfl : after = before := runs
      rfl
  | cons segment rest inductionHypothesis =>
      simp only [stepsOf_cons, TargetsAlone, List.forall_mem_append] at alone
      have later (item : ι) : TargetsAlone names (stepsOf rest item) := (alone item).2
      cases segment with
      | barrier locals => exact inductionHypothesis later runs
      | work steps =>
          obtain ⟨between, settles, runs⟩ := runs
          exact ⟨_, settles.under fun item => (alone item).1, inductionHypothesis later runs⟩

end Groups

end KernelTuner.Kernel
