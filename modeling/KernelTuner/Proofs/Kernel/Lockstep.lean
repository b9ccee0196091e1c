import KernelTuner.Proofs.Kernel.Group

/-!
Contract: work items that do not race.

Owns: the elements that an instruction depends on; what a group has come to when each of its
work items has taken its steps alone (`Settles`); that a group whose work items do not race has
come to this, whatever the order of its steps (`Settles.step`); and that steps one behind another
settle one behind another (`Settles.split`).

Does not own: barriers (`Proofs.Kernel.Segments`).
-/

set_option autoImplicit false

namespace KernelTuner.Kernel

open Function (update)

variable {α : Type}

/-! ### Footprints -/

section Definitions

variable (seat : Seat) (locals : Variables)

/-- The elements on which a value depends. A vector depends on its whole array, since a variable
has a value in every lane. -/
def Value.footprint : Value → Set Touch
  | .literal _ => ∅
  | .read place => place.touched seat locals
  | .load _ _ array => {touch | touch.array = array}
  | .lane _ _ => ∅
  | .binary _ left right => left.footprint ∪ right.footprint
  | .orZero condition value => {touch | condition.Holds seat locals ∧ touch ∈ value.footprint}
  | .group value => value.footprint

/-- The elements on which the effect of an instruction depends, and those that it writes. -/
def Instruction.footprint : Instruction → Set Touch
  | .declareIndex _ _ => ∅
  | .declareValue _ _ value => value.footprint seat locals
  | .declareArray _ _ _ _ => ∅
  | .assign place value => place.touched seat locals ∪ value.footprint seat locals
  | .accumulate place value => place.touched seat locals ∪ value.footprint seat locals
  | .store width value index array =>
      value.footprint seat locals ∪ vectorTouched seat locals width index array
  | .barrier => ∅

end Definitions

/-- The arrays of which a value has elements. -/
def Value.arrays : Value → List String
  | .literal _ => []
  | .read (.var _) => []
  | .read (.element array _) => [array]
  | .load _ _ array => [array]
  | .lane _ _ => []
  | .binary _ left right => left.arrays ++ right.arrays
  | .orZero _ value => value.arrays
  | .group value => value.arrays

/-- The arrays of which an instruction has elements in its value. -/
def Instruction.sources : Instruction → List String
  | .declareValue _ _ value => value.arrays
  | .assign _ value => value.arrays
  | .accumulate _ value => value.arrays
  | .store _ value _ _ => value.arrays
  | _ => []

/-- An instruction that sets no element, waits for nobody, and finds elements of certain arrays
only. -/
def Instruction.Keeps (sources : List String) : Instruction → Prop
  | .declareIndex _ _ => True
  | .declareValue _ _ value => value.arrays ⊆ sources
  | .declareArray shared _ _ _ => shared = true
  | .assign (.var _) value => value.arrays ⊆ sources
  | .accumulate (.var _) value => value.arrays ⊆ sources
  | _ => False

/-- Memories that agree on variables, and on certain elements. -/
structure Memory.SameOn (touches : Set Touch) (memory other : Memory α) : Prop where
  registers : memory.registers = other.registers
  elements : ∀ touch ∈ touches, memory.elements touch = other.elements touch

section Footprints

variable {meaning : Meaning α} {seat : Seat} {locals : Variables} {memory other : Memory α}
  {touches : Set Touch} {touch : Touch} {steps front back : List Step}

theorem Instruction.written_subset_footprint {instruction : Instruction}
    (writes : touch ∈ instruction.written seat locals) :
    touch ∈ instruction.footprint seat locals := by
  cases instruction with
  | declareIndex name value => cases writes
  | declareValue type name value => cases writes
  | declareArray shared element name extents => cases writes
  | barrier => cases writes
  | store width value index array =>
      obtain ⟨lane, within, rfl⟩ := List.mem_map.1 writes
      exact .inr ⟨lane, List.mem_range.1 within, rfl⟩
  | assign place value =>
      cases place with
      | var name => cases writes
      | element array indices => exact .inl (List.mem_singleton.1 writes)
  | accumulate place value =>
      cases place with
      | var name => cases writes
      | element array indices => exact .inl (List.mem_singleton.1 writes)

theorem Value.footprint_subset_arrays (value : Value) :
    value.footprint seat locals ⊆ {touch | touch.array ∈ value.arrays} := by
  induction value with
  | literal number => exact Set.empty_subset _
  | lane vector own => exact Set.empty_subset _
  | load width index array => exact fun touch inside => List.mem_singleton.2 inside
  | group value inductionHypothesis => exact inductionHypothesis
  | orZero condition value inductionHypothesis =>
      exact fun touch inside => inductionHypothesis inside.2
  | binary operator left right leftHypothesis rightHypothesis =>
      rintro touch (inside | inside)
      · exact List.mem_append_left _ (leftHypothesis inside)
      · exact List.mem_append_right _ (rightHypothesis inside)
  | read place =>
      cases place with
      | var name => exact Set.empty_subset _
      | element array indices =>
          rintro touch rfl
          exact List.mem_singleton_self array

/-- Where a value has no element of an array, an instruction finds such an element only where it
writes it. -/
theorem Instruction.written_of_footprint {instruction : Instruction}
    (absent : touch.array ∉ instruction.sources)
    (inside : touch ∈ instruction.footprint seat locals) :
    touch ∈ instruction.written seat locals := by
  have other {value : Value} (absent : touch.array ∉ value.arrays) :
      touch ∉ value.footprint seat locals :=
    fun member => absent (value.footprint_subset_arrays member)
  cases instruction with
  | declareIndex name value => cases inside
  | declareArray shared element name extents => cases inside
  | barrier => cases inside
  | declareValue type name value => exact absurd inside (other absent)
  | store width value index array =>
      obtain ⟨lane, within, rfl⟩ := inside.resolve_left (other absent)
      exact List.mem_map.2 ⟨lane, List.mem_range.2 within, rfl⟩
  | assign place value =>
      have own := inside.resolve_right (other absent)
      cases place with
      | var name => cases own
      | element array indices => exact List.mem_singleton.2 own
  | accumulate place value =>
      have own := inside.resolve_right (other absent)
      cases place with
      | var name => cases own
      | element array indices => exact List.mem_singleton.2 own

namespace Instruction.Keeps

variable {sources : List String} {instruction : Instruction} (keeps : instruction.Keeps sources)
include keeps

theorem ne_barrier : instruction ≠ .barrier := by
  rintro rfl
  exact keeps

theorem written_eq_nil : instruction.written seat locals = [] := by
  cases instruction with
  | store width value index array => exact keeps.elim
  | assign place value => cases place <;> first | rfl | exact keeps.elim
  | accumulate place value => cases place <;> first | rfl | exact keeps.elim
  | _ => rfl

theorem target?_eq_none : instruction.target? = none := by
  cases instruction with
  | store width value index array => exact keeps.elim
  | assign place value => cases place <;> first | rfl | exact keeps.elim
  | accumulate place value => cases place <;> first | rfl | exact keeps.elim
  | _ => rfl

theorem own?_eq_none : instruction.own? = none := by
  cases instruction with
  | declareArray shared element name extents =>
      obtain rfl : shared = true := keeps
      rfl
  | _ => rfl

theorem sources_subset : instruction.sources ⊆ sources := by
  cases instruction with
  | declareValue type name value => exact keeps
  | store width value index array => exact keeps.elim
  | assign place value => cases place <;> first | exact keeps | exact keeps.elim
  | accumulate place value => cases place <;> first | exact keeps | exact keeps.elim
  | _ => exact List.nil_subset _

theorem footprint_subset : instruction.footprint seat locals ⊆ {touch | touch.array ∈ sources} := by
  have inSources {value : Value} (within : value.arrays ⊆ sources) :
      value.footprint seat locals ⊆ {touch | touch.array ∈ sources} :=
    fun touch inside => within (value.footprint_subset_arrays inside)
  cases instruction with
  | declareIndex name value => exact Set.empty_subset _
  | declareArray shared element name extents => exact Set.empty_subset _
  | declareValue type name value => exact inSources keeps
  | store width value index array => exact keeps.elim
  | barrier => exact keeps.elim
  | assign place value =>
      cases place with
      | var name => exact Set.union_subset (Set.empty_subset _) (inSources keeps)
      | element array indices => exact keeps.elim
  | accumulate place value =>
      cases place with
      | var name => exact Set.union_subset (Set.empty_subset _) (inSources keeps)
      | element array indices => exact keeps.elim

end Instruction.Keeps

theorem written_eq_nil_of_keeps {sources : List String}
    (keeps : ∀ step ∈ steps, step.instruction.Keeps sources) : written seat steps = [] :=
  List.flatMap_eq_nil_iff.2 fun step listed => (keeps step listed).written_eq_nil

theorem Memory.SameOn.mono {fewer : Set Touch} (same : memory.SameOn touches other)
    (within : fewer ⊆ touches) : memory.SameOn fewer other :=
  ⟨same.registers, fun touch member => same.elements touch (within member)⟩

theorem Place.found_eq (same : memory.SameOn touches other) {place : Place}
    (inside : place.touched seat locals ⊆ touches) (lane : Nat) :
    place.found seat locals memory lane = place.found seat locals other lane := by
  cases place with
  | var name => exact congrFun (congrFun same.registers name) lane
  | element array indices => exact same.elements _ (inside rfl)

theorem Value.inLane_eq (same : memory.SameOn touches other) {value : Value}
    (inside : value.footprint seat locals ⊆ touches) (lane : Nat) :
    value.inLane meaning seat locals memory lane = value.inLane meaning seat locals other lane := by
  induction value with
  | literal number => rfl
  | read place => exact place.found_eq same inside lane
  | load width index array => exact same.elements _ (inside rfl)
  | lane vector own => exact congrFun (congrFun same.registers vector) own
  | group value inductionHypothesis => exact inductionHypothesis inside
  | binary operator left right leftHypothesis rightHypothesis =>
      rw [inLane, inLane, leftHypothesis (Set.union_subset_iff.1 inside).1,
        rightHypothesis (Set.union_subset_iff.1 inside).2]
  | orZero condition value inductionHypothesis =>
      rw [inLane, inLane]
      split
      · next holds => exact inductionHypothesis fun touch member => inside ⟨holds, member⟩
      · rfl

namespace Memory.SameOn

theorem setVariable (same : memory.SameOn touches other) (name : String) (value : Nat → α) :
    (memory.setVariable name value).SameOn touches (other.setVariable name value) := by
  refine ⟨?_, same.elements⟩
  show update memory.registers name value = update other.registers name value
  rw [same.registers]

theorem setElement (same : memory.SameOn touches other) (written : Touch) (value : α) :
    (memory.setElement written value).SameOn touches (other.setElement written value) := by
  refine ⟨same.registers, fun touch member => ?_⟩
  by_cases isWritten : touch = written
  · rw [isWritten, elements_setElement_self, elements_setElement_self]
  · rw [elements_setElement_of_ne isWritten, elements_setElement_of_ne isWritten]
    exact same.elements touch member

theorem setElements (same : memory.SameOn touches other) (array : String) (start width : Nat)
    (value : Nat → α) :
    (memory.setElements array start width value).SameOn touches
      (other.setElements array start width value) := by
  induction width with
  | zero => exact same
  | succ width inductionHypothesis =>
      rw [setElements_succ, setElements_succ]
      exact inductionHypothesis.setElement _ _

theorem set (same : memory.SameOn touches other) (place : Place) (value : Nat → α) :
    (place.set seat locals memory value).SameOn touches (place.set seat locals other value) := by
  cases place with
  | var name => exact same.setVariable name value
  | element array indices => exact same.setElement _ _

end Memory.SameOn

/-- An instruction does the same to memories that agree on its footprint. -/
theorem Instruction.perform_sameOn {instruction : Instruction} (same : memory.SameOn touches other)
    (inside : instruction.footprint seat locals ⊆ touches) :
    (instruction.perform meaning seat locals memory).SameOn touches
      (instruction.perform meaning seat locals other) := by
  cases instruction with
  | declareIndex name value => exact same
  | declareArray shared element name extents => exact same
  | barrier => exact same
  | declareValue type name value =>
      simp only [perform, Value.inLane_eq same inside]
      exact same.setVariable name _
  | assign place value =>
      simp only [perform, Value.inLane_eq same (Set.union_subset_iff.1 inside).2]
      exact same.set place _
  | accumulate place value =>
      simp only [perform, Value.inLane_eq same (Set.union_subset_iff.1 inside).2,
        Place.found_eq same (Set.union_subset_iff.1 inside).1]
      exact same.set place _
  | store width value index array =>
      simp only [perform, Value.inLane_eq same (Set.union_subset_iff.1 inside).1]
      exact same.setElements array _ width _

theorem performAll_sameOn (same : memory.SameOn touches other)
    (inside : ∀ step ∈ steps, step.instruction.footprint seat step.locals ⊆ touches) :
    (performAll meaning seat memory steps).SameOn touches
      (performAll meaning seat other steps) := by
  induction steps generalizing memory other with
  | nil => exact same
  | cons step rest inductionHypothesis =>
      rw [List.forall_mem_cons] at inside
      exact inductionHypothesis (Instruction.perform_sameOn same inside.1) inside.2

theorem performAll_append :
    performAll meaning seat memory (front ++ back) =
      performAll meaning seat (performAll meaning seat memory front) back :=
  List.foldl_append

theorem elements_performAll_of_not_written (untouched : touch ∉ written seat steps) :
    (performAll meaning seat memory steps).elements touch = memory.elements touch := by
  induction steps generalizing memory with
  | nil => rfl
  | cons step rest inductionHypothesis =>
      rw [written_cons, List.mem_append, not_or] at untouched
      rw [performAll_cons, inductionHypothesis untouched.2,
        Instruction.elements_perform_of_not_written untouched.1]

end Footprints

/-! ### Groups -/

/-- What the work items of a group see: their own variables, and the elements that they share. -/
@[ext] structure View (ι α : Type) where
  registers : ι → String → Nat → α
  shared : Touch → α

variable {ι : Type}

namespace View

def memory (view : View ι α) (item : ι) : Memory α := ⟨view.registers item, view.shared⟩

/-- What is seen behind a step of a work item. -/
def after [DecidableEq ι] (meaning : Meaning α) (seat : ι → Seat) (view : View ι α) (item : ι)
    (step : Step) : View ι α :=
  let memory := step.instruction.perform meaning (seat item) step.locals (view.memory item)
  ⟨update view.registers item memory.registers, memory.elements⟩

end View

/-- No work item depends on an element that another one writes. -/
def RaceFree (seat : ι → Seat) (steps : ι → List Step) : Prop :=
  ∀ item other, item ≠ other → ∀ touch ∈ written (seat item) (steps item),
    ∀ step ∈ steps other, touch ∉ step.instruction.footprint (seat other) step.locals

/-- What the group has come to when each work item takes its steps alone. -/
structure Settles (meaning : Meaning α) (seat : ι → Seat) (steps : ι → List Step)
    (before after : View ι α) : Prop where
  registers : ∀ item, after.registers item =
    (performAll meaning (seat item) (before.memory item) (steps item)).registers
  written : ∀ item, ∀ touch ∈ written (seat item) (steps item), after.shared touch =
    (performAll meaning (seat item) (before.memory item) (steps item)).elements touch
  kept : ∀ touch, (∀ item, touch ∉ Kernel.written (seat item) (steps item)) →
    after.shared touch = before.shared touch

section Groups

variable {meaning : Meaning α} {seat : ι → Seat} {steps front back : ι → List Step} {item : ι}
  {touch : Touch} {before view after : View ι α}

namespace RaceFree

theorem not_written {other : ι} (raceFree : RaceFree seat steps) (apart : item ≠ other)
    (writes : touch ∈ written (seat item) (steps item)) :
    touch ∉ written (seat other) (steps other) := by
  intro otherWrites
  obtain ⟨step, listed, inStep⟩ := List.mem_flatMap.1 otherWrites
  exact raceFree item other apart touch writes step listed
    (Instruction.written_subset_footprint inStep)

/-- Fewer steps race less. -/
theorem mono (raceFree : RaceFree seat steps) (fewer : ∀ item, front item ⊆ steps item) :
    RaceFree seat front := by
  intro item other apart touch writes step listed
  refine raceFree item other apart touch ?_ step (fewer other listed)
  obtain ⟨writer, among, inStep⟩ := List.mem_flatMap.1 writes
  exact List.mem_flatMap.2 ⟨writer, fewer item among, inStep⟩

theorem left (raceFree : RaceFree seat fun item => front item ++ back item) :
    RaceFree seat front :=
  raceFree.mono fun item => List.subset_append_left (front item) (back item)

theorem right (raceFree : RaceFree seat fun item => front item ++ back item) :
    RaceFree seat back :=
  raceFree.mono fun item => List.subset_append_right (front item) (back item)

/-- The elements that nobody else writes. They hold the footprint of the work item. -/
theorem footprint_subset (raceFree : RaceFree seat steps) {step : Step}
    (listed : step ∈ steps item) : step.instruction.footprint (seat item) step.locals ⊆
      {touch | ∀ other, other ≠ item → touch ∉ written (seat other) (steps other)} :=
  fun touch inside other apart writes =>
    raceFree other item apart touch writes step listed inside

end RaceFree

namespace Settles

/-- A work item finds what it would have found alone, but for what others write. -/
theorem sameOn (settles : Settles meaning seat steps before view) (item : ι) :
    (view.memory item).SameOn
      {touch | ∀ other, other ≠ item → touch ∉ Kernel.written (seat other) (steps other)}
      (performAll meaning (seat item) (before.memory item) (steps item)) := by
  refine ⟨settles.registers item, fun touch own => ?_⟩
  by_cases writes : touch ∈ Kernel.written (seat item) (steps item)
  · exact settles.written item touch writes
  · rw [elements_performAll_of_not_written writes]
    apply settles.kept
    intro other otherWrites
    by_cases same : other = item
    · exact writes (same ▸ otherWrites)
    · exact own other same otherWrites

theorem nil (view : View ι α) : Settles meaning seat (fun _ => []) view view :=
  ⟨fun _ => rfl, fun _ _ writes => absurd writes List.not_mem_nil, fun _ _ => rfl⟩

theorem eq_of_nil (settles : Settles meaning seat (fun _ => []) before view) : view = before := by
  apply View.ext
  · exact funext settles.registers
  · exact funext fun touch => settles.kept touch fun _ => List.not_mem_nil

/-- One more step of a work item. -/
theorem step [DecidableEq ι] {step : Step} (settles : Settles meaning seat steps before view)
    (raceFree : RaceFree seat (update steps item (steps item ++ [step]))) :
    Settles meaning seat (update steps item (steps item ++ [step])) before
      (view.after meaning seat item step) := by
  have own : update steps item (steps item ++ [step]) item = steps item ++ [step] :=
    Function.update_self ..
  have rest {other : ι} (apart : other ≠ item) :
      update steps item (steps item ++ [step]) other = steps other := Function.update_of_ne apart ..
  have last : step ∈ update steps item (steps item ++ [step]) item := by
    rw [own]
    exact List.mem_append_right _ List.mem_cons_self
  have whole : (performAll meaning (seat item) (before.memory item) (steps item ++ [step])) =
      step.instruction.perform meaning (seat item) step.locals
        (performAll meaning (seat item) (before.memory item) (steps item)) := performAll_append
  -- The step depends on nothing that anybody else has written so far.
  have inside : step.instruction.footprint (seat item) step.locals ⊆
      {touch | ∀ other, other ≠ item → touch ∉ Kernel.written (seat other) (steps other)} := by
    intro touch member other apart
    rw [← rest apart]
    exact raceFree.footprint_subset last member other apart
  have same : (step.instruction.perform meaning (seat item) step.locals (view.memory item)).SameOn _
      (step.instruction.perform meaning (seat item) step.locals
        (performAll meaning (seat item) (before.memory item) (steps item))) :=
    Instruction.perform_sameOn (settles.sameOn item) inside
  constructor
  · intro other
    by_cases apart : other = item
    · subst apart
      rw [own, whole]
      exact (Function.update_self ..).trans same.registers
    · rw [rest apart, ← settles.registers other]
      exact Function.update_of_ne apart ..
  · intro other touch writes
    by_cases apart : other = item
    · subst apart
      rw [own, whole]
      refine same.elements touch fun third thirdApart => ?_
      rw [← rest thirdApart]
      exact raceFree.not_written (Ne.symm thirdApart) writes
    · rw [rest apart, ← settles.written other touch (by rwa [← rest apart])]
      apply Instruction.elements_perform_of_not_written
      intro stepWrites
      exact raceFree other item apart touch writes step last
        (Instruction.written_subset_footprint stepWrites)
  · intro touch untouched
    have notLast : touch ∉ step.instruction.written (seat item) step.locals := by
      intro stepWrites
      exact untouched item (List.mem_flatMap.2 ⟨step, last, stepWrites⟩)
    refine (Instruction.elements_perform_of_not_written notLast).trans (settles.kept touch ?_)
    intro other writes
    apply untouched other
    by_cases apart : other = item
    · subst apart
      rw [own, written_append]
      exact List.mem_append_left _ writes
    · rwa [rest apart]

end Settles

open Classical in
/-- Work items that do not race come to something. -/
theorem exists_settles (meaning : Meaning α) (raceFree : RaceFree seat steps)
    (before : View ι α) : ∃ after, Settles meaning seat steps before after := by
  refine ⟨⟨fun item => (performAll meaning (seat item) (before.memory item) (steps item)).registers,
    fun touch => if writes : ∃ item, touch ∈ written (seat item) (steps item) then
      (performAll meaning (seat writes.choose) (before.memory writes.choose)
        (steps writes.choose)).elements touch
    else before.shared touch⟩, fun _ => rfl, ?_, fun _ untouched => ?_⟩
  · intro item touch writes
    have some : ∃ item, touch ∈ written (seat item) (steps item) := ⟨item, writes⟩
    have only : some.choose = item := by
      by_contra apart
      exact raceFree.not_written apart some.choose_spec writes
    simp only [dif_pos some, only]
  · exact dif_neg fun ⟨item, writes⟩ => untouched item writes

/-- Steps one behind another settle one behind another. -/
theorem Settles.split (raceFree : RaceFree seat fun item => front item ++ back item)
    (settles : Settles meaning seat (fun item => front item ++ back item) before after) :
    ∃ between, Settles meaning seat front before between ∧
      Settles meaning seat back between after := by
  obtain ⟨between, first⟩ := exists_settles meaning raceFree.left before
  -- What nobody else writes at all is found as if the work item were alone.
  have same (item : ι) : (performAll meaning (seat item) (between.memory item) (back item)).SameOn
      {touch | ∀ other, other ≠ item →
        touch ∉ Kernel.written (seat other) (front other ++ back other)}
      (performAll meaning (seat item) (before.memory item) (front item ++ back item)) := by
    rw [performAll_append]
    refine performAll_sameOn ((first.sameOn item).mono ?_) fun step listed =>
      raceFree.footprint_subset (List.mem_append_right _ listed)
    intro touch own other apart writes
    exact own other apart (written_append ▸ List.mem_append_left _ writes)
  refine ⟨between, first, ?_, ?_, ?_⟩
  · intro item
    rw [settles.registers item, (same item).registers]
  · intro item touch writes
    have among : touch ∈ Kernel.written (seat item) (front item ++ back item) := by
      rw [written_append]
      exact List.mem_append_right _ writes
    rw [settles.written item touch among]
    refine ((same item).elements touch fun other apart => ?_).symm
    exact raceFree.not_written (Ne.symm apart) among
  · intro touch untouched
    by_cases writes : ∃ item, touch ∈ Kernel.written (seat item) (front item)
    · obtain ⟨item, wrote⟩ := writes
      have among : touch ∈ Kernel.written (seat item) (front item ++ back item) := by
        rw [written_append]
        exact List.mem_append_left _ wrote
      rw [settles.written item touch among, first.written item touch wrote, performAll_append,
        elements_performAll_of_not_written (untouched item)]
    · rw [settles.kept touch, first.kept touch]
      · exact fun item wrote => writes ⟨item, wrote⟩
      · intro item wrote
        rw [written_append, List.mem_append] at wrote
        rcases wrote with wrote | wrote
        · exact writes ⟨item, wrote⟩
        · exact untouched item wrote

end Groups

end KernelTuner.Kernel
