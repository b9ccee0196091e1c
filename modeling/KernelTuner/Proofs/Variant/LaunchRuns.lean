import KernelTuner.Proofs.Kernel.Grid
import KernelTuner.Proofs.Kernel.Renaming
import KernelTuner.Proofs.Variant.ProductCover
import Mathlib.Data.Fintype.Pi

/-!
Contract: what a launch does to memory.

Owns: the memory that outlives launches, and the arrays of a kernel in it, of which several may be
one; the grid of a launch over that memory; that a launch leaves one memory behind
(`PlannedLaunch.Completes.unique`); and `PlannedLaunch.Completes.of_segments`, by which a launch that
writes each element of an array once leaves there what its groups leave there alone, in whatever
order their work items take their steps.

Does not own: what the kernels of a variant compute.
-/

set_option autoImplicit false

namespace KernelTuner

open Kernel

variable {α : Type}

/-! ### Memory -/

/-- Memory that outlives a launch. -/
inductive Storage where
  | buffer (id : BufferId)
  | workspace (slot : Nat)
deriving DecidableEq

/-- The elements that are stored. -/
abbrev Store (α : Type) := Storage → Nat → α

/-- The same elements, but for the first `count` that are stored in one place. -/
def Store.refill (store : Store α) (storage : Storage) (count : Nat) (value : Nat → α) : Store α :=
  fun other element =>
    if other = storage ∧ element < count then value element else store other element

theorem Store.refill_congr {store : Store α} {storage : Storage} {count : Nat}
    {value other : Nat → α} (same : ∀ element < count, value element = other element) :
    store.refill storage count value = store.refill storage count other := by
  funext place element
  exact if_ctx_congr Iff.rfl (fun inside => same element inside.2) fun _ => rfl

/-- Where the elements of an argument are stored. -/
def Argument.storage? : Argument → Option Storage
  | .buffer id => some (.buffer id)
  | .workspace slot _ => some (.workspace slot)
  | _ => none

/-- The parameters of a kernel that are arrays. -/
def Kernel.arrays (kernel : Kernel) : List String :=
  kernel.parameters.filterMap fun parameter =>
    match parameter with
    | .pointer _ _ name => some name
    | _ => none

/-- The arrays in the text of a kernel that a work group has for itself. -/
def Kernel.scratch (kernel : Kernel) : List String :=
  (blockInstructions kernel.body).filterMap fun instruction =>
    match instruction with
    | .declareArray true _ name _ => some name
    | _ => none

/-- No work item has an array for itself in the text of a kernel, and of the arrays that are not a
group's own the text sets elements of one only, of which it finds none. -/
def Kernel.Fills (kernel : Kernel) (array : String) : Prop :=
  ∀ instruction ∈ blockInstructions kernel.body, instruction.own? = none ∧
    array ∉ instruction.sources ∧
      ∀ target, instruction.target? = some target → target = array ∨ target ∈ kernel.scratch

namespace PlannedLaunch

section Definitions

variable (launch : PlannedLaunch) (kernel : Kernel)

/-- Where the elements of a kernel's array are stored, if it is a parameter. -/
def storage? (array : String) : Option Storage :=
  (kernel.parameters.zip launch.arguments).findSome? fun passed =>
    match passed with
    | (.pointer _ _ declared, argument) => if declared = array then argument.storage? else none
    | _ => none

/-- The array that has the elements of this one: of the parameters that are stored in one place, the
first. -/
def home (array : String) : String :=
  ((launch.storage? kernel array).bind fun storage => kernel.arrays.find? fun other =>
    launch.storage? kernel other = some storage).getD array

/-- The arrays of a kernel hold what is stored for them. -/
def Holds (store : Store α) (arrays : Touch → α) : Prop :=
  ∀ array storage, launch.storage? kernel array = some storage →
    ∀ element, arrays ⟨array, [element]⟩ = store storage element

/-! ### Grids -/

/-- A work group, by dimension. -/
def Group : Type :=
  {number : Nat → Nat // ∀ dimension, number dimension < launch.groupsAlong dimension}

/-- A place in a work group, by dimension. -/
def Place : Type :=
  {number : Nat → Nat // ∀ dimension, number dimension < launch.groupSize dimension}

variable {launch} in
/-- The work item of a group at a place. -/
def itemAt (group : launch.Group) (place : launch.Place) : launch.Item :=
  ⟨group.1, place.1, group.2, place.2⟩

/-- The work groups of a launch, with the steps of their work items. Parameters that are stored in
one place are one array. -/
def grid (steps : launch.Item → List Step) : Grid launch.Group launch.Place where
  crew group := ⟨fun place => (itemAt group place).seat,
    fun place => (steps (itemAt group place)).map (Step.rename (launch.home kernel))⟩
  scratch := kernel.scratch

open Classical in
/-- Whatever the order of these steps, the launch comes to its end, and turns what was stored
before into what is stored after. -/
structure Completes (meaning : Meaning α) (steps : launch.Item → List Step)
    (before after : Store α) : Prop where
  ends : WellFounded fun next state => (launch.grid kernel steps).Advances meaning state next
  leaves : ∀ arrays first state,
    launch.Holds kernel before (fun touch => arrays (touch.rename (launch.home kernel))) →
      (launch.grid kernel steps).Starts arrays first →
        (launch.grid kernel steps).Reaches meaning first state →
          (∃ next, (launch.grid kernel steps).Advances meaning state next) ∨
            (launch.grid kernel steps).Through state ∧ launch.Holds kernel after
              (fun touch => state.arrays (touch.rename (launch.home kernel)))
  others : ∀ storage, (∀ array, launch.storage? kernel array ≠ some storage) →
    after storage = before storage

end Definitions

variable {launch : PlannedLaunch} {kernel : Kernel} {steps : launch.Item → List Step}
  {meaning : Meaning α} {before after : Store α} {array other : String} {storage : Storage}

/-- Numbers below bounds that are one from some dimension on. -/
theorem finite_bounded {bound : Nat → Nat} (dimensions : Nat)
    (beyond : ∀ dimension, dimensions ≤ dimension → bound dimension ≤ 1) :
    Finite {number : Nat → Nat // ∀ dimension, number dimension < bound dimension} := by
  refine Finite.of_injective (β := (dimension : Fin dimensions) → Fin (bound dimension))
    (fun number dimension => ⟨number.1 dimension, number.2 dimension⟩) fun left right same => ?_
  apply Subtype.ext
  funext dimension
  rcases Nat.lt_or_ge dimension dimensions with inside | outside
  · exact congrArg Fin.val (congrFun same ⟨dimension, inside⟩)
  · have first := left.2 dimension
    have second := right.2 dimension
    have one := beyond dimension outside
    omega

instance : Finite launch.Place := by
  refine finite_bounded launch.localSize.length fun dimension outside => ?_
  rw [groupSize, List.getD_eq_getElem?_getD, List.getElem?_eq_none outside]
  exact Nat.le_refl 1

instance : Finite launch.Group := by
  refine finite_bounded (max launch.globalSize.length launch.localSize.length)
    fun dimension outside => ?_
  rw [groupsAlong, itemsAlong, groupSize, List.getD_eq_getElem?_getD,
    List.getD_eq_getElem?_getD, List.getElem?_eq_none (le_trans (le_max_left _ _) outside),
    List.getElem?_eq_none (le_trans (le_max_right _ _) outside)]
  exact Nat.le_refl 1

/-! ### Homes -/

theorem mem_arrays_of_storage (stored : launch.storage? kernel array = some storage) :
    array ∈ kernel.arrays := by
  obtain ⟨⟨parameter, argument⟩, passed, found⟩ := List.exists_of_findSome?_eq_some stored
  refine List.mem_filterMap.2 ⟨parameter, (List.of_mem_zip passed).1, ?_⟩
  cases parameter with
  | size name => cases found
  | scalar type name => cases found
  | pointer readOnly type name =>
      simp only at found
      split at found
      · next same => exact congrArg some same
      · cases found

theorem home_of_none (own : launch.storage? kernel array = none) :
    launch.home kernel array = array := by
  rw [home, own]
  rfl

/-- An array is stored where its home is. -/
theorem storage?_home : launch.storage? kernel (launch.home kernel array) =
    launch.storage? kernel array := by
  cases stored : launch.storage? kernel array with
  | none => rw [home_of_none stored, stored]
  | some storage =>
      rw [home, stored, Option.bind_some]
      cases found : kernel.arrays.find? fun other => launch.storage? kernel other = some storage with
      | none => exact stored
      | some first => exact of_decide_eq_true (List.find?_some (p := fun other =>
          decide (launch.storage? kernel other = some storage)) found)

/-- Arrays have one home if they are one array, or stored in one place. -/
theorem home_eq_iff : launch.home kernel array = launch.home kernel other ↔
    array = other ∨ ∃ storage, launch.storage? kernel array = some storage ∧
      launch.storage? kernel other = some storage := by
  constructor
  · intro same
    have together : launch.storage? kernel array = launch.storage? kernel other := by
      rw [← storage?_home, same, storage?_home]
    cases stored : launch.storage? kernel array with
    | none => exact .inl ((home_of_none stored).symm.trans
        (same.trans (home_of_none (together.symm.trans stored))))
    | some storage => exact .inr ⟨storage, rfl, together.symm.trans stored⟩
  · rintro (rfl | ⟨storage, stored, otherStored⟩)
    · rfl
    · have some : (kernel.arrays.find? fun other =>
          launch.storage? kernel other = some storage).isSome :=
        List.find?_isSome.2 ⟨array, mem_arrays_of_storage stored, decide_eq_true stored⟩
      obtain ⟨first, found⟩ := Option.isSome_iff_exists.1 some
      rw [home, home, stored, otherStored, Option.bind_some, found]
      rfl

theorem alone_of_none (own : launch.storage? kernel array = none) :
    Alone (launch.home kernel) array := by
  intro other same
  refine (home_eq_iff.1 same).resolve_right ?_
  rintro ⟨storage, _, stored⟩
  rw [own] at stored
  cases stored

theorem alone_of_only (only : ∀ other, launch.storage? kernel other = some storage ↔ other = array) :
    Alone (launch.home kernel) array := by
  intro other same
  refine (home_eq_iff.1 same).elim id ?_
  rintro ⟨place, stored, here⟩
  obtain rfl : place = storage := Option.some.inj (here.symm.trans ((only array).2 rfl))
  exact (only other).1 stored

/-! ### Texts -/

/-- A group's own arrays are no homes of others. -/
theorem home_scratch_iff (given : ∀ own ∈ kernel.scratch, launch.storage? kernel own = none) :
    launch.home kernel array ∈ kernel.scratch ↔ array ∈ kernel.scratch := by
  constructor
  · intro inside
    have own := given _ inside
    rw [storage?_home] at own
    rwa [home_of_none own] at inside
  · intro inside
    rwa [home_of_none (given array inside)]

section Texts

variable {count : Nat} {value : Nat → α} (fills : kernel.Fills array)
  (unrolls : ∀ item : launch.Item,
    blockUnrolls item.seat (launch.sizes kernel) kernel.body (steps item))
  (given : ∀ own ∈ kernel.scratch, launch.storage? kernel own = none)
  (writesOnce : launch.WritesOnce kernel array count)
include unrolls

section Writes

include fills

theorem text_of_step (item : launch.Item) {step : Step} (listed : step ∈ steps item) :
    step.instruction.own? = none ∧ array ∉ step.instruction.sources ∧
      ∀ target, step.instruction.target? = some target → target = array ∨ target ∈ kernel.scratch :=
  fills _ (instruction_of_step listed kernel.body (unrolls item))

theorem array_of_written (item : launch.Item) {touch : Touch}
    (wrote : touch ∈ written item.seat (steps item)) (outside : touch.array ∉ kernel.scratch) :
    touch.array = array := by
  obtain ⟨step, listed, inStep⟩ := List.mem_flatMap.1 wrote
  obtain ⟨_, _, targets⟩ := text_of_step fills unrolls item listed
  exact (targets _ (Instruction.target_of_written inStep)).resolve_right outside

include given writesOnce

/-- Outside of the groups' own arrays, a grid writes elements of one array only. -/
theorem exists_element_of_written {group : launch.Group} {place : launch.Place} {touch : Touch}
    (writes : touch ∈ written (((launch.grid kernel steps).crew group).seat place)
      (((launch.grid kernel steps).crew group).steps place))
    (outside : touch.array ∉ kernel.scratch) :
    ∃ element < count, touch = ⟨launch.home kernel array, [element]⟩ ∧
      ⟨array, [element]⟩ ∈ written (itemAt group place).seat (steps (itemAt group place)) := by
  simp only [grid, written_rename] at writes
  obtain ⟨first, wrote, rfl⟩ := List.mem_map.1 writes
  rw [Touch.rename, home_scratch_iff given] at outside
  obtain rfl := array_of_written fills unrolls (itemAt group place) wrote outside
  obtain ⟨element, below, isElement⟩ := writesOnce.inside (itemAt group place) _
    (unrolls (itemAt group place)) first wrote rfl
  have same : first = ⟨first.array, [element]⟩ := by rw [← isElement]
  refine ⟨element, below, ?_, same ▸ wrote⟩
  rw [Touch.rename, isElement]

end Writes

include writesOnce in
theorem item_of_written {item other : launch.Item} {element : Nat} (below : element < count)
    (wrote : ⟨array, [element]⟩ ∈ written item.seat (steps item))
    (otherWrote : ⟨array, [element]⟩ ∈ written other.seat (steps other)) : item = other := by
  obtain ⟨writer, _, only⟩ := writesOnce.writer element below
  exact (only _ ⟨_, unrolls item, wrote⟩).trans (only _ ⟨_, unrolls other, otherWrote⟩).symm

variable {segments : launch.Group → List (Segment launch.Place)}
  (splits : ∀ group, GroupUnrolls (fun place => (itemAt group place).seat)
    (fun _ => launch.sizes kernel) kernel.body (segments group))
  (plain : ∀ group, ∀ segment ∈ segments group, segment.Plain)
include fills given writesOnce splits plain

section Shared

variable
  (raceFree : ∀ group, ∀ stage ∈ stages ((segments group).map (Segment.rename (launch.home kernel))),
    RaceFree (fun place => (itemAt group place).seat) stage)
  (apart : ∀ item other : launch.Item, ∀ step ∈ steps item,
    ∀ touch ∈ step.instruction.footprint item.seat step.locals, touch.array ≠ array →
      ∀ element, ⟨array, [element]⟩ ∈ written other.seat (steps other) →
        touch.rename (launch.home kernel) = ⟨launch.home kernel array, [element]⟩ →
          item.group = other.group)
include raceFree apart

/-- Groups of a launch that writes each element once stay out of each other's way, as long as none
of them finds what another one writes. -/
theorem follows_of_writesOnce : (launch.grid kernel steps).Follows fun group =>
    (segments group).map (Segment.rename (launch.home kernel)) where
  each := fun group => {
    steps := fun place => by
      rw [stepsOf_rename, ← blockUnrolls_unique kernel.body (splits group place)
        (unrolls (itemAt group place))]
      rfl
    plain := List.forall_mem_map.2 fun segment listed => (plain group segment listed).rename
    raceFree := raceFree group
    bare := fun place => List.filterMap_eq_nil_iff.2 (List.forall_mem_map.2 fun step listed => by
      rw [Step.rename, Instruction.own?_rename,
        (text_of_step fills unrolls (itemAt group place) listed).1]
      rfl) }
  apart := by
    rintro group place _ renamed touch inside ⟨outside, other, otherGroup, otherPlace, writes⟩
    obtain ⟨step, listed, rfl⟩ := List.mem_map.1 renamed
    rw [Step.rename, Instruction.footprint_rename] at inside
    obtain ⟨found, inside, rfl⟩ := inside
    obtain ⟨element, below, same, wrote⟩ :=
      exists_element_of_written fills unrolls given writesOnce writes outside
    refine otherGroup (Subtype.ext (Eq.symm ?_))
    by_cases isArray : found.array = array
    · obtain ⟨_, absent, _⟩ := text_of_step fills unrolls (itemAt group place) listed
      obtain ⟨name, indices⟩ := found
      obtain rfl : name = array := isArray
      obtain rfl : indices = [element] := congrArg Touch.indices same
      have own : ⟨name, [element]⟩ ∈ written (itemAt group place).seat
          (steps (itemAt group place)) :=
        List.mem_flatMap.2 ⟨step, listed, Instruction.written_of_footprint absent inside⟩
      exact congrArg Item.group (item_of_written unrolls writesOnce below own wrote)
    · exact apart (itemAt group place) (itemAt other otherPlace) step listed found inside isArray
        element wrote same

open Classical in
/-- A launch that writes each element of an array once leaves there what the group that writes it
leaves there alone, whatever the other groups do meanwhile. -/
theorem Completes.of_segments [Nonempty launch.Place]
    (stored : launch.storage? kernel array = some storage)
    (leaves : ∀ group place element, element < count →
      ⟨array, [element]⟩ ∈ written (itemAt group place).seat (steps (itemAt group place)) →
        ∀ first last : View launch.Place α,
          launch.Holds kernel before (first.under (launch.home kernel)).shared →
            Runs meaning (fun place => (itemAt group place).seat)
              ((segments group).map (Segment.rename (launch.home kernel))) first last →
                last.shared ⟨launch.home kernel array, [element]⟩ = value element) :
    launch.Completes kernel meaning steps before (before.refill storage count value) where
  ends := Grid.advances_wellFounded _ meaning
  leaves := by
    intro arrays first state holds starts reached
    have follows :=
      follows_of_writesOnce fills unrolls given writesOnce splits plain raceFree apart
    refine (follows.advances_or_through state).imp_right fun through => ⟨through, ?_⟩
    intro other place found element
    have outside {name : String} {somewhere : Storage}
        (found : launch.storage? kernel name = some somewhere) :
        launch.home kernel name ∉ kernel.scratch := by
      intro listed
      rw [home_scratch_iff given] at listed
      rw [given name listed] at found
      cases found
    refine follows.arrays_eq starts reached through (outside found) ?_ fun untouched => ?_
    · intro group writer writes before after begins runs
      obtain ⟨entry, below, same, wrote⟩ :=
        exists_element_of_written fills unrolls given writesOnce writes (outside found)
      obtain ⟨sameHome, sameElement⟩ := Touch.mk.inj same
      obtain rfl := List.singleton_inj.1 sameElement
      have here : place = storage := by
        rw [← storage?_home, sameHome, storage?_home, stored] at found
        exact (Option.some.inj found).symm
      have held : launch.Holds kernel _ (before.under (launch.home kernel)).shared :=
        fun name somewhere found entry =>
          (begins _ (outside found)).trans (holds name somewhere found entry)
      rw [same, leaves group writer element below wrote before after held runs]
      exact (if_pos ⟨here, below⟩).symm
    · refine (holds other place found element).trans (if_neg ?_).symm
      rintro ⟨rfl, below⟩
      obtain ⟨item, ⟨taken, itemUnrolls, wrote⟩, _⟩ := writesOnce.writer element below
      rw [← blockUnrolls_unique kernel.body itemUnrolls (unrolls item)] at wrote
      refine untouched ⟨item.group, item.group_lt⟩ ⟨item.place, item.place_lt⟩ ?_
      rw [Touch.rename, home_eq_iff.2 (.inr ⟨_, found, stored⟩)]
      exact written_rename ▸ List.mem_map_of_mem wrote
  others := by
    intro place absent
    funext element
    refine if_neg fun both => absent array ?_
    rw [stored, both.1]

end Shared

/-- Where the array is the only one that is stored in its place, it does not matter which others
share their elements. -/
theorem Completes.of_alone [Nonempty launch.Place]
    (only : ∀ other, launch.storage? kernel other = some storage ↔ other = array)
    (raceFree : ∀ group, ∀ stage ∈ stages (segments group),
      RaceFree (fun place => (itemAt group place).seat) stage)
    (leaves : ∀ group place element, element < count →
      ⟨array, [element]⟩ ∈ written (itemAt group place).seat (steps (itemAt group place)) →
        ∀ first last : View launch.Place α, launch.Holds kernel before first.shared →
          Runs meaning (fun place => (itemAt group place).seat) (segments group) first last →
            last.shared ⟨array, [element]⟩ = value element) :
    launch.Completes kernel meaning steps before (before.refill storage count value) := by
  have alone : Alone (launch.home kernel) array := alone_of_only only
  have targets (group : launch.Group) (place : launch.Place) :
      TargetsAlone (launch.home kernel) (stepsOf (segments group) place) := by
    intro step listed target isTarget
    rw [← blockUnrolls_unique kernel.body (splits group place)
      (unrolls (itemAt group place))] at listed
    obtain ⟨_, _, targets⟩ := text_of_step fills unrolls (itemAt group place) listed
    rcases targets target isTarget with rfl | own
    · exact alone
    · exact alone_of_none (given target own)
  refine Completes.of_segments fills unrolls given writesOnce splits plain
    (fun group stage listed => ?_)
    (fun item other step listed touch inside notArray element wrote same => ?_) ((only array).2 rfl)
    fun group place element below wrote first last holds runs => ?_
  · rw [stages_rename] at listed
    obtain ⟨first, among, rfl⟩ := List.mem_map.1 listed
    refine (raceFree group first among).rename fun place step taken => targets group place step ?_
    have isPhase : first place ∈ phases (stepsOf (segments group) place) := by
      rw [phases_stepsOf (plain group)]
      exact List.mem_map_of_mem among
    exact mem_of_mem_phases isPhase taken
  · exact absurd (alone touch.array (congrArg Touch.array same)) notArray
  · exact leaves group place element below wrote _ _ holds (runs.under (targets group))

end Texts

/-! ### One outcome -/

open Classical in
/-- A launch leaves one memory behind. -/
theorem Completes.unique {after others : Store α} (completes : launch.Completes kernel meaning steps
    before after) (again : launch.Completes kernel meaning steps before others) : others = after := by
  funext storage element
  by_cases some : ∃ array, launch.storage? kernel array = some storage
  · obtain ⟨array, stored⟩ := some
    -- A run begins with what is stored, and whatever the groups find in arrays of their own.
    let arrays : Touch → α := fun touch =>
      ((launch.storage? kernel touch.array).map fun place =>
        before place (touch.indices.headD 0)).getD (before storage 0)
    let first : GridState launch.Group launch.Place α := {
      group := fun group => ((launch.grid kernel steps).crew group).start
        (fun _ => ⟨fun _ _ => before storage 0, fun _ => before storage 0⟩) arrays
      arrays := arrays }
    have holds : launch.Holds kernel before
        fun touch => arrays (touch.rename (launch.home kernel)) := by
      intro name place found element
      simp only [arrays, Touch.rename, storage?_home, found]
      rfl
    have starts : (launch.grid kernel steps).Starts arrays first :=
      ⟨rfl, fun group => ⟨_, _, rfl⟩⟩
    obtain ⟨last, reached, final⟩ := completes.ends.has_min
      {state | (launch.grid kernel steps).Reaches meaning first state} ⟨first, .refl⟩
    have stops : ¬ ∃ next, (launch.grid kernel steps).Advances meaning last next :=
      fun ⟨next, advances⟩ => final next (reached.tail advances) advances
    obtain ⟨_, left⟩ := (completes.leaves arrays first last holds starts reached).resolve_left stops
    obtain ⟨_, also⟩ := (again.leaves arrays first last holds starts reached).resolve_left stops
    rw [← left array storage stored element, ← also array storage stored element]
  · have absent (array : String) : launch.storage? kernel array ≠ Option.some storage :=
      fun stored => some ⟨array, stored⟩
    rw [completes.others storage absent, again.others storage absent]

end PlannedLaunch

end KernelTuner
