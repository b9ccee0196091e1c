import KernelTuner.Proofs.Kernel.Meaning
import Mathlib.Logic.Relation

/-!
Contract: the work items of a group, side by side.

Owns: the phases of a work item, from barrier to barrier; crews of work items, which take their
steps in any order and pass each barrier together, over elements that they share; and
`Crew.Stages.shared_eq`, by which an element that is written in one phase and left alone in the
next has there what it was written with.

Does not own: the steps that a kernel comes to (`Proofs.Kernel.Unrolling`).
-/

set_option autoImplicit false

namespace KernelTuner.Kernel

open Function (update)

/-! ### Phases -/

/-- The steps of a work item from barrier to barrier. -/
def phases (steps : List Step) : List (List Step) :=
  steps.splitOnP fun step => decide (step.instruction = .barrier)

/-- Steps without a barrier among them. -/
def BarrierFree (steps : List Step) : Prop := ∀ step ∈ steps, step.instruction ≠ .barrier

section Phases

variable {steps front back : List Step} {step : Step}

theorem phases_of_barrierFree (free : BarrierFree steps) : phases steps = [steps] :=
  List.splitOnP_eq_singleton fun step member => decide_eq_false (free step member)

/-- A barrier ends a phase. -/
theorem phases_append_barrier {locals : Variables} :
    phases (front ++ ⟨locals, .barrier⟩ :: back) = phases front ++ phases back :=
  List.splitOnP_append_cons _ _ (decide_eq_true rfl)

theorem BarrierFree.append (first : BarrierFree front) (second : BarrierFree back) :
    BarrierFree (front ++ back) :=
  List.forall_mem_append.2 ⟨first, second⟩

theorem barrierFree_of_confined {seat : Seat} {locals : Variables} {block : List Statement}
    {targets own : List String}
    (confined : ∀ instruction ∈ blockInstructions block, instruction.Confined targets own)
    (unrolls : blockUnrolls seat locals block steps) : BarrierFree steps :=
  fun _ member => (confined _ (instruction_of_step member block unrolls)).ne_barrier

/-- The steps of a phase are steps of the work item. -/
theorem mem_of_mem_phases {phase : List Step} (listed : phase ∈ phases steps)
    (member : step ∈ phase) : step ∈ steps := by
  induction steps generalizing phase with
  | nil =>
      obtain rfl := List.mem_singleton.1 listed
      exact member
  | cons first rest inductionHypothesis =>
      rw [phases, List.splitOnP_cons_eq_if_modifyHead] at listed
      split at listed
      · rcases List.mem_cons.1 listed with rfl | later
        · cases member
        · exact List.mem_cons_of_mem first (inductionHypothesis later member)
      · obtain ⟨own, others, split⟩ :=
          List.exists_cons_of_ne_nil (List.splitOnP_ne_nil
            (fun step : Step => decide (step.instruction = .barrier)) rest)
        rw [split, List.modifyHead_cons] at listed
        have inRest {phase : List Step} (listed : phase ∈ own :: others) (inPhase : step ∈ phase) :
            step ∈ rest :=
          inductionHypothesis (by rwa [phases, split]) inPhase
        rcases List.mem_cons.1 listed with rfl | later
        · rcases List.mem_cons.1 member with rfl | inOwn
          · exact List.mem_cons_self
          · exact List.mem_cons_of_mem first (inRest List.mem_cons_self inOwn)
        · exact List.mem_cons_of_mem first (inRest (List.mem_cons_of_mem own later) member)

end Phases

section Rounds

/-- Rounds that have two phases, with a barrier in front of each. -/
def rounds (locals : Nat → Variables) (first second : Nat → List Step) (values : List Nat) :
    List Step :=
  values.flatMap fun value =>
    ⟨locals value, .barrier⟩ :: first value ++ ⟨locals value, .barrier⟩ :: second value

variable {locals : Nat → Variables} {first second : Nat → List Step} {values : List Nat}
  {front last : List Step} (inFirst : ∀ value ∈ values, BarrierFree (first value))
  (inSecond : ∀ value ∈ values, BarrierFree (second value))

theorem phases_rounds_nil (inFront : BarrierFree front) (inLast : BarrierFree last) :
    phases (front ++ rounds locals first second [] ++ last) = [front ++ last] := by
  rw [rounds, List.flatMap_nil, List.append_nil]
  exact phases_of_barrierFree (inFront.append inLast)

/-- The first round ends what is in front of it. The rest goes on behind its second phase. -/
theorem phases_rounds_cons {value : Nat} (inFront : BarrierFree front)
    (inRound : BarrierFree (first value)) :
    phases (front ++ rounds locals first second (value :: values) ++ last) =
      front :: first value :: phases (second value ++ rounds locals first second values ++ last) := by
  have split : front ++ rounds locals first second (value :: values) ++ last =
      front ++ ⟨locals value, .barrier⟩ :: (first value ++ ⟨locals value, .barrier⟩ ::
        (second value ++ rounds locals first second values ++ last)) := by
    simp only [rounds, List.flatMap_cons, List.append_assoc, List.cons_append]
  rw [split, phases_append_barrier, phases_append_barrier, phases_of_barrierFree inFront,
    phases_of_barrierFree inRound]
  rfl

include inFirst inSecond

theorem length_phases_rounds (inFront : BarrierFree front) (inLast : BarrierFree last) :
    (phases (front ++ rounds locals first second values ++ last)).length =
      2 * values.length + 1 := by
  induction values generalizing front with
  | nil => rw [phases_rounds_nil inFront inLast, List.length_singleton, List.length_nil]
  | cons value values inductionHypothesis =>
      rw [List.forall_mem_cons] at inFirst inSecond
      rw [phases_rounds_cons inFront inFirst.1, List.length_cons, List.length_cons,
        inductionHypothesis inFirst.2 inSecond.2 inSecond.1, List.length_cons]
      omega

/-- Behind each odd number of barriers is the first phase of a round. -/
theorem phases_rounds_first (inFront : BarrierFree front) {turn value : Nat}
    (found : values[turn]? = some value) :
    (phases (front ++ rounds locals first second values ++ last))[2 * turn + 1]? =
      some (first value) := by
  induction values generalizing front turn with
  | nil => cases found
  | cons head values inductionHypothesis =>
      rw [List.forall_mem_cons] at inFirst inSecond
      rw [phases_rounds_cons inFront inFirst.1]
      cases turn with
      | zero =>
          obtain rfl := Option.some.inj found
          rfl
      | succ turn => exact inductionHypothesis inFirst.2 inSecond.2 inSecond.1 found

/-- Behind each even number of barriers but zero is the second phase of a round, in front of all
rounds is nothing else, and behind them there is no barrier. -/
theorem mem_phases_rounds (inFront : BarrierFree front) (inLast : BarrierFree last) {number : Nat}
    {phase : List Step}
    (found : (phases (front ++ rounds locals first second values ++ last))[number]? = some phase)
    {step : Step} (member : step ∈ phase) :
    number = 0 ∧ step ∈ front ∨ step ∈ last ∨ ∃ turn value, values[turn]? = some value ∧
      (number = 2 * turn + 1 ∧ step ∈ first value ∨
        number = 2 * turn + 2 ∧ step ∈ second value) := by
  induction values generalizing front number with
  | nil =>
      rw [phases_rounds_nil inFront inLast] at found
      cases number with
      | zero =>
          obtain rfl := Option.some.inj found
          rcases List.mem_append.1 member with inFront | inLast
          · exact .inl ⟨rfl, inFront⟩
          · exact .inr (.inl inLast)
      | succ number => cases found
  | cons value values inductionHypothesis =>
      rw [List.forall_mem_cons] at inFirst inSecond
      rw [phases_rounds_cons inFront inFirst.1] at found
      match number with
      | 0 =>
          obtain rfl := Option.some.inj found
          exact .inl ⟨rfl, member⟩
      | 1 =>
          obtain rfl := Option.some.inj found
          exact .inr (.inr ⟨0, value, rfl, .inl ⟨rfl, member⟩⟩)
      | number + 2 =>
          rcases inductionHypothesis inFirst.2 inSecond.2 inSecond.1 found with
            ⟨rfl, inRound⟩ | inLast | ⟨turn, other, later, place⟩
          · exact .inr (.inr ⟨0, value, rfl, .inr ⟨rfl, inRound⟩⟩)
          · exact .inr (.inl inLast)
          · refine .inr (.inr ⟨turn + 1, other, later, ?_⟩)
            rcases place with ⟨rfl, inRound⟩ | ⟨rfl, inRound⟩
            · exact .inl ⟨by omega, inRound⟩
            · exact .inr ⟨by omega, inRound⟩

end Rounds

/-! ### Crews -/

/-- The work items of a group, and the steps that each of them has to take. -/
structure Crew (ι : Type) where
  seat : ι → Seat
  steps : ι → List Step

/-- What a crew has come to. -/
structure CrewState (ι α : Type) where
  /-- How many barriers it has passed. -/
  passed : Nat
  /-- The steps that each work item has left up to the next barrier. -/
  ahead : ι → List Step
  /-- The variables of each work item, and the arrays that it has for itself. -/
  own : ι → Memory α
  /-- The elements of all other arrays. No two arrays share an element. -/
  shared : Touch → α

variable {ι α : Type}

namespace Crew

section Definitions

variable (crew : Crew ι)

/-- The steps of a work item behind so many barriers. -/
def phase (item : ι) (number : Nat) : List Step := (phases (crew.steps item)).getD number []

/-- The arrays that a work item has for itself. -/
def ownArrays (item : ι) : List String :=
  (crew.steps item).filterMap fun step => step.instruction.own?

/-- The memory as a work item finds it. -/
def found (state : CrewState ι α) (item : ι) : Memory α where
  registers := (state.own item).registers
  elements := fun touch =>
    if touch.array ∈ crew.ownArrays item then (state.own item).elements touch
    else state.shared touch

variable [DecidableEq ι] (meaning : Meaning α)

/-- What is behind a step of a work item, which has these steps left then. -/
def afterStep (state : CrewState ι α) (item : ι) (step : Step) (behind : List Step) :
    CrewState ι α :=
  let memory := step.instruction.perform meaning (crew.seat item) step.locals
    (crew.found state item)
  { passed := state.passed
    ahead := update state.ahead item behind
    own := update state.own item memory
    shared := fun touch =>
      if touch.array ∈ crew.ownArrays item then state.shared touch else memory.elements touch }

/-- Some work item takes its next step, or all of them have come to a barrier and pass it. -/
inductive Advances : CrewState ι α → CrewState ι α → Prop where
  | step {state : CrewState ι α} {item : ι} {step : Step} {behind : List Step}
      (next : state.ahead item = step :: behind) :
      Advances state (crew.afterStep meaning state item step behind)
  | barrier {state : CrewState ι α}
      (waiting : ∀ item, state.ahead item = [] ∧
        state.passed + 1 < (phases (crew.steps item)).length) :
      Advances state { state with
        passed := state.passed + 1
        ahead := fun item => crew.phase item (state.passed + 1) }

/-- A crew before its first step. -/
def start (own : ι → Memory α) (shared : Touch → α) : CrewState ι α :=
  ⟨0, fun item => crew.phase item 0, own, shared⟩

/-- What a crew can come to, in whatever order its work items take their steps. -/
def Reaches : CrewState ι α → CrewState ι α → Prop := Relation.ReflTransGen (crew.Advances meaning)

end Definitions

/-- The work items write each of certain elements of an array once in a phase, and no others of
the array. -/
structure WritesOnce (crew : Crew ι) (number : Nat) (array : String) (cells : Set Touch) : Prop where
  inside : ∀ item, ∀ touch ∈ written (crew.seat item) (crew.phase item number),
    touch.array = array → touch ∈ cells
  distinct : ∀ item, ((written (crew.seat item) (crew.phase item number)).filter
    fun touch => touch.array = array).Nodup
  writer : ∀ touch ∈ cells, ∃! item, touch ∈ written (crew.seat item) (crew.phase item number)

/-- A crew that fills an array from others, which it leaves as they are: what it writes to the
array depends on the phase and the element only. -/
structure Stages (crew : Crew ι) (meaning : Meaning α) (shared : Touch → α) (sources : List String)
    (array : String) (content : Nat → Touch → α) : Prop where
  unowned : ∀ item, ∀ name ∈ array :: sources, name ∉ crew.ownArrays item
  kept : ∀ item number, ∀ step ∈ crew.phase item number, ∀ name ∈ sources,
    step.instruction.target? ≠ some name
  fills : ∀ item number, ∀ step ∈ crew.phase item number,
    ∀ touch ∈ step.instruction.written (crew.seat item) step.locals, touch.array = array →
      ∀ memory : Memory α, (∀ other, other.array ∈ sources → memory.elements other = shared other) →
        (step.instruction.perform meaning (crew.seat item) step.locals memory).elements touch =
          content number touch

/-! ### Steps -/

variable {crew : Crew ι} {meaning : Meaning α} {state : CrewState ι α} {item : ι} {touch : Touch}

theorem exists_phase {number : Nat} {step : Step} (member : step ∈ crew.phase item number) :
    ∃ phase, (phases (crew.steps item))[number]? = some phase ∧ step ∈ phase := by
  unfold phase at member
  rw [List.getD_eq_getElem?_getD] at member
  cases found : (phases (crew.steps item))[number]? with
  | none =>
      rw [found] at member
      cases member
  | some phase =>
      rw [found] at member
      exact ⟨phase, rfl, member⟩

theorem mem_steps_of_mem_phase {number : Nat} {step : Step}
    (member : step ∈ crew.phase item number) : step ∈ crew.steps item := by
  obtain ⟨phase, found, inPhase⟩ := exists_phase member
  exact mem_of_mem_phases (List.mem_of_getElem? found) inPhase

theorem elements_found (unowned : touch.array ∉ crew.ownArrays item) :
    (crew.found state item).elements touch = state.shared touch :=
  if_neg unowned

section Shared

variable [DecidableEq ι] {step : Step} {behind : List Step}

@[simp] theorem passed_afterStep :
    (crew.afterStep meaning state item step behind).passed = state.passed := rfl

@[simp] theorem ahead_afterStep_self :
    (crew.afterStep meaning state item step behind).ahead item = behind :=
  Function.update_self ..

theorem ahead_afterStep_of_ne {other : ι} (apart : other ≠ item) :
    (crew.afterStep meaning state item step behind).ahead other = state.ahead other :=
  Function.update_of_ne apart ..

theorem shared_afterStep (unowned : touch.array ∉ crew.ownArrays item) :
    (crew.afterStep meaning state item step behind).shared touch =
      (step.instruction.perform meaning (crew.seat item) step.locals
        (crew.found state item)).elements touch :=
  if_neg unowned

/-- A step leaves the shared elements alone that it does not write. -/
theorem shared_afterStep_of_not_written (unowned : touch.array ∉ crew.ownArrays item)
    (untouched : touch ∉ step.instruction.written (crew.seat item) step.locals) :
    (crew.afterStep meaning state item step behind).shared touch = state.shared touch := by
  rw [shared_afterStep unowned, Instruction.elements_perform_of_not_written untouched,
    elements_found unowned]

end Shared

/-- Work items that come to equally many barriers go on until all of them are through. -/
theorem advances_or_through [DecidableEq ι]
    (even : ∀ item other, (phases (crew.steps item)).length = (phases (crew.steps other)).length) :
    (∃ next, crew.Advances meaning state next) ∨ ∀ item, state.ahead item = [] ∧
      (phases (crew.steps item)).length ≤ state.passed + 1 := by
  by_cases rest : ∃ item, state.ahead item ≠ []
  · obtain ⟨item, some⟩ := rest
    obtain ⟨step, behind, next⟩ := List.exists_cons_of_ne_nil some
    exact .inl ⟨_, .step next⟩
  · have waiting (item : ι) : state.ahead item = [] := by
      by_contra some
      exact rest ⟨item, some⟩
    by_cases barrier : ∃ item, state.passed + 1 < (phases (crew.steps item)).length
    · obtain ⟨item, inside⟩ := barrier
      exact .inl ⟨_, .barrier fun other => ⟨waiting other, even item other ▸ inside⟩⟩
    · exact .inr fun item => ⟨waiting item, Nat.le_of_not_lt fun inside => barrier ⟨item, inside⟩⟩

/-! ### Staging -/

section Staging

variable {shared : Touch → α} {sources : List String} {array : String} {content : Nat → Touch → α}

/-- What holds of a staging crew all the way. Of an array that it fills, the elements that were
written in this phase have their contents for this phase; so have, for the phase before, those
that were written there and are not written in this one. -/
structure Sound (crew : Crew ι) (shared : Touch → α) (sources : List String) (array : String)
    (content : Nat → Touch → α) (state : CrewState ι α) : Prop where
  inPhase : ∀ item, state.ahead item <:+ crew.phase item state.passed
  sources : ∀ touch, touch.array ∈ sources → state.shared touch = shared touch
  filled : ∀ item done, done ++ state.ahead item = crew.phase item state.passed →
    ∀ touch ∈ written (crew.seat item) done, touch.array = array →
      state.shared touch = content state.passed touch
  settled : ∀ number, number + 1 = state.passed → ∀ touch, touch.array = array →
    (∃ item, touch ∈ written (crew.seat item) (crew.phase item number)) →
      (∀ item, touch ∉ written (crew.seat item) (crew.phase item state.passed)) →
        state.shared touch = content number touch

theorem sound_start (own : ι → Memory α) :
    Sound crew shared sources array content (crew.start own shared) where
  inPhase := fun _ => List.suffix_rfl
  sources := fun _ _ => rfl
  filled := by
    intro item done split touch member
    have none : done = [] := List.append_left_eq_self.1 split
    subst none
    cases member
  settled := fun _ beyond => absurd beyond (Nat.succ_ne_zero _)

variable [DecidableEq ι] (stages : crew.Stages meaning shared sources array content) {step : Step}
  {behind : List Step}
include stages

/-- A step leaves the sources as they are. -/
theorem Stages.shared_source {number : Nat} (member : step ∈ crew.phase item number)
    (isSource : touch.array ∈ sources) :
    (crew.afterStep meaning state item step behind).shared touch = state.shared touch := by
  apply shared_afterStep_of_not_written
  · exact stages.unowned item _ (List.mem_cons_of_mem array isSource)
  · intro writes
    exact stages.kept item number step member _ isSource (Instruction.target_of_written writes)

/-- What it writes of the array has its content for the phase. -/
theorem Stages.shared_filled
    (unchanged : ∀ touch, touch.array ∈ sources → state.shared touch = shared touch)
    (member : step ∈ crew.phase item state.passed) (inArray : touch.array = array)
    (writes : touch ∈ step.instruction.written (crew.seat item) step.locals) :
    (crew.afterStep meaning state item step behind).shared touch = content state.passed touch := by
  have unowned (name : String) (listed : name ∈ array :: sources) : name ∉ crew.ownArrays item :=
    stages.unowned item name listed
  rw [shared_afterStep (unowned _ (inArray ▸ List.mem_cons_self))]
  refine stages.fills item _ step member touch writes inArray _ fun other isSource => ?_
  rw [elements_found (unowned _ (List.mem_cons_of_mem array isSource)), unchanged other isSource]

/-- The rest of the array stays as it is. -/
theorem Stages.shared_left (inArray : touch.array = array)
    (untouched : touch ∉ step.instruction.written (crew.seat item) step.locals) :
    (crew.afterStep meaning state item step behind).shared touch = state.shared touch :=
  shared_afterStep_of_not_written (stages.unowned item _ (inArray ▸ List.mem_cons_self)) untouched

/-- A step of a work item keeps it so. -/
theorem Stages.sound_step (sound : Sound crew shared sources array content state)
    (next : state.ahead item = step :: behind) :
    Sound crew shared sources array content (crew.afterStep meaning state item step behind) := by
  obtain ⟨before, whole⟩ := sound.inPhase item
  rw [next] at whole
  have member : step ∈ crew.phase item state.passed := by
    rw [← whole]
    exact List.mem_append_right before List.mem_cons_self
  constructor
  · intro other
    by_cases same : other = item
    · subst same
      refine ⟨before ++ [step], ?_⟩
      rw [ahead_afterStep_self, List.append_assoc]
      exact whole
    · rw [ahead_afterStep_of_ne same]
      exact sound.inPhase other
  · intro touch isSource
    rw [stages.shared_source member isSource]
    exact sound.sources touch isSource
  · intro other done split touch wrote inArray
    by_cases writes : touch ∈ step.instruction.written (crew.seat item) step.locals
    · exact stages.shared_filled sound.sources member inArray writes
    rw [stages.shared_left inArray writes]
    by_cases same : other = item
    · -- The step is the last of those that are done, and it does not write the element.
      subst same
      rw [ahead_afterStep_self, passed_afterStep] at split
      have earlier : done = before ++ [step] := by
        apply List.append_cancel_right
        rw [split, ← whole, List.append_assoc]
        rfl
      rw [earlier, written_append, List.mem_append] at wrote
      rcases wrote with wrote | last
      · exact sound.filled other before (by rwa [next]) touch wrote inArray
      · rw [written_cons, written_nil, List.append_nil] at last
        exact absurd last writes
    · rw [ahead_afterStep_of_ne same] at split
      exact sound.filled other done split touch wrote inArray
  · intro number isLast touch inArray wrote quiet
    have untouched : touch ∉ step.instruction.written (crew.seat item) step.locals := fun writes =>
      quiet item (List.mem_flatMap.2 ⟨step, member, writes⟩)
    rw [stages.shared_left inArray untouched]
    exact sound.settled number isLast touch inArray wrote quiet

omit [DecidableEq ι] stages in
/-- So does a barrier, behind which the elements that were written are those of a phase before. -/
theorem Sound.barrier (sound : Sound crew shared sources array content state)
    (waiting : ∀ item, state.ahead item = []) :
    Sound crew shared sources array content { state with
      passed := state.passed + 1
      ahead := fun item => crew.phase item (state.passed + 1) } where
  inPhase := fun _ => List.suffix_rfl
  sources := sound.sources
  filled := by
    intro item done split touch member
    have none : done = [] := List.append_left_eq_self.1 split
    subst none
    cases member
  settled := by
    rintro number isLast touch inArray ⟨item, wrote⟩ _
    obtain rfl := Nat.succ.inj isLast
    exact sound.filled item _ (by rw [waiting item, List.append_nil]) touch wrote inArray

theorem Stages.sound_of_reaches {own : ι → Memory α}
    (reached : crew.Reaches meaning (crew.start own shared) state) :
    Sound crew shared sources array content state := by
  induction reached with
  | refl => exact sound_start own
  | tail _ advances inductionHypothesis =>
      cases advances with
      | step next => exact stages.sound_step inductionHypothesis next
      | barrier waiting => exact inductionHypothesis.barrier fun item => (waiting item).1

/-- In a phase that leaves them alone, the elements have what they were given in the phase
before. -/
theorem Stages.shared_eq {own : ι → Memory α} {number : Nat}
    (reached : crew.Reaches meaning (crew.start own shared) state)
    (behind : number + 1 = state.passed) (inArray : touch.array = array)
    (wrote : ∃ item, touch ∈ written (crew.seat item) (crew.phase item number))
    (quiet : ∀ item, touch ∉ written (crew.seat item) (crew.phase item state.passed)) :
    state.shared touch = content number touch :=
  (stages.sound_of_reaches reached).settled number behind touch inArray wrote quiet

end Staging

end Crew

end KernelTuner.Kernel
