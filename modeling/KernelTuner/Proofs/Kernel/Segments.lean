import KernelTuner.Proofs.Kernel.Lockstep

/-!
Contract: the run of a work group whose work items do not race.

Owns: the steps of a group, written down as pieces of work with barriers between them, and how a
group comes to them through a block; segments in which every element that is written has an
owner; and `Crew.runs_of_reaches`, by which such a group, whenever it is through, has run its
segments one behind another.

Does not own: what other groups do meanwhile (`Proofs.Kernel.Grid`).
-/

set_option autoImplicit false

namespace KernelTuner.Kernel

open Function (update)

variable {ι α : Type}

/-! ### Segments -/

/-- A piece of what a group has to do: steps of its work items, or a barrier for all of them. -/
inductive Segment (ι : Type) where
  | work (steps : ι → List Step)
  | barrier (locals : ι → Variables)

/-- The steps of a work item in a piece. -/
def Segment.steps (item : ι) : Segment ι → List Step
  | work steps => steps item
  | barrier locals => [⟨locals item, .barrier⟩]

/-- The steps of a work item in several pieces. -/
def stepsOf (segments : List (Segment ι)) (item : ι) : List Step :=
  segments.flatMap (Segment.steps item)

/-- The work between barriers. -/
def stages : List (Segment ι) → List (ι → List Step)
  | [] => [fun _ => []]
  | .barrier _ :: rest => (fun _ => []) :: stages rest
  | .work steps :: rest =>
      (stages rest).modifyHead fun later item => steps item ++ later item

/-- All barriers are segments of their own. -/
def Segment.Plain : Segment ι → Prop
  | work steps => ∀ item, BarrierFree (steps item)
  | barrier _ => True

section Stages

variable {segments front back : List (Segment ι)} {item : ι}

@[simp] theorem stepsOf_nil : stepsOf ([] : List (Segment ι)) item = [] := rfl

@[simp] theorem stepsOf_cons {segment : Segment ι} :
    stepsOf (segment :: segments) item = segment.steps item ++ stepsOf segments item :=
  List.flatMap_cons

@[simp] theorem stepsOf_work {steps : ι → List Step} : stepsOf [.work steps] item = steps item :=
  List.append_nil _

theorem stepsOf_append : stepsOf (front ++ back) item = stepsOf front item ++ stepsOf back item :=
  List.flatMap_append

theorem stepsOf_flatMap {values : List Nat} {round : Nat → List (Segment ι)} :
    stepsOf (values.flatMap round) item = values.flatMap fun value => stepsOf (round value) item :=
  List.flatMap_assoc

/-- Steps without a barrier belong to the phase behind them. -/
theorem phases_append_of_barrierFree {first second : List Step} (free : BarrierFree first) :
    phases (first ++ second) = (phases second).modifyHead (first ++ ·) := by
  induction first with
  | nil =>
      rw [List.nil_append]
      cases phases second with
      | nil => rfl
      | cons phase later => rfl
  | cons step rest inductionHypothesis =>
      obtain ⟨plain, later⟩ := List.forall_mem_cons.1 free
      have goesOn : decide (step.instruction = .barrier) = false := decide_eq_false plain
      rw [List.cons_append, phases, List.splitOnP_cons_eq_if_modifyHead, goesOn, if_neg (by decide)]
      rw [← phases, inductionHypothesis later, List.modifyHead_modifyHead]
      rfl

/-- The stages of a group are the phases of its work items. -/
theorem phases_stepsOf (plain : ∀ segment ∈ segments, segment.Plain) :
    phases (stepsOf segments item) = (stages segments).map fun stage => stage item := by
  induction segments with
  | nil => rfl
  | cons segment rest inductionHypothesis =>
      rw [List.forall_mem_cons] at plain
      rw [stepsOf_cons]
      cases segment with
      | barrier locals =>
          show phases ([] ++ ⟨locals item, .barrier⟩ :: stepsOf rest item) = _
          rw [phases_append_barrier, inductionHypothesis plain.2]
          rfl
      | work steps =>
          show phases (steps item ++ stepsOf rest item) = _
          rw [phases_append_of_barrierFree (plain.1 item), inductionHypothesis plain.2, stages]
          cases stages rest with
          | nil => rfl
          | cons stage later => rfl

theorem exists_stages (segments : List (Segment ι)) :
    ∃ stage later, stages segments = stage :: later := by
  induction segments with
  | nil => exact ⟨_, _, rfl⟩
  | cons segment rest inductionHypothesis =>
      cases segment with
      | barrier locals => exact ⟨_, _, rfl⟩
      | work steps =>
          obtain ⟨stage, later, same⟩ := inductionHypothesis
          rw [stages, same]
          exact ⟨_, _, rfl⟩

end Stages

/-! ### Blocks -/

/-- The work items of a group come to these segments through a block. -/
def GroupUnrolls (seat : ι → Seat) (locals : ι → Variables) (block : List Statement)
    (segments : List (Segment ι)) : Prop :=
  ∀ item, blockUnrolls (seat item) (locals item) block (stepsOf segments item)

namespace GroupUnrolls

variable {seat : ι → Seat} {locals : ι → Variables} {block front back : List Statement}
  {first second : List (Segment ι)}

theorem work {steps : ι → List Step}
    (each : ∀ item, blockUnrolls (seat item) (locals item) block (steps item)) :
    GroupUnrolls seat locals block [.work steps] := by
  intro item
  rw [stepsOf_work]
  exact each item

theorem barrier : GroupUnrolls seat locals [.run .barrier] [.barrier locals] :=
  fun _ => blockUnrolls_singleton.2 rfl

theorem append (inFront : GroupUnrolls seat locals front first)
    (inBack : GroupUnrolls seat (fun item => blockBind (seat item) (locals item) front) back second) :
    GroupUnrolls seat locals (front ++ back) (first ++ second) :=
  fun item => blockUnrolls_append.2 ⟨_, _, stepsOf_append, inFront item, inBack item⟩

/-- A loop whose counter takes the same values for all work items. -/
theorem loop {head : LoopHead} {values : List Nat} {round : Nat → List (Segment ι)}
    (takes : ∀ item, head.Takes (seat item) (locals item) values)
    (each : ∀ value ∈ values,
      GroupUnrolls seat (fun item => update (locals item) head.counter value) block (round value)) :
    GroupUnrolls seat locals [.loop head block] (values.flatMap round) := by
  intro item
  rw [blockUnrolls_singleton, unrolls_loop_of_takes (takes item), stepsOf_flatMap]
  exact ⟨_, fun value listed => each value listed item, rfl⟩

end GroupUnrolls

/-! ### Owners -/

/-- A work item writes elements only that it owns, and depends on no element that another one
owns. -/
def Respects (seat : ι → Seat) (owned : ι → Set Touch) (item : ι) (steps : List Step) : Prop :=
  ∀ step ∈ steps, (∀ touch ∈ step.instruction.written (seat item) step.locals, touch ∈ owned item) ∧
    ∀ touch ∈ step.instruction.footprint (seat item) step.locals,
      ∀ other, touch ∈ owned other → other = item

/-- The segments respect the owners of elements, who may change at each barrier. These are the
owners in front of the segments, and behind them. -/
def Orderly (seat : ι → Seat) : (ι → Set Touch) → List (Segment ι) → (ι → Set Touch) → Prop
  | owned, [], last => owned = last
  | owned, .work steps :: rest, last =>
      (∀ item, Respects seat owned item (steps item)) ∧ Orderly seat owned rest last
  | _, .barrier _ :: rest, last => ∃ next, Orderly seat next rest last

section Owners

variable {seat : ι → Seat} {owned middle last : ι → Set Touch} {item : ι}
  {front back steps : List Step} {first second segments : List (Segment ι)}

theorem Respects.nil : Respects seat owned item [] := List.forall_mem_nil _

theorem Respects.append (inFront : Respects seat owned item front)
    (inBack : Respects seat owned item back) : Respects seat owned item (front ++ back) :=
  List.forall_mem_append.2 ⟨inFront, inBack⟩

/-- Steps that set no element respect the owners of others than those that they find. -/
theorem Respects.of_unowned {sources : List String}
    (keeps : ∀ step ∈ steps, step.instruction.Keeps sources)
    (unowned : ∀ step ∈ steps, ∀ touch ∈ step.instruction.footprint (seat item) step.locals,
      ∀ other, touch ∉ owned other) : Respects seat owned item steps := by
  intro step listed
  refine ⟨fun touch writes => ?_, fun touch inside other owns => ?_⟩
  · rw [(keeps step listed).written_eq_nil] at writes
    cases writes
  · exact absurd owns (unowned step listed touch inside other)

theorem Respects.of_keeps {sources : List String}
    (keeps : ∀ step ∈ steps, step.instruction.Keeps sources)
    (apart : ∀ item, ∀ touch ∈ owned item, touch.array ∉ sources) :
    Respects seat owned item steps :=
  .of_unowned keeps fun step listed touch inside other owns =>
    apart other touch owns ((keeps step listed).footprint_subset inside)

/-- Steps that set no element leave all of them as they are. -/
theorem Settles.shared_of_keeps {steps : ι → List Step} {sources : List String}
    {meaning : Meaning α} {before after : View ι α} (settles : Settles meaning seat steps before after)
    (keeps : ∀ item, ∀ step ∈ steps item, step.instruction.Keeps sources) :
    after.shared = before.shared := by
  funext touch
  apply settles.kept
  intro item
  rw [written_eq_nil_of_keeps (keeps item)]
  exact List.not_mem_nil

/-- An element has the value that a work item's only step assigns to it. -/
theorem Settles.shared_of_assign {steps : ι → List Step} {meaning : Meaning α}
    {before after : View ι α} (settles : Settles meaning seat steps before after)
    {locals : Variables} {array : String} {indices : List Index} {value : Value} {touch : Touch}
    (alone : steps item = [⟨locals, .assign (.element array indices) value⟩])
    (place : (⟨array, indices.map (Index.eval (seat item) locals)⟩ : Touch) = touch) :
    after.shared touch = value.inLane meaning (seat item) locals (before.memory item) 0 := by
  have isWritten : touch ∈ Kernel.written (seat item) (steps item) := by
    rw [alone, ← place]
    exact List.mem_singleton_self _
  rw [settles.written item touch isWritten, alone, ← place]
  exact Memory.elements_setElement_self

/-- Where everything that is written is owned, nobody races. -/
theorem raceFree_of_respects {steps : ι → List Step}
    (respects : ∀ item, Respects seat owned item (steps item)) : RaceFree seat steps := by
  intro item other apart touch writes step listed inside
  obtain ⟨writer, among, inStep⟩ := List.mem_flatMap.1 writes
  have own : touch ∈ owned item := (respects item writer among).1 touch inStep
  exact apart ((respects other step listed).2 touch inside item own)

theorem Orderly.append (inFirst : Orderly seat owned first middle)
    (inSecond : Orderly seat middle second last) : Orderly seat owned (first ++ second) last := by
  induction first generalizing owned with
  | nil =>
      obtain rfl : owned = middle := inFirst
      exact inSecond
  | cons segment rest inductionHypothesis =>
      cases segment with
      | work steps => exact ⟨inFirst.1, inductionHypothesis inFirst.2⟩
      | barrier locals =>
          obtain ⟨next, inRest⟩ := inFirst
          exact ⟨next, inductionHypothesis inRest⟩

/-- Rounds that end with the owners with which they begin. -/
theorem Orderly.flatMap {values : List Nat} {round : Nat → List (Segment ι)}
    (each : ∀ value ∈ values, Orderly seat owned (round value) owned) :
    Orderly seat owned (values.flatMap round) owned := by
  induction values with
  | nil => exact (rfl : owned = owned)
  | cons value values inductionHypothesis =>
      rw [List.forall_mem_cons] at each
      rw [List.flatMap_cons]
      exact each.1.append (inductionHypothesis each.2)

theorem Orderly.respects (orderly : Orderly seat owned segments last) :
    ∃ stage later, stages segments = stage :: later ∧
      (∀ item, Respects seat owned item (stage item)) ∧
        ∀ other ∈ later, RaceFree seat other := by
  induction segments generalizing owned with
  | nil => exact ⟨_, _, rfl, fun _ => Respects.nil, nofun⟩
  | cons segment rest inductionHypothesis =>
      cases segment with
      | barrier locals =>
          obtain ⟨next, inRest⟩ := orderly
          obtain ⟨stage, later, same, inStage, others⟩ := inductionHypothesis inRest
          refine ⟨_, _, rfl, fun _ => Respects.nil, ?_⟩
          rw [same]
          exact List.forall_mem_cons.2 ⟨raceFree_of_respects inStage, others⟩
      | work steps =>
          obtain ⟨stage, later, same, inStage, others⟩ := inductionHypothesis orderly.2
          rw [stages, same]
          exact ⟨_, _, rfl, fun item => (orderly.1 item).append (inStage item), others⟩

theorem Orderly.raceFree (orderly : Orderly seat owned segments last) :
    ∀ stage ∈ stages segments, RaceFree seat stage := by
  obtain ⟨stage, later, same, inStage, others⟩ := orderly.respects
  rw [same]
  exact List.forall_mem_cons.2 ⟨raceFree_of_respects inStage, others⟩

end Owners

/-! ### Runs -/

/-- Stages that have settled one behind another. -/
def Settled (meaning : Meaning α) (seat : ι → Seat) :
    List (ι → List Step) → View ι α → View ι α → Prop
  | [], before, after => after = before
  | stage :: later, before, after =>
      ∃ between, Settles meaning seat stage before between ∧ Settled meaning seat later between after

/-- Segments whose work has settled, one behind another. -/
def Runs (meaning : Meaning α) (seat : ι → Seat) : List (Segment ι) → View ι α → View ι α → Prop
  | [], before, after => after = before
  | .work steps :: rest, before, after =>
      ∃ between, Settles meaning seat steps before between ∧ Runs meaning seat rest between after
  | .barrier _ :: rest, before, after => Runs meaning seat rest before after

section Runs

variable {meaning : Meaning α} {seat : ι → Seat} {before after : View ι α}
  {first second segments : List (Segment ι)}

theorem settled_append {front back : List (ι → List Step)} :
    Settled meaning seat (front ++ back) before after ↔
      ∃ between, Settled meaning seat front before between ∧
        Settled meaning seat back between after := by
  induction front generalizing before with
  | nil =>
      constructor
      · intro settled
        exact ⟨before, rfl, settled⟩
      · rintro ⟨_, rfl, settled⟩
        exact settled
  | cons stage later inductionHypothesis =>
      constructor
      · rintro ⟨middle, settles, settled⟩
        obtain ⟨between, inFront, inBack⟩ := inductionHypothesis.1 settled
        exact ⟨between, ⟨middle, settles, inFront⟩, inBack⟩
      · rintro ⟨between, ⟨middle, settles, inFront⟩, inBack⟩
        exact ⟨middle, settles, inductionHypothesis.2 ⟨between, inFront, inBack⟩⟩

theorem runs_append : Runs meaning seat (first ++ second) before after ↔
    ∃ between, Runs meaning seat first before between ∧ Runs meaning seat second between after := by
  induction first generalizing before with
  | nil =>
      constructor
      · intro runs
        exact ⟨before, rfl, runs⟩
      · rintro ⟨_, rfl, runs⟩
        exact runs
  | cons segment rest inductionHypothesis =>
      cases segment with
      | barrier locals => exact inductionHypothesis
      | work steps =>
          constructor
          · rintro ⟨middle, settles, runs⟩
            obtain ⟨between, inRest, inSecond⟩ := inductionHypothesis.1 runs
            exact ⟨between, ⟨middle, settles, inRest⟩, inSecond⟩
          · rintro ⟨between, ⟨middle, settles, inRest⟩, inSecond⟩
            exact ⟨middle, settles, inductionHypothesis.2 ⟨between, inRest, inSecond⟩⟩

@[simp] theorem runs_work {steps : ι → List Step} :
    Runs meaning seat [.work steps] before after ↔ Settles meaning seat steps before after := by
  constructor
  · rintro ⟨_, settles, rfl⟩
    exact settles
  · intro settles
    exact ⟨after, settles, rfl⟩

/-- Elements that nobody writes stay as they are. -/
theorem Runs.kept {touch : Touch} (runs : Runs meaning seat segments before after)
    (untouched : ∀ item, touch ∉ written (seat item) (stepsOf segments item)) :
    after.shared touch = before.shared touch := by
  induction segments generalizing before with
  | nil =>
      obtain rfl : after = before := runs
      rfl
  | cons segment rest inductionHypothesis =>
      simp only [stepsOf_cons, written_append, List.mem_append, not_or] at untouched
      have later (item : ι) := (untouched item).2
      cases segment with
      | barrier locals => exact inductionHypothesis runs later
      | work steps =>
          obtain ⟨between, settles, runs⟩ := runs
          exact (inductionHypothesis runs later).trans
            (settles.kept touch fun item => (untouched item).1)

/-- Arrays that are no targets in the text of a block stay as they are. -/
theorem GroupUnrolls.kept {locals : ι → Variables} {block : List Statement} {touch : Touch}
    (unrolls : GroupUnrolls seat locals block segments)
    (runs : Runs meaning seat segments before after) (outside : touch.array ∉ blockTargets block) :
    after.shared touch = before.shared touch :=
  runs.kept fun item writes => outside (target_of_written (unrolls item) writes)

/-- What each round keeps, all rounds keep. -/
theorem Runs.rounds {values : List Nat} {round : Nat → List (Segment ι)}
    (holds : List Nat → View ι α → Prop) (runs : Runs meaning seat (values.flatMap round) before after)
    (start : holds [] before)
    (each : ∀ done value later, values = done ++ value :: later → ∀ before after,
      holds done before → Runs meaning seat (round value) before after →
        holds (done ++ [value]) after) : holds values after := by
  have along (done later : List Nat) (whole : values = done ++ later) (view : View ι α)
      (known : holds done view) (rest : Runs meaning seat (later.flatMap round) view after) :
      holds values after := by
    induction later generalizing done view with
    | nil =>
        obtain rfl : after = view := rest
        rw [whole, List.append_nil]
        exact known
    | cons value later inductionHypothesis =>
        rw [List.flatMap_cons] at rest
        obtain ⟨between, inRound, inRest⟩ := runs_append.1 rest
        refine inductionHypothesis (done ++ [value]) ?_ between ?_ inRest
        · rw [whole, List.append_assoc]
          rfl
        · exact each done value later whole view between known inRound
  exact along [] values rfl before start runs

/-- Where nobody races within a stage, its pieces settle one behind another. -/
theorem runs_of_settled (raceFree : ∀ stage ∈ stages segments, RaceFree seat stage)
    (settled : Settled meaning seat (stages segments) before after) :
    Runs meaning seat segments before after := by
  induction segments generalizing before with
  | nil =>
      obtain ⟨between, settles, rfl⟩ := settled
      exact settles.eq_of_nil
  | cons segment rest inductionHypothesis =>
      cases segment with
      | barrier locals =>
          obtain ⟨between, settles, settled⟩ := settled
          obtain rfl := settles.eq_of_nil
          exact inductionHypothesis (List.forall_mem_cons.1 raceFree).2 settled
      | work steps =>
          obtain ⟨stage, later, same⟩ := exists_stages rest
          rw [stages, same, List.modifyHead_cons] at settled raceFree
          rw [List.forall_mem_cons] at raceFree
          obtain ⟨between, settles, settled⟩ := settled
          obtain ⟨middle, inSteps, inStage⟩ := settles.split raceFree.1
          refine ⟨middle, inSteps, inductionHypothesis ?_ ?_⟩
          · rw [same]
            exact List.forall_mem_cons.2 ⟨raceFree.1.right, raceFree.2⟩
          · rw [same]
            exact ⟨between, inStage, settled⟩

end Runs

/-! ### Crews -/

/-- What a crew sees, when no work item has an array for itself. -/
def CrewState.view (state : CrewState ι α) : View ι α :=
  ⟨fun item => (state.own item).registers, state.shared⟩

namespace Crew

/-- The crew takes the steps of these segments, in which nobody races and nobody has an array for
itself. -/
structure Follows (crew : Crew ι) (segments : List (Segment ι)) : Prop where
  steps : ∀ item, crew.steps item = stepsOf segments item
  plain : ∀ segment ∈ segments, segment.Plain
  raceFree : ∀ stage ∈ stages segments, RaceFree crew.seat stage
  bare : ∀ item, crew.ownArrays item = []

variable {crew : Crew ι} {segments : List (Segment ι)} {meaning : Meaning α}
  {state : CrewState ι α} {item : ι}

namespace Follows

variable (follows : crew.Follows segments)
include follows

theorem phases (item : ι) :
    phases (crew.steps item) = (stages segments).map fun stage => stage item := by
  rw [follows.steps, phases_stepsOf follows.plain]

theorem length_phases (item : ι) :
    (Kernel.phases (crew.steps item)).length = (stages segments).length := by
  rw [follows.phases, List.length_map]

theorem phase_eq {number : Nat} {stage : ι → List Step} (found : (stages segments)[number]? = some stage)
    (item : ι) : crew.phase item number = stage item := by
  rw [phase, follows.phases, List.getD_eq_getElem?_getD, List.getElem?_map, found]
  rfl

/-- Nobody races between two barriers. -/
theorem raceFree_phase (number : Nat) :
    RaceFree crew.seat fun item => crew.phase item number := by
  cases found : (stages segments)[number]? with
  | some stage =>
      have same : (fun item => crew.phase item number) = stage := funext (follows.phase_eq found)
      rw [same]
      exact follows.raceFree stage (List.mem_of_getElem? found)
  | none =>
      have nothing (item : ι) : crew.phase item number = [] := by
        rw [phase, follows.phases, List.getD_eq_getElem?_getD, List.getElem?_map, found]
        rfl
      intro item other _ touch writes
      simp only [nothing] at writes
      cases writes

/-- A crew goes on until all of its work items are through. -/
theorem advances_or_through [DecidableEq ι] :
    (∃ next, crew.Advances meaning state next) ∨ ∀ item, state.ahead item = [] ∧
      (Kernel.phases (crew.steps item)).length ≤ state.passed + 1 :=
  Crew.advances_or_through fun item other =>
    (follows.length_phases item).trans (follows.length_phases other).symm

theorem found_eq (state : CrewState ι α) (item : ι) :
    crew.found state item = state.view.memory item := by
  have none (touch : Touch) : touch.array ∉ crew.ownArrays item := by
    rw [follows.bare item]
    exact List.not_mem_nil
  simp only [found, none, if_false]
  rfl

theorem view_afterStep [DecidableEq ι] (state : CrewState ι α) (item : ι) (step : Step)
    (behind : List Step) :
    (crew.afterStep meaning state item step behind).view =
      state.view.after meaning crew.seat item step := by
  have none (touch : Touch) : touch.array ∉ crew.ownArrays item := by
    rw [follows.bare item]
    exact List.not_mem_nil
  apply View.ext
  · funext other
    show (update state.own item _ other).registers =
      update (fun other => (state.own other).registers) item _ other
    by_cases same : other = item
    · subst same
      rw [Function.update_self, Function.update_self, follows.found_eq]
    · rw [Function.update_of_ne same, Function.update_of_ne same]
  · funext touch
    show (crew.afterStep meaning state item step behind).shared touch = _
    rw [shared_afterStep (none touch), follows.found_eq]
    rfl

/-- What holds of the crew all the way: the stages that it has passed have settled, and so have
the steps that it has taken of the present one. -/
theorem settled_of_reaches [DecidableEq ι] [Nonempty ι] {own : ι → Memory α} {shared : Touch → α}
    (reached : crew.Reaches meaning (crew.start own shared) state) :
    ∃ stage, (stages segments)[state.passed]? = some stage ∧ ∃ between done,
      Settled meaning crew.seat ((stages segments).take state.passed)
        (crew.start own shared).view between ∧
        (∀ item, done item ++ state.ahead item = stage item) ∧
          Settles meaning crew.seat done between state.view := by
  induction reached with
  | refl =>
      obtain ⟨stage, later, same⟩ := exists_stages segments
      have first : (stages segments)[0]? = some stage := by rw [same]; rfl
      refine ⟨stage, first, _, fun _ => [], rfl, fun item => ?_, Settles.nil _⟩
      exact follows.phase_eq first item
  | @tail state next _ advances inductionHypothesis =>
      obtain ⟨stage, present, between, done, settled, split, settles⟩ := inductionHypothesis
      cases advances with
      | @step item step behind ahead =>
          have taken : done item ++ [step] ++ behind = stage item := by
            rw [List.append_assoc, List.singleton_append, ← ahead, split item]
          have whole (other : ι) : update done item (done item ++ [step]) other ++
              (crew.afterStep meaning state item step behind).ahead other = stage other := by
            by_cases same : other = item
            · subst same
              rw [Function.update_self, ahead_afterStep_self]
              exact taken
            · rw [Function.update_of_ne same, ahead_afterStep_of_ne same]
              exact split other
          have among (other : ι) :
              update done item (done item ++ [step]) other ⊆ stage other := by
            rw [← whole other]
            exact List.subset_append_left _ _
          have raceFree := (follows.raceFree stage (List.mem_of_getElem? present)).mono among
          refine ⟨stage, present, between, _, settled, whole, ?_⟩
          rw [follows.view_afterStep]
          exact settles.step raceFree
      | barrier waiting =>
          have all : done = stage := by
            funext item
            have split := split item
            rwa [(waiting item).1, List.append_nil] at split
          have inside := (waiting (Classical.arbitrary ι)).2
          rw [follows.length_phases] at inside
          have behind : (stages segments)[state.passed + 1]? =
              some (stages segments)[state.passed + 1] := List.getElem?_eq_getElem inside
          refine ⟨_, behind, state.view, fun _ => [], ?_, fun item => ?_, Settles.nil _⟩
          · rw [List.take_add_one, present]
            exact settled_append.2 ⟨between, settled, state.view, all ▸ settles, rfl⟩
          · exact follows.phase_eq behind item

/-- Whenever a crew is through, its segments have run. -/
theorem runs_of_reaches [DecidableEq ι] [Nonempty ι] {own : ι → Memory α} {shared : Touch → α}
    (reached : crew.Reaches meaning (crew.start own shared) state)
    (through : ∀ item, state.ahead item = [] ∧
      (Kernel.phases (crew.steps item)).length ≤ state.passed + 1) :
    Runs meaning crew.seat segments (crew.start own shared).view state.view := by
  obtain ⟨stage, present, between, done, settled, split, settles⟩ :=
    follows.settled_of_reaches reached
  have all : done = stage := by
    funext item
    have split := split item
    rwa [(through item).1, List.append_nil] at split
  have last := (through (Classical.arbitrary ι)).2
  rw [follows.length_phases] at last
  have whole : (stages segments).take state.passed ++ [stage] = stages segments := by
    have few := List.take_of_length_le last
    rwa [List.take_add_one, present] at few
  apply runs_of_settled follows.raceFree
  rw [← whole]
  exact settled_append.2 ⟨between, settled, state.view, all ▸ settles, rfl⟩

end Follows

end Crew

end KernelTuner.Kernel
