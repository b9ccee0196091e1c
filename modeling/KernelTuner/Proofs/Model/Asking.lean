import KernelTuner.Proofs.Model.Logging

/-!
Contract: what calls ask the compiler for.

Owns: the programs that a call needs, and `Call.asks_of_needs`, by which it asks the
compiler for each of them that has not been compiled, whatever came of earlier requests.
-/

set_option autoImplicit false

namespace KernelTuner

open KernelTuner.Action (Keeps)

variable {σ : Type} {queue : CommandQueue σ} {variants : List Variant}
  {event : BackendEvent σ} {set : ProgramSet} {slot : Slot} {key : ProgramKey}

/-! ### Logs only grow -/

/-- The log beside a set has the event. -/
abbrev NotedBeside (event : BackendEvent σ) (state : ProgramSet × Bench (Recorded σ)) : Prop :=
  LogBeside (event ∈ ·) state

/-- A model of which the log has the event. -/
abbrev Noted (queue : CommandQueue σ) (variants : List Variant) (event : BackendEvent σ)
    (run : ModelRun (Recorded σ)) : Prop :=
  Logs queue variants (event ∈ ·) run

theorem noted_rule (variants : List Variant) (batch : Batch) :
    LogRule variants batch (event ∈ ·) where
  compile := fun _ _ _ noted => List.mem_append_left _ noted
  submit := fun _ _ _ _ noted => List.mem_append_left _ noted
  finish := fun _ _ noted => List.mem_append_left _ noted

theorem Noted.lasting (batch : Batch) :
    Lasting queue.recorded variants batch (Noted queue variants event) :=
  Logs.lasting (noted_rule variants batch)

/-! ### Needs -/

/-- The slots whose programs a call comes to ask for, when `set` is stored for it. -/
inductive Call.Needs (model : Model σ) (set : ProgramSet) (bench : Bench σ) :
    Call → Slot → Prop where
  | executing {batch : Batch} {bypassPredictor : Bool} (force : Bool) {baseline : Variant}
      {shape : Shape} {selection : Selection} {variant : Variant} {plan : LaunchPlan}
      (first : model.variants[0]? = some baseline) (sized : baseline.sizes batch = .ok shape)
      (selected : model.select shape bypassPredictor = .ok selection)
      (chosen : model.variants[selection.variant]? = some variant)
      (planned : variant.plan selection.variant batch = .ok plan) :
      Needs model set bench (.execute batch bypassPredictor force) plan.slot
  | tuning {batch : Batch} {baseline : Variant} {shape : Shape}
      (first : model.variants[0]? = some baseline) (sized : baseline.sizes batch = .ok shape)
      (filled : set.primary.isEmpty = false) : Needs model set bench (.tune batch) .primary
  | tuningOn {batch : Batch} {baseline : Variant} {shape : Shape} {state : ProgramSet × Bench σ}
      (first : model.variants[0]? = some baseline) (sized : baseline.sizes batch = .ok shape)
      (passed : ProgramSet.compileSlot model.queue .primary (set, bench) = (.ok (), state))
      (filled : set.fallback.isEmpty = false) : Needs model set bench (.tune batch) .fallback

/-! ### Requests -/

namespace ProgramSet

variable {bench : Bench (Recorded σ)}

theorem program_asks (uncompiled : (set.shell slot).compiled = none) :
    NotedBeside ⟨.compile (set.shell slot).request, bench.backend.backend⟩
      (program queue.recorded slot (set, bench)).2 := by
  show _ ∈ (Shell.program queue.recorded (set.shell slot, bench)).2.2.backend.log
  rw [Shell.state_of_uncompiled queue.recorded bench uncompiled]
  exact List.mem_append_right _ List.mem_cons_self

theorem compileSlot_asks (slot : Slot) (filled : (set.shell slot).isEmpty = false)
    (uncompiled : (set.shell slot).compiled = none) :
    NotedBeside ⟨.compile (set.shell slot).request, bench.backend.backend⟩
      (compileSlot queue.recorded slot (set, bench)).2 := by
  rw [compileSlot_of_filled queue.recorded filled]
  exact Keeps.behind (program_asks uncompiled) fun _ => .pure ()

theorem compileSlot_shell (queue : CommandQueue σ) (slot : Slot) {other : Slot}
    (apart : slot ≠ other) (state : ProgramSet × Bench σ) :
    (compileSlot queue slot state).2.1.shell other = state.1.shell other := by
  have kept : Keeps (fun reached : ProgramSet × Bench σ =>
      reached.1.shell other = state.1.shell other) (program queue slot) := by
    intro reached same
    exact (shell_putShell reached.1 slot other _).trans ((if_neg apart).trans same)
  exact keeps_compileSlot kept state rfl

theorem compileAll_asks_primary (filled : set.primary.isEmpty = false)
    (uncompiled : set.primary.compiled = none) :
    NotedBeside ⟨.compile set.primary.request, bench.backend.backend⟩
      (compileAll queue.recorded (set, bench)).2 := by
  refine Keeps.behind (compileSlot_asks .primary filled uncompiled) fun _ => ?_
  refine keeps_compileSlot (program_keeps_logBeside ?_ .fallback)
  exact fun _ _ _ noted => List.mem_append_left _ noted

/-- The fallback program is asked for when the primary one does not fail. -/
theorem compileAll_asks_fallback {bench : Bench σ} {state : ProgramSet × Bench σ}
    (passed : compileSlot queue .primary (set, bench) = (.ok (), state))
    (filled : set.fallback.isEmpty = false) (uncompiled : set.fallback.compiled = none)
    (log : List (BackendEvent σ)) :
    NotedBeside ⟨.compile set.fallback.request, state.2.backend⟩
      (compileAll queue.recorded (set, bench.recorded log)).2 := by
  obtain ⟨more, mirrored⟩ := compileSlot_mirrors queue .primary (set, bench)
  have compiled : compileSlot queue.recorded .primary (set, bench.recorded log) =
      (.ok (), Bench.recordedBeside (log ++ more) state) := by
    rw [passed] at mirrored
    exact mirrored log
  have same : state.1.fallback = set.fallback := by
    have kept := compileSlot_shell queue .primary (show Slot.primary ≠ .fallback by decide)
      (set, bench)
    rw [passed] at kept
    exact kept
  have whole : compileAll queue.recorded (set, bench.recorded log) =
      compileSlot queue.recorded .fallback (Bench.recordedBeside (log ++ more) state) :=
    Action.bind_ok compiled
  rw [← same] at filled uncompiled ⊢
  rw [whole]
  exact compileSlot_asks .fallback filled uncompiled

end ProgramSet

namespace Model

variable {run : ModelRun (Recorded σ)}

/-- What a step on a stored set notes is noted by the model. -/
theorem noted_of_held {α : Type} {step : Action (ProgramSet × Bench (Recorded σ)) α}
    (onQueue : run.model.queue = queue.recorded) (ofVariants : run.model.variants = variants)
    (held : run.model.programs.get? key = some set)
    (noted : NotedBeside event (step (set, run.bench)).2) :
    Noted queue variants event (onPrograms key step run).2 := by
  obtain ⟨reached, outcome, _⟩ := onPrograms_of_held step held
  rw [outcome]
  exact ⟨onQueue, ofVariants, noted⟩

section Behind

variable {batch : Batch} {baseline : Variant} {shape : Shape} {model : Model (Recorded σ)}

theorem shapeOf_of_first (ofVariants : run.model.variants = variants)
    (first : variants[0]? = some baseline) (sized : baseline.sizes batch = .ok shape) :
    shapeOf batch run = (.ok shape, run) := by
  rw [← ofVariants] at first
  exact shapeOf_succeeds_iff.2 ⟨baseline, first, sized, rfl⟩

/-- A variant that is enqueued asks for its program when that has not been compiled. -/
theorem enqueue_asks {index : Nat} {variant : Variant} {plan : LaunchPlan}
    (onQueue : run.model.queue = queue.recorded) (ofVariants : run.model.variants = variants)
    (held : run.model.programs.get? key = some set)
    (chosen : variants[index]? = some variant) (planned : variant.plan index batch = .ok plan)
    (uncompiled : (set.shell plan.slot).compiled = none) :
    Noted queue variants ⟨.compile (set.shell plan.slot).request, run.bench.backend.backend⟩
      (enqueue key index batch run).2 := by
  have found : (Action.ofExcept (run.model.variantAt index) :
      Action (ModelRun (Recorded σ)) Variant) run = (.ok variant, run) := by
    rw [Action.ofExcept, variantAt_eq_ok_iff.2 (ofVariants ▸ chosen)]
  have planning : (Action.ofExcept (variant.plan index batch) :
      Action (ModelRun (Recorded σ)) LaunchPlan) run = (.ok plan, run) := by
    rw [Action.ofExcept, planned]
  unfold enqueue
  rw [Action.read_bind_apply, Action.bind_ok found, Action.bind_ok planning, onQueue]
  refine Keeps.behind ?_ fun program => (Noted.lasting batch).submitAll _ fun _ member =>
    ⟨index, variant, plan, program, chosen, planned, member⟩
  exact noted_of_held onQueue ofVariants held (ProgramSet.program_asks uncompiled)

theorem selectAndEnqueue_asks {bypassPredictor : Bool} {selection : Selection} {variant : Variant}
    {plan : LaunchPlan} (onQueue : run.model.queue = queue.recorded)
    (ofVariants : run.model.variants = variants)
    (held : run.model.programs.get? key = some set) (first : variants[0]? = some baseline)
    (sized : baseline.sizes batch = .ok shape)
    (selected : model.select shape bypassPredictor = .ok selection)
    (chosen : variants[selection.variant]? = some variant)
    (planned : variant.plan selection.variant batch = .ok plan)
    (uncompiled : (set.shell plan.slot).compiled = none) :
    Noted queue variants ⟨.compile (set.shell plan.slot).request, run.bench.backend.backend⟩
      (Lasting.selectAndEnqueue batch bypassPredictor model key run).2 := by
  have selecting : (Action.ofExcept (model.select shape bypassPredictor) :
      Action (ModelRun (Recorded σ)) Selection) run = (.ok selection, run) := by
    rw [Action.ofExcept, selected]
  unfold Lasting.selectAndEnqueue
  rw [Action.bind_ok (shapeOf_of_first ofVariants first sized), Action.bind_ok selecting]
  refine Keeps.behind ?_ fun _ => .pure selection
  exact enqueue_asks onQueue ofVariants held chosen planned uncompiled

theorem compileAndMeasure_notes (onQueue : run.model.queue = queue.recorded)
    (ofVariants : run.model.variants = variants) (sameQueue : model.queue = queue.recorded)
    (sameVariants : model.variants = variants)
    (held : run.model.programs.get? key = some set) (first : variants[0]? = some baseline)
    (sized : baseline.sizes batch = .ok shape)
    (noted : NotedBeside event (ProgramSet.compileAll queue.recorded (set, run.bench)).2) :
    Noted queue variants event (Lasting.compileAndMeasure batch model key run).2 := by
  unfold Lasting.compileAndMeasure
  rw [Action.bind_ok (shapeOf_of_first ofVariants first sized), sameQueue]
  refine Keeps.behind ?_ fun _ => (Noted.lasting batch).timing sameVariants key shape
  exact noted_of_held onQueue ofVariants held noted

end Behind

/-- A lookup makes no call of the backend, so nothing is logged of it. -/
theorem obtainPrograms_recorded (batch : Batch) (force : Bool) (run : ModelRun σ)
    (log : List (BackendEvent σ)) :
    obtainPrograms batch force (run.recorded log) =
      ((obtainPrograms batch force run).1, (obtainPrograms batch force run).2.recorded log) := by
  obtain ⟨more, same⟩ := obtainPrograms_mirrors batch force run
  have quiet := congrArg Recorded.log (backend_of_obtained (same log))
  have none : more = [] := List.append_right_eq_self.1 quiet
  rw [same log, none, List.append_nil]

end Model

namespace Call

variable {batch : Batch} {run : ModelRun σ}

/-- What is noted behind the lookup for an execution is an event of the execution. -/
theorem execute_notes {bypassPredictor force : Bool} {obtained : ModelRun (Recorded σ)}
    (checked : (run.recorded []).model.checkContext batch = .ok ())
    (obtains : Model.obtainPrograms batch force (run.recorded []) = (.ok key, obtained))
    (noted : Noted queue variants event
      (Lasting.selectAndEnqueue batch bypassPredictor run.model.recorded key obtained).2) :
    event ∈ (execute batch bypassPredictor force).events run := by
  show event ∈ (Model.execute batch bypassPredictor force (run.recorded [])).2.bench.backend.log
  rw [Lasting.execute_of_obtained checked obtains]
  exact noted.holds

theorem tune_notes {obtained : ModelRun (Recorded σ)}
    (checked : (run.recorded []).model.checkContext batch = .ok ())
    (obtains : Model.obtainPrograms batch false (run.recorded []) = (.ok key, obtained))
    (noted : Noted queue variants event
      (Lasting.compileAndMeasure batch run.model.recorded key obtained).2) :
    event ∈ (tune batch).events run := by
  show event ∈ (Model.tune batch (run.recorded [])).2.bench.backend.log
  rw [Lasting.tune_of_obtained checked obtains]
  exact noted.holds

/-- An execution asks for the program of the variant that it selects, when that has not been
compiled, before it does anything else with the backend. -/
theorem execute_asks {bypassPredictor force : Bool} {obtained : ModelRun σ} {baseline variant : Variant}
    {shape : Shape} {selection : Selection} {plan : LaunchPlan}
    (checked : run.model.checkContext batch = .ok ())
    (obtains : Model.obtainPrograms batch force run = (.ok key, obtained))
    (held : obtained.model.programs.get? key = some set)
    (first : run.model.variants[0]? = some baseline) (sized : baseline.sizes batch = .ok shape)
    (selected : run.model.select shape bypassPredictor = .ok selection)
    (chosen : run.model.variants[selection.variant]? = some variant)
    (planned : variant.plan selection.variant batch = .ok plan)
    (uncompiled : (set.shell plan.slot).compiled = none) :
    ⟨.compile (set.shell plan.slot).request, run.bench.backend⟩ ∈
      (execute batch bypassPredictor force).events run := by
  obtain ⟨sameVariants, _, sameQueue, _⟩ := Model.of_setup (Model.setup_of_obtained obtains)
  have ofVariants : (obtained.recorded []).model.variants = run.model.variants := sameVariants
  have onQueue : (obtained.recorded []).model.queue = run.model.queue.recorded :=
    congrArg CommandQueue.recorded sameQueue
  have onRecorded : (run.recorded []).model.checkContext batch = .ok () := checked
  have recording : Model.obtainPrograms batch force (run.recorded []) =
      (.ok key, obtained.recorded []) := by
    rw [Model.obtainPrograms_recorded, obtains]
  have selecting : run.model.recorded.select shape bypassPredictor = .ok selection := selected
  rw [← Model.backend_of_obtained obtains]
  exact execute_notes onRecorded recording (Model.selectAndEnqueue_asks onQueue ofVariants held
    first sized selecting chosen planned uncompiled)

/-- A call asks the compiler for each of the programs that it needs and that has not been
compiled. -/
theorem asks_of_needs {call : Call} {obtained : ModelRun σ}
    (checked : run.model.checkContext call.batch = .ok ())
    (obtains : Model.obtainPrograms call.batch call.force run = (.ok key, obtained))
    (held : obtained.model.programs.get? key = some set)
    (needed : call.Needs run.model set obtained.bench slot)
    (uncompiled : (set.shell slot).compiled = none) :
    ∃ event ∈ call.events run, event.call = .compile (set.shell slot).request := by
  suffices asked : ∃ before : σ, ⟨.compile (set.shell slot).request, before⟩ ∈ call.events run by
    obtain ⟨before, member⟩ := asked
    exact ⟨_, member, rfl⟩
  obtain ⟨sameVariants, _, sameQueue, _⟩ := Model.of_setup (Model.setup_of_obtained obtains)
  have ofVariants : (obtained.recorded []).model.variants = run.model.variants := sameVariants
  have onQueue : (obtained.recorded []).model.queue = run.model.queue.recorded :=
    congrArg CommandQueue.recorded sameQueue
  have startQueue : run.model.recorded.queue = run.model.queue.recorded := rfl
  have startVariants : run.model.recorded.variants = run.model.variants := rfl
  have onRecorded : (run.recorded []).model.checkContext call.batch = .ok () := checked
  have recording : Model.obtainPrograms call.batch call.force (run.recorded []) =
      (.ok key, obtained.recorded []) := by
    rw [Model.obtainPrograms_recorded, obtains]
  cases needed with
  | executing _ first sized selected chosen planned =>
      exact ⟨_, execute_asks checked obtains held first sized selected chosen planned uncompiled⟩
  | @tuning batch _ _ first sized filled =>
      have noted := Model.compileAndMeasure_notes onQueue ofVariants startQueue startVariants held
        first sized (ProgramSet.compileAll_asks_primary filled uncompiled)
      exact ⟨_, tune_notes onRecorded recording noted⟩
  | @tuningOn batch _ _ state first sized passed filled =>
      have noted := Model.compileAndMeasure_notes onQueue ofVariants startQueue startVariants held
        first sized (ProgramSet.compileAll_asks_fallback passed filled uncompiled [])
      exact ⟨_, tune_notes onRecorded recording noted⟩

end Call

end KernelTuner
