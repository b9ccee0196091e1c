import KernelTuner.Proofs.Model.Stock

/-!
Contract: the parts of calls on a selection model.

Owns: what a call that succeeds consists of, part by part; and the setup of a model,
which is all of it but its stored programs: no execution changes the setup, and a tuning
changes nothing of it but the override that it records.
-/

set_option autoImplicit false

namespace KernelTuner

open KernelTuner.Action (Keeps Ends)

variable {σ α : Type}

/-! ### Calls that succeed -/

namespace Model

variable {batch : Batch} {key : ProgramKey} {index : Nat} {run after : ModelRun σ}

/-- A variant that has been enqueued was planned, its program was there, and its launches
were all accepted. -/
theorem enqueue_succeeds_iff :
    enqueue key index batch run = (.ok (), after) ↔
      ∃ variant plan program compiled, run.model.variants[index]? = some variant ∧
        variant.plan index batch = .ok plan ∧
        onPrograms key (ProgramSet.program run.model.queue plan.slot) run =
          (.ok program, compiled) ∧
        submitAll run.model.queue (plan.launches.map (launchOf program index)) compiled =
          (.ok (), after) := by
  unfold enqueue
  simp only [Action.read_bind_apply, Action.bind_succeeds_iff, Action.ofExcept_succeeds_iff,
    variantAt_eq_ok_iff]
  constructor
  · rintro ⟨variant, _, ⟨chosen, rfl⟩, plan, _, ⟨planned, rfl⟩, program, compiled, rest⟩
    exact ⟨variant, plan, program, compiled, chosen, planned, rest⟩
  · rintro ⟨variant, plan, program, compiled, chosen, planned, rest⟩
    exact ⟨variant, run, ⟨chosen, rfl⟩, plan, run, ⟨planned, rfl⟩, program, compiled, rest⟩

theorem shapeOf_succeeds_iff {shape : Shape} :
    shapeOf batch run = (.ok shape, after) ↔
      ∃ baseline, run.model.variants[0]? = some baseline ∧ baseline.sizes batch = .ok shape ∧
        run = after := by
  unfold shapeOf
  simp only [Action.read_bind_apply, Action.bind_succeeds_iff, Action.ofExcept_succeeds_iff,
    variantAt_eq_ok_iff]
  constructor
  · rintro ⟨baseline, _, ⟨first, rfl⟩, sized⟩
    exact ⟨baseline, first, sized⟩
  · rintro ⟨baseline, first, sized⟩
    exact ⟨baseline, run, ⟨first, rfl⟩, sized⟩

/-- An execution that succeeds has selected a variant for the sizes of its batch and has
enqueued it. -/
theorem execute_succeeds_iff {bypassPredictor force : Bool} {selection : Selection} :
    execute batch bypassPredictor force run = (.ok selection, after) ↔
      run.model.checkContext batch = .ok () ∧
        ∃ key obtained baseline shape, obtainPrograms batch force run = (.ok key, obtained) ∧
          obtained.model.variants[0]? = some baseline ∧ baseline.sizes batch = .ok shape ∧
          run.model.select shape bypassPredictor = .ok selection ∧
          enqueue key selection.variant batch obtained = (.ok (), after) := by
  unfold execute
  simp only [Action.read_bind_apply, Action.bind_succeeds_iff, Action.ofExcept_succeeds_iff,
    shapeOf_succeeds_iff, Action.pure_succeeds_iff]
  constructor
  · rintro ⟨_, _, ⟨checked, rfl⟩, key, obtained, obtains, shape, _, ⟨baseline, first, sized, rfl⟩,
      _, _, ⟨selected, rfl⟩, _, _, enqueued, rfl, rfl⟩
    exact ⟨checked, key, obtained, baseline, shape, obtains, first, sized, selected, enqueued⟩
  · rintro ⟨checked, key, obtained, baseline, shape, obtains, first, sized, selected, enqueued⟩
    exact ⟨(), run, ⟨checked, rfl⟩, key, obtained, obtains, shape, obtained,
      ⟨baseline, first, sized, rfl⟩, selection, obtained, ⟨selected, rfl⟩, (), after, enqueued,
      rfl, rfl⟩

/-- An execution ends as its parts do: the checks, the lookup of programs, and behind it
the enqueuing of the variant that is selected. -/
theorem ends_execute {bypassPredictor force : Bool} {success : Selection → ModelRun σ → Prop}
    {failure : Error → ModelRun σ → Prop} (refused : ∀ cause, failure cause run)
    (unobtained : ∀ cause obtained, obtainPrograms batch force run = (.error cause, obtained) →
      failure cause obtained)
    (behind : ∀ key obtained, obtainPrograms batch force run = (.ok key, obtained) →
      (∀ cause, failure cause obtained) ∧ ∀ selection,
        Ends obtained (enqueue key selection.variant batch)
          (fun _ after => success selection after) failure) :
    Ends run (execute batch bypassPredictor force) success failure := by
  refine .read_bind (.ofExcept_bind (fun cause _ => refused cause) fun _ _ => ?_)
  rcases outcome : obtainPrograms batch force run with ⟨result, obtained⟩
  cases result with
  | error cause => exact .of_error (Action.bind_error outcome) (unobtained cause obtained outcome)
  | ok key =>
      obtain ⟨fails, enqueues⟩ := behind key obtained outcome
      have shaped : Ends obtained (shapeOf batch) (fun _ reached => reached = obtained)
          (fun _ reached => reached = obtained) := .of_keeps (Lasting.shapeOf batch) rfl
      refine .bind_of_ok outcome (.bind (shaped.imp (fun _ _ same => same) ?_) ?_)
      · rintro cause _ rfl
        exact fails cause
      intro shape reached same
      rw [same]
      refine .ofExcept_bind (fun cause _ => fails cause) fun selection _ => ?_
      exact .bind (enqueues selection) fun _ _ ended => .pure ended

/-- A step on a stored set ends as it ends on the set, and what it leaves is stored. -/
theorem ends_onPrograms {step : Action (ProgramSet × Bench σ) α} {set : ProgramSet}
    {success : α → ProgramSet × Bench σ → Prop} {failure : Error → ProgramSet × Bench σ → Prop}
    (held : run.model.programs.get? key = some set)
    (ends : Ends (set, run.bench) step success failure) :
    Ends run (onPrograms key step)
      (fun value after => ∃ reached programs, success value reached ∧
        after = ⟨{ run.model with programs }, reached.2⟩ ∧ programs.get? key = some reached.1)
      (fun cause after => ∃ reached programs, failure cause reached ∧
        after = ⟨{ run.model with programs }, reached.2⟩ ∧ programs.get? key = some reached.1) := by
  obtain ⟨programs, outcome, stored⟩ := onPrograms_of_held step held
  have kept : programs.get? key = some (step (set, run.bench)).2.1 := (stored key).trans (if_pos rfl)
  rcases ends.cases with ⟨value, reached, ended, holds⟩ | ⟨cause, reached, ended, holds⟩
  · rw [ended] at outcome kept
    exact .of_ok outcome ⟨reached, programs, holds, rfl, kept⟩
  · rw [ended] at outcome kept
    exact .of_error outcome ⟨reached, programs, holds, rfl, kept⟩

/-- A variant that has been measured was enqueued and waited for. -/
theorem measure_succeeds_iff {duration : Nat} :
    measure key index batch run = (.ok duration, after) ↔
      ∃ enqueued, enqueue key index batch run = (.ok (), enqueued) ∧
        finish enqueued = (.ok (), after) ∧
        duration = after.model.queue.clock after.bench.backend -
          run.model.queue.clock run.bench.backend := by
  unfold measure clock
  simp only [Action.read_bind_apply, Action.bind_succeeds_iff, Action.pure_succeeds_iff]
  constructor
  · rintro ⟨_, enqueued, queued, _, _, finished, rfl, rfl⟩
    exact ⟨enqueued, queued, finished, rfl⟩
  · rintro ⟨enqueued, queued, finished, rfl⟩
    exact ⟨(), enqueued, queued, (), after, finished, rfl, rfl⟩

theorem measureFrom_succ_succeeds_iff {count : Nat} {durations : List Nat} :
    measureFrom key batch index (count + 1) run = (.ok durations, after) ↔
      ∃ duration others measured, measure key index batch run = (.ok duration, measured) ∧
        measureFrom key batch (index + 1) count measured = (.ok others, after) ∧
        durations = duration :: others := by
  simp only [measureFrom, Action.bind_succeeds_iff, Action.pure_succeeds_iff]
  constructor
  · rintro ⟨duration, measured, first, others, _, rest, rfl, rfl⟩
    exact ⟨duration, others, measured, first, rest, rfl⟩
  · rintro ⟨duration, others, measured, first, rest, rfl⟩
    exact ⟨duration, measured, first, others, after, rest, rfl, rfl⟩

/-- The model with an override. -/
def withOverride (model : Model σ) (shape : Shape) (best : Nat) : Model σ :=
  { model with overrides := model.overrides.insert shape best }

/-- The model behind a tuning that has come to `report` and has reached `measured` before. -/
def tuned (report : TuneReport) (measured : ModelRun σ) : ModelRun σ where
  model := measured.model.withOverride report.shape report.best
  bench := measured.bench.record .tune

/-- A tuning that succeeds has compiled all programs, has waited, has measured every
variant, and has recorded the fastest. -/
theorem tune_succeeds_iff {report : TuneReport} :
    tune batch run = (.ok report, after) ↔
      run.model.checkContext batch = .ok () ∧
        ∃ key obtained baseline compiled drained measured,
          obtainPrograms batch false run = (.ok key, obtained) ∧
          obtained.model.variants[0]? = some baseline ∧
          baseline.sizes batch = .ok report.shape ∧
          onPrograms key (ProgramSet.compileAll run.model.queue) obtained = (.ok (), compiled) ∧
          finish compiled = (.ok (), drained) ∧
          measureFrom key batch 0 run.model.variants.length drained =
            (.ok report.durations, measured) ∧
          report.best = fastest report.durations ∧ after = tuned report measured := by
  have recorded {state reached : ModelRun σ} {shape : Shape} {best : Nat} :
      recordOverride shape best state = (.ok (), reached) ↔
        { state with model := state.model.withOverride shape best } = reached :=
    (Iff.of_eq (Prod.mk.injEq ..)).trans (and_iff_right rfl)
  unfold tune
  simp only [Action.afterwards_succeeds_iff, Action.read_bind_apply, Action.bind_succeeds_iff,
    Action.ofExcept_succeeds_iff, shapeOf_succeeds_iff, recorded, Action.pure_succeeds_iff]
  constructor
  · rintro ⟨_, ⟨_, _, ⟨checked, rfl⟩, key, obtained, obtains, shape, _,
      ⟨baseline, first, sized, rfl⟩, _, compiled, compiles, _, drained, drains, durations, measured,
      measures, _, _, rfl, rfl, rfl⟩, rfl⟩
    exact ⟨checked, key, obtained, baseline, compiled, drained, measured, obtains, first, sized,
      compiles, drains, measures, rfl, rfl⟩
  · rintro ⟨checked, key, obtained, baseline, compiled, drained, measured, obtains, first, sized,
      compiles, drains, measures, best, rfl⟩
    obtain ⟨shape, durations, choice⟩ := report
    have chosen : choice = fastest durations := best
    subst chosen
    exact ⟨_, ⟨(), run, ⟨checked, rfl⟩, key, obtained, obtains, shape, obtained,
      ⟨baseline, first, sized, rfl⟩, (), compiled, compiles, (), drained, drains, durations, measured,
      measures, (), _, rfl, rfl, rfl⟩, rfl⟩

end Model

/-! ### The setup of a model -/

/-- All of a model but the programs that it has stored. -/
def Model.setup (model : Model σ) : Model σ := { model with programs := {} }

namespace Model

variable {setup : Model σ}

theorem of_setup {model : Model σ} (same : model.setup = setup) :
    model.variants = setup.variants ∧ model.predictor = setup.predictor ∧
      model.queue = setup.queue ∧ model.overrides = setup.overrides := by
  subst same
  exact ⟨rfl, rfl, rfl, rfl⟩

/-- The models of this setup. -/
def OfSetup (setup : Model σ) (run : ModelRun σ) : Prop := run.model.setup = setup

theorem obtainPrograms_keeps_setup (batch : Batch) (force : Bool) :
    Keeps (OfSetup setup) (obtainPrograms batch force) := by
  intro run holds
  cases named : batch.programName with
  | error cause =>
      rw [obtainPrograms_of_refused named]
      exact holds
  | ok name =>
      obtain ⟨_, _, _, obtained, _⟩ := obtainPrograms_of_named force run named
      rw [obtained]
      exact holds

theorem setup_of_obtained {batch : Batch} {force : Bool} {run obtained : ModelRun σ}
    {result : Except Error ProgramKey} (obtains : obtainPrograms batch force run = (result, obtained)) :
    obtained.model.setup = run.model.setup := by
  have kept := obtainPrograms_keeps_setup batch force run
    (show OfSetup run.model.setup run from rfl)
  rw [obtains] at kept
  exact kept

/-- A lookup of programs makes no call of the backend. -/
theorem backend_of_obtained {batch : Batch} {force : Bool} {run obtained : ModelRun σ}
    {result : Except Error ProgramKey}
    (obtains : obtainPrograms batch force run = (result, obtained)) :
    obtained.bench.backend = run.bench.backend := by
  cases named : batch.programName with
  | error cause =>
      rw [obtainPrograms_of_refused named] at obtains
      cases obtains
      rfl
  | ok name =>
      obtain ⟨_, _, _, outcome, _⟩ := obtainPrograms_of_named force run named
      rw [obtains] at outcome
      cases outcome
      rfl

/-- A lookup that succeeds has found a set under the name of the batch. -/
theorem held_of_obtained {batch : Batch} {force : Bool} {run obtained : ModelRun σ}
    {key : ProgramKey} (obtains : obtainPrograms batch force run = (.ok key, obtained)) :
    ∃ name set, batch.programName = .ok name ∧ key = (run.model.queue.context, name) ∧
      obtained.model.programs.get? key = some set := by
  cases named : batch.programName with
  | error cause =>
      rw [obtainPrograms_of_refused named] at obtains
      cases obtains
  | ok name =>
      obtain ⟨result, reached, recorded, outcome, looked⟩ := obtainPrograms_of_named force run named
      rw [obtains] at outcome
      cases looked with
      | held present unchanged =>
          cases outcome
          exact ⟨name, _, rfl, rfl, (unchanged _).trans present⟩
      | built _ _ grown =>
          cases outcome
          exact ⟨name, _, rfl, rfl, (grown _).trans (if_pos rfl)⟩
      | failed _ _ _ => cases outcome

theorem onPrograms_keeps_setup (key : ProgramKey) (step : Action (ProgramSet × Bench σ) α) :
    Keeps (OfSetup setup) (onPrograms key step) :=
  fun _ holds => holds

theorem onBackend_keeps_setup (call : σ → Except BackendError α × σ) :
    Keeps (OfSetup setup) (onBackend call) :=
  fun _ holds => holds

theorem submitAll_keeps_setup (queue : CommandQueue σ) (launches : List Launch) :
    Keeps (OfSetup setup) (submitAll queue launches) := by
  induction launches with
  | nil => exact .pure ()
  | cons launch rest inductionHypothesis =>
      exact .bind (onBackend_keeps_setup _) fun _ => inductionHypothesis

theorem enqueue_keeps_setup (key : ProgramKey) (index : Nat) (batch : Batch) :
    Keeps (OfSetup setup) (enqueue key index batch) := by
  refine .bind (.read _) fun model => .bind (.ofExcept _) fun variant => .bind (.ofExcept _) ?_
  intro plan
  exact .bind (onPrograms_keeps_setup key _) fun program => submitAll_keeps_setup _ _

theorem finish_keeps_setup : Keeps (OfSetup setup) finish :=
  .bind (.read _) fun _ => onBackend_keeps_setup _

theorem measureFrom_keeps_setup (key : ProgramKey) (batch : Batch) (index count : Nat) :
    Keeps (OfSetup setup) (measureFrom key batch index count) := by
  induction count generalizing index with
  | zero => exact .pure []
  | succ count inductionHypothesis =>
      have measured : Keeps (OfSetup setup) (measure key index batch) := by
        refine .bind (.read _) fun started => .bind (enqueue_keeps_setup key index batch) ?_
        exact fun _ => .bind finish_keeps_setup fun _ => .bind (.read _) fun stopped => .pure _
      refine .bind measured fun duration => ?_
      exact .bind (inductionHypothesis (index + 1)) fun durations => .pure _

/-- No execution changes the setup, whether it fails or not. -/
theorem execute_keeps_setup (batch : Batch) (bypassPredictor force : Bool) :
    Keeps (OfSetup setup) (execute batch bypassPredictor force) := by
  refine .bind (.read _) fun model => .bind (.ofExcept _) fun _ => ?_
  refine .bind (obtainPrograms_keeps_setup batch force) fun key => ?_
  refine .bind (Lasting.shapeOf batch) fun shape => .bind (.ofExcept _) fun selection => ?_
  exact .bind (enqueue_keeps_setup key selection.variant batch) fun _ => .pure _

/-- A tuning changes the setup by the override of its report, and not at all when it
fails. -/
theorem tune_ends (batch : Batch) (run : ModelRun σ) :
    Ends run (tune batch)
      (fun report after =>
        after.model.setup = run.model.setup.withOverride report.shape report.best ∧
        report.durations.length = run.model.variants.length ∧
        report.best = fastest report.durations)
      (fun _ after => after.model.setup = run.model.setup) := by
  have untouched : OfSetup run.model.setup run := rfl
  unfold tune
  refine Ends.afterwards (.read_bind (.ofExcept_bind (fun _ _ => rfl) fun _ _ => ?_))
  refine .bind (.of_keeps (obtainPrograms_keeps_setup batch false) untouched) ?_
  intro key obtained holds
  refine .bind (.of_keeps (Lasting.shapeOf batch) holds) ?_
  intro shape reached holds
  refine .bind (.of_keeps (onPrograms_keeps_setup key _) holds) ?_
  intro _ compiled holds
  refine .bind (.of_keeps finish_keeps_setup holds) ?_
  intro _ drained holds
  refine .bind (.of_keeps_yields (measureFrom_keeps_setup key batch 0 _)
    (Lasting.measureFrom_length key batch 0 _) holds) ?_
  rintro durations measured ⟨holds, counted⟩
  exact ⟨congrArg (withOverride · shape (fastest durations)) holds, counted, rfl⟩

end Model

theorem Call.setup_of_execute (batch : Batch) (bypassPredictor force : Bool) (run : ModelRun σ) :
    ((execute batch bypassPredictor force).perform run).model.setup = run.model.setup :=
  Model.execute_keeps_setup batch bypassPredictor force run
    (show Model.OfSetup run.model.setup run from rfl)

end KernelTuner
