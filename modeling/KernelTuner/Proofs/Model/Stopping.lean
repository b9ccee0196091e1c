import KernelTuner.Proofs.Backend.Disturbance
import KernelTuner.Proofs.Model.Confinement
import KernelTuner.Proofs.Model.Recording

/-!
Contract: calls on a selection model whose backend may fail at any call.

Owns: `Call.stops`, by which an execution or a tuning makes the backend calls that it
would make undisturbed up to the first one that fails, makes none after it, and returns
the error of it.
Does not own: what is kept of the work before the failure.
-/

set_option autoImplicit false

namespace KernelTuner

open KernelTuner.Action (FailsFast FailsFastFrom)

variable {σ α β : Type}

/-- The model on another queue. -/
def Model.onto {τ : Type} (queue : CommandQueue τ) (model : Model σ) : Model τ where
  variants := model.variants
  predictor := model.predictor
  queue := queue
  overrides := model.overrides
  programs := model.programs

/-- The bench, with a plan and a log on its backend. -/
def Bench.watched (plan : Plan) (log : List (BackendEvent (Disturbed σ))) (bench : Bench σ) :
    Bench (Recorded (Disturbed σ)) where
  backend := ⟨⟨bench.backend, plan⟩, log⟩
  profile := bench.profile

/-- Something that belongs to a bench, with a plan and a log on the bench. -/
def Bench.watchedBeside (plan : Plan) (log : List (BackendEvent (Disturbed σ)))
    (state : β × Bench σ) : β × Bench (Recorded (Disturbed σ)) :=
  (state.1, state.2.watched plan log)

/-- The run of the model on `queue`, with a plan and a log on the backend. -/
def ModelRun.watched (queue : CommandQueue σ) (plan : Plan)
    (log : List (BackendEvent (Disturbed σ))) (run : ModelRun σ) :
    ModelRun (Recorded (Disturbed σ)) where
  model := run.model.onto queue.disturbed.recorded
  bench := run.bench.watched plan log

/-- The run, with no failures planned. -/
def ModelRun.calm (run : ModelRun (Disturbed σ)) : ModelRun (Disturbed σ) :=
  { run with bench := { run.bench with backend := run.bench.backend.calm } }

variable (queue : CommandQueue σ)

/-! ### Programs -/

theorem Shell.program_failsFast :
    FailsFast queue.disturbed Bench.watchedBeside (Shell.program queue.disturbed.recorded) := by
  rintro ⟨shell, bench⟩
  cases held : shell.compiled with
  | some program =>
      refine .silent (.ok program) (shell, bench) fun plan log => ?_
      simp only [Shell.program, Bench.watchedBeside, held]
  | none =>
      refine .of_call (.compile shell.request) (queue.compile shell.request) bench.backend
        (Except.mapError Error.backend) (fun reply backend =>
          ({ shell with compiled := reply.toOption }, { bench with backend }.record .programCompile))
        ?_ (fun _ => rfl) fun _ => rfl
      intro plan log reply after outcome
      have asked : queue.disturbed.recorded.compile shell.request (bench.watched plan log).backend =
          (reply, ⟨after, log ++ [⟨.compile shell.request, ⟨bench.backend, plan⟩⟩]⟩) :=
        Recorded.note_of_outcome outcome
      cases reply with
      | ok program =>
          simp only [Shell.program, Bench.watchedBeside, held, asked]
          rfl
      | error cause =>
          have same : { shell with compiled := none } = shell := by rw [← held]
          simp only [Shell.program, Bench.watchedBeside, held, asked, Except.toOption, same]
          rfl

namespace ProgramSet

theorem program_failsFast (slot : Slot) :
    FailsFast queue.disturbed Bench.watchedBeside (program queue.disturbed.recorded slot) := by
  rintro ⟨set, bench⟩
  refine (Shell.program_failsFast queue (set.shell slot, bench)).transfer
    (fun reached => (set.putShell slot reached.1, reached.2)) fun plan log _ _ _ _ outcome => ?_
  simp only [Bench.watchedBeside] at outcome
  simp only [Bench.watchedBeside, program, Action.on, outcome]

theorem compileSlot_failsFast (slot : Slot) :
    FailsFast queue.disturbed Bench.watchedBeside
      (compileSlot queue.disturbed.recorded slot) := by
  intro state
  have sameShell (plan : Plan) (log : List (BackendEvent (Disturbed σ))) :
      ((Bench.watchedBeside plan log state).1.shell slot).isEmpty =
        (state.1.shell slot).isEmpty := rfl
  cases outcome : (state.1.shell slot).isEmpty with
  | true =>
      refine .silent (.ok ()) state fun plan log => ?_
      rw [compileSlot_of_empty _ ((sameShell plan log).trans outcome)]
  | false =>
      have compiles : FailsFast queue.disturbed Bench.watchedBeside
          (program queue.disturbed.recorded slot >>= fun _ => Pure.pure ()) :=
        (program_failsFast queue slot).bind fun _ => .pure ()
      refine (compiles state).transfer id fun plan log _ _ _ _ ends => ?_
      rw [compileSlot_of_filled _ ((sameShell plan log).trans outcome)]
      exact ends

theorem compileAll_failsFast :
    FailsFast queue.disturbed Bench.watchedBeside (compileAll queue.disturbed.recorded) :=
  (compileSlot_failsFast queue .primary).bind fun _ => compileSlot_failsFast queue .fallback

end ProgramSet

/-! ### Models -/

namespace Model

theorem obtainPrograms_failsFast (batch : Batch) (force : Bool) :
    FailsFast queue.disturbed (ModelRun.watched queue) (obtainPrograms batch force) := by
  refine .read_bind (fun run => run.model.onto queue.disturbed.recorded) (fun _ _ _ => rfl) ?_
  intro run
  refine .bind (.ofExcept _) fun name => .bind ?_ fun _ => .pure _
  let looked (state : ModelRun σ) := ProgramCache.obtain (queue.context, name) queue.device
    run.model.variants batch force (state.model.programs, state.bench.profile)
  exact .silent (fun state => ((looked state).1,
    { model := { state.model with programs := (looked state).2.1 }
      bench := { state.bench with profile := (looked state).2.2 } })) fun _ _ _ => rfl

theorem onPrograms_failsFast {step : Action (ProgramSet × Bench (Recorded (Disturbed σ))) α}
    (fast : FailsFast queue.disturbed Bench.watchedBeside step) (key : ProgramKey) :
    FailsFast queue.disturbed (ModelRun.watched queue) (onPrograms key step) := by
  intro run
  cases held : run.model.programs.get? key with
  | none =>
      refine .silent (.error (.fault .indexOutOfRange)) run fun plan log => ?_
      exact onPrograms_of_absent step held
  | some set =>
      refine (fast (set, run.bench)).transfer (fun reached =>
        { model := { run.model with programs := { run.model.programs with
            entries := run.model.programs.entries.modify key fun _ => reached.1 } }
          bench := reached.2 }) fun plan log _ _ _ _ outcome => ?_
      have alsoHeld : (run.watched queue plan log).model.programs.get? key = some set := held
      simp only [Bench.watchedBeside] at outcome
      simp only [onPrograms, Action.on, ProgramCache.onSet, alsoHeld]
      simp only [ModelRun.watched, outcome, onto]

/-- A call of the backend stops what it fails in. -/
theorem onBackend_failsFast {call : BackendCall} {action : σ → Except BackendError α × σ}
    (judged : ∀ state, BackendEvent.failure? queue.disturbed ⟨call, state⟩ =
      causeOf? (Disturbed.attempt action state).1) :
    FailsFast queue.disturbed (ModelRun.watched queue)
      (onBackend (Recorded.note call (Disturbed.attempt action))) := by
  intro run
  refine .of_call call action run.bench.backend (Except.mapError Error.backend)
    (fun _ backend => { run with bench := { run.bench with backend } })
    ?_ (fun _ => rfl) fun plan => judged ⟨run.bench.backend, plan⟩
  intro plan log reply after outcome
  have noted : Recorded.note call (Disturbed.attempt action) (run.watched queue plan log).bench.backend =
      (reply, ⟨after, log ++ [⟨call, ⟨run.bench.backend, plan⟩⟩]⟩) :=
    Recorded.note_of_outcome outcome
  simp only [onBackend, noted]
  rfl

theorem submitAll_failsFast (launches : List Launch) :
    FailsFast queue.disturbed (ModelRun.watched queue)
      (submitAll queue.disturbed.recorded launches) := by
  induction launches with
  | nil => exact .pure ()
  | cons launch rest inductionHypothesis =>
      exact .bind (onBackend_failsFast queue fun _ => rfl) fun _ => inductionHypothesis

theorem finish_failsFast : FailsFast queue.disturbed (ModelRun.watched queue) finish := by
  refine .read_bind (fun run => run.model.onto queue.disturbed.recorded) (fun _ _ _ => rfl) ?_
  exact fun _ => onBackend_failsFast queue fun _ => rfl

theorem enqueue_failsFast (key : ProgramKey) (index : Nat) (batch : Batch) :
    FailsFast queue.disturbed (ModelRun.watched queue) (enqueue key index batch) := by
  refine .read_bind (fun run => run.model.onto queue.disturbed.recorded) (fun _ _ _ => rfl) ?_
  intro run
  refine .bind (.ofExcept _) fun variant => .bind (.ofExcept _) fun plan => ?_
  refine .bind (onPrograms_failsFast queue (ProgramSet.program_failsFast queue plan.slot) key) ?_
  exact fun program => submitAll_failsFast queue _

theorem shapeOf_failsFast (batch : Batch) :
    FailsFast queue.disturbed (ModelRun.watched queue) (shapeOf batch) := by
  refine .read_bind (fun run => run.model.onto queue.disturbed.recorded) (fun _ _ _ => rfl) ?_
  exact fun _ => .bind (.ofExcept _) fun _ => .ofExcept _

theorem measure_failsFast (key : ProgramKey) (index : Nat) (batch : Batch) :
    FailsFast queue.disturbed (ModelRun.watched queue) (measure key index batch) := by
  have shown (plan : Plan) (log : List (BackendEvent (Disturbed σ))) (run : ModelRun σ) :
      (run.watched queue plan log).model.queue.clock (run.watched queue plan log).bench.backend =
        queue.clock run.bench.backend := rfl
  refine .read_bind _ shown fun _ => .bind (enqueue_failsFast queue key index batch) fun _ => ?_
  exact .bind (finish_failsFast queue) fun _ => .read_bind _ shown fun _ => .pure _

theorem measureFrom_failsFast (key : ProgramKey) (batch : Batch) (index count : Nat) :
    FailsFast queue.disturbed (ModelRun.watched queue) (measureFrom key batch index count) := by
  induction count generalizing index with
  | zero => exact .pure []
  | succ count inductionHypothesis =>
      refine .bind (measure_failsFast queue key index batch) fun duration => ?_
      exact .bind (inductionHypothesis (index + 1)) fun durations => .pure _

theorem execute_failsFast (batch : Batch) (bypassPredictor force : Bool) :
    FailsFast queue.disturbed (ModelRun.watched queue) (execute batch bypassPredictor force) := by
  refine .read_bind (fun run => run.model.onto queue.disturbed.recorded) (fun _ _ _ => rfl) ?_
  intro run
  refine .bind (.ofExcept _) fun _ => .bind (obtainPrograms_failsFast queue batch force) ?_
  intro key
  refine .bind (shapeOf_failsFast queue batch) fun shape => .bind (.ofExcept _) fun selection => ?_
  exact .bind (enqueue_failsFast queue key selection.variant batch) fun _ => .pure _

theorem tune_failsFast (batch : Batch) :
    FailsFast queue.disturbed (ModelRun.watched queue) (tune batch) := by
  unfold tune
  refine FailsFast.afterwards (fun run => { run with bench := run.bench.record .tune }) ?_
    fun _ _ _ => rfl
  refine .read_bind (fun run => run.model.onto queue.disturbed.recorded) (fun _ _ _ => rfl) ?_
  intro run
  refine .bind (.ofExcept _) fun _ => .bind (obtainPrograms_failsFast queue batch false) ?_
  intro key
  refine .bind (shapeOf_failsFast queue batch) fun shape => ?_
  refine .bind (onPrograms_failsFast queue (ProgramSet.compileAll_failsFast queue) key) fun _ => ?_
  refine .bind (finish_failsFast queue) fun _ => ?_
  refine .bind (measureFrom_failsFast queue key batch 0 _) fun durations => ?_
  refine .bind ?_ fun _ => .pure _
  exact .silent (fun state => (.ok (),
    { state with model := state.model.withOverride shape (fastest durations) })) fun _ _ _ => rfl

end Model

/-! ### Calls -/

variable {queue}

/-- The run on the backend below the plan. -/
def ModelRun.undisturbed (queue : CommandQueue σ) (run : ModelRun (Disturbed σ)) : ModelRun σ where
  model := run.model.onto queue
  bench := ⟨run.bench.backend.backend, run.bench.profile⟩

theorem ModelRun.recorded_eq_watched (run : ModelRun (Disturbed σ))
    (onQueue : run.model.queue = queue.disturbed) (log : List (BackendEvent (Disturbed σ))) :
    run.recorded log = (run.undisturbed queue).watched queue run.bench.backend.plan log := by
  obtain ⟨⟨variants, predictor, _, overrides, programs⟩, bench⟩ := run
  cases onQueue
  rfl

/-- The calls that a step makes when some of them fails. -/
theorem Action.FailsFastFrom.of_failed {step : Action (ModelRun (Recorded (Disturbed σ))) α}
    {run : ModelRun (Disturbed σ)}
    (fast : FailsFastFrom queue.disturbed (ModelRun.watched queue) step (run.undisturbed queue))
    (onQueue : run.model.queue = queue.disturbed) {event : BackendEvent (Disturbed σ)}
    (member : event ∈ (step (run.recorded [])).2.bench.backend.log)
    (failed : event.failure? queue.disturbed ≠ none) :
    ∃ passed last cause, (step (run.recorded [])).2.bench.backend.log = passed ++ [last] ∧
      (∀ event ∈ passed, event.failure? queue.disturbed = none) ∧
      last.failure? queue.disturbed = some cause ∧
      (step (run.recorded [])).1 = .error (.backend cause) ∧
      (step (run.recorded [])).2.bench.backend.log.map BackendEvent.call <+:
        (step (run.calm.recorded [])).2.bench.backend.log.map BackendEvent.call := by
  have watched := ModelRun.recorded_eq_watched run onQueue []
  have calmWatched : run.calm.recorded [] = (run.undisturbed queue).watched queue [] [] :=
    ModelRun.recorded_eq_watched run.calm onQueue []
  obtain ⟨result, noted, reached, calm, beside⟩ := fast
  rw [calmWatched, calm]
  rw [watched] at member ⊢
  cases beside run.bench.backend.plan with
  | along left events ends calls unfailed =>
      rw [ends] at member
      exact absurd (unfailed event member) failed
  | stopped left passed last cause behind ends calls unfailed failed =>
      rw [ends]
      exact ⟨passed, last, cause, rfl, unfailed, failed, rfl, calls⟩

/-- A call some of whose backend calls fail has made the backend calls that it would have
made undisturbed up to the first that fails, has made none after it, and comes to its
error. -/
theorem Call.stops (call : Call) {run : ModelRun (Disturbed σ)}
    (onQueue : run.model.queue = queue.disturbed) {event : BackendEvent (Disturbed σ)}
    (member : event ∈ call.events run) (failed : event.failure? queue.disturbed ≠ none) :
    ∃ passed last cause, call.events run = passed ++ [last] ∧
      (∀ event ∈ passed, event.failure? queue.disturbed = none) ∧
      last.failure? queue.disturbed = some cause ∧
      (call.outcome run).failure? = some (.backend cause) ∧
      (call.events run).map BackendEvent.call <+:
        (call.events run.calm).map BackendEvent.call := by
  cases call with
  | execute batch bypassPredictor force =>
      obtain ⟨passed, last, cause, events, unfailed, lastFailed, ended, calls⟩ :=
        (Model.execute_failsFast queue batch bypassPredictor force _).of_failed onQueue member failed
      refine ⟨passed, last, cause, events, unfailed, lastFailed, ?_, calls⟩
      rw [Model.execute_recorded] at ended
      have fails : (Model.execute batch bypassPredictor force run).1 = .error (.backend cause) :=
        ended
      simp only [outcome, fails, Outcome.failure?]
  | tune batch =>
      obtain ⟨passed, last, cause, events, unfailed, lastFailed, ended, calls⟩ :=
        (Model.tune_failsFast queue batch _).of_failed onQueue member failed
      refine ⟨passed, last, cause, events, unfailed, lastFailed, ?_, calls⟩
      rw [Model.tune_recorded] at ended
      have fails : (Model.tune batch run).1 = .error (.backend cause) := ended
      simp only [outcome, fails, Outcome.failure?]

end KernelTuner
