import KernelTuner.Proofs.Backend.Recording
import KernelTuner.Proofs.Model.Stock

/-!
Contract: the backend calls of a selection model.

Owns: `Call.events`, the backend calls that a call on a model makes, in order; the
launches among them; and `Call.perform_recorded`, by which keeping the log of them
changes nothing else about the call.
-/

set_option autoImplicit false

namespace KernelTuner

variable {σ α : Type}

/-- The model on a queue that keeps a log. -/
def Model.recorded (model : Model σ) : Model (Recorded σ) where
  variants := model.variants
  predictor := model.predictor
  queue := model.queue.recorded
  overrides := model.overrides
  programs := model.programs

/-- The model and its bench, with the log of earlier calls of the backend. -/
def ModelRun.recorded (log : List (BackendEvent σ)) (run : ModelRun σ) : ModelRun (Recorded σ) where
  model := run.model.recorded
  bench := run.bench.recorded log

/-- The calls of the backend that a call on the model makes, in order. -/
def Call.events (call : Call) (run : ModelRun σ) : List (BackendEvent σ) :=
  (call.perform (run.recorded [])).bench.backend.log

/-- The launches that a call on the model submits, in order. -/
def Call.submissions (call : Call) (run : ModelRun σ) : List Launch :=
  (call.perform (run.recorded [])).bench.backend.launches

/-! ### Programs -/

/-- Something that belongs to a bench, with a log on the bench. -/
def Bench.recordedBeside {β : Type} (log : List (BackendEvent σ)) (state : β × Bench σ) :
    β × Bench (Recorded σ) :=
  (state.1, state.2.recorded log)

open KernelTuner.Action (Mirrors)

theorem Shell.program_mirrors (queue : CommandQueue σ) :
    Mirrors Bench.recordedBeside (Shell.program queue) (Shell.program queue.recorded) := by
  rintro ⟨shell, bench⟩
  cases held : shell.compiled with
  | some program =>
      refine ⟨[], fun log => ?_⟩
      rw [List.append_nil]
      simp only [Bench.recordedBeside, Shell.program, held]
  | none =>
      refine ⟨[⟨.compile shell.request, bench.backend⟩], fun log => ?_⟩
      rcases outcome : queue.compile shell.request bench.backend with ⟨result, backend⟩
      cases result with
      | ok program =>
          simp only [Bench.recordedBeside, Shell.program, held, CommandQueue.recorded,
            Recorded.note, Bench.recorded, outcome]
          rfl
      | error cause =>
          simp only [Bench.recordedBeside, Shell.program, held, CommandQueue.recorded,
            Recorded.note, Bench.recorded, outcome]
          rfl

namespace ProgramSet

theorem program_mirrors (queue : CommandQueue σ) (slot : Slot) :
    Mirrors Bench.recordedBeside (program queue slot) (program queue.recorded slot) := by
  rintro ⟨set, bench⟩
  obtain ⟨more, same⟩ := Shell.program_mirrors queue (set.shell slot, bench)
  refine ⟨more, fun log => ?_⟩
  have shellSame := same log
  simp only [Bench.recordedBeside] at shellSame
  simp only [Bench.recordedBeside, program, Action.on, shellSame]

theorem compileSlot_mirrors (queue : CommandQueue σ) (slot : Slot) :
    Mirrors Bench.recordedBeside (compileSlot queue slot) (compileSlot queue.recorded slot) := by
  intro state
  have sameShell (log : List (BackendEvent σ)) :
      ((Bench.recordedBeside log state).1.shell slot).isEmpty = (state.1.shell slot).isEmpty := rfl
  cases outcome : (state.1.shell slot).isEmpty with
  | true =>
      refine ⟨[], fun log => ?_⟩
      rw [compileSlot_of_empty queue outcome,
        compileSlot_of_empty queue.recorded ((sameShell log).trans outcome), List.append_nil]
  | false =>
      have compiles : Mirrors Bench.recordedBeside (program queue slot >>= fun _ => Pure.pure ())
          (program queue.recorded slot >>= fun _ => Pure.pure ()) :=
        (program_mirrors queue slot).bind fun _ => .pure ()
      obtain ⟨more, same⟩ := compiles state
      refine ⟨more, fun log => ?_⟩
      rw [compileSlot_of_filled queue outcome,
        compileSlot_of_filled queue.recorded ((sameShell log).trans outcome), same]

theorem compileAll_mirrors (queue : CommandQueue σ) :
    Mirrors Bench.recordedBeside (compileAll queue) (compileAll queue.recorded) :=
  (compileSlot_mirrors queue .primary).bind fun _ => compileSlot_mirrors queue .fallback

end ProgramSet

/-! ### Models -/

namespace Model

theorem obtainPrograms_mirrors (batch : Batch) (force : Bool) :
    Mirrors ModelRun.recorded (obtainPrograms (σ := σ) batch force)
      (obtainPrograms batch force) := by
  refine .read_bind recorded (fun _ _ => rfl) fun model => ?_
  refine .bind (.ofExcept _) fun fingerprint => .bind ?_ fun _ => .pure _
  exact .silent fun _ _ => rfl

theorem onPrograms_mirrors {step : Action (ProgramSet × Bench σ) α}
    {recording : Action (ProgramSet × Bench (Recorded σ)) α}
    (mirrors : Mirrors Bench.recordedBeside step recording) (key : ProgramKey) :
    Mirrors ModelRun.recorded (onPrograms key step) (onPrograms key recording) := by
  intro run
  cases held : run.model.programs.get? key with
  | none =>
      refine ⟨[], fun log => ?_⟩
      have alsoAbsent : (run.recorded log).model.programs.get? key = none := held
      rw [List.append_nil, onPrograms_of_absent step held, onPrograms_of_absent recording alsoAbsent]
  | some set =>
      obtain ⟨more, same⟩ := mirrors (set, run.bench)
      refine ⟨more, fun log => ?_⟩
      have alsoHeld : (run.recorded log).model.programs.get? key = some set := held
      have setSame := same log
      simp only [Bench.recordedBeside] at setSame
      simp only [onPrograms, Action.on, ProgramCache.onSet, held, alsoHeld]
      simp only [ModelRun.recorded, setSame, recorded]

theorem submit_mirrors (queue : CommandQueue σ) (launch : Launch) :
    Mirrors ModelRun.recorded (onBackend (queue.submit launch))
      (onBackend (queue.recorded.submit launch)) :=
  fun run => ⟨[⟨.submit launch, run.bench.backend⟩], fun _ => rfl⟩

theorem finish_mirrors : Mirrors ModelRun.recorded (finish (σ := σ)) finish := by
  refine .read_bind recorded (fun _ _ => rfl) fun model => ?_
  exact fun run => ⟨[⟨.finish, run.bench.backend⟩], fun _ => rfl⟩

theorem submitAll_mirrors (queue : CommandQueue σ) (launches : List Launch) :
    Mirrors ModelRun.recorded (submitAll queue launches) (submitAll queue.recorded launches) := by
  induction launches with
  | nil => exact .pure ()
  | cons launch rest inductionHypothesis =>
      exact .bind (submit_mirrors queue launch) fun _ => inductionHypothesis

theorem enqueue_mirrors (key : ProgramKey) (index : Nat) (batch : Batch) :
    Mirrors ModelRun.recorded (enqueue (σ := σ) key index batch) (enqueue key index batch) := by
  refine .read_bind recorded (fun _ _ => rfl) fun model => ?_
  refine .bind (.ofExcept _) fun variant => .bind (.ofExcept _) fun plan => ?_
  refine .bind (onPrograms_mirrors (ProgramSet.program_mirrors model.queue plan.slot) key) ?_
  exact fun program => submitAll_mirrors model.queue _

theorem shapeOf_mirrors (batch : Batch) :
    Mirrors ModelRun.recorded (shapeOf (σ := σ) batch) (shapeOf batch) :=
  .read_bind recorded (fun _ _ => rfl) fun _ =>
    .bind (.ofExcept _) fun _ => .ofExcept _

theorem measure_mirrors (key : ProgramKey) (index : Nat) (batch : Batch) :
    Mirrors ModelRun.recorded (measure (σ := σ) key index batch) (measure key index batch) := by
  refine .bind (.read fun _ _ => rfl) fun started => .bind (enqueue_mirrors key index batch) ?_
  intro _
  exact .bind finish_mirrors fun _ => .bind (.read fun _ _ => rfl) fun stopped => .pure _

theorem measureFrom_mirrors (key : ProgramKey) (batch : Batch) (index count : Nat) :
    Mirrors ModelRun.recorded (measureFrom (σ := σ) key batch index count)
      (measureFrom key batch index count) := by
  induction count generalizing index with
  | zero => exact .pure []
  | succ count inductionHypothesis =>
      refine .bind (measure_mirrors key index batch) fun duration => ?_
      exact .bind (inductionHypothesis (index + 1)) fun durations => .pure _

theorem execute_mirrors (batch : Batch) (bypassPredictor force : Bool) :
    Mirrors ModelRun.recorded (execute (σ := σ) batch bypassPredictor force)
      (execute batch bypassPredictor force) := by
  refine .read_bind recorded (fun _ _ => rfl) fun model => ?_
  refine .bind (.ofExcept _) fun _ => .bind (obtainPrograms_mirrors batch force) fun key => ?_
  refine .bind (shapeOf_mirrors batch) fun shape => .bind (.ofExcept _) fun selection => ?_
  exact .bind (enqueue_mirrors key selection.variant batch) fun _ => .pure _

theorem tune_mirrors (batch : Batch) :
    Mirrors ModelRun.recorded (tune (σ := σ) batch) (tune batch) := by
  unfold tune
  refine Mirrors.afterwards ?_ (by intros; rfl)
  refine .read_bind recorded (fun _ _ => rfl) fun model => ?_
  refine .bind (.ofExcept _) fun _ => .bind (obtainPrograms_mirrors batch false) fun key => ?_
  refine .bind (shapeOf_mirrors batch) fun shape => ?_
  refine .bind (onPrograms_mirrors (ProgramSet.compileAll_mirrors model.queue) key) fun _ => ?_
  refine .bind finish_mirrors fun _ => ?_
  refine .bind (measureFrom_mirrors key batch 0 model.variants.length) fun durations => ?_
  exact .bind (.silent fun _ _ => rfl) fun _ => .pure _

end Model

namespace Call

/-- Keeping a log changes nothing about a call, and the log grows by its events. -/
theorem perform_recorded (call : Call) (log : List (BackendEvent σ)) (run : ModelRun σ) :
    call.perform (run.recorded log) = (call.perform run).recorded (log ++ call.events run) := by
  have mirrors : ∃ more, ∀ log,
      call.perform (run.recorded log) = (call.perform run).recorded (log ++ more) := by
    cases call with
    | execute batch bypassPredictor force =>
        obtain ⟨more, same⟩ := Model.execute_mirrors batch bypassPredictor force run
        exact ⟨more, fun log => congrArg Prod.snd (same log)⟩
    | tune batch =>
        obtain ⟨more, same⟩ := Model.tune_mirrors batch run
        exact ⟨more, fun log => congrArg Prod.snd (same log)⟩
  obtain ⟨more, same⟩ := mirrors
  have events : call.events run = more := by
    rw [events, same, List.nil_append]
    rfl
  rw [events, same]

end Call

/-- An execution on a queue that keeps a log comes to the same. -/
theorem Model.execute_recorded (batch : Batch) (bypassPredictor force : Bool) (run : ModelRun σ) :
    execute batch bypassPredictor force (run.recorded []) =
      ((execute batch bypassPredictor force run).1,
        (execute batch bypassPredictor force run).2.recorded
          ((Call.execute batch bypassPredictor force).events run)) := by
  obtain ⟨more, same⟩ := execute_mirrors batch bypassPredictor force run
  have reached := (Call.execute batch bypassPredictor force).perform_recorded [] run
  have first := congrArg Prod.fst (same [])
  exact Prod.ext first reached

/-- A tuning on a queue that keeps a log comes to the same. -/
theorem Model.tune_recorded (batch : Batch) (run : ModelRun σ) :
    tune batch (run.recorded []) =
      ((tune batch run).1, (tune batch run).2.recorded ((Call.tune batch).events run)) := by
  obtain ⟨more, same⟩ := tune_mirrors batch run
  have reached := (Call.tune batch).perform_recorded [] run
  have first := congrArg Prod.fst (same [])
  exact Prod.ext first reached

/-- Keeping a log changes nothing of what is stored. -/
theorem Stocked.recorded {queue : CommandQueue σ} {variants : List Variant} {batches : List Batch}
    {run : ModelRun σ} (stocked : Stocked queue variants batches run)
    (log : List (BackendEvent σ)) :
    Stocked queue.recorded variants batches (run.recorded log) :=
  ⟨congrArg CommandQueue.recorded stocked.onQueue, stocked.ofVariants, stocked.stored⟩

end KernelTuner
