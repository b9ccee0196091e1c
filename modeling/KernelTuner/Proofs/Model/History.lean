import KernelTuner.Model.Run
import KernelTuner.Proofs.Action

/-!
Contract: histories of calls on a selection model.

Owns: the calls, the states that a history of them reaches while the backend is free to
move in between, and the rule by which a condition survives a call: it has to survive
the lookup of programs and every single thing that is done behind it.
-/

set_option autoImplicit false

namespace KernelTuner

variable {σ : Type}

/-- A call on a selection model. -/
inductive Call where
  | execute (batch : Batch) (bypassPredictor force : Bool)
  | tune (batch : Batch)

namespace Call

def batch : Call → Batch
  | execute batch _ _ => batch
  | tune batch => batch

/-- Whether cached artifacts are passed over when programs are built for the call. -/
def force : Call → Bool
  | execute _ _ force => force
  | tune _ => false

/-- What a call leaves behind, whether it fails or not. -/
def perform (call : Call) (run : ModelRun σ) : ModelRun σ :=
  match call with
  | execute batch bypassPredictor force => (Model.execute batch bypassPredictor force run).2
  | tune batch => (Model.tune batch run).2

/-- The end of a call, at which a tuning is recorded. -/
def close (call : Call) (run : ModelRun σ) : ModelRun σ :=
  match call with
  | execute .. => run
  | tune _ => { run with bench := run.bench.record .tune }

theorem model_close (call : Call) (run : ModelRun σ) : (call.close run).model = run.model := by
  cases call <;> rfl

theorem backend_close (call : Call) (run : ModelRun σ) :
    (call.close run).bench.backend = run.bench.backend := by
  cases call <;> rfl

end Call

/-- The states that calls lead to from `start`. Between two calls the backend moves as
`drift` allows. -/
inductive Reaches (drift : σ → σ → Prop) (start : ModelRun σ) : List Call → ModelRun σ → Prop where
  | start : Reaches drift start [] start
  | call {calls : List Call} {run : ModelRun σ} (reached : Reaches drift start calls run)
      (call : Call) : Reaches drift start (calls ++ [call]) (call.perform run)
  | drift {calls : List Call} {run : ModelRun σ} (reached : Reaches drift start calls run)
      {bench : Bench σ} (moved : drift run.bench.backend bench.backend) :
      Reaches drift start calls { run with bench }

theorem Model.variantAt_eq_ok_iff {model : Model σ} {index : Nat} {variant : Variant} :
    model.variantAt index = .ok variant ↔ model.variants[index]? = some variant := by
  unfold variantAt
  cases model.variants[index]? with
  | none => exact ⟨nofun, nofun⟩
  | some found => exact ⟨fun same => congrArg some (Except.ok.inj same),
      fun same => congrArg Except.ok (Option.some.inj same)⟩

/-- One of the launches that a variant plans for the batch, of whatever program. -/
def Launch.PlannedFor (variants : List Variant) (batch : Batch) (launch : Launch) : Prop :=
  ∃ (index : Nat) (variant : Variant) (plan : LaunchPlan) (program : Program),
    variants[index]? = some variant ∧ variant.plan index batch = .ok plan ∧
      launch ∈ plan.launches.map (Model.launchOf program index)

/-- A condition on the states of a model of `variants` on `queue` that everything done
for `batch` behind the lookup of programs keeps, up to the end of the call. -/
structure Enduring (queue : CommandQueue σ) (variants : List Variant) (batch : Batch)
    (condition : ModelRun σ → Prop) : Prop where
  onQueue : ∀ run, condition run → run.model.queue = queue
  ofVariants : ∀ run, condition run → run.model.variants = variants
  program : ∀ key slot,
    Action.Keeps condition (Model.onPrograms key (ProgramSet.program queue slot))
  compileAll : ∀ key, Action.Keeps condition (Model.onPrograms key (ProgramSet.compileAll queue))
  submit : ∀ launch, launch.PlannedFor variants batch →
    Action.Keeps condition (Model.onBackend (queue.submit launch))
  finish : Action.Keeps condition (Model.onBackend queue.finish)
  override : ∀ shape durations, durations.length = variants.length →
    Action.Keeps condition (Model.recordOverride shape (Model.fastest durations))

/-- A condition that the end of a call keeps as well. -/
structure Lasting (queue : CommandQueue σ) (variants : List Variant) (batch : Batch)
    (condition : ModelRun σ → Prop) : Prop extends Enduring queue variants batch condition where
  record : ∀ event run, condition run → condition { run with bench := run.bench.record event }

open KernelTuner.Action

variable {queue : CommandQueue σ} {variants : List Variant} {batch : Batch}
  {condition : ModelRun σ → Prop} {run : ModelRun σ}

namespace Enduring

theorem submitAll (enduring : Enduring queue variants batch condition) (launches : List Launch)
    (planned : ∀ launch ∈ launches, launch.PlannedFor variants batch) :
    Keeps condition (Model.submitAll queue launches) := by
  induction launches with
  | nil => exact .pure ()
  | cons launch rest inductionHypothesis =>
      obtain ⟨first, others⟩ := List.forall_mem_cons.1 planned
      exact .bind (enduring.submit launch first) fun _ => inductionHypothesis others

theorem enqueue (enduring : Enduring queue variants batch condition) (key : ProgramKey)
    (index : Nat) : Keeps condition (Model.enqueue key index batch) := by
  apply Keeps.read_bind
  intro run holds
  rw [enduring.onQueue run holds]
  refine .ofExcept_bind fun variant chosen => .ofExcept_bind fun plan planned => ?_
  refine .bind (enduring.program key plan.slot) fun program => enduring.submitAll _ ?_
  intro launch member
  have found : variants[index]? = some variant := by
    rw [← enduring.ofVariants run holds]
    exact Model.variantAt_eq_ok_iff.1 chosen
  exact ⟨index, variant, plan, program, found, planned, member⟩

theorem waiting (enduring : Enduring queue variants batch condition) :
    Keeps condition (Model.finish (σ := σ)) := by
  apply Keeps.read_bind
  intro run holds
  rw [enduring.onQueue run holds]
  exact enduring.finish

theorem measure (enduring : Enduring queue variants batch condition) (key : ProgramKey)
    (index : Nat) : Keeps condition (Model.measure key index batch) := by
  refine .bind (.read _) fun started => .bind (enduring.enqueue key index) fun _ => ?_
  exact .bind enduring.waiting fun _ => .bind (.read _) fun stopped => .pure _

theorem measureFrom (enduring : Enduring queue variants batch condition) (key : ProgramKey)
    (index count : Nat) : Keeps condition (Model.measureFrom key batch index count) := by
  induction count generalizing index with
  | zero => exact .pure []
  | succ count inductionHypothesis =>
      refine .bind (enduring.measure key index) ?_
      intro duration
      exact .bind (inductionHypothesis (index + 1)) fun durations => .pure _

end Enduring

namespace Lasting

theorem shapeOf (batch : Batch) : Keeps condition (Model.shapeOf batch) :=
  .bind (.read _) fun _ => .bind (.ofExcept _) fun _ => .ofExcept _

/-- There is one duration for each of the variants. -/
theorem measureFrom_length (key : ProgramKey) (batch : Batch) (index count : Nat) :
    Yields (fun durations => durations.length = count)
      (Model.measureFrom (σ := σ) key batch index count) := by
  induction count generalizing index with
  | zero => exact .pure rfl
  | succ count inductionHypothesis =>
      refine .bind .anything fun duration _ => .bind (inductionHypothesis (index + 1)) ?_
      intro durations length
      exact .pure (congrArg Nat.succ length)

/-- What an execution does behind the lookup of programs. -/
def selectAndEnqueue (batch : Batch) (bypassPredictor : Bool) (model : Model σ)
    (key : ProgramKey) : Action (ModelRun σ) Selection := do
  let shape ← Model.shapeOf batch
  let selection ← ofExcept (model.select shape bypassPredictor)
  Model.enqueue key selection.variant batch
  return selection

/-- What tuning does behind the compilation of programs. -/
def measureAll (batch : Batch) (model : Model σ) (key : ProgramKey) (shape : Shape) :
    Action (ModelRun σ) TuneReport := do
  Model.finish
  let durations ← Model.measureFrom key batch 0 model.variants.length
  let best := Model.fastest durations
  Model.recordOverride shape best
  return { shape, durations, best }

/-- What tuning does behind the lookup of programs. -/
def compileAndMeasure (batch : Batch) (model : Model σ) (key : ProgramKey) :
    Action (ModelRun σ) TuneReport := do
  let shape ← Model.shapeOf batch
  Model.onPrograms key (ProgramSet.compileAll model.queue)
  measureAll batch model key shape

/-- A call for a batch that the check refuses does nothing. -/
theorem behind_of_refused {α : Type} {force : Bool} {cause : Error}
    (rest : Model σ → ProgramKey → Action (ModelRun σ) α)
    (checked : run.model.checkContext batch = .error cause) :
    (Action.read ModelRun.model >>= fun model =>
      ofExcept (model.checkContext batch) >>= fun _ =>
        Model.obtainPrograms batch force >>= fun key => rest model key) run =
      (.error cause, run) := by
  have refusal : (ofExcept (run.model.checkContext batch) : Action (ModelRun σ) Unit) run =
      (.error cause, run) :=
    congrArg (fun result => (result, run)) checked
  rw [read_bind_apply, bind_error refusal]

/-- A batch that passes the check is looked up. -/
theorem behind_of_checked {α : Type} {force : Bool}
    (rest : Model σ → ProgramKey → Action (ModelRun σ) α)
    (checked : run.model.checkContext batch = .ok ()) :
    (Action.read ModelRun.model >>= fun model =>
      ofExcept (model.checkContext batch) >>= fun _ =>
        Model.obtainPrograms batch force >>= fun key => rest model key) run =
      (Model.obtainPrograms batch force >>= rest run.model) run := by
  have acceptance : (ofExcept (run.model.checkContext batch) : Action (ModelRun σ) Unit) run =
      (.ok (), run) :=
    congrArg (fun result => (result, run)) checked
  rw [read_bind_apply, bind_ok acceptance]

/-- A call that has passed the check and has its programs goes on behind the lookup. -/
theorem behind_of_obtained {α : Type} {force : Bool} {obtained : ModelRun σ} {key : ProgramKey}
    (rest : Model σ → ProgramKey → Action (ModelRun σ) α)
    (checked : run.model.checkContext batch = .ok ())
    (obtains : Model.obtainPrograms batch force run = (.ok key, obtained)) :
    (Action.read ModelRun.model >>= fun model =>
      ofExcept (model.checkContext batch) >>= fun _ =>
        Model.obtainPrograms batch force >>= fun key => rest model key) run =
      rest run.model key obtained := by
  rw [behind_of_checked rest checked, bind_ok obtains]

/-- A call that has passed the check ends with the lookup when that fails. -/
theorem behind_of_unobtained {α : Type} {force : Bool} {cause : Error} {obtained : ModelRun σ}
    (rest : Model σ → ProgramKey → Action (ModelRun σ) α)
    (checked : run.model.checkContext batch = .ok ())
    (fails : Model.obtainPrograms batch force run = (.error cause, obtained)) :
    (Action.read ModelRun.model >>= fun model =>
      ofExcept (model.checkContext batch) >>= fun _ =>
        Model.obtainPrograms batch force >>= fun key => rest model key) run =
      (.error cause, obtained) := by
  rw [behind_of_checked rest checked, bind_error fails]

/-- What executing and tuning have in common: the check of the context, the lookup of
programs, and something behind it. -/
theorem behindLookup {α : Type} {force : Bool}
    (rest : Model σ → ProgramKey → Action (ModelRun σ) α)
    (kept : ∀ key, Keeps condition (rest run.model key))
    (refused : ∀ cause, run.model.checkContext batch = .error cause → condition run)
    (obtained : run.model.checkContext batch = .ok () →
      condition (Model.obtainPrograms batch force run).2) :
    condition ((Action.read ModelRun.model >>= fun model =>
      ofExcept (model.checkContext batch) >>= fun _ =>
        Model.obtainPrograms batch force >>= fun key => rest model key) run).2 := by
  cases checked : run.model.checkContext batch with
  | error cause =>
      rw [behind_of_refused rest checked]
      exact refused cause checked
  | ok =>
      have holds := obtained checked
      rcases outcome : Model.obtainPrograms batch force run with ⟨result, reached⟩
      rw [outcome] at holds
      cases result with
      | ok key =>
          rw [behind_of_obtained rest checked outcome]
          exact kept key reached holds
      | error cause =>
          rw [behind_of_unobtained rest checked outcome]
          exact holds

theorem execute_of_obtained {bypassPredictor force : Bool} {obtained : ModelRun σ}
    {key : ProgramKey} (checked : run.model.checkContext batch = .ok ())
    (obtains : Model.obtainPrograms batch force run = (.ok key, obtained)) :
    Model.execute batch bypassPredictor force run =
      selectAndEnqueue batch bypassPredictor run.model key obtained :=
  behind_of_obtained (selectAndEnqueue batch bypassPredictor) checked obtains

theorem tune_of_obtained {obtained : ModelRun σ} {key : ProgramKey}
    (checked : run.model.checkContext batch = .ok ())
    (obtains : Model.obtainPrograms batch false run = (.ok key, obtained)) :
    Model.tune batch run = ((compileAndMeasure batch run.model key).afterwards fun run =>
      { run with bench := run.bench.record .tune }) obtained :=
  congrArg (fun outcome : Except Error TuneReport × ModelRun σ =>
      (outcome.1, { outcome.2 with bench := outcome.2.bench.record .tune }))
    (behind_of_obtained (compileAndMeasure batch) checked obtains)

theorem execute_of_unobtained {bypassPredictor force : Bool} {cause : Error}
    {obtained : ModelRun σ} (checked : run.model.checkContext batch = .ok ())
    (fails : Model.obtainPrograms batch force run = (.error cause, obtained)) :
    Model.execute batch bypassPredictor force run = (.error cause, obtained) :=
  behind_of_unobtained (selectAndEnqueue batch bypassPredictor) checked fails

theorem tune_of_unobtained {cause : Error} {obtained : ModelRun σ}
    (checked : run.model.checkContext batch = .ok ())
    (fails : Model.obtainPrograms batch false run = (.error cause, obtained)) :
    Model.tune batch run =
      (.error cause, { obtained with bench := obtained.bench.record .tune }) :=
  congrArg (fun outcome : Except Error TuneReport × ModelRun σ =>
      (outcome.1, { outcome.2 with bench := outcome.2.bench.record .tune }))
    (behind_of_unobtained (compileAndMeasure batch) checked fails)

theorem execute_of_refused {bypassPredictor force : Bool} {cause : Error}
    (checked : run.model.checkContext batch = .error cause) :
    Model.execute batch bypassPredictor force run = (.error cause, run) :=
  behind_of_refused (selectAndEnqueue batch bypassPredictor) checked

theorem tune_of_refused {cause : Error} (checked : run.model.checkContext batch = .error cause) :
    Model.tune batch run = (.error cause, { run with bench := run.bench.record .tune }) :=
  congrArg (fun outcome : Except Error TuneReport × ModelRun σ =>
      (outcome.1, { outcome.2 with bench := outcome.2.bench.record .tune }))
    (behind_of_refused (compileAndMeasure batch) checked)

end Lasting

namespace Enduring

theorem timing (enduring : Enduring queue variants batch condition) {model : Model σ}
    (ofVariants : model.variants = variants) (key : ProgramKey) (shape : Shape) :
    Keeps condition (Lasting.measureAll batch model key shape) := by
  unfold Lasting.measureAll
  rw [ofVariants]
  refine .bind enduring.waiting fun _ => ?_
  refine .bind_yields (enduring.measureFrom key 0 _) (Lasting.measureFrom_length key batch 0 _) ?_
  intro durations length
  exact .bind (enduring.override shape durations length) fun _ => .pure _

/-- The condition holds behind an execution whatever becomes of its selection. -/
theorem selecting (enduring : Enduring queue variants batch condition) (bypassPredictor : Bool)
    (model : Model σ) (key : ProgramKey) :
    Keeps condition (Lasting.selectAndEnqueue batch bypassPredictor model key) := by
  refine .bind (Lasting.shapeOf batch) fun shape => .bind (.ofExcept _) ?_
  intro selection
  exact .bind (enduring.enqueue key selection.variant) fun _ => .pure selection

/-- The condition holds behind a tuning before that is recorded. -/
theorem measuring (enduring : Enduring queue variants batch condition) {model : Model σ}
    (onQueue : model.queue = queue) (ofVariants : model.variants = variants) (key : ProgramKey) :
    Keeps condition (Lasting.compileAndMeasure batch model key) := by
  unfold Lasting.compileAndMeasure
  rw [onQueue]
  refine .bind (Lasting.shapeOf batch) fun shape => .bind (enduring.compileAll key) fun _ => ?_
  exact enduring.timing ofVariants key shape

end Enduring

namespace Lasting

theorem execute (lasting : Lasting queue variants batch condition) (bypassPredictor force : Bool)
    (refused : ∀ cause, run.model.checkContext batch = .error cause → condition run)
    (obtained : run.model.checkContext batch = .ok () →
      condition (Model.obtainPrograms batch force run).2) :
    condition (Model.execute batch bypassPredictor force run).2 :=
  behindLookup (selectAndEnqueue batch bypassPredictor)
    (lasting.selecting bypassPredictor run.model) refused obtained

theorem tune (lasting : Lasting queue variants batch condition) (onQueue : run.model.queue = queue)
    (ofVariants : run.model.variants = variants)
    (refused : ∀ cause, run.model.checkContext batch = .error cause → condition run)
    (obtained : run.model.checkContext batch = .ok () →
      condition (Model.obtainPrograms batch false run).2) :
    condition (Model.tune batch run).2 := by
  have before := behindLookup (compileAndMeasure batch) (lasting.measuring onQueue ofVariants)
    refused obtained
  exact lasting.record .tune _ before

/-- A condition holds behind a call when it holds behind a refusal of the context and
behind the lookup of programs. -/
theorem perform (call : Call) (lasting : Lasting queue variants call.batch condition)
    (onQueue : run.model.queue = queue) (ofVariants : run.model.variants = variants)
    (refused : ∀ cause, run.model.checkContext call.batch = .error cause → condition run)
    (obtained : run.model.checkContext call.batch = .ok () →
      condition (Model.obtainPrograms call.batch call.force run).2) :
    condition (call.perform run) := by
  cases call with
  | execute batch bypassPredictor force =>
      exact lasting.execute bypassPredictor force refused obtained
  | tune batch => exact lasting.tune onQueue ofVariants refused obtained

end Lasting

/-! ### Calls up to their end -/

namespace Call

variable (call : Call)

theorem perform_of_refused {cause : Error}
    (checked : run.model.checkContext call.batch = .error cause) :
    call.perform run = call.close run := by
  cases call with
  | execute batch bypassPredictor force =>
      exact congrArg Prod.snd (Lasting.execute_of_refused checked)
  | tune batch => exact congrArg Prod.snd (Lasting.tune_of_refused checked)

theorem perform_of_unobtained {cause : Error} {obtained : ModelRun σ}
    (checked : run.model.checkContext call.batch = .ok ())
    (fails : Model.obtainPrograms call.batch call.force run = (.error cause, obtained)) :
    call.perform run = call.close obtained := by
  cases call with
  | execute batch bypassPredictor force =>
      exact congrArg Prod.snd (Lasting.execute_of_unobtained checked fails)
  | tune batch => exact congrArg Prod.snd (Lasting.tune_of_unobtained checked fails)

/-- What endures and holds behind the lookup of programs holds up to the end of the call. -/
theorem perform_of_obtained {obtained : ModelRun σ} {key : ProgramKey}
    (enduring : Enduring queue variants call.batch condition)
    (onQueue : run.model.queue = queue) (ofVariants : run.model.variants = variants)
    (checked : run.model.checkContext call.batch = .ok ())
    (obtains : Model.obtainPrograms call.batch call.force run = (.ok key, obtained))
    (holds : condition obtained) :
    ∃ reached, condition reached ∧ call.perform run = call.close reached := by
  cases call with
  | execute batch bypassPredictor force =>
      exact ⟨_, enduring.selecting bypassPredictor run.model key obtained holds,
        congrArg Prod.snd (Lasting.execute_of_obtained checked obtains)⟩
  | tune batch =>
      exact ⟨_, enduring.measuring onQueue ofVariants key obtained holds,
        congrArg Prod.snd (Lasting.tune_of_obtained checked obtains)⟩

end Call

end KernelTuner
