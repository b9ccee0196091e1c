import KernelTuner.Proofs.Model.Logging
import KernelTuner.Proofs.Model.Reuse
import KernelTuner.Proofs.Model.Stopping
import KernelTuner.Proofs.Model.Verdict

/-!
Contract: repeating a call that has failed.

Owns: models whose platform knows their queue and its context, as it does after any
history; what a call on such a model comes to when the backend does not fail by plan; and
`Call.repeats`, by which a call that has failed comes, when it is repeated undisturbed, to
what it would have come to undisturbed in the first place.
-/

set_option autoImplicit false

namespace KernelTuner

open KernelTuner.Action (Foretold Mirrors)

variable {queue : CommandQueue Platform} {variants : List Variant} {batch : Batch}
  {run : ModelRun (Disturbed Platform)} {key : ProgramKey}

/-! ### Installed models -/

/-- What may happen to a platform and its plan between two calls. -/
def Disturbed.Drift (before after : Disturbed Platform) : Prop :=
  Relation.ReflGen Platform.Step before.backend after.backend

/-- A platform that knows the queue and its context. -/
theorem Steady.of_known {state : Disturbed Platform}
    (known : state.backend.compilers.get? queue.context ≠ none)
    (registered : state.backend.queues.get? queue.id ≠ none) :
    Steady queue False (state.backend.queue queue.id).pace state :=
  ⟨known, registered, rfl, False.elim⟩

/-- Every call of the queue leaves it at a pace. -/
theorem Steady.rule (onPlatform : queue.OnPlatform) (batch : Batch) :
    BackendRule queue.disturbed variants batch fun state =>
      ∃ pace, Steady queue False pace state where
  compile := by
    rintro request state ⟨pace, steady⟩
    exact ⟨pace, (steady.compile onPlatform rfl).2.1⟩
  submit := by
    rintro launch state - ⟨pace, steady⟩
    exact ⟨pace, (steady.submit onPlatform rfl).1⟩
  finish := by
    rintro state ⟨pace, steady⟩
    exact ⟨pace, (steady.finish onPlatform rfl).1⟩

/-- A model of `variants` on a queue that its platform knows. -/
abbrev Installed (queue : CommandQueue Platform) (variants : List Variant)
    (run : ModelRun (Disturbed Platform)) : Prop :=
  Backed queue.disturbed variants (fun state => ∃ pace, Steady queue False pace state) run

/-- A platform never forgets a queue or a context. -/
theorem Installed.of_reaches {start : ModelRun (Disturbed Platform)} {calls : List Call}
    (onPlatform : queue.OnPlatform) (initial : Installed queue variants start)
    (reached : Reaches Disturbed.Drift start calls run) : Installed queue variants run := by
  induction reached with
  | start => exact initial
  | call _ call inductionHypothesis =>
      exact inductionHypothesis.perform (Steady.rule onPlatform call.batch)
  | @drift _ run _ bench moved inductionHypothesis =>
      obtain ⟨pace, steady⟩ := inductionHypothesis.holds
      refine ⟨inductionHypothesis.onQueue, inductionHypothesis.ofVariants,
        (bench.backend.backend.queue queue.id).pace, ?_⟩
      rcases (Relation.reflGen_iff _ _ _).1 moved with same | step
      · exact .of_known (same ▸ steady.known) (same ▸ steady.registered)
      · exact .of_known (step.known steady.known) (step.registered steady.registered)

/-! ### Lookups -/

namespace Model

/-- A lookup does not care for the plan. -/
theorem obtainPrograms_calm (batch : Batch) (force : Bool) (run : ModelRun (Disturbed Platform)) :
    obtainPrograms batch force run.calm =
      ((obtainPrograms batch force run).1, (obtainPrograms batch force run).2.calm) := by
  let view (_ : List Unit) (run : ModelRun (Disturbed Platform)) := run.calm
  have mirrors : Mirrors view (obtainPrograms batch force) (obtainPrograms batch force) := by
    refine .read_bind id (fun _ _ => rfl) fun model => ?_
    refine .bind (.ofExcept _) fun fingerprint => .bind ?_ fun _ => .pure _
    exact .silent fun _ _ => rfl
  obtain ⟨_, same⟩ := mirrors run
  exact same []

end Model

/-! ### What a call comes to -/

variable {quiet : Prop} {pace : QueueState}

/-- The verdict about a call for which the set is stored. -/
def Call.verdict {σ : Type} (call : Call) (home : ContextId) (pace : QueueState) (setup : Model σ)
    (set : ProgramSet) (compiler : Compiler) : Outcome :=
  match call with
  | execute batch bypassPredictor _ =>
      .executed (setup.executeVerdict batch bypassPredictor (set.answers home compiler))
  | tune batch => .tuned (setup.tuneVerdict pace home batch (ProgramSet.settle home (set, compiler)))

/-- A run behind the lookup for a call that will come to `outcome`. -/
abbrev Awaits (queue : CommandQueue Platform) (quiet : Prop) (pace : QueueState)
    (setup : Model (Disturbed Platform)) (key : ProgramKey) (call : Call) (outcome : Outcome)
    (run : ModelRun (Disturbed Platform)) : Prop :=
  Underway queue quiet pace setup key
    (fun set compiler => call.verdict queue.context pace setup set compiler = outcome) run

namespace Call

variable {setup : Model (Disturbed Platform)} {obtained : ModelRun (Disturbed Platform)}
  {outcome : Outcome}

/-- A call whose step has a verdict comes to it when all is quiet; and when it fails, the
condition is left behind. -/
theorem decided_of_foretold {α : Type} (call : Call)
    {step : Action (ModelRun (Disturbed Platform)) α}
    {view : Except Error α → Outcome} {verdict : Except Error α}
    {condition : ModelRun (Disturbed Platform) → Prop}
    (comes : call.outcome run = view (step run).1) (leaves : call.perform run = (step run).2)
    (succeeds : ∀ value, (view (.ok value)).failure? = none)
    (foretold : Foretold quiet condition run step verdict fun value result _ => result = value) :
    (quiet → call.outcome run = view verdict) ∧
      ((call.outcome run).failure? ≠ none → condition (call.perform run)) := by
  rw [comes, leaves]
  rcases foretold.cases with
    ⟨value, after, ended, _, rfl, rfl⟩ | ⟨cause, after, ended, left, decided⟩
  · rw [ended]
    exact ⟨fun _ => rfl, fun failed => absurd (succeeds _) failed⟩
  · rw [ended]
    refine ⟨fun calm => ?_, fun _ => left⟩
    rw [decided calm]

/-- A call comes to its verdict, unless it fails on a backend that is not quiet; and when
it fails, the verdict stays as it was. -/
theorem decided (call : Call) (onPlatform : queue.OnPlatform)
    (clocked : queue.clock = Platform.clock)
    (checked : run.model.checkContext call.batch = .ok ())
    (obtains : Model.obtainPrograms call.batch call.force run = (.ok key, obtained))
    (filled : ∀ set, obtained.model.programs.get? key = some set →
      set.Filled run.model.variants)
    (awaits : Awaits queue quiet pace run.model.setup key call outcome obtained) :
    (quiet → call.outcome run = outcome) ∧
      ((call.outcome run).failure? ≠ none →
        Awaits queue quiet pace run.model.setup key call outcome (call.perform run)) := by
  obtain ⟨set, held, same⟩ := awaits.stored
  subst same
  cases call with
  | execute batch bypassPredictor force =>
      have underway := awaits.imp fun _ _ => Outcome.executed.inj
      obtain ⟨comes, stays⟩ := decided_of_foretold (execute batch bypassPredictor force) rfl
        rfl (fun _ => rfl) (Model.execute_foretold onPlatform checked obtains underway)
      exact ⟨comes, fun failed => (stays failed).imp fun _ _ => congrArg Outcome.executed⟩
  | tune batch =>
      have underway : Underway queue quiet pace run.model.setup key
          (ProgramSet.SettlesTo queue.context run.model.setup.variants
            (ProgramSet.settle queue.context (set, queue.compilerOn obtained.bench))) obtained :=
        ⟨awaits.ofSetup, awaits.onQueue, awaits.steady, set, held, rfl, filled set held⟩
      obtain ⟨comes, stays⟩ := decided_of_foretold (tune batch) rfl rfl (fun _ => rfl)
        (Model.tune_foretold onPlatform clocked checked obtains underway)
      refine ⟨comes, fun failed => (stays failed).imp fun other compiler settled => ?_⟩
      rw [verdict, verdict, settled.settles]

end Call

/-- A set that a lookup hands out has kernels of all variants. -/
theorem Stocked.filled {σ : Type} {queue : CommandQueue σ} {batches : List Batch} {force : Bool}
    {run obtained : ModelRun σ} {set : ProgramSet} (stocked : Stocked queue variants batches run)
    (checked : run.model.checkContext batch = .ok ())
    (obtains : Model.obtainPrograms batch force run = (.ok key, obtained))
    (held : obtained.model.programs.get? key = some set) : set.Filled run.model.variants := by
  obtain ⟨_, _, found, _, _, _, _, _, stored, emitted, assembled⟩ := stocked.obtained checked obtains
  obtain rfl : found = set := Option.some.inj (stored.symm.trans held)
  rw [stocked.ofVariants]
  exact ProgramSet.filled_of_emitted emitted assembled

theorem Stocked.calm {queue : CommandQueue (Disturbed Platform)} {batches : List Batch}
    (stocked : Stocked queue variants batches run) : Stocked queue variants batches run.calm :=
  ⟨stocked.onQueue, stocked.ofVariants, stocked.stored⟩

theorem Steady.calm {state : Disturbed Platform} (steady : Steady queue quiet pace state) :
    Steady queue True pace state.calm :=
  ⟨steady.known, steady.registered, steady.paced, fun _ => rfl⟩

/-- Undisturbed, a call that has found its programs comes to what it awaits. -/
theorem Call.outcome_of_awaits (call : Call) (onPlatform : queue.OnPlatform)
    (clocked : queue.clock = Platform.clock) {batches : List Batch}
    {obtained : ModelRun (Disturbed Platform)} {outcome : Outcome}
    (stocked : Stocked queue.disturbed variants batches run)
    (checked : run.model.checkContext call.batch = .ok ())
    (obtains : Model.obtainPrograms call.batch call.force run = (.ok key, obtained))
    (awaits : Awaits queue True pace run.model.setup key call outcome obtained) :
    call.outcome run = outcome :=
  (call.decided onPlatform clocked checked obtains (fun _ => stocked.filled checked obtains)
    awaits).1 trivial

/-- Undisturbed, a call whose programs are stored comes to what it awaits. -/
theorem Call.outcome_of_stored (call : Call) (onPlatform : queue.OnPlatform)
    (clocked : queue.clock = Platform.clock) {batches : List Batch} {name : Fingerprint}
    {outcome : Outcome} (stocked : Stocked queue.disturbed variants batches run)
    (checked : run.model.checkContext call.batch = .ok ())
    (named : call.batch.programName = .ok name)
    (awaits : Awaits queue quiet pace run.model.setup (run.model.queue.context, name) call outcome
      run) :
    call.outcome run.calm = outcome := by
  have calmChecked : run.calm.model.checkContext call.batch = .ok () := checked
  obtain ⟨set, held, decided⟩ := awaits.stored
  have calmHeld : run.calm.model.programs.get? (run.calm.model.queue.context, name) = some set :=
    held
  obtain ⟨obtained, obtains, stored, -⟩ :=
    Model.obtainPrograms_of_held call.force named calmHeld
  have sameSetup := Model.setup_of_obtained obtains
  obtain ⟨_, _, sameQueue, _⟩ := Model.of_setup sameSetup
  have sameBackend : obtained.bench.backend = run.bench.backend.calm :=
    Model.backend_of_obtained obtains
  have steady : Steady queue True pace obtained.bench.backend := by
    rw [sameBackend]
    exact awaits.steady.calm
  have sameCompiler : queue.compilerOn obtained.bench = queue.compilerOn run.bench := by
    unfold CommandQueue.compilerOn
    rw [sameBackend]
    rfl
  have decidedAgain : call.verdict queue.context pace run.model.setup set
      (queue.compilerOn obtained.bench) = outcome := by
    rw [sameCompiler]
    exact decided
  exact call.outcome_of_awaits onPlatform clocked stocked.calm calmChecked obtains
    ⟨sameSetup, sameQueue.trans awaits.onQueue, steady, set, stored, decidedAgain⟩

/-- A call that has found its programs and has failed comes, when it is repeated
undisturbed, to what it would have come to undisturbed. -/
theorem Call.repeats (call : Call) (onPlatform : queue.OnPlatform)
    (clocked : queue.clock = Platform.clock) {batches others : List Batch}
    {obtained : ModelRun (Disturbed Platform)} (installed : Installed queue variants run)
    (stocked : Stocked queue.disturbed variants batches run)
    (restocked : Stocked queue.disturbed variants others (call.perform run))
    (checked : run.model.checkContext call.batch = .ok ())
    (obtains : Model.obtainPrograms call.batch call.force run = (.ok key, obtained))
    (failed : (call.outcome run).failure? ≠ none) :
    call.outcome (call.perform run).calm = call.outcome run.calm := by
  obtain ⟨pace, steady⟩ := installed.holds
  obtain ⟨name, set, named, rfl, held⟩ := Model.held_of_obtained obtains
  have sameSetup := Model.setup_of_obtained obtains
  obtain ⟨_, _, sameQueue, _⟩ := Model.of_setup sameSetup
  have onQueue : obtained.model.queue = queue.disturbed := sameQueue.trans installed.onQueue
  have obtainedSteady : Steady queue False pace obtained.bench.backend := by
    rw [Model.backend_of_obtained obtains]
    exact steady
  have first : call.outcome run.calm = call.verdict queue.context pace run.model.setup set
      (queue.compilerOn obtained.bench) := by
    have calmChecked : run.calm.model.checkContext call.batch = .ok () := checked
    have calmObtains : Model.obtainPrograms call.batch call.force run.calm =
        (.ok (run.model.queue.context, name), obtained.calm) := by
      rw [Model.obtainPrograms_calm, obtains]
    exact call.outcome_of_awaits onPlatform clocked stocked.calm calmChecked calmObtains
      ⟨sameSetup, onQueue, obtainedSteady.calm, set, held, rfl⟩
  have behind := (call.decided onPlatform clocked checked obtains
    (fun _ => stocked.filled checked obtains)
    ⟨sameSetup, onQueue, obtainedSteady, set, held, first.symm⟩).2 failed
  obtain ⟨_, _, queueBehind, _⟩ := Model.of_setup behind.ofSetup
  have checkedAgain : (call.perform run).model.checkContext call.batch = .ok () := by
    rw [Model.checkContext_eq_ok_iff] at checked ⊢
    exact checked.trans (congrArg CommandQueue.context queueBehind.symm)
  have queueBefore : (call.perform run).model.queue = run.model.queue := queueBehind
  rw [← queueBefore, ← behind.ofSetup] at behind
  exact call.outcome_of_stored onPlatform clocked restocked checkedAgain named behind

end KernelTuner
