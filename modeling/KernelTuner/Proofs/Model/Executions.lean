import KernelTuner.Proofs.Model.Provenance
import KernelTuner.Proofs.Model.Store

/-!
Contract: runs of executions by the stored models of one context.

Owns: such runs from a fresh context; `BuiltBy`, which tells the execution of a run that
has built a program; and `Attributed.of_fresh`, by which every artifact and every program
of a stored model has been built by an execution of the run.

Does not own: calls other than executions.
-/

set_option autoImplicit false

namespace KernelTuner

/-! ### Runs -/

/-- An execution by a stored model. -/
structure Execution where
  model : ModelId
  batch : Batch
  bypassPredictor : Bool
  force : Bool

/-- The call on the model. -/
def Execution.call (execution : Execution) : Call :=
  .execute execution.batch execution.bypassPredictor execution.force

/-- What an execution leaves behind, whether it fails or not. -/
def Execution.perform (execution : Execution) (state : ModelStore Platform × Bench Platform) :
    ModelStore Platform × Bench Platform :=
  (ModelStore.run execution.model
    (Model.execute execution.batch execution.bypassPredictor execution.force) state).2

/-- What executions one after another leave behind. -/
def executed (start : ModelStore Platform × Bench Platform) (executions : List Execution) :
    ModelStore Platform × Bench Platform :=
  executions.foldl (fun state execution => execution.perform state) start

/-- Models that have been made for queues of the context `home`, and a compiler of that
context that holds no artifact. -/
structure Fresh (home : ContextId) (start : ModelStore Platform × Bench Platform) : Prop where
  known : start.2.backend.compilers.get? home ≠ none
  unused : ∀ source, (start.2.backend.compiler home).artifacts.get? (home, source) = none
  made : ∀ id model, start.1.get? id = some model →
    ∃ variants predictor queue, Model.create variants predictor queue = .ok model ∧
      queue.OnPlatform ∧ queue.context = home

variable {home : ContextId} {start : ModelStore Platform × Bench Platform}
  {executions : List Execution} {execution : Execution}

theorem executed_concat (start : ModelStore Platform × Bench Platform)
    (executions : List Execution) (execution : Execution) :
    executed start (executions ++ [execution]) = execution.perform (executed start executions) :=
  List.foldl_concat ..

namespace Execution

variable {state : ModelStore Platform × Bench Platform}

theorem perform_of_absent (absent : state.1.get? execution.model = none) :
    execution.perform state = state := by
  simp only [perform, ModelStore.run, absent]

/-- The run of the model that executes. -/
def run (execution : Execution) (model : Model Platform) (bench : Bench Platform) :
    ModelRun Platform :=
  execution.call.perform ⟨model, bench⟩

theorem perform_of_held {model : Model Platform} (held : state.1.get? execution.model = some model) :
    execution.perform state =
      (state.1.put execution.model (execution.run model state.2).model,
        (execution.run model state.2).bench) := by
  simp only [perform, ModelStore.run, held]
  rfl

theorem run_queue (execution : Execution) (model : Model Platform) (bench : Bench Platform) :
    (execution.run model bench).model.queue = model.queue := by
  have kept := Call.setup_of_execute execution.batch execution.bypassPredictor execution.force
    ⟨model, bench⟩
  exact (Model.of_setup kept).2.2.1

/-- A batch without a name is not executed. -/
theorem run_of_unnamed {cause : Error} (unnamed : execution.batch.programName = .error cause)
    (model : Model Platform) (bench : Bench Platform) :
    execution.run model bench = ⟨model, bench⟩ := by
  have ends : Action.Ends ⟨model, bench⟩
      (Model.execute execution.batch execution.bypassPredictor execution.force)
      (fun _ after => after = ⟨model, bench⟩) (fun _ after => after = ⟨model, bench⟩) := by
    refine Model.ends_execute (fun _ => rfl) ?_ ?_
    · intro other obtained obtains
      rw [Model.obtainPrograms_of_refused unnamed] at obtains
      cases obtains
      rfl
    · intro key obtained obtains
      rw [Model.obtainPrograms_of_refused unnamed] at obtains
      cases obtains
  exact ends.behind

end Execution

theorem executed_concat_of_held {model : Model Platform}
    (held : (executed start executions).1.get? execution.model = some model) :
    executed start (executions ++ [execution]) =
      ((executed start executions).1.put execution.model
          (execution.run model (executed start executions).2).model,
        (execution.run model (executed start executions).2).bench) :=
  (executed_concat start executions execution).trans (Execution.perform_of_held held)

/-! ### Builders -/

/-- The programs that one execution of a run has built, by the name of its batch. -/
def BuiltBy (home : ContextId) (start : ModelStore Platform × Bench Platform)
    (executions : List Execution) : Origin := fun source slot name program =>
  ∃ earlier execution model, earlier ++ [execution] <+: executions ∧
    execution.batch.programName = .ok name ∧
    (executed start (earlier ++ [execution])).1.get? execution.model = some model ∧
    BuiltFor home name ((executed start earlier).2.backend.compiler home)
      ⟨model, (executed start (earlier ++ [execution])).2⟩ source slot program

/-- What has been built in a run was built before its last execution or by it. -/
theorem builtBy_concat_iff {source : String} {slot : Slot} {name : Fingerprint}
    {program : Program} :
    BuiltBy home start (executions ++ [execution]) source slot name program ↔
      BuiltBy home start executions source slot name program ∨
        execution.batch.programName = .ok name ∧
          ∃ model, (executed start (executions ++ [execution])).1.get? execution.model = some model ∧
            BuiltFor home name ((executed start executions).2.backend.compiler home)
              ⟨model, (executed start (executions ++ [execution])).2⟩ source slot program := by
  constructor
  · rintro ⟨earlier, builder, model, within, named, held, built⟩
    rcases List.prefix_concat_iff.1 within with whole | before
    · obtain ⟨rfl, same⟩ := List.append_inj' whole rfl
      cases same
      exact .inr ⟨named, model, held, built⟩
    · exact .inl ⟨earlier, builder, model, before, named, held, built⟩
  · rintro (⟨earlier, builder, model, before, named, held, built⟩ | ⟨named, model, held, built⟩)
    · exact ⟨earlier, builder, model, before.trans (List.prefix_append _ _), named, held, built⟩
    · exact ⟨executions, execution, model, List.prefix_rfl, named, held, built⟩

theorem not_builtBy_nil {source : String} {slot : Slot} {name : Fingerprint}
    {program : Program} : ¬ BuiltBy home start [] source slot name program := by
  rintro ⟨earlier, execution, model, within, -⟩
  exact List.append_ne_nil_of_right_ne_nil earlier (List.cons_ne_nil _ _) (List.prefix_nil.1 within)

/-- A run that leaves no program of unknown origin behind. -/
structure Attributed (home : ContextId) (start : ModelStore Platform × Bench Platform)
    (executions : List Execution) : Prop where
  known : (executed start executions).2.backend.compilers.get? home ≠ none
  onHome : ∀ id model, (executed start executions).1.get? id = some model →
    model.queue.OnPlatform ∧ model.queue.context = home
  left : ∀ source slot name program, BuiltBy home start executions source slot name program →
    ((executed start executions).2.backend.compiler home).artifacts.get? (home, source) ≠ none
  artifacts : ((executed start executions).2.backend.compiler home).OfOrigin home
    (BuiltBy home start executions)
  models : ∀ id model, (executed start executions).1.get? id = some model →
    model.OfOrigin home ((executed start executions).2.backend.compiler home)
      (BuiltBy home start executions)

namespace Attributed

theorem initial (fresh : Fresh home start) : Attributed home start [] where
  known := fresh.known
  onHome := by
    intro id model held
    obtain ⟨variants, predictor, queue, created, onPlatform, context⟩ := fresh.made id model held
    obtain ⟨_, rfl⟩ := Model.eq_of_create created
    exact ⟨onPlatform, context⟩
  left := fun _ _ _ _ built => absurd built not_builtBy_nil
  artifacts := by
    intro source program held
    rw [show executed start [] = start from rfl, fresh.unused] at held
    cases held
  models := by
    intro id model held
    obtain ⟨variants, predictor, queue, created, -⟩ := fresh.made id model held
    obtain ⟨_, rfl⟩ := Model.eq_of_create created
    exact ⟨nofun, nofun, nofun⟩

/-- An execution that does nothing leaves the run as it is. -/
theorem idle (attributed : Attributed home start executions)
    (sameModels : ∀ id, (executed start (executions ++ [execution])).1.get? id =
      (executed start executions).1.get? id)
    (sameBench : (executed start (executions ++ [execution])).2 = (executed start executions).2) :
    Attributed home start (executions ++ [execution]) := by
  have weaker (source : String) (slot : Slot) (name : Fingerprint) (program : Program)
      (earlier : BuiltBy home start executions source slot name program) :
      BuiltBy home start (executions ++ [execution]) source slot name program :=
    builtBy_concat_iff.2 (.inl earlier)
  refine ⟨?_, ?_, ?_, ?_, ?_⟩
  · rw [sameBench]
    exact attributed.known
  · intro id model held
    rw [sameModels] at held
    exact attributed.onHome id model held
  · intro source slot name program built
    rw [sameBench]
    rcases builtBy_concat_iff.1 built with earlier | ⟨-, model, -, now⟩
    · exact attributed.left source slot name program earlier
    · rw [← sameBench]
      exact now.kept
  · rw [sameBench]
    exact attributed.artifacts.mono weaker
  · intro id model held
    rw [sameModels] at held
    rw [sameBench]
    exact (attributed.models id model held).mono (.refl _) weaker

/-- The last execution of a run takes its course from where the others have ended. -/
theorem inCourse (attributed : Attributed home start executions) {model : Model Platform}
    {own : Fingerprint} (held : (executed start executions).1.get? execution.model = some model)
    (named : execution.batch.programName = .ok own) :
    InCourse home own ((executed start executions).2.backend.compiler home)
      (BuiltBy home start executions) (execution.run model (executed start executions).2) := by
  obtain ⟨onPlatform, onHome⟩ := attributed.onHome _ model held
  have known : (⟨model, (executed start executions).2⟩ : ModelRun Platform).bench.backend.compilers.get?
      home ≠ none := attributed.known
  exact (InCourse.start known attributed.artifacts (attributed.models _ model held)).execute
    onPlatform onHome named execution.bypassPredictor execution.force

/-- An execution that has taken its course leaves no program of unknown origin behind. -/
theorem extend (attributed : Attributed home start executions) {model : Model Platform}
    {own : Fingerprint} {run : ModelRun Platform}
    (held : (executed start executions).1.get? execution.model = some model)
    (named : execution.batch.programName = .ok own)
    (ran : executed start (executions ++ [execution]) =
      ((executed start executions).1.put execution.model run.model, run.bench))
    (sameQueue : run.model.queue = model.queue)
    (course : InCourse home own ((executed start executions).2.backend.compiler home)
      (BuiltBy home start executions) run) :
    Attributed home start (executions ++ [execution]) := by
  have sameBench : (executed start (executions ++ [execution])).2 = run.bench := by rw [ran]
  have stored : (executed start (executions ++ [execution])).1.get? execution.model =
      some run.model := by
    rw [ran]
    exact ModelStore.get?_put_of_held run.model held
  have others {id : ModelId} (apart : execution.model ≠ id) :
      (executed start (executions ++ [execution])).1.get? id =
        (executed start executions).1.get? id := by
    rw [ran]
    exact ModelStore.get?_put_of_ne run.model apart _
  have weaker (source : String) (slot : Slot) (name : Fingerprint) (program : Program)
      (since : sinceBefore home own ((executed start executions).2.backend.compiler home)
        (BuiltBy home start executions) run source slot name program) :
      BuiltBy home start (executions ++ [execution]) source slot name program := by
    refine builtBy_concat_iff.2 (since.imp_right ?_)
    rintro ⟨rfl, built⟩
    rw [sameBench]
    exact ⟨named, run.model, stored, built⟩
  refine ⟨?known, ?onHome, ?left, ?artifacts, ?models⟩
  case known =>
    rw [sameBench]
    exact course.known
  case onHome =>
    intro id found there
    by_cases same : execution.model = id
    · subst same
      cases stored.symm.trans there
      rw [sameQueue]
      exact attributed.onHome _ model held
    · rw [others same] at there
      exact attributed.onHome id found there
  case left =>
    intro source slot name program built
    rcases builtBy_concat_iff.1 built with earlier | ⟨-, _, -, now⟩
    · rw [sameBench]
      exact course.grows.artifacts _ (attributed.left source slot name program earlier)
    · exact now.kept
  case artifacts =>
    rw [sameBench]
    exact course.artifacts.mono weaker
  case models =>
    intro id found there
    rw [sameBench]
    by_cases same : execution.model = id
    · subst same
      cases stored.symm.trans there
      exact course.model.mono (.refl _) weaker
    · rw [others same] at there
      refine (attributed.models id found there).mono course.grows ?_
      exact fun _ _ _ _ earlier => builtBy_concat_iff.2 (.inl earlier)

/-- One more execution leaves no program of unknown origin behind. -/
theorem step (attributed : Attributed home start executions) (execution : Execution) :
    Attributed home start (executions ++ [execution]) := by
  cases held : (executed start executions).1.get? execution.model with
  | none =>
      have ran := executed_concat start executions execution
      rw [Execution.perform_of_absent held] at ran
      exact attributed.idle (fun _ => by rw [ran]) (by rw [ran])
  | some model =>
      have ran := executed_concat_of_held held
      cases named : execution.batch.programName with
      | ok own =>
          exact attributed.extend held named ran (execution.run_queue model _)
            (attributed.inCourse held named)
      | error cause =>
          rw [Execution.run_of_unnamed named] at ran
          refine attributed.idle (fun id => ?_) (by rw [ran])
          rw [ran]
          by_cases same : execution.model = id
          · subst same
            exact (ModelStore.get?_put_of_held model held).trans held.symm
          · exact ModelStore.get?_put_of_ne model same _

/-- No run leaves a program of unknown origin behind. -/
theorem of_fresh (fresh : Fresh home start) (executions : List Execution) :
    Attributed home start executions := by
  induction executions using List.reverseRecOn with
  | nil => exact .initial fresh
  | append_singleton executions execution inductionHypothesis =>
      exact inductionHypothesis.step execution

end Attributed

/-- The name of a program that is built for a batch is that of the batch and of the slot. -/
theorem BuiltBy.batch {source : String} {slot : Slot} {name : Fingerprint} {program : Program}
    (built : BuiltBy home start executions source slot name program) :
    program.name = name.slotName slot ∧ ∃ batch : Batch, batch.programName = .ok name := by
  obtain ⟨_, execution, _, _, named, _, builtFor⟩ := built
  exact ⟨builtFor.named, execution.batch, named⟩

namespace Attributed

/-- A program that holds kernels was built for the slot that it is found in. -/
theorem slot_eq {model : Model Platform} {key : ProgramKey} {set : ProgramSet} {slot builtSlot : Slot}
    {builder : Fingerprint} {program : Program} (fresh : Fresh home start)
    (assembled : set.AssembledFor model.variants key) {place : Nat} {variant : Variant}
    (found : model.variants[place]? = some variant) (used : variant.entries place slot ≠ [])
    (built : BuiltBy home start executions (set.shell slot).source builtSlot builder program) :
    builtSlot = slot := by
  obtain ⟨earlier, execution, other, _, _, held, builtFor⟩ := built
  obtain ⟨otherSet, otherHeld, same, _⟩ := builtFor.due
  have models := (of_fresh fresh (earlier ++ [execution])).models _ other held
  obtain ⟨_, otherAssembled⟩ := models.assembled _ otherSet otherHeld
  exact assembled.slot_eq_of_source otherAssembled found used same

end Attributed

end KernelTuner
