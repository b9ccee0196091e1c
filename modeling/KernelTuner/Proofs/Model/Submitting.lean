import KernelTuner.Proofs.Model.Logging

/-!
Contract: the launches that executions submit.

Owns: that an execution submits launches of one plan of one variant only, in order and
of one program; that it has submitted all of them when it succeeds; and that these are
launches of the variant that it has selected.
-/

set_option autoImplicit false

namespace KernelTuner

open KernelTuner.Action (Keeps Ends)

variable {σ : Type} {batch : Batch} {key : ProgramKey} {index : Nat}

/-! ### Steps -/

/-- The runs that have submitted these launches. -/
def HasSubmitted (launches : List Launch) (run : ModelRun (Recorded σ)) : Prop :=
  run.bench.backend.launches = launches

variable {launches : List Launch}

namespace Model

/-- Compiling submits nothing. -/
theorem program_keeps_submitted (queue : CommandQueue σ) (key : ProgramKey) (slot : Slot) :
    Keeps (HasSubmitted launches) (onPrograms key (ProgramSet.program queue.recorded slot)) := by
  have kept : Keeps
      (LogBeside fun log => log.filterMap (fun event => event.call.launch?) = launches)
      (ProgramSet.program queue.recorded slot) := by
    refine ProgramSet.program_keeps_logBeside (fun log request before submitted => ?_) slot
    rw [List.filterMap_append, submitted]
    exact List.append_nil launches
  exact onPrograms_keeps _ fun run set reached holds _ _ => kept (set, run.bench) holds

/-- Launches are submitted in order: all of them on success, the first ones on failure. -/
theorem submitAll_ends (queue : CommandQueue σ) (launches : List Launch)
    (run : ModelRun (Recorded σ)) :
    Ends run (submitAll queue.recorded launches)
      (fun _ after => after.bench.backend.launches = run.bench.backend.launches ++ launches)
      (fun _ after => ∃ count,
        after.bench.backend.launches = run.bench.backend.launches ++ launches.take count) := by
  induction launches generalizing run with
  | nil => exact .pure (List.append_nil _).symm
  | cons launch rest inductionHypothesis =>
      have submitted := Recorded.note_submit_launches (queue.submit launch) run.bench.backend launch
      rcases outcome : onBackend (queue.recorded.submit launch) run with ⟨result, reached⟩
      have first : reached.bench.backend.launches = run.bench.backend.launches ++ [launch] := by
        have reaches := congrArg (fun ended => ended.2.bench.backend.launches) outcome
        exact reaches.symm.trans submitted
      cases result with
      | error cause => exact .of_error (Action.bind_error outcome) ⟨1, first⟩
      | ok value =>
          refine .bind_of_ok outcome ((inductionHypothesis reached).imp ?_ ?_)
          · intro _ after others
            rw [others, first, List.append_assoc]
            rfl
          · rintro cause after ⟨count, others⟩
            refine ⟨count + 1, ?_⟩
            rw [others, first, List.append_assoc]
            rfl

/-- Variant number `index` is planned for the batch, and its program is there or compiles. -/
structure Enqueues (key : ProgramKey) (index : Nat) (batch : Batch) (run : ModelRun σ)
    (variant : Variant) (plan : LaunchPlan) (program : Program) : Prop where
  chosen : run.model.variants[index]? = some variant
  planned : variant.plan index batch = .ok plan
  compiles : ∃ compiled, onPrograms key (ProgramSet.program run.model.queue plan.slot) run =
    (.ok program, compiled)

variable {run : ModelRun (Recorded σ)} {queue : CommandQueue σ}

/-- A variant that is enqueued submits the launches of its plan, up to the first that is
not accepted, and nothing when it cannot be planned or compiled. -/
theorem enqueue_ends (key : ProgramKey) (index : Nat) (batch : Batch)
    (onQueue : run.model.queue = queue.recorded) :
    Ends run (enqueue key index batch)
      (fun _ after => ∃ variant plan program,
        Enqueues key index batch run variant plan program ∧
          after.bench.backend.launches =
            run.bench.backend.launches ++ plan.launches.map (launchOf program index))
      (fun _ after => after.bench.backend.launches = run.bench.backend.launches ∨
        ∃ variant plan program count, Enqueues key index batch run variant plan program ∧
          after.bench.backend.launches = run.bench.backend.launches ++
            (plan.launches.map (launchOf program index)).take count) := by
  refine .read_bind (.ofExcept_bind (fun _ _ => .inl rfl) fun variant found => ?_)
  refine .ofExcept_bind (fun _ _ => .inl rfl) fun plan planned => ?_
  have chosen := variantAt_eq_ok_iff.1 found
  have kept := program_keeps_submitted queue key plan.slot run
    (show HasSubmitted run.bench.backend.launches run from rfl)
  rw [← onQueue] at kept
  rcases outcome : onPrograms key (ProgramSet.program run.model.queue plan.slot) run with
    ⟨result, compiled⟩
  rw [outcome] at kept
  have unsubmitted : compiled.bench.backend.launches = run.bench.backend.launches := kept
  cases result with
  | error cause => exact .of_error (Action.bind_error outcome) (.inl unsubmitted)
  | ok program =>
      have enqueues : Enqueues key index batch run variant plan program :=
        ⟨chosen, planned, compiled, outcome⟩
      refine .bind_of_ok outcome ?_
      have submits := submitAll_ends queue (plan.launches.map (launchOf program index)) compiled
      rw [unsubmitted, ← onQueue] at submits
      refine submits.imp ?_ ?_
      · exact fun _ _ submitted => ⟨variant, plan, program, enqueues, submitted⟩
      · rintro cause after ⟨count, submitted⟩
        exact .inr ⟨variant, plan, program, count, enqueues, submitted⟩

/-- An execution submits launches of one variant only, which it has selected. -/
theorem execute_ends (batch : Batch) (bypassPredictor force : Bool)
    (onQueue : run.model.queue = queue.recorded) :
    Ends run (execute batch bypassPredictor force)
      (fun selection after => ∃ key obtained variant plan program,
        obtainPrograms batch force run = (.ok key, obtained) ∧
          Enqueues key selection.variant batch obtained variant plan program ∧
          after.bench.backend.launches = run.bench.backend.launches ++
            plan.launches.map (launchOf program selection.variant))
      (fun _ after => after.bench.backend.launches = run.bench.backend.launches ∨
        ∃ key obtained index variant plan program count,
          obtainPrograms batch force run = (.ok key, obtained) ∧
          Enqueues key index batch obtained variant plan program ∧
          after.bench.backend.launches = run.bench.backend.launches ++
            (plan.launches.map (launchOf program index)).take count) := by
  have unsubmitted {result : Except Error ProgramKey} {obtained : ModelRun (Recorded σ)}
      (obtains : obtainPrograms batch force run = (result, obtained)) :
      obtained.bench.backend.launches = run.bench.backend.launches :=
    congrArg Recorded.launches (backend_of_obtained obtains)
  refine ends_execute (fun _ => .inl rfl) (fun _ _ obtains => .inl (unsubmitted obtains)) ?_
  intro key obtained obtains
  obtain ⟨_, _, sameQueue, _⟩ := of_setup (setup_of_obtained obtains)
  have stillOnQueue : obtained.model.queue = queue.recorded := sameQueue.trans onQueue
  refine ⟨fun _ => .inl (unsubmitted obtains), fun selection => ?_⟩
  have enqueued := enqueue_ends key selection.variant batch stillOnQueue
  rw [unsubmitted obtains] at enqueued
  refine enqueued.imp ?_ ?_
  · rintro _ after ⟨variant, plan, program, enqueues, submitted⟩
    exact ⟨key, obtained, variant, plan, program, obtains, enqueues, submitted⟩
  · rintro cause after (nothing | ⟨variant, plan, program, count, enqueues, submitted⟩)
    · exact .inl nothing
    · exact .inr ⟨key, obtained, selection.variant, variant, plan, program, count, obtains, enqueues,
        submitted⟩

end Model

namespace Call

variable {run after : ModelRun σ} {bypassPredictor force : Bool}

theorem submissions_eq {result : Except Error Selection} {reached : ModelRun (Recorded σ)}
    (performed : Model.execute batch bypassPredictor force (run.recorded []) = (result, reached)) :
    (execute batch bypassPredictor force).submissions run = reached.bench.backend.launches :=
  congrArg (fun ended => ended.2.bench.backend.launches) performed

/-- An execution that succeeds has submitted all launches of the variant it has selected,
and nothing else. -/
theorem submissions_of_executed {selection : Selection}
    (executed : Model.execute batch bypassPredictor force run = (.ok selection, after)) :
    ∃ variant plan program, run.model.variants[selection.variant]? = some variant ∧
      variant.plan selection.variant batch = .ok plan ∧
      (execute batch bypassPredictor force).submissions run =
        plan.launches.map (Model.launchOf program selection.variant) := by
  have recorded := Model.execute_recorded batch bypassPredictor force run
  rw [executed] at recorded
  have onQueue : (run.recorded []).model.queue = run.model.queue.recorded := rfl
  have ends := Model.execute_ends batch bypassPredictor force onQueue
  unfold Ends at ends
  rw [recorded] at ends
  obtain ⟨key, obtained, variant, plan, program, obtains, enqueues, submitted⟩ := ends
  refine ⟨variant, plan, program, ?_, enqueues.planned, ?_⟩
  · obtain ⟨sameVariants, _⟩ := Model.of_setup (Model.setup_of_obtained obtains)
    have chosen := enqueues.chosen
    rw [sameVariants] at chosen
    exact chosen
  · exact (submissions_eq recorded).trans submitted

/-- An execution for a batch of another context submits nothing. -/
theorem checked_of_submitted {launch : Launch}
    (submitted : launch ∈ (execute batch bypassPredictor force).submissions run) :
    run.model.checkContext batch = .ok () := by
  cases checked : run.model.checkContext batch with
  | ok => rfl
  | error cause =>
      have recordedChecked : (run.recorded []).model.checkContext batch = .error cause := checked
      rw [submissions_eq (Lasting.execute_of_refused recordedChecked)] at submitted
      cases submitted

/-- Whatever an execution submits, even when it fails, is a launch of a plan of the batch,
of a program that is stored for the batch. -/
theorem mem_submissions_of_execute {launch : Launch}
    (submitted : launch ∈ (execute batch bypassPredictor force).submissions run) :
    ∃ key obtained index variant plan program,
      Model.obtainPrograms batch force (run.recorded []) = (.ok key, obtained) ∧
        Model.Enqueues key index batch obtained variant plan program ∧
        launch ∈ plan.launches.map (Model.launchOf program index) := by
  have onQueue : (run.recorded []).model.queue = run.model.queue.recorded := rfl
  rcases (Model.execute_ends batch bypassPredictor force onQueue).cases with
    ⟨selection, after, executed, ends⟩ | ⟨cause, after, failed, ends⟩
  · obtain ⟨key, obtained, variant, plan, program, obtains, enqueues, reached⟩ := ends
    rw [submissions_eq executed, reached] at submitted
    exact ⟨key, obtained, _, variant, plan, program, obtains, enqueues, submitted⟩
  · rcases ends with nothing | ⟨key, obtained, index, variant, plan, program, count, obtains,
      enqueues, reached⟩
    · rw [submissions_eq failed, nothing] at submitted
      cases submitted
    · rw [submissions_eq failed, reached] at submitted
      exact ⟨key, obtained, index, variant, plan, program, obtains, enqueues,
        List.mem_of_mem_take submitted⟩

end Call

end KernelTuner
