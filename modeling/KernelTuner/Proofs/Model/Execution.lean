import KernelTuner.Proofs.Fingerprint.Spelling
import KernelTuner.Proofs.Model.Transparency
import KernelTuner.Proofs.Model.Working
import KernelTuner.Proofs.Variant.Refusals

/-!
Contract: how executions end on the reference platform.

Owns: the failures that are the caller's; the launches that an execution appends to its
queue; and `execute_launches_or_refuses`, by which every execution of accepted variants
does either, after any history, and never fails in the backend.
Does not own: tuning, which waits for its launches.
-/

set_option autoImplicit false

namespace KernelTuner

/-! ### Refusals -/

/-- A failure that is due to the batch. -/
def Error.IsRefusal : Error → Prop
  | .invalidArgument _ | .contextMismatch _ _ | .fingerprintOverflow _ => True
  | _ => False

theorem OnlyRefuses.isRefusal {α : Type} {outcome : Except Error α} {cause : Error}
    (refuses : OnlyRefuses outcome) (failed : outcome = .error cause) : cause.IsRefusal := by
  have refused := refuses cause failed
  cases cause with
  | invalidArgument _ => trivial
  | _ => cases refused

theorem Batch.programName_isRefusal {batch : Batch} {cause : Error}
    (refused : batch.programName = .error cause) : cause.IsRefusal := by
  rw [programName_eq] at refused
  split at refused
  · simp at refused
  · cases refused
    trivial

theorem ProgramSet.emitFrom_onlyRefuses (batch : Batch) (index : Nat) (variants : List Variant)
    (shells : Shell × Shell) : OnlyRefuses (emitFrom batch index variants shells) := by
  induction variants generalizing index shells with
  | nil => exact .ok shells
  | cons variant rest inductionHypothesis =>
      refine .bind (Variant.emit_onlyRefuses index batch) ?_
      intro emission _
      exact inductionHypothesis (index + 1) _

theorem ProgramSet.build_onlyRefuses (context : ContextId) (fingerprint : Fingerprint)
    (device : Device) (variants : List Variant) (batch : Batch) (force : Bool) :
    OnlyRefuses (build context fingerprint device variants batch force) :=
  .bind (emitFrom_onlyRefuses batch 0 variants _) fun _ _ => .pure _

namespace Model

variable {σ : Type} {model : Model σ}

theorem checkContext_isRefusal {batch : Batch} {cause : Error}
    (refused : model.checkContext batch = .error cause) : cause.IsRefusal := by
  unfold checkContext at refused
  split at refused
  · simp at refused
  · cases refused
    trivial

theorem select_onlyRefuses (shape : Shape) (bypassPredictor : Bool) :
    OnlyRefuses (model.select shape bypassPredictor) := by
  unfold select
  split
  · exact .ok _
  · split
    · exact .ok _
    · split
      · exact .ok _
      · unfold selectPredicted
        simp only
        split
        · exact .refuse _
        · split
          · exact .ok _
          · exact .ok _

theorem selectPredicted_lt {predictor : CostPredictor} {shape : Shape} {selection : Selection}
    (nonempty : 0 < model.variants.length)
    (selected : model.selectPredicted predictor shape = .ok selection) :
    selection.variant < model.variants.length := by
  unfold selectPredicted at selected
  simp only at selected
  split at selected
  · simp at selected
  · next counted =>
      rw [not_not] at counted
      split at selected
      · next place found =>
          cases selected
          rw [← counted]
          exact firstMinimum?_lt found
      · cases selected
        exact nonempty

/-- Only variants that there are are selected. -/
theorem select_lt {shape : Shape} {bypassPredictor : Bool} {selection : Selection}
    (nonempty : 0 < model.variants.length)
    (inRange : ∀ place, model.overrides.get? shape = some place → place < model.variants.length)
    (selected : model.select shape bypassPredictor = .ok selection) :
    selection.variant < model.variants.length := by
  unfold select at selected
  split at selected
  · next place found =>
      cases selected
      exact inRange place found
  · split at selected
    · cases selected
      exact nonempty
    · split at selected
      · cases selected
        exact nonempty
      · exact selectPredicted_lt nonempty selected

theorem variantAt_of_lt {place : Nat} (inside : place < model.variants.length) :
    ∃ variant, model.variants[place]? = some variant ∧ model.variantAt place = .ok variant := by
  have found := List.getElem?_eq_getElem inside
  refine ⟨model.variants[place], found, ?_⟩
  rw [variantAt, found]

end Model

/-! ### Launches -/

/-- The platform has accepted launches for the queue, on top of those it had. -/
structure Platform.Appended (id : QueueId) (records : List LaunchRecord)
    (before after : Platform) : Prop where
  history : (after.queue id).history = (before.queue id).history ++ records
  pending : (after.queue id).pending = (before.queue id).pending ++ records

namespace Platform.Appended

variable {id : QueueId} {before between after : Platform}

theorem of_queues (same : after.queues = before.queues) : Appended id [] before after := by
  have sameQueue : after.queue id = before.queue id := by
    rw [Platform.queue, same, Platform.queue]
  constructor
  · rw [List.append_nil, sameQueue]
  · rw [List.append_nil, sameQueue]

theorem trans {first second : List LaunchRecord} (earlier : Appended id first before between)
    (later : Appended id second between after) : Appended id (first ++ second) before after := by
  constructor
  · rw [later.history, earlier.history, List.append_assoc]
  · rw [later.pending, earlier.pending, List.append_assoc]

end Platform.Appended

variable {queue : CommandQueue Platform} {variants : List Variant} {batch : Batch}
  {run : ModelRun Platform}

theorem Model.submit_ok (onPlatform : queue.OnPlatform) {launch : Launch}
    (ready : run.bench.Ready queue) (checked : QueueState.checkLaunch launch = .ok ()) :
    ∃ next, Model.onBackend (queue.submit launch) run = (.ok (), next) ∧
      next.bench.Ready queue ∧ next.model = run.model ∧
      run.bench.backend.Appended queue.id [QueueState.recordOf launch] next.bench.backend := by
  obtain ⟨platform, accepted, stillReady, history, pending⟩ :=
    Platform.Ready.submit_ok ready checked
  refine ⟨{ run with bench := { run.bench with backend := platform } }, ?_, stillReady, rfl,
    ⟨history, pending⟩⟩
  simp only [Model.onBackend, onPlatform.submit, accepted]
  rfl

theorem Model.submitAll_ok (onPlatform : queue.OnPlatform) {launches : List Launch}
    (ready : run.bench.Ready queue)
    (checked : ∀ launch ∈ launches, QueueState.checkLaunch launch = .ok ()) :
    ∃ after, Model.submitAll queue launches run = (.ok (), after) ∧ after.model = run.model ∧
      run.bench.backend.Appended queue.id (launches.map QueueState.recordOf)
        after.bench.backend := by
  induction launches generalizing run with
  | nil => exact ⟨run, rfl, rfl, .of_queues rfl⟩
  | cons launch rest inductionHypothesis =>
      obtain ⟨headChecked, restChecked⟩ := List.forall_mem_cons.1 checked
      obtain ⟨next, submitted, stillReady, sameModel, first⟩ :=
        Model.submit_ok onPlatform ready headChecked
      obtain ⟨after, restSubmitted, stillSame, others⟩ :=
        inductionHypothesis stillReady restChecked
      exact ⟨after, (Action.bind_ok submitted).trans restSubmitted, stillSame.trans sameModel,
        first.trans others⟩

/-- The queue accepts all launches of a plan, of a program that has the entries of the
variant. -/
theorem Variant.Launches.checked {variant : Variant} {place : Nat} {plan : LaunchPlan}
    {program : Program} (launches : variant.Launches place plan)
    (offers : ∀ name ∈ variant.entries place plan.slot, program.hasKernel name = true) :
    ∀ launch ∈ plan.launches.map (Model.launchOf program place),
      QueueState.checkLaunch launch = .ok () := by
  intro launch member
  obtain ⟨planned, plannedMember, rfl⟩ := List.mem_map.1 member
  have entry : planned.kernel ∈ variant.entries place plan.slot := by
    rw [← launches.kernels]
    exact List.mem_map_of_mem plannedMember
  have offered : (Model.launchOf program place planned).program.hasKernel
      (Model.launchOf program place planned).kernel = true := offers planned.kernel entry
  rw [QueueState.checkLaunch, if_pos offered]
  exact QueueState.checkWorkSizes_ok (launches.fills planned plannedMember)

/-- What an execution that has chosen `variant`, number `place` of the model, has done:
it has submitted the launches of its plan, of the program stored for the batch. -/
structure Launched (queue : CommandQueue Platform) (batch : Batch)
    (before after : ModelRun Platform) (place : Nat) (variant : Variant) (plan : LaunchPlan)
    (program : Program) : Prop where
  chosen : before.model.variants[place]? = some variant
  planned : variant.plan place batch = .ok plan
  kernels : plan.launches.map PlannedLaunch.kernel = variant.entries place plan.slot
  compiled : ∃ name set, batch.programName = .ok name ∧
    after.model.programs.get? (queue.context, name) = some set ∧
    (set.shell plan.slot).compiled = some program
  appended : before.bench.backend.Appended queue.id
    (plan.launches.map fun launch =>
      QueueState.recordOf (Model.launchOf program place launch)) after.bench.backend

/-- Launches are counted from the platform, so that what leaves it alone may come first. -/
theorem Launched.from {before earlier after : ModelRun Platform} {place : Nat}
    {variant : Variant} {plan : LaunchPlan} {program : Program}
    (launched : Launched queue batch before after place variant plan program)
    (sameVariants : before.model.variants = earlier.model.variants)
    (sameBackend : before.bench.backend = earlier.bench.backend) :
    Launched queue batch earlier after place variant plan program := by
  obtain ⟨chosen, planned, kernels, compiled, appended⟩ := launched
  rw [sameVariants] at chosen
  rw [sameBackend] at appended
  exact ⟨chosen, planned, kernels, compiled, appended⟩

/-- The call has been refused and has left the platform alone. -/
def Refused (before : ModelRun Platform) (cause : Error) (after : ModelRun Platform) : Prop :=
  cause.IsRefusal ∧ after.bench.backend = before.bench.backend

/-! ### Steps of an execution -/

namespace Working

open KernelTuner.Action

theorem obtainPrograms_ends (working : Working queue variants run) (force : Bool) :
    Ends run (Model.obtainPrograms batch force)
      (fun key reached => Working queue variants reached ∧
        reached.bench.backend = run.bench.backend ∧
        ∃ name set, batch.programName = .ok name ∧ key = (queue.context, name) ∧
          reached.model.programs.get? key = some set)
      (Refused run) := by
  have kept := working.obtainPrograms batch force
  unfold Ends
  cases named : batch.programName with
  | error cause =>
      rw [Model.obtainPrograms_of_refused named]
      exact ⟨Batch.programName_isRefusal named, rfl⟩
  | ok name =>
      obtain ⟨result, reached, recorded, obtained, looked⟩ :=
        Model.obtainPrograms_of_named force run named
      rw [obtained] at kept ⊢
      cases looked with
      | @held set present unchanged =>
          refine ⟨kept, rfl, name, set, rfl, by rw [working.onQueue], ?_⟩
          exact (unchanged _).trans present
      | @built set absent succeeded grown =>
          refine ⟨kept, rfl, name, set, rfl, by rw [working.onQueue], ?_⟩
          exact (grown _).trans (if_pos rfl)
      | failed absent refused unchanged =>
          exact ⟨(ProgramSet.build_onlyRefuses _ _ _ _ _ _).isRefusal refused, rfl⟩

theorem shapeOf_ends (working : Working queue variants run) (nonempty : 0 < variants.length) :
    Ends run (Model.shapeOf batch) (fun _ reached => reached = run) (Refused run) := by
  rw [← working.ofVariants] at nonempty
  obtain ⟨baseline, _, first⟩ := Model.variantAt_of_lt nonempty
  refine .read_bind (.ofExcept_bind ?_ fun variant _ => ?_)
  · intro cause missing
    rw [first] at missing
    simp at missing
  · refine .ofExcept ?_ fun _ _ => rfl
    intro cause refused
    exact ⟨(Variant.sizes_onlyRefuses batch).isRefusal refused, rfl⟩

/-- The program of a stored set is there or compiles, and no launch is lost or made. -/
theorem program_ok (onPlatform : queue.OnPlatform) (working : Working queue variants run)
    {key : ProgramKey} {set : ProgramSet} (held : run.model.programs.get? key = some set)
    (slot : Slot) :
    ∃ program reached compiled,
      Model.onPrograms key (ProgramSet.program queue slot) run = (.ok program, reached) ∧
      Working queue variants reached ∧
      (∀ (place : Nat) (variant : Variant), variants[place]? = some variant →
        ∀ name ∈ variant.entries place slot, program.hasKernel name = true) ∧
      reached.model.programs.get? key = some compiled ∧
      (compiled.shell slot).compiled = some program ∧
      reached.bench.backend.queues = run.bench.backend.queues := by
  have kept := onPrograms (ProgramSet.program_keeps onPlatform slot) key run working
  obtain ⟨program, ⟨compiled, bench⟩, outcome, kernels, same, queues⟩ :=
    (working.complete key set held).program_ok onPlatform working.ready slot
  obtain ⟨reached, ran, stored⟩ :=
    Model.onPrograms_of_held (ProgramSet.program queue slot) held
  rw [outcome] at ran stored
  rw [ran] at kept
  refine ⟨program, _, compiled, ran, kept, kernels, ?_, same, queues⟩
  exact (stored key).trans (if_pos rfl)

theorem enqueue_ends (onPlatform : queue.OnPlatform) (working : Working queue variants run)
    (sized : ∀ variant ∈ variants, variant.Sized) (countable : batch.Countable)
    {name : Fingerprint} {set : ProgramSet} (named : batch.programName = .ok name)
    (held : run.model.programs.get? (queue.context, name) = some set) {place : Nat}
    (inside : place < variants.length) :
    Ends run (Model.enqueue (queue.context, name) place batch)
      (fun _ after => ∃ variant plan program,
        Launched queue batch run after place variant plan program)
      (Refused run) := by
  rw [← working.ofVariants] at inside sized
  obtain ⟨variant, found, looked⟩ := Model.variantAt_of_lt inside
  have variantSized := sized variant (List.mem_of_getElem? found)
  refine .read_bind (.ofExcept_bind ?_ fun other same => .ofExcept_bind ?_ fun plan planned => ?_)
  · intro cause missing
    rw [looked] at missing
    simp at missing
  · intro cause refused
    rw [looked] at same
    cases same
    exact ⟨(Variant.plan_onlyRefuses variantSized place countable).isRefusal refused, rfl⟩
  rw [looked] at same
  cases same
  rw [working.onQueue]
  obtain ⟨program, reached, compiled, outcome, stillWorking, hasKernels, stored, kept, queues⟩ :=
    working.program_ok onPlatform held plan.slot
  have launches := Variant.plan_launches variantSized countable planned
  have offers : ∀ name ∈ variant.entries place plan.slot, program.hasKernel name = true := by
    rw [working.ofVariants] at found
    exact hasKernels place variant found
  obtain ⟨after, submitted, sameModel, appended⟩ :=
    Model.submitAll_ok onPlatform stillWorking.ready (launches.checked offers)
  refine .of_ok ((bind_ok outcome).trans submitted) ⟨variant, plan, program, ?_⟩
  rw [List.map_map] at appended
  exact {
    chosen := found
    planned := planned
    kernels := launches.kernels
    compiled := ⟨name, compiled, named, by rw [sameModel]; exact stored, kept⟩
    appended := Platform.Appended.trans (.of_queues queues) appended }

theorem selectAndEnqueue_ends (onPlatform : queue.OnPlatform) (working : Working queue variants run)
    (nonempty : 0 < variants.length) (sized : ∀ variant ∈ variants, variant.Sized)
    (countable : batch.Countable) {name : Fingerprint} {set : ProgramSet}
    (named : batch.programName = .ok name)
    (held : run.model.programs.get? (queue.context, name) = some set) {model : Model Platform}
    (ofVariants : model.variants = variants)
    (inRange : ∀ shape place, model.overrides.get? shape = some place → place < variants.length)
    (bypassPredictor : Bool) :
    Ends run (Lasting.selectAndEnqueue batch bypassPredictor model (queue.context, name))
      (fun selection after => ∃ variant plan program,
        Launched queue batch run after selection.variant variant plan program)
      (Refused run) := by
  refine .bind (working.shapeOf_ends nonempty) ?_
  rintro shape _ rfl
  refine .ofExcept_bind ?_ fun selection selected => ?_
  · exact fun cause refused => ⟨(Model.select_onlyRefuses shape _).isRefusal refused, rfl⟩
  have inside : selection.variant < variants.length := by
    rw [← ofVariants] at nonempty inRange ⊢
    exact Model.select_lt nonempty (inRange shape) selected
  refine .bind (working.enqueue_ends onPlatform sized countable named held inside) ?_
  intro _ _ launched
  exact .pure launched

/-- A working model launches the variant that it selects, or refuses the batch. -/
theorem execute_ends (onPlatform : queue.OnPlatform) (working : Working queue variants run)
    (nonempty : 0 < variants.length) (sized : ∀ variant ∈ variants, variant.Sized)
    (countable : batch.Countable) (bypassPredictor force : Bool) :
    Ends run (Model.execute batch bypassPredictor force)
      (fun selection after => ∃ variant plan program,
        Launched queue batch run after selection.variant variant plan program)
      (Refused run) := by
  refine .read_bind (.ofExcept_bind ?_ fun _ _ => ?_)
  · intro cause refused
    exact ⟨Model.checkContext_isRefusal refused, rfl⟩
  refine .bind (working.obtainPrograms_ends force) ?_
  rintro key reached ⟨stillWorking, sameBackend, name, set, named, rfl, held⟩
  have sameVariants : reached.model.variants = run.model.variants :=
    stillWorking.ofVariants.trans working.ofVariants.symm
  have rest := stillWorking.selectAndEnqueue_ends onPlatform nonempty sized countable named held
    working.ofVariants working.inRange bypassPredictor
  refine rest.imp ?_ ?_
  · rintro selection after ⟨variant, plan, program, launched⟩
    exact ⟨variant, plan, program, launched.from sameVariants sameBackend⟩
  · rintro cause after ⟨isRefusal, unchanged⟩
    exact ⟨isRefusal, unchanged.trans sameBackend⟩

end Working

/-- After any history of calls on a model of accepted variants, with other work done on
the platform in between, an execution launches the variant that it selects or refuses
the batch. It never fails in the backend. -/
theorem execute_launches_or_refuses {platform : Platform} {id : QueueId} {variants : List Variant}
    {predictor : Option CostPredictor} {model : Model Platform} {profile : Profile}
    {calls : List Call} {run : ModelRun Platform} {batch : Batch} (bypassPredictor force : Bool)
    (reachable : platform.Reachable) (registered : platform.queues.get? id ≠ none)
    (accepting : (platform.compiler (platform.commandQueue id).context).rejected = [])
    (accepted : ∀ variant ∈ variants,
      ∃ operation profile, Variant.ofProfile operation profile = .ok variant)
    (created : Model.create variants predictor (platform.commandQueue id) = .ok model)
    (reached : Reaches (Platform.Accepting (platform.commandQueue id).context)
      ⟨model, ⟨platform, profile⟩⟩ calls run)
    (countable : batch.Countable) :
    (∃ selection after, Model.execute batch bypassPredictor force run = (.ok selection, after) ∧
      ∃ variant plan program, Launched (platform.commandQueue id) batch run after
        selection.variant variant plan program) ∨
    ∃ cause after, Model.execute batch bypassPredictor force run = (.error cause, after) ∧
      Refused run cause after := by
  have onPlatform := platform.commandQueue_onPlatform id
  obtain ⟨nonempty, _⟩ := Model.eq_of_create created
  have ready : Bench.Ready (platform.commandQueue id) ⟨platform, profile⟩ :=
    ⟨registered, accepting, Platform.reachable_honest reachable⟩
  have working := (Working.initial created ready).of_reaches onPlatform nonempty reached
  have sized : ∀ variant ∈ variants, variant.Sized := by
    intro variant member
    obtain ⟨operation, profile, fromProfile⟩ := accepted variant member
    exact Variant.ofProfile_sized fromProfile
  exact (working.execute_ends onPlatform nonempty sized countable bypassPredictor force).cases

theorem Batch.dot_countable {elementType : ElementType} : (Batch.dot elementType).Countable := by
  have small : ∀ node ∈ (Batch.dot elementType).first.nodes.toList,
      node.lhs.Countable ∧ node.rhs.Countable := by
    simp [Batch.dot, Batch.single, Expression.assignment, Operand.Countable, Buffer.Countable,
      Buffer.dims, Extent.dims, Size.kernelLimit]
  intro expression member node nodeMember
  obtain rfl : expression = (Batch.dot elementType).first := List.mem_singleton.1 member
  exact small node nodeMember.val

/-- An inner product that is executed a second time, with the artifacts of the compiler
passed over, is launched or refused. -/
theorem dot_launched_or_refused :
    Platform.single.Reachable ∧ (Batch.dot .f32).Countable ∧
      Variant.ofProfile .reduction [1, 64, 16, 1] = .ok .folding ∧
      ((∃ selection after, Model.execute (.dot .f32) true true
          ((Call.execute (.dot .f32) false false).perform .folding) = (.ok selection, after) ∧
        ∃ variant plan program, Launched (Platform.single.commandQueue ⟨1⟩) (.dot .f32)
          ((Call.execute (.dot .f32) false false).perform .folding) after selection.variant
          variant plan program) ∨
      ∃ cause after, Model.execute (.dot .f32) true true
          ((Call.execute (.dot .f32) false false).perform .folding) = (.error cause, after) ∧
        Refused ((Call.execute (.dot .f32) false false).perform .folding) cause after) := by
  have accepted : Variant.ofProfile .reduction [1, 64, 16, 1] = .ok .folding := rfl
  refine ⟨Platform.single_reachable, Batch.dot_countable, accepted, ?_⟩
  refine execute_launches_or_refuses true true Platform.single_reachable (Option.some_ne_none _)
    rfl ?_ folding_created (.call .start (.execute (.dot .f32) false false)) Batch.dot_countable
  intro variant member
  obtain rfl : variant = .folding := List.mem_singleton.1 member
  exact ⟨.reduction, [1, 64, 16, 1], accepted⟩

end KernelTuner
