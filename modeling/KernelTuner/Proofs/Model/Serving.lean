import KernelTuner.Proofs.Backend.Recording
import KernelTuner.Proofs.Model.Submitting
import KernelTuner.Proofs.Model.Transparency
import KernelTuner.Proofs.Program.Cache
import KernelTuner.Proofs.Variant.EntryNames

/-!
Contract: the kernels that submitted launches run.

Owns: the programs that a queue can build from a source; that every compiled program of a model
was built from the source of its set, after any history; and `serving_of_submitted`, by which every
launch that an execution submits is planned for its batch and names a kernel that was emitted from
the answering batch and is the only one of its name in the source of the launched program.
-/

set_option autoImplicit false

namespace KernelTuner

open KernelTuner.Action (Keeps)

variable {σ : Type} {queue : CommandQueue σ} {variants : List Variant} {run : ModelRun σ}

section Builds

variable {program : Program} {source : String}

/-! ### Queues -/

/-- The queue has an answer to a request for the source that is the program. -/
def CommandQueue.Builds (queue : CommandQueue σ) (program : Program) (source : String) : Prop :=
  ∃ request before after, request.source = source ∧
    queue.compile request before = (.ok program, after)

/-- Keeping a log changes nothing about what is built. -/
theorem CommandQueue.recorded_builds_iff :
    queue.recorded.Builds program source ↔ queue.Builds program source := by
  constructor
  · rintro ⟨request, before, after, same, compiled⟩
    have result : (queue.compile request before.backend).1 = .ok program :=
      congrArg Prod.fst compiled
    exact ⟨request, before.backend, _, same, Prod.ext result rfl⟩
  · rintro ⟨request, before, after, same, compiled⟩
    refine ⟨request, ⟨before, []⟩, ⟨after, [⟨.compile request, before⟩]⟩, same, ?_⟩
    simp only [recorded, Recorded.note, compiled]
    rfl

/-! ### Shells -/

/-- What has been compiled of the shell was built from its source. -/
def Shell.BuiltBy (queue : CommandQueue σ) (shell : Shell) : Prop :=
  ∀ program, shell.compiled = some program → queue.Builds program shell.source

/-- The program that a shell answers with was built from its source, now or before. -/
theorem Shell.program_builtBy {shell : Shell} (built : shell.BuiltBy queue) (bench : Bench σ) :
    (Shell.program queue (shell, bench)).2.1.BuiltBy queue ∧
      ∀ program, (Shell.program queue (shell, bench)).1 = .ok program →
        queue.Builds program shell.source := by
  cases held : shell.compiled with
  | some stored =>
      simp only [Shell.program, held]
      refine ⟨built, ?_⟩
      rintro program ⟨⟩
      exact built stored held
  | none =>
      rcases outcome : queue.compile shell.request bench.backend with ⟨result, backend⟩
      cases result with
      | error cause =>
          simp only [Shell.program, held, outcome]
          refine ⟨built, ?_⟩
          rintro program ⟨⟩
      | ok stored =>
          have builds : queue.Builds stored shell.source :=
            ⟨shell.request, bench.backend, backend, rfl, outcome⟩
          simp only [Shell.program, held, outcome]
          refine ⟨?_, ?_⟩
          · rintro program ⟨⟩
            exact builds
          · rintro program ⟨⟩
            exact builds

/-! ### Sets -/

namespace ProgramSet

/-- A set of which every compiled program was built from the source of its shell. -/
def BuiltBy (queue : CommandQueue σ) (set : ProgramSet) : Prop :=
  ∀ slot, (set.shell slot).BuiltBy queue

theorem BuiltBy.of_uncompiled {set : ProgramSet}
    (fresh : ∀ slot, (set.shell slot).compiled = none) : set.BuiltBy queue := by
  intro slot program compiled
  rw [fresh slot] at compiled
  cases compiled

theorem program_keeps_builtBy (slot : Slot) :
    Keeps (fun state : ProgramSet × Bench σ => state.1.BuiltBy queue)
      (ProgramSet.program queue slot) := by
  rintro ⟨set, bench⟩ built other
  show ((set.putShell slot (Shell.program queue (set.shell slot, bench)).2.1).shell other).BuiltBy
    queue
  rw [shell_putShell]
  split
  · exact (Shell.program_builtBy (built slot) bench).1
  · exact built other

theorem builds_of_program {set : ProgramSet} (built : set.BuiltBy queue) {slot : Slot}
    {bench : Bench σ} (ran : (ProgramSet.program queue slot (set, bench)).1 = .ok program) :
    queue.Builds program (set.shell slot).source :=
  (Shell.program_builtBy (built slot) bench).2 program ran

end ProgramSet

end Builds

/-! ### Programs and sources -/

/-- A model of `variants` whose compiled programs were built from the sources of their
sets. -/
structure Genuine (queue : CommandQueue σ) (variants : List Variant) (run : ModelRun σ) :
    Prop where
  onQueue : run.model.queue = queue
  ofVariants : run.model.variants = variants
  built : ∀ key set, run.model.programs.get? key = some set → set.BuiltBy queue

theorem ProgramSet.build_builtBy {context : ContextId} {name : Fingerprint} {device : Device}
    {batch : Batch} {force : Bool} {set : ProgramSet}
    (built : build context name device variants batch force = .ok set) : set.BuiltBy queue := by
  obtain ⟨emissions, _, rfl⟩ := build_eq_ok_iff.1 built
  exact .of_uncompiled assemble_compiled

namespace Genuine

theorem initial {predictor : Option CostPredictor} {model : Model σ} {bench : Bench σ}
    (created : Model.create variants predictor queue = .ok model) :
    Genuine queue variants ⟨model, bench⟩ := by
  obtain ⟨_, rfl⟩ := Model.eq_of_create created
  exact ⟨rfl, rfl, nofun⟩

theorem onPrograms {α : Type} {step : Action (ProgramSet × Bench σ) α}
    (kept : Keeps (fun state => state.1.BuiltBy queue) step) (key : ProgramKey) :
    Keeps (Genuine queue variants) (Model.onPrograms key step) := by
  refine Model.onPrograms_keeps step fun run set reached genuine held stored => ?_
  have stepped := kept (set, run.bench) (genuine.built key set held)
  refine ⟨genuine.onQueue, genuine.ofVariants, ?_⟩
  intro other found present
  have lookup : reached.get? other = some found := present
  rw [stored] at lookup
  split at lookup
  · cases lookup
    exact stepped
  · exact genuine.built other found lookup

theorem lasting (batch : Batch) : Lasting queue variants batch (Genuine queue variants) where
  onQueue := fun _ genuine => genuine.onQueue
  ofVariants := fun _ genuine => genuine.ofVariants
  program := fun key slot => onPrograms (ProgramSet.program_keeps_builtBy slot) key
  compileAll := fun key =>
    onPrograms (ProgramSet.keeps_compileAll ProgramSet.program_keeps_builtBy) key
  submit := fun _ _ _ genuine => { genuine with built := genuine.built }
  finish := fun _ genuine => { genuine with built := genuine.built }
  override := fun _ _ _ _ genuine => { genuine with built := genuine.built }
  record := fun _ _ genuine => { genuine with built := genuine.built }

theorem obtainPrograms (genuine : Genuine queue variants run) (batch : Batch) (force : Bool) :
    Genuine queue variants (Model.obtainPrograms batch force run).2 := by
  have built : ∀ key set,
      (Model.obtainPrograms batch force run).2.model.programs.get? key = some set →
        set.BuiltBy queue :=
    Model.stored_of_obtainPrograms (fun _ _ => ProgramSet.build_builtBy) genuine.built
  rcases obtains : Model.obtainPrograms batch force run with ⟨result, obtained⟩
  rw [obtains] at built
  obtain ⟨sameVariants, _, sameQueue, _⟩ := Model.of_setup (Model.setup_of_obtained obtains)
  exact ⟨sameQueue.trans genuine.onQueue, sameVariants.trans genuine.ofVariants, built⟩

theorem of_reaches {drift : σ → σ → Prop} {start : ModelRun σ} {calls : List Call}
    (initial : Genuine queue variants start) (reached : Reaches drift start calls run) :
    Genuine queue variants run := by
  induction reached with
  | start => exact initial
  | call _ call inductionHypothesis =>
      refine (lasting call.batch).perform call inductionHypothesis.onQueue inductionHypothesis.ofVariants
        (fun _ _ => inductionHypothesis) ?_
      exact fun _ => inductionHypothesis.obtainPrograms call.batch call.force
  | drift _ _ inductionHypothesis =>
      exact { inductionHypothesis with built := inductionHypothesis.built }

/-- Keeping a log changes nothing about where programs come from. -/
theorem recorded (genuine : Genuine queue variants run) (log : List (BackendEvent σ)) :
    Genuine queue.recorded variants (run.recorded log) where
  onQueue := congrArg CommandQueue.recorded genuine.onQueue
  ofVariants := genuine.ofVariants
  built := fun key set held slot program compiled =>
    CommandQueue.recorded_builds_iff.2 (genuine.built key set held slot program compiled)

end Genuine

/-! ### Launches -/

/-- The texts of kernels, fragment by fragment, behind the preamble of a device. -/
def Device.sourceOf (device : Device) (fragments : List (List Kernel)) : String :=
  device.defineExtension "cl_khr_fp64" ++ String.join (fragments.map Kernel.fragmentText)

/-- What a launch that was submitted for a batch runs, when the programs of its name are
those of the batch `source`: a launch of the plan that `variant` has for the batch, of a
program that the queue built from kernels among which those of the same variant stand. -/
structure Serving (queue : CommandQueue σ) (variants : List Variant) (source batch : Batch)
    (launch : Launch) (variant : Variant) (plan : LaunchPlan) (planned : PlannedLaunch)
    (emission : Emission) (fragments : List (List Kernel)) : Prop where
  chosen : variants[launch.variant]? = some variant
  plan_eq : variant.plan launch.variant batch = .ok plan
  planned_mem : planned ∈ plan.launches
  launch_eq : launch = Model.launchOf launch.program launch.variant planned
  emission_eq : variant.emit launch.variant source = .ok emission
  builds : queue.Builds launch.program (queue.device.sourceOf fragments)
  unique : ∀ kernel ∈ emission.kernels plan.slot, kernel ∈ fragments.flatten ∧
    ∀ other ∈ fragments.flatten, other.name = kernel.name → other = kernel

/-- The launch names this kernel, and no other one, in the source that its program was
built from. -/
structure Launch.Runs (launch : Launch) (queue : CommandQueue σ)
    (fragments : List (List Kernel)) (kernel : Kernel) : Prop where
  builds : queue.Builds launch.program (queue.device.sourceOf fragments)
  member : kernel ∈ fragments.flatten
  name : kernel.name = launch.kernel
  unique : ∀ other ∈ fragments.flatten, other.name = launch.kernel → other = kernel

theorem Serving.runs {source batch : Batch} {launch : Launch} {variant : Variant}
    {plan : LaunchPlan} {planned : PlannedLaunch} {emission : Emission}
    {fragments : List (List Kernel)} {kernel : Kernel}
    (serving : Serving queue variants source batch launch variant plan planned emission fragments)
    (member : kernel ∈ emission.kernels plan.slot) (name : kernel.name = planned.kernel) :
    launch.Runs queue fragments kernel := by
  obtain ⟨within, only⟩ := serving.unique kernel member
  have launchName : launch.kernel = planned.kernel := congrArg Launch.kernel serving.launch_eq
  rw [← name] at launchName
  refine ⟨serving.builds, within, launchName.symm, ?_⟩
  intro other listed sameName
  exact only other listed (sameName.trans launchName)

theorem supplier?_concat_eq {name : Fingerprint} {batches : List Batch} {batch source : Batch}
    (supplied : supplier? queue.context variants name (batches ++ [batch]) = some source) :
    source = answering queue variants name batches batch := by
  rw [supplier?_concat] at supplied
  unfold answering
  cases earlier : supplier? queue.context variants name batches with
  | some found =>
      rw [earlier] at supplied
      exact (Option.some.inj supplied).symm
  | none =>
      rw [earlier, Option.none_or] at supplied
      split at supplied
      · exact (Option.some.inj supplied).symm
      · cases supplied

/-- The source of a slot consists of the kernels that the emissions have for it. -/
theorem ProgramSet.assemble_source_eq (context : ContextId) (name : Fingerprint) (device : Device)
    (force : Bool) (emissions : List Emission) (slot : Slot) :
    ((assemble context name device force emissions).shell slot).source =
      device.sourceOf (kernelsOf emissions slot) := by
  rw [assemble_source, Device.sourceOf, kernelsOf, List.map_map]
  congr 3
  funext emission
  exact Emission.text_eq emission slot

/-- Every launch that an execution submits, after any history of calls, even when the
execution fails later on, serves its batch. -/
theorem serving_of_submitted {predictor : Option CostPredictor} {model : Model σ}
    {bench : Bench σ} {drift : σ → σ → Prop} {calls : List Call} {batch : Batch}
    {bypassPredictor force : Bool} {launch : Launch}
    (created : Model.create variants predictor queue = .ok model)
    (reached : Reaches drift ⟨model, bench⟩ calls run)
    (submitted : launch ∈ (Call.execute batch bypassPredictor force).submissions run) :
    ∃ name source variant plan planned emission fragments,
      batch.programName = .ok name ∧ source.programName = .ok name ∧
        source = answering queue variants name (calls.map Call.batch) batch ∧
        Serving queue variants source batch launch variant plan planned emission fragments := by
  have stocked := (Stocked.initial created).of_reaches reached
  have genuine := (Genuine.initial created).of_reaches reached
  have checked : run.model.checkContext batch = .ok () := Call.checked_of_submitted submitted
  obtain ⟨key, obtained, index, variant, plan, program, obtains, enqueues, listed⟩ :=
    Call.mem_submissions_of_execute submitted
  obtain ⟨planned, plannedMember, rfl⟩ := List.mem_map.1 listed
  have stillGenuine := (genuine.recorded []).obtainPrograms batch force
  rw [obtains] at stillGenuine
  obtain ⟨name, source, set, sourceForce, emissions, named, rfl, supplied, held, emitted,
    assembled⟩ := (stocked.recorded []).obtained checked obtains
  have chosen : variants[index]? = some variant := by
    rw [← stillGenuine.ofVariants]
    exact enqueues.chosen
  obtain ⟨emission, emissionFound, emits⟩ := ProgramSet.emission_at emitted chosen
  rw [Nat.zero_add] at emits
  obtain ⟨compiled, compiles⟩ := enqueues.compiles
  obtain ⟨reachedSets, outcome, _⟩ :=
    Model.onPrograms_of_held (ProgramSet.program obtained.model.queue plan.slot) held
  rw [compiles] at outcome
  have ran : (ProgramSet.program queue.recorded plan.slot (set, obtained.bench)).1 = .ok program := by
    rw [← stillGenuine.onQueue]
    exact (congrArg Prod.fst outcome).symm
  have builds := ProgramSet.builds_of_program (stillGenuine.built _ _ held) ran
  rw [CommandQueue.recorded_builds_iff, ← ProgramSet.uncompiled_source, assembled,
    ProgramSet.assemble_source_eq] at builds
  refine ⟨name, source, variant, plan, planned, emission, ProgramSet.kernelsOf emissions plan.slot,
    named, supplier?_eq_some supplied, supplier?_concat_eq supplied, ?_⟩
  exact {
    chosen := chosen
    plan_eq := enqueues.planned
    planned_mem := plannedMember
    launch_eq := rfl
    emission_eq := emits
    builds := builds
    unique := by
      intro kernel member
      have within : emission.kernels plan.slot ∈ ProgramSet.kernelsOf emissions plan.slot :=
        List.mem_map_of_mem (List.mem_of_getElem? emissionFound)
      refine ⟨List.mem_flatten_of_mem within member, ?_⟩
      exact fun other otherMember =>
        ProgramSet.kernel_unique emitted emissionFound member otherMember }

end KernelTuner
