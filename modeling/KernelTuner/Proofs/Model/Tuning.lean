import KernelTuner.Proofs.Model.Measuring
import KernelTuner.Proofs.Model.Succeeding

/-!
Contract: tuning on the reference platform.

Owns: models whose queue the platform knows, as it does after any history; and
`tune_isolates_variants`, by which a tuning that succeeds compiles first, waits for what is
pending, and then measures every variant on its own.
-/

set_option autoImplicit false

namespace KernelTuner

open KernelTuner.Action (Keeps)

variable {queue : CommandQueue Platform} {variants : List Variant} {batch : Batch}
  {key : ProgramKey}

/-! ### Registered queues -/

namespace ProgramSet

variable {queues : Table QueueId QueueState}

/-- The states of a set on a platform with these queues. -/
def OnQueues (queues : Table QueueId QueueState) (state : ProgramSet × Bench Platform) : Prop :=
  state.2.backend.queues = queues

theorem program_keeps_queues (onPlatform : queue.OnPlatform) (slot : Slot) :
    Keeps (OnQueues queues) (program queue slot) :=
  fun state holds => (Shell.program_queues onPlatform (state.1.shell slot) state.2).trans holds

end ProgramSet

/-- A model of `variants` on a queue that its platform knows. -/
structure Connected (queue : CommandQueue Platform) (variants : List Variant)
    (run : ModelRun Platform) : Prop where
  onQueue : run.model.queue = queue
  ofVariants : run.model.variants = variants
  registered : run.bench.backend.queues.get? queue.id ≠ none

namespace Connected

variable {run : ModelRun Platform}

theorem onPrograms {α : Type} {step : Action (ProgramSet × Bench Platform) α}
    (kept : ∀ queues, Keeps (ProgramSet.OnQueues queues) step) (key : ProgramKey) :
    Keeps (Connected queue variants) (Model.onPrograms key step) := by
  refine Model.onPrograms_keeps step fun run set reached connected _ _ => ?_
  have sameQueues : (step (set, run.bench)).2.2.backend.queues = run.bench.backend.queues :=
    kept _ (set, run.bench) rfl
  refine ⟨connected.onQueue, connected.ofVariants, ?_⟩
  rw [sameQueues]
  exact connected.registered

theorem lasting (batch : Batch) (onPlatform : queue.OnPlatform) :
    Lasting queue variants batch (Connected queue variants) where
  onQueue := fun _ connected => connected.onQueue
  ofVariants := fun _ connected => connected.ofVariants
  program := fun key slot =>
    onPrograms (fun _ => ProgramSet.program_keeps_queues onPlatform slot) key
  compileAll := fun key =>
    onPrograms (fun _ => ProgramSet.keeps_compileAll (ProgramSet.program_keeps_queues onPlatform)) key
  submit := by
    intro launch _ run connected
    rw [onPlatform.submit]
    exact { connected with
      registered := (Platform.Step.submit queue.id launch).registered connected.registered }
  finish := by
    intro run connected
    rw [onPlatform.finish]
    exact { connected with
      registered := (Platform.Step.finish queue.id).registered connected.registered }
  override := fun _ _ _ _ connected => { connected with registered := connected.registered }
  record := fun _ _ connected => { connected with registered := connected.registered }

theorem obtainPrograms (connected : Connected queue variants run) (batch : Batch) (force : Bool) :
    Connected queue variants (Model.obtainPrograms batch force run).2 := by
  rcases obtains : Model.obtainPrograms batch force run with ⟨result, obtained⟩
  obtain ⟨sameVariants, _, sameQueue, _⟩ := Model.of_setup (Model.setup_of_obtained obtains)
  refine ⟨sameQueue.trans connected.onQueue, sameVariants.trans connected.ofVariants, ?_⟩
  show obtained.bench.backend.queues.get? queue.id ≠ none
  rw [Model.backend_of_obtained obtains]
  exact connected.registered

/-- A platform never forgets a queue. -/
theorem of_reaches {start : ModelRun Platform} {calls : List Call} (onPlatform : queue.OnPlatform)
    (initial : Connected queue variants start) (reached : Reaches Platform.Step start calls run) :
    Connected queue variants run := by
  induction reached with
  | start => exact initial
  | call _ call inductionHypothesis =>
      refine (lasting call.batch onPlatform).perform call inductionHypothesis.onQueue
        inductionHypothesis.ofVariants (fun _ _ => inductionHypothesis) ?_
      exact fun _ => inductionHypothesis.obtainPrograms call.batch call.force
  | drift _ moved inductionHypothesis =>
      exact { inductionHypothesis with
        registered := moved.registered inductionHypothesis.registered }

end Connected

/-! ### Tunings -/

/-- Once a tuning has compiled all programs and has waited, the model is idle. -/
theorem Idle.start {batches : List Batch}
    {run obtained compiled drained : ModelRun (Recorded Platform)}
    (onPlatform : queue.OnPlatform) (stocked : Stocked queue.recorded variants batches run)
    (registered : run.platform.queues.get? queue.id ≠ none)
    (checked : run.model.checkContext batch = .ok ())
    (obtains : Model.obtainPrograms batch false run = (.ok key, obtained))
    (compiles : Model.onPrograms key (ProgramSet.compileAll run.model.queue) obtained =
      (.ok (), compiled))
    (drains : Model.finish compiled = (.ok (), drained)) :
    Idle queue variants key drained ∧
      Compiles run.bench.backend compiled.bench.backend ∧
      drained.log = compiled.log ++ [⟨.finish, compiled.platform⟩] ∧
      (drained.platform.queue queue.id).history = (run.platform.queue queue.id).history := by
  obtain ⟨name, source, set, _, emissions, _, _, _, held, emitted, assembled⟩ :=
    stocked.obtained checked obtains
  obtain ⟨sameVariants, _, sameQueue, _⟩ := Model.of_setup (Model.setup_of_obtained obtains)
  have sameBackend := Model.backend_of_obtained obtains
  have filled := ProgramSet.filled_of_emitted emitted assembled
  rw [stocked.onQueue] at compiles
  obtain ⟨reached, outcome, lookup⟩ :=
    Model.onPrograms_of_held (ProgramSet.compileAll queue.recorded) held
  rcases ran : ProgramSet.compileAll queue.recorded (set, obtained.bench) with
    ⟨result, compiledSet, bench⟩
  rw [ran] at outcome lookup
  rw [compiles] at outcome
  obtain ⟨succeeded, compiledRun⟩ := Prod.mk.inj outcome
  obtain rfl : result = .ok () := succeeded.symm
  obtain ⟨requests, prepared, uncompiled⟩ := ProgramSet.compileAll_prepares onPlatform ran
  have benchSame : compiled.bench = bench := congrArg ModelRun.bench compiledRun
  rw [sameBackend, ← benchSame] at requests
  have onQueue : compiled.model.queue = queue.recorded := by
    rw [compiledRun]
    exact sameQueue.trans stocked.onQueue
  have sameQueues : compiled.platform.queues = run.platform.queues := requests.queues
  have stillRegistered : compiled.platform.queues.get? queue.id ≠ none := by
    rw [sameQueues]
    exact registered
  obtain ⟨sameModel, registeredAfter, sameHistory, emptied, waited⟩ :=
    Model.finish_done onPlatform onQueue stillRegistered drains
  refine ⟨⟨?_, ?_, registeredAfter, ?_, emptied⟩, requests, waited, ?_⟩
  · rw [sameModel, onQueue]
  · rw [sameModel, compiledRun]
    exact sameVariants.trans stocked.ofVariants
  · rw [sameModel, compiledRun]
    exact ⟨compiledSet, (lookup key).trans (if_pos rfl), filled.congr uncompiled, prepared⟩
  · rw [sameHistory, Platform.queue, sameQueues, Platform.queue]

/-- Where only compile requests come before other calls, none comes behind a launch. -/
theorem compiles_first {compiles others : List (BackendEvent Platform)}
    (requests : ∀ event ∈ compiles, ∃ request, event.call = .compile request)
    (uncompiled : ∀ event ∈ others, ∀ request, event.call ≠ .compile request) :
    (compiles ++ others).Pairwise fun earlier later =>
      ∀ launch request, earlier.call = .submit launch → later.call ≠ .compile request := by
  have unsubmitted {event : BackendEvent Platform} (member : event ∈ compiles) (launch : Launch) :
      event.call ≠ .submit launch := by
    obtain ⟨request, same⟩ := requests event member
    rw [same]
    exact BackendCall.noConfusion
  refine List.pairwise_append.2 ⟨?_, ?_, ?_⟩
  · refine List.pairwise_of_forall_mem_list ?_
    exact fun _ member _ _ launch _ submitted => absurd submitted (unsubmitted member launch)
  · refine List.pairwise_of_forall_mem_list ?_
    exact fun _ _ later member _ request _ => uncompiled later member request
  · exact fun _ member _ _ launch _ submitted => absurd submitted (unsubmitted member launch)

/-- What a tuning that comes to `report` asks of the platform: it compiles, it waits for
what is pending, and it measures the variants one by one. -/
structure TunesInIsolation (id : QueueId) (variants : List Variant) (batch : Batch)
    (report : TuneReport) (run after : ModelRun Platform)
    (compiles : List (BackendEvent Platform)) (waited : BackendEvent Platform)
    (measurements : List Measurement) : Prop where
  events : (Call.tune batch).events run =
    compiles ++ waited :: measurements.flatMap Measurement.events
  /-- Programs are compiled, and then waited, with what was pending before the tuning. -/
  compiling : ∀ event ∈ compiles, (∃ request, event.call = .compile request) ∧
    event.before.queues = run.bench.backend.queues
  waiting : waited.call = .finish ∧ waited.before.queues = run.bench.backend.queues
  counted : measurements.length = variants.length
  isolates : ∀ (index : Nat) (measurement : Measurement),
    measurements[index]? = some measurement → measurement.Isolates id variants batch index
  /-- While a variant is measured, only launches of it are pending. -/
  unmixed : ∀ (index : Nat) (measurement : Measurement),
    measurements[index]? = some measurement → ∀ event ∈ measurement.events,
      ∀ record ∈ (event.before.queue id).pending, record.variant = index
  /-- Nothing is compiled once a variant has been launched. -/
  compilesFirst : ((Call.tune batch).events run).Pairwise fun earlier later =>
    ∀ launch request, earlier.call = .submit launch → later.call ≠ .compile request
  drained : (after.bench.backend.queue id).pending = []
  history : (after.bench.backend.queue id).history = (run.bench.backend.queue id).history ++
    (measurements.flatMap Measurement.launches).map QueueState.recordOf
  durations : report.durations.length = variants.length
  best : IsLeast {place | Shortest report.durations place} report.best

/-- After any history of calls, with other work done on the platform in between, a tuning
that succeeds compiles, waits for what is pending, and then measures every variant on its
own. -/
theorem tune_isolates_variants {platform : Platform} {id : QueueId} {variants : List Variant}
    {predictor : Option CostPredictor} {model : Model Platform} {profile : Profile}
    {calls : List Call} {run after : ModelRun Platform} {batch : Batch} {report : TuneReport}
    (registered : platform.queues.get? id ≠ none)
    (created : Model.create variants predictor (platform.commandQueue id) = .ok model)
    (reached : Reaches Platform.Step ⟨model, ⟨platform, profile⟩⟩ calls run)
    (tuned : Model.tune batch run = (.ok report, after)) :
    ∃ compiles waited measurements,
      TunesInIsolation id variants batch report run after compiles waited measurements := by
  have onPlatform := platform.commandQueue_onPlatform id
  have stocked := (Stocked.initial created).of_reaches reached
  obtain ⟨nonempty, rfl⟩ := Model.eq_of_create created
  have connected := Connected.of_reaches onPlatform ⟨rfl, rfl, registered⟩ reached
  have recorded := Model.tune_recorded batch run
  rw [tuned] at recorded
  obtain ⟨checked, key, obtained, baseline, compiled, drained, measured, obtains, _, _, compiles,
    drains, measures, best, ended⟩ := Model.tune_succeeds_iff.1 recorded
  have ofVariants : (run.recorded []).model.variants = variants := connected.ofVariants
  rw [ofVariants] at measures
  obtain ⟨idle, ⟨sameQueues, requests, requestsNoted, requestsMade⟩, waited, sameHistory⟩ :=
    Idle.start onPlatform (stocked.recorded []) connected.registered checked obtains compiles drains
  obtain ⟨idleAfter, measurements, counted, isolates, all⟩ := idle.measureFrom onPlatform measures
  have durations := Lasting.measureFrom_length _ _ _ _ _ _ _ measures
  have afterPlatform : after.bench.backend = measured.platform :=
    congrArg (fun run => run.bench.backend.backend) ended
  have events : (Call.tune batch).events run =
      requests ++ ⟨.finish, compiled.platform⟩ :: measurements.flatMap Measurement.events := by
    have logged : (Call.tune batch).events run = measured.log :=
      congrArg (fun run => run.bench.backend.log) ended
    rw [logged, all.logged, waited, ModelRun.log, requestsNoted]
    simp [ModelRun.recorded, Bench.recorded]
  have numbered {index : Nat} {measurement : Measurement}
      (found : measurements[index]? = some measurement) :
      measurement.Isolates id variants batch index := by
    have isolated := isolates index measurement found
    rwa [Nat.zero_add] at isolated
  have uncompiled : ∀ event ∈ ⟨.finish, compiled.platform⟩ ::
      measurements.flatMap Measurement.events, ∀ request, event.call ≠ .compile request := by
    intro event member
    rcases List.mem_cons.1 member with rfl | noted
    · exact fun _ => BackendCall.noConfusion
    · obtain ⟨measurement, listed, within⟩ := List.mem_flatMap.1 noted
      obtain ⟨index, found⟩ := List.mem_iff_getElem?.1 listed
      exact (numbered found).call_ne_compile within
  refine ⟨requests, ⟨.finish, compiled.platform⟩, measurements, ?_⟩
  exact {
    events := events
    compiling := requestsMade
    waiting := ⟨rfl, sameQueues⟩
    counted := counted
    isolates := fun _ _ found => numbered found
    unmixed := fun _ _ found _ member => (numbered found).pending_variant member
    compilesFirst := by
      rw [events]
      exact compiles_first (fun event member => (requestsMade event member).1) uncompiled
    drained := by
      rw [afterPlatform]
      exact idleAfter.drained
    history := by
      rw [afterPlatform]
      exact all.history.trans (congrArg (· ++ _) sameHistory)
    durations := durations
    best := by
      rw [best]
      exact Model.fastest_isLeast (by omega) }

/-- A model of inner products is tuned while the launches of an execution are pending. -/
theorem folding_tunes_in_isolation :
    ∃ report after compiles waited measurements,
      Model.tune (.dot .f32) ((Call.execute (.dot .f32) false false).perform .folding) =
          (.ok report, after) ∧
        TunesInIsolation ⟨1⟩ [.folding] (.dot .f32) report
          ((Call.execute (.dot .f32) false false).perform .folding) after compiles waited
          measurements := by
  have onPlatform := Platform.single.commandQueue_onPlatform ⟨1⟩
  have accepted : Variant.ofProfile .reduction [1, 64, 16, 1] = .ok .folding := rfl
  have sized : ∀ variant ∈ [Variant.folding], variant.Sized :=
    List.forall_mem_singleton.2 (Variant.ofProfile_sized accepted)
  have reached : Reaches Platform.Step .folding [.execute (.dot .f32) false false]
      ((Call.execute (.dot .f32) false false).perform .folding) := .call .start _
  have accepting : Reaches (Platform.Accepting ⟨1⟩) .folding [.execute (.dot .f32) false false]
      ((Call.execute (.dot .f32) false false).perform .folding) := .call .start _
  have nonempty : 0 < [Variant.folding].length := Nat.one_pos
  have working := (Working.initial folding_created folding_ready).of_reaches onPlatform
    nonempty accepting
  obtain ⟨emissions, emitted⟩ := Batch.dot_emitted .f32
  obtain ⟨shape, measured⟩ : ∃ shape, Variant.folding.sizes (.dot .f32) = .ok shape := ⟨_, rfl⟩
  have planned : ∀ (place : Nat) (variant : Variant), [Variant.folding][place]? = some variant →
      ∃ plan, variant.plan place (.dot .f32) = .ok plan := by
    intro place variant found
    cases place with
    | zero =>
        cases found
        exact ⟨_, rfl⟩
    | succ place => cases found
  obtain ⟨report, after, tuned⟩ := working.tune_ok onPlatform sized Batch.dot_countable rfl
    Batch.dot_programName emitted rfl measured planned
  have registered : Platform.single.queues.get? ⟨1⟩ ≠ none := Option.some_ne_none _
  obtain ⟨compiles, waited, measurements, tunes⟩ :=
    tune_isolates_variants registered folding_created reached tuned
  exact ⟨report, after, compiles, waited, measurements, tuned, tunes⟩

end KernelTuner
