import KernelTuner.Proofs.Model.Execution
import KernelTuner.Proofs.Model.Submitting
import KernelTuner.Proofs.Program.Prepared
import Mathlib.Order.Bounds.Basic

/-!
Contract: measuring variants on the reference platform.

Owns: the fastest of some durations; what the platform has noted when launches were
accepted and waited for; models that are idle, with all of their programs compiled; and
`Idle.measureFrom`, by which every variant is measured with nothing else pending.
-/

set_option autoImplicit false

namespace KernelTuner

open KernelTuner.Action (Keeps Ends)

/-! ### The fastest -/

/-- A place whose duration is not above any other. -/
def Shortest (durations : List Nat) (place : Nat) : Prop :=
  ∃ duration, durations[place]? = some duration ∧ ∀ other ∈ durations, duration ≤ other

namespace Model

/-- Behind the durations in `seen`, of which the first shortest is at `best`, the search
finds the first shortest of all. -/
theorem fastestFrom_isLeast {seen : List Nat} {best bestTime : Nat}
    (found : seen[best]? = some bestTime) (least : ∀ time ∈ seen, bestTime ≤ time)
    (first : ∀ earlier time, earlier < best → seen[earlier]? = some time → bestTime < time)
    (rest : List Nat) :
    IsLeast {place | Shortest (seen ++ rest) place}
      (fastestFrom seen.length best bestTime rest) := by
  induction rest generalizing seen best bestTime with
  | nil =>
      rw [List.append_nil]
      refine ⟨⟨bestTime, found, least⟩, ?_⟩
      rintro other ⟨time, otherFound, otherLeast⟩
      by_contra before
      have above := first other time (Nat.lt_of_not_le before) otherFound
      have below := otherLeast bestTime (List.mem_of_getElem? found)
      omega
  | cons time rest inductionHypothesis =>
      have bestInside := (List.getElem?_eq_some_iff.1 found).1
      have counted : (seen ++ [time]).length = seen.length + 1 := List.length_append
      have earlierSeen {earlier other : Nat} (inside : earlier < seen.length)
          (otherFound : (seen ++ [time])[earlier]? = some other) : seen[earlier]? = some other := by
        rwa [List.getElem?_append_left inside] at otherFound
      have step {place placeTime : Nat} (placeFound : (seen ++ [time])[place]? = some placeTime)
          (placeLeast : ∀ other ∈ seen ++ [time], placeTime ≤ other)
          (placeFirst : ∀ earlier other, earlier < place →
            (seen ++ [time])[earlier]? = some other → placeTime < other) :
          IsLeast {place | Shortest (seen ++ time :: rest) place}
            (fastestFrom (seen.length + 1) place placeTime rest) := by
        have isLeast := inductionHypothesis placeFound placeLeast placeFirst
        rwa [counted, List.append_assoc, List.singleton_append] at isLeast
      unfold fastestFrom
      split
      · next shorter =>
          refine step List.getElem?_concat_length ?_ ?_
          · intro other member
            rcases List.mem_append.1 member with earlier | last
            · have above := least other earlier
              omega
            · rw [List.mem_singleton.1 last]
          · intro earlier other before otherFound
            have above := least other (List.mem_of_getElem? (earlierSeen before otherFound))
            omega
      · next longer =>
          refine step ?_ ?_ ?_
          · rw [List.getElem?_append_left bestInside, found]
          · intro other member
            rcases List.mem_append.1 member with earlier | last
            · exact least other earlier
            · rw [List.mem_singleton.1 last]
              omega
          · intro earlier other before otherFound
            exact first earlier other before
              (earlierSeen (before.trans bestInside) otherFound)

/-- The fastest is the lowest place of a shortest duration. -/
theorem fastest_isLeast {durations : List Nat} (nonempty : 0 < durations.length) :
    IsLeast {place | Shortest durations place} (fastest durations) := by
  cases durations with
  | nil => exact absurd nonempty (Nat.lt_irrefl 0)
  | cons time rest =>
      have alone : ∀ other ∈ [time], time ≤ other :=
        List.forall_mem_singleton.2 (Nat.le_refl time)
      have first : ∀ earlier other, earlier < 0 → [time][earlier]? = some other → time < other :=
        fun _ _ before => absurd before (Nat.not_lt_zero _)
      have found : [time][0]? = some time := rfl
      exact fastestFrom_isLeast found alone first rest

end Model

/-! ### Calls of the platform -/

/-- The platform of a run. -/
def ModelRun.platform (run : ModelRun (Recorded Platform)) : Platform := run.bench.backend.backend

/-- The log of a run. -/
def ModelRun.log (run : ModelRun (Recorded Platform)) : List (BackendEvent Platform) :=
  run.bench.backend.log

variable {queue : CommandQueue Platform} {variants : List Variant} {batch : Batch}
  {key : ProgramKey} {index : Nat} {run after : ModelRun (Recorded Platform)}

namespace Model

/-- A launch that has been accepted was noted and has joined the queue. -/
theorem submit_accepted (onPlatform : queue.OnPlatform) {launch : Launch}
    (registered : run.platform.queues.get? queue.id ≠ none)
    (submitted : onBackend (queue.recorded.submit launch) run = (.ok (), after)) :
    after.model = run.model ∧ after.platform.queues.get? queue.id ≠ none ∧
      run.platform.Appended queue.id [QueueState.recordOf launch] after.platform ∧
      after.log = run.log ++ [⟨.submit launch, run.platform⟩] := by
  have accepted : (Platform.submit queue.id launch run.platform).1 = .ok () := by
    have result := congrArg Prod.fst submitted
    simp only [onBackend, CommandQueue.recorded, Recorded.note, onPlatform.submit] at result
    rw [ModelRun.platform]
    cases outcome : (Platform.submit queue.id launch run.bench.backend.backend).1 with
    | ok => rfl
    | error cause =>
        rw [outcome] at result
        cases result
  have moved : after.platform = (Platform.submit queue.id launch run.platform).2 := by
    have reached := congrArg (fun ended => ended.2.bench.backend.backend) submitted
    simp only [onBackend, CommandQueue.recorded, Recorded.note, onPlatform.submit] at reached
    exact reached.symm
  have joined := Platform.queue_submit_of_accepted registered accepted
  refine ⟨?_, ?_, ⟨?_, ?_⟩, ?_⟩
  · exact (congrArg (fun ended => ended.2.model) submitted).symm
  · rw [moved]
    exact (Platform.Step.submit queue.id launch).registered registered
  · rw [moved, joined]
  · rw [moved, joined]
  · exact (congrArg (fun ended => ended.2.bench.backend.log) submitted).symm

/-- Launches that have all been accepted were noted in order, and each has found those
before it pending. -/
theorem submitAll_accepted (onPlatform : queue.OnPlatform)
    (registered : run.platform.queues.get? queue.id ≠ none) {launches : List Launch}
    (submitted : submitAll queue.recorded launches run = (.ok (), after)) :
    after.model = run.model ∧ after.platform.queues.get? queue.id ≠ none ∧
      run.platform.Appended queue.id (launches.map QueueState.recordOf) after.platform ∧
      ∃ events, after.log = run.log ++ events ∧
        events.map BackendEvent.call = launches.map BackendCall.submit ∧
        ∀ (place : Nat) (event : BackendEvent Platform), events[place]? = some event →
          (event.before.queue queue.id).pending = (run.platform.queue queue.id).pending ++
            (launches.take place).map QueueState.recordOf := by
  induction launches generalizing run with
  | nil =>
      cases submitted
      exact ⟨rfl, registered, .of_queues rfl, [], (List.append_nil _).symm, rfl, nofun⟩
  | cons launch rest inductionHypothesis =>
      obtain ⟨_, next, first, others⟩ := Action.bind_succeeds_iff.1 submitted
      obtain ⟨sameModel, stillRegistered, joined, noted⟩ :=
        submit_accepted onPlatform registered first
      obtain ⟨stillSame, registeredAfter, othersJoined, events, othersNoted, calls, found⟩ :=
        inductionHypothesis stillRegistered others
      refine ⟨stillSame.trans sameModel, registeredAfter, joined.trans othersJoined,
        ⟨.submit launch, run.platform⟩ :: events, ?_, ?_, ?_⟩
      · rw [othersNoted, noted, List.append_assoc]
        rfl
      · rw [List.map_cons, calls]
        rfl
      · intro place event present
        cases place with
        | zero =>
            cases present
            exact (List.append_nil _).symm
        | succ place =>
            rw [found place event present, joined.pending, List.append_assoc]
            rfl

/-- A queue that has been waited for has nothing pending. -/
theorem finish_done (onPlatform : queue.OnPlatform) (onQueue : run.model.queue = queue.recorded)
    (registered : run.platform.queues.get? queue.id ≠ none)
    (finished : finish run = (.ok (), after)) :
    after.model = run.model ∧ after.platform.queues.get? queue.id ≠ none ∧
      (after.platform.queue queue.id).history = (run.platform.queue queue.id).history ∧
      (after.platform.queue queue.id).pending = [] ∧
      after.log = run.log ++ [⟨.finish, run.platform⟩] := by
  have unfolded : finish run = onBackend run.model.queue.finish run := rfl
  rw [unfolded, onQueue] at finished
  have moved : after.platform = (Platform.finish queue.id run.platform).2 := by
    have reached := congrArg (fun ended => ended.2.bench.backend.backend) finished
    simp only [onBackend, CommandQueue.recorded, Recorded.note, onPlatform.finish] at reached
    exact reached.symm
  have emptied := Platform.queue_finish registered
  refine ⟨?_, ?_, ?_, ?_, ?_⟩
  · exact (congrArg (fun ended => ended.2.model) finished).symm
  · rw [moved]
    exact (Platform.Step.finish queue.id).registered registered
  · rw [moved, emptied]
    rfl
  · rw [moved, emptied]
    rfl
  · exact (congrArg (fun ended => ended.2.bench.backend.log) finished).symm

end Model

/-! ### Measurements -/

/-- The launches of one variant and the events of measuring it. -/
structure Measurement where
  launches : List Launch
  events : List (BackendEvent Platform)

/-- The launches are those of variant number `index`. They are submitted one after another
and then waited for, and every one finds only those before it pending. -/
structure Measurement.Isolates (measurement : Measurement) (id : QueueId)
    (variants : List Variant) (batch : Batch) (index : Nat) : Prop where
  launched : ∃ variant plan program, variants[index]? = some variant ∧
    variant.plan index batch = .ok plan ∧
    measurement.launches = plan.launches.map (Model.launchOf program index)
  calls : measurement.events.map BackendEvent.call =
    measurement.launches.map BackendCall.submit ++ [.finish]
  pending : ∀ (place : Nat) (event : BackendEvent Platform),
    measurement.events[place]? = some event →
      (event.before.queue id).pending =
        (measurement.launches.take place).map QueueState.recordOf

/-- Measuring compiles nothing. -/
theorem Measurement.Isolates.call_ne_compile {measurement : Measurement} {id : QueueId}
    (isolates : measurement.Isolates id variants batch index) {event : BackendEvent Platform}
    (member : event ∈ measurement.events) (request : CompileRequest) :
    event.call ≠ .compile request := by
  have listed : event.call ∈ measurement.launches.map BackendCall.submit ++ [.finish] := by
    rw [← isolates.calls]
    exact List.mem_map_of_mem member
  rcases List.mem_append.1 listed with submitted | finished
  · obtain ⟨launch, _, same⟩ := List.mem_map.1 submitted
    rw [← same]
    exact BackendCall.noConfusion
  · rw [List.mem_singleton.1 finished]
    exact BackendCall.noConfusion

/-- While a variant is measured, only launches of it are pending. -/
theorem Measurement.Isolates.pending_variant {measurement : Measurement} {id : QueueId}
    (isolates : measurement.Isolates id variants batch index) {event : BackendEvent Platform}
    (member : event ∈ measurement.events) :
    ∀ record ∈ (event.before.queue id).pending, record.variant = index := by
  obtain ⟨place, present⟩ := List.mem_iff_getElem?.1 member
  obtain ⟨variant, plan, program, _, _, same⟩ := isolates.launched
  intro record recorded
  rw [isolates.pending place event present] at recorded
  obtain ⟨launch, taken, rfl⟩ := List.mem_map.1 recorded
  have launched := List.mem_of_mem_take taken
  rw [same] at launched
  obtain ⟨planned, _, rfl⟩ := List.mem_map.1 launched
  rfl

/-- The measurements are all that has been done between two runs. -/
structure Measured (id : QueueId) (measurements : List Measurement)
    (run after : ModelRun (Recorded Platform)) : Prop where
  logged : after.log = run.log ++ measurements.flatMap Measurement.events
  history : (after.platform.queue id).history = (run.platform.queue id).history ++
    (measurements.flatMap Measurement.launches).map QueueState.recordOf

theorem Measured.cons {id : QueueId} {measurement : Measurement} {others : List Measurement}
    {between : ModelRun (Recorded Platform)} (first : Measured id [measurement] run between)
    (rest : Measured id others between after) : Measured id (measurement :: others) run after := by
  constructor
  · rw [rest.logged, first.logged, List.append_assoc]
    simp only [List.flatMap_cons, List.flatMap_nil, List.append_nil]
  · rw [rest.history, first.history, List.append_assoc]
    simp only [List.flatMap_cons, List.flatMap_nil, List.append_nil, List.map_append]

/-- A model of `variants` between two measurements: all programs under `key` have been
compiled, and nothing is pending. -/
structure Idle (queue : CommandQueue Platform) (variants : List Variant) (key : ProgramKey)
    (run : ModelRun (Recorded Platform)) : Prop where
  onQueue : run.model.queue = queue.recorded
  ofVariants : run.model.variants = variants
  registered : run.platform.queues.get? queue.id ≠ none
  stored : ∃ set, run.model.programs.get? key = some set ∧ set.Filled variants ∧ set.Prepared
  drained : (run.platform.queue queue.id).pending = []

namespace Idle

/-- An idle model has the program of every plan, and asking for it changes nothing. -/
theorem program (idle : Idle queue variants key run) {variant : Variant} {plan : LaunchPlan}
    (found : variants[index]? = some variant) (planned : variant.plan index batch = .ok plan)
    {program : Program} {compiled : ModelRun (Recorded Platform)}
    (asked : Model.onPrograms key (ProgramSet.program run.model.queue plan.slot) run =
      (.ok program, compiled)) :
    Idle queue variants key compiled ∧ compiled.bench = run.bench := by
  obtain ⟨set, held, filled, prepared⟩ := idle.stored
  have holdsKernels := filled index variant plan.slot found (Variant.plan_slot_used planned)
  obtain ⟨stored, ready⟩ : ∃ stored, ProgramSet.program run.model.queue plan.slot
      (set, run.bench) = (.ok stored, set, run.bench) :=
    ProgramSet.program_of_prepared prepared holdsKernels run.bench
  obtain ⟨reached, outcome, lookup⟩ :=
    Model.onPrograms_of_held (ProgramSet.program run.model.queue plan.slot) held
  rw [ready] at outcome lookup
  rw [asked] at outcome
  cases outcome
  refine ⟨⟨idle.onQueue, idle.ofVariants, idle.registered, ?_, idle.drained⟩, rfl⟩
  exact ⟨set, (lookup key).trans (if_pos rfl), filled, prepared⟩

/-- Measuring an idle model isolates the variant, and leaves the model idle. -/
theorem measure (onPlatform : queue.OnPlatform) (idle : Idle queue variants key run)
    {duration : Nat} (measured : Model.measure key index batch run = (.ok duration, after)) :
    Idle queue variants key after ∧
      ∃ measurement : Measurement, measurement.Isolates queue.id variants batch index ∧
        Measured queue.id [measurement] run after := by
  obtain ⟨enqueued, queued, finished, _⟩ := Model.measure_succeeds_iff.1 measured
  obtain ⟨variant, plan, program, compiled, found, planned, asked, submitted⟩ :=
    Model.enqueue_succeeds_iff.1 queued
  rw [idle.ofVariants] at found
  obtain ⟨compiledIdle, sameBench⟩ := idle.program found planned asked
  rw [idle.onQueue] at submitted
  obtain ⟨enqueuedModel, registered, appended, events, noted, calls, pending⟩ :=
    Model.submitAll_accepted onPlatform compiledIdle.registered submitted
  obtain ⟨sameModel, stillRegistered, sameHistory, drained, waited⟩ :=
    Model.finish_done onPlatform (by rw [enqueuedModel, compiledIdle.onQueue]) registered finished
  have afterModel : after.model = compiled.model := sameModel.trans enqueuedModel
  have sameLog : compiled.log = run.log := congrArg (fun bench => bench.backend.log) sameBench
  have samePlatform : compiled.platform = run.platform :=
    congrArg (fun bench => bench.backend.backend) sameBench
  rw [samePlatform] at appended pending
  rw [idle.drained] at pending
  have counted : events.length = (plan.launches.map (Model.launchOf program index)).length := by
    have lengths := congrArg List.length calls
    rwa [List.length_map, List.length_map] at lengths
  refine ⟨⟨?_, ?_, stillRegistered, ?_, drained⟩,
    ⟨plan.launches.map (Model.launchOf program index),
      events ++ [⟨.finish, enqueued.platform⟩]⟩, ⟨?_, ?_, ?_⟩, ⟨?_, ?_⟩⟩
  · rw [afterModel, compiledIdle.onQueue]
  · rw [afterModel, compiledIdle.ofVariants]
  · rw [afterModel]
    exact compiledIdle.stored
  · exact ⟨variant, plan, program, found, planned, rfl⟩
  · rw [List.map_append, calls]
    rfl
  · intro place event present
    rw [List.getElem?_append] at present
    split at present
    · exact pending place event present
    · next outside =>
        -- The last event is the wait, which finds all launches of the variant.
        obtain ⟨last, rfl⟩ := List.getElem?_eq_some_iff.1 present
        have atEnd : (plan.launches.map (Model.launchOf program index)).length ≤ place := by omega
        rw [List.getElem_singleton, List.take_of_length_le atEnd, appended.pending, idle.drained]
        rfl
  · rw [waited, noted, sameLog, List.append_assoc]
    simp only [List.flatMap_cons, List.flatMap_nil, List.append_nil]
  · rw [sameHistory, appended.history]
    simp only [List.flatMap_cons, List.flatMap_nil, List.append_nil]

/-- Measuring several variants isolates each of them. -/
theorem measureFrom (onPlatform : queue.OnPlatform) (idle : Idle queue variants key run)
    {count : Nat} {durations : List Nat}
    (measured : Model.measureFrom key batch index count run = (.ok durations, after)) :
    Idle queue variants key after ∧
      ∃ measurements : List Measurement, measurements.length = count ∧
        (∀ (place : Nat) (measurement : Measurement), measurements[place]? = some measurement →
          measurement.Isolates queue.id variants batch (index + place)) ∧
        Measured queue.id measurements run after := by
  induction count generalizing index run durations with
  | zero =>
      cases measured
      exact ⟨idle, [], rfl, nofun, ⟨(List.append_nil _).symm, (List.append_nil _).symm⟩⟩
  | succ count inductionHypothesis =>
      obtain ⟨_, others, between, first, rest, _⟩ :=
        Model.measureFrom_succ_succeeds_iff.1 measured
      obtain ⟨stillIdle, measurement, isolates, firstMeasured⟩ := idle.measure onPlatform first
      obtain ⟨idleAfter, measurements, counted, othersIsolate, restMeasured⟩ :=
        inductionHypothesis stillIdle rest
      refine ⟨idleAfter, measurement :: measurements, congrArg Nat.succ counted, ?_,
        firstMeasured.cons restMeasured⟩
      intro place found present
      cases place with
      | zero =>
          cases present
          exact isolates
      | succ place =>
          rw [Nat.add_comm place 1, ← Nat.add_assoc]
          exact othersIsolate place found present

end Idle

end KernelTuner
