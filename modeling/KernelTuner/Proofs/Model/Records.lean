import KernelTuner.Proofs.Model.Steps
import KernelTuner.Proofs.Program.Compiled

/-!
Contract: the launch records that executions leave on a platform.

Owns: that an execution adds records to the queues and takes none away, whether it
succeeds or not; and that every record it adds is one of a launch that a variant plans
for the batch, of a program that is stored for it.

Does not own: which queue gets the records.
-/

set_option autoImplicit false

namespace KernelTuner

open KernelTuner.Action (Keeps Ends)

/-! ### Histories of queues -/

namespace Platform

/-- Every queue keeps its history, and gains records of one kind only. -/
def Gains (kind : LaunchRecord → Prop) (before after : Platform) : Prop :=
  ∀ id, ∃ records, (after.queue id).history = (before.queue id).history ++ records ∧
    ∀ record ∈ records, kind record

namespace Gains

variable {kind : LaunchRecord → Prop} {before between after : Platform}

theorem of_queues (same : after.queues = before.queues) : Gains kind before after := by
  intro id
  have sameQueue : after.queue id = before.queue id := by
    rw [queue, same, queue]
  exact ⟨[], by rw [sameQueue, List.append_nil], List.forall_mem_nil _⟩

theorem trans (first : Gains kind before between) (second : Gains kind between after) :
    Gains kind before after := by
  intro id
  obtain ⟨early, earlyGained, earlyKind⟩ := first id
  obtain ⟨late, lateGained, lateKind⟩ := second id
  refine ⟨early ++ late, by rw [lateGained, earlyGained, List.append_assoc], ?_⟩
  exact fun record member => (List.mem_append.1 member).elim (earlyKind record) (lateKind record)

theorem imp {other : LaunchRecord → Prop} (gains : Gains kind before after)
    (weaker : ∀ record, kind record → other record) : Gains other before after := by
  intro id
  obtain ⟨records, gained, ofKind⟩ := gains id
  exact ⟨records, gained, fun record member => weaker record (ofKind record member)⟩

/-- A launch is recorded, or its queue stays as it is. -/
theorem submit (platform : Platform) (id : QueueId) (launch : Launch) :
    Gains (· = QueueState.recordOf launch) platform (platform.submit id launch).2 := by
  intro other
  have recorded : ∃ records, ((platform.queue id).submit launch).2.history =
      (platform.queue id).history ++ records ∧
        ∀ record ∈ records, record = QueueState.recordOf launch := by
    unfold QueueState.submit
    split
    · exact ⟨[], (List.append_nil _).symm, List.forall_mem_nil _⟩
    · exact ⟨[QueueState.recordOf launch], rfl, List.forall_mem_singleton.2 rfl⟩
  have changed := Table.get?_modify platform.queues id other
    (fun _ => ((platform.queue id).submit launch).2)
  have reached : (platform.submit id launch).2.queue other =
      ((platform.queues.modify id fun _ => ((platform.queue id).submit launch).2).get?
        other).getD {} := rfl
  rw [reached, changed]
  split
  · next same =>
      subst same
      cases held : platform.queues.get? id with
      | none =>
          refine ⟨[], ?_, List.forall_mem_nil _⟩
          simp [queue, held]
      | some state => exact recorded
  · exact ⟨[], (List.append_nil _).symm, List.forall_mem_nil _⟩

end Gains

end Platform

/-- A record of a launch that a variant plans for the batch, of the program in a slot of
the set that is stored for it. -/
structure LaunchedFor (batch : Batch) (model : Model Platform) (name : Fingerprint)
    (set : ProgramSet) (slot : Slot) (program : Program) (record : LaunchRecord) : Prop where
  named : batch.programName = .ok name
  held : model.programs.get? (model.queue.context, name) = some set
  planned : ∃ index variant plan, model.variants[index]? = some variant ∧
    variant.plan index batch = .ok plan ∧ plan.slot = slot ∧
    ∃ launch ∈ plan.launches, record = QueueState.recordOf (Model.launchOf program index launch)
  compiled : (set.shell slot).compiled = some program

variable {queue : CommandQueue Platform} {batch : Batch} {run : ModelRun Platform}

namespace Model

/-- Only what is submitted is recorded, and submitting leaves the model alone. -/
theorem submitAll_gains (onPlatform : queue.OnPlatform) (launches : List Launch)
    (run : ModelRun Platform) :
    Ends run (submitAll queue launches)
      (fun _ after => after.model = run.model ∧ run.bench.backend.Gains
        (fun record => ∃ launch ∈ launches, record = QueueState.recordOf launch)
        after.bench.backend)
      (fun _ after => after.model = run.model ∧ run.bench.backend.Gains
        (fun record => ∃ launch ∈ launches, record = QueueState.recordOf launch)
        after.bench.backend) := by
  induction launches generalizing run with
  | nil => exact .pure ⟨rfl, .of_queues rfl⟩
  | cons launch rest inductionHypothesis =>
      rcases outcome : onBackend (queue.submit launch) run with ⟨result, reached⟩
      have submits : onBackend (queue.submit launch) run =
          ((run.bench.backend.submit queue.id launch).1.mapError Error.backend,
            { run with bench := { run.bench with
                backend := (run.bench.backend.submit queue.id launch).2 } }) := by
        rw [onBackend, onPlatform.submit]
      rw [outcome] at submits
      have first : run.bench.backend.Gains
          (fun record => ∃ found ∈ launch :: rest, record = QueueState.recordOf found)
          reached.bench.backend := by
        rw [(Prod.mk.inj submits).2]
        exact (Platform.Gains.submit run.bench.backend queue.id launch).imp
          fun _ same => ⟨launch, List.mem_cons_self, same⟩
      have sameModel : reached.model = run.model := by rw [(Prod.mk.inj submits).2]
      cases result with
      | error cause => exact .of_error (Action.bind_error outcome) ⟨sameModel, first⟩
      | ok value =>
          have later (after : ModelRun Platform)
              (others : after.model = reached.model ∧ reached.bench.backend.Gains
                (fun record => ∃ found ∈ rest, record = QueueState.recordOf found)
                after.bench.backend) :
              after.model = run.model ∧ run.bench.backend.Gains
                (fun record => ∃ found ∈ launch :: rest, record = QueueState.recordOf found)
                after.bench.backend := by
            refine ⟨others.1.trans sameModel, first.trans (others.2.imp ?_)⟩
            rintro record ⟨found, member, same⟩
            exact ⟨found, List.mem_cons_of_mem launch member, same⟩
          refine .bind_of_ok outcome ((inductionHypothesis reached).imp ?_ ?_)
          · exact fun _ after others => later after others
          · exact fun _ after others => later after others

/-- The queues have gained records of launches for the batch only. -/
def RecordsFor (batch : Batch) (before after : ModelRun Platform) : Prop :=
  before.bench.backend.Gains
    (fun record => ∃ name set slot program,
      LaunchedFor batch after.model name set slot program record)
    after.bench.backend

/-- Enqueuing records launches of the program in the slot that the plan asks for. -/
theorem enqueue_records (onPlatform : run.model.queue.OnPlatform) {name : Fingerprint}
    {set : ProgramSet} (named : batch.programName = .ok name)
    (held : run.model.programs.get? (run.model.queue.context, name) = some set) (index : Nat) :
    RecordsFor batch run (enqueue (run.model.queue.context, name) index batch run).2 := by
  have untouched : RecordsFor batch run run := .of_queues rfl
  have ends : Ends run (enqueue (run.model.queue.context, name) index batch)
      (fun _ after => RecordsFor batch run after) (fun _ after => RecordsFor batch run after) := by
    refine .read_bind (.ofExcept_bind (fun _ _ => untouched) fun variant found => ?_)
    refine .ofExcept_bind (fun _ _ => untouched) fun plan planned => ?_
    obtain ⟨stock, outcome, stored⟩ :=
      onPrograms_of_held (ProgramSet.program run.model.queue plan.slot) held
    have queues : (ProgramSet.program run.model.queue plan.slot
        (set, run.bench)).2.2.backend.queues = run.bench.backend.queues :=
      Shell.program_queues onPlatform (set.shell plan.slot) run.bench
    rcases answered : ProgramSet.program run.model.queue plan.slot (set, run.bench) with
      ⟨result, compiled, bench⟩
    rw [answered] at outcome stored queues
    cases result with
    | error cause => exact .of_error (Action.bind_error outcome) (.of_queues queues)
    | ok program =>
        refine .bind_of_ok outcome ?_
        have records (after : ModelRun Platform)
            (submitted : after.model = { run.model with programs := stock } ∧
              bench.backend.Gains (fun record => ∃ launch ∈
                plan.launches.map (launchOf program index),
                  record = QueueState.recordOf launch) after.bench.backend) :
            RecordsFor batch run after := by
          obtain ⟨sameModel, gains⟩ := submitted
          refine (Platform.Gains.of_queues queues).trans (gains.imp ?_)
          rintro record ⟨_, member, rfl⟩
          obtain ⟨launch, planMember, rfl⟩ := List.mem_map.1 member
          rw [sameModel]
          exact ⟨name, compiled, plan.slot, program, named, (stored _).trans (if_pos rfl),
            ⟨index, variant, plan, variantAt_eq_ok_iff.1 found, planned, rfl, launch, planMember,
              rfl⟩, ProgramSet.program_compiled _ answered⟩
        exact (submitAll_gains onPlatform _ _).imp (fun _ => records) fun _ => records
  exact ends.behind

/-- An execution records launches of programs that are stored for its batch. -/
theorem execute_records (onPlatform : run.model.queue.OnPlatform) (batch : Batch)
    (bypassPredictor force : Bool) :
    RecordsFor batch run (execute batch bypassPredictor force run).2 := by
  have looked {result : Except Error ProgramKey} {obtained : ModelRun Platform}
      (obtains : obtainPrograms batch force run = (result, obtained)) :
      RecordsFor batch run obtained :=
    .of_queues (congrArg Platform.queues (backend_of_obtained obtains))
  have ends : Ends run (execute batch bypassPredictor force)
      (fun _ after => RecordsFor batch run after) (fun _ after => RecordsFor batch run after) := by
    refine ends_execute (fun _ => .of_queues rfl) (fun _ _ => looked) fun key obtained obtains => ?_
    refine ⟨fun _ => looked obtains, fun selection => .of_behind ?_⟩
    obtain ⟨name, set, named, rfl, held⟩ := held_of_obtained obtains
    obtain ⟨_, _, sameQueue, _⟩ := of_setup (setup_of_obtained obtains)
    have sameQueue : obtained.model.queue = run.model.queue := sameQueue
    rw [← sameQueue] at onPlatform held ⊢
    have recorded := enqueue_records onPlatform named held selection.variant
    unfold RecordsFor at recorded ⊢
    rwa [backend_of_obtained obtains] at recorded
  exact ends.behind

end Model

end KernelTuner
