import KernelTuner.Proofs.Model.Execution
import KernelTuner.Proofs.Model.Steps

/-!
Contract: calls that succeed on the reference platform.

Owns: that a working model compiles the programs it holds, enqueues what can be planned and
waits for it; and from these that it executes a batch, and is tuned on it, when all that
the call asks of the batch is there.
-/

set_option autoImplicit false

namespace KernelTuner

variable {queue : CommandQueue Platform} {variants : List Variant} {batch : Batch}
  {key : ProgramKey}

/-! ### Parts of calls -/

theorem ProgramSet.compileSlot_ok (onPlatform : queue.OnPlatform) {set : ProgramSet}
    {bench : Bench Platform} (complete : set.Complete variants) (ready : bench.Ready queue)
    (slot : Slot) : ∃ reached, compileSlot queue slot (set, bench) = (.ok (), reached) := by
  cases filled : (set.shell slot).isEmpty with
  | true => exact ⟨_, compileSlot_of_empty queue filled⟩
  | false =>
      obtain ⟨program, reached, outcome, _⟩ := complete.program_ok onPlatform ready slot
      refine ⟨reached, ?_⟩
      rw [compileSlot_of_filled queue filled, Action.bind_ok outcome]
      rfl

/-- A complete set compiles. -/
theorem ProgramSet.compileAll_ok (onPlatform : queue.OnPlatform) {set : ProgramSet}
    {bench : Bench Platform} (complete : set.Complete variants) (ready : bench.Ready queue) :
    ∃ reached, compileAll queue (set, bench) = (.ok (), reached) := by
  obtain ⟨⟨middle, between⟩, first⟩ := compileSlot_ok onPlatform complete ready .primary
  have kept := keeps_compileSlot (program_keeps onPlatform .primary) (set, bench) ⟨complete, ready⟩
  rw [first] at kept
  obtain ⟨reached, second⟩ := compileSlot_ok onPlatform kept.1 kept.2 .fallback
  exact ⟨reached, (Action.bind_ok first).trans second⟩

/-- Programs are obtained for a batch that has a name and from which all variants emit. -/
theorem Model.obtainPrograms_ok {σ : Type} {run : ModelRun σ} {name : Fingerprint}
    {emissions : List Emission} (force : Bool) (named : batch.programName = .ok name)
    (emitted : ProgramSet.emissionsFrom batch 0 run.model.variants = .ok emissions) :
    ∃ obtained, obtainPrograms batch force run =
        (.ok (run.model.queue.context, name), obtained) ∧
      obtained.model.programs.get? (run.model.queue.context, name) ≠ none := by
  obtain ⟨result, reached, recorded, obtained, looked⟩ := obtainPrograms_of_named force run named
  cases looked with
  | held present unchanged =>
      refine ⟨_, obtained, ?_⟩
      show reached.get? _ ≠ none
      rw [unchanged, present]
      exact Option.some_ne_none _
  | built _ _ grown =>
      refine ⟨_, obtained, ?_⟩
      show reached.get? _ ≠ none
      rw [grown, if_pos rfl]
      exact Option.some_ne_none _
  | failed _ refused _ =>
      rw [ProgramSet.build_eq_ok_iff.2 ⟨emissions, emitted, rfl⟩] at refused
      cases refused

namespace Working

variable {run : ModelRun Platform} {index : Nat}

/-- A working model that has programs under `key`. -/
def Holding (queue : CommandQueue Platform) (variants : List Variant) (key : ProgramKey)
    (run : ModelRun Platform) : Prop :=
  Working queue variants run ∧ run.model.programs.get? key ≠ none

theorem compileAll_ok (onPlatform : queue.OnPlatform) (holding : Holding queue variants key run) :
    ∃ compiled, Model.onPrograms key (ProgramSet.compileAll queue) run = (.ok (), compiled) ∧
      Holding queue variants key compiled := by
  obtain ⟨working, present⟩ := holding
  obtain ⟨set, held⟩ := Option.ne_none_iff_exists'.1 present
  obtain ⟨reached, compiles⟩ :=
    ProgramSet.compileAll_ok onPlatform (working.complete key set held) working.ready
  obtain ⟨stock, outcome, stored⟩ := Model.onPrograms_of_held (ProgramSet.compileAll queue) held
  have kept := onPrograms (ProgramSet.keeps_compileAll (ProgramSet.program_keeps onPlatform)) key
    run working
  rw [compiles] at outcome stored
  rw [outcome] at kept
  refine ⟨_, outcome, kept, ?_⟩
  show stock.get? key ≠ none
  rw [stored, if_pos rfl]
  exact Option.some_ne_none _

theorem enqueue_ok (onPlatform : queue.OnPlatform) (holding : Holding queue variants key run)
    (countable : batch.Countable) {variant : Variant} {plan : LaunchPlan} (sized : variant.Sized)
    (found : variants[index]? = some variant) (planned : variant.plan index batch = .ok plan) :
    ∃ after, Model.enqueue key index batch run = (.ok (), after) ∧
      Holding queue variants key after := by
  obtain ⟨working, present⟩ := holding
  obtain ⟨set, held⟩ := Option.ne_none_iff_exists'.1 present
  have nonempty : 0 < variants.length :=
    Nat.lt_of_le_of_lt (Nat.zero_le index) (List.getElem?_eq_some_iff.1 found).1
  obtain ⟨program, reached, compiled, asked, stillWorking, kernels, stored, _⟩ :=
    working.program_ok onPlatform held plan.slot
  have checked := (Variant.plan_launches sized countable planned).checked
    (kernels index variant found)
  obtain ⟨after, submitted, sameModel, _⟩ :=
    Model.submitAll_ok onPlatform stillWorking.ready checked
  have kept := (lasting batch onPlatform nonempty).submitAll
    (plan.launches.map (Model.launchOf program index))
    (fun _ member => ⟨index, variant, plan, program, found, planned, member⟩) reached stillWorking
  rw [submitted] at kept
  rw [← working.ofVariants] at found
  rw [← working.onQueue] at asked submitted
  refine ⟨after, Model.enqueue_succeeds_iff.2
    ⟨variant, plan, program, reached, found, planned, asked, submitted⟩, kept, ?_⟩
  rw [sameModel, stored]
  exact Option.some_ne_none _

theorem finish_ok (onPlatform : queue.OnPlatform) (holding : Holding queue variants key run) :
    ∃ after, Model.finish run = (.ok (), after) ∧ Holding queue variants key after := by
  obtain ⟨⟨onQueue, ofVariants, ready, complete, inRange⟩, present⟩ := holding
  have unfolded : Model.finish run = Model.onBackend (Platform.finish queue.id) run := by
    rw [← onPlatform.finish, ← onQueue]
    rfl
  refine ⟨_, unfolded, ⟨onQueue, ofVariants, ?_, complete, inRange⟩, present⟩
  exact Platform.Ready.finish ready

theorem measure_ok (onPlatform : queue.OnPlatform) (holding : Holding queue variants key run)
    (countable : batch.Countable) {variant : Variant} {plan : LaunchPlan} (sized : variant.Sized)
    (found : variants[index]? = some variant) (planned : variant.plan index batch = .ok plan) :
    ∃ duration after, Model.measure key index batch run = (.ok duration, after) ∧
      Holding queue variants key after := by
  obtain ⟨enqueued, queued, stillHolding⟩ :=
    enqueue_ok onPlatform holding countable sized found planned
  obtain ⟨after, finished, holdingAfter⟩ := finish_ok onPlatform stillHolding
  exact ⟨_, after, Model.measure_succeeds_iff.2 ⟨enqueued, queued, finished, rfl⟩, holdingAfter⟩

theorem measureFrom_ok (onPlatform : queue.OnPlatform) (holding : Holding queue variants key run)
    (countable : batch.Countable) (sized : ∀ variant ∈ variants, variant.Sized)
    (planned : ∀ (place : Nat) (variant : Variant), variants[place]? = some variant →
      ∃ plan, variant.plan place batch = .ok plan)
    {count : Nat} (inside : index + count ≤ variants.length) :
    ∃ durations after, Model.measureFrom key batch index count run = (.ok durations, after) := by
  induction count generalizing index run with
  | zero => exact ⟨[], run, rfl⟩
  | succ count inductionHypothesis =>
      have found := List.getElem?_eq_getElem (show index < variants.length by omega)
      obtain ⟨plan, plans⟩ := planned index _ found
      obtain ⟨duration, between, first, stillHolding⟩ :=
        measure_ok onPlatform holding countable (sized _ (List.getElem_mem _)) found plans
      have restInside : index + 1 + count ≤ variants.length := by omega
      obtain ⟨others, after, rest⟩ := inductionHypothesis stillHolding restInside
      exact ⟨duration :: others, after,
        Model.measureFrom_succ_succeeds_iff.2 ⟨duration, others, between, first, rest, rfl⟩⟩

/-! ### Calls -/

/-- A working model executes a batch of its context that every variant can emit, when the
variant that it selects can be planned. -/
theorem execute_ok (onPlatform : queue.OnPlatform) (working : Working queue variants run)
    (sized : ∀ variant ∈ variants, variant.Sized) (countable : batch.Countable)
    (home : batch.context = queue.context) {name : Fingerprint}
    (named : batch.programName = .ok name) {emissions : List Emission}
    (emitted : ProgramSet.emissionsFrom batch 0 variants = .ok emissions) {baseline : Variant}
    (first : variants[0]? = some baseline) {shape : Shape}
    (measured : baseline.sizes batch = .ok shape) {bypassPredictor : Bool} (force : Bool)
    {selection : Selection} (selected : run.model.select shape bypassPredictor = .ok selection)
    {variant : Variant} (chosen : variants[selection.variant]? = some variant) {plan : LaunchPlan}
    (planned : variant.plan selection.variant batch = .ok plan) :
    ∃ after, Model.execute batch bypassPredictor force run = (.ok selection, after) := by
  have checked : run.model.checkContext batch = .ok () := by
    rw [← working.onQueue] at home
    exact Model.checkContext_of_same home
  rw [← working.ofVariants] at emitted
  obtain ⟨obtained, obtains, present⟩ := Model.obtainPrograms_ok force named emitted
  have stillWorking := working.obtainPrograms batch force
  rw [obtains] at stillWorking
  obtain ⟨after, enqueued, _⟩ := enqueue_ok onPlatform ⟨stillWorking, present⟩ countable
    (sized variant (List.mem_of_getElem? chosen)) chosen planned
  rw [← stillWorking.ofVariants] at first
  exact ⟨after, Model.execute_succeeds_iff.2
    ⟨checked, _, obtained, baseline, shape, obtains, first, measured, selected, enqueued⟩⟩

/-- A working model can be tuned on a batch of its context that every variant can emit and
plan. -/
theorem tune_ok (onPlatform : queue.OnPlatform) (working : Working queue variants run)
    (sized : ∀ variant ∈ variants, variant.Sized) (countable : batch.Countable)
    (home : batch.context = queue.context) {name : Fingerprint}
    (named : batch.programName = .ok name) {emissions : List Emission}
    (emitted : ProgramSet.emissionsFrom batch 0 variants = .ok emissions) {baseline : Variant}
    (first : variants[0]? = some baseline) {shape : Shape}
    (measured : baseline.sizes batch = .ok shape)
    (planned : ∀ (place : Nat) (variant : Variant), variants[place]? = some variant →
      ∃ plan, variant.plan place batch = .ok plan) :
    ∃ report after, Model.tune batch run = (.ok report, after) := by
  have checked : run.model.checkContext batch = .ok () := by
    rw [← working.onQueue] at home
    exact Model.checkContext_of_same home
  rw [← working.ofVariants] at emitted
  obtain ⟨obtained, obtains, present⟩ := Model.obtainPrograms_ok false named emitted
  have stillWorking := working.obtainPrograms batch false
  rw [obtains] at stillWorking
  obtain ⟨compiled, compiles, holding⟩ := compileAll_ok onPlatform ⟨stillWorking, present⟩
  obtain ⟨drained, drains, stillHolding⟩ := finish_ok onPlatform holding
  have inside : 0 + variants.length ≤ variants.length := Nat.le_of_eq (Nat.zero_add _)
  obtain ⟨durations, ended, measures⟩ :=
    measureFrom_ok onPlatform stillHolding countable sized planned inside
  rw [← working.onQueue] at compiles
  rw [← working.ofVariants] at measures
  rw [← stillWorking.ofVariants] at first
  exact ⟨⟨shape, durations, Model.fastest durations⟩, _, Model.tune_succeeds_iff.2
    ⟨checked, _, obtained, baseline, compiled, drained, ended, obtains, first, measured, compiles,
      drains, measures, rfl, rfl⟩⟩

end Working

/-! ### Inner products -/

theorem folding_ready :
    Bench.Ready (Platform.single.commandQueue ⟨1⟩) ModelRun.folding.bench :=
  ⟨Option.some_ne_none _, rfl, Platform.reachable_honest Platform.single_reachable⟩

theorem folding_sized : ∀ variant ∈ [Variant.folding], variant.Sized := by
  have accepted : Variant.ofProfile .reduction [1, 64, 16, 1] = .ok .folding := rfl
  exact List.forall_mem_singleton.2 (Variant.ofProfile_sized accepted)

/-- Inner products of every element type are executed on a working model that folds. -/
theorem Working.executes_dot {run : ModelRun Platform} (elementType : ElementType)
    (working : Working (Platform.single.commandQueue ⟨1⟩) [.folding] run)
    {selection : Selection} (selected : ∀ shape, run.model.select shape false = .ok selection)
    (only : selection.variant = 0) :
    ∃ after, Model.execute (.dot elementType) false false run = (.ok selection, after) := by
  obtain ⟨emissions, emitted⟩ := Batch.dot_emitted elementType
  obtain ⟨plan, planned⟩ : ∃ plan, Variant.folding.plan 0 (.dot elementType) = .ok plan := ⟨_, rfl⟩
  obtain ⟨shape, measured⟩ : ∃ shape, Variant.folding.sizes (.dot elementType) = .ok shape :=
    ⟨_, rfl⟩
  rw [← only] at planned
  have chosen : [Variant.folding][selection.variant]? = some .folding := by rw [only]; rfl
  exact working.execute_ok (Platform.single.commandQueue_onPlatform ⟨1⟩) folding_sized
    Batch.dot_countable rfl Batch.dot_programName emitted rfl measured false (selected shape) chosen
    planned

end KernelTuner
