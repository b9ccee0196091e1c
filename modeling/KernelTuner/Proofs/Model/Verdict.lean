import KernelTuner.Proofs.Model.Steps
import KernelTuner.Proofs.Program.Settling

/-!
Contract: what a call on a selection model will come to.

Owns: the verdicts, which are computed from the setup of a model, from its stored set and
from the compiler, without making the call; and that behind the lookup of programs a call
comes to its verdict, or fails on the way and leaves the verdict as it was.
Does not own: the lookup of programs.
-/

set_option autoImplicit false

namespace KernelTuner

open KernelTuner.Action (Ends Foretold)

/-! ### Verdicts -/

namespace Model

variable {σ : Type}

/-- The sizes of the batch as the baseline variant sees them. -/
def shape (model : Model σ) (batch : Batch) : Except Error Shape := do
  let baseline ← model.variantAt 0
  baseline.sizes batch

/-- The launches of a variant when its programs are answered so, unless the queue refuses
one of them. -/
def dispatch (model : Model σ) (answers : Slot → Except BackendError Program) (index : Nat)
    (batch : Batch) : Except Error (List Launch) := do
  let variant ← model.variantAt index
  let plan ← variant.plan index batch
  let program ← (answers plan.slot).mapError Error.backend
  let launches := plan.launches.map (launchOf program index)
  (forM launches QueueState.checkLaunch).mapError Error.backend
  return launches

section Dispatch

variable {model : Model σ} {answers : Slot → Except BackendError Program} {index : Nat}
  {batch : Batch} {variant : Variant} {plan : LaunchPlan}

/-- What a dispatch comes to is decided by one answer. -/
theorem dispatch_of_planned (found : model.variantAt index = .ok variant)
    (planned : variant.plan index batch = .ok plan) :
    model.dispatch answers index batch =
      (answers plan.slot).mapError Error.backend >>= fun program =>
        (forM (plan.launches.map (launchOf program index)) QueueState.checkLaunch).mapError
          Error.backend >>= fun _ => .ok (plan.launches.map (launchOf program index)) := by
  unfold dispatch
  rw [found]
  show (variant.plan index batch >>= _) = _
  rw [planned]
  rfl

theorem dispatch_congr {others : Slot → Except BackendError Program}
    (found : model.variantAt index = .ok variant) (planned : variant.plan index batch = .ok plan)
    (same : answers plan.slot = others plan.slot) :
    model.dispatch answers index batch = model.dispatch others index batch := by
  rw [dispatch_of_planned found planned, dispatch_of_planned found planned, same]

end Dispatch

/-- What an execution comes to. -/
def executeVerdict (model : Model σ) (batch : Batch) (bypassPredictor : Bool)
    (answers : Slot → Except BackendError Program) : Except Error Selection := do
  let shape ← model.shape batch
  let selection ← model.select shape bypassPredictor
  let _ ← model.dispatch answers selection.variant batch
  return selection

theorem executeVerdict_of_selected {model : Model σ} {batch : Batch} {bypassPredictor : Bool}
    {shape : Shape} {selection : Selection} (sized : model.shape batch = .ok shape)
    (selected : model.select shape bypassPredictor = .ok selection)
    (answers : Slot → Except BackendError Program) :
    model.executeVerdict batch bypassPredictor answers =
      model.dispatch answers selection.variant batch >>= fun _ => .ok selection := by
  unfold executeVerdict
  rw [sized]
  show (model.select shape bypassPredictor >>= _) = _
  rw [selected]
  rfl

/-- The time that launches take on an idle queue. -/
def timeOf (pace : QueueState) (launches : List Launch) : Nat :=
  { pace with pending := launches.map QueueState.recordOf }.pendingTime

/-- The times of `count` variants, the first of which has number `index`. -/
def timesFrom (model : Model σ) (pace : QueueState) (answers : Slot → Except BackendError Program)
    (batch : Batch) (index : Nat) : Nat → Except Error (List Nat)
  | 0 => return []
  | count + 1 => do
      let launches ← model.dispatch answers index batch
      let times ← model.timesFrom pace answers batch (index + 1) count
      return timeOf pace launches :: times

/-- What a tuning comes to whose programs settle to `settled`. -/
def tuneVerdict (model : Model σ) (pace : QueueState) (home : ContextId) (batch : Batch)
    (settled : Except BackendError (ProgramSet × Compiler)) : Except Error TuneReport := do
  let shape ← model.shape batch
  let (set, compiler) ← settled.mapError Error.backend
  let durations ← model.timesFrom pace (set.answers home compiler) batch 0 model.variants.length
  return { shape, durations, best := fastest durations }

end Model

/-- A set with kernels of all variants that, beside the compiler, settles to `settled`. -/
structure ProgramSet.SettlesTo (home : ContextId) (variants : List Variant)
    (settled : Except BackendError (ProgramSet × Compiler)) (set : ProgramSet)
    (compiler : Compiler) : Prop where
  settles : settle home (set, compiler) = settled
  filled : set.Filled variants

/-! ### On the way -/

/-- A run in the course of a call: its model has the given setup and has stored under `key`
a set which, beside the compiler, satisfies the condition. -/
structure Underway (queue : CommandQueue Platform) (quiet : Prop) (pace : QueueState)
    (setup : Model (Disturbed Platform)) (key : ProgramKey)
    (condition : ProgramSet → Compiler → Prop) (run : ModelRun (Disturbed Platform)) : Prop where
  ofSetup : run.model.setup = setup
  onQueue : run.model.queue = queue.disturbed
  steady : Steady queue quiet pace run.bench.backend
  stored : ∃ set, run.model.programs.get? key = some set ∧
    condition set (queue.compilerOn run.bench)

variable {queue : CommandQueue Platform} {quiet : Prop} {pace : QueueState}
  {setup : Model (Disturbed Platform)} {key : ProgramKey} {batch : Batch} {index : Nat}
  {condition : ProgramSet → Compiler → Prop} {run : ModelRun (Disturbed Platform)}

namespace Underway

theorem imp {other : ProgramSet → Compiler → Prop}
    (underway : Underway queue quiet pace setup key condition run)
    (weaker : ∀ set compiler, condition set compiler → other set compiler) :
    Underway queue quiet pace setup key other run := by
  obtain ⟨set, held, holds⟩ := underway.stored
  exact ⟨underway.ofSetup, underway.onQueue, underway.steady, set, held, weaker _ _ holds⟩

/-- A call of the backend that leaves the compilers alone. -/
theorem onBackend {after : Disturbed Platform}
    (underway : Underway queue quiet pace setup key condition run)
    (steady : Steady queue quiet pace after)
    (compilers : after.backend.compilers = run.bench.backend.backend.compilers) :
    Underway queue quiet pace setup key condition
      { run with bench := { run.bench with backend := after } } := by
  obtain ⟨set, held, holds⟩ := underway.stored
  refine ⟨underway.ofSetup, underway.onQueue, steady, set, held, ?_⟩
  unfold CommandQueue.compilerOn Platform.compiler at holds ⊢
  rw [compilers]
  exact holds

end Underway

/-- The queue has gained launches, and its clock has not moved. -/
structure Bench.Joined (queue : CommandQueue Platform) (launches : List Launch)
    (before after : Bench (Disturbed Platform)) : Prop where
  pending : queue.pendingOn after = queue.pendingOn before ++ launches.map QueueState.recordOf
  clock : after.backend.backend.clock = before.backend.backend.clock

namespace Bench.Joined

variable {before between after : Bench (Disturbed Platform)} {early late : List Launch}

theorem of_onward (onward : before.Onward queue quiet pace after) :
    before.Joined queue [] after :=
  ⟨onward.pendingOn.trans (List.append_nil _).symm, onward.clock⟩

theorem refl (bench : Bench (Disturbed Platform)) : bench.Joined queue [] bench :=
  ⟨(List.append_nil _).symm, rfl⟩

theorem trans (first : before.Joined queue early between) (second : between.Joined queue late after) :
    before.Joined queue (early ++ late) after := by
  refine ⟨?_, second.clock.trans first.clock⟩
  rw [second.pending, first.pending, List.map_append, List.append_assoc]

end Bench.Joined

/-! ### Launches -/

namespace Model

open KernelTuner.Action

/-- A launch is accepted or refused by the check of it. -/
theorem submit_foretold (onPlatform : queue.OnPlatform) (launch : Launch)
    (underway : Underway queue quiet pace setup key condition run) :
    Foretold quiet (Underway queue quiet pace setup key condition) run
      (onBackend (queue.disturbed.submit launch))
      ((QueueState.checkLaunch launch).mapError Error.backend)
      fun _ _ after => Underway queue quiet pace setup key condition after ∧
        run.bench.Joined queue [launch] after.bench := by
  rcases outcome : queue.disturbed.submit launch run.bench.backend with ⟨reply, after⟩
  obtain ⟨steady, compilers, clock, accepted, refused⟩ := underway.steady.submit onPlatform outcome
  have submitted := underway.onBackend steady compilers
  have ended : onBackend (queue.disturbed.submit launch) run =
      (reply.mapError Error.backend, { run with bench := { run.bench with backend := after } }) := by
    simp only [onBackend, outcome]
  cases reply with
  | error cause =>
      refine .of_error ended ⟨submitted, fun calm => ?_⟩
      rw [refused cause rfl calm]
      rfl
  | ok =>
      obtain ⟨checked, joined⟩ := accepted rfl
      rw [checked]
      exact .of_ok ended ⟨(), rfl, submitted, joined, clock⟩

/-- The queue accepts launches up to the first that the check refuses. -/
theorem submitAll_foretold (onPlatform : queue.OnPlatform) (launches : List Launch)
    (underway : Underway queue quiet pace setup key condition run) :
    Foretold quiet (Underway queue quiet pace setup key condition) run
      (submitAll queue.disturbed launches)
      ((forM launches QueueState.checkLaunch).mapError Error.backend)
      fun _ _ after => Underway queue quiet pace setup key condition after ∧
        run.bench.Joined queue launches after.bench := by
  induction launches generalizing run with
  | nil => exact .pure ⟨underway, .refl _⟩
  | cons launch rest inductionHypothesis =>
      have whole : (forM (launch :: rest) QueueState.checkLaunch).mapError Error.backend =
          (QueueState.checkLaunch launch).mapError Error.backend >>= fun _ =>
            (forM rest QueueState.checkLaunch).mapError Error.backend := by
        rw [List.forM_cons]
        cases QueueState.checkLaunch launch <;> rfl
      rw [whole]
      refine .bind (submit_foretold onPlatform launch underway) ?_
      rintro _ _ between ⟨submitted, joined⟩
      refine (inductionHypothesis submitted).imp ?_ fun _ left => left
      exact fun _ _ _ ended => ⟨ended.1, joined.trans ended.2⟩

/-- Asking for a program comes to the answer about it. A condition on the set survives if
it survives the answer. -/
theorem program_foretold (onPlatform : queue.OnPlatform) {set : ProgramSet} {slot : Slot}
    (underway : Underway queue quiet pace setup key condition run)
    (held : run.model.programs.get? key = some set)
    (holds : condition set (queue.compilerOn run.bench))
    (answered : ∀ program left,
      (set.shell slot).answer queue.context (queue.compilerOn run.bench) = (.ok program, left) →
        condition (set.putShell slot { set.shell slot with compiled := some program }) left)
    (refused : ∀ refusal left,
      (set.shell slot).answer queue.context (queue.compilerOn run.bench) = (.error refusal, left) →
        condition set left) :
    Foretold quiet (Underway queue quiet pace setup key condition) run
      (onPrograms key (ProgramSet.program queue.disturbed slot))
      ((set.answers queue.context (queue.compilerOn run.bench) slot).mapError Error.backend)
      fun program result after => result = program ∧
        Underway queue quiet pace setup key condition after ∧
        run.bench.Joined queue [] after.bench := by
  refine (ends_onPrograms held (ProgramSet.program_ends onPlatform underway.steady slot)).imp ?_ ?_
  · rintro program _ ⟨⟨reached, bench⟩, programs, ⟨asked, rfl, onward⟩, rfl, kept⟩
    refine ⟨program, ?_, rfl, ⟨underway.ofSetup, underway.onQueue, onward.steady, _, kept,
      answered _ _ asked⟩, .of_onward onward⟩
    rw [ProgramSet.answers, asked]
    rfl
  · rintro _ _ ⟨⟨reached, bench⟩, programs, ⟨⟨refusal, rfl, replied⟩, rfl, onward⟩, rfl, kept⟩
    cases replied with
    | answered same =>
        refine ⟨⟨underway.ofSetup, underway.onQueue, onward.steady, _, kept, refused _ _ same⟩, ?_⟩
        intro _
        rw [ProgramSet.answers, congrArg Prod.fst same]
        rfl
    | refused _ unchanged disturbed =>
        refine ⟨⟨underway.ofSetup, underway.onQueue, onward.steady, _, kept, ?_⟩, ?_⟩
        · rw [unchanged]
          exact holds
        · exact fun calm => absurd calm disturbed

/-- Enqueuing a variant dispatches it. A condition on the set survives if it survives the
answer about the program that the variant needs. -/
theorem enqueue_foretold (onPlatform : queue.OnPlatform) {set : ProgramSet}
    (underway : Underway queue quiet pace setup key condition run)
    (held : run.model.programs.get? key = some set)
    (holds : condition set (queue.compilerOn run.bench))
    (answered : ∀ variant plan program left, setup.variantAt index = .ok variant →
      variant.plan index batch = .ok plan →
      (set.shell plan.slot).answer queue.context (queue.compilerOn run.bench) =
          (.ok program, left) →
        condition (set.putShell plan.slot { set.shell plan.slot with compiled := some program })
          left)
    (refused : ∀ variant plan refusal left, setup.variantAt index = .ok variant →
      variant.plan index batch = .ok plan →
      (set.shell plan.slot).answer queue.context (queue.compilerOn run.bench) =
          (.error refusal, left) → condition set left) :
    Foretold quiet (Underway queue quiet pace setup key condition) run (enqueue key index batch)
      (setup.dispatch (set.answers queue.context (queue.compilerOn run.bench)) index batch)
      fun _ launches after => Underway queue quiet pace setup key condition after ∧
        run.bench.Joined queue launches after.bench := by
  have sameVariants : run.model.variantAt index = setup.variantAt index := by
    rw [← underway.ofSetup]
    rfl
  refine Foretold.read_bind ?_
  rw [sameVariants, underway.onQueue]
  refine .ofExcept_bind underway fun variant found => .ofExcept_bind underway fun plan planned => ?_
  refine .bind (program_foretold onPlatform underway held holds
    (answered variant plan · · found planned) (refused variant plan · · found planned)) ?_
  rintro _ program compiled ⟨rfl, compiledUnderway, asked⟩
  refine .map (fun _ => plan.launches.map (launchOf program index)) ?_
  refine (submitAll_foretold onPlatform _ compiledUnderway).imp ?_ fun _ left => left
  exact fun _ _ _ ended => ⟨ended.1, asked.trans ended.2⟩

/-- Waiting empties the queue and takes the time of what was pending; it fails only as
planned. -/
theorem finish_drains (onPlatform : queue.OnPlatform)
    (underway : Underway queue quiet pace setup key condition run) :
    Ends run finish
      (fun _ after => Underway queue quiet pace setup key condition after ∧
        queue.pendingOn after.bench = [] ∧
        after.bench.backend.backend.clock = run.bench.backend.backend.clock +
          (run.bench.backend.backend.queue queue.id).pendingTime)
      (fun _ after => Underway queue quiet pace setup key condition after ∧ ¬ quiet) := by
  refine .read_bind ?_
  rw [underway.onQueue]
  rcases outcome : queue.disturbed.finish run.bench.backend with ⟨reply, after⟩
  obtain ⟨steady, compilers, emptied, failed⟩ := underway.steady.finish onPlatform outcome
  have finished := underway.onBackend steady compilers
  have ended : onBackend queue.disturbed.finish run =
      (reply.mapError Error.backend, { run with bench := { run.bench with backend := after } }) := by
    simp only [onBackend, outcome]
  cases reply with
  | ok => exact .of_ok ended ⟨finished, emptied rfl⟩
  | error cause => exact .of_error ended ⟨finished, failed cause rfl⟩

theorem pendingTime_eq_timeOf {state : QueueState} {launches : List Launch}
    (paced : state.pace = pace) (pending : state.pending = launches.map QueueState.recordOf) :
    state.pendingTime = timeOf pace launches := by
  subst paced
  simp only [timeOf, QueueState.pendingTime, QueueState.pace, pending]

/-! ### Measurements -/

/-- The condition that a set and a compiler are these two. -/
def Exactly (set : ProgramSet) (compiler : Compiler) (held : ProgramSet) (left : Compiler) : Prop :=
  held = set ∧ left = compiler

variable {set : ProgramSet} {compiler : Compiler}

/-- Enqueuing a variant of a set whose programs are all there changes no program. -/
theorem enqueue_of_prepared (onPlatform : queue.OnPlatform) (prepared : set.Prepared)
    (filled : set.Filled setup.variants)
    (underway : Underway queue quiet pace setup key (Exactly set compiler) run) :
    Foretold quiet (Underway queue quiet pace setup key (Exactly set compiler)) run
      (enqueue key index batch) (setup.dispatch (set.answers queue.context compiler) index batch)
      fun _ launches after => Underway queue quiet pace setup key (Exactly set compiler) after ∧
        run.bench.Joined queue launches after.bench := by
  obtain ⟨held, stored, rfl, rfl⟩ := underway.stored
  have there {variant : Variant} {plan : LaunchPlan} (found : setup.variantAt index = .ok variant)
      (planned : variant.plan index batch = .ok plan) :
      ∃ program, (held.shell plan.slot).compiled = some program :=
    prepared plan.slot (filled index variant plan.slot (variantAt_eq_ok_iff.1 found)
      (Variant.plan_slot_used planned))
  refine enqueue_foretold onPlatform underway stored ⟨rfl, rfl⟩ ?_ ?_
  · intro variant plan program left found planned answer
    obtain ⟨kept, compiled⟩ := there found planned
    rw [Shell.answer_of_compiled compiled] at answer
    cases answer
    have same : { held.shell plan.slot with compiled := some program } = held.shell plan.slot := by
      rw [← compiled]
    rw [same, ProgramSet.putShell_shell]
    exact ⟨rfl, rfl⟩
  · intro variant plan refusal left found planned answer
    obtain ⟨kept, compiled⟩ := there found planned
    rw [Shell.answer_of_compiled compiled] at answer
    cases answer

/-- Measuring a variant on an idle queue comes to the time of its launches. -/
theorem measure_foretold (onPlatform : queue.OnPlatform) (clocked : queue.clock = Platform.clock)
    (prepared : set.Prepared) (filled : set.Filled setup.variants)
    (underway : Underway queue quiet pace setup key (Exactly set compiler) run)
    (idle : queue.pendingOn run.bench = []) :
    Foretold quiet (Underway queue quiet pace setup key (Exactly set compiler)) run
      (measure key index batch) (setup.dispatch (set.answers queue.context compiler) index batch)
      fun duration launches after => duration = timeOf pace launches ∧
        Underway queue quiet pace setup key (Exactly set compiler) after ∧
        queue.pendingOn after.bench = [] := by
  have clockOf {run : ModelRun (Disturbed Platform)} (onQueue : run.model.queue = queue.disturbed) :
      run.model.queue.clock run.bench.backend = run.bench.backend.backend.clock := by
    rw [onQueue]
    exact congrFun clocked _
  refine Foretold.read_bind (.bind_undecided
    (enqueue_of_prepared onPlatform prepared filled underway) ?_)
  rintro _ launches enqueued ⟨enqueuedUnderway, joined⟩
  refine .bind (finish_drains onPlatform enqueuedUnderway) ?_
  rintro _ after ⟨stillUnderway, emptied, clock⟩
  refine .read_bind (.pure ⟨?_, stillUnderway, emptied⟩)
  have pending := joined.pending
  rw [idle, List.nil_append] at pending
  rw [clockOf stillUnderway.onQueue, clockOf underway.onQueue, clock, joined.clock,
    Nat.add_sub_cancel_left]
  exact pendingTime_eq_timeOf enqueuedUnderway.steady.paced pending

/-- Measuring variants one after another comes to their times. -/
theorem measureFrom_foretold (onPlatform : queue.OnPlatform)
    (clocked : queue.clock = Platform.clock) (prepared : set.Prepared)
    (filled : set.Filled setup.variants) (count : Nat)
    (underway : Underway queue quiet pace setup key (Exactly set compiler) run)
    (idle : queue.pendingOn run.bench = []) :
    Foretold quiet (Underway queue quiet pace setup key (Exactly set compiler)) run
      (measureFrom key batch index count)
      (setup.timesFrom pace (set.answers queue.context compiler) batch index count)
      fun durations times after => times = durations ∧
        Underway queue quiet pace setup key (Exactly set compiler) after := by
  induction count generalizing index run with
  | zero => exact .pure ⟨rfl, underway⟩
  | succ count inductionHypothesis =>
      refine .bind (measure_foretold onPlatform clocked prepared filled underway idle) ?_
      rintro _ launches measured ⟨rfl, measuredUnderway, emptied⟩
      refine .bind (inductionHypothesis measuredUnderway emptied) ?_
      rintro others _ after ⟨rfl, stillUnderway⟩
      exact .pure ⟨rfl, stillUnderway⟩

/-- Measuring all variants comes to their times and to the first of the shortest ones. -/
theorem measureAll_foretold (onPlatform : queue.OnPlatform)
    (clocked : queue.clock = Platform.clock) (prepared : set.Prepared)
    (filled : set.Filled setup.variants)
    (underway : Underway queue quiet pace setup key (Exactly set compiler) run)
    {model : Model (Disturbed Platform)} (sameVariants : model.variants = setup.variants)
    (shape : Shape) :
    Foretold quiet (Underway queue quiet pace setup key (Exactly set compiler)) run
      (Lasting.measureAll batch model key shape)
      (setup.timesFrom pace (set.answers queue.context compiler) batch 0 setup.variants.length >>=
        fun durations => .ok { shape, durations, best := fastest durations })
      fun report result _ => result = report := by
  refine .undecided_bind (finish_drains onPlatform underway) ?_
  rintro _ drained ⟨drainedUnderway, emptied, -⟩
  rw [sameVariants]
  refine .bind (measureFrom_foretold onPlatform clocked prepared filled _ drainedUnderway
    emptied) ?_
  rintro durations _ after ⟨rfl, -⟩
  exact .bind_of_ok rfl (.pure rfl)

/-! ### Calls -/

/-- The shape is part of the verdict. -/
theorem shapeOf_bind {α γ : Type} {continuation : Shape → Action (ModelRun (Disturbed Platform)) α}
    {after : Shape → Except Error γ} {success : α → γ → ModelRun (Disturbed Platform) → Prop}
    (underway : Underway queue quiet pace setup key condition run)
    (rest : ∀ shape, setup.shape batch = .ok shape →
      Foretold quiet (Underway queue quiet pace setup key condition) run (continuation shape)
        (after shape) success) :
    Foretold quiet (Underway queue quiet pace setup key condition) run
      (shapeOf batch >>= continuation) (setup.shape batch >>= after) success := by
  have sameShape : run.model.shape batch = setup.shape batch := by
    rw [← underway.ofSetup]
    rfl
  have shapes : shapeOf batch run = (ofExcept (setup.shape batch) :
      Action (ModelRun (Disturbed Platform)) Shape) run := by
    rw [← sameShape]
    unfold shapeOf shape
    rw [read_bind_apply]
    cases run.model.variantAt 0 <;> rfl
  rw [Foretold, Ends, bind_congr_first shapes]
  exact Foretold.ofExcept_bind underway rest

/-- An execution behind the lookup of programs comes to its verdict, or fails on the way and
leaves the verdict as it was. -/
theorem selectAndEnqueue_foretold (onPlatform : queue.OnPlatform) {bypassPredictor : Bool}
    {verdict : Except Error Selection}
    (underway : Underway queue quiet pace setup key (fun set compiler =>
      setup.executeVerdict batch bypassPredictor (set.answers queue.context compiler) = verdict) run)
    {model : Model (Disturbed Platform)} (sameSetup : model.setup = setup) :
    Foretold quiet (Underway queue quiet pace setup key fun set compiler =>
        setup.executeVerdict batch bypassPredictor (set.answers queue.context compiler) = verdict)
      run (Lasting.selectAndEnqueue batch bypassPredictor model key) verdict
      fun selection result _ => result = selection := by
  obtain ⟨set, held, rfl⟩ := underway.stored
  have sameChoice (shape : Shape) :
      model.select shape bypassPredictor = setup.select shape bypassPredictor := by
    rw [← sameSetup]
    rfl
  refine shapeOf_bind underway fun shape sized => ?_
  rw [sameChoice]
  refine .ofExcept_bind underway fun selection selected => ?_
  -- Beside the sizes and the choice, one answer decides the verdict.
  have decided {variant : Variant} {plan : LaunchPlan} {answers : Slot → Except BackendError Program}
      (found : setup.variantAt selection.variant = .ok variant)
      (planned : variant.plan selection.variant batch = .ok plan)
      (same : answers plan.slot =
        set.answers queue.context (queue.compilerOn run.bench) plan.slot) :
      setup.executeVerdict batch bypassPredictor answers =
        setup.executeVerdict batch bypassPredictor
          (set.answers queue.context (queue.compilerOn run.bench)) := by
    rw [executeVerdict_of_selected sized selected, executeVerdict_of_selected sized selected,
      dispatch_congr found planned same]
  refine .bind (enqueue_foretold onPlatform underway held rfl ?_ ?_) fun _ _ _ _ => .pure rfl
  · intro variant plan program left found planned answer
    exact decided found planned (ProgramSet.answers_of_answered answer)
  · intro variant plan refusal left found planned answer
    exact decided found planned (ProgramSet.answers_of_refused answer)

/-- Compiling the stored set comes to what it settles to. -/
theorem compileAll_foretold (onPlatform : queue.OnPlatform)
    {settled : Except BackendError (ProgramSet × Compiler)}
    (underway : Underway queue quiet pace setup key
      (ProgramSet.SettlesTo queue.context setup.variants settled) run) :
    Foretold quiet
      (Underway queue quiet pace setup key
        (ProgramSet.SettlesTo queue.context setup.variants settled))
      run (onPrograms key (ProgramSet.compileAll queue.disturbed))
      (settled.mapError Error.backend)
      fun _ ready after => ready.1.Prepared ∧
        ProgramSet.SettlesTo queue.context setup.variants settled ready.1 ready.2 ∧
        Underway queue quiet pace setup key (Exactly ready.1 ready.2) after := by
  obtain ⟨set, held, decided, filled⟩ := underway.stored
  have compiles := (ProgramSet.compileAll_ends onPlatform underway.steady).and_behind
    (fun reached => reached.1.uncompiled = set.uncompiled)
    (ProgramSet.compileAll_uncompiled queue.disturbed set run.bench)
  refine (ends_onPrograms held compiles).imp ?_ ?_
  · rintro _ _ ⟨⟨reached, bench⟩, programs, ⟨⟨same, prepared, onward⟩, uncompiled⟩, rfl, kept⟩
    have settles := decided.symm.trans same
    refine ⟨(reached, queue.compilerOn bench), ?_, prepared, ⟨?_, filled.congr uncompiled⟩,
      ⟨underway.ofSetup, underway.onQueue, onward.steady, reached, kept, rfl, rfl⟩⟩
    · rw [settles]
      rfl
    · rw [settles]
      exact ProgramSet.settle_of_done (prepared .primary) (prepared .fallback)
  · rintro cause _ ⟨⟨reached, bench⟩, programs, ⟨⟨again, failed, onward⟩, uncompiled⟩, rfl, kept⟩
    refine ⟨⟨underway.ofSetup, underway.onQueue, onward.steady, reached, kept,
      again.trans decided, filled.congr uncompiled⟩, fun calm => ?_⟩
    obtain ⟨refusal, rfl, refused⟩ := failed calm
    rw [decided.symm.trans refused]
    rfl

/-- A tuning behind the lookup of programs comes to its verdict, or fails on the way and
leaves what its programs settle to as it was. -/
theorem compileAndMeasure_foretold (onPlatform : queue.OnPlatform)
    (clocked : queue.clock = Platform.clock)
    {settled : Except BackendError (ProgramSet × Compiler)}
    (underway : Underway queue quiet pace setup key
      (ProgramSet.SettlesTo queue.context setup.variants settled) run)
    {model : Model (Disturbed Platform)} (sameSetup : model.setup = setup)
    (onQueue : model.queue = queue.disturbed) :
    Foretold quiet
      (Underway queue quiet pace setup key
        (ProgramSet.SettlesTo queue.context setup.variants settled))
      run (Lasting.compileAndMeasure batch model key)
      (setup.tuneVerdict pace queue.context batch settled)
      fun report result _ => result = report := by
  have sameVariants : model.variants = setup.variants := by
    rw [← sameSetup]
    rfl
  refine shapeOf_bind underway fun shape _ => ?_
  rw [onQueue]
  refine .bind (compileAll_foretold onPlatform underway) ?_
  rintro _ ⟨reached, left⟩ compiled ⟨prepared, settles, ready⟩
  refine (measureAll_foretold onPlatform clocked prepared settles.filled ready sameVariants
    shape).imp (fun _ _ _ same => same) fun after stillReady => ?_
  -- What is settled settles to itself, so what fails from here on changes nothing.
  refine stillReady.imp ?_
  rintro _ _ ⟨rfl, rfl⟩
  exact settles

variable {obtained : ModelRun (Disturbed Platform)}

/-- An execution that has its programs comes to its verdict, or fails on the way and leaves
the verdict as it was. -/
theorem execute_foretold (onPlatform : queue.OnPlatform) {bypassPredictor force : Bool}
    {verdict : Except Error Selection} (checked : run.model.checkContext batch = .ok ())
    (obtains : obtainPrograms batch force run = (.ok key, obtained))
    (underway : Underway queue quiet pace run.model.setup key (fun set compiler =>
      run.model.setup.executeVerdict batch bypassPredictor (set.answers queue.context compiler) =
        verdict) obtained) :
    Foretold quiet (Underway queue quiet pace run.model.setup key fun set compiler =>
        run.model.setup.executeVerdict batch bypassPredictor
          (set.answers queue.context compiler) = verdict)
      run (execute batch bypassPredictor force) verdict
      fun selection result _ => result = selection := by
  rw [Foretold, Ends, Lasting.execute_of_obtained checked obtains]
  exact selectAndEnqueue_foretold onPlatform underway rfl

/-- A tuning that has its programs comes to its verdict, or fails on the way and leaves what
its programs settle to as it was. -/
theorem tune_foretold (onPlatform : queue.OnPlatform) (clocked : queue.clock = Platform.clock)
    {settled : Except BackendError (ProgramSet × Compiler)}
    (checked : run.model.checkContext batch = .ok ())
    (obtains : obtainPrograms batch false run = (.ok key, obtained))
    (underway : Underway queue quiet pace run.model.setup key
      (ProgramSet.SettlesTo queue.context run.model.setup.variants settled) obtained) :
    Foretold quiet
      (Underway queue quiet pace run.model.setup key
        (ProgramSet.SettlesTo queue.context run.model.setup.variants settled))
      run (tune batch) (run.model.setup.tuneVerdict pace queue.context batch settled)
      fun report result _ => result = report := by
  obtain ⟨_, _, sameQueue, _⟩ := of_setup underway.ofSetup
  rw [Foretold, Ends, Lasting.tune_of_obtained checked obtains]
  refine Ends.afterwards ((compileAndMeasure_foretold onPlatform clocked underway rfl
    (sameQueue.symm.trans underway.onQueue)).imp (fun _ _ _ same => same) ?_)
  exact fun after left => ⟨left.ofSetup, left.onQueue, left.steady, left.stored⟩

end Model

end KernelTuner
