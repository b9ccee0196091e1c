import KernelTuner.Proofs.Model.Recording
import KernelTuner.Proofs.Model.Steps
import KernelTuner.Proofs.Program.Requests

/-!
Contract: what stays true of the backend of a model while calls of it are made.

Owns: the rule by which a condition on backends survives whatever is done for a batch: it
has to survive each kind of backend call, where submissions are of launches that a variant
plans for the batch; the same rule for logs; and `Call.events_satisfy`, by which the calls
made for one call on the model satisfy such a condition.
-/

set_option autoImplicit false

namespace KernelTuner

open KernelTuner.Action (Keeps)

variable {σ : Type} {queue : CommandQueue σ} {variants : List Variant} {batch : Batch}

/-! ### Backends -/

/-- A condition on backends that survives all calls made for `batch`. -/
structure BackendRule (queue : CommandQueue σ) (variants : List Variant) (batch : Batch)
    (condition : σ → Prop) : Prop where
  compile : ∀ request state, condition state → condition (queue.compile request state).2
  submit : ∀ launch state, launch.PlannedFor variants batch → condition state →
    condition (queue.submit launch state).2
  finish : ∀ state, condition state → condition (queue.finish state).2

/-- A model of `variants` on `queue`, on a backend that satisfies the condition. -/
structure Backed (queue : CommandQueue σ) (variants : List Variant) (condition : σ → Prop)
    (run : ModelRun σ) : Prop where
  onQueue : run.model.queue = queue
  ofVariants : run.model.variants = variants
  holds : condition run.bench.backend

theorem ProgramSet.program_keeps_backend {condition : σ → Prop}
    (compile : ∀ request state, condition state → condition (queue.compile request state).2)
    (slot : Slot) :
    Keeps (fun state : ProgramSet × Bench σ => condition state.2.backend) (program queue slot) := by
  rintro ⟨set, bench⟩ holds
  show condition (Shell.program queue (set.shell slot, bench)).2.2.backend
  cases held : (set.shell slot).compiled with
  | some kept =>
      simp only [Shell.program, held]
      exact holds
  | none =>
      rw [Shell.state_of_uncompiled queue bench held]
      exact compile _ _ holds

namespace Backed

variable {condition : σ → Prop}

theorem onPrograms {α : Type} {step : Action (ProgramSet × Bench σ) α}
    (kept : Keeps (fun state : ProgramSet × Bench σ => condition state.2.backend) step)
    (key : ProgramKey) : Keeps (Backed queue variants condition) (Model.onPrograms key step) := by
  refine Model.onPrograms_keeps step fun run set reached backed _ _ => ?_
  exact ⟨backed.onQueue, backed.ofVariants, kept (set, run.bench) backed.holds⟩

theorem lasting (rule : BackendRule queue variants batch condition) :
    Lasting queue variants batch (Backed queue variants condition) where
  onQueue := fun _ backed => backed.onQueue
  ofVariants := fun _ backed => backed.ofVariants
  program := fun key slot => onPrograms (ProgramSet.program_keeps_backend rule.compile slot) key
  compileAll := fun key =>
    onPrograms (ProgramSet.keeps_compileAll (ProgramSet.program_keeps_backend rule.compile)) key
  submit := fun launch planned _ backed =>
    ⟨backed.onQueue, backed.ofVariants, rule.submit launch _ planned backed.holds⟩
  finish := fun _ backed => ⟨backed.onQueue, backed.ofVariants, rule.finish _ backed.holds⟩
  override := fun _ _ _ _ backed => ⟨backed.onQueue, backed.ofVariants, backed.holds⟩
  record := fun _ _ backed => ⟨backed.onQueue, backed.ofVariants, backed.holds⟩

variable {run : ModelRun σ}

/-- A lookup of programs leaves the backend alone. -/
theorem obtainPrograms (backed : Backed queue variants condition run) (batch : Batch)
    (force : Bool) : Backed queue variants condition (Model.obtainPrograms batch force run).2 := by
  rcases obtains : Model.obtainPrograms batch force run with ⟨result, obtained⟩
  obtain ⟨sameVariants, _, sameQueue, _⟩ := Model.of_setup (Model.setup_of_obtained obtains)
  refine ⟨sameQueue.trans backed.onQueue, sameVariants.trans backed.ofVariants, ?_⟩
  rw [Model.backend_of_obtained obtains]
  exact backed.holds

/-- A condition that survives all backend calls made for a call survives the call. -/
theorem perform {call : Call} (backed : Backed queue variants condition run)
    (rule : BackendRule queue variants call.batch condition) :
    Backed queue variants condition (call.perform run) :=
  (lasting rule).perform call backed.onQueue backed.ofVariants (fun _ _ => backed) fun _ =>
    backed.obtainPrograms call.batch call.force

end Backed

/-! ### Logs -/

variable {condition : List (BackendEvent σ) → Prop}

/-- A condition on logs that survives all backend calls made for `batch`. -/
structure LogRule (variants : List Variant) (batch : Batch)
    (condition : List (BackendEvent σ) → Prop) : Prop where
  compile : ∀ log request before, condition log →
    condition (log ++ [⟨.compile request, before⟩])
  submit : ∀ log launch before, launch.PlannedFor variants batch → condition log →
    condition (log ++ [⟨.submit launch, before⟩])
  finish : ∀ log before, condition log → condition (log ++ [⟨.finish, before⟩])

/-- The condition, on the log beside a set. -/
def LogBeside (condition : List (BackendEvent σ) → Prop)
    (state : ProgramSet × Bench (Recorded σ)) : Prop :=
  condition state.2.backend.log

/-- A model with a log that satisfies the condition. -/
structure Logs (queue : CommandQueue σ) (variants : List Variant)
    (condition : List (BackendEvent σ) → Prop) (run : ModelRun (Recorded σ)) : Prop where
  onQueue : run.model.queue = queue.recorded
  ofVariants : run.model.variants = variants
  holds : condition run.bench.backend.log

theorem ProgramSet.program_keeps_logBeside
    (compile : ∀ log request before, condition log →
      condition (log ++ [⟨.compile request, before⟩])) (slot : Slot) :
    Keeps (LogBeside condition) (program queue.recorded slot) := by
  have kept (request : CompileRequest) (state : Recorded σ) (holds : condition state.log) :
      condition (queue.recorded.compile request state).2.log :=
    compile state.log request state.backend holds
  exact program_keeps_backend kept slot

/-- A condition on logs is one on backends that keep them. -/
theorem LogRule.backend (rule : LogRule variants batch condition) :
    BackendRule queue.recorded variants batch fun state => condition state.log where
  compile := fun request state => rule.compile state.log request state.backend
  submit := fun launch state => rule.submit state.log launch state.backend
  finish := fun state => rule.finish state.log state.backend

namespace Logs

theorem iff_backed {run : ModelRun (Recorded σ)} :
    Logs queue variants condition run ↔
      Backed queue.recorded variants (fun state => condition state.log) run :=
  ⟨fun logs => ⟨logs.onQueue, logs.ofVariants, logs.holds⟩,
    fun backed => ⟨backed.onQueue, backed.ofVariants, backed.holds⟩⟩

theorem lasting (rule : LogRule variants batch condition) :
    Lasting queue.recorded variants batch (Logs queue variants condition) := by
  have same : Logs queue variants condition =
      Backed queue.recorded variants fun state => condition state.log :=
    funext fun _ => propext iff_backed
  rw [same]
  exact Backed.lasting rule.backend

end Logs

/-- The backend calls made for a call satisfy every condition that holds of no calls and
survives each of them. -/
theorem Call.events_satisfy {call : Call} {run : ModelRun σ}
    (rule : LogRule run.model.variants call.batch condition) (none : condition []) :
    condition (call.events run) := by
  have start : Backed run.model.queue.recorded run.model.variants
      (fun state => condition state.log) (run.recorded []) := ⟨rfl, rfl, none⟩
  exact (start.perform rule.backend).holds

end KernelTuner
