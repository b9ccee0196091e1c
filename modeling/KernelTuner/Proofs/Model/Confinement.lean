import KernelTuner.Proofs.Expression.Drafts
import KernelTuner.Proofs.Model.Logging
import KernelTuner.Proofs.Model.Selecting
import KernelTuner.Proofs.Model.Signatures
import KernelTuner.Proofs.Model.Traces

/-!
Contract: models stay within the context of their queue.

Owns: `calls_confined_to_context`, by which a call for a batch that builders have made is
refused when the batch is of another context, before it does anything, and otherwise passes
on only buffers of the queue's context that were pushed for the batch, and compiles for that
context only.
Does not own: whether two contexts have buffers of one identity.
-/

set_option autoImplicit false

namespace KernelTuner

variable {σ : Type} {queue : CommandQueue σ} {variants : List Variant}

/-- Why a call has failed. -/
def Outcome.failure? : Outcome → Option Error
  | executed (.error cause) => some cause
  | tuned (.error cause) => some cause
  | _ => none

namespace Call

variable {run : ModelRun σ}

/-! ### Refusals -/

/-- A call for a batch that the check refuses fails with its cause and leaves the model and
the backend alone. -/
theorem refused (call : Call) {cause : Error}
    (checked : run.model.checkContext call.batch = .error cause) :
    (call.outcome run).failure? = some cause ∧ (call.perform run).model = run.model ∧
      (call.perform run).bench.backend = run.bench.backend := by
  cases call with
  | execute batch bypassPredictor force =>
      have ends : Model.execute batch bypassPredictor force run = (.error cause, run) :=
        Lasting.execute_of_refused checked
      simp only [outcome, Outcome.failure?, perform, ends, and_self]
  | tune batch =>
      have ends : Model.tune batch run =
          (.error cause, { run with bench := run.bench.record .tune }) :=
        Lasting.tune_of_refused checked
      simp only [outcome, Outcome.failure?, perform, ends, Bench.record, and_self]

/-- A call that is refused asks nothing of the backend. -/
theorem silent_of_refused (call : Call) {cause : Error}
    (checked : run.model.checkContext call.batch = .error cause) :
    call.events run = [] ∧ call.submissions run = [] := by
  have recordedChecked : (run.recorded []).model.checkContext call.batch = .error cause := checked
  obtain ⟨_, _, sameBackend⟩ := call.refused recordedChecked
  exact ⟨congrArg Recorded.log sameBackend, congrArg Recorded.launches sameBackend⟩

/-! ### Launches -/

/-- A log of which all launches are planned for the batch. -/
theorem planned_rule (variants : List Variant) (batch : Batch) :
    LogRule variants batch fun log : List (BackendEvent σ) =>
      ∀ launch ∈ log.filterMap (fun event => event.call.launch?),
        launch.PlannedFor variants batch where
  compile := fun log request before planned => by
    rw [List.filterMap_append]
    exact fun launch member => planned launch (by simpa [BackendCall.launch?] using member)
  submit := fun log launch before plannedLast planned => by
    rw [List.filterMap_append]
    refine List.forall_mem_append.2 ⟨planned, ?_⟩
    exact List.forall_mem_singleton.2 plannedLast
  finish := fun log before planned => by
    rw [List.filterMap_append]
    exact fun launch member => planned launch (by simpa [BackendCall.launch?] using member)

/-- Whatever a call submits is planned for its batch. -/
theorem submissions_planned (call : Call) (run : ModelRun σ) :
    ∀ launch ∈ call.submissions run, launch.PlannedFor run.model.variants call.batch :=
  events_satisfy (planned_rule run.model.variants call.batch) nofun

/-- Whatever is passed to the launches of a call is held by its batch. -/
theorem submissions_heldBy (call : Call) (run : ModelRun σ) :
    ∀ launch ∈ call.submissions run, ∀ argument ∈ launch.arguments,
      argument.HeldBy call.batch := by
  intro launch submitted
  obtain ⟨index, variant, plan, program, _, planned, member⟩ :=
    call.submissions_planned run launch submitted
  obtain ⟨only, listed, rfl⟩ := List.mem_map.1 member
  exact Variant.arguments_heldBy planned only listed

end Call

/-! ### Confinement -/

/-- How a call for a batch that was made of `drafts` keeps to the queue's context. -/
structure Confined (queue : CommandQueue σ) (drafts : List Draft) (call : Call)
    (run : ModelRun σ) : Prop where
  /-- All drafts of the batch and all buffers that were pushed for it are of its context. -/
  oneContext : ∀ draft ∈ drafts, draft.context = call.batch.context ∧
    ∀ handle, draft.Pushes handle → handle.context = call.batch.context
  /-- A launch is passed buffers of the queue's context that were pushed for the batch. -/
  buffers : ∀ launch ∈ call.submissions run, ∀ id, .buffer id ∈ launch.arguments →
    ∃ draft ∈ drafts, ∃ handle, draft.Pushes handle ∧ handle.id = id ∧
      handle.context = queue.context
  /-- Programs are compiled for the queue's context. -/
  requests : ∀ event ∈ call.events run, ∀ request, event.call = .compile request →
    request.context = queue.context
  /-- A batch of another context is refused before anything is done for it. -/
  refused : call.batch.context ≠ queue.context →
    (call.outcome run).failure? =
        some (.contextMismatch queue.context call.batch.context) ∧
      call.events run = [] ∧ (call.perform run).model = run.model ∧
      (call.perform run).bench.backend = run.bench.backend

/-- After any history of calls on a model, a call for a batch that builders have made keeps
to the context of the queue. -/
theorem calls_confined_to_context {predictor : Option CostPredictor} {model : Model σ}
    {bench : Bench σ} {drift : σ → σ → Prop} {calls : List Call} {run : ModelRun σ}
    {drafts : List Draft} {call : Call}
    (created : Model.create variants predictor queue = .ok model)
    (reached : Reaches drift ⟨model, bench⟩ calls run)
    (drafted : Drafted drafts call.batch) : Confined queue drafts call run := by
  have onQueue : run.model.queue = queue := ((Stocked.initial created).of_reaches reached).onQueue
  have refusal (foreign : call.batch.context ≠ queue.context) :
      run.model.checkContext call.batch =
        .error (.contextMismatch queue.context call.batch.context) := by
    rw [← onQueue]
    exact Model.checkContext_of_other (onQueue ▸ foreign)
  constructor
  case oneContext =>
    intro draft listed
    exact ⟨drafted.context_of_mem listed, fun handle => drafted.context_of_pushes listed⟩
  case buffers =>
    intro launch submitted id passed
    obtain ⟨handle, holds, identity⟩ := call.submissions_heldBy run launch submitted _ passed
    obtain ⟨draft, listed, pushes⟩ := drafted.holds_iff.1 holds
    have home : call.batch.context = queue.context := by
      by_contra foreign
      rw [(call.silent_of_refused (refusal foreign)).2] at submitted
      cases submitted
    exact ⟨draft, listed, handle, pushes, identity, (Batch.context_of_holds holds).trans home⟩
  case requests =>
    intro event member request asks
    obtain ⟨events, traced⟩ := reached.traced
    have accounted := (Accounted.initial created).of_traced (traced.call call)
    exact accounted.context_of_request (List.mem_append_right events member) asks
  case refused =>
    intro foreign
    obtain ⟨fails, sameModel, sameBackend⟩ := call.refused (refusal foreign)
    exact ⟨fails, (call.silent_of_refused (refusal foreign)).1, sameModel, sameBackend⟩

/-! ### Inner products on two contexts -/

/-- The draft of an inner product of two vectors of single precision. -/
def Draft.dot (context : ContextId) : Draft where
  context := context
  elementType := .f32
  pushes := [
    ⟨.buffer ⟨⟨1⟩, .f32, .vector 8, context⟩, .innerProduct,
      .buffer ⟨⟨2⟩, .f32, .vector 8, context⟩⟩,
    ⟨.buffer ⟨⟨0⟩, .f32, .scalar, context⟩, .assign, .node 0⟩]
  root := .node 1

theorem Draft.dot_finished (context : ContextId) :
    (dot context).finish = .ok (.assignment .f32 ⟨⟨0⟩, .f32, .scalar, context⟩ .innerProduct
      (.buffer ⟨⟨1⟩, .f32, .vector 8, context⟩) (.buffer ⟨⟨2⟩, .f32, .vector 8, context⟩)
      ⟨rfl, rfl⟩) :=
  finish_eq_ok_iff.2 ⟨⟨1, rfl, rfl⟩, rfl, rfl, rfl⟩

/-- An inner product on the queue's context submits a launch on a buffer that was pushed for
it, and one on another context is refused. -/
theorem dot_confined :
    (∃ launch ∈ (Call.execute (.dot .f32) false false).submissions .folding,
      .buffer ⟨1⟩ ∈ launch.arguments ∧
        ∃ handle, (Draft.dot ⟨1⟩).Pushes handle ∧ handle.id = ⟨1⟩ ∧ handle.context = ⟨1⟩) ∧
      ∃ foreign, Drafted [.dot ⟨2⟩] foreign ∧ foreign.context = ⟨2⟩ ∧
        ((Call.tune foreign).outcome ModelRun.folding).failure? =
          some (.contextMismatch ⟨1⟩ ⟨2⟩) := by
  have reached : Reaches (fun _ _ => False) ModelRun.folding [] .folding := .start
  constructor
  · have working : Working (Platform.single.commandQueue ⟨1⟩) [.folding] .folding :=
      .initial folding_created folding_ready
    obtain ⟨launch, submitted, length, bytes, arguments⟩ := working.dot_submitted .f32 rfl
    have passed : .buffer ⟨1⟩ ∈ launch.arguments := by
      rw [arguments]
      exact List.mem_cons_of_mem _ List.mem_cons_self
    have drafted : Drafted [.dot ⟨1⟩] (Call.execute (.dot .f32) false false).batch :=
      .single (Draft.dot_finished ⟨1⟩)
    have confined := calls_confined_to_context folding_created reached drafted
    obtain ⟨draft, listed, handle, pushes, identity, home⟩ :=
      confined.buffers launch submitted ⟨1⟩ passed
    obtain rfl := List.mem_singleton.1 listed
    exact ⟨launch, submitted, passed, handle, pushes, identity, home⟩
  · have drafted := Drafted.single (Draft.dot_finished ⟨2⟩)
    have elsewhere : (⟨2⟩ : ContextId) ≠ ⟨1⟩ := by decide
    have confined : Confined _ [.dot ⟨2⟩] (.tune (.single _)) _ :=
      calls_confined_to_context folding_created reached drafted
    exact ⟨_, drafted, rfl, (confined.refused elsewhere).1⟩

end KernelTuner
