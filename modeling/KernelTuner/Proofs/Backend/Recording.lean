import KernelTuner.Backend.Basic
import KernelTuner.Proofs.Action

/-!
Contract: the calls that a queue makes of its backend.

Owns: the log of such calls, each with the backend that it finds; queues that keep the
log; and the rules by which a step on a queue that does is the step on the queue itself.
-/

set_option autoImplicit false

namespace KernelTuner

variable {σ α : Type}

/-! ### Logs -/

/-- A call of the backend. Reading the clock is none. -/
inductive BackendCall where
  | compile (request : CompileRequest)
  | submit (launch : Launch)
  | finish

/-- The launch that a call submits. -/
def BackendCall.launch? : BackendCall → Option Launch
  | submit launch => some launch
  | _ => none

/-- A call, and the backend that it finds. -/
structure BackendEvent (σ : Type) where
  call : BackendCall
  before : σ

/-- A backend with the log of the calls of it, failed ones included. -/
structure Recorded (σ : Type) where
  backend : σ
  log : List (BackendEvent σ)

namespace Recorded

/-- Makes a call and notes it. -/
def note (call : BackendCall) (action : σ → Except BackendError α × σ) (state : Recorded σ) :
    Except BackendError α × Recorded σ :=
  ((action state.backend).1,
    { backend := (action state.backend).2
      log := state.log ++ [⟨call, state.backend⟩] })

theorem note_of_outcome {call : BackendCall} {action : σ → Except BackendError α × σ}
    {state : Recorded σ} {reply : Except BackendError α} {after : σ}
    (outcome : action state.backend = (reply, after)) :
    note call action state = (reply, ⟨after, state.log ++ [⟨call, state.backend⟩]⟩) := by
  unfold note
  rw [outcome]

/-- The launches in the log. -/
def launches (state : Recorded σ) : List Launch :=
  state.log.filterMap fun event => event.call.launch?

variable (action : σ → Except BackendError α × σ) (state : Recorded σ)

theorem note_launches (call : BackendCall) :
    (note call action state).2.launches = state.launches ++ call.launch?.toList := by
  unfold note launches
  rw [List.filterMap_append]
  cases call <;> rfl

@[simp] theorem note_submit_launches (launch : Launch) :
    (note (.submit launch) action state).2.launches = state.launches ++ [launch] :=
  note_launches action state _

end Recorded

/-- The queue, on a backend that keeps a log. -/
def CommandQueue.recorded (queue : CommandQueue σ) : CommandQueue (Recorded σ) where
  id := queue.id
  context := queue.context
  device := queue.device
  compile := fun request => Recorded.note (.compile request) (queue.compile request)
  submit := fun launch => Recorded.note (.submit launch) (queue.submit launch)
  finish := Recorded.note .finish queue.finish
  clock := fun state => queue.clock state.backend

/-- The bench with a log on its backend. -/
def Bench.recorded (log : List (BackendEvent σ)) (bench : Bench σ) : Bench (Recorded σ) where
  backend := ⟨bench.backend, log⟩
  profile := bench.profile

/-! ### Steps that keep a log -/

/-- A step that ends as `plain` does. `view` shows a state of `plain` with a log, and the
log grows by what depends on that state only. -/
def Action.Mirrors {ε ς τ : Type} (view : List ε → ς → τ) (plain : Action ς α)
    (recording : Action τ α) : Prop :=
  ∀ state, ∃ more, ∀ log,
    recording (view log state) = ((plain state).1, view (log ++ more) (plain state).2)

namespace Action.Mirrors

variable {ε ς τ β : Type} {view : List ε → ς → τ}

/-- A step that leaves the log alone. -/
theorem silent {plain : Action ς α} {recording : Action τ α}
    (same : ∀ state log, recording (view log state) = ((plain state).1, view log (plain state).2)) :
    Mirrors view plain recording := by
  intro state
  refine ⟨[], fun log => ?_⟩
  rw [List.append_nil]
  exact same state log

theorem pure (value : α) :
    Mirrors view (Pure.pure value : Action ς α) (Pure.pure value : Action τ α) :=
  silent fun _ _ => rfl

theorem ofExcept (result : Except Error α) :
    Mirrors view (Action.ofExcept result) (Action.ofExcept result) :=
  silent fun _ _ => rfl

theorem read {plain : ς → α} {recording : τ → α}
    (same : ∀ state log, recording (view log state) = plain state) :
    Mirrors view (Action.read plain) (Action.read recording) := by
  refine silent fun state log => ?_
  simp only [Action.read, same]

theorem bind {first : Action ς β} {recordingFirst : Action τ β} {continuation : β → Action ς α}
    {recordingContinuation : β → Action τ α} (firstMirrors : Mirrors view first recordingFirst)
    (rest : ∀ value, Mirrors view (continuation value) (recordingContinuation value)) :
    Mirrors view (first >>= continuation) (recordingFirst >>= recordingContinuation) := by
  intro state
  obtain ⟨more, same⟩ := firstMirrors state
  rcases outcome : first state with ⟨result, reached⟩
  rw [outcome] at same
  cases result with
  | error cause =>
      refine ⟨more, fun log => ?_⟩
      rw [bind_error (same log), bind_error outcome]
  | ok value =>
      obtain ⟨others, restSame⟩ := rest value reached
      refine ⟨more ++ others, fun log => ?_⟩
      rw [bind_ok (same log), bind_ok outcome, restSame, List.append_assoc]

/-- A step and its mirror image may go on from different readings of the state. -/
theorem read_bind {γ : Type} {plain : ς → β} {recording : τ → γ} {continuation : β → Action ς α}
    {recordingContinuation : γ → Action τ α} (shown : β → γ)
    (same : ∀ state log, recording (view log state) = shown (plain state))
    (rest : ∀ value, Mirrors view (continuation value) (recordingContinuation (shown value))) :
    Mirrors view (Action.read plain >>= continuation)
      (Action.read recording >>= recordingContinuation) := by
  intro state
  obtain ⟨more, restSame⟩ := rest (plain state) state
  refine ⟨more, fun log => ?_⟩
  have reading : Action.read recording (view log state) =
      (.ok (shown (plain state)), view log state) := by
    simp only [Action.read, same]
  rw [bind_ok reading, restSame]
  rfl

theorem afterwards {plain : Action ς α} {recording : Action τ α} {update : ς → ς}
    {recordingUpdate : τ → τ} (mirrors : Mirrors view plain recording)
    (same : ∀ state log, recordingUpdate (view log state) = view log (update state)) :
    Mirrors view (plain.afterwards update) (recording.afterwards recordingUpdate) := by
  intro state
  obtain ⟨more, ends⟩ := mirrors state
  refine ⟨more, fun log => ?_⟩
  simp only [Action.afterwards, ends, same]

end Action.Mirrors

end KernelTuner
