import KernelTuner.Proofs.Backend.Recording

/-!
Contract: backends of which any call may fail.

Owns: plans by which calls of a backend fail without being made; the failed calls of a
log; and the rules by which a step on such a backend does what it does on a calm one up
to the first call that fails, and nothing after that call.
-/

set_option autoImplicit false

namespace KernelTuner

variable {σ α : Type}

/-- What is going to happen to the next calls of a backend: each is made, or fails with
the error that stands in its place. Behind the end of the plan all are made. -/
abbrev Plan := List (Option BackendError)

/-- A backend with a plan. -/
structure Disturbed (σ : Type) where
  backend : σ
  plan : Plan

namespace Disturbed

/-- Makes the next call unless the plan has it fail. -/
def attempt (action : σ → Except BackendError α × σ) (state : Disturbed σ) :
    Except BackendError α × Disturbed σ :=
  match state.plan.head?.join with
  | some cause => (.error cause, { state with plan := state.plan.tail })
  | none => ((action state.backend).1, ⟨(action state.backend).2, state.plan.tail⟩)

/-- A call either is made, as without a plan, or fails and is not made. -/
theorem attempt_cases (action : σ → Except BackendError α × σ) (backend : σ) (plan : Plan) :
    attempt action ⟨backend, plan⟩ =
        ((action backend).1, ⟨(action backend).2, plan.tail⟩) ∨
      ∃ cause, attempt action ⟨backend, plan⟩ = (.error cause, ⟨backend, plan.tail⟩) ∧
        plan ≠ [] := by
  unfold attempt
  split
  · next cause planned =>
      refine .inr ⟨cause, rfl, ?_⟩
      rintro rfl
      cases planned
  · exact .inl rfl

/-- The backend without its plan. -/
def calm (state : Disturbed σ) : Disturbed σ := { state with plan := [] }

end Disturbed

/-- The queue, on a backend with a plan. -/
def CommandQueue.disturbed (queue : CommandQueue σ) : CommandQueue (Disturbed σ) where
  id := queue.id
  context := queue.context
  device := queue.device
  compile := fun request => Disturbed.attempt (queue.compile request)
  submit := fun launch => Disturbed.attempt (queue.submit launch)
  finish := Disturbed.attempt queue.finish
  clock := fun state => queue.clock state.backend

/-! ### Failed calls -/

/-- Why a call of the backend has failed. -/
def causeOf? : Except BackendError α → Option BackendError
  | .ok _ => none
  | .error cause => some cause

/-- Why the call of an event has failed. -/
def BackendEvent.failure? (queue : CommandQueue σ) (event : BackendEvent σ) :
    Option BackendError :=
  match event.call with
  | .compile request => causeOf? (queue.compile request event.before).1
  | .submit launch => causeOf? (queue.submit launch event.before).1
  | .finish => causeOf? (queue.finish event.before).1

/-! ### Steps that stop at the first failure -/

namespace Action

variable {ς τ β : Type} {queue : CommandQueue σ}
  {view : Plan → List (BackendEvent σ) → ς → τ}

/-- How a step ends under a plan, beside the calm step, which ends with `result` in
`reached` after the calls of `noted`. -/
inductive Beside (queue : CommandQueue σ) (view : Plan → List (BackendEvent σ) → ς → τ)
    (step : Action τ α) (state : ς) (plan : Plan) (result : Except Error α)
    (noted : List (BackendEvent σ)) (reached : ς) : Prop where
  /-- No call fails, and all is as without the plan. -/
  | along (left : Plan) (events : List (BackendEvent σ))
      (ends : ∀ log, step (view plan log state) = (result, view left (log ++ events) reached))
      (calls : events.map BackendEvent.call = noted.map BackendEvent.call)
      (unfailed : ∀ event ∈ events, event.failure? queue = none)
  /-- The step ends with the first call that fails. -/
  | stopped (left : Plan) (passed : List (BackendEvent σ)) (last : BackendEvent σ)
      (cause : BackendError) (behind : ς)
      (ends : ∀ log, step (view plan log state) =
        (.error (.backend cause), view left (log ++ (passed ++ [last])) behind))
      (calls : (passed ++ [last]).map BackendEvent.call <+: noted.map BackendEvent.call)
      (unfailed : ∀ event ∈ passed, event.failure? queue = none)
      (failed : last.failure? queue = some cause)

/-- From this state a step does, under any plan, what it does on a calm backend up to the
first call that fails. `view` shows a state with a plan and a log. -/
def FailsFastFrom (queue : CommandQueue σ) (view : Plan → List (BackendEvent σ) → ς → τ)
    (step : Action τ α) (state : ς) : Prop :=
  ∃ result noted reached,
    (∀ log, step (view [] log state) = (result, view [] (log ++ noted) reached)) ∧
      ∀ plan, Beside queue view step state plan result noted reached

/-- A step that stops at the first call that fails. -/
def FailsFast (queue : CommandQueue σ) (view : Plan → List (BackendEvent σ) → ς → τ)
    (step : Action τ α) : Prop :=
  ∀ state, FailsFastFrom queue view step state

namespace FailsFastFrom

variable {step : Action τ α} {state : ς}

/-- Another step that ends as this one does, in states that show what this one reaches,
stops where this one does. -/
theorem transfer {ς' τ' : Type} {otherView : Plan → List (BackendEvent σ) → ς' → τ'}
    {other : Action τ' α} {start : ς'} (update : ς → ς')
    (fast : FailsFastFrom queue view step state)
    (same : ∀ plan log result left more reached,
      step (view plan log state) = (result, view left more reached) →
        other (otherView plan log start) = (result, otherView left more (update reached))) :
    FailsFastFrom queue otherView other start := by
  obtain ⟨result, noted, reached, calm, beside⟩ := fast
  refine ⟨result, noted, update reached, fun log => same _ _ _ _ _ _ (calm log), fun plan => ?_⟩
  cases beside plan with
  | along left events ends calls unfailed =>
      exact .along left events (fun log => same _ _ _ _ _ _ (ends log)) calls unfailed
  | stopped left passed last cause behind ends calls unfailed failed =>
      exact .stopped left passed last cause (update behind)
        (fun log => same _ _ _ _ _ _ (ends log)) calls unfailed failed

/-- A step that makes no call. -/
theorem silent (result : Except Error α) (reached : ς)
    (same : ∀ plan log, step (view plan log state) = (result, view plan log reached)) :
    FailsFastFrom queue view step state := by
  have ends (plan : Plan) (log : List (BackendEvent σ)) :
      step (view plan log state) = (result, view plan (log ++ []) reached) := by
    rw [List.append_nil]
    exact same plan log
  exact ⟨result, [], reached, ends [], fun plan => .along plan [] (ends plan) rfl nofun⟩

end FailsFastFrom

/-- A step that makes one call and fails when the call does. -/
theorem FailsFastFrom.of_call {queue : CommandQueue (Disturbed σ)}
    {view : Plan → List (BackendEvent (Disturbed σ)) → ς → τ} {step : Action τ α} {state : ς}
    (call : BackendCall) (action : σ → Except BackendError β × σ) (backend : σ)
    (result : Except BackendError β → Except Error α) (next : Except BackendError β → σ → ς)
    (ends : ∀ plan log reply after, Disturbed.attempt action ⟨backend, plan⟩ = (reply, after) →
      step (view plan log state) = (result reply,
        view after.plan (log ++ [⟨call, ⟨backend, plan⟩⟩]) (next reply after.backend)))
    (failing : ∀ cause, result (.error cause) = .error (.backend cause))
    (judged : ∀ plan, BackendEvent.failure? queue ⟨call, ⟨backend, plan⟩⟩ =
      causeOf? (Disturbed.attempt action ⟨backend, plan⟩).1) :
    FailsFastFrom queue view step state := by
  refine ⟨_, _, _, fun log => ends [] log (action backend).1 ⟨(action backend).2, []⟩ rfl, ?_⟩
  intro plan
  -- A call that fails, by itself or by the plan, is the last one.
  have fails {cause : BackendError} {after : Disturbed σ}
      (outcome : Disturbed.attempt action ⟨backend, plan⟩ = (.error cause, after)) :
      Beside queue view step state plan (result (action backend).1)
        [⟨call, ⟨backend, []⟩⟩] (next (action backend).1 (action backend).2) := by
    refine .stopped after.plan [] ⟨call, ⟨backend, plan⟩⟩ cause (next (.error cause) after.backend)
      (fun log => ?_) (List.prefix_refl _) nofun ?_
    · rw [ends plan log _ _ outcome, failing]
      rfl
    · rw [judged, outcome]
      rfl
  rcases Disturbed.attempt_cases action backend plan with made | ⟨cause, refused, -⟩
  · rcases outcome : action backend with ⟨reply, after⟩
    rw [outcome] at made
    cases reply with
    | error cause =>
        rw [outcome] at fails
        exact fails made
    | ok value =>
        refine .along plan.tail [⟨call, ⟨backend, plan⟩⟩] (fun log => ends plan log _ _ made) rfl ?_
        refine List.forall_mem_singleton.2 ?_
        rw [judged, made]
        rfl
  · exact fails refused

namespace FailsFast

/-- A step that makes no call. -/
theorem silent {step : Action τ α} (shown : ς → Except Error α × ς)
    (same : ∀ plan log state, step (view plan log state) =
      ((shown state).1, view plan log (shown state).2)) : FailsFast queue view step :=
  fun state => .silent _ _ fun plan log => same plan log state

theorem pure (value : α) : FailsFast queue view (Pure.pure value : Action τ α) :=
  silent (Prod.mk (.ok value)) fun _ _ _ => rfl

theorem ofExcept (result : Except Error α) :
    FailsFast queue view (Action.ofExcept result : Action τ α) :=
  silent (Prod.mk result) fun _ _ _ => rfl

/-- What is read off a state does not depend on the plan and the log. -/
theorem read_bind {reading : τ → β} {continuation : β → Action τ α} (shown : ς → β)
    (same : ∀ plan log state, reading (view plan log state) = shown state)
    (rest : ∀ state, FailsFast queue view (continuation (shown state))) :
    FailsFast queue view (Action.read reading >>= continuation) := by
  intro state
  refine (rest state state).transfer id fun plan log _ _ _ _ outcome => ?_
  rw [read_bind_apply, same]
  exact outcome

/-- What is done on the state alone behind a step changes nothing about its calls. -/
theorem afterwards {step : Action τ α} {update : τ → τ} (shown : ς → ς)
    (fast : FailsFast queue view step)
    (same : ∀ plan log state, update (view plan log state) = view plan log (shown state)) :
    FailsFast queue view (step.afterwards update) := by
  intro state
  refine (fast state).transfer shown fun _ _ _ _ _ _ ends => ?_
  simp only [Action.afterwards, ends, same]

/-- A sequence stops where its first part stops, and otherwise where its second part does,
which starts from where the calm one does. -/
theorem bind {first : Action τ β} {continuation : β → Action τ α}
    (firstFast : FailsFast queue view first)
    (rest : ∀ value, FailsFast queue view (continuation value)) :
    FailsFast queue view (first >>= continuation) := by
  intro state
  obtain ⟨firstResult, firstNoted, between, firstCalm, firstBeside⟩ := firstFast state
  cases firstResult with
  | error cause =>
      refine ⟨.error cause, firstNoted, between, fun log => bind_error (firstCalm log), ?_⟩
      intro plan
      cases firstBeside plan with
      | along left events ends calls unfailed =>
          exact .along left events (fun log => bind_error (ends log)) calls unfailed
      | stopped left passed last cause behind ends calls unfailed failed =>
          exact .stopped left passed last cause behind (fun log => bind_error (ends log)) calls
            unfailed failed
  | ok value =>
      obtain ⟨result, noted, reached, calm, beside⟩ := rest value between
      refine ⟨result, firstNoted ++ noted, reached, fun log => ?_, fun plan => ?_⟩
      · rw [bind_ok (firstCalm log), calm, List.append_assoc]
      cases firstBeside plan with
      | stopped left passed last cause behind ends calls unfailed failed =>
          refine .stopped left passed last cause behind (fun log => bind_error (ends log)) ?_
            unfailed failed
          exact calls.trans (List.map_append ▸ List.prefix_append _ _)
      | along middle events ends calls unfailed =>
          cases beside middle with
          | along left others restEnds restCalls restUnfailed =>
              refine .along left (events ++ others) (fun log => ?_) ?_
                (List.forall_mem_append.2 ⟨unfailed, restUnfailed⟩)
              · rw [bind_ok (ends log), restEnds, List.append_assoc]
              · rw [List.map_append, List.map_append, calls, restCalls]
          | stopped left passed last cause behind restEnds restCalls restUnfailed failed =>
              refine .stopped left (events ++ passed) last cause behind (fun log => ?_) ?_
                (List.forall_mem_append.2 ⟨unfailed, restUnfailed⟩) failed
              · rw [bind_ok (ends log), restEnds, List.append_assoc, List.append_assoc]
              · have whole : (firstNoted ++ noted).map BackendEvent.call =
                    events.map BackendEvent.call ++ noted.map BackendEvent.call := by
                  rw [List.map_append, calls]
                rw [whole, List.append_assoc, List.map_append]
                exact (List.prefix_append_right_inj _).2 restCalls

end FailsFast

end Action

end KernelTuner
