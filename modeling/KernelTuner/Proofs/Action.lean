import KernelTuner.Action

/-!
Contract: what steps do.

Owns: when a step keeps a condition on its state, whether it fails or not; what its
values satisfy; how it ends from one state, also beside a verdict that is computed in
advance; and the rules by which all of this passes from the parts of a step to the whole.
-/

set_option autoImplicit false

namespace KernelTuner.Action

variable {ς τ α β : Type} {condition : ς → Prop}

theorem bind_ok {first : Action ς α} {continuation : α → Action ς β} {state reached : ς}
    {value : α} (succeeded : first state = (.ok value, reached)) :
    (first >>= continuation) state = continuation value reached :=
  andThen_of_ok succeeded

theorem bind_error {first : Action ς α} {continuation : α → Action ς β} {state reached : ς}
    {cause : Error} (failed : first state = (.error cause, reached)) :
    (first >>= continuation) state = (.error cause, reached) :=
  andThen_of_error failed

/-- A sequence depends on its first part only through how that ends. -/
theorem bind_congr_first {first other : Action ς α} {continuation : α → Action ς β} {state : ς}
    (same : first state = other state) :
    (first >>= continuation) state = (other >>= continuation) state := by
  show first.andThen continuation state = other.andThen continuation state
  unfold andThen
  rw [same]

/-- A sequence whose second part changes nothing leaves what its first part leaves. -/
theorem bind_state {first : Action ς α} {continuation : α → Action ς β}
    (silent : ∀ value state, (continuation value state).2 = state) (state : ς) :
    ((first >>= continuation) state).2 = (first state).2 := by
  rcases outcome : first state with ⟨result, reached⟩
  cases result with
  | ok value =>
      rw [bind_ok outcome]
      exact silent value reached
  | error cause => rw [bind_error outcome]

/-- Reading hands on what it has read. -/
theorem read_bind_apply {view : ς → α} {continuation : α → Action ς β} {state : ς} :
    (Action.read view >>= continuation) state = continuation (view state) state := rfl

/-- A sequence succeeds exactly when both of its parts do. -/
theorem bind_succeeds_iff {first : Action ς α} {continuation : α → Action ς β}
    {state reached : ς} {value : β} :
    (first >>= continuation) state = (.ok value, reached) ↔
      ∃ early between, first state = (.ok early, between) ∧
        continuation early between = (.ok value, reached) := by
  rcases outcome : first state with ⟨result, between⟩
  cases result with
  | ok early =>
      rw [bind_ok outcome]
      constructor
      · exact fun rest => ⟨early, between, rfl, rest⟩
      · rintro ⟨_, _, same, rest⟩
        cases same
        exact rest
  | error cause =>
      rw [bind_error outcome]
      constructor
      · intro impossible
        cases impossible
      · rintro ⟨_, _, impossible, _⟩
        cases impossible

theorem pure_succeeds_iff {value result : α} {state reached : ς} :
    (Pure.pure value : Action ς α) state = (.ok result, reached) ↔
      value = result ∧ state = reached := by
  constructor
  · intro same
    cases same
    exact ⟨rfl, rfl⟩
  · rintro ⟨rfl, rfl⟩
    rfl

theorem ofExcept_succeeds_iff {result : Except Error α} {state reached : ς} {value : α} :
    ofExcept result state = (.ok value, reached) ↔ result = .ok value ∧ state = reached :=
  Iff.of_eq (Prod.mk.injEq ..)

theorem afterwards_succeeds_iff {step : Action ς α} {update : ς → ς} {state reached : ς}
    {value : α} :
    step.afterwards update state = (.ok value, reached) ↔
      ∃ before, step state = (.ok value, before) ∧ update before = reached := by
  unfold afterwards
  rcases outcome : step state with ⟨result, before⟩
  constructor
  · intro same
    cases same
    exact ⟨before, rfl, rfl⟩
  · rintro ⟨_, same, rfl⟩
    cases same
    rfl

/-- The condition holds behind a step when it holds in front of it. -/
def Keeps (condition : ς → Prop) (step : Action ς α) : Prop :=
  ∀ state, condition state → condition (step state).2

namespace Keeps

theorem pure (value : α) : Keeps condition (Pure.pure value : Action ς α) :=
  fun _ holds => holds

theorem ofExcept (result : Except Error α) : Keeps condition (ofExcept result : Action ς α) :=
  fun _ holds => holds

theorem read (view : ς → α) : Keeps condition (read view) := fun _ holds => holds

/-- What is read off a state satisfies what the condition says of that state. -/
theorem read_bind {view : ς → α} {continuation : α → Action ς β}
    (kept : ∀ state, condition state → Keeps condition (continuation (view state))) :
    Keeps condition (Action.read view >>= continuation) :=
  fun state holds => kept state holds state holds

theorem ofExcept_bind {result : Except Error α} {continuation : α → Action ς β}
    (kept : ∀ value, result = .ok value → Keeps condition (continuation value)) :
    Keeps condition (Action.ofExcept result >>= continuation) := by
  cases result with
  | ok value => exact kept value rfl
  | error cause => exact fun _ holds => holds

end Keeps

/-- All values of the step satisfy the property. -/
def Yields (property : α → Prop) (step : Action ς α) : Prop :=
  ∀ state value reached, step state = (.ok value, reached) → property value

namespace Yields

variable {property : α → Prop}

theorem pure {value : α} (satisfied : property value) :
    Yields property (Pure.pure value : Action ς α) := by
  intro state other reached same
  cases same
  exact satisfied

theorem bind {earlier : β → Prop} {first : Action ς β} {continuation : β → Action ς α}
    (firstYields : Yields earlier first)
    (restYields : ∀ value, earlier value → Yields property (continuation value)) :
    Yields property (first >>= continuation) := by
  intro state value reached same
  rcases outcome : first state with ⟨result, between⟩
  cases result with
  | ok early =>
      rw [bind_ok outcome] at same
      exact restYields early (firstYields state early between outcome) between value reached same
  | error cause =>
      rw [bind_error outcome] at same
      simp at same

theorem anything {step : Action ς α} : Yields (fun _ => True) step := fun _ _ _ _ => trivial

end Yields

theorem Keeps.bind_yields {property : α → Prop} {first : Action ς α}
    {continuation : α → Action ς β} (firstKeeps : Keeps condition first)
    (firstYields : Yields property first)
    (restKeeps : ∀ value, property value → Keeps condition (continuation value)) :
    Keeps condition (first >>= continuation) := by
  intro state holds
  have kept := firstKeeps state holds
  rcases outcome : first state with ⟨result, reached⟩
  rw [outcome] at kept
  cases result with
  | ok value =>
      rw [bind_ok outcome]
      exact restKeeps value (firstYields state value reached outcome) reached kept
  | error cause =>
      rw [bind_error outcome]
      exact kept

theorem Keeps.bind {first : Action ς α} {continuation : α → Action ς β}
    (firstKeeps : Keeps condition first)
    (restKeeps : ∀ value, Keeps condition (continuation value)) :
    Keeps condition (first >>= continuation) :=
  firstKeeps.bind_yields .anything fun value _ => restKeeps value

/-- What holds behind the first part holds behind the whole if the rest keeps it. -/
theorem Keeps.behind {first : Action ς α} {continuation : α → Action ς β} {state : ς}
    (reached : condition (first state).2) (restKeeps : ∀ value, Keeps condition (continuation value)) :
    condition ((first >>= continuation) state).2 := by
  rcases outcome : first state with ⟨result, between⟩
  rw [outcome] at reached
  cases result with
  | ok value =>
      rw [bind_ok outcome]
      exact restKeeps value between reached
  | error cause =>
      rw [bind_error outcome]
      exact reached

/-- How the step ends from one state, when it succeeds and when it fails. -/
def Ends (state : ς) (step : Action ς α) (success : α → ς → Prop) (failure : Error → ς → Prop) :
    Prop :=
  match step state with
  | (.ok value, reached) => success value reached
  | (.error cause, reached) => failure cause reached

namespace Ends

variable {state : ς} {success : α → ς → Prop} {failure : Error → ς → Prop}

theorem pure {value : α} (satisfied : success value state) :
    Ends state (Pure.pure value) success failure := satisfied

theorem cases {step : Action ς α} (ends : Ends state step success failure) :
    (∃ value reached, step state = (.ok value, reached) ∧ success value reached) ∨
      ∃ cause reached, step state = (.error cause, reached) ∧ failure cause reached := by
  unfold Ends at ends
  split at ends
  · next value reached outcome => exact .inl ⟨value, reached, outcome, ends⟩
  · next cause reached outcome => exact .inr ⟨cause, reached, outcome, ends⟩

theorem of_ok {step : Action ς α} {value : α} {reached : ς}
    (succeeded : step state = (.ok value, reached)) (satisfied : success value reached) :
    Ends state step success failure := by
  unfold Ends
  rw [succeeded]
  exact satisfied

theorem of_error {step : Action ς α} {cause : Error} {reached : ς}
    (failed : step state = (.error cause, reached)) (satisfied : failure cause reached) :
    Ends state step success failure := by
  unfold Ends
  rw [failed]
  exact satisfied

/-- What holds behind the step holds however it ends. -/
theorem of_behind {step : Action ς α} (holds : condition (step state).2) :
    Ends state step (fun _ reached => condition reached) (fun _ reached => condition reached) := by
  unfold Ends
  rcases outcome : step state with ⟨result, reached⟩
  rw [outcome] at holds
  cases result <;> exact holds

/-- A condition that the step keeps holds however it ends. -/
theorem of_keeps {step : Action ς α} (kept : Keeps condition step) (holds : condition state) :
    Ends state step (fun _ reached => condition reached) (fun _ reached => condition reached) :=
  of_behind (kept state holds)

theorem of_keeps_yields {step : Action ς α} {property : α → Prop} (kept : Keeps condition step)
    (yields : Yields property step) (holds : condition state) :
    Ends state step (fun value reached => condition reached ∧ property value)
      (fun _ reached => condition reached) := by
  have behind := kept state holds
  unfold Ends
  rcases outcome : step state with ⟨result, reached⟩
  rw [outcome] at behind
  cases result with
  | ok value => exact ⟨behind, yields state value reached outcome⟩
  | error cause => exact behind

theorem afterwards {step : Action ς α} {update : ς → ς}
    (ends : Ends state step (fun value reached => success value (update reached))
      (fun cause reached => failure cause (update reached))) :
    Ends state (step.afterwards update) success failure := by
  rcases ends.cases with ⟨value, reached, succeeded, holds⟩ | ⟨cause, reached, failed, holds⟩
  · refine of_ok ?_ holds
    simp only [Action.afterwards, succeeded]
  · refine of_error ?_ holds
    simp only [Action.afterwards, failed]

theorem imp {step : Action ς α} {otherSuccess : α → ς → Prop} {otherFailure : Error → ς → Prop}
    (ends : Ends state step otherSuccess otherFailure)
    (succeeds : ∀ value reached, otherSuccess value reached → success value reached)
    (fails : ∀ cause reached, otherFailure cause reached → failure cause reached) :
    Ends state step success failure := by
  rcases ends.cases with ⟨value, reached, succeeded, holds⟩ | ⟨cause, reached, failed, holds⟩
  · exact of_ok succeeded (succeeds value reached holds)
  · exact of_error failed (fails cause reached holds)

/-- What is claimed of the state however the step ends holds behind it. -/
theorem behind {step : Action ς α}
    (ends : Ends state step (fun _ reached => condition reached) (fun _ reached => condition reached)) :
    condition (step state).2 := by
  rcases ends.cases with ⟨value, reached, outcome, holds⟩ | ⟨cause, reached, outcome, holds⟩
  · rw [outcome]
    exact holds
  · rw [outcome]
    exact holds

/-- What holds behind the step may be added to how it ends. -/
theorem and_behind {step : Action ς α} (ends : Ends state step success failure)
    (condition : ς → Prop) (holds : condition (step state).2) :
    Ends state step (fun value reached => success value reached ∧ condition reached)
      (fun cause reached => failure cause reached ∧ condition reached) := by
  rcases ends.cases with ⟨value, reached, outcome, ended⟩ | ⟨cause, reached, outcome, ended⟩
  · rw [outcome] at holds
    exact of_ok outcome ⟨ended, holds⟩
  · rw [outcome] at holds
    exact of_error outcome ⟨ended, holds⟩

theorem ofExcept {result : Except Error α}
    (refused : ∀ cause, result = .error cause → failure cause state)
    (accepted : ∀ value, result = .ok value → success value state) :
    Ends state (Action.ofExcept result) success failure := by
  cases result with
  | ok value => exact accepted value rfl
  | error cause => exact refused cause rfl

theorem read_bind {view : ς → β} {continuation : β → Action ς α}
    (rest : Ends state (continuation (view state)) success failure) :
    Ends state (Action.read view >>= continuation) success failure := rest

theorem ofExcept_bind {result : Except Error β} {continuation : β → Action ς α}
    (refused : ∀ cause, result = .error cause → failure cause state)
    (rest : ∀ value, result = .ok value → Ends state (continuation value) success failure) :
    Ends state (Action.ofExcept result >>= continuation) success failure := by
  cases result with
  | ok value => exact rest value rfl
  | error cause => exact refused cause rfl

theorem bind_of_ok {first : Action ς β} {continuation : β → Action ς α} {value : β} {reached : ς}
    (succeeded : first state = (.ok value, reached))
    (rest : Ends reached (continuation value) success failure) :
    Ends state (first >>= continuation) success failure := by
  unfold Ends at rest ⊢
  rw [bind_ok succeeded]
  exact rest

theorem bind {first : Action ς β} {continuation : β → Action ς α} {between : β → ς → Prop}
    (firstEnds : Ends state first between failure)
    (rest : ∀ value reached, between value reached →
      Ends reached (continuation value) success failure) :
    Ends state (first >>= continuation) success failure := by
  rcases firstEnds.cases with ⟨value, reached, succeeded, holds⟩ | ⟨cause, reached, failed, holds⟩
  · exact bind_of_ok succeeded (rest value reached holds)
  · exact of_error (bind_error failed) holds

end Ends

/-! ### Verdicts -/

variable {γ δ : Type} {quiet : Prop} {state : ς}

/-- How a step ends of which a verdict is given in advance: it succeeds as the verdict says,
or fails and leaves the condition behind, as the verdict says if all is quiet. -/
abbrev Foretold (quiet : Prop) (condition : ς → Prop) (state : ς) (step : Action ς α)
    (verdict : Except Error γ) (success : α → γ → ς → Prop) : Prop :=
  Ends state step
    (fun value reached => ∃ result, verdict = .ok result ∧ success value result reached)
    (fun cause reached => condition reached ∧ (quiet → verdict = .error cause))

namespace Foretold

variable {step : Action ς β} {continuation : β → Action ς α} {verdict : Except Error γ}
  {between : β → γ → ς → Prop}

theorem pure {value : α} {result : γ} {success : α → γ → ς → Prop}
    (holds : success value result state) :
    Foretold quiet condition state (Pure.pure value) (.ok result) success :=
  ⟨result, rfl, holds⟩

theorem read_bind {view : ς → β} {success : α → γ → ς → Prop}
    (rest : Foretold quiet condition state (continuation (view state)) verdict success) :
    Foretold quiet condition state (Action.read view >>= continuation) verdict success := rest

theorem bind_of_ok {value : β} {reached : ς} {success : α → γ → ς → Prop}
    (succeeded : step state = (.ok value, reached))
    (rest : Foretold quiet condition reached (continuation value) verdict success) :
    Foretold quiet condition state (step >>= continuation) verdict success :=
  Ends.bind_of_ok succeeded rest

theorem imp {other : ς → Prop} {success : β → γ → ς → Prop}
    (foretold : Foretold quiet other state step verdict between)
    (succeeds : ∀ value result reached, between value result reached →
      success value result reached)
    (fails : ∀ reached, other reached → condition reached) :
    Foretold quiet condition state step verdict success := by
  refine Ends.imp foretold ?_ ?_
  · rintro value reached ⟨result, decided, holds⟩
    exact ⟨result, decided, succeeds value result reached holds⟩
  · rintro cause reached ⟨left, decided⟩
    exact ⟨fails reached left, decided⟩

/-- A verdict may be computed further. -/
theorem map (update : γ → δ) {success : β → δ → ς → Prop}
    (foretold : Foretold quiet condition state step verdict fun value result reached =>
      success value (update result) reached) :
    Foretold quiet condition state step (verdict >>= fun result => .ok (update result)) success := by
  refine Ends.imp foretold ?_ ?_
  · rintro value reached ⟨result, rfl, holds⟩
    exact ⟨update result, rfl, holds⟩
  · rintro cause reached ⟨left, decided⟩
    refine ⟨left, fun calm => ?_⟩
    rw [decided calm]
    rfl

/-- The verdict about a sequence is that about its first part and then that about the
second one. -/
theorem bind {after : γ → Except Error δ} {success : α → δ → ς → Prop}
    (first : Foretold quiet condition state step verdict between)
    (rest : ∀ value result reached, between value result reached →
      Foretold quiet condition reached (continuation value) (after result) success) :
    Foretold quiet condition state (step >>= continuation) (verdict >>= after) success := by
  rcases first.cases with ⟨value, reached, ended, result, rfl, holds⟩ |
    ⟨cause, reached, ended, left, decided⟩
  · exact .bind_of_ok ended (rest value result reached holds)
  · refine .of_error (bind_error ended) ⟨left, fun calm => ?_⟩
    rw [decided calm]
    rfl

theorem ofExcept_bind {result : Except Error β} {after : β → Except Error δ}
    {success : α → δ → ς → Prop} (holds : condition state)
    (rest : ∀ value, result = .ok value →
      Foretold quiet condition state (continuation value) (after value) success) :
    Foretold quiet condition state (Action.ofExcept result >>= continuation) (result >>= after)
      success := by
  refine Ends.ofExcept_bind (fun cause refused => ⟨holds, fun _ => ?_⟩) fun value accepted => ?_
  · rw [refused]
    rfl
  · have foretold := rest value accepted
    subst accepted
    exact foretold

/-- What fails only when all is not quiet has no part in the verdict, in front of the rest. -/
theorem undecided_bind {between : β → ς → Prop} {success : α → γ → ς → Prop}
    (first : Ends state step between fun _ reached => condition reached ∧ ¬ quiet)
    (rest : ∀ value reached, between value reached →
      Foretold quiet condition reached (continuation value) verdict success) :
    Foretold quiet condition state (step >>= continuation) verdict success := by
  refine Ends.bind (first.imp (fun _ _ ended => ended) ?_) rest
  rintro cause reached ⟨left, loud⟩
  exact ⟨left, fun calm => absurd calm loud⟩

/-- What fails only when all is not quiet has no part in the verdict, behind the rest. -/
theorem bind_undecided {success : α → γ → ς → Prop}
    (first : Foretold quiet condition state step verdict between)
    (rest : ∀ value result reached, between value result reached →
      Ends reached (continuation value) (fun value reached => success value result reached)
        fun _ reached => condition reached ∧ ¬ quiet) :
    Foretold quiet condition state (step >>= continuation) verdict success := by
  refine Ends.bind first ?_
  rintro value reached ⟨result, decided, holds⟩
  refine (rest value result reached holds).imp (fun _ _ ended => ⟨result, decided, ended⟩) ?_
  rintro cause after ⟨left, loud⟩
  exact ⟨left, fun calm => absurd calm loud⟩

end Foretold

end KernelTuner.Action
