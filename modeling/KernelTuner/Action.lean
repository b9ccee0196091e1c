import KernelTuner.Error

/-!
Contract: steps that change a state and may fail.

Owns: the type of such steps, their sequencing and their use on a part of a larger
state. A step that fails keeps the state it has reached, so what was done before
the failure stays done.
-/

set_option autoImplicit false

namespace KernelTuner

/-- A step on states of type `ς`. -/
def Action (ς α : Type) : Type := ς → Except Error α × ς

namespace Action

variable {ς τ α β : Type}

def pure (value : α) : Action ς α := fun state => (.ok value, state)

def fail (cause : Error) : Action ς α := fun state => (.error cause, state)

/-- Goes on with `continuation` unless the first step has failed. -/
def andThen (first : Action ς α) (continuation : α → Action ς β) : Action ς β := fun state =>
  match first state with
  | (.ok value, reached) => continuation value reached
  | (.error cause, reached) => (.error cause, reached)

instance : Monad (Action ς) where
  pure := Action.pure
  bind := Action.andThen

/-- A result that does not touch the state. -/
def ofExcept (result : Except Error α) : Action ς α := fun state => (result, state)

/-- Reads something off the state. -/
def read (view : ς → α) : Action ς α := fun state => (.ok (view state), state)

/-- Changes the state and cannot fail. -/
def change (update : ς → ς) : Action ς Unit := fun state => (.ok (), update state)

/-- Runs a step on the part of the state that `view` shows and `put` replaces. -/
def on (view : ς → τ) (put : ς → τ → ς) (step : Action τ α) : Action ς α := fun state =>
  let (result, part) := step (view state)
  (result, put state part)

/-- Changes the state behind `step`, whether it has failed or not. -/
def afterwards (step : Action ς α) (update : ς → ς) : Action ς α := fun state =>
  let (result, reached) := step state
  (result, update reached)

theorem andThen_of_ok {first : Action ς α} {continuation : α → Action ς β} {state reached : ς}
    {value : α} (succeeded : first state = (.ok value, reached)) :
    first.andThen continuation state = continuation value reached := by
  simp [andThen, succeeded]

theorem andThen_of_error {first : Action ς α} {continuation : α → Action ς β}
    {state reached : ς} {cause : Error} (failed : first state = (.error cause, reached)) :
    first.andThen continuation state = (.error cause, reached) := by
  simp [andThen, failed]

end Action

end KernelTuner
