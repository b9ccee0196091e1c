import KernelTuner.Proofs.Kernel.Segments
import Mathlib.Algebra.Order.BigOperators.Group.Finset
import Mathlib.Data.Fintype.EquivFin

/-!
Contract: the work groups of a launch, side by side.

Owns: grids of crews, which take their steps in any order over arrays that all of them see and
arrays that each has for itself; that a grid always comes to an end (`Grid.advances_wellFounded`,
`Grid.advances_or_through`); and `Grid.Follows.runs_of_reaches`, by which each group of a grid
whose groups stay out of each other's way has run its segments as if it were alone.

Does not own: the launch from which a grid comes (`Proofs.Variant.LaunchRuns`).
-/

set_option autoImplicit false

namespace KernelTuner.Kernel

open Function (update)

variable {κ ι α : Type}

/-! ### Crews alike -/

/-- States of a crew that differ at most in what elements hold outside of certain ones. -/
structure CrewState.Alike (touches : Set Touch) (state other : CrewState ι α) : Prop where
  passed : state.passed = other.passed
  ahead : state.ahead = other.ahead
  registers : ∀ item, (state.own item).registers = (other.own item).registers
  shared : ∀ touch ∈ touches, state.shared touch = other.shared touch

namespace Crew

variable [DecidableEq ι] {crew : Crew ι} {meaning : Meaning α} {state other next : CrewState ι α}
  {item : ι} {touches : Set Touch} {touch : Touch}

/-- The steps that a work item has ahead are steps of the work item. -/
theorem ahead_subset_of_reaches {own : ι → Memory α} {shared : Touch → α}
    (reached : crew.Reaches meaning (crew.start own shared) state) (item : ι) :
    state.ahead item ⊆ crew.steps item := by
  induction reached with
  | refl => exact fun step listed => mem_steps_of_mem_phase listed
  | tail _ advances inductionHypothesis =>
      cases advances with
      | barrier waiting => exact fun step listed => mem_steps_of_mem_phase listed
      | @step taker taken behind ahead =>
          by_cases same : item = taker
          · subst same
            rw [ahead_afterStep_self]
            refine List.Subset.trans ?_ inductionHypothesis
            rw [ahead]
            exact List.subset_cons_self taken behind
          · rwa [ahead_afterStep_of_ne same]

/-- What no work item writes stays as it is. -/
theorem shared_of_advances (own : ∀ item, state.ahead item ⊆ crew.steps item)
    (advances : crew.Advances meaning state next)
    (untouched : ∀ item, touch ∉ written (crew.seat item) (crew.steps item)) :
    next.shared touch = state.shared touch := by
  cases advances with
  | barrier waiting => rfl
  | @step item step behind ahead =>
      by_cases owned : touch.array ∈ crew.ownArrays item
      · exact if_pos owned
      · apply shared_afterStep_of_not_written owned
        intro writes
        have listed : step ∈ state.ahead item := by
          rw [ahead]
          exact List.mem_cons_self
        exact untouched item (List.mem_flatMap.2 ⟨step, own item listed, writes⟩)

/-- Crews alike in all that their steps depend on stay alike. -/
theorem exists_advances_of_alike (bare : ∀ item, crew.ownArrays item = [])
    (inside : ∀ item, ∀ step ∈ state.ahead item,
      step.instruction.footprint (crew.seat item) step.locals ⊆ touches)
    (alike : state.Alike touches other) (advances : crew.Advances meaning state next) :
    ∃ after, crew.Advances meaning other after ∧ next.Alike touches after := by
  have unowned (item : ι) (touch : Touch) : touch.array ∉ crew.ownArrays item := by
    rw [bare item]
    exact List.not_mem_nil
  cases advances with
  | barrier waiting =>
      refine ⟨_, .barrier fun item => ?_, ?_⟩
      · rw [← alike.ahead, ← alike.passed]
        exact waiting item
      · exact ⟨congrArg (· + 1) alike.passed, by rw [alike.passed], alike.registers, alike.shared⟩
  | @step item step behind ahead =>
      have found : (crew.found state item).SameOn touches (crew.found other item) := by
        refine ⟨alike.registers item, fun touch member => ?_⟩
        rw [elements_found (unowned item touch), elements_found (unowned item touch)]
        exact alike.shared touch member
      have same : (step.instruction.perform meaning (crew.seat item) step.locals
          (crew.found state item)).SameOn _ (step.instruction.perform meaning (crew.seat item)
            step.locals (crew.found other item)) :=
        Instruction.perform_sameOn found
          (inside item step (by rw [ahead]; exact List.mem_cons_self))
      refine ⟨_, .step (by rw [← alike.ahead]; exact ahead), alike.passed, ?_, fun owner => ?_, ?_⟩
      · exact congrArg (update · item behind) alike.ahead
      · show (update state.own item _ owner).registers = (update other.own item _ owner).registers
        by_cases taker : owner = item
        · rw [taker, Function.update_self, Function.update_self]
          exact same.registers
        · rw [Function.update_of_ne taker, Function.update_of_ne taker]
          exact alike.registers owner
      · intro touch member
        rw [shared_afterStep (unowned item touch), shared_afterStep (unowned item touch)]
        exact same.elements touch member

/-- The steps that a work item has left, with the barriers among them. -/
def left (crew : Crew ι) (state : CrewState ι α) (item : ι) : Nat :=
  (state.ahead item).length +
    (((phases (crew.steps item)).drop (state.passed + 1)).map fun phase => phase.length + 1).sum

/-- Whoever takes a step has fewer left, and so have all behind a barrier. -/
theorem left_of_advances (advances : crew.Advances meaning state next) :
    (∀ item, crew.left next item ≤ crew.left state item) ∧
      (Nonempty ι → ∃ item, crew.left next item < crew.left state item) := by
  cases advances with
  | @step taker step behind ahead =>
      have fewer : crew.left (crew.afterStep meaning state taker step behind) taker <
          crew.left state taker := by
        simp only [left, ahead_afterStep_self, ahead, List.length_cons, passed_afterStep]
        omega
      refine ⟨fun item => ?_, fun _ => ⟨taker, fewer⟩⟩
      by_cases same : item = taker
      · subst same
        exact fewer.le
      · simp only [left, ahead_afterStep_of_ne same, passed_afterStep, le_refl]
  | barrier waiting =>
      have fewer (item : ι) : crew.left { state with
          passed := state.passed + 1
          ahead := fun item => crew.phase item (state.passed + 1) } item < crew.left state item := by
        obtain ⟨waits, inside⟩ := waiting item
        have next : crew.phase item (state.passed + 1) =
            (phases (crew.steps item))[state.passed + 1] := by
          rw [phase, List.getD_eq_getElem?_getD, List.getElem?_eq_getElem inside, Option.getD_some]
        simp only [left, waits, next, List.drop_eq_getElem_cons inside, List.map_cons,
          List.sum_cons, List.length_nil]
        omega
      exact ⟨fun item => (fewer item).le, fun some => some.elim fun item => ⟨item, fewer item⟩⟩

/-- A crew does not go on forever. -/
theorem advances_wellFounded [Finite ι] [Nonempty ι] (crew : Crew ι) (meaning : Meaning α) :
    WellFounded fun next state : CrewState ι α => crew.Advances meaning state next := by
  have := Fintype.ofFinite ι
  let left (state : CrewState ι α) : Nat := ∑ item, crew.left state item
  refine Subrelation.wf (fun {next state} advances => ?_) (InvImage.wf left Nat.lt_wfRel.wf)
  obtain ⟨atMost, some⟩ := left_of_advances advances
  obtain ⟨item, fewer⟩ := some inferInstance
  exact Finset.sum_lt_sum (fun item _ => atMost item) ⟨item, Finset.mem_univ item, fewer⟩

end Crew

/-! ### Grids -/

/-- The groups of a launch, and the arrays that each of them has for itself. -/
structure Grid (κ ι : Type) where
  crew : κ → Crew ι
  scratch : List String

/-- What a grid has come to. -/
structure GridState (κ ι α : Type) where
  /-- What each group has come to. Of the elements it shares, these are those of its own arrays. -/
  group : κ → CrewState ι α
  /-- The elements of all other arrays. -/
  arrays : Touch → α

namespace Grid

section Definitions

variable (grid : Grid κ ι)

/-- What a group has come to, with all elements as it finds them. -/
def seen (state : GridState κ ι α) (group : κ) : CrewState ι α :=
  { state.group group with
    shared := fun touch =>
      if touch.array ∈ grid.scratch then (state.group group).shared touch
      else state.arrays touch }

/-- Elements that another group writes. -/
def foreign (group : κ) : Set Touch :=
  {touch | touch.array ∉ grid.scratch ∧ ∃ other, other ≠ group ∧ ∃ item,
    touch ∈ written ((grid.crew other).seat item) ((grid.crew other).steps item)}

/-- A grid before its first step, whatever its groups find in their variables and their own
arrays. -/
def Starts (arrays : Touch → α) (state : GridState κ ι α) : Prop :=
  state.arrays = arrays ∧
    ∀ group, ∃ own shared, state.group group = (grid.crew group).start own shared

/-- All groups are through. -/
def Through (state : GridState κ ι α) : Prop :=
  ∀ group item, (state.group group).ahead item = [] ∧
    (phases ((grid.crew group).steps item)).length ≤ (state.group group).passed + 1

variable [DecidableEq κ] [DecidableEq ι] (meaning : Meaning α)

/-- What is behind a step of a group. -/
def afterGroup (state : GridState κ ι α) (group : κ) (next : CrewState ι α) : GridState κ ι α where
  group := update state.group group next
  arrays := fun touch =>
    if touch.array ∈ grid.scratch then state.arrays touch else next.shared touch

/-- Some group goes on. -/
inductive Advances : GridState κ ι α → GridState κ ι α → Prop where
  | group {state : GridState κ ι α} {group : κ} {next : CrewState ι α}
      (advances : (grid.crew group).Advances meaning (grid.seen state group) next) :
      Advances state (grid.afterGroup state group next)

/-- What a grid can come to, in whatever order its groups go on. -/
def Reaches : GridState κ ι α → GridState κ ι α → Prop :=
  Relation.ReflTransGen (grid.Advances meaning)

end Definitions

variable {grid : Grid κ ι} {meaning : Meaning α} {first state : GridState κ ι α}
  {arrays : Touch → α} {group : κ} {touch : Touch} {segments : κ → List (Segment ι)}

/-- The groups take the steps of these segments, and no group depends on what another one
writes. -/
structure Follows (grid : Grid κ ι) (segments : κ → List (Segment ι)) : Prop where
  each : ∀ group, (grid.crew group).Follows (segments group)
  apart : ∀ group item, ∀ step ∈ (grid.crew group).steps item,
    ∀ touch ∈ step.instruction.footprint ((grid.crew group).seat item) step.locals,
      touch ∉ grid.foreign group

theorem shared_seen (outside : touch.array ∉ grid.scratch) :
    (grid.seen state group).shared touch = state.arrays touch := if_neg outside

theorem shared_seen_of_scratch (inside : touch.array ∈ grid.scratch) :
    (grid.seen state group).shared touch = (state.group group).shared touch := if_pos inside

theorem Starts.seen (starts : grid.Starts arrays first) (group : κ) :
    ∃ own shared, grid.seen first group = (grid.crew group).start own shared := by
  obtain ⟨own, shared, begins⟩ := starts.2 group
  unfold Grid.seen
  rw [begins]
  exact ⟨own, _, rfl⟩

section After

variable [DecidableEq κ]

theorem seen_afterGroup_self {next : CrewState ι α} :
    grid.seen (grid.afterGroup state group next) group = next := by
  have own : (grid.afterGroup state group next).group group = next := Function.update_self ..
  have shared : (grid.seen (grid.afterGroup state group next) group).shared = next.shared := by
    funext touch
    by_cases inside : touch.array ∈ grid.scratch
    · rw [shared_seen_of_scratch inside, own]
    · rw [shared_seen inside]
      exact if_neg inside
  calc grid.seen (grid.afterGroup state group next) group
      = { next with shared := (grid.seen (grid.afterGroup state group next) group).shared } := by
        rw [seen, own]
    _ = next := by rw [shared]

theorem seen_afterGroup_of_ne {other : κ} {next : CrewState ι α} (apart : other ≠ group) :
    grid.seen (grid.afterGroup state group next) other =
      { grid.seen state other with
        shared := fun touch => if touch.array ∈ grid.scratch then (state.group other).shared touch
          else next.shared touch } := by
  have kept : (grid.afterGroup state group next).group other = state.group other :=
    Function.update_of_ne apart ..
  have shared : (grid.seen (grid.afterGroup state group next) other).shared = fun touch =>
      if touch.array ∈ grid.scratch then (state.group other).shared touch
      else next.shared touch := by
    funext touch
    by_cases inside : touch.array ∈ grid.scratch
    · rw [shared_seen_of_scratch inside, if_pos inside, kept]
    · rw [shared_seen inside, if_neg inside]
      exact if_neg inside
  rw [← shared, seen, kept]
  rfl

end After

variable [DecidableEq κ] [DecidableEq ι]

/-! ### Ends -/

/-- A grid does not go on forever. -/
theorem advances_wellFounded [Finite κ] [Finite ι] [Nonempty ι] (grid : Grid κ ι)
    (meaning : Meaning α) :
    WellFounded fun next state : GridState κ ι α => grid.Advances meaning state next := by
  have := Fintype.ofFinite κ
  have := Fintype.ofFinite ι
  let left (state : GridState κ ι α) : Nat :=
    ∑ group, ∑ item, (grid.crew group).left (grid.seen state group) item
  refine Subrelation.wf (fun {next state} advances => ?_) (InvImage.wf left Nat.lt_wfRel.wf)
  show left next < left state
  cases advances with
  | @group group next advances =>
      obtain ⟨atMost, some⟩ := Crew.left_of_advances advances
      have others (other : κ) (apart : other ≠ group) (item : ι) :
          (grid.crew other).left (grid.seen (grid.afterGroup state group next) other) item =
            (grid.crew other).left (grid.seen state other) item := by
        rw [seen_afterGroup_of_ne apart]
        rfl
      apply Finset.sum_lt_sum
      · intro other _
        by_cases same : other = group
        · subst same
          rw [seen_afterGroup_self]
          exact Finset.sum_le_sum fun item _ => atMost item
        · simp only [others other same, le_refl]
      · refine ⟨group, Finset.mem_univ group, ?_⟩
        rw [seen_afterGroup_self]
        obtain ⟨item, fewer⟩ := some inferInstance
        exact Finset.sum_lt_sum (fun item _ => atMost item) ⟨item, Finset.mem_univ item, fewer⟩

/-- A grid goes on until all groups are through. -/
theorem Follows.advances_or_through (follows : grid.Follows segments) (state : GridState κ ι α) :
    (∃ next, grid.Advances meaning state next) ∨ grid.Through state := by
  by_cases some : ∃ group next, (grid.crew group).Advances meaning (grid.seen state group) next
  · obtain ⟨group, next, advances⟩ := some
    exact .inl ⟨_, .group advances⟩
  · refine .inr fun group => ?_
    have settled : (∃ next, (grid.crew group).Advances meaning (grid.seen state group) next) ∨ _ :=
      (follows.each group).advances_or_through
    exact settled.resolve_left fun goes => some ⟨group, goes⟩

/-! ### Groups alone -/

/-- What a group has come to, it can come to alone, but for the elements that others write. -/
theorem Follows.exists_alone (follows : grid.Follows segments)
    (starts : grid.Starts arrays first) (reached : grid.Reaches meaning first state) (group : κ) :
    ∃ alone, (grid.crew group).Reaches meaning (grid.seen first group) alone ∧
      (grid.seen state group).Alike {touch | touch ∉ grid.foreign group} alone := by
  induction reached generalizing group with
  | refl => exact ⟨_, .refl, rfl, rfl, fun _ => rfl, fun _ _ => rfl⟩
  | @tail between _ _ advances inductionHypothesis =>
      cases advances with
      | @group goer next advances =>
          have mine (item : ι) :
              (grid.seen between goer).ahead item ⊆ (grid.crew goer).steps item := by
            obtain ⟨alone, came, alike⟩ := inductionHypothesis goer
            obtain ⟨own, shared, begins⟩ := starts.seen goer
            rw [begins] at came
            rw [alike.ahead]
            exact Crew.ahead_subset_of_reaches came item
          obtain ⟨alone, came, alike⟩ := inductionHypothesis group
          by_cases same : group = goer
          · subst same
            rw [seen_afterGroup_self]
            obtain ⟨after, goes, stays⟩ := Crew.exists_advances_of_alike (follows.each group).bare
              (fun item step listed touch inside =>
                follows.apart group item step (mine item listed) touch inside) alike advances
            exact ⟨after, came.tail goes, stays⟩
          · rw [seen_afterGroup_of_ne same]
            refine ⟨alone, came, alike.passed, alike.ahead, alike.registers, fun touch known => ?_⟩
            rw [← alike.shared touch known]
            by_cases inside : touch.array ∈ grid.scratch
            · rw [shared_seen_of_scratch inside]
              exact if_pos inside
            · show (if touch.array ∈ grid.scratch then _ else next.shared touch) = _
              rw [if_neg inside, shared_seen inside, Crew.shared_of_advances mine advances,
                shared_seen inside]
              exact fun item writes => known ⟨inside, goer, Ne.symm same, item, writes⟩

/-- Whenever a grid is through, each group has run its segments, as if it were alone. -/
theorem Follows.runs_of_reaches [Nonempty ι] (follows : grid.Follows segments)
    (starts : grid.Starts arrays first) (reached : grid.Reaches meaning first state)
    (through : grid.Through state) (group : κ) :
    ∃ after : View ι α,
      Runs meaning (grid.crew group).seat (segments group) (grid.seen first group).view after ∧
        ∀ touch, touch ∉ grid.foreign group →
          (grid.seen state group).shared touch = after.shared touch := by
  obtain ⟨alone, came, alike⟩ := follows.exists_alone starts reached group
  obtain ⟨own, shared, begins⟩ := starts.seen group
  rw [begins] at came ⊢
  refine ⟨alone.view, (follows.each group).runs_of_reaches came fun item => ?_, alike.shared⟩
  rw [← alike.ahead, ← alike.passed]
  exact through group item

/-- What nobody writes stays as it is. -/
theorem Follows.arrays_of_not_written (follows : grid.Follows segments)
    (starts : grid.Starts arrays first) (reached : grid.Reaches meaning first state)
    (outside : touch.array ∉ grid.scratch)
    (untouched : ∀ group item,
      touch ∉ written ((grid.crew group).seat item) ((grid.crew group).steps item)) :
    state.arrays touch = arrays touch := by
  induction reached with
  | refl => rw [starts.1]
  | @tail between _ before advances inductionHypothesis =>
      cases advances with
      | @group goer next advances =>
          obtain ⟨alone, came, alike⟩ := follows.exists_alone starts before goer
          obtain ⟨own, shared, begins⟩ := starts.seen goer
          rw [begins] at came
          have mine (item : ι) :
              (grid.seen between goer).ahead item ⊆ (grid.crew goer).steps item := by
            rw [alike.ahead]
            exact Crew.ahead_subset_of_reaches came item
          rw [← inductionHypothesis]
          exact (if_neg outside).trans
            ((Crew.shared_of_advances mine advances (untouched goer)).trans (shared_seen outside))

/-- What a grid leaves in an element of its arrays: what a group leaves there that writes it, when
it runs its segments alone, or what was there if nobody does. -/
theorem Follows.arrays_eq [Nonempty ι] (follows : grid.Follows segments)
    (starts : grid.Starts arrays first) (reached : grid.Reaches meaning first state)
    (through : grid.Through state) (outside : touch.array ∉ grid.scratch) {value : α}
    (writes : ∀ group item,
      touch ∈ written ((grid.crew group).seat item) ((grid.crew group).steps item) →
        ∀ before after : View ι α,
          (∀ other : Touch, other.array ∉ grid.scratch → before.shared other = arrays other) →
            Runs meaning (grid.crew group).seat (segments group) before after →
              after.shared touch = value)
    (keeps : (∀ group item,
      touch ∉ written ((grid.crew group).seat item) ((grid.crew group).steps item)) →
        arrays touch = value) : state.arrays touch = value := by
  by_cases some : ∃ group item,
      touch ∈ written ((grid.crew group).seat item) ((grid.crew group).steps item)
  · obtain ⟨group, item, wrote⟩ := some
    obtain ⟨after, runs, left⟩ := follows.runs_of_reaches starts reached through group
    have before (other : Touch) (outside : other.array ∉ grid.scratch) :
        (grid.seen first group).view.shared other = arrays other :=
      (shared_seen outside).trans (congrFun starts.1 other)
    obtain ⟨step, listed, inStep⟩ := List.mem_flatMap.1 wrote
    have own : touch ∉ grid.foreign group := follows.apart group item step listed touch
      (Instruction.written_subset_footprint inStep)
    rw [← writes group item wrote _ _ before runs, ← left touch own, shared_seen outside]
  · have untouched : ∀ group item,
        touch ∉ written ((grid.crew group).seat item) ((grid.crew group).steps item) :=
      fun group item wrote => some ⟨group, item, wrote⟩
    rw [follows.arrays_of_not_written starts reached outside untouched, keeps untouched]

end Grid

end KernelTuner.Kernel
