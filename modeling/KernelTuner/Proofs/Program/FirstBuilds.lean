import KernelTuner.Proofs.Program.Cache
import Mathlib.Data.Set.Card

/-!
Contract: what a cache answers from its first call on.

Owns: the calls on a cache whose values are built once per key, and a map that answers the same
calls, in which a key is bound to the value of its first successful build; the relation between
the two, under which the slots of failed builds count for nothing; and `cache_serves_as_map`, by
which they give the same answers to any calls, and a program store has counted as many builds as
it has sets.

Does not own: what is built (`Proofs.Program.Sources`).
-/

set_option autoImplicit false

namespace KernelTuner

open Function (update)

namespace BuildOnce

variable {κ α ς : Type}

/-! ### Calls -/

/-- A call on a cache. The builds of all calls share a state. -/
inductive Call (κ α ς : Type) where
  | build (key : κ) (step : Action ς α)
  | get (key : κ)
  | size

/-- What a call hands back. -/
inductive Answer (α : Type) where
  | built (outcome : Except Error (α × Bool))
  | got (value : Option α)
  | counted (number : Nat)

/-- The keys that have a value. -/
def bound (map : κ → Option α) : Set κ := {key | (map key).isSome}

section Definitions

variable [DecidableEq κ]

/-- The answer of a cache. -/
def serve : Call κ α ς → BuildOnce κ α × ς → Answer α × BuildOnce κ α × ς
  | .build key step, state =>
      let (outcome, reached) := getOrTryBuild key step state
      (.built outcome, reached)
  | .get key, state => (.got (state.1.get? key), state)
  | .size, state => (.counted state.1.size, state)

/-- The answer of a map. It runs a build for a key without a value only, and then once. -/
noncomputable def expect : Call κ α ς → (κ → Option α) × ς → Answer α × (κ → Option α) × ς
  | .build key step, (map, state) =>
      match map key with
      | some value => (.built (.ok (value, true)), map, state)
      | none =>
          match step state with
          | (.ok value, reached) =>
              (.built (.ok (value, false)), update map key (some value), reached)
          | (.error cause, reached) => (.built (.error cause), map, reached)
  | .get key, state => (.got (state.1 key), state)
  | .size, state => (.counted (bound state.1).ncard, state)

/-- The answers to calls, one after another. -/
def answers {τ : Type} (respond : Call κ α ς → τ → Answer α × τ) :
    List (Call κ α ς) → τ → List (Answer α) × τ
  | [], state => ([], state)
  | call :: later, state =>
      let (answer, reached) := respond call state
      let (others, last) := answers respond later reached
      (answer :: others, last)

/-- The value that a call has built for the key. -/
def builtFor (key : κ) : Call κ α ς × Answer α → Option α
  | (.build other _, .built (.ok (value, false))) => if other = key then some value else none
  | _ => none

end Definitions

/-! ### One call -/

/-- The cache has a value for the keys that the map binds, and no others count. -/
structure Reflects [DecidableEq κ] (cache : BuildOnce κ α) (map : κ → Option α) : Prop where
  values : ∀ key, cache.get? key = map key
  finite : (bound map).Finite
  size : cache.size = (bound map).ncard

variable [DecidableEq κ] {cache : BuildOnce κ α} {map : κ → Option α} {key : κ} {value : α}
  {cause : Error} {step : Action ς α} {state reached : ς}

theorem expect_of_bound (known : map key = some value) :
    expect (.build key step) (map, state) = (.built (.ok (value, true)), map, state) := by
  simp only [expect, known]

theorem expect_of_built (unbound : map key = none) (built : step state = (.ok value, reached)) :
    expect (.build key step) (map, state) =
      (.built (.ok (value, false)), update map key (some value), reached) := by
  simp only [expect, unbound, built]

theorem expect_of_failed (unbound : map key = none)
    (failed : step state = (.error cause, reached)) :
    expect (.build key step) (map, state) = (.built (.error cause), map, reached) := by
  simp only [expect, unbound, failed]

theorem bound_update : bound (update map key (some value)) = insert key (bound map) := by
  ext other
  by_cases same : other = key
  · simp [bound, same]
  · simp [bound, same]

namespace Reflects

theorem empty : Reflects ({} : BuildOnce κ α) fun _ => none where
  values := fun _ => rfl
  finite := by simp [bound]
  size := by
    have none : bound (fun _ : κ => (none : Option α)) = ∅ := by simp [bound]
    rw [none, Set.ncard_empty]
    rfl

/-- A slot without a value counts for nothing. -/
theorem reserve (reflects : cache.Reflects map) (key : κ) : (cache.reserve key).Reflects map where
  values := fun other => (get?_reserve cache key other).trans (reflects.values other)
  finite := reflects.finite
  size := (size_reserve cache key).trans reflects.size

theorem store (reflects : cache.Reflects map) (unbound : map key = none) (value : α) :
    (BuildOnce.mk ((cache.reserve key).slots.insert key (some value))).Reflects
      (update map key (some value)) where
  values := by
    intro other
    rw [get?_store]
    split
    · next same =>
        subst same
        rw [Function.update_self]
    · next apart =>
        rw [Function.update_of_ne (Ne.symm apart)]
        exact (reflects.reserve key).values other
  finite := by
    rw [bound_update]
    exact reflects.finite.insert key
  size := by
    have outside : key ∉ bound map := by simp [bound, unbound]
    rw [size_store ((reflects.values key).trans unbound), reflects.size, bound_update,
      Set.ncard_insert_of_notMem outside reflects.finite]

/-- The cache answers a call as the map does, and reflects the map behind it. -/
theorem after_call (reflects : cache.Reflects map) (call : Call κ α ς) (state : ς) :
    ∃ answer reached grown after, serve call (cache, state) = (answer, reached, after) ∧
      expect call (map, state) = (answer, grown, after) ∧ reached.Reflects grown := by
  cases call with
  | get key =>
      refine ⟨.got (map key), cache, map, state, ?_, rfl, reflects⟩
      rw [serve, reflects.values key]
  | size =>
      refine ⟨.counted (bound map).ncard, cache, map, state, ?_, rfl, reflects⟩
      rw [serve, reflects.size]
  | build key step =>
      rw [serve]
      cases known : map key with
      | some value =>
          rw [getOrTryBuild_of_held ((reflects.values key).trans known)]
          exact ⟨_, _, _, _, rfl, expect_of_bound known, reflects.reserve key⟩
      | none =>
          have absent := (reflects.values key).trans known
          rcases outcome : step state with ⟨cause | value, after⟩
          · rw [getOrTryBuild_of_failed absent outcome]
            exact ⟨_, _, _, _, rfl, expect_of_failed known outcome, reflects.reserve key⟩
          · rw [getOrTryBuild_of_built absent outcome]
            exact ⟨_, _, _, _, rfl, expect_of_built known outcome, reflects.store known value⟩

/-- So it does with all calls. -/
theorem after_calls (reflects : cache.Reflects map) (calls : List (Call κ α ς)) (state : ς) :
    ∃ given reached grown after, answers serve calls (cache, state) = (given, reached, after) ∧
      answers expect calls (map, state) = (given, grown, after) ∧ reached.Reflects grown := by
  induction calls generalizing cache map state with
  | nil => exact ⟨_, _, _, _, rfl, rfl, reflects⟩
  | cons call later inductionHypothesis =>
      obtain ⟨answer, reached, grown, after, served, expected, behind⟩ :=
        reflects.after_call call state
      obtain ⟨given, last, largest, final, servedLater, expectedLater, holds⟩ :=
        inductionHypothesis behind after
      refine ⟨answer :: given, last, largest, final, ?_, ?_, holds⟩
      · simp only [answers, served, servedLater]
      · simp only [answers, expected, expectedLater]

end Reflects

/-! ### First successes -/

/-- What a call has built for a key is what it binds the key to. -/
theorem builtFor_expect (key : κ) (call : Call κ α ς) (map : κ → Option α) (state : ς) :
    (map key).toList ++ (builtFor key (call, (expect call (map, state)).1)).toList =
      ((expect call (map, state)).2.1 key).toList := by
  cases call with
  | get other => exact List.append_nil _
  | size => exact List.append_nil _
  | build other step =>
      cases known : map other with
      | some value =>
          rw [expect_of_bound known]
          exact List.append_nil _
      | none =>
          rcases outcome : step state with ⟨cause | value, after⟩
          · rw [expect_of_failed known outcome]
            exact List.append_nil _
          · rw [expect_of_built known outcome, builtFor]
            show _ = (update map other (some value) key).toList
            by_cases same : other = key
            · subst same
              rw [known, if_pos rfl, Function.update_self]
              rfl
            · rw [if_neg same, Function.update_of_ne (Ne.symm same)]
              exact List.append_nil _

/-- At most one call builds the value of a key, and the key is bound to this value. -/
theorem builtFor_answers (key : κ) (calls : List (Call κ α ς)) (map : κ → Option α) (state : ς) :
    (map key).toList ++ (calls.zip (answers expect calls (map, state)).1).filterMap (builtFor key) =
      ((answers expect calls (map, state)).2.1 key).toList := by
  induction calls generalizing map state with
  | nil => exact List.append_nil _
  | cons call later inductionHypothesis =>
      have first := builtFor_expect key call map state
      rcases expected : expect call (map, state) with ⟨answer, grown, after⟩
      rw [expected] at first
      simp only [answers, expected, List.zip_cons_cons]
      rw [← inductionHypothesis grown after, ← first, List.append_assoc]
      congr 1
      cases built : builtFor key (call, answer) with
      | none => exact List.filterMap_cons_none built
      | some value => exact List.filterMap_cons_some built

/-- No call binds a bound key again. -/
theorem expected_of_bound (known : map key = some value) (calls : List (Call κ α ς)) (state : ς) :
    (answers expect calls (map, state)).2.1 key = some value := by
  have whole := builtFor_answers key calls map state
  rw [known] at whole
  cases final : (answers expect calls (map, state)).2.1 key with
  | none =>
      rw [final] at whole
      cases whole
  | some other =>
      rw [final] at whole
      exact congrArg some (List.cons.inj whole).1.symm

/-! ### Caches from their first call on -/

/-- What calls on an empty cache come to: the answers, the cache and the state of the builds, and
the map to which the same calls come. -/
structure Served (calls : List (Call κ α ς)) (state : ς) (given : List (Answer α))
    (cache : BuildOnce κ α) (map : κ → Option α) (reached : ς) : Prop where
  served : answers serve calls ({}, state) = (given, cache, reached)
  expected : answers expect calls (fun _ => none, state) = (given, map, reached)
  values : ∀ key, cache.get? key = map key
  size : cache.size = (bound map).ncard
  /-- A key has the value of the only build that has succeeded for it. -/
  first : ∀ key, (calls.zip given).filterMap (builtFor key) = (cache.get? key).toList
  /-- It keeps this value. -/
  kept : ∀ key value, cache.get? key = some value → ∀ later,
    (answers serve later (cache, reached)).2.1.get? key = some value
  /-- A build that fails makes no difference to any later call. -/
  failing : ∀ key step cause after, cache.get? key = none → step reached = (.error cause, after) →
    ∃ behind, getOrTryBuild key step (cache, reached) = (.error cause, behind, after) ∧
      ∀ later, ∃ others last lastBehind final,
        answers serve later (cache, after) = (others, last, final) ∧
          answers serve later (behind, after) = (others, lastBehind, final) ∧
            ∀ other, lastBehind.get? other = last.get? other

theorem Reflects.failing (reflects : cache.Reflects map) (absent : cache.get? key = none)
    (failed : step state = (.error cause, reached)) :
    ∃ behind, getOrTryBuild key step (cache, state) = (.error cause, behind, reached) ∧
      ∀ later : List (Call κ α ς), ∃ others last lastBehind final,
        answers serve later (cache, reached) = (others, last, final) ∧
          answers serve later (behind, reached) = (others, lastBehind, final) ∧
            ∀ other, lastBehind.get? other = last.get? other := by
  refine ⟨_, getOrTryBuild_of_failed absent failed, fun later => ?_⟩
  obtain ⟨others, last, grown, final, served, expected, holds⟩ := reflects.after_calls later reached
  obtain ⟨_, lastBehind, _, _, servedBehind, expectedBehind, holdsBehind⟩ :=
    (reflects.reserve key).after_calls later reached
  cases expected.symm.trans expectedBehind
  exact ⟨others, last, lastBehind, final, served, servedBehind, fun other =>
    (holdsBehind.values other).trans (holds.values other).symm⟩

theorem exists_served (calls : List (Call κ α ς)) (state : ς) :
    ∃ given cache map reached, Served calls state given cache map reached := by
  obtain ⟨given, cache, map, reached, served, expected, reflects⟩ :=
    Reflects.empty.after_calls calls state
  refine ⟨given, cache, map, reached, served, expected, reflects.values, reflects.size, ?first,
    ?kept, fun key step cause after => reflects.failing⟩
  case first =>
    intro key
    have whole := builtFor_answers key calls (fun _ => none) state
    rw [expected] at whole
    rw [reflects.values key]
    exact whole
  case kept =>
    intro key value held later
    obtain ⟨_, last, grown, _, servedLater, expectedLater, holds⟩ :=
      reflects.after_calls later reached
    have bound := expected_of_bound ((reflects.values key).symm.trans held) later reached
    rw [expectedLater] at bound
    rw [servedLater]
    exact (holds.values key).trans bound

end BuildOnce

/-! ### Program stores -/

namespace ProgramCache

/-- A store behind lookups, and steps on what it holds. -/
inductive Used : ProgramCache → Prop where
  | made : Used {}
  | obtain {cache : ProgramCache} (used : Used cache) (key : ProgramKey) (device : Device)
      (variants : List Variant) (batch : Batch) (force : Bool) (profile : Profile) :
      Used (obtain key device variants batch force (cache, profile)).2.1
  | onSet {cache : ProgramCache} (used : Used cache) {σ α : Type} (key : ProgramKey)
      (step : Action (ProgramSet × Bench σ) α) (bench : Bench σ) :
      Used (onSet key step (cache, bench)).2.1

theorem builds_onSet {σ α : Type} (cache : ProgramCache) (key : ProgramKey)
    (step : Action (ProgramSet × Bench σ) α) (bench : Bench σ) :
    (onSet key step (cache, bench)).2.1.builds = cache.builds := by
  cases held : cache.get? key with
  | none => rw [onSet_of_absent bench step held]
  | some set => simp only [onSet, held]

/-- A store has counted as many builds as it has sets. -/
theorem Used.builds_eq_size {cache : ProgramCache} (used : Used cache) :
    cache.builds = cache.size := by
  induction used with
  | made => rfl
  | @obtain cache used key device variants batch force profile inductionHypothesis =>
      cases held : cache.get? key with
      | some set =>
          rw [obtain_eq_of_held profile device variants batch force held]
          exact inductionHypothesis
      | none =>
          cases outcome : ProgramSet.build key.1 key.2 device variants batch force with
          | ok set =>
              rw [obtain_eq_of_built profile held outcome, size_withBuilt held,
                ← inductionHypothesis]
              rfl
          | error cause =>
              rw [obtain_eq_of_failed profile held outcome]
              exact inductionHypothesis.trans (BuildOnce.size_reserve cache.entries key).symm
  | onSet used key step bench inductionHypothesis =>
      rw [builds_onSet, size_onSet]
      exact inductionHypothesis

end ProgramCache

/-- A cache answers all calls as a map does whose keys are bound to the values of their first
successful builds. A build runs for a key without a value only, and then once; if it fails, that
makes no difference to later calls. A program store has therefore counted a build for each of its
sets. -/
theorem cache_serves_as_map :
    (∀ {κ α ς : Type} [DecidableEq κ] (calls : List (BuildOnce.Call κ α ς)) (state : ς),
      ∃ given cache map reached, BuildOnce.Served calls state given cache map reached) ∧
      ∀ programs, ProgramCache.Used programs → programs.builds = programs.size :=
  ⟨BuildOnce.exists_served, fun _ used => used.builds_eq_size⟩

/-- Of three builds for one key, the first fails, the second is run again, and the third is not. -/
example :
    BuildOnce.answers BuildOnce.serve
      [.build () fun runs => (.error (.fault .indexOverflow), runs + 1),
        .build () fun runs => (.ok 3, runs + 1), .build () fun runs => (.ok 5, runs + 1), .size]
      (({} : BuildOnce Unit Nat), 0) =
    ([.built (.error (.fault .indexOverflow)), .built (.ok (3, false)), .built (.ok (3, true)),
      .counted 1], ⟨⟨[((), some 3)]⟩⟩, 2) := rfl

end KernelTuner
