import KernelTuner.BuildOnce
import KernelTuner.Program.Set

/-!
Contract: the program store of one model.

Owns: program sets by context and fingerprint, each built once, and the number of
builds.
-/

set_option autoImplicit false

namespace KernelTuner

/-- What a program set is stored under. -/
abbrev ProgramKey := ContextId × Fingerprint

structure ProgramCache where
  entries : BuildOnce ProgramKey ProgramSet := {}
  /-- Number of sets built so far. -/
  builds : Nat := 0

namespace ProgramCache

def get? (cache : ProgramCache) (key : ProgramKey) : Option ProgramSet := cache.entries.get? key

def size (cache : ProgramCache) : Nat := cache.entries.size

/-- Counts the outcome of a successful lookup. -/
def account (hit : Bool) (state : ProgramCache × Profile) : ProgramCache × Profile :=
  if hit then (state.1, state.2.record .programCacheHit)
  else ({ state.1 with builds := state.1.builds + 1 }, state.2.record .programCacheMiss)

/-- The set stored under `key`; on the first lookup it is built from `batch`. -/
def obtain (key : ProgramKey) (device : Device) (variants : List Variant) (batch : Batch)
    (force : Bool) : Action (ProgramCache × Profile) ProgramSet := fun (cache, profile) =>
  let build : Action Profile ProgramSet :=
    (Action.ofExcept (ProgramSet.build key.1 key.2 device variants batch force)).afterwards
      (Profile.record .programCacheBuild)
  match BuildOnce.getOrTryBuild key build (cache.entries, profile) with
  | (.ok (set, hit), entries, profile) => (.ok set, account hit ({ cache with entries }, profile))
  | (.error cause, entries, profile) => (.error cause, { cache with entries }, profile)

variable {σ α : Type}

/-- Runs a step on the set stored under `key`. -/
def onSet (key : ProgramKey) (step : Action (ProgramSet × Bench σ) α) :
    Action (ProgramCache × Bench σ) α := fun (cache, bench) =>
  match cache.get? key with
  | none => (.error (.fault .indexOutOfRange), cache, bench)
  | some set =>
      let (result, set, bench) := step (set, bench)
      (result, { cache with entries := cache.entries.modify key (fun _ => set) }, bench)

end ProgramCache

end KernelTuner
