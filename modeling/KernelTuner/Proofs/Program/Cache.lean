import KernelTuner.Program.Cache
import KernelTuner.Proofs.Action
import KernelTuner.Proofs.BuildOnce

/-!
Contract: what the program store answers and keeps.

Owns: the effect of lookups and of steps on stored sets, told by what is stored under
every key afterwards; the rule by which a condition survives the compilation of a set;
and the part of a set that compiling leaves alone.
-/

set_option autoImplicit false

namespace KernelTuner

/-! ### Lookups -/

namespace ProgramCache

variable (profile : Profile) {cache : ProgramCache} {key : ProgramKey} {device : Device}
  {variants : List Variant} {batch : Batch} {force : Bool} {set : ProgramSet} {cause : Error}

/-- A stored set is handed out, which counts as a hit. -/
theorem obtain_eq_of_held (device : Device) (variants : List Variant) (batch : Batch)
    (force : Bool) (held : cache.get? key = some set) :
    obtain key device variants batch force (cache, profile) =
      (.ok set, cache, profile.record .programCacheHit) := by
  have looked {build : Action Profile ProgramSet} :
      BuildOnce.getOrTryBuild key build (cache.entries, profile) =
        (.ok (set, true), cache.entries, profile) := by
    rw [BuildOnce.getOrTryBuild_of_held held, BuildOnce.reserve_of_held held]
  simp only [obtain, looked, account, ↓reduceIte]

/-- The build that a lookup runs on a miss. -/
def buildStep (key : ProgramKey) (device : Device) (variants : List Variant) (batch : Batch)
    (force : Bool) : Action Profile ProgramSet :=
  (Action.ofExcept (ProgramSet.build key.1 key.2 device variants batch force)).afterwards
    (Profile.record .programCacheBuild)

/-- A store with one more set, which was missing. -/
def withBuilt (cache : ProgramCache) (key : ProgramKey) (set : ProgramSet) : ProgramCache where
  entries := ⟨(cache.entries.reserve key).slots.insert key (some set)⟩
  builds := cache.builds + 1

/-- A set that is missing is built, which counts as a build and as a miss. -/
theorem obtain_eq_of_built (absent : cache.get? key = none)
    (built : ProgramSet.build key.1 key.2 device variants batch force = .ok set) :
    obtain key device variants batch force (cache, profile) =
      (.ok set, cache.withBuilt key set,
        (profile.record .programCacheBuild).record .programCacheMiss) := by
  have step : buildStep key device variants batch force profile =
      (.ok set, profile.record .programCacheBuild) := by
    rw [buildStep, built]
    rfl
  have looked := BuildOnce.getOrTryBuild_of_built absent step
  rw [buildStep] at looked
  simp only [obtain, looked, account, withBuilt]
  rfl

/-- A set that cannot be built counts as a build only. -/
theorem obtain_eq_of_failed (absent : cache.get? key = none)
    (failed : ProgramSet.build key.1 key.2 device variants batch force = .error cause) :
    obtain key device variants batch force (cache, profile) =
      (.error cause, { cache with entries := cache.entries.reserve key },
        profile.record .programCacheBuild) := by
  have step : buildStep key device variants batch force profile =
      (.error cause, profile.record .programCacheBuild) := by
    rw [buildStep, failed]
    rfl
  have looked := BuildOnce.getOrTryBuild_of_failed absent step
  rw [buildStep] at looked
  simp only [obtain, looked]

theorem get?_withBuilt (cache : ProgramCache) (key other : ProgramKey) (set : ProgramSet) :
    (cache.withBuilt key set).get? other = if key = other then some set else cache.get? other := by
  refine (BuildOnce.get?_store _ key other set).trans ?_
  split
  · rfl
  · exact BuildOnce.get?_reserve cache.entries key other

theorem size_withBuilt (absent : cache.get? key = none) (set : ProgramSet) :
    (cache.withBuilt key set).size = cache.size + 1 :=
  BuildOnce.size_store absent set

/-- What a lookup comes to, and the store that it reaches, where building the set of
`key` comes to `built`. -/
inductive Looked (key : ProgramKey) (cache : ProgramCache) (built : Except Error ProgramSet)
    (reached : ProgramCache) : Except Error ProgramSet → Prop where
  | held {set : ProgramSet} (present : cache.get? key = some set)
      (unchanged : ∀ other, reached.get? other = cache.get? other)
      (uncounted : reached.builds = cache.builds) :
      Looked key cache built reached (.ok set)
  | built {set : ProgramSet} (absent : cache.get? key = none) (succeeded : built = .ok set)
      (grown : ∀ other,
        reached.get? other = if key = other then some set else cache.get? other)
      (counted : reached.builds = cache.builds + 1) :
      Looked key cache built reached (.ok set)
  | failed {cause : Error} (absent : cache.get? key = none) (refused : built = .error cause)
      (unchanged : ∀ other, reached.get? other = cache.get? other)
      (uncounted : reached.builds = cache.builds) :
      Looked key cache built reached (.error cause)

theorem obtain_looked (cache : ProgramCache) (key : ProgramKey) (device : Device)
    (variants : List Variant) (batch : Batch) (force : Bool) :
    ∃ result reached recorded,
      obtain key device variants batch force (cache, profile) = (result, reached, recorded) ∧
      Looked key cache (ProgramSet.build key.1 key.2 device variants batch force) reached
        result := by
  cases held : cache.get? key with
  | some set =>
      exact ⟨_, _, _, obtain_eq_of_held profile device variants batch force held,
        .held held (fun _ => rfl) rfl⟩
  | none =>
      cases outcome : ProgramSet.build key.1 key.2 device variants batch force with
      | ok set =>
          exact ⟨_, _, _, obtain_eq_of_built profile held outcome,
            .built held rfl (fun other => get?_withBuilt cache key other set) rfl⟩
      | error cause =>
          exact ⟨_, _, _, obtain_eq_of_failed profile held outcome,
            .failed held rfl (BuildOnce.get?_reserve cache.entries key) rfl⟩

/-! ### Steps on a stored set -/

variable {σ α : Type} (bench : Bench σ) (step : Action (ProgramSet × Bench σ) α)

theorem onSet_of_held (held : cache.get? key = some set) :
    ∃ reached, onSet key step (cache, bench) =
        ((step (set, bench)).1, reached, (step (set, bench)).2.2) ∧
      ∀ other, reached.get? other =
        if key = other then some (step (set, bench)).2.1 else cache.get? other := by
  refine ⟨{ cache with
    entries := cache.entries.modify key (fun _ => (step (set, bench)).2.1) }, ?_, ?_⟩
  · simp only [onSet, held]
  · intro other
    refine (BuildOnce.get?_modify cache.entries key other _).trans ?_
    split
    · next same =>
        subst same
        exact congrArg (Option.map _) held
    · rfl

theorem onSet_of_absent (absent : cache.get? key = none) :
    onSet key step (cache, bench) = (.error (.fault .indexOutOfRange), cache, bench) := by
  simp only [onSet, absent]

/-- A step on a stored set stores nothing new. -/
theorem size_onSet (cache : ProgramCache) (key : ProgramKey) :
    (onSet key step (cache, bench)).2.1.size = cache.size := by
  cases held : cache.get? key with
  | none => rw [onSet_of_absent bench step held]
  | some set =>
      simp only [onSet, held]
      exact BuildOnce.size_modify cache.entries key _

end ProgramCache

/-! ### Compiling slot by slot -/

namespace ProgramSet

open KernelTuner.Action (Keeps)

variable {σ : Type} {slot : Slot} {condition : ProgramSet × Bench σ → Prop}

theorem shell_putShell (set : ProgramSet) (slot other : Slot) (shell : Shell) :
    (set.putShell slot shell).shell other = if slot = other then shell else set.shell other := by
  cases slot <;> cases other <;> rfl

theorem compileSlot_of_empty (queue : CommandQueue σ) {state : ProgramSet × Bench σ}
    (empty : (state.1.shell slot).isEmpty = true) :
    compileSlot queue slot state = (.ok (), state) :=
  if_pos empty

theorem compileSlot_of_filled (queue : CommandQueue σ) {state : ProgramSet × Bench σ}
    (filled : (state.1.shell slot).isEmpty = false) :
    compileSlot queue slot state = (program queue slot >>= fun _ => Pure.pure ()) state :=
  if_neg (ne_true_of_eq_false filled)

theorem keeps_compileSlot {queue : CommandQueue σ} (kept : Keeps condition (program queue slot)) :
    Keeps condition (compileSlot queue slot) := by
  intro state holds
  cases filled : (state.1.shell slot).isEmpty with
  | true =>
      rw [compileSlot_of_empty queue filled]
      exact holds
  | false =>
      rw [compileSlot_of_filled queue filled]
      exact kept.bind (fun _ => .pure ()) state holds

/-- What every single program keeps the compilation of the whole set keeps. -/
theorem keeps_compileAll {queue : CommandQueue σ}
    (kept : ∀ slot, Keeps condition (program queue slot)) :
    Keeps condition (compileAll queue) :=
  (keeps_compileSlot (kept .primary)).bind fun _ => keeps_compileSlot (kept .fallback)

end ProgramSet

/-! ### What compiling leaves alone -/

/-- The shell as it was before it was compiled. -/
def Shell.uncompiled (shell : Shell) : Shell := { shell with compiled := none }

/-- The set as it was before anything of it was compiled. -/
def ProgramSet.uncompiled (set : ProgramSet) : ProgramSet :=
  { set with primary := set.primary.uncompiled, fallback := set.fallback.uncompiled }

theorem Shell.uncompiled_eq_self {shell : Shell} (fresh : shell.compiled = none) :
    shell.uncompiled = shell := by
  rw [Shell.uncompiled, ← fresh]

namespace ProgramSet

theorem uncompiled_eq_self {set : ProgramSet} (primary : set.primary.compiled = none)
    (fallback : set.fallback.compiled = none) : set.uncompiled = set := by
  rw [uncompiled, Shell.uncompiled_eq_self primary, Shell.uncompiled_eq_self fallback]

theorem uncompiled_source (set : ProgramSet) (slot : Slot) :
    (set.uncompiled.shell slot).source = (set.shell slot).source := by
  cases slot <;> rfl

variable {σ : Type} (queue : CommandQueue σ)

/-- What a set asks of the compiler does not depend on what has been compiled of it. -/
theorem request_congr {set other : ProgramSet}
    (same : set.uncompiled = other.uncompiled) (slot : Slot) :
    (set.shell slot).request = (other.shell slot).request := by
  have shells : (set.uncompiled.shell slot).request = (other.uncompiled.shell slot).request := by
    rw [same]
  cases slot <;> exact shells

theorem putShell_uncompiled {set : ProgramSet} {slot : Slot} {shell : Shell}
    (same : shell.uncompiled = (set.shell slot).uncompiled) :
    (set.putShell slot shell).uncompiled = set.uncompiled := by
  cases slot with
  | primary =>
      have kept : shell.uncompiled = set.primary.uncompiled := same
      simp only [uncompiled, putShell, kept]
  | fallback =>
      have kept : shell.uncompiled = set.fallback.uncompiled := same
      simp only [uncompiled, putShell, kept]

theorem shell_program_uncompiled (shell : Shell) (bench : Bench σ) :
    (Shell.program queue (shell, bench)).2.1.uncompiled = shell.uncompiled := by
  cases held : shell.compiled with
  | some program => simp only [Shell.program, held]
  | none =>
      rcases outcome : queue.compile shell.request bench.backend with ⟨result, backend⟩
      cases result with
      | ok program =>
          simp only [Shell.program, held, outcome]
          rfl
      | error cause => simp only [Shell.program, held, outcome]

/-- A program that is handed out is kept. -/
theorem program_compiled {slot : Slot} {set reached : ProgramSet} {bench after : Bench σ}
    {handed : Program} (outcome : program queue slot (set, bench) = (.ok handed, reached, after)) :
    (reached.shell slot).compiled = some handed := by
  rcases asked : Shell.program queue (set.shell slot, bench) with ⟨result, shell, shellBench⟩
  simp only [program, Action.on, asked] at outcome
  cases outcome
  rw [shell_putShell, if_pos rfl]
  cases held : (set.shell slot).compiled with
  | some kept =>
      simp only [Shell.program, held] at asked
      cases asked
      exact held
  | none =>
      simp only [Shell.program, held] at asked
      split at asked
      · cases asked
        rfl
      · cases asked

theorem program_uncompiled (slot : Slot) (set : ProgramSet) (bench : Bench σ) :
    (program queue slot (set, bench)).2.1.uncompiled = set.uncompiled :=
  putShell_uncompiled (shell_program_uncompiled queue (set.shell slot) bench)

theorem compileAll_uncompiled (set : ProgramSet) (bench : Bench σ) :
    (compileAll queue (set, bench)).2.1.uncompiled = set.uncompiled :=
  have kept (slot : Slot) : Action.Keeps
      (fun state : ProgramSet × Bench σ => state.1.uncompiled = set.uncompiled)
      (program queue slot) :=
    fun state same => (program_uncompiled queue slot state.1 state.2).trans same
  keeps_compileAll kept (set, bench) rfl

end ProgramSet

end KernelTuner
