import KernelTuner.Proofs.Model.Logging
import KernelTuner.Proofs.Registry.Lookups

/-!
Contract: what a report counts.

Owns: tallies of what uses of the library come to, taken from what is stored, from the
results and from the calls that a backend receives; when a profile accounts for a tally; and
`report_of_uses`, by which a report counts exactly what has happened since the last one.

Does not own: the times in a report, nor the largest count that a counter holds.
-/

set_option autoImplicit false

namespace KernelTuner

open KernelTuner.Action (Keeps)

variable {σ : Type}

/-! ### Rows -/

namespace Report

/-- The report on some counts, with the time that was spent on each event. -/
def ofCounts (counts : List (Event × Nat)) (time : Event → Nat) : Report where
  rows := counts.map fun entry =>
    { kind := entry.1.kind, name := entry.1.name, calls := entry.2, nanoseconds := time entry.1 }

/-- The calls of all rows with this name, however many these are. -/
def total (report : Report) (name : String) : Nat :=
  (report.rows.filter fun row => row.name = name).foldl (fun total row => total + row.calls) 0

/-- The calls that a report shows are the total, unless that takes more than a word. -/
theorem calls_eq_total {report : Report} {name : String}
    (inside : report.total name < Size.wordCount) : report.calls name = report.total name :=
  Nat.mod_eq_of_lt inside

/-- Events that were not recorded have no rows, and would not count. -/
theorem foldl_recorded (counts : List (Event × Nat)) (start : Nat) :
    (counts.filter fun entry => 0 < entry.2).foldl (fun total entry => total + entry.2) start =
      counts.foldl (fun total entry => total + entry.2) start := by
  induction counts generalizing start with
  | nil => rfl
  | cons entry rest inductionHypothesis =>
      rw [List.foldl_cons, ← inductionHypothesis, List.filter_cons]
      split
      · rw [List.foldl_cons]
      · next unrecorded =>
          have none : entry.2 = 0 := by simpa using unrecorded
          rw [none, Nat.add_zero]

/-- A report shows each event as often as it was recorded. -/
theorem total_counts (profile : Profile) (time : Event → Nat) (event : Event) :
    (ofCounts profile.counts time).total event.name = profile.calls event := by
  have rows : (ofCounts profile.counts time).total event.name =
      (profile.counts.filter fun entry => entry.1.name = event.name).foldl
        (fun total entry => total + entry.2) 0 := by
    simp only [total, ofCounts, List.filter_map, List.foldl_map]
    rfl
  rw [rows, Profile.counts, List.filter_filter]
  simp only [Bool.and_comm]
  rw [← List.filter_filter, foldl_recorded]
  cases event <;> simp [Event.all, Event.name]

end Report

/-! ### Tallies -/

/-- What uses of the library have come to. -/
structure Tally where
  /-- Program sets that were built. -/
  built : Nat := 0
  /-- Lookups of program sets that succeeded and built nothing. -/
  reused : Nat := 0
  /-- Lookups of program sets that found nothing, so that sources had to be emitted. -/
  emitted : Nat := 0
  /-- Lookups of program sets that failed. -/
  failed : Nat := 0
  /-- Requests that a compiler has received. -/
  requests : Nat := 0
  tunings : Nat := 0
  /-- Lookups of model maps that succeeded. -/
  found : Nat := 0

namespace Tally

instance : Add Tally where
  add left right := {
    built := left.built + right.built
    reused := left.reused + right.reused
    emitted := left.emitted + right.emitted
    failed := left.failed + right.failed
    requests := left.requests + right.requests
    tunings := left.tunings + right.tunings
    found := left.found + right.found }

/-- What a use that makes at most one lookup of program sets has come to: the lookup, with
its key and its result, and the store before and after the use. -/
def ofLookup (before after : ProgramCache)
    (lookup? : Option (ProgramKey × Except Error ProgramSet)) : Tally where
  built := after.size - before.size
  reused := if (lookup?.any fun lookup => lookup.2.isOk) ∧ after.size = before.size then 1 else 0
  emitted := if lookup?.any fun lookup => (before.get? lookup.1).isNone then 1 else 0
  failed := if lookup?.any fun lookup => !lookup.2.isOk then 1 else 0

theorem ofLookup_congr (before : ProgramCache) {after other : ProgramCache}
    (lookup? : Option (ProgramKey × Except Error ProgramSet)) (same : after.size = other.size) :
    ofLookup before after lookup? = ofLookup before other lookup? := by
  rw [ofLookup, ofLookup, same]

theorem ofLookup_none (cache : ProgramCache) : ofLookup cache cache none = {} := by
  simp [ofLookup]

end Tally

/-- The profile `after` has counted, on top of `before`, what the tally says. -/
structure Accounts (tally : Tally) (before after : Profile) : Prop where
  built : after.calls .programCacheMiss = before.calls .programCacheMiss + tally.built
  reused : after.calls .programCacheHit = before.calls .programCacheHit + tally.reused
  emitted : after.calls .programCacheBuild = before.calls .programCacheBuild + tally.emitted
  emissions : tally.emitted = tally.built + tally.failed
  requests : after.calls .programCompile = before.calls .programCompile + tally.requests
  tunings : after.calls .tune = before.calls .tune + tally.tunings
  found : after.calls .registryHit + after.calls .registryMiss =
    before.calls .registryHit + before.calls .registryMiss + tally.found

namespace Accounts

variable (profile : Profile)

theorem nothing : Accounts {} profile profile := ⟨rfl, rfl, rfl, rfl, rfl, rfl, rfl⟩

theorem trans {first second : Tally} {before between after : Profile}
    (earlier : Accounts first before between) (later : Accounts second between after) :
    Accounts (first + second) before after where
  built := by rw [later.built, earlier.built, Nat.add_assoc]; rfl
  reused := by rw [later.reused, earlier.reused, Nat.add_assoc]; rfl
  emitted := by rw [later.emitted, earlier.emitted, Nat.add_assoc]; rfl
  emissions := by
    have sum : first.emitted + second.emitted =
        first.built + second.built + (first.failed + second.failed) := by
      rw [earlier.emissions, later.emissions, Nat.add_add_add_comm]
    exact sum
  requests := by rw [later.requests, earlier.requests, Nat.add_assoc]; rfl
  tunings := by rw [later.tunings, earlier.tunings, Nat.add_assoc]; rfl
  found := by rw [later.found, earlier.found, Nat.add_assoc]; rfl

theorem hit : Accounts { reused := 1 } profile (profile.record .programCacheHit) := by
  constructor <;> simp [Profile.calls_record]

theorem miss : Accounts { built := 1, emitted := 1 } profile
    ((profile.record .programCacheBuild).record .programCacheMiss) := by
  constructor <;> simp [Profile.calls_record]

theorem failure :
    Accounts { emitted := 1, failed := 1 } profile (profile.record .programCacheBuild) := by
  constructor <;> simp [Profile.calls_record]

theorem request : Accounts { requests := 1 } profile (profile.record .programCompile) := by
  constructor <;> simp [Profile.calls_record]

theorem tuning : Accounts { tunings := 1 } profile (profile.record .tune) := by
  constructor <;> simp [Profile.calls_record]

theorem registered (hit : Bool) : Accounts { found := 1 } profile
    (profile.record (if hit then .registryHit else .registryMiss)) := by
  constructor
  case found => cases hit <;> simp [Profile.calls_record] <;> omega
  all_goals cases hit <;> simp [Profile.calls_record]

end Accounts

/-! ### Lookups of program sets -/

/-- A lookup in a store is counted as what it has come to. -/
theorem ProgramCache.obtain_accounts (key : ProgramKey) (device : Device)
    (variants : List Variant) (batch : Batch) (force : Bool) (cache : ProgramCache)
    (profile : Profile) {result : Except Error ProgramSet} {reached : ProgramCache}
    {recorded : Profile}
    (obtained : obtain key device variants batch force (cache, profile) =
      (result, reached, recorded)) :
    Accounts (.ofLookup cache reached (some (key, result))) profile recorded := by
  cases held : cache.get? key with
  | some set =>
      rw [obtain_eq_of_held profile device variants batch force held] at obtained
      cases obtained
      have tally : Tally.ofLookup cache cache (some (key, .ok set)) = { reused := 1 } := by
        simp [Tally.ofLookup, held, Except.isOk, Except.toBool]
      rw [tally]
      exact .hit profile
  | none =>
      cases outcome : ProgramSet.build key.1 key.2 device variants batch force with
      | ok set =>
          rw [obtain_eq_of_built profile held outcome] at obtained
          cases obtained
          have tally : Tally.ofLookup cache (cache.withBuilt key set) (some (key, .ok set)) =
              { built := 1, emitted := 1 } := by
            simp [Tally.ofLookup, held, size_withBuilt held, Except.isOk, Except.toBool]
          rw [tally]
          exact .miss profile
      | error cause =>
          rw [obtain_eq_of_failed profile held outcome] at obtained
          cases obtained
          have sized : ({ cache with entries := cache.entries.reserve key } : ProgramCache).size =
              cache.size := BuildOnce.size_reserve cache.entries key
          have tally : Tally.ofLookup cache { cache with entries := cache.entries.reserve key }
              (some (key, .error cause)) = { emitted := 1, failed := 1 } := by
            rw [Tally.ofLookup_congr _ _ sized]
            simp [Tally.ofLookup, held, Except.isOk, Except.toBool]
          rw [tally]
          exact .failure profile

/-! ### Requests of shells -/

def BackendCall.isCompile : BackendCall → Bool
  | compile _ => true
  | _ => false

/-- How often the compiler is asked in a log. -/
def requestCount (log : List (BackendEvent σ)) : Nat := log.countP fun event => event.call.isCompile

theorem requestCount_concat (log : List (BackendEvent σ)) (event : BackendEvent σ) :
    requestCount (log ++ [event]) = requestCount log + if event.call.isCompile then 1 else 0 := by
  rw [requestCount, List.countP_append, List.countP_singleton]
  rfl

/-- The profile has counted the requests in the log, and nothing else since `base`. -/
def CountsRequests (base : Profile) (bench : Bench (Recorded σ)) : Prop :=
  Accounts { requests := requestCount bench.backend.log } base bench.profile

theorem Shell.program_counts (base : Profile) (queue : CommandQueue σ) :
    Keeps (fun state : Shell × Bench (Recorded σ) => CountsRequests base state.2)
      (Shell.program queue.recorded) := by
  rintro ⟨shell, bench⟩ counted
  cases held : shell.compiled with
  | some program =>
      simp only [Shell.program, held]
      exact counted
  | none =>
      rw [Shell.state_of_uncompiled queue.recorded bench held]
      show Accounts { requests := requestCount (bench.backend.log ++ [_]) } base _
      rw [requestCount_concat]
      exact counted.trans (.request bench.profile)

/-- What a call for the program of a shell has come to. -/
def Shell.tally (queue : CommandQueue σ) (shell : Shell) (bench : Bench σ) : Tally where
  requests := requestCount
    (Shell.program queue.recorded (shell, bench.recorded [])).2.2.backend.log

/-- A call for a program is counted as the requests that the compiler has received. -/
theorem Shell.program_accounts (queue : CommandQueue σ) (shell : Shell) (bench : Bench σ) :
    Accounts (tally queue shell bench) bench.profile
      (program queue (shell, bench)).2.2.profile := by
  have counted : CountsRequests bench.profile
      (program queue.recorded (shell, bench.recorded [])).2.2 :=
    program_counts bench.profile queue (shell, bench.recorded []) (.nothing bench.profile)
  obtain ⟨more, mirrored⟩ := program_mirrors queue (shell, bench)
  have profile : (program queue.recorded (shell, bench.recorded [])).2.2.profile =
      (program queue (shell, bench)).2.2.profile :=
    congrArg (fun outcome => outcome.2.2.profile) (mirrored [])
  rw [← profile]
  exact counted

theorem ProgramSet.program_counts (base : Profile) (queue : CommandQueue σ) (slot : Slot) :
    Keeps (fun state : ProgramSet × Bench (Recorded σ) => CountsRequests base state.2)
      (program queue.recorded slot) :=
  fun state counted => Shell.program_counts base queue (state.1.shell slot, state.2) counted

/-! ### Calls on a model -/

/-- A model with a log whose profile has counted requests only, since its store had `size`
sets and the profile was `base`. -/
structure Counting (queue : CommandQueue σ) (variants : List Variant) (size : Nat) (base : Profile)
    (run : ModelRun (Recorded σ)) : Prop where
  onQueue : run.model.queue = queue.recorded
  ofVariants : run.model.variants = variants
  sized : run.model.programs.size = size
  counted : CountsRequests base run.bench

namespace Counting

variable {queue : CommandQueue σ} {variants : List Variant} {size : Nat} {base : Profile}

theorem onPrograms {α : Type} {step : Action (ProgramSet × Bench (Recorded σ)) α}
    (kept : Keeps (fun state : ProgramSet × Bench (Recorded σ) => CountsRequests base state.2) step)
    (key : ProgramKey) :
    Keeps (Counting queue variants size base) (Model.onPrograms key step) := by
  intro run counting
  have sized := (Model.size_onPrograms step key run).trans counting.sized
  cases held : run.model.programs.get? key with
  | none =>
      rw [Model.onPrograms_of_absent step held]
      exact counting
  | some set =>
      obtain ⟨reached, outcome, _⟩ := Model.onPrograms_of_held step held
      rw [outcome] at sized ⊢
      exact ⟨counting.onQueue, counting.ofVariants, sized, kept (set, run.bench) counting.counted⟩

/-- A backend call that is no request is not counted. -/
theorem of_silent {run : ModelRun (Recorded σ)} (counting : Counting queue variants size base run)
    {event : BackendEvent σ} (silent : event.call.isCompile = false) (backend : σ) :
    Counting queue variants size base
      { run with bench.backend := ⟨backend, run.bench.backend.log ++ [event]⟩ } where
  onQueue := counting.onQueue
  ofVariants := counting.ofVariants
  sized := counting.sized
  counted := by
    show Accounts { requests := requestCount (run.bench.backend.log ++ [event]) } base _
    rw [requestCount_concat, silent]
    exact counting.counted

theorem enduring (batch : Batch) :
    Enduring queue.recorded variants batch (Counting queue variants size base) where
  onQueue := fun _ counting => counting.onQueue
  ofVariants := fun _ counting => counting.ofVariants
  program := fun key slot => onPrograms (ProgramSet.program_counts base queue slot) key
  compileAll := fun key =>
    onPrograms (ProgramSet.keeps_compileAll (ProgramSet.program_counts base queue)) key
  submit := fun _ _ _ counting => counting.of_silent rfl _
  finish := fun _ counting => counting.of_silent rfl _
  override := fun _ _ _ _ counting =>
    ⟨counting.onQueue, counting.ofVariants, counting.sized, counting.counted⟩

end Counting

namespace Call

/-- The lookup of programs that a call comes to, unless its batch is refused before. -/
def lookup? (call : Call) (run : ModelRun σ) : Option (ProgramKey × Except Error ProgramSet) :=
  match run.model.checkContext call.batch, call.batch.programName with
  | .ok (), .ok name =>
      some ((run.model.queue.context, name),
        (ProgramCache.obtain (run.model.queue.context, name) run.model.queue.device
          run.model.variants call.batch call.force (run.model.programs, run.bench.profile)).1)
  | _, _ => none

def tunings : Call → Nat
  | execute .. => 0
  | tune _ => 1

/-- What a call on a model has come to. -/
def tally (call : Call) (run : ModelRun σ) : Tally :=
  .ofLookup run.model.programs (call.perform run).model.programs (call.lookup? run) +
    { requests := requestCount (call.events run) } + { tunings := call.tunings }

variable (call : Call)

theorem close_accounts (run : ModelRun σ) :
    Accounts { tunings := call.tunings } run.bench.profile (call.close run).bench.profile := by
  cases call with
  | execute => exact .nothing _
  | tune => exact .tuning _

variable {run : ModelRun σ}

theorem lookup?_of_refused {cause : Error}
    (refused : run.model.checkContext call.batch = .error cause) : call.lookup? run = none := by
  simp only [lookup?, refused]

theorem lookup?_of_unnamed {cause : Error} (unnamed : call.batch.programName = .error cause) :
    call.lookup? run = none := by
  unfold lookup?
  rw [unnamed]
  cases run.model.checkContext call.batch <;> rfl

/-- A call is counted as what it has come to, when its lookup is, and the requests behind
that are. -/
theorem accounts_of_closed {reached : ModelRun (Recorded σ)} {between : Profile}
    (closed : call.perform (run.recorded []) = call.close reached)
    (looked : Accounts (.ofLookup run.model.programs reached.model.programs (call.lookup? run))
      run.bench.profile between)
    (counted : CountsRequests between reached.bench) :
    Accounts (call.tally run) run.bench.profile (call.perform run).bench.profile := by
  have same := (call.perform_recorded [] run).symm.trans closed
  have programs : (call.perform run).model.programs = reached.model.programs :=
    (congrArg (fun run => run.model.programs) same).trans
      (congrArg Model.programs (call.model_close reached))
  have events : call.events run = reached.bench.backend.log :=
    (congrArg (fun run => run.bench.backend.log) same).trans
      (congrArg Recorded.log (call.backend_close reached))
  have profile : (call.perform run).bench.profile = (call.close reached).bench.profile :=
    congrArg (fun run => run.bench.profile) same
  rw [tally, programs, events, profile]
  exact (looked.trans counted).trans (call.close_accounts reached)

/-- A call that ends without a lookup. -/
theorem accounts_of_unlooked (unlooked : call.lookup? run = none)
    (closed : call.perform (run.recorded []) = call.close (run.recorded [])) :
    Accounts (call.tally run) run.bench.profile (call.perform run).bench.profile := by
  refine call.accounts_of_closed closed ?_ (.nothing run.bench.profile)
  rw [unlooked]
  show Accounts (.ofLookup run.model.programs run.model.programs none) _ _
  rw [Tally.ofLookup_none]
  exact .nothing run.bench.profile

/-- A call that looks programs up: a failure ends it, and behind a success there are at most
requests to count. -/
theorem accounts_of_named {name : Fingerprint}
    (checked : run.model.checkContext call.batch = .ok ())
    (named : call.batch.programName = .ok name) :
    Accounts (call.tally run) run.bench.profile (call.perform run).bench.profile := by
  rcases obtained : ProgramCache.obtain (run.model.queue.context, name) run.model.queue.device
    run.model.variants call.batch call.force (run.model.programs, run.bench.profile) with
    ⟨result, cache, recorded⟩
  have found : call.lookup? run = some ((run.model.queue.context, name), result) := by
    simp only [lookup?, checked, named, obtained]
  have looked := ProgramCache.obtain_accounts _ _ _ _ _ _ _ obtained
  have obtains : Model.obtainPrograms call.batch call.force (run.recorded []) = _ :=
    Model.obtainPrograms_eq_of_named named obtained
  cases result with
  | error cause =>
      refine call.accounts_of_closed (call.perform_of_unobtained checked obtains) ?_
        (.nothing recorded)
      rw [found]
      exact looked
  | ok set =>
      have counting : Counting run.model.queue run.model.variants cache.size recorded
          { model := { (run.recorded []).model with programs := cache }
            bench := { (run.recorded []).bench with profile := recorded } } :=
        ⟨rfl, rfl, rfl, .nothing recorded⟩
      obtain ⟨reached, counted, closed⟩ :=
        call.perform_of_obtained (Counting.enduring call.batch) rfl rfl checked obtains counting
      refine call.accounts_of_closed closed ?_ counted.counted
      rw [found, Tally.ofLookup_congr _ _ counted.sized]
      exact looked

/-- Every call on a model is counted as what it has come to, however it ends. -/
theorem accounts (run : ModelRun σ) :
    Accounts (call.tally run) run.bench.profile (call.perform run).bench.profile := by
  cases checked : run.model.checkContext call.batch with
  | error cause =>
      exact call.accounts_of_unlooked (call.lookup?_of_refused checked)
        (call.perform_of_refused checked)
  | ok =>
      cases named : call.batch.programName with
      | error cause =>
          exact call.accounts_of_unlooked (call.lookup?_of_unnamed named)
            (call.perform_of_unobtained checked (Model.obtainPrograms_of_refused named))
      | ok name => exact call.accounts_of_named checked named

end Call

/-! ### Lookups of model maps -/

namespace Registry

/-- What a lookup of a model map has come to. -/
def tally (environment : Environment) (queue : CommandQueue σ) (lookup : Lookup σ) : Tally where
  found := if (modelMap environment queue lookup).1.isOk then 1 else 0

theorem modelMap_accounts (environment : Environment) (queue : CommandQueue σ)
    (lookup : Lookup σ) :
    Accounts (tally environment queue lookup) lookup.profile
      (modelMap environment queue lookup).2.profile := by
  rcases outcome : BuildOnce.getOrTryBuild queue.id
    (build lookup.registry.config environment queue) (lookup.registry.maps, lookup.store) with
    ⟨result, maps, store⟩
  cases result with
  | ok found =>
      obtain ⟨map, hit⟩ := found
      simp only [tally, modelMap, outcome]
      exact .registered lookup.profile hit
  | error cause =>
      simp only [tally, modelMap, outcome]
      exact .nothing lookup.profile

/-- What a query does is done by its lookup of the map. -/
theorem Query.perform_state (query : Query σ) (lookup : Lookup σ) :
    (query.perform lookup).2 = (modelMap query.environment query.queue lookup).2 := by
  unfold perform
  cases query.key? with
  | none => exact Action.bind_state (fun _ _ => rfl) lookup
  | some key =>
      refine (Action.bind_state (fun _ _ => rfl) lookup).trans (Action.bind_state ?_ lookup)
      intro map state
      cases map.get? key <;> rfl

end Registry

/-! ### Sessions -/

/-- The objects that a program uses the library with, and the bench that they share. -/
structure Session (σ : Type) where
  models : ModelStore σ
  caches : Nat → ProgramCache
  shells : Nat → Shell
  registries : Nat → Registry
  bench : Bench σ

/-- Something that is done in a session. -/
inductive Use (σ : Type) where
  /-- A call on a stored model. -/
  | call (id : ModelId) (call : Call)
  /-- A lookup in a store of program sets. -/
  | obtain (place : Nat) (key : ProgramKey) (device : Device) (variants : List Variant)
      (batch : Batch) (force : Bool)
  /-- A call for the program of a shell. -/
  | program (place : Nat) (queue : CommandQueue σ)
  /-- A lookup in a registry. -/
  | query (place : Nat) (query : Registry.Query σ)
  /-- Whatever else changes the objects. None of it is recorded. -/
  | drift (other : Session σ)

namespace Session

variable (session : Session σ)

/-- The session with nothing counted. -/
def reset : Session σ := { session with bench.profile := {} }

/-- The report on what was counted, with the time that was spent on each event, and the
session that it leaves. -/
def report (time : Event → Nat) : Report × Session σ :=
  let (counts, profile) := session.bench.profile.drain
  (.ofCounts counts time, { session with bench.profile := profile })

/-- What a lookup in the registry at `place` acts on. -/
def lookup (place : Nat) : Registry.Lookup σ where
  registry := session.registries place
  store := session.models
  profile := session.bench.profile

end Session

namespace Use

/-- What a use leaves behind, whether it fails or not. -/
def perform (session : Session σ) : Use σ → Session σ
  | call id (.execute batch bypassPredictor force) =>
      let (_, models, bench) := ModelStore.run id (Model.execute batch bypassPredictor force)
        (session.models, session.bench)
      { session with models, bench }
  | call id (.tune batch) =>
      let (_, models, bench) := ModelStore.run id (Model.tune batch)
        (session.models, session.bench)
      { session with models, bench }
  | obtain place key device variants batch force =>
      let (_, cache, profile) := ProgramCache.obtain key device variants batch force
        (session.caches place, session.bench.profile)
      { session with
        caches := Function.update session.caches place cache
        bench.profile := profile }
  | program place queue =>
      let (_, shell, bench) := Shell.program queue (session.shells place, session.bench)
      { session with shells := Function.update session.shells place shell, bench }
  | query place asked =>
      let (_, after) := asked.perform (session.lookup place)
      { session with
        registries := Function.update session.registries place after.registry
        models := after.store
        bench.profile := after.profile }
  | drift other => { other with bench.profile := session.bench.profile }

/-- What a use has come to. A call on a model that is not stored is none. -/
def tally (session : Session σ) : Use σ → Tally
  | call id made =>
      match session.models.get? id with
      | none => {}
      | some model => made.tally ⟨model, session.bench⟩
  | obtain place key device variants batch force =>
      let (result, cache, _) := ProgramCache.obtain key device variants batch force
        (session.caches place, session.bench.profile)
      .ofLookup (session.caches place) cache (some (key, result))
  | program place queue => Shell.tally queue (session.shells place) session.bench
  | query place asked => Registry.tally asked.environment asked.queue (session.lookup place)
  | drift _ => {}

theorem perform_call_of_absent {session : Session σ} {id : ModelId}
    (absent : session.models.get? id = none) (call : Call) :
    (Use.call id call).perform session = session := by
  cases call <;> simp only [perform, ModelStore.run, absent]

theorem perform_call_of_held {session : Session σ} {id : ModelId} {model : Model σ}
    (held : session.models.get? id = some model) (call : Call) :
    ((Use.call id call).perform session).bench = (call.perform ⟨model, session.bench⟩).bench := by
  cases call <;> simp only [perform, ModelStore.run, held] <;> rfl

/-- Every use is counted as what it has come to. -/
theorem accounts (session : Session σ) (use : Use σ) :
    Accounts (use.tally session) session.bench.profile (use.perform session).bench.profile := by
  cases use with
  | call id call =>
      cases held : session.models.get? id with
      | none =>
          rw [perform_call_of_absent held, tally, held]
          exact .nothing _
      | some model =>
          rw [perform_call_of_held held, tally, held]
          exact call.accounts ⟨model, session.bench⟩
  | obtain place key device variants batch force =>
      exact ProgramCache.obtain_accounts _ _ _ _ _ _ _ rfl
  | program place queue =>
      exact Shell.program_accounts queue (session.shells place) session.bench
  | query place query =>
      have accounted := Registry.modelMap_accounts query.environment query.queue
        (session.lookup place)
      rw [← query.perform_state] at accounted
      exact accounted
  | drift other => exact .nothing _

end Use

namespace Session

/-- The session behind some uses. -/
def after (session : Session σ) (uses : List (Use σ)) : Session σ :=
  uses.foldl (fun session use => use.perform session) session

/-- What some uses have come to. -/
def tally (session : Session σ) : List (Use σ) → Tally
  | [] => {}
  | use :: rest => use.tally session + (use.perform session).tally rest

/-- Uses one behind another are counted as what they have come to together. -/
theorem accounts (session : Session σ) (uses : List (Use σ)) :
    Accounts (session.tally uses) session.bench.profile (session.after uses).bench.profile := by
  induction uses generalizing session with
  | nil => exact .nothing _
  | cons use rest inductionHypothesis =>
      exact (use.accounts session).trans (inductionHypothesis (use.perform session))

end Session

/-! ### Reports -/

/-- Whatever is done since the last report, or since everything counted was discarded, and
however it ends: the next report counts the program sets that were built, the lookups that
found one, the emissions, the requests of shells, the tunings and the model maps that were
handed out, and leaves nothing counted. What `Report.calls` answers are these totals, as long as they
fit a word. -/
theorem report_of_uses (session : Session σ) (time : Event → Nat) (uses : List (Use σ)) :
    (session.report time).2 = session.reset ∧
      let tally := session.reset.tally uses
      let (report, left) := (session.reset.after uses).report time
      report.total "autokern.program_cache.miss" = tally.built ∧
        report.total "autokern.program_cache.hit" = tally.reused ∧
        report.total "autokern.program_cache.build" = tally.emitted ∧
        tally.emitted = tally.built + tally.failed ∧
        report.total "autokern.program.compile" = tally.requests ∧
        report.total "autokern.tune" = tally.tunings ∧
        report.total "autokern.registry.hit" + report.total "autokern.registry.miss" =
          tally.found ∧
        left.bench.profile.log = [] ∧
        ∀ name, report.total name < Size.wordCount → report.calls name = report.total name := by
  have accounted := session.reset.accounts uses
  have shown (event : Event) : ((session.reset.after uses).report time).1.total event.name =
      (session.reset.after uses).bench.profile.calls event :=
    Report.total_counts _ time event
  have unrecorded (event : Event) : session.reset.bench.profile.calls event = 0 := rfl
  refine ⟨rfl, (shown .programCacheMiss).trans ?_, (shown .programCacheHit).trans ?_,
    (shown .programCacheBuild).trans ?_, accounted.emissions, (shown .programCompile).trans ?_,
    (shown .tune).trans ?_, ?_, rfl, fun _ => Report.calls_eq_total⟩
  · rw [accounted.built, unrecorded, Nat.zero_add]
  · rw [accounted.reused, unrecorded, Nat.zero_add]
  · rw [accounted.emitted, unrecorded, Nat.zero_add]
  · rw [accounted.requests, unrecorded, Nat.zero_add]
  · rw [accounted.tunings, unrecorded, Nat.zero_add]
  · have found := accounted.found
    rw [unrecorded, unrecorded, Nat.zero_add] at found
    exact (congrArg₂ (· + ·) (shown .registryHit) (shown .registryMiss)).trans found

end KernelTuner
