import KernelTuner.Proofs.Action
import KernelTuner.Proofs.BuildOnce
import KernelTuner.Proofs.Model.Steps
import KernelTuner.Proofs.Model.Transparency
import KernelTuner.Proofs.Registry.Build

/-!
Contract: lookups in a registry over whole histories.

Owns: the histories of lookups, between which files, variables and stored models may
change; and `lookups_share_complete_maps`, by which a queue has one map from its first
successful lookup on, every map that is handed out is complete, and a failed lookup
changes nothing and is repeated.

Does not own: what a build reads; see the builds themselves.
-/

set_option autoImplicit false

namespace KernelTuner.Registry

variable {σ : Type}

/-! ### Queries -/

/-- A lookup for a queue: of its map, or of its model for a key. -/
structure Query (σ : Type) where
  environment : Environment
  queue : CommandQueue σ
  key? : Option ModelKey

/-- What a lookup that succeeds gives. -/
inductive Answer where
  | map (map : ModelMap)
  | model (id : ModelId)

namespace Query

/-- What the query reads off the map of its queue. -/
def answer? (query : Query σ) (map : ModelMap) : Option Answer :=
  match query.key? with
  | none => some (.map map)
  | some key => (map.get? key).map .model

def perform (query : Query σ) : Action (Lookup σ) Answer :=
  match query.key? with
  | none => do return .map (← modelMap query.environment query.queue)
  | some key => do return .model (← model query.environment query.queue key)

/-- The query runs a build, and its outcome is that of the build. -/
structure Builds (query : Query σ) (lookup : Lookup σ) : Prop where
  failed : ∀ cause after,
    build lookup.registry.config query.environment query.queue lookup.store = (.error cause, after) →
    (query.perform lookup).1 = .error cause
  built : ∀ map after,
    build lookup.registry.config query.environment query.queue lookup.store = (.ok map, after) →
    ∃ answer, query.answer? map = some answer ∧ (query.perform lookup).1 = .ok answer ∧
      (query.perform lookup).2.store = after

end Query

/-- Queries with their outcomes, from first to last. -/
abbrev History (σ : Type) := List (Query σ × Except Error Answer)

/-- The states that queries of a new registry lead to. Between two queries the stored
models run as they like, and every query finds its own files and variables. -/
inductive Consults (config : RegistryConfig) : History σ → Lookup σ → Prop where
  | start (store : ModelStore σ) (profile : Profile) :
      Consults config [] { registry := { config }, store, profile }
  | query {history : History σ} {lookup : Lookup σ} (consulted : Consults config history lookup)
      (query : Query σ) :
      Consults config (history ++ [(query, (query.perform lookup).1)]) (query.perform lookup).2
  | drift {history : History σ} {lookup : Lookup σ} (consulted : Consults config history lookup)
      {store : ModelStore σ} (carries : lookup.store.Carries store) (profile : Profile) :
      Consults config history { lookup with store, profile }

/-- The queue of the first query for `id` that succeeded. -/
def History.builder? (history : History σ) (id : QueueId) : Option (CommandQueue σ) :=
  (history.find? fun entry => decide (entry.1.queue.id = id) && entry.2.isOk).map (·.1.queue)

/-- What the queries so far guarantee. -/
structure Settled (history : History σ) (lookup : Lookup σ) : Prop where
  /-- Once a query for a queue has succeeded, there is one map that all of them read,
  whatever the files and variables are, and that no further one changes. It is complete,
  on the queue of the query that it was built by. -/
  shared : ∀ query answer, (query, .ok answer) ∈ history → ∃ map builder,
    history.builder? query.queue.id = some builder ∧
    ModelMap.Complete builder lookup.store map ∧
    (∀ other given, (other, .ok given) ∈ history → other.queue.id = query.queue.id →
      other.answer? map = some given) ∧
    ∀ next : Query σ, next.queue.id = query.queue.id →
      ∃ given profile, next.answer? map = some given ∧
        next.perform lookup = (.ok given, { lookup with profile })
  /-- A query that fails changes neither the built queues nor their number, and the next
  one for that queue builds again. -/
  retried : ∀ (next : Query σ) cause after, next.perform lookup = (.error cause, after) →
    cause.IsUnusable ∧ (∀ id, after.registry.isBuilt id = lookup.registry.isBuilt id) ∧
      after.registry.size = lookup.registry.size ∧ after.store = lookup.store ∧
      ∀ again : Query σ, again.queue.id = next.queue.id → again.Builds after
  /-- A key is never without a model. -/
  found : ∀ query outcome, (query, outcome) ∈ history →
    ∀ operation elementType, outcome ≠ .error (.modelNotFound operation elementType)

/-! ### Single lookups -/

variable {environment : Environment} {queue : CommandQueue σ} {lookup after : Lookup σ}
  {map : ModelMap} {cause : Error} {query : Query σ}

theorem modelMap_of_built (environment : Environment)
    (held : lookup.registry.maps.get? queue.id = some map) :
    modelMap environment queue lookup =
      (.ok map, { lookup with profile := lookup.profile.record .registryHit }) := by
  have looked {build : Action (ModelStore σ) ModelMap} :
      BuildOnce.getOrTryBuild queue.id build (lookup.registry.maps, lookup.store) =
        (.ok (map, true), lookup.registry.maps, lookup.store) := by
    rw [BuildOnce.getOrTryBuild_of_held held, BuildOnce.reserve_of_held held]
  simp only [modelMap, looked, ↓reduceIte]

theorem modelMap_of_ok {store : ModelStore σ} (absent : lookup.registry.maps.get? queue.id = none)
    (built : build lookup.registry.config environment queue lookup.store = (.ok map, store)) :
    ∃ maps profile, modelMap environment queue lookup =
        (.ok map, { registry := { lookup.registry with maps }, store, profile }) ∧
      ∀ other, maps.get? other =
        if queue.id = other then some map else lookup.registry.maps.get? other := by
  refine ⟨⟨(lookup.registry.maps.reserve queue.id).slots.insert queue.id (some map)⟩,
    lookup.profile.record .registryMiss, ?_, ?_⟩
  · simp only [modelMap, BuildOnce.getOrTryBuild_of_built absent built, Bool.false_eq_true,
      ↓reduceIte]
  · intro other
    refine (BuildOnce.get?_store _ queue.id other map).trans ?_
    split
    · rfl
    · exact BuildOnce.get?_reserve lookup.registry.maps queue.id other

theorem modelMap_of_error {store : ModelStore σ}
    (absent : lookup.registry.maps.get? queue.id = none)
    (failed : build lookup.registry.config environment queue lookup.store = (.error cause, store)) :
    ∃ maps, modelMap environment queue lookup =
        (.error cause, { lookup with registry := { lookup.registry with maps } }) ∧
      (∀ other, maps.get? other = lookup.registry.maps.get? other) ∧
      maps.size = lookup.registry.maps.size := by
  obtain ⟨_, rfl⟩ := build_fails failed
  refine ⟨lookup.registry.maps.reserve queue.id, ?_,
    BuildOnce.get?_reserve lookup.registry.maps queue.id,
    BuildOnce.size_reserve lookup.registry.maps queue.id⟩
  simp only [modelMap, BuildOnce.getOrTryBuild_of_failed absent failed]

namespace Query

theorem perform_of_ok {answer : Answer}
    (looked : modelMap query.environment query.queue lookup = (.ok map, after))
    (read : query.answer? map = some answer) : query.perform lookup = (.ok answer, after) := by
  unfold answer? at read
  unfold perform
  cases kind : query.key? with
  | none =>
      simp only [kind, Option.some.injEq] at read
      subst read
      exact Action.bind_ok looked
  | some key =>
      simp only [kind] at read
      obtain ⟨id, found, rfl⟩ := Option.map_eq_some_iff.1 read
      have looksUp : model query.environment query.queue key lookup = (.ok id, after) := by
        unfold model
        rw [Action.bind_ok looked]
        simp only [found]
        rfl
      exact Action.bind_ok looksUp

theorem perform_of_error
    (looked : modelMap query.environment query.queue lookup = (.error cause, after)) :
    query.perform lookup = (.error cause, after) := by
  unfold perform
  cases query.key? with
  | none => exact Action.bind_error looked
  | some key =>
      have looksUp : model query.environment query.queue key lookup = (.error cause, after) :=
        Action.bind_error looked
      exact Action.bind_error looksUp

/-- A complete map answers every query. -/
theorem exists_answer (query : Query σ) {store : ModelStore σ}
    (complete : ModelMap.Complete queue store map) : ∃ answer, query.answer? map = some answer := by
  unfold answer?
  split
  · exact ⟨.map map, rfl⟩
  · next key _ =>
      obtain ⟨id, _, found, _⟩ := complete.held key
      exact ⟨.model id, congrArg (Option.map Answer.model) found⟩

/-- The three ends of a query: it reads the map there is, or builds one, or fails to. -/
inductive Ends (query : Query σ) (lookup : Lookup σ) : Except Error Answer × Lookup σ → Prop where
  | held {map : ModelMap} {answer : Answer} (profile : Profile)
      (present : lookup.registry.maps.get? query.queue.id = some map)
      (read : query.answer? map = some answer) :
      Ends query lookup (.ok answer, { lookup with profile })
  | built {map : ModelMap} {store : ModelStore σ} {answer : Answer}
      {maps : BuildOnce QueueId ModelMap} (profile : Profile)
      (absent : lookup.registry.maps.get? query.queue.id = none)
      (succeeded : build lookup.registry.config query.environment query.queue lookup.store =
        (.ok map, store))
      (grown : ∀ other, maps.get? other =
        if query.queue.id = other then some map else lookup.registry.maps.get? other)
      (read : query.answer? map = some answer) :
      Ends query lookup (.ok answer, { registry := { lookup.registry with maps }, store, profile })
  | failed {cause : Error} {maps : BuildOnce QueueId ModelMap}
      (absent : lookup.registry.maps.get? query.queue.id = none)
      (refused : build lookup.registry.config query.environment query.queue lookup.store =
        (.error cause, lookup.store))
      (unchanged : ∀ other, maps.get? other = lookup.registry.maps.get? other)
      (counted : maps.size = lookup.registry.maps.size) :
      Ends query lookup (.error cause, { lookup with registry := { lookup.registry with maps } })

/-- Where all maps there are answer every query, a query ends in one of these ways. -/
theorem perform_ends (query : Query σ)
    (answers : ∀ map, lookup.registry.maps.get? query.queue.id = some map →
      ∃ answer, query.answer? map = some answer) : query.Ends lookup (query.perform lookup) := by
  cases present : lookup.registry.maps.get? query.queue.id with
  | some map =>
      obtain ⟨answer, read⟩ := answers map present
      rw [perform_of_ok (modelMap_of_built query.environment present) read]
      exact .held _ present read
  | none =>
      rcases outcome : build lookup.registry.config query.environment query.queue lookup.store with
        ⟨result, store⟩
      cases result with
      | ok map =>
          obtain ⟨maps, profile, looked, grown⟩ := modelMap_of_ok present outcome
          obtain ⟨answer, read⟩ := query.exists_answer (build_complete outcome).1
          rw [perform_of_ok looked read]
          exact .built profile present outcome grown read
      | error cause =>
          obtain ⟨maps, looked, unchanged, counted⟩ := modelMap_of_error present outcome
          obtain ⟨_, rfl⟩ := build_fails outcome
          rw [perform_of_error looked]
          exact .failed present outcome unchanged counted

end Query

/-! ### Histories -/

/-- What every query keeps. -/
structure Kept (config : RegistryConfig) (history : History σ) (lookup : Lookup σ) : Prop where
  config : lookup.registry.config = config
  complete : ∀ id map, lookup.registry.maps.get? id = some map →
    ∃ builder, history.builder? id = some builder ∧ ModelMap.Complete builder lookup.store map
  answered : ∀ query answer, (query, .ok answer) ∈ history → ∃ map,
    lookup.registry.maps.get? query.queue.id = some map ∧ query.answer? map = some answer
  failed : ∀ query cause, (query, .error cause) ∈ history → cause.IsUnusable

variable {config : RegistryConfig} {history : History σ}

theorem History.builder?_of_earlier {id : QueueId} {builder : CommandQueue σ}
    (earlier : history.builder? id = some builder) (entry : Query σ × Except Error Answer) :
    builder? (history ++ [entry]) id = some builder := by
  obtain ⟨first, found, rfl⟩ := Option.map_eq_some_iff.1 earlier
  rw [builder?, List.find?_append, found]
  rfl

theorem History.builder?_of_first (query : Query σ) (answer : Answer)
    (none : history.builder? query.queue.id = none) :
    builder? (history ++ [(query, .ok answer)]) query.queue.id = some query.queue := by
  rw [builder?, List.find?_append, Option.map_eq_none_iff.1 none]
  simp [Except.isOk, Except.toBool]

namespace Kept

theorem start (config : RegistryConfig) (store : ModelStore σ) (profile : Profile) :
    Kept config [] { registry := { config }, store, profile } where
  config := rfl
  complete := by
    intro id map held
    have empty : ({} : BuildOnce QueueId ModelMap).get? id = none := rfl
    cases empty.symm.trans held
  answered := fun _ _ asked => absurd asked List.not_mem_nil
  failed := fun _ _ asked => absurd asked List.not_mem_nil

/-- A queue without a map has had no query that succeeded. -/
theorem builder?_of_absent (kept : Kept config history lookup) {id : QueueId}
    (absent : lookup.registry.maps.get? id = none) : history.builder? id = none := by
  rw [History.builder?, Option.map_eq_none_iff, List.find?_eq_none]
  rintro ⟨query, outcome⟩ present found
  obtain ⟨decided, succeeded⟩ := Bool.and_eq_true_iff.1 found
  have sameId : query.queue.id = id := of_decide_eq_true decided
  cases outcome with
  | error cause => cases succeeded
  | ok answer =>
      obtain ⟨map, held, _⟩ := kept.answered query answer present
      rw [sameId, absent] at held
      cases held

theorem answers (kept : Kept config history lookup) (query : Query σ) {map : ModelMap}
    (held : lookup.registry.maps.get? query.queue.id = some map) :
    ∃ answer, query.answer? map = some answer := by
  obtain ⟨_, _, complete⟩ := kept.complete _ map held
  exact query.exists_answer complete

/-- A query may add maps, as long as it answers from them and fails for a known cause. -/
theorem concat {query : Query σ} {result : Except Error Answer} {reached : Lookup σ}
    (kept : Kept config history lookup) (sameConfig : reached.registry.config = config)
    (complete : ∀ id map, reached.registry.maps.get? id = some map →
      ∃ builder, History.builder? (history ++ [(query, result)]) id = some builder ∧
        ModelMap.Complete builder reached.store map)
    (grown : ∀ id map, lookup.registry.maps.get? id = some map →
      reached.registry.maps.get? id = some map)
    (answers : ∀ answer, result = .ok answer → ∃ map,
      reached.registry.maps.get? query.queue.id = some map ∧ query.answer? map = some answer)
    (fails : ∀ cause, result = .error cause → cause.IsUnusable) :
    Kept config (history ++ [(query, result)]) reached where
  config := sameConfig
  complete := complete
  answered := by
    intro other given asked
    rcases List.mem_append.1 asked with earlier | last
    · obtain ⟨map, held, read⟩ := kept.answered other given earlier
      exact ⟨map, grown _ map held, read⟩
    · cases List.mem_singleton.1 last
      exact answers given rfl
  failed := by
    intro other cause asked
    rcases List.mem_append.1 asked with earlier | last
    · exact kept.failed other cause earlier
    · cases List.mem_singleton.1 last
      exact fails cause rfl

theorem asked (kept : Kept config history lookup) (query : Query σ) :
    Kept config (history ++ [(query, (query.perform lookup).1)]) (query.perform lookup).2 := by
  have ends := query.perform_ends fun map => kept.answers query
  generalize query.perform lookup = reached at ends ⊢
  cases ends with
  | @held map answer profile present read =>
      refine kept.concat kept.config ?_ (fun _ _ held => held) ?_ (by rintro _ ⟨⟩)
      · intro id other held
        obtain ⟨builder, first, complete⟩ := kept.complete id other held
        exact ⟨builder, History.builder?_of_earlier first _, complete⟩
      · rintro _ ⟨⟩
        exact ⟨map, present, read⟩
  | @built map store answer maps profile absent succeeded grown read =>
      obtain ⟨complete, carries⟩ := build_complete succeeded
      refine kept.concat kept.config ?_ ?_ ?_ (by rintro _ ⟨⟩)
      · intro id other found
        have held : maps.get? id = some other := found
        rw [grown] at held
        split at held
        · next same =>
            subst same
            cases held
            exact ⟨query.queue, History.builder?_of_first query answer
              (kept.builder?_of_absent absent), complete⟩
        · obtain ⟨builder, first, complete⟩ := kept.complete id other held
          exact ⟨builder, History.builder?_of_earlier first _, complete.carried carries⟩
      · intro id other held
        have apart : query.queue.id ≠ id := by
          rintro rfl
          rw [held] at absent
          cases absent
        exact (grown id).trans ((if_neg apart).trans held)
      · rintro _ ⟨⟩
        exact ⟨map, (grown _).trans (if_pos rfl), read⟩
  | @failed cause maps absent refused unchanged counted =>
      refine kept.concat kept.config ?_ (fun id _ held => (unchanged id).trans held)
        (by rintro _ ⟨⟩) ?_
      · intro id other held
        have before := (unchanged id).symm.trans held
        obtain ⟨builder, first, complete⟩ := kept.complete id other before
        exact ⟨builder, History.builder?_of_earlier first _, complete⟩
      · rintro _ ⟨⟩
        exact (build_fails refused).1

theorem drift (kept : Kept config history lookup) {store : ModelStore σ}
    (carries : lookup.store.Carries store) (profile : Profile) :
    Kept config history { lookup with store, profile } where
  config := kept.config
  complete := by
    intro id map held
    obtain ⟨builder, first, complete⟩ := kept.complete id map held
    exact ⟨builder, first, complete.carried carries⟩
  answered := kept.answered
  failed := kept.failed

theorem of_consults (consults : Consults config history lookup) : Kept config history lookup := by
  induction consults with
  | start store profile => exact start config store profile
  | query _ query inductionHypothesis => exact inductionHypothesis.asked query
  | drift _ carries profile inductionHypothesis => exact inductionHypothesis.drift carries profile

end Kept

theorem Query.builds_of_absent (absent : lookup.registry.maps.get? query.queue.id = none) :
    query.Builds lookup where
  failed := by
    intro cause after failed
    obtain ⟨_, looked, _⟩ := modelMap_of_error absent failed
    rw [perform_of_error looked]
  built := by
    intro map after built
    obtain ⟨_, _, looked, _⟩ := modelMap_of_ok absent built
    obtain ⟨answer, read⟩ := query.exists_answer (build_complete built).1
    rw [perform_of_ok looked read]
    exact ⟨answer, read, rfl, rfl⟩

/-- Whatever the queries of a registry come to, and however the files and variables
change between them: a queue has one map from its first successful query on, which is
complete on the queue that it was built for, and a query that fails changes nothing and
is repeated by the next one. -/
theorem lookups_share_complete_maps (consults : Consults config history lookup) :
    Settled history lookup := by
  have kept := Kept.of_consults consults
  refine ⟨?_, ?_, ?_⟩
  · intro query answer asked
    obtain ⟨map, held, _⟩ := kept.answered query answer asked
    obtain ⟨builder, first, complete⟩ := kept.complete _ map held
    refine ⟨map, builder, first, complete, ?_, ?_⟩
    · intro other given otherAsked same
      obtain ⟨otherMap, otherHeld, read⟩ := kept.answered other given otherAsked
      rw [same, held] at otherHeld
      cases otherHeld
      exact read
    · intro next same
      rw [← same] at held
      obtain ⟨given, read⟩ := kept.answers next held
      exact ⟨given, _, read, Query.perform_of_ok (modelMap_of_built next.environment held) read⟩
  · intro next cause after fails
    have ends := next.perform_ends fun map => kept.answers next
    rw [fails] at ends
    cases ends with
    | failed absent refused unchanged counted =>
        refine ⟨(build_fails refused).1, fun id => congrArg Option.isSome (unchanged id), counted, rfl,
          fun again same => Query.builds_of_absent ?_⟩
        rw [same]
        exact (unchanged _).trans absent
  · rintro query _ asked operation elementType rfl
    exact kept.failed query _ asked

/-! ### Between queries -/

/-- An execution of a stored model may happen between two queries. -/
theorem carries_execute (id : ModelId) (batch : Batch) (bypassPredictor force : Bool)
    (state : ModelStore σ × Bench σ) :
    state.1.Carries (ModelStore.run id (Model.execute batch bypassPredictor force) state).2.1 := by
  refine ModelStore.carries_run (fun run => ?_) id state
  have same := Call.setup_of_execute batch bypassPredictor force run
  have carried : (Model.execute batch bypassPredictor force run).2.model.setup.core =
      run.model.setup.core := congrArg Model.core same
  exact carried

/-- So may a tuning. -/
theorem carries_tune (id : ModelId) (batch : Batch) (state : ModelStore σ × Bench σ) :
    state.1.Carries (ModelStore.run id (Model.tune batch) state).2.1 := by
  refine ModelStore.carries_run (fun run => ?_) id state
  rcases (Model.tune_ends batch run).cases with ⟨_, after, done, changed, _⟩ | ⟨_, after, done, same⟩
  · rw [done]
    exact (congrArg Model.core changed : after.model.setup.core = _)
  · have carried : after.model.setup.core = run.model.setup.core := congrArg Model.core same
    rw [done]
    exact carried

/-- So may an import into any map. -/
theorem carries_importText (queue : CommandQueue σ) (text : String)
    (before : ModelStore σ × ModelMap) :
    before.1.Carries (ModelMap.importText queue text before).2.1 := by
  unfold ModelMap.importText
  cases Description.models queue text with
  | error cause => exact .refl before.1
  | ok built => exact .of_kept fun _ _ held => ModelMap.get?_extend_of_held held

/-! ### A variable that dangles -/

/-- Where there are no files, no path leads to a text. -/
theorem readText_empty (path : String) : ∃ cause, ({} : FileTree).readText path = .error cause := by
  unfold FileTree.readText
  cases located : ({} : FileTree).locate path with
  | error cause => exact ⟨cause, rfl⟩
  | ok location =>
      cases location with
      | nil => exact ⟨.isDirectory, rfl⟩
      | cons name above => exact ⟨.notFound, rfl⟩

/-- A variable that names a description for the first device, and no files. -/
def danglingVariable : Environment where
  values := ⟨[("AUTOKERN_MODEL_DEVICE_0", "models.json")]⟩

/-- The queue of the single platform with these surroundings. -/
def Query.reference (environment : Environment) (key? : Option ModelKey) : Query Platform where
  environment
  queue := Platform.single.commandQueue ⟨1⟩
  key?

theorem build_danglingVariable (store : ModelStore Platform) :
    ∃ cause, build .environment danglingVariable (Platform.single.commandQueue ⟨1⟩) store =
      (.error cause, store) := by
  obtain ⟨cause, missing⟩ := readText_empty "models.json"
  refine ⟨.unreadable "models.json" cause, ?_⟩
  have named : RegistryConfig.modelFile? .environment danglingVariable
      (Platform.single.commandQueue ⟨1⟩).device.ordinal = some "models.json" := rfl
  have imports (before : ModelStore Platform × ModelMap) :
      ModelMap.importFile danglingVariable (Platform.single.commandQueue ⟨1⟩) "models.json" before =
        (.error (.unreadable "models.json" cause), before) := by
    unfold ModelMap.importFile
    rw [show danglingVariable.files.readText "models.json" = .error cause from missing]
  simp only [build, named, imports]

theorem build_unsetVariable (queue : CommandQueue σ) (store : ModelStore σ) :
    ∃ map after, build .environment {} queue store = (.ok map, after) :=
  ⟨_, _, rfl⟩

/-- A query that finds the variable dangling fails. The next one finds it unset and
builds, and to the third it does not matter that it dangles again. -/
theorem dangling_variable_is_outlived :
    ∃ (history : History Platform) (lookup : Lookup Platform),
      Consults .environment history lookup ∧
      history.map (fun entry => entry.2.isOk) = [false, true, true] ∧ Settled history lookup := by
  let first := Query.reference danglingVariable none
  let second := Query.reference {} none
  let third := Query.reference danglingVariable (some ⟨.reduction, .f32⟩)
  let initial : Lookup Platform := ⟨{ config := .environment }, {}, {}⟩
  have started : Consults .environment [] initial := .start {} {}
  obtain ⟨cause, refused⟩ := build_danglingVariable initial.store
  have unbuilt : initial.registry.maps.get? first.queue.id = none := rfl
  obtain ⟨maps, looked, _⟩ := modelMap_of_error unbuilt refused
  have fails : first.perform initial = (.error cause, _) := Query.perform_of_error looked
  obtain ⟨_, _, _, _, retried⟩ := (lookups_share_complete_maps started).retried _ _ _ fails
  have asked := started.query first
  rw [fails] at asked
  obtain ⟨_, _, built⟩ := build_unsetVariable second.queue initial.store
  obtain ⟨answer, _, succeeds, _⟩ := (retried second rfl).built _ _ built
  have askedAgain := asked.query second
  rw [succeeds] at askedAgain
  obtain ⟨_, _, _, _, _, served⟩ :=
    (lookups_share_complete_maps askedAgain).shared second answer (by simp)
  obtain ⟨given, profile, _, found⟩ := served third rfl
  refine ⟨_, _, askedAgain.query third, ?_, lookups_share_complete_maps (askedAgain.query third)⟩
  simp [found, Except.isOk, Except.toBool]

end KernelTuner.Registry
