import KernelTuner.Proofs.Model.History
import KernelTuner.Proofs.Program.Cache
import KernelTuner.Proofs.Program.Sources

/-!
Contract: where the stored programs of a model come from.

Owns: the batch of a history that supplies the sources of a name, which is the first
one of that name that every variant can be emitted from; and `Reaches.stocked`, by
which after any history the store holds exactly the sets of suppliers.
-/

set_option autoImplicit false

namespace KernelTuner

variable {σ : Type}

/-! ### Suppliers -/

/-- Whether a call for `batch` can build the set of `name`. -/
def supplies (context : ContextId) (variants : List Variant) (name : Fingerprint)
    (batch : Batch) : Bool :=
  decide (batch.context = context) &&
    ((match batch.programName with
      | .ok found => decide (found = name)
      | .error _ => false) &&
    (ProgramSet.emissionsFrom batch 0 variants).isOk)

/-- The first batch that can build the set of `name`. -/
def supplier? (context : ContextId) (variants : List Variant) (name : Fingerprint)
    (batches : List Batch) : Option Batch :=
  batches.find? (supplies context variants name)

theorem supplies_iff {context : ContextId} {variants : List Variant} {name : Fingerprint}
    {batch : Batch} :
    supplies context variants name batch = true ↔
      batch.context = context ∧ batch.programName = .ok name ∧
        ∃ emissions, ProgramSet.emissionsFrom batch 0 variants = .ok emissions := by
  unfold supplies
  rw [Bool.and_eq_true, Bool.and_eq_true, decide_eq_true_iff]
  refine and_congr Iff.rfl (and_congr ?_ ?_)
  · cases batch.programName with
    | ok found => simp
    | error cause => simp
  · cases ProgramSet.emissionsFrom batch 0 variants with
    | ok emissions => simp [Except.isOk, Except.toBool]
    | error cause => simp [Except.isOk, Except.toBool]

theorem supplier?_concat (context : ContextId) (variants : List Variant) (name : Fingerprint)
    (batches : List Batch) (batch : Batch) :
    supplier? context variants name (batches ++ [batch]) =
      (supplier? context variants name batches).or
        (if supplies context variants name batch then some batch else none) := by
  unfold supplier?
  rw [List.find?_append, List.find?_singleton]

/-! ### Stock -/

/-- What is stored under a name, in terms of its supplier. -/
def StoredFrom (queue : CommandQueue σ) (variants : List Variant) (name : Fingerprint)
    (supplier : Option Batch) (held : Option ProgramSet) : Prop :=
  match supplier with
  | none => held = none
  | some batch => ∃ set force emissions, held = some set ∧
      ProgramSet.emissionsFrom batch 0 variants = .ok emissions ∧
      set.uncompiled = ProgramSet.assemble queue.context name queue.device force emissions

/-- A model whose store holds the sets that the suppliers among `batches` make up. -/
structure Stocked (queue : CommandQueue σ) (variants : List Variant) (batches : List Batch)
    (run : ModelRun σ) : Prop where
  onQueue : run.model.queue = queue
  ofVariants : run.model.variants = variants
  stored : ∀ name, StoredFrom queue variants name (supplier? queue.context variants name batches)
    (run.model.programs.get? (queue.context, name))

variable {queue : CommandQueue σ} {variants : List Variant} {batches : List Batch}
  {name : Fingerprint}

theorem StoredFrom.congr {supplier : Option Batch} {held : Option ProgramSet} {set : ProgramSet}
    (stored : StoredFrom queue variants name supplier held)
    (same : ∀ old, held = some old → set.uncompiled = old.uncompiled) (present : held ≠ none) :
    StoredFrom queue variants name supplier (some set) := by
  cases supplier with
  | none => exact absurd stored present
  | some batch =>
      obtain ⟨old, force, emissions, found, emitted, assembled⟩ := stored
      exact ⟨set, force, emissions, rfl, emitted, (same old found).trans assembled⟩

theorem StoredFrom.assemble {batch : Batch} {emissions : List Emission} {set : ProgramSet}
    {force : Bool} (emitted : ProgramSet.emissionsFrom batch 0 variants = .ok emissions)
    (built : set = ProgramSet.assemble queue.context name queue.device force emissions) :
    StoredFrom queue variants name (some batch) (some set) := by
  refine ⟨set, force, emissions, rfl, emitted, ?_⟩
  subst built
  exact ProgramSet.assemble_uncompiled

/-! ### Lookups -/

namespace Model

theorem checkContext_of_same {model : Model σ} {batch : Batch}
    (home : batch.context = model.queue.context) : model.checkContext batch = .ok () :=
  if_pos home.symm

theorem checkContext_of_other {model : Model σ} {batch : Batch}
    (foreign : batch.context ≠ model.queue.context) :
    model.checkContext batch = .error (.contextMismatch model.queue.context batch.context) :=
  if_neg fun same => foreign same.symm

theorem checkContext_eq_ok_iff {model : Model σ} {batch : Batch} :
    model.checkContext batch = .ok () ↔ batch.context = model.queue.context := by
  by_cases home : batch.context = model.queue.context
  · exact iff_of_true (checkContext_of_same home) home
  · rw [checkContext_of_other home]
    exact iff_of_false nofun home

theorem obtainPrograms_of_refused {batch : Batch} {force : Bool} {run : ModelRun σ} {cause : Error}
    (refused : batch.programName = .error cause) :
    obtainPrograms batch force run = (.error cause, run) := by
  refine (Action.bind_ok rfl).trans (Action.bind_error ?_)
  rw [Action.ofExcept, refused]

/-- A lookup for a batch that has a name is one in the store of the model. -/
theorem obtainPrograms_eq_of_named {batch : Batch} {force : Bool} {run : ModelRun σ}
    {result : Except Error ProgramSet} {reached : ProgramCache} {recorded : Profile}
    (named : batch.programName = .ok name)
    (obtained : ProgramCache.obtain (run.model.queue.context, name) run.model.queue.device
      run.model.variants batch force (run.model.programs, run.bench.profile) =
        (result, reached, recorded)) :
    obtainPrograms batch force run =
      (result.map (fun _ => (run.model.queue.context, name)),
        { model := { run.model with programs := reached }
          bench := { run.bench with profile := recorded } }) := by
  have acceptance : (Action.ofExcept batch.programName : Action (ModelRun σ) Fingerprint) run =
      (.ok name, run) := by
    rw [Action.ofExcept, named]
  refine (Action.bind_ok rfl).trans ((Action.bind_ok acceptance).trans ?_)
  have stored : (ProgramCache.obtain (run.model.queue.context, name) run.model.queue.device
      run.model.variants batch force).on
        (fun (run : ModelRun σ) => (run.model.programs, run.bench.profile))
        (fun run part => {
          model := { run.model with programs := part.1 }
          bench := { run.bench with profile := part.2 } }) run =
      (result, { model := { run.model with programs := reached }
                 bench := { run.bench with profile := recorded } }) := by
    simp only [Action.on, obtained]
  cases result with
  | ok set => exact Action.bind_ok stored
  | error cause => exact Action.bind_error stored

/-- A lookup for a batch that has a name changes nothing of the model but its store. -/
theorem obtainPrograms_of_named {batch : Batch} (force : Bool) (run : ModelRun σ)
    (named : batch.programName = .ok name) :
    ∃ result reached recorded,
      obtainPrograms batch force run =
        (result.map (fun _ => (run.model.queue.context, name)),
          { model := { run.model with programs := reached }
            bench := { run.bench with profile := recorded } }) ∧
      ProgramCache.Looked (run.model.queue.context, name) run.model.programs
        (ProgramSet.build run.model.queue.context name run.model.queue.device run.model.variants
          batch force) reached result := by
  obtain ⟨result, reached, recorded, obtained, looked⟩ :=
    ProgramCache.obtain_looked run.bench.profile run.model.programs
      (run.model.queue.context, name) run.model.queue.device run.model.variants batch force
  exact ⟨result, reached, recorded, obtainPrograms_eq_of_named named obtained, looked⟩

/-- What holds of every stored set, and of a set that is built, holds of every set that is
stored behind a lookup. -/
theorem stored_of_obtainPrograms {condition : ProgramSet → Prop} {batch : Batch} {force : Bool}
    {run : ModelRun σ}
    (built : ∀ name set, ProgramSet.build run.model.queue.context name run.model.queue.device
      run.model.variants batch force = .ok set → condition set)
    (holds : ∀ key set, run.model.programs.get? key = some set → condition set) :
    ∀ key set, (obtainPrograms batch force run).2.model.programs.get? key = some set →
      condition set := by
  intro key set
  cases named : batch.programName with
  | error cause =>
      rw [obtainPrograms_of_refused named]
      exact holds key set
  | ok name =>
      obtain ⟨result, reached, recorded, obtained, looked⟩ := obtainPrograms_of_named force run named
      rw [obtained]
      show reached.get? key = some set → condition set
      cases looked with
      | held _ unchanged =>
          rw [unchanged]
          exact holds key set
      | failed _ _ unchanged =>
          rw [unchanged]
          exact holds key set
      | built _ succeeded grown =>
          rw [grown]
          split
          · rintro ⟨⟩
            exact built name set succeeded
          · exact holds key set

variable {α : Type} (step : Action (ProgramSet × Bench σ) α) {key : ProgramKey} {run : ModelRun σ}

theorem onPrograms_of_absent (absent : run.model.programs.get? key = none) :
    onPrograms key step run = (.error (.fault .indexOutOfRange), run) := by
  simp only [onPrograms, Action.on, ProgramCache.onSet_of_absent run.bench step absent]

/-- A step on a stored set changes nothing of the model but that set. -/
theorem onPrograms_of_held {set : ProgramSet} (held : run.model.programs.get? key = some set) :
    ∃ reached, onPrograms key step run =
        ((step (set, run.bench)).1,
          { model := { run.model with programs := reached }
            bench := (step (set, run.bench)).2.2 }) ∧
      ∀ other, reached.get? other =
        if key = other then some (step (set, run.bench)).2.1
        else run.model.programs.get? other := by
  obtain ⟨reached, outcome, stored⟩ := ProgramCache.onSet_of_held run.bench step held
  refine ⟨reached, ?_, stored⟩
  simp only [onPrograms, Action.on, outcome]

/-- A step on a stored set stores no new one. -/
theorem size_onPrograms (key : ProgramKey) (run : ModelRun σ) :
    (onPrograms key step run).2.model.programs.size = run.model.programs.size :=
  ProgramCache.size_onSet run.bench step run.model.programs key

/-- A condition survives a step on a stored set when it survives what the step leaves
behind. -/
theorem onPrograms_keeps {condition : ModelRun σ → Prop}
    (kept : ∀ (run : ModelRun σ) (set : ProgramSet) (reached : ProgramCache), condition run →
      run.model.programs.get? key = some set →
      (∀ other, reached.get? other =
        if key = other then some (step (set, run.bench)).2.1
        else run.model.programs.get? other) →
      condition { model := { run.model with programs := reached }
                  bench := (step (set, run.bench)).2.2 }) :
    Action.Keeps condition (onPrograms key step) := by
  intro run holds
  cases held : run.model.programs.get? key with
  | none =>
      rw [onPrograms_of_absent step held]
      exact holds
  | some set =>
      obtain ⟨reached, outcome, stored⟩ := onPrograms_of_held step held
      rw [outcome]
      exact kept run set reached holds held stored

/-- A new model has its variants, of which there are some, and has stored nothing. -/
theorem eq_of_create {predictor : Option CostPredictor} {model : Model σ}
    (created : create variants predictor queue = .ok model) :
    0 < variants.length ∧ model = { variants, predictor, queue } := by
  unfold create at created
  split at created
  · simp at created
  · next nonempty =>
      rw [List.isEmpty_iff] at nonempty
      refine ⟨List.length_pos_iff.2 nonempty, ?_⟩
      repeat' split at created
      all_goals first | cases created; rfl | cases created

end Model

namespace Stocked

theorem initial {predictor : Option CostPredictor} {model : Model σ} {bench : Bench σ}
    (created : Model.create variants predictor queue = .ok model) :
    Stocked queue variants [] ⟨model, bench⟩ := by
  obtain ⟨_, rfl⟩ := Model.eq_of_create created
  exact ⟨rfl, rfl, fun name => rfl⟩

/-- A step that leaves the sources of sets alone leaves the stock alone. -/
theorem onPrograms {α : Type} {step : Action (ProgramSet × Bench σ) α}
    (kept : ∀ set bench, (step (set, bench)).2.1.uncompiled = set.uncompiled) (key : ProgramKey) :
    Action.Keeps (Stocked queue variants batches) (Model.onPrograms key step) := by
  refine Model.onPrograms_keeps step fun run set reached stocked held stored => ?_
  refine ⟨stocked.onQueue, stocked.ofVariants, fun name => ?_⟩
  show StoredFrom _ _ name _ (reached.get? _)
  rw [stored]
  split
  · next same =>
      subst same
      refine (stocked.stored name).congr ?_ (by simp [held])
      intro old found
      rw [held] at found
      cases found
      exact kept set run.bench
  · exact stocked.stored name

theorem lasting (batch : Batch) :
    Lasting queue variants batch (Stocked queue variants batches) where
  onQueue := fun _ stocked => stocked.onQueue
  ofVariants := fun _ stocked => stocked.ofVariants
  program := fun key slot =>
    onPrograms (fun set bench => ProgramSet.program_uncompiled queue slot set bench) key
  compileAll := fun key =>
    onPrograms (fun set bench => ProgramSet.compileAll_uncompiled queue set bench) key
  submit := fun _ _ _ stocked => ⟨stocked.onQueue, stocked.ofVariants, stocked.stored⟩
  finish := fun _ stocked => ⟨stocked.onQueue, stocked.ofVariants, stocked.stored⟩
  override := fun _ _ _ _ stocked => ⟨stocked.onQueue, stocked.ofVariants, stocked.stored⟩
  record := fun _ _ stocked => ⟨stocked.onQueue, stocked.ofVariants, stocked.stored⟩

/-- A batch that supplies nothing changes no supplier. -/
theorem concat_of_idle {run : ModelRun σ} {batch : Batch}
    (stocked : Stocked queue variants batches run)
    (idle : ∀ name, supplies queue.context variants name batch = false) :
    Stocked queue variants (batches ++ [batch]) run := by
  refine ⟨stocked.onQueue, stocked.ofVariants, fun name => ?_⟩
  rw [supplier?_concat, idle name, if_neg Bool.false_ne_true, Option.or_none]
  exact stocked.stored name

theorem supplier_of_held {supplier : Option Batch} {set : ProgramSet}
    (stored : StoredFrom queue variants name supplier (some set)) : ∃ batch, supplier = some batch := by
  cases supplier with
  | none => cases stored
  | some batch => exact ⟨batch, rfl⟩

theorem supplier_eq_none_of_absent {supplier : Option Batch}
    (stored : StoredFrom queue variants name supplier none) : supplier = none := by
  cases supplier with
  | none => rfl
  | some batch =>
      obtain ⟨_, _, _, impossible, _⟩ := stored
      simp at impossible

/-- What the lookup for a batch of name `own` leaves under that name is what the history
that ends with the batch supplies. -/
theorem storedFrom_looked {cache reached : ProgramCache} {batch : Batch} {own : Fingerprint}
    {force : Bool} {result : Except Error ProgramSet}
    (stored : StoredFrom queue variants own (supplier? queue.context variants own batches)
      (cache.get? (queue.context, own)))
    (home : batch.context = queue.context) (named : batch.programName = .ok own)
    (looked : ProgramCache.Looked (queue.context, own) cache
      (ProgramSet.build queue.context own queue.device variants batch force) reached result) :
    StoredFrom queue variants own
      (supplier? queue.context variants own (batches ++ [batch]))
      (reached.get? (queue.context, own)) := by
  cases looked with
  | held present unchanged =>
      rw [present] at stored
      obtain ⟨first, supplied⟩ := supplier_of_held stored
      rw [unchanged, present, supplier?_concat, supplied, Option.some_or, ← supplied]
      exact stored
  | built absent succeeded grown =>
      rw [absent] at stored
      obtain ⟨emissions, emitted, assembled⟩ := ProgramSet.build_eq_ok_iff.1 succeeded
      have supplied : supplies queue.context variants own batch = true :=
        supplies_iff.2 ⟨home, named, emissions, emitted⟩
      rw [grown, if_pos rfl, supplier?_concat, supplier_eq_none_of_absent stored,
        Option.none_or, if_pos supplied]
      exact StoredFrom.assemble emitted assembled
  | failed absent refused unchanged =>
      rw [absent] at stored
      have idle : supplies queue.context variants own batch = false := by
        rw [Bool.eq_false_iff, Ne, supplies_iff]
        rintro ⟨_, _, emissions, emitted⟩
        rw [ProgramSet.build_eq_ok_iff.2 ⟨emissions, emitted, rfl⟩] at refused
        simp at refused
      rw [unchanged, absent, supplier?_concat, idle, if_neg Bool.false_ne_true, Option.or_none,
        supplier_eq_none_of_absent stored]
      rfl

/-- A lookup changes nothing under another name. -/
theorem looked_elsewhere {key other : ProgramKey} {cache reached : ProgramCache}
    {built result : Except Error ProgramSet}
    (looked : ProgramCache.Looked key cache built reached result) (apart : key ≠ other) :
    reached.get? other = cache.get? other := by
  cases looked with
  | held _ unchanged => exact unchanged other
  | built _ _ grown => rw [grown, if_neg apart]
  | failed _ _ unchanged => exact unchanged other

/-- The lookup for a batch stocks what the batch supplies. -/
theorem obtainPrograms {run : ModelRun σ} {batch : Batch} {force : Bool}
    (stocked : Stocked queue variants batches run)
    (checked : run.model.checkContext batch = .ok ()) :
    Stocked queue variants (batches ++ [batch]) (Model.obtainPrograms batch force run).2 := by
  obtain ⟨rfl, rfl, stored⟩ := stocked
  have home := Model.checkContext_eq_ok_iff.1 checked
  cases named : batch.programName with
  | error cause =>
      rw [Model.obtainPrograms_of_refused named]
      refine concat_of_idle ⟨rfl, rfl, stored⟩ ?_
      intro name
      rw [Bool.eq_false_iff, Ne, supplies_iff, named]
      rintro ⟨_, impossible, _⟩
      simp at impossible
  | ok own =>
      obtain ⟨result, reached, recorded, obtained, looked⟩ :=
        Model.obtainPrograms_of_named force run named
      rw [obtained]
      refine ⟨rfl, rfl, fun name => ?_⟩
      show StoredFrom _ _ name _ (reached.get? _)
      by_cases same : own = name
      · subst same
        exact storedFrom_looked (stored own) home named looked
      · have idle : supplies run.model.queue.context run.model.variants name batch = false := by
          rw [Bool.eq_false_iff, Ne, supplies_iff, named]
          rintro ⟨_, impossible, _⟩
          exact same (Except.ok.inj impossible)
        rw [looked_elsewhere looked fun equal => same (congrArg Prod.snd equal),
          supplier?_concat, idle, if_neg Bool.false_ne_true, Option.or_none]
        exact stored name

/-- What a lookup that succeeds has found: the set that the supplier makes up, which is the
batch itself when no earlier one is. -/
theorem obtained {run reached : ModelRun σ} {batch : Batch} {force : Bool} {key : ProgramKey}
    (stocked : Stocked queue variants batches run)
    (checked : run.model.checkContext batch = .ok ())
    (obtains : Model.obtainPrograms batch force run = (.ok key, reached)) :
    ∃ name source set sourceForce emissions, batch.programName = .ok name ∧
      key = (queue.context, name) ∧
      supplier? queue.context variants name (batches ++ [batch]) = some source ∧
      reached.model.programs.get? key = some set ∧
      ProgramSet.emissionsFrom source 0 variants = .ok emissions ∧
      set.uncompiled = ProgramSet.assemble queue.context name queue.device sourceForce emissions := by
  have restocked : Stocked queue variants (batches ++ [batch])
      (Model.obtainPrograms batch force run).2 := stocked.obtainPrograms checked
  rw [obtains] at restocked
  obtain ⟨rfl, rfl, _⟩ := stocked
  cases named : batch.programName with
  | error cause =>
      rw [Model.obtainPrograms_of_refused named] at obtains
      cases obtains
  | ok name =>
      obtain ⟨result, cache, recorded, outcome, looked⟩ :=
        Model.obtainPrograms_of_named force run named
      rw [obtains] at outcome
      have present : key = (run.model.queue.context, name) ∧
          ∃ set, reached.model.programs.get? key = some set := by
        cases looked with
        | held present unchanged =>
            cases outcome
            exact ⟨rfl, _, (unchanged _).trans present⟩
        | built _ _ grown =>
            cases outcome
            exact ⟨rfl, _, (grown _).trans (if_pos rfl)⟩
        | failed _ _ _ => cases outcome
      obtain ⟨rfl, set, held⟩ := present
      have stored := restocked.stored name
      rw [held] at stored
      obtain ⟨source, supplied⟩ := supplier_of_held stored
      rw [supplied] at stored
      obtain ⟨found, sourceForce, emissions, same, emitted, assembled⟩ := stored
      cases same
      exact ⟨name, source, set, sourceForce, emissions, rfl, rfl, supplied, held, emitted, assembled⟩

/-- After any history the store holds exactly what the suppliers among its batches make
up. -/
theorem of_reaches {drift : σ → σ → Prop} {start run : ModelRun σ} {calls : List Call}
    (initial : Stocked queue variants [] start) (reached : Reaches drift start calls run) :
    Stocked queue variants (calls.map Call.batch) run := by
  induction reached with
  | start => exact initial
  | @call calls run _ call inductionHypothesis =>
      rw [List.map_append]
      refine (lasting call.batch).perform call inductionHypothesis.onQueue inductionHypothesis.ofVariants ?_ ?_
      · intro cause refused
        refine inductionHypothesis.concat_of_idle ?_
        intro name
        rw [Bool.eq_false_iff, Ne, supplies_iff]
        rintro ⟨home, _⟩
        rw [← inductionHypothesis.onQueue] at home
        rw [Model.checkContext_of_same home] at refused
        cases refused
      · exact inductionHypothesis.obtainPrograms
  | drift _ _ inductionHypothesis =>
      exact ⟨inductionHypothesis.onQueue, inductionHypothesis.ofVariants,
        inductionHypothesis.stored⟩

end Stocked

end KernelTuner
