import KernelTuner.Proofs.Model.Recording
import KernelTuner.Proofs.Program.Requests
import Mathlib.Data.Finset.Card

/-!
Contract: how often a model builds programs, and for whom.

Owns: the call that builds the set of a name, which is the first one that can; the names
that calls have built sets of; and the condition `Tallied`, by which a model has counted
one build for each of these names and has passed on the flag of the builder.
-/

set_option autoImplicit false

namespace KernelTuner

variable {σ : Type} {context : ContextId} {variants : List Variant} {name : Fingerprint}
  {calls : List Call} {call : Call}

/-! ### Builders -/

/-- The call that builds the set of `name`: the first one whose batch can supply it. -/
def builder? (context : ContextId) (variants : List Variant) (name : Fingerprint)
    (calls : List Call) : Option Call :=
  calls.find? fun call => supplies context variants name call.batch

theorem supplier?_eq_builder?_map (context : ContextId) (variants : List Variant)
    (name : Fingerprint) (calls : List Call) :
    supplier? context variants name (calls.map Call.batch) =
      (builder? context variants name calls).map Call.batch :=
  List.find?_map ..

theorem builder?_concat_of_some {builder : Call}
    (known : builder? context variants name calls = some builder) (call : Call) :
    builder? context variants name (calls ++ [call]) = some builder := by
  unfold builder? at known ⊢
  rw [List.find?_append, known, Option.some_or]

theorem builder?_concat_of_none (unknown : builder? context variants name calls = none)
    (supplied : supplies context variants name call.batch = true) :
    builder? context variants name (calls ++ [call]) = some call := by
  unfold builder? at unknown ⊢
  rw [List.find?_append, unknown, Option.none_or]
  exact List.find?_cons_of_pos supplied

theorem supplies_of_builder? {builder : Call}
    (known : builder? context variants name calls = some builder) :
    supplies context variants name builder.batch = true := by
  unfold builder? at known
  have supplied := List.find?_some known
  exact supplied

/-- The name of the set that a batch can supply. -/
def suppliedName? (context : ContextId) (variants : List Variant) (batch : Batch) :
    Option Fingerprint :=
  batch.programName.toOption.filter fun name => supplies context variants name batch

theorem suppliedName?_eq_some_iff {batch : Batch} :
    suppliedName? context variants batch = some name ↔
      supplies context variants name batch = true := by
  unfold suppliedName?
  rw [Option.filter_eq_some_iff, toOption_eq_some_iff]
  refine and_iff_right_of_imp fun supplied => ?_
  exact (supplies_iff.1 supplied).2.1

/-- The names of the sets that calls have supplied. -/
def suppliedNames (context : ContextId) (variants : List Variant) (calls : List Call) :
    Finset Fingerprint :=
  (calls.filterMap fun call => suppliedName? context variants call.batch).toFinset

theorem mem_suppliedNames_iff :
    name ∈ suppliedNames context variants calls ↔
      ∃ call ∈ calls, supplies context variants name call.batch = true := by
  simp only [suppliedNames, List.mem_toFinset, List.mem_filterMap, suppliedName?_eq_some_iff]

theorem builder?_eq_none_iff :
    builder? context variants name calls = none ↔ name ∉ suppliedNames context variants calls := by
  simp only [builder?, List.find?_eq_none, mem_suppliedNames_iff, not_exists, not_and]

theorem suppliedNames_concat_of_known
    (known : ∀ name, supplies context variants name call.batch = true →
      name ∈ suppliedNames context variants calls) :
    suppliedNames context variants (calls ++ [call]) = suppliedNames context variants calls := by
  ext name
  simp only [mem_suppliedNames_iff, List.mem_append, List.mem_singleton] at known ⊢
  constructor
  · rintro ⟨earlier, member | rfl, supplied⟩
    · exact ⟨earlier, member, supplied⟩
    · exact known name supplied
  · rintro ⟨earlier, member, supplied⟩
    exact ⟨earlier, .inl member, supplied⟩

theorem suppliedNames_concat_of_new (supplied : supplies context variants name call.batch = true) :
    suppliedNames context variants (calls ++ [call]) =
      insert name (suppliedNames context variants calls) := by
  ext other
  simp only [mem_suppliedNames_iff, Finset.mem_insert, List.mem_append, List.mem_singleton]
  constructor
  · rintro ⟨earlier, member | rfl, supplies⟩
    · exact .inr ⟨earlier, member, supplies⟩
    · have named := (supplies_iff.1 supplied).2.1
      have alsoNamed := (supplies_iff.1 supplies).2.1
      exact .inl (Except.ok.inj (alsoNamed.symm.trans named))
  · rintro (rfl | ⟨earlier, member, supplies⟩)
    · exact ⟨call, .inr rfl, supplied⟩
    · exact ⟨earlier, .inl member, supplies⟩

/-! ### The tally -/

/-- Every stored set has the flag of the call that has built it. -/
def Commissioned (queue : CommandQueue σ) (variants : List Variant) (calls : List Call)
    (run : ModelRun σ) : Prop :=
  ∀ key set, run.model.programs.get? key = some set → key.1 = queue.context ∧
    ∃ builder, builder? queue.context variants key.2 calls = some builder ∧
      ∀ slot, (set.shell slot).force = builder.force

/-- A model that has built one set for each of the names that calls have supplied, with the
flag of the builder. -/
structure Tallied (queue : CommandQueue σ) (variants : List Variant) (calls : List Call)
    (run : ModelRun σ) : Prop where
  stocked : Stocked queue variants (calls.map Call.batch) run
  commissioned : Commissioned queue variants calls run
  counted : run.model.programBuilds = (suppliedNames queue.context variants calls).card

variable {queue : CommandQueue σ} {run : ModelRun σ}

namespace Tallied

/-- Nothing is stored under a name exactly when no call has supplied it. -/
theorem absent_iff (tallied : Tallied queue variants calls run) (name : Fingerprint) :
    run.model.programs.get? (queue.context, name) = none ↔
      name ∉ suppliedNames queue.context variants calls := by
  have stored := tallied.stocked.stored name
  rw [supplier?_eq_builder?_map] at stored
  rw [← builder?_eq_none_iff]
  cases known : builder? queue.context variants name calls with
  | none =>
      rw [known] at stored
      exact iff_of_true stored rfl
  | some builder =>
      rw [known] at stored
      obtain ⟨set, _, _, held, _⟩ := stored
      rw [held]
      exact iff_of_false nofun nofun

/-- What is stored under a name is what its builder would be given on its own, but for
what has been compiled. -/
theorem built {builder : Call} (tallied : Tallied queue variants calls run)
    (known : builder? queue.context variants name calls = some builder) :
    ∃ set, run.model.programs.get? (queue.context, name) = some set ∧
      ProgramSet.build queue.context name queue.device variants builder.batch builder.force =
        .ok set.uncompiled := by
  have stored := tallied.stocked.stored name
  rw [supplier?_eq_builder?_map, known] at stored
  obtain ⟨set, force, emissions, held, emitted, assembled⟩ := stored
  obtain ⟨_, commissioner, same, flagged⟩ := tallied.commissioned _ set held
  rw [known] at same
  cases same
  have flag : force = builder.force := by
    rw [← flagged .primary]
    exact (ProgramSet.shell_of_assembled assembled .primary).2.2.symm
  refine ⟨set, held, ProgramSet.build_eq_ok_iff.2 ⟨emissions, emitted, ?_⟩⟩
  rw [assembled, flag]

/-! #### Calls -/

theorem onPrograms {α : Type} {step : Action (ProgramSet × Bench σ) α}
    (kept : ∀ set bench, (step (set, bench)).2.1.uncompiled = set.uncompiled) (key : ProgramKey) :
    Action.Keeps (Tallied queue variants calls) (Model.onPrograms key step) := by
  have counts (run : ModelRun σ) :
      (Model.onPrograms key step run).2.model.programBuilds = run.model.programBuilds := by
    cases held : run.model.programs.get? key with
    | none => rw [Model.onPrograms_of_absent step held]
    | some set => simp only [Model.onPrograms, Action.on, ProgramCache.onSet, held,
        Model.programBuilds]
  have commissions : Action.Keeps (Commissioned queue variants calls)
      (Model.onPrograms key step) := by
    refine Model.onPrograms_keeps step fun run set reached commissioned held stored => ?_
    intro other found present
    have lookup : reached.get? other = some found := present
    rw [stored] at lookup
    split at lookup
    · next same =>
        subst same
        cases lookup
        obtain ⟨home, builder, known, flagged⟩ := commissioned key set held
        refine ⟨home, builder, known, fun slot => ?_⟩
        have requests := ProgramSet.request_congr (kept set run.bench) slot
        exact (congrArg CompileRequest.force requests).trans (flagged slot)
    · exact commissioned other found lookup
  intro run tallied
  exact ⟨Stocked.onPrograms kept key run tallied.stocked, commissions run tallied.commissioned,
    (counts run).trans tallied.counted⟩

theorem lasting (batch : Batch) :
    Lasting queue variants batch (Tallied queue variants calls) where
  onQueue := fun _ tallied => tallied.stocked.onQueue
  ofVariants := fun _ tallied => tallied.stocked.ofVariants
  program := fun key slot =>
    onPrograms (fun set bench => ProgramSet.program_uncompiled queue slot set bench) key
  compileAll := fun key =>
    onPrograms (fun set bench => ProgramSet.compileAll_uncompiled queue set bench) key
  submit := fun launch planned run tallied =>
    ⟨(Stocked.lasting batch).submit launch planned run tallied.stocked, tallied.commissioned,
      tallied.counted⟩
  finish := fun run tallied =>
    ⟨(Stocked.lasting batch).finish run tallied.stocked, tallied.commissioned,
      tallied.counted⟩
  override := fun shape durations length run tallied =>
    ⟨(Stocked.lasting batch).override shape durations length run tallied.stocked,
      tallied.commissioned, tallied.counted⟩
  record := fun event run tallied =>
    ⟨(Stocked.lasting batch).record event run tallied.stocked, tallied.commissioned,
      tallied.counted⟩

/-- A call that supplies no new name and stores nothing. -/
theorem concat_of_known {after : ModelRun σ} (tallied : Tallied queue variants calls run)
    (stocked : Stocked queue variants ((calls ++ [call]).map Call.batch) after)
    (known : ∀ name, supplies queue.context variants name call.batch = true →
      name ∈ suppliedNames queue.context variants calls)
    (unchanged : ∀ key, after.model.programs.get? key = run.model.programs.get? key)
    (uncounted : after.model.programBuilds = run.model.programBuilds) :
    Tallied queue variants (calls ++ [call]) after := by
  refine ⟨stocked, ?_, ?_⟩
  · intro key set held
    rw [unchanged] at held
    obtain ⟨home, builder, found, flagged⟩ := tallied.commissioned key set held
    exact ⟨home, builder, builder?_concat_of_some found call, flagged⟩
  · rw [suppliedNames_concat_of_known known, uncounted]
    exact tallied.counted

/-- A call that supplies a new name and stores the set of it. -/
theorem concat_of_new {after : ModelRun σ} {set : ProgramSet}
    (tallied : Tallied queue variants calls run)
    (stocked : Stocked queue variants ((calls ++ [call]).map Call.batch) after)
    (supplied : supplies queue.context variants name call.batch = true)
    (absent : run.model.programs.get? (queue.context, name) = none)
    (flagged : ∀ slot, (set.shell slot).force = call.force)
    (grown : ∀ key, after.model.programs.get? key =
      if (queue.context, name) = key then some set else run.model.programs.get? key)
    (counted : after.model.programBuilds = run.model.programBuilds + 1) :
    Tallied queue variants (calls ++ [call]) after := by
  have new := (tallied.absent_iff name).1 absent
  refine ⟨stocked, ?_, ?_⟩
  · intro key found held
    rw [grown] at held
    split at held
    · next same =>
        subst same
        cases held
        exact ⟨rfl, call, builder?_concat_of_none (builder?_eq_none_iff.2 new) supplied, flagged⟩
    · obtain ⟨home, builder, known, flagged⟩ := tallied.commissioned key found held
      exact ⟨home, builder, builder?_concat_of_some known call, flagged⟩
  · rw [suppliedNames_concat_of_new supplied, Finset.card_insert_of_notMem new, counted,
      tallied.counted]

/-- The lookup for a call builds what the call supplies as the first one. -/
theorem obtainPrograms (tallied : Tallied queue variants calls run)
    (checked : run.model.checkContext call.batch = .ok ()) :
    Tallied queue variants (calls ++ [call])
      (Model.obtainPrograms call.batch call.force run).2 := by
  have stocked : Stocked queue variants ((calls ++ [call]).map Call.batch)
      (Model.obtainPrograms call.batch call.force run).2 := by
    rw [List.map_append]
    exact tallied.stocked.obtainPrograms checked
  cases named : call.batch.programName with
  | error cause =>
      rw [Model.obtainPrograms_of_refused named] at stocked ⊢
      refine tallied.concat_of_known stocked ?_ (fun _ => rfl) rfl
      intro name supplied
      rw [supplies_iff, named] at supplied
      cases supplied.2.1
  | ok own =>
      obtain ⟨result, reached, recorded, obtained, looked⟩ :=
        Model.obtainPrograms_of_named call.force run named
      have only {name : Fingerprint}
          (supplied : supplies queue.context variants name call.batch = true) : own = name :=
        Except.ok.inj (named.symm.trans (supplies_iff.1 supplied).2.1)
      rw [obtained] at stocked ⊢
      rw [tallied.stocked.onQueue, tallied.stocked.ofVariants] at looked
      cases looked with
      | held present unchanged uncounted =>
          refine tallied.concat_of_known stocked ?_ unchanged uncounted
          intro name supplied
          rw [← only supplied]
          refine not_not.1 fun new => ?_
          rw [(tallied.absent_iff own).2 new] at present
          cases present
      | failed absent refused unchanged uncounted =>
          refine tallied.concat_of_known stocked ?_ unchanged uncounted
          intro name supplied
          obtain ⟨_, _, emissions, emitted⟩ := supplies_iff.1 supplied
          rw [ProgramSet.build_eq_ok_iff.2 ⟨emissions, emitted, rfl⟩] at refused
          cases refused
      | built absent succeeded grown counted =>
          obtain ⟨emissions, emitted, rfl⟩ := ProgramSet.build_eq_ok_iff.1 succeeded
          have home := Model.checkContext_eq_ok_iff.1 checked
          rw [tallied.stocked.onQueue] at home
          refine tallied.concat_of_new stocked (supplies_iff.2 ⟨home, named, emissions, emitted⟩)
            absent ?_ grown counted
          intro slot
          exact (ProgramSet.shell_of_assembled ProgramSet.assemble_uncompiled slot).2.2

/-- A refused call supplies nothing. -/
theorem concat_of_foreign (tallied : Tallied queue variants calls run)
    (foreign : call.batch.context ≠ queue.context) :
    Tallied queue variants (calls ++ [call]) run := by
  have idle (name : Fingerprint) : supplies queue.context variants name call.batch = false := by
    rw [Bool.eq_false_iff, Ne, supplies_iff]
    exact fun supplied => foreign supplied.1
  refine tallied.concat_of_known ?_ ?_ (fun _ => rfl) rfl
  · rw [List.map_append]
    exact tallied.stocked.concat_of_idle idle
  · intro name supplied
    rw [idle name] at supplied
    cases supplied

end Tallied

end KernelTuner
