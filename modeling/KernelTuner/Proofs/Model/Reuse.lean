import KernelTuner.Proofs.Model.Asking
import KernelTuner.Proofs.Model.Succeeding
import KernelTuner.Proofs.Model.Traces
import KernelTuner.Proofs.Model.Transparency

/-!
Contract: programs are built once and compiled once.

Owns: `programs_built_and_compiled_once`, by which, after any history of executions and
tunings with any flags and failures, a model has built one set for each name that a call
could supply, hands out that set for every batch of the name, and has compiled each
program of it at most once, as the flag of the first of these calls says; while what has
failed has left nothing behind and is tried again.
Does not own: whether the sources of a set suit a batch that is handed it.
-/

set_option autoImplicit false

namespace KernelTuner

variable {σ : Type} {queue : CommandQueue σ} {variants : List Variant} {name : Fingerprint}
  {batch : Batch} {set : ProgramSet} {calls : List Call}

/-! ### Lookups of a name -/

namespace Model

variable {run : ModelRun σ}

/-- A lookup of a stored name builds nothing. -/
theorem obtainPrograms_of_held (force : Bool) (named : batch.programName = .ok name)
    (held : run.model.programs.get? (run.model.queue.context, name) = some set) :
    ∃ obtained, obtainPrograms batch force run =
        (.ok (run.model.queue.context, name), obtained) ∧
      obtained.model.programs.get? (run.model.queue.context, name) = some set ∧
      obtained.model.programBuilds = run.model.programBuilds := by
  obtain ⟨result, reached, recorded, obtained, looked⟩ := obtainPrograms_of_named force run named
  cases looked with
  | held present unchanged uncounted =>
      exact ⟨_, obtained, (unchanged _).trans held, uncounted⟩
  | built absent =>
      rw [held] at absent
      cases absent
  | failed absent =>
      rw [held] at absent
      cases absent

/-- A lookup of a name that is not stored comes to what building its set comes to. -/
theorem obtainPrograms_of_absent (force : Bool) (named : batch.programName = .ok name)
    (absent : run.model.programs.get? (run.model.queue.context, name) = none) :
    (obtainPrograms batch force run).1 =
      (ProgramSet.build run.model.queue.context name run.model.queue.device run.model.variants
        batch force).map fun _ => (run.model.queue.context, name) := by
  obtain ⟨result, reached, recorded, obtained, looked⟩ := obtainPrograms_of_named force run named
  rw [obtained]
  cases looked with
  | held present =>
      rw [absent] at present
      cases present
  | built _ succeeded => rw [succeeded]
  | failed _ refused => rw [refused]

end Model

/-! ### Whole histories -/

/-- How a model has dealt with its programs in the course of `calls`, which have made the
backend calls `events` and have led to `run`. -/
structure Reuses (queue : CommandQueue σ) (variants : List Variant) (calls : List Call)
    (events : List (BackendEvent σ)) (run : ModelRun σ) : Prop where
  counted : run.model.programBuilds = (suppliedNames queue.context variants calls).card
  /-- The set of a name is the one that its builder was given, whoever asks for it. -/
  shared : ∀ name builder, builder? queue.context variants name calls = some builder →
    ∃ set, run.model.programs.get? (queue.context, name) = some set ∧
      ProgramSet.build queue.context name queue.device variants builder.batch builder.force =
        .ok set.uncompiled ∧
      ∀ (batch : Batch) (force : Bool), batch.programName = .ok name → ∃ obtained,
        Model.obtainPrograms batch force run = (.ok (queue.context, name), obtained) ∧
        obtained.model.programs.get? (queue.context, name) = some set ∧
        obtained.model.programBuilds = run.model.programBuilds
  /-- A name for which all emissions have failed is built by the next call that can. -/
  unbuilt : ∀ name, builder? queue.context variants name calls = none →
    run.model.programs.get? (queue.context, name) = none ∧
      ∀ (batch : Batch) (force : Bool), batch.programName = .ok name →
        (Model.obtainPrograms batch force run).1 =
          (ProgramSet.build queue.context name queue.device variants batch force).map
            fun _ => (queue.context, name)
  /-- Every request is that of a stored shell and carries the flag of the builder. -/
  requested : ∀ event ∈ events, ∀ request, event.call = .compile request →
    ∃ name builder set slot, builder? queue.context variants name calls = some builder ∧
      run.model.programs.get? (queue.context, name) = some set ∧
      (set.shell slot).request = request ∧ request.force = builder.force
  /-- A request tells whose it is. -/
  distinct : ∀ name other set otherSet slot otherSlot,
    run.model.programs.get? (queue.context, name) = some set →
    run.model.programs.get? (queue.context, other) = some otherSet →
    (set.shell slot).request = (otherSet.shell otherSlot).request → name = other ∧ slot = otherSlot
  /-- A shell is compiled exactly when one of its requests has succeeded. -/
  compiled : ∀ name set slot program,
    run.model.programs.get? (queue.context, name) = some set →
    ((set.shell slot).compiled = some program ↔
      ∃ event ∈ events, event.Compiles queue (set.shell slot).request program)
  /-- No request follows one that has succeeded. -/
  once : events.Pairwise fun earlier later =>
    ∀ request program, earlier.Compiles queue request program → later.call ≠ .compile request
  /-- What a call needs and has not been compiled it asks for, whatever has failed before. -/
  retried : ∀ (call : Call) key obtained set slot, run.model.checkContext call.batch = .ok () →
    Model.obtainPrograms call.batch call.force run = (.ok key, obtained) →
    obtained.model.programs.get? key = some set →
    call.Needs run.model set obtained.bench slot → (set.shell slot).compiled = none →
    ∃ event ∈ call.events run, event.call = .compile (set.shell slot).request

namespace Accounted

variable {events : List (BackendEvent σ)} {run : ModelRun σ}

/-- A stored set stands under the name of its builder. -/
theorem builder_of_held (accounted : Accounted queue variants calls (run.recorded events))
    {key : ProgramKey} (held : run.model.programs.get? key = some set) :
    ∃ builder, key = (queue.context, key.2) ∧
      builder? queue.context variants key.2 calls = some builder ∧
      ∀ slot, (set.shell slot).force = builder.force := by
  obtain ⟨home, builder, known, flagged⟩ := accounted.tallied.commissioned key set held
  exact ⟨builder, Prod.ext home rfl, known, flagged⟩

/-- The set of a name is stored and is what its builder was given. -/
theorem set_of_builder {builder : Call}
    (accounted : Accounted queue variants calls (run.recorded events))
    (known : builder? queue.context variants name calls = some builder) :
    ∃ set, run.model.programs.get? (queue.context, name) = some set ∧
      ProgramSet.build queue.context name queue.device variants builder.batch builder.force =
        .ok set.uncompiled :=
  accounted.tallied.built known

/-- A stored shell is compiled exactly when one of its requests has succeeded. -/
theorem compiled_iff (accounted : Accounted queue variants calls (run.recorded events))
    {key : ProgramKey} {slot : Slot} {program : Program}
    (held : run.model.programs.get? key = some set) :
    (set.shell slot).compiled = some program ↔
      ∃ event ∈ events, event.Compiles queue (set.shell slot).request program :=
  accounted.logged.answered (key, slot) (set.shell slot) program
    (Option.map_eq_some_iff.2 ⟨set, held, rfl⟩)

theorem reuses (accounted : Accounted queue variants calls (run.recorded events))
    (onQueue : run.model.queue = queue) (ofVariants : run.model.variants = variants) :
    Reuses queue variants calls events run where
  counted := accounted.tallied.counted
  shared := by
    intro name builder known
    obtain ⟨set, held, built⟩ := accounted.set_of_builder known
    refine ⟨set, held, built, fun batch force named => ?_⟩
    subst onQueue
    exact Model.obtainPrograms_of_held force named held
  unbuilt := by
    intro name unknown
    have absent := (accounted.tallied.absent_iff name).2 (builder?_eq_none_iff.1 unknown)
    refine ⟨absent, fun batch force named => ?_⟩
    subst onQueue ofVariants
    exact Model.obtainPrograms_of_absent force named absent
  requested := by
    intro event member request asks
    obtain ⟨⟨key, slot⟩, shell, onShelf, same⟩ :=
      accounted.logged.requested event member request asks
    obtain ⟨set, held, rfl⟩ := Option.map_eq_some_iff.1 onShelf
    obtain ⟨builder, home, known, flagged⟩ := accounted.builder_of_held held
    refine ⟨key.2, builder, set, slot, known, home ▸ held, same, ?_⟩
    rw [← same]
    exact flagged slot
  distinct := by
    intro name other set otherSet slot otherSlot held otherHeld same
    have onShelf {name : Fingerprint} {set : ProgramSet} {slot : Slot}
        (held : run.model.programs.get? (queue.context, name) = some set) :
        shelf run.model.programs.get? ((queue.context, name), slot) = some (set.shell slot) :=
      Option.map_eq_some_iff.2 ⟨set, held, rfl⟩
    have together := accounted.logged.distinct _ _ _ _ (onShelf held) (onShelf otherHeld) same
    exact ⟨congrArg (fun place => place.1.2) together, congrArg Prod.snd together⟩
  compiled := fun _ _ _ _ held => accounted.compiled_iff held
  once := accounted.logged.once
  retried := fun _ _ _ _ _ checked obtains held needed uncompiled =>
    Call.asks_of_needs checked obtains held needed uncompiled

end Accounted

/-- After any history of calls on a model, with any flags and any failures and with other
work done on the backend in between, programs have been built once for each name and
compiled once, and nothing is left of what has failed. -/
theorem programs_built_and_compiled_once {predictor : Option CostPredictor} {model : Model σ}
    {bench : Bench σ} {drift : σ → σ → Prop} {events : List (BackendEvent σ)} {run : ModelRun σ}
    (created : Model.create variants predictor queue = .ok model)
    (traced : Traced drift ⟨model, bench⟩ calls events run) :
    Reuses queue variants calls events run := by
  have accounted := (Accounted.initial created).of_traced traced
  have stocked := (Stocked.initial created).of_reaches traced.reaches
  exact accounted.reuses stocked.onQueue stocked.ofVariants

/-! ### An inner product that is executed with the flag and tuned without it -/

/-- The calls of which the first has the flag. -/
def Call.forcedThenTuned : List Call :=
  [.execute (.dot .f32) false true, .tune (.dot .f32)]

theorem dot_builder :
    builder? ⟨1⟩ [.folding] ⟨"sassf0ipvf1vf2"⟩ Call.forcedThenTuned =
      some (.execute (.dot .f32) false true) :=
  List.find?_cons_of_pos Batch.dot_supplies

theorem dot_suppliedNames :
    suppliedNames ⟨1⟩ [.folding] Call.forcedThenTuned = {⟨"sassf0ipvf1vf2"⟩} := by
  ext name
  rw [mem_suppliedNames_iff, Finset.mem_singleton]
  constructor
  · rintro ⟨call, member, supplied⟩
    have sameBatch : call.batch = .dot .f32 := by
      simp only [Call.forcedThenTuned, List.mem_cons, List.not_mem_nil, or_false] at member
      rcases member with rfl | rfl <;> rfl
    rw [sameBatch, supplies_iff, Batch.dot_programName] at supplied
    exact (Except.ok.inj supplied.2.1).symm
  · rintro rfl
    exact ⟨_, List.mem_cons_self, Batch.dot_supplies⟩

theorem eq_of_dot_builder {builder : Call}
    (known : builder? ⟨1⟩ [.folding] name Call.forcedThenTuned = some builder) :
    builder = .execute (.dot .f32) false true := by
  have listed : name ∈ suppliedNames ⟨1⟩ [.folding] Call.forcedThenTuned := by
    refine not_not.1 fun unlisted => ?_
    rw [builder?_eq_none_iff.2 unlisted] at known
    cases known
  rw [dot_suppliedNames, Finset.mem_singleton] at listed
  rw [listed, dot_builder] at known
  exact (Option.some.inj known).symm

/-- The first thing that an execution on a new model does with the backend is to ask for the
program of the one variant. -/
theorem dot_asks {queue : CommandQueue σ} (home : queue.context = ⟨1⟩) (bench : Bench σ)
    (force : Bool) :
    ∃ request, ⟨.compile request, bench.backend⟩ ∈
      (Call.execute (.dot .f32) false force).events ⟨.single .folding queue, bench⟩ := by
  obtain ⟨emissions, emitted⟩ := Batch.dot_emitted .f32
  obtain ⟨obtained, obtains, present⟩ : ∃ obtained,
      Model.obtainPrograms (.dot .f32) force ⟨.single .folding queue, bench⟩ =
          (.ok (queue.context, ⟨"sassf0ipvf1vf2"⟩), obtained) ∧
        obtained.model.programs.get? (queue.context, ⟨"sassf0ipvf1vf2"⟩) ≠ none :=
    Model.obtainPrograms_ok force Batch.dot_programName emitted
  obtain ⟨set, held⟩ := Option.ne_none_iff_exists'.1 present
  have fresh : ∀ slot, (set.shell slot).compiled = none := by
    have grows := (Model.obtainPrograms_grows (.dot .f32) force ⟨.single .folding queue, bench⟩).2
    rw [obtains] at grows
    exact ((grows _ set held).resolve_left nofun).2
  obtain ⟨shape, sized⟩ : ∃ shape, Variant.folding.sizes (.dot .f32) = .ok shape := ⟨_, rfl⟩
  obtain ⟨plan, planned⟩ : ∃ plan, Variant.folding.plan 0 (.dot .f32) = .ok plan := ⟨_, rfl⟩
  have checked : (Model.single .folding queue).checkContext (.dot .f32) = .ok () :=
    Model.checkContext_of_same home.symm
  exact ⟨_, Call.execute_asks checked obtains held rfl sized rfl rfl planned (fresh plan.slot)⟩

/-- Both calls share one set, and the tuning asks for it with the flag of the execution. -/
theorem dot_built_once :
    ∃ events run,
      Model.create [.folding] none (Platform.single.commandQueue ⟨1⟩) =
          .ok (.single .folding (Platform.single.commandQueue ⟨1⟩)) ∧
        Traced (fun _ _ => False) .folding Call.forcedThenTuned events run ∧
        run.model.programBuilds = 1 ∧
        (∃ event ∈ events, ∃ request, event.call = .compile request) ∧
        ∀ event ∈ events, ∀ request, event.call = .compile request → request.force = true := by
  have first : Traced (fun _ _ => False) .folding [] [] ModelRun.folding := .start
  have traced := (first.call (.execute (.dot .f32) false true)).call (.tune (.dot .f32))
  have reuses := programs_built_and_compiled_once folding_created traced
  refine ⟨_, _, folding_created, traced, ?_, ?_, ?_⟩
  · exact reuses.counted.trans (congrArg Finset.card dot_suppliedNames)
  · have home : (Platform.single.commandQueue ⟨1⟩).context = ⟨1⟩ := rfl
    obtain ⟨request, member⟩ := dot_asks home ModelRun.folding.bench true
    exact ⟨_, List.mem_append_left _ (List.mem_append_right [] member), request, rfl⟩
  · intro event member request asks
    obtain ⟨name, builder, set, slot, known, _, _, flagged⟩ :=
      reuses.requested event member request asks
    rw [flagged, eq_of_dot_builder known]
    rfl

end KernelTuner
