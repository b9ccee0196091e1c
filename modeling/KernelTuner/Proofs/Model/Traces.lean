import KernelTuner.Proofs.Model.Builds
import KernelTuner.Proofs.Model.Steps

/-!
Contract: histories of calls with what they ask of the backend.

Owns: traces, which are histories together with the backend calls made in their course;
and `Accounted.of_traced`, by which at the end of a trace every build is counted and the
stored programs agree with the backend calls.
Does not own: what else than the model uses the backend.
-/

set_option autoImplicit false

namespace KernelTuner

open KernelTuner.Action (Keeps)

variable {σ : Type} {queue : CommandQueue σ} {variants : List Variant} {calls : List Call}
  {call : Call}

/-! ### Traces -/

/-- The states that calls lead to from `start`, with the backend calls that the model has
made. Between two calls the backend moves as `drift` allows. -/
inductive Traced (drift : σ → σ → Prop) (start : ModelRun σ) :
    List Call → List (BackendEvent σ) → ModelRun σ → Prop where
  | start : Traced drift start [] [] start
  | call {calls : List Call} {events : List (BackendEvent σ)} {run : ModelRun σ}
      (traced : Traced drift start calls events run) (call : Call) :
      Traced drift start (calls ++ [call]) (events ++ call.events run) (call.perform run)
  | drift {calls : List Call} {events : List (BackendEvent σ)} {run : ModelRun σ}
      (traced : Traced drift start calls events run) {bench : Bench σ}
      (moved : drift run.bench.backend bench.backend) :
      Traced drift start calls events { run with bench }

variable {drift : σ → σ → Prop} {start run : ModelRun σ} {events : List (BackendEvent σ)}

theorem Traced.reaches (traced : Traced drift start calls events run) :
    Reaches drift start calls run := by
  induction traced with
  | start => exact .start
  | call _ call inductionHypothesis => exact inductionHypothesis.call call
  | drift _ moved inductionHypothesis => exact inductionHypothesis.drift moved

/-- Whatever is reached is reached by a trace. -/
theorem Reaches.traced (reached : Reaches drift start calls run) :
    ∃ events, Traced drift start calls events run := by
  induction reached with
  | start => exact ⟨[], .start⟩
  | call _ call inductionHypothesis =>
      obtain ⟨events, traced⟩ := inductionHypothesis
      exact ⟨_, traced.call call⟩
  | drift _ moved inductionHypothesis =>
      obtain ⟨events, traced⟩ := inductionHypothesis
      exact ⟨events, traced.drift moved⟩

/-! ### Lookups -/

namespace Model

/-- A lookup keeps every stored set, and what it adds has not been compiled. -/
theorem obtainPrograms_grows (batch : Batch) (force : Bool) (run : ModelRun σ) :
    (∀ key set, run.model.programs.get? key = some set →
      (obtainPrograms batch force run).2.model.programs.get? key = some set) ∧
    ∀ key set, (obtainPrograms batch force run).2.model.programs.get? key = some set →
      run.model.programs.get? key = some set ∨
        run.model.programs.get? key = none ∧ ∀ slot, (set.shell slot).compiled = none := by
  cases named : batch.programName with
  | error cause =>
      rw [obtainPrograms_of_refused named]
      exact ⟨fun _ _ held => held, fun _ _ held => .inl held⟩
  | ok name =>
      obtain ⟨result, reached, recorded, obtained, looked⟩ :=
        obtainPrograms_of_named force run named
      rw [obtained]
      cases looked with
      | held _ unchanged =>
          exact ⟨fun key _ held => (unchanged key).trans held,
            fun key _ held => .inl ((unchanged key).symm.trans held)⟩
      | failed _ _ unchanged =>
          exact ⟨fun key _ held => (unchanged key).trans held,
            fun key _ held => .inl ((unchanged key).symm.trans held)⟩
      | built absent succeeded grown =>
          obtain ⟨emissions, _, rfl⟩ := ProgramSet.build_eq_ok_iff.1 succeeded
          constructor
          · intro key set held
            have other : (run.model.queue.context, name) ≠ key := by
              rintro rfl
              rw [held] at absent
              cases absent
            exact (grown key).trans ((if_neg other).trans held)
          · intro key set held
            have found : reached.get? key = some set := held
            rw [grown] at found
            split at found
            · next same =>
                subst same
                cases found
                exact .inr ⟨absent, ProgramSet.assemble_compiled⟩
            · exact .inl found

end Model

/-! ### Accounts -/

namespace Tallied

variable {run : ModelRun σ} {place other : ProgramKey × Slot} {shell otherShell : Shell}

/-- A stored shell is requested on the queue's context, under the name of its place. -/
theorem shell_of_held (tallied : Tallied queue variants calls run)
    (held : shelf run.model.programs.get? place = some shell) :
    shell.context = queue.context ∧ place.1.1 = queue.context ∧
      shell.name = place.1.2.slotName place.2 ∧
      ∃ batch : Batch, batch.programName = .ok place.1.2 := by
  obtain ⟨⟨context, name⟩, slot⟩ := place
  obtain ⟨set, present, rfl⟩ := Option.map_eq_some_iff.1 held
  obtain ⟨home, builder, known, _⟩ := tallied.commissioned _ set present
  have here : context = queue.context := home
  subst here
  obtain ⟨found, same, built⟩ := tallied.built known
  cases present.symm.trans same
  obtain ⟨emissions, _, assembled⟩ := ProgramSet.build_eq_ok_iff.1 built
  obtain ⟨ownContext, ownName, _⟩ := ProgramSet.shell_of_assembled assembled slot
  have named := (supplies_iff.1 (supplies_of_builder? known)).2.1
  exact ⟨ownContext, rfl, ownName, builder.batch, named⟩

/-- All shells that a model has stored have requests of their own. -/
theorem distinct (tallied : Tallied queue variants calls run)
    (held : shelf run.model.programs.get? place = some shell)
    (otherHeld : shelf run.model.programs.get? other = some otherShell)
    (same : shell.request = otherShell.request) : place = other := by
  obtain ⟨_, home, named, batch, batchNamed⟩ := tallied.shell_of_held held
  obtain ⟨_, otherHome, otherNamed, otherBatch, otherBatchNamed⟩ := tallied.shell_of_held otherHeld
  have sameName : shell.name = otherShell.name := congrArg CompileRequest.name same
  rw [named, otherNamed] at sameName
  obtain ⟨sameFingerprint, sameSlot⟩ :=
    Fingerprint.slotName_injective batchNamed otherBatchNamed sameName
  exact Prod.ext (Prod.ext (home.trans otherHome.symm) sameFingerprint) sameSlot

end Tallied

/-- A model on a queue that keeps a log, with its builds counted and its stored programs
in agreement with the log. -/
structure Accounted (queue : CommandQueue σ) (variants : List Variant) (calls : List Call)
    (run : ModelRun (Recorded σ)) : Prop where
  tallied : Tallied queue.recorded variants calls run
  logged : Logged queue (shelf run.model.programs.get?) run.bench.backend.log

namespace Accounted

variable {run : ModelRun (Recorded σ)}

theorem initial {predictor : Option CostPredictor} {model : Model σ} {bench : Bench σ}
    (created : Model.create variants predictor queue = .ok model) :
    Accounted queue variants [] (ModelRun.recorded [] ⟨model, bench⟩) := by
  obtain ⟨_, rfl⟩ := Model.eq_of_create created
  exact ⟨⟨⟨rfl, rfl, fun _ => rfl⟩, nofun, rfl⟩, .empty fun _ => rfl⟩

theorem logged_onPrograms {α : Type} {step : Action (ProgramSet × Bench (Recorded σ)) α}
    (kept : ∀ store key, Keeps (LoggedBeside queue store key) step) (key : ProgramKey) :
    Keeps (fun run : ModelRun (Recorded σ) =>
        Logged queue (shelf run.model.programs.get?) run.bench.backend.log)
      (Model.onPrograms key step) := by
  refine Model.onPrograms_keeps step fun run set reached logged held stored => ?_
  have before : run.model.programs.get? = stock run.model.programs.get? key set := by
    funext other
    unfold stock
    split
    · next same => rw [← same, held]
    · rfl
  have after : reached.get? = stock run.model.programs.get? key (step (set, run.bench)).2.1 :=
    funext stored
  have beside : LoggedBeside queue run.model.programs.get? key (set, run.bench) := by
    rw [before] at logged
    exact logged
  show Logged queue (shelf reached.get?) _
  rw [after]
  exact kept run.model.programs.get? key (set, run.bench) beside

theorem lasting (batch : Batch) :
    Lasting queue.recorded variants batch (Accounted queue variants calls) where
  onQueue := fun _ accounted => accounted.tallied.stocked.onQueue
  ofVariants := fun _ accounted => accounted.tallied.stocked.ofVariants
  program := fun key slot run accounted =>
    ⟨(Tallied.lasting batch).program key slot run accounted.tallied,
      logged_onPrograms (fun _ _ => ProgramSet.program_keeps_log slot) key run accounted.logged⟩
  compileAll := fun key run accounted =>
    ⟨(Tallied.lasting batch).compileAll key run accounted.tallied,
      logged_onPrograms (fun _ _ => ProgramSet.compileAll_keeps_log) key run accounted.logged⟩
  submit := fun launch planned run accounted =>
    ⟨(Tallied.lasting batch).submit launch planned run accounted.tallied,
      accounted.logged.concat_silent fun _ => nofun⟩
  finish := fun run accounted =>
    ⟨(Tallied.lasting batch).finish run accounted.tallied,
      accounted.logged.concat_silent fun _ => nofun⟩
  override := fun shape durations length run accounted =>
    ⟨(Tallied.lasting batch).override shape durations length run accounted.tallied,
      accounted.logged⟩
  record := fun event run accounted =>
    ⟨(Tallied.lasting batch).record event run accounted.tallied, accounted.logged⟩

/-- The lookup for a call adds shells that nobody has requested. -/
theorem obtainPrograms (accounted : Accounted queue variants calls run)
    (checked : run.model.checkContext call.batch = .ok ()) :
    Accounted queue variants (calls ++ [call])
      (Model.obtainPrograms call.batch call.force run).2 := by
  have tallied := accounted.tallied.obtainPrograms checked
  obtain ⟨kept, fresh⟩ := Model.obtainPrograms_grows call.batch call.force run
  have silent : (Model.obtainPrograms call.batch call.force run).2.bench.backend =
      run.bench.backend := by
    rcases outcome : Model.obtainPrograms call.batch call.force run with ⟨result, obtained⟩
    exact Model.backend_of_obtained outcome
  refine ⟨tallied, ?_⟩
  rw [silent]
  refine accounted.logged.grow (fun _ _ _ _ => tallied.distinct) ?_ ?_
  · intro place shell held
    obtain ⟨set, present, rfl⟩ := Option.map_eq_some_iff.1 held
    exact Option.map_eq_some_iff.2 ⟨set, kept place.1 set present, rfl⟩
  · intro place shell held
    obtain ⟨set, present, rfl⟩ := Option.map_eq_some_iff.1 held
    rcases fresh place.1 set present with old | ⟨absent, uncompiled⟩
    · exact .inl (Option.map_eq_some_iff.2 ⟨set, old, rfl⟩)
    · exact .inr ⟨Option.map_eq_none_iff.2 absent, uncompiled place.2⟩

theorem perform (accounted : Accounted queue variants calls run) (call : Call) :
    Accounted queue variants (calls ++ [call]) (call.perform run) := by
  refine (lasting call.batch).perform call accounted.tallied.stocked.onQueue
    accounted.tallied.stocked.ofVariants ?_ accounted.obtainPrograms
  intro cause refused
  have foreign : call.batch.context ≠ queue.recorded.context := by
    rw [← accounted.tallied.stocked.onQueue]
    intro home
    rw [Model.checkContext_of_same home] at refused
    cases refused
  exact ⟨accounted.tallied.concat_of_foreign foreign, accounted.logged⟩

/-- Every request has been for the queue's context. -/
theorem context_of_request (accounted : Accounted queue variants calls run)
    {event : BackendEvent σ} (member : event ∈ run.bench.backend.log) {request : CompileRequest}
    (asks : event.call = .compile request) : request.context = queue.context := by
  obtain ⟨place, shell, held, rfl⟩ := accounted.logged.requested event member request asks
  exact (accounted.tallied.shell_of_held held).1

/-- At the end of a trace all builds are counted and all requests are accounted for. -/
theorem of_traced {start run : ModelRun σ}
    (initial : Accounted queue variants [] (start.recorded []))
    (traced : Traced drift start calls events run) :
    Accounted queue variants calls (run.recorded events) := by
  induction traced with
  | start => exact initial
  | @call calls events run _ call inductionHypothesis =>
      rw [← call.perform_recorded events run]
      exact inductionHypothesis.perform call
  | drift _ _ inductionHypothesis =>
      obtain ⟨⟨stocked, commissioned, counted⟩, logged⟩ := inductionHypothesis
      exact ⟨⟨⟨stocked.onQueue, stocked.ofVariants, stocked.stored⟩, commissioned, counted⟩, logged⟩

end Accounted

end KernelTuner
