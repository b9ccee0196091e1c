import KernelTuner.Proofs.Backend.CompilerHistory
import KernelTuner.Proofs.Model.Resuming

/-!
Contract: calls on a platform whose calls may fail.

Owns: what a call adds to the programs of a model and to the artifacts of its compiler,
however it ends, and what the same call asks for when it is made again; and
`backend_failure_stops_call`, by which a call stops with the first backend call that fails,
keeps what was done before it, and can be repeated.
-/

set_option autoImplicit false

namespace KernelTuner

/-! ### Calls that come to the backend -/

/-- A call that has come to the backend has passed the check and has its programs. -/
theorem Call.obtained_of_event {σ : Type} {call : Call} {run : ModelRun σ}
    {event : BackendEvent σ} (member : event ∈ call.events run) :
    run.model.checkContext call.batch = .ok () ∧ ∃ key obtained,
      Model.obtainPrograms call.batch call.force run = (.ok key, obtained) := by
  cases checked : run.model.checkContext call.batch with
  | error cause =>
      rw [(call.silent_of_refused checked).1] at member
      cases member
  | ok =>
      refine ⟨rfl, ?_⟩
      rcases obtains : Model.obtainPrograms call.batch call.force run with ⟨result, obtained⟩
      cases result with
      | ok key => exact ⟨key, obtained, rfl⟩
      | error cause =>
          have recordedChecked : (run.recorded []).model.checkContext call.batch = .ok () := checked
          have fails : Model.obtainPrograms call.batch call.force (run.recorded []) =
              (.error cause, obtained.recorded []) := by
            rw [Model.obtainPrograms_recorded, obtains]
          have silent : call.events run = [] :=
            (congrArg (fun ended => ended.bench.backend.log)
              (call.perform_of_unobtained recordedChecked fails)).trans
              (congrArg Recorded.log (call.backend_close (obtained.recorded [])))
          rw [silent] at member
          cases member

/-! ### What a call adds to the programs -/

namespace Accounted

variable {σ : Type} {queue : CommandQueue σ} {variants : List Variant} {calls : List Call}
  {call : Call} {events more again : List (BackendEvent σ)} {run after repeated : ModelRun σ}

/-- A call keeps every stored set and what has been compiled of it. -/
theorem kept (before : Accounted queue variants calls (run.recorded events))
    (behind : Accounted queue variants (calls ++ [call]) (after.recorded (events ++ more)))
    {key : ProgramKey} {set : ProgramSet} (held : run.model.programs.get? key = some set) :
    ∃ later, after.model.programs.get? key = some later ∧ later.uncompiled = set.uncompiled ∧
      ∀ slot program, (set.shell slot).compiled = some program →
        (later.shell slot).compiled = some program := by
  obtain ⟨builder, home, known, -⟩ := before.builder_of_held held
  obtain ⟨found, sameHeld, built⟩ := before.set_of_builder known
  obtain ⟨later, laterHeld, laterBuilt⟩ := behind.set_of_builder (builder?_concat_of_some known call)
  rw [← home] at sameHeld laterHeld
  cases held.symm.trans sameHeld
  have same : later.uncompiled = set.uncompiled := Except.ok.inj (laterBuilt.symm.trans built)
  refine ⟨later, laterHeld, same, fun slot program compiled => ?_⟩
  obtain ⟨event, member, compiles⟩ := (before.compiled_iff held).1 compiled
  rw [← ProgramSet.request_congr same slot] at compiles
  exact (behind.compiled_iff laterHeld).2 ⟨event, List.mem_append_left _ member, compiles⟩

/-- Every program that has been handed out is kept. -/
theorem gained (accounted : Accounted queue variants calls (run.recorded events))
    {event : BackendEvent σ} {request : CompileRequest} {program : Program}
    (member : event ∈ events) (compiles : event.Compiles queue request program) :
    ∃ key set slot, run.model.programs.get? key = some set ∧
      (set.shell slot).request = request ∧ (set.shell slot).compiled = some program := by
  obtain ⟨⟨key, slot⟩, shell, onShelf, rfl⟩ :=
    accounted.logged.requested event member request compiles.1
  obtain ⟨set, held, rfl⟩ := Option.map_eq_some_iff.1 onShelf
  exact ⟨key, set, slot, held, rfl, (accounted.compiled_iff held).2 ⟨event, member, compiles⟩⟩

/-- A call that is made again supplies no new name. -/
theorem suppliedNames_again :
    suppliedNames queue.context variants (calls ++ [call] ++ [call]) =
      suppliedNames queue.context variants (calls ++ [call]) :=
  suppliedNames_concat_of_known fun _ supplied =>
    mem_suppliedNames_iff.2 ⟨call, List.mem_append_right _ List.mem_cons_self, supplied⟩

/-- A call that is made again builds no set. -/
theorem rebuilds (behind : Accounted queue variants (calls ++ [call]) (after.recorded events))
    (twice : Accounted queue variants (calls ++ [call] ++ [call]) (repeated.recorded more)) :
    repeated.model.programBuilds = after.model.programBuilds := by
  have counted : repeated.model.programBuilds =
      (suppliedNames queue.context variants (calls ++ [call] ++ [call])).card :=
    twice.tallied.counted
  rw [counted, suppliedNames_again]
  exact behind.tallied.counted.symm

/-- A call that is made again asks only for what has not been compiled. -/
theorem missing (behind : Accounted queue variants (calls ++ [call]) (after.recorded events))
    (twice : Accounted queue variants (calls ++ [call] ++ [call])
      (repeated.recorded (events ++ again)))
    {event : BackendEvent σ} (member : event ∈ again) {request : CompileRequest}
    (asks : event.call = .compile request) :
    ∃ key set slot, after.model.programs.get? key = some set ∧
      (set.shell slot).request = request ∧ (set.shell slot).compiled = none := by
  obtain ⟨⟨key, slot⟩, shell, onShelf, rfl⟩ :=
    twice.logged.requested event (List.mem_append_right _ member) request asks
  obtain ⟨later, held, rfl⟩ := Option.map_eq_some_iff.1 onShelf
  have laterHeld : repeated.model.programs.get? key = some later := held
  obtain ⟨_, home, known, -⟩ := twice.builder_of_held laterHeld
  -- The name is not new, so its set has been there before the repetition.
  have listed : key.2 ∈ suppliedNames queue.context variants (calls ++ [call]) := by
    rw [← suppliedNames_again]
    refine not_not.1 fun unlisted => ?_
    cases (builder?_eq_none_iff.2 unlisted).symm.trans known
  obtain ⟨builder, earlier⟩ := Option.ne_none_iff_exists'.1
    (mt builder?_eq_none_iff.1 (not_not.2 listed))
  obtain ⟨set, held, -⟩ := behind.set_of_builder earlier
  rw [← home] at held
  obtain ⟨other, otherHeld, same, -⟩ := behind.kept twice held
  cases laterHeld.symm.trans otherHeld
  have sameRequest := ProgramSet.request_congr same slot
  refine ⟨key, set, slot, held, sameRequest.symm, ?_⟩
  cases compiled : (set.shell slot).compiled with
  | none => rfl
  | some program =>
      obtain ⟨early, earlyMember, compiles⟩ := (behind.compiled_iff held).1 compiled
      rw [← sameRequest] at compiles
      have apart := (List.pairwise_append.1 twice.logged.once).2.2 early earlyMember event member
      exact absurd asks (apart _ _ compiles)

/-- The programs for a call that has them are stored behind it. -/
theorem stored {key : ProgramKey} {obtained : ModelRun σ}
    (stocked : Stocked queue variants (calls.map Call.batch) run)
    (behind : Accounted queue variants (calls ++ [call]) (after.recorded events))
    (checked : run.model.checkContext call.batch = .ok ())
    (obtains : Model.obtainPrograms call.batch call.force run = (.ok key, obtained)) :
    ∃ name set, call.batch.programName = .ok name ∧
      after.model.programs.get? (queue.context, name) = some set := by
  obtain ⟨name, _, _, _, _, named, -, supplied, -⟩ := stocked.obtained checked obtains
  have concat : calls.map Call.batch ++ [call.batch] = (calls ++ [call]).map Call.batch := by
    rw [List.map_append]
    rfl
  rw [concat, supplier?_eq_builder?_map] at supplied
  obtain ⟨builder, known, -⟩ := Option.map_eq_some_iff.1 supplied
  obtain ⟨set, held, -⟩ := behind.set_of_builder known
  exact ⟨name, set, named, held⟩

end Accounted

/-! ### What a call adds to the artifacts -/

variable {queue : CommandQueue Platform} {variants : List Variant} {before : Compiler}

/-- However asking for a program ends, the compiler has what it had. -/
theorem Replied.grows {quiet : Prop} {home : ContextId} {request : CompileRequest}
    {compiler after : Compiler} {reply : Except BackendError Program}
    (replied : Replied quiet compiler (Compiler.compile home request compiler) reply after) :
    compiler.GrowsTo after := by
  cases replied with
  | answered same =>
      have grows := Compiler.compile_grows home request compiler
      rwa [same] at grows
  | refused _ unchanged =>
      rw [unchanged]
      exact .refl compiler

/-- A platform with a log whose compiler has all that `before` had, and an artifact of
everything that has been compiled by the log. -/
structure Retains (queue : CommandQueue Platform) (before : Compiler)
    (state : Recorded (Disturbed Platform)) : Prop where
  steady : ∃ pace, Steady queue False pace state.backend
  grows : before.GrowsTo (state.backend.backend.compiler queue.context)
  artifacts : ∀ event ∈ state.log, ∀ request program,
    event.Compiles queue.disturbed request program →
      (state.backend.backend.compiler queue.context).artifacts.get? request.key ≠ none

namespace Retains

variable {state : Recorded (Disturbed Platform)} {after : Disturbed Platform}
  {event : BackendEvent (Disturbed Platform)}

/-- A backend call that leaves artifacts where there were some, and one where it has
compiled something. -/
theorem concat (retains : Retains queue before state)
    (steady : ∃ pace, Steady queue False pace after)
    (grows : (state.backend.backend.compiler queue.context).GrowsTo
      (after.backend.compiler queue.context))
    (artifact : ∀ request program, event.Compiles queue.disturbed request program →
      (after.backend.compiler queue.context).artifacts.get? request.key ≠ none) :
    Retains queue before ⟨after, state.log ++ [event]⟩ where
  steady := steady
  grows := retains.grows.trans grows
  artifacts := by
    refine List.forall_mem_append.2 ⟨?_, List.forall_mem_singleton.2 artifact⟩
    intro earlier member request program compiles
    exact grows.artifacts _ (retains.artifacts earlier member request program compiles)

/-- A backend call that leaves the compilers alone. -/
theorem concat_silent (retains : Retains queue before state)
    (steady : ∃ pace, Steady queue False pace after)
    (compilers : after.backend.compilers = state.backend.backend.compilers)
    (silent : ∀ request, event.call ≠ .compile request) :
    Retains queue before ⟨after, state.log ++ [event]⟩ := by
  have same : after.backend.compiler queue.context =
      state.backend.backend.compiler queue.context :=
    congrArg (fun held => (held.get? queue.context).getD {}) compilers
  refine retains.concat steady ?_ fun request _ compiles => absurd compiles.1 (silent request)
  rw [same]
  exact .refl _

theorem rule (onPlatform : queue.OnPlatform) (batch : Batch) :
    BackendRule queue.disturbed.recorded variants batch (Retains queue before) where
  compile := by
    intro request state retains
    obtain ⟨pace, steady⟩ := retains.steady
    rcases outcome : queue.disturbed.compile request state.backend with ⟨reply, after⟩
    obtain ⟨replied, stillSteady, -⟩ := steady.compile onPlatform outcome
    have noted : queue.disturbed.recorded.compile request state =
        (reply, ⟨after, state.log ++ [⟨.compile request, state.backend⟩]⟩) :=
      Recorded.note_of_outcome outcome
    rw [noted]
    refine retains.concat ⟨pace, stillSteady⟩ replied.grows ?_
    rintro _ program ⟨⟨⟩, answer⟩
    have handed : reply = .ok program := (congrArg Prod.fst outcome).symm.trans answer
    subst handed
    have same := replied.eq_of_ok
    have artifact := (Compiler.artifact_of_answered (congrArg Prod.fst same)).1
    rw [congrArg Prod.snd same] at artifact
    exact Option.ne_none_iff_exists'.2 ⟨program, artifact⟩
  submit := by
    intro launch state _ retains
    obtain ⟨pace, steady⟩ := retains.steady
    obtain ⟨stillSteady, compilers, -⟩ :=
      steady.submit onPlatform (Prod.eta (queue.disturbed.submit launch state.backend)).symm
    exact retains.concat_silent ⟨pace, stillSteady⟩ compilers fun _ => nofun
  finish := by
    intro state retains
    obtain ⟨pace, steady⟩ := retains.steady
    obtain ⟨stillSteady, compilers, -⟩ := steady.finish onPlatform rfl
    exact retains.concat_silent ⟨pace, stillSteady⟩ compilers fun _ => nofun

end Retains

/-- A call keeps the artifacts of the compiler and leaves one of everything that it has
compiled. -/
theorem Call.retains (call : Call) {run : ModelRun (Disturbed Platform)}
    (onPlatform : queue.OnPlatform) (installed : Installed queue variants run) :
    Retains queue (queue.compilerOn run.bench)
      ⟨(call.perform run).bench.backend, call.events run⟩ := by
  have start : Backed queue.disturbed.recorded variants (Retains queue (queue.compilerOn run.bench))
      (run.recorded []) :=
    ⟨congrArg CommandQueue.recorded installed.onQueue, installed.ofVariants, installed.holds,
      .refl _, nofun⟩
  have performed := (start.perform (Retains.rule onPlatform call.batch)).holds
  rw [call.perform_recorded] at performed
  exact performed

/-! ### Stopping with the backend -/

/-- A call that fails leaves the setup of the model alone. -/
theorem Call.setup_of_failed {σ : Type} {call : Call} {run : ModelRun σ} {cause : Error}
    (failed : (call.outcome run).failure? = some cause) :
    (call.perform run).model.setup = run.model.setup := by
  rcases call.setup_perform run with ⟨-, same⟩ | ⟨report, reported, -⟩
  · exact same
  · cases outcome : call.outcome run with
    | executed result =>
        rw [outcome] at reported
        cases reported
    | tuned result =>
        rw [outcome] at reported failed
        cases result with
        | ok report => cases failed
        | error cause => cases reported

/-- How a call stops when backend calls of it fail: `last` is the first of them, and fails
with `cause` behind those of `passed`. -/
structure StopsCleanly (queue : CommandQueue Platform) (call : Call)
    (run : ModelRun (Disturbed Platform)) (passed : List (BackendEvent (Disturbed Platform)))
    (last : BackendEvent (Disturbed Platform)) (cause : BackendError) : Prop where
  /-- No backend call is made behind the first one that fails. -/
  events : call.events run = passed ++ [last]
  unfailed : ∀ event ∈ passed, event.failure? queue.disturbed = none
  failed : last.failure? queue.disturbed = some cause
  outcome : (call.outcome run).failure? = some (.backend cause)
  overrides : (call.perform run).model.overrides = run.model.overrides
  /-- Undisturbed, the call would have begun in the same way. -/
  calls : (call.events run).map BackendEvent.call <+:
    (call.events run.calm).map BackendEvent.call
  submitted : passed.filterMap (fun event => event.call.launch?) <+: call.submissions run.calm
  /-- What was stored stays stored, with all that has been compiled of it. -/
  kept : ∀ key set, run.model.programs.get? key = some set →
    ∃ later, (call.perform run).model.programs.get? key = some later ∧
      later.uncompiled = set.uncompiled ∧
      ∀ slot program, (set.shell slot).compiled = some program →
        (later.shell slot).compiled = some program
  /-- The set of the call is stored. -/
  stored : ∃ name set, call.batch.programName = .ok name ∧
    (call.perform run).model.programs.get? (queue.context, name) = some set
  artifacts : (queue.compilerOn run.bench).GrowsTo (queue.compilerOn (call.perform run).bench)
  /-- What was compiled before the failure is kept, by the model and by the compiler. -/
  gained : ∀ event ∈ passed, ∀ request program,
    event.Compiles queue.disturbed request program →
      (∃ key set slot, (call.perform run).model.programs.get? key = some set ∧
        (set.shell slot).request = request ∧ (set.shell slot).compiled = some program) ∧
      (queue.compilerOn (call.perform run).bench).artifacts.get? request.key ≠ none
  /-- Repeated undisturbed, the call builds no set. -/
  rebuilt : (call.perform (call.perform run).calm).model.programBuilds =
    (call.perform run).model.programBuilds
  /-- Repeated undisturbed, the call asks only for what has not been compiled. -/
  missing : ∀ event ∈ call.events (call.perform run).calm, ∀ request,
    event.call = .compile request →
      ∃ key set slot, (call.perform run).model.programs.get? key = some set ∧
        (set.shell slot).request = request ∧ (set.shell slot).compiled = none
  /-- Repeated undisturbed, the call comes to what it would have come to undisturbed. -/
  repeated : call.outcome (call.perform run).calm = call.outcome run.calm

/-- After any history of calls, on a platform of which any call may fail, a call that meets a
failure stops with it, keeps what was done before, and can be repeated. -/
theorem backend_failure_stops_call {platform : Platform} {id : QueueId}
    {predictor : Option CostPredictor} {model : Model (Disturbed Platform)} {plan : Plan}
    {profile : Profile} {calls : List Call} {run : ModelRun (Disturbed Platform)} {call : Call}
    {event : BackendEvent (Disturbed Platform)}
    (known : platform.compilers.get? (platform.commandQueue id).context ≠ none)
    (registered : platform.queues.get? id ≠ none)
    (created : Model.create variants predictor (platform.commandQueue id).disturbed = .ok model)
    (reached : Reaches Disturbed.Drift ⟨model, ⟨⟨platform, plan⟩, profile⟩⟩ calls run)
    (member : event ∈ call.events run)
    (failed : event.failure? (platform.commandQueue id).disturbed ≠ none) :
    ∃ passed last cause, StopsCleanly (platform.commandQueue id) call run passed last cause := by
  have onPlatform := platform.commandQueue_onPlatform id
  have initial : Stocked (platform.commandQueue id).disturbed variants []
      ⟨model, ⟨⟨platform, plan⟩, profile⟩⟩ := .initial created
  have stocked := initial.of_reaches reached
  have installed : Installed (platform.commandQueue id) variants run :=
    .of_reaches onPlatform ⟨initial.onQueue, initial.ofVariants, _, .of_known known registered⟩
      reached
  obtain ⟨checked, key, obtained, obtains⟩ := Call.obtained_of_event member
  obtain ⟨passed, last, cause, events, unfailed, lastFailed, outcome, begun⟩ :=
    call.stops installed.onQueue member failed
  obtain ⟨earlier, traced⟩ := reached.traced
  have performed := traced.call call
  have calmed : Traced Disturbed.Drift _ _ _ (call.perform run).calm := performed.drift .refl
  have before := (Accounted.initial created).of_traced traced
  have behind := (Accounted.initial created).of_traced performed
  have twice := (Accounted.initial created).of_traced (calmed.call call)
  have retains := call.retains onPlatform installed
  have listed {event : BackendEvent (Disturbed Platform)} (early : event ∈ passed) :
      event ∈ call.events run := by
    rw [events]
    exact List.mem_append_left _ early
  refine ⟨passed, last, cause, events, unfailed, lastFailed, outcome,
    (Model.of_setup (Call.setup_of_failed outcome)).2.2.2, begun, ?submitted,
    fun key set held => before.kept behind held, behind.stored stocked checked obtains,
    retains.grows, ?gained, behind.rebuilds twice,
    fun event member request asks => behind.missing twice member asks, ?repeated⟩
  case submitted =>
    rw [events] at begun
    have passedBegun := ((List.prefix_append passed [last]).map BackendEvent.call).trans begun
    have launched := passedBegun.filterMap BackendCall.launch?
    rw [List.filterMap_map, List.filterMap_map] at launched
    exact launched
  case gained =>
    intro event early request program compiles
    exact ⟨behind.gained (List.mem_append_right _ (listed early)) compiles,
      retains.artifacts event (listed early) request program compiles⟩
  case repeated =>
    refine call.repeats onPlatform rfl installed stocked (initial.of_reaches performed.reaches)
      checked obtains ?_
    rw [outcome]
    exact Option.some_ne_none _

/-! ### An inner product whose compilation fails -/

/-- The model that folds, on a platform of which the next call is going to fail. -/
def ModelRun.failing : ModelRun (Disturbed Platform) where
  model := .single .folding (Platform.single.commandQueue ⟨1⟩).disturbed
  bench := ⟨⟨.single, [some (.execution "out of order")]⟩, {}⟩

/-- The compilation of an inner product fails, and the execution stops with it. -/
theorem dot_stops_cleanly :
    ∃ event ∈ (Call.execute (.dot .f32) false false).events .failing,
      event.failure? (Platform.single.commandQueue ⟨1⟩).disturbed =
          some (.execution "out of order") ∧
        ∃ passed last cause, StopsCleanly (Platform.single.commandQueue ⟨1⟩)
          (.execute (.dot .f32) false false) .failing passed last cause := by
  have home : (Platform.single.commandQueue ⟨1⟩).disturbed.context = ⟨1⟩ := rfl
  have created : Model.create [.folding] none (Platform.single.commandQueue ⟨1⟩).disturbed =
      .ok ModelRun.failing.model := rfl
  obtain ⟨request, member⟩ := dot_asks home ModelRun.failing.bench false
  have failed : BackendEvent.failure? (Platform.single.commandQueue ⟨1⟩).disturbed
      ⟨.compile request, ModelRun.failing.bench.backend⟩ = some (.execution "out of order") := rfl
  refine ⟨_, member, failed, ?_⟩
  exact backend_failure_stops_call (Option.some_ne_none _) (Option.some_ne_none _) created .start
    member (by rw [failed]; exact Option.some_ne_none _)

end KernelTuner
