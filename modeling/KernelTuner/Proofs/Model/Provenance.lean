import KernelTuner.Proofs.Backend.CompilerHistory
import KernelTuner.Proofs.Model.Steps
import KernelTuner.Proofs.Program.Slots

/-!
Contract: where programs come from in the course of one execution.

Owns: origins, which relate a program to its source and to the slot and the name that it
was built for; and `InCourse.execute`, by which every program that the compiler or the
model of an execution holds at its end was of known origin before, or has been built in
its course for the batch of the execution.

Does not own: executions one after another.
-/

set_option autoImplicit false

namespace KernelTuner

open KernelTuner.Action (Keeps Ends)

/-! ### The compiler of a context -/

/-- The compiler of `home` on the platform of a run. -/
def ModelRun.compiler (home : ContextId) (run : ModelRun Platform) : Compiler :=
  run.bench.backend.compiler home

/-! ### Origins -/

/-- Where programs come from: the source of a program, and the slot and the name that it
was built for. -/
abbrev Origin := String → Slot → Fingerprint → Program → Prop

/-- Every artifact of the context `home` has an origin. -/
def Compiler.OfOrigin (home : ContextId) (origin : Origin) (compiler : Compiler) : Prop :=
  ∀ source program, compiler.artifacts.get? (home, source) = some program →
    ∃ slot name, origin source slot name program

/-- The sets of a model are made for their keys, and their programs have an origin. What
has been compiled has left an artifact, and what was to be built anew has been built for
its own name. -/
structure Model.OfOrigin (home : ContextId) (compiler : Compiler) (origin : Origin)
    (model : Model Platform) : Prop where
  assembled : ∀ key set, model.programs.get? key = some set →
    key.1 = home ∧ set.AssembledFor model.variants key
  kept : ∀ key set slot program, model.programs.get? key = some set →
    (set.shell slot).compiled = some program →
      compiler.artifacts.get? (home, (set.shell slot).source) ≠ none
  compiled : ∀ key set slot program, model.programs.get? key = some set →
    (set.shell slot).compiled = some program →
      ∃ builtSlot name, origin (set.shell slot).source builtSlot name program ∧
        ((set.shell slot).force = true → name = key.2)

variable {home : ContextId} {compiler later : Compiler} {origin : Origin}

theorem Compiler.OfOrigin.mono {other : Origin} (known : compiler.OfOrigin home origin)
    (weaker : ∀ source slot name program, origin source slot name program →
      other source slot name program) : compiler.OfOrigin home other := by
  intro source program held
  obtain ⟨slot, name, found⟩ := known source program held
  exact ⟨slot, name, weaker _ _ _ _ found⟩

theorem Model.OfOrigin.mono {other : Origin} {model : Model Platform}
    (known : model.OfOrigin home compiler origin) (grows : compiler.GrowsTo later)
    (weaker : ∀ source slot name program, origin source slot name program →
      other source slot name program) : model.OfOrigin home later other := by
  refine ⟨known.assembled, ?_, ?_⟩
  · intro key set slot program held compiled
    exact grows.artifacts _ (known.kept key set slot program held compiled)
  · intro key set slot program held compiled
    obtain ⟨builtSlot, name, found, own⟩ := known.compiled key set slot program held compiled
    exact ⟨builtSlot, name, weaker _ _ _ _ found, own⟩

/-! ### In the course of an execution -/

/-- A program that has been built between `before` and `run` and has left an artifact. It
is of the set that the model has stored under `own`, and was built only because the set
passes artifacts over or there was none. -/
structure BuiltFor (home : ContextId) (own : Fingerprint) (before : Compiler)
    (run : ModelRun Platform) (source : String) (slot : Slot) (program : Program) : Prop where
  named : program.name = own.slotName slot
  begun : before.compilations < program.id.build
  ended : program.id.build ≤ (run.compiler home).compilations
  kept : (run.compiler home).artifacts.get? (home, source) ≠ none
  due : ∃ set, run.model.programs.get? (home, own) = some set ∧
    (set.shell slot).source = source ∧
    ((set.shell slot).force = true ∨ before.artifacts.get? (home, source) = none)

/-- The origin of programs in the course of an execution: it was known before, or the
program has been built since. -/
def sinceBefore (home : ContextId) (own : Fingerprint) (before : Compiler) (origin : Origin)
    (run : ModelRun Platform) : Origin := fun source slot name program =>
  origin source slot name program ∨ name = own ∧ BuiltFor home own before run source slot program

/-- A run in the course of an execution for a batch of the name `own`. -/
structure InCourse (home : ContextId) (own : Fingerprint) (before : Compiler) (origin : Origin)
    (run : ModelRun Platform) : Prop where
  known : run.bench.backend.compilers.get? home ≠ none
  grows : before.GrowsTo (run.compiler home)
  artifacts : (run.compiler home).OfOrigin home (sinceBefore home own before origin run)
  model : run.model.OfOrigin home (run.compiler home) (sinceBefore home own before origin run)

variable {own : Fingerprint} {before : Compiler} {run after : ModelRun Platform}

theorem sinceBefore_mono {source : String} {slot : Slot} {name : Fingerprint} {program : Program}
    (grows : (run.compiler home).GrowsTo (after.compiler home))
    (stored : ∀ set, run.model.programs.get? (home, own) = some set →
      ∃ later, after.model.programs.get? (home, own) = some later ∧
        later.uncompiled = set.uncompiled)
    (known : sinceBefore home own before origin run source slot name program) :
    sinceBefore home own before origin after source slot name program := by
  refine known.imp_right ?_
  rintro ⟨rfl, built⟩
  obtain ⟨set, held, sourced, due⟩ := built.due
  obtain ⟨later, laterHeld, same⟩ := stored set held
  have requests := ProgramSet.request_congr same slot
  have sameSource : (later.shell slot).source = (set.shell slot).source :=
    congrArg CompileRequest.source requests
  have sameForce : (later.shell slot).force = (set.shell slot).force :=
    congrArg CompileRequest.force requests
  refine ⟨rfl, built.named, built.begun, Nat.le_trans built.ended grows.builds,
    grows.artifacts _ built.kept, later, laterHeld, sameSource.trans sourced, ?_⟩
  rwa [sameForce]

/-! ### Requests -/

namespace ProgramSet

variable {set : ProgramSet} {slot other : Slot} {reply : Except BackendError Program}

/-- The set behind a request for the program of a slot that has come to `reply`. -/
def putReply (set : ProgramSet) (slot : Slot) (reply : Except BackendError Program) : ProgramSet :=
  set.putShell slot { set.shell slot with compiled := reply.toOption }

theorem putReply_uncompiled : (set.putReply slot reply).uncompiled = set.uncompiled :=
  putShell_uncompiled rfl

theorem putReply_source :
    ((set.putReply slot reply).shell other).source = (set.shell other).source :=
  congrArg CompileRequest.source (request_congr putReply_uncompiled other)

theorem putReply_force :
    ((set.putReply slot reply).shell other).force = (set.shell other).force :=
  congrArg CompileRequest.force (request_congr putReply_uncompiled other)

theorem putReply_compiled : ((set.putReply slot reply).shell other).compiled =
    if slot = other then reply.toOption else (set.shell other).compiled := by
  rw [putReply, shell_putShell]
  split <;> rfl

/-- Artifacts serve the programs of the set under the context of its key. -/
theorem AssembledFor.requestKey {variants : List Variant} {key : ProgramKey}
    (assembled : set.AssembledFor variants key) (slot : Slot) :
    (set.shell slot).request.key = (key.1, (set.shell slot).source) :=
  congrArg (·, (set.shell slot).source) (assembled.request slot).1

end ProgramSet

/-- The set under `own` has asked the compiler for the program of a slot, and keeps what it
has been handed. -/
structure Asks (home : ContextId) (own : Fingerprint) (set : ProgramSet) (slot : Slot)
    (run after : ModelRun Platform) : Prop where
  held : run.model.programs.get? (home, own) = some set
  known : after.bench.backend.compilers.get? home ≠ none
  compiles : after.compiler home =
    (Compiler.compile home (set.shell slot).request (run.compiler home)).2
  variants : after.model.variants = run.model.variants
  stored : ∀ key, after.model.programs.get? key =
    if (home, own) = key then
      some (set.putReply slot
        (Compiler.compile home (set.shell slot).request (run.compiler home)).1)
    else run.model.programs.get? key

namespace Asks

variable {set : ProgramSet} {slot : Slot}

theorem grows (asks : Asks home own set slot run after) :
    (run.compiler home).GrowsTo (after.compiler home) := by
  rw [asks.compiles]
  exact Compiler.compile_grows home (set.shell slot).request (run.compiler home)

/-- Origins do not get lost. -/
theorem since (asks : Asks home own set slot run after) {source : String} {builtSlot : Slot}
    {name : Fingerprint} {program : Program}
    (known : sinceBefore home own before origin run source builtSlot name program) :
    sinceBefore home own before origin after source builtSlot name program := by
  refine sinceBefore_mono asks.grows (fun old present => ?_) known
  cases asks.held.symm.trans present
  exact ⟨_, (asks.stored _).trans (if_pos rfl), ProgramSet.putReply_uncompiled⟩

/-- What the request has built was due, and is built for the name of the set. -/
theorem built (asks : Asks home own set slot run after)
    (course : InCourse home own before origin run) {program : Program}
    (artifact : (after.compiler home).artifacts.get? (home, (set.shell slot).source) =
      some program)
    (builds : Compiler.Builds home (set.shell slot).request (run.compiler home) program) :
    BuiltFor home own before after (set.shell slot).source slot program := by
  obtain ⟨_, assembled⟩ := course.model.assembled _ set asks.held
  obtain ⟨due, rfl, counted⟩ := builds
  refine ⟨(assembled.request slot).2, Nat.lt_succ_of_le course.grows.builds, ?_, ?_, _,
    (asks.stored _).trans (if_pos rfl), ProgramSet.putReply_source, ?_⟩
  · rw [asks.compiles, counted]
    exact Nat.le_refl _
  · rw [artifact]
    exact Option.some_ne_none _
  · rw [ProgramSet.putReply_force]
    refine (Compiler.cached?_eq_none_iff.1 due).imp_right fun absent => ?_
    rw [assembled.requestKey] at absent
    by_contra present
    exact course.grows.artifacts _ present absent

end Asks

/-! ### Steps -/

namespace InCourse

/-- At the beginning all origins are known. -/
theorem start (known : run.bench.backend.compilers.get? home ≠ none)
    (artifacts : (run.compiler home).OfOrigin home origin)
    (model : run.model.OfOrigin home (run.compiler home) origin) :
    InCourse home own (run.compiler home) origin run where
  known := known
  grows := .refl _
  artifacts := artifacts.mono fun _ _ _ _ => .inl
  model := model.mono (.refl _) fun _ _ _ _ => .inl

/-- The compiler may grow and the set under `own` may change, as long as the origins of
what is new are known. -/
theorem put {set : ProgramSet} (course : InCourse home own before origin run)
    (known : after.bench.backend.compilers.get? home ≠ none)
    (grows : (run.compiler home).GrowsTo (after.compiler home))
    (variants : after.model.variants = run.model.variants)
    (stored : ∀ key, after.model.programs.get? key =
      if (home, own) = key then some set else run.model.programs.get? key)
    (same : ∀ old, run.model.programs.get? (home, own) = some old →
      set.uncompiled = old.uncompiled)
    (assembled : set.AssembledFor run.model.variants (home, own))
    (artifacts : ∀ source program,
      (after.compiler home).artifacts.get? (home, source) = some program →
        (run.compiler home).artifacts.get? (home, source) = some program ∨
          ∃ slot, BuiltFor home own before after source slot program)
    (compiled : ∀ slot program, (set.shell slot).compiled = some program →
      (after.compiler home).artifacts.get? (home, (set.shell slot).source) ≠ none ∧
        ∃ builtSlot name,
          sinceBefore home own before origin after (set.shell slot).source builtSlot name program ∧
            ((set.shell slot).force = true → name = own)) :
    InCourse home own before origin after := by
  have weaker (source : String) (slot : Slot) (name : Fingerprint) (program : Program) :
      sinceBefore home own before origin run source slot name program →
        sinceBefore home own before origin after source slot name program :=
    sinceBefore_mono grows fun old held => ⟨set, (stored _).trans (if_pos rfl), same old held⟩
  have others := course.model.mono grows weaker
  refine ⟨known, course.grows.trans grows, ?_, ?_, ?_, ?_⟩
  · intro source program held
    rcases artifacts source program held with old | ⟨slot, built⟩
    · obtain ⟨slot, name, found⟩ := course.artifacts source program old
      exact ⟨slot, name, weaker _ _ _ _ found⟩
    · exact ⟨slot, own, .inr ⟨rfl, built⟩⟩
  · intro key found held
    rw [stored] at held
    rw [variants]
    split at held
    · next here =>
        cases held
        subst here
        exact ⟨rfl, assembled⟩
    · exact others.assembled key found held
  · intro key found slot program held there
    rw [stored] at held
    split at held
    · cases held
      exact (compiled slot program there).1
    · exact others.kept key found slot program held there
  · intro key found slot program held there
    rw [stored] at held
    split at held
    · next here =>
        cases held
        subst here
        exact (compiled slot program there).2
    · exact others.compiled key found slot program held there

/-- What touches neither the compilers nor the sets of the model. -/
theorem congr (course : InCourse home own before origin run)
    (compilers : after.bench.backend.compilers = run.bench.backend.compilers)
    (variants : after.model.variants = run.model.variants)
    (programs : ∀ key, after.model.programs.get? key = run.model.programs.get? key) :
    InCourse home own before origin after := by
  have sameCompiler : after.compiler home = run.compiler home :=
    congrArg (fun compilers => (compilers.get? home).getD {}) compilers
  have weaker (source : String) (slot : Slot) (name : Fingerprint) (program : Program) :
      sinceBefore home own before origin run source slot name program →
        sinceBefore home own before origin after source slot name program :=
    sinceBefore_mono (by rw [sameCompiler]; exact .refl _)
      fun set held => ⟨set, (programs _).trans held, rfl⟩
  obtain ⟨assembled, kept, compiled⟩ := course.model.mono (.refl _) weaker
  refine ⟨?_, ?_, ?_, ?_⟩
  · rw [compilers]
    exact course.known
  · rw [sameCompiler]
    exact course.grows
  · rw [sameCompiler]
    exact course.artifacts.mono weaker
  · rw [sameCompiler]
    simp only [← programs, ← variants] at assembled kept compiled
    exact ⟨assembled, kept, compiled⟩

theorem obtainPrograms {batch : Batch} (course : InCourse home own before origin run)
    (onHome : run.model.queue.context = home) (named : batch.programName = .ok own)
    (force : Bool) :
    InCourse home own before origin (Model.obtainPrograms batch force run).2 := by
  obtain ⟨result, reached, recorded, obtained, looked⟩ :=
    Model.obtainPrograms_of_named force run named
  rw [obtained]
  subst onHome
  cases looked with
  | held _ unchanged => exact course.congr rfl rfl unchanged
  | failed _ _ unchanged => exact course.congr rfl rfl unchanged
  | built absent succeeded grown =>
      refine course.put course.known (.refl _) rfl grown ?_
        (.of_build succeeded) (fun _ _ held => .inl held) ?_
      · intro old held
        rw [absent] at held
        cases held
      · intro slot program compiled
        obtain ⟨emissions, _, rfl⟩ := ProgramSet.build_eq_ok_iff.1 succeeded
        rw [ProgramSet.assemble_compiled] at compiled
        cases compiled

/-- What is compiled is served from an artifact, or built for the name of the set. -/
theorem compile {set : ProgramSet} {slot : Slot} (course : InCourse home own before origin run)
    (asks : Asks home own set slot run after) : InCourse home own before origin after := by
  obtain ⟨_, assembled⟩ := course.model.assembled _ set asks.held
  have requestKey := assembled.requestKey slot
  refine course.put asks.known asks.grows asks.variants asks.stored ?_
    (assembled.congr ProgramSet.putReply_uncompiled) ?_ ?_
  · intro old present
    cases asks.held.symm.trans present
    exact ProgramSet.putReply_uncompiled
  · intro source program artifact
    have found := artifact
    rw [asks.compiles] at found
    refine (Compiler.artifact_of_compile found).imp_right ?_
    rintro ⟨same, builds⟩
    rw [requestKey] at same
    cases same
    exact ⟨slot, asks.built course artifact builds⟩
  · intro other program there
    rw [ProgramSet.putReply_source, ProgramSet.putReply_force]
    rw [ProgramSet.putReply_compiled] at there
    split at there
    · next here =>
        subst here
        obtain ⟨artifact, answered⟩ :=
          Compiler.artifact_of_answered (toOption_eq_some_iff.1 there)
        rw [requestKey, ← asks.compiles] at artifact
        refine ⟨by rw [artifact]; exact Option.some_ne_none _, ?_⟩
        rcases answered with ⟨unforced, shared⟩ | builds
        · rw [requestKey] at shared
          obtain ⟨builtSlot, name, found⟩ := course.artifacts _ _ shared
          refine ⟨builtSlot, name, asks.since found, fun forced => ?_⟩
          cases forced.symm.trans unforced
        · exact ⟨slot, own, .inr ⟨rfl, asks.built course artifact builds⟩, fun _ => rfl⟩
    · have others := course.model.mono asks.grows fun _ _ _ _ => asks.since
      exact ⟨others.kept _ set other program asks.held there,
        others.compiled _ set other program asks.held there⟩

variable {queue : CommandQueue Platform}

theorem program (onPlatform : queue.OnPlatform) (slot : Slot) :
    Keeps (InCourse queue.context own before origin)
      (Model.onPrograms (queue.context, own) (ProgramSet.program queue slot)) := by
  refine Model.onPrograms_keeps _ fun run set reached course held stored => ?_
  cases there : (set.shell slot).compiled with
  | some program =>
      have unchanged : ProgramSet.program queue slot (set, run.bench) =
          (.ok program, set, run.bench) := by
        simp only [ProgramSet.program, Action.on, Shell.program, there]
        cases slot <;> rfl
      rw [unchanged] at stored ⊢
      refine course.congr rfl rfl fun key => ?_
      rw [stored]
      split
      · next same =>
          rw [← same]
          exact held.symm
      · rfl
  | none =>
      have answer : (ProgramSet.program queue slot (set, run.bench)).2 =
          (set.putShell slot (Shell.program queue (set.shell slot, run.bench)).2.1,
            (Shell.program queue (set.shell slot, run.bench)).2.2) := rfl
      rw [Shell.state_of_uncompiled queue run.bench there, onPlatform.compile] at answer
      rw [answer] at stored ⊢
      exact course.compile ⟨held, Platform.known_compile course.known _,
        Platform.compiler_compile course.known _, rfl, stored⟩

theorem submitAll (onPlatform : queue.OnPlatform) (launches : List Launch) :
    Keeps (InCourse home own before origin) (Model.submitAll queue launches) := by
  induction launches with
  | nil => exact .pure ()
  | cons launch rest inductionHypothesis =>
      refine .bind (fun run course => ?_) fun _ => inductionHypothesis
      refine course.congr ?_ rfl fun _ => rfl
      rw [Model.onBackend, onPlatform.submit]
      rfl

variable {batch : Batch}

theorem enqueue (onPlatform : run.model.queue.OnPlatform)
    (course : InCourse run.model.queue.context own before origin run) (index : Nat) :
    InCourse run.model.queue.context own before origin
      (Model.enqueue (run.model.queue.context, own) index batch run).2 := by
  have kept : Keeps (InCourse run.model.queue.context own before origin) (do
      let variant ← Action.ofExcept (run.model.variantAt index)
      let plan ← Action.ofExcept (variant.plan index batch)
      let program ← Model.onPrograms (run.model.queue.context, own)
        (ProgramSet.program run.model.queue plan.slot)
      Model.submitAll run.model.queue (plan.launches.map (Model.launchOf program index))) :=
    .bind (.ofExcept _) fun variant => .bind (.ofExcept _) fun plan =>
      .bind (program onPlatform plan.slot) fun program => submitAll onPlatform _
  exact kept run course

/-- An execution leaves no program of unknown origin behind. -/
theorem execute (onPlatform : run.model.queue.OnPlatform)
    (onHome : run.model.queue.context = home) (named : batch.programName = .ok own)
    (course : InCourse home own before origin run) (bypassPredictor force : Bool) :
    InCourse home own before origin (Model.execute batch bypassPredictor force run).2 := by
  subst onHome
  have looked := course.obtainPrograms rfl named force
  have ends : Ends run (Model.execute batch bypassPredictor force)
      (fun _ after => InCourse run.model.queue.context own before origin after)
      (fun _ after => InCourse run.model.queue.context own before origin after) := by
    refine Model.ends_execute (fun _ => course) (fun _ obtained obtains => ?_) ?_
    · rwa [obtains] at looked
    intro key obtained obtains
    rw [obtains] at looked
    refine ⟨fun _ => looked, fun selection => .of_behind ?_⟩
    obtain ⟨name, _, alsoNamed, rfl, _⟩ := Model.held_of_obtained obtains
    cases named.symm.trans alsoNamed
    obtain ⟨_, _, sameQueue, _⟩ := Model.of_setup (Model.setup_of_obtained obtains)
    have sameQueue : obtained.model.queue = run.model.queue := sameQueue
    rw [← sameQueue] at onPlatform looked ⊢
    exact looked.enqueue onPlatform selection.variant
  exact ends.behind

end InCourse

end KernelTuner
