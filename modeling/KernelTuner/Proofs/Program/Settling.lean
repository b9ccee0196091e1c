import KernelTuner.Proofs.Backend.Disturbance
import KernelTuner.Proofs.Program.Answers
import KernelTuner.Proofs.Program.Prepared

/-!
Contract: programs on a platform whose calls may fail.

Owns: platforms on which a queue works at a steady pace, and what each call on them does;
how asking for a program ends, which is with the answer of the compiler or, as planned, with
nothing done; and `compileAll_ends`, by which a set settles to the same however far its
compilation has come.
-/

set_option autoImplicit false

namespace KernelTuner

open KernelTuner.Action (Ends)

/-! ### Platforms whose calls may fail -/

/-- What of a queue decides how long launches take. -/
def QueueState.pace (state : QueueState) : QueueState :=
  { state with pending := [], history := [], finishes := 0 }

/-- A platform on which the queue works at `pace`. No failures are planned if it is
`quiet`. -/
structure Steady (queue : CommandQueue Platform) (quiet : Prop) (pace : QueueState)
    (state : Disturbed Platform) : Prop where
  known : state.backend.compilers.get? queue.context ≠ none
  registered : state.backend.queues.get? queue.id ≠ none
  paced : (state.backend.queue queue.id).pace = pace
  undisturbed : quiet → state.plan = []

/-- How asking for something may end whose answer is `answer`: with the answer, or, unless
the backend is `quiet`, with a failure that leaves the compiler alone. -/
inductive Replied {α : Type} (quiet : Prop) (compiler : Compiler)
    (answer : Except BackendError α × Compiler) (reply : Except BackendError α)
    (after : Compiler) : Prop where
  | answered (same : answer = (reply, after))
  | refused (failed : ∃ cause, reply = .error cause) (unchanged : after = compiler)
      (disturbed : ¬ quiet)

theorem Replied.eq_of_ok {α : Type} {quiet : Prop} {compiler after : Compiler}
    {answer : Except BackendError α × Compiler} {value : α}
    (replied : Replied quiet compiler answer (.ok value) after) : answer = (.ok value, after) := by
  cases replied with
  | answered same => exact same
  | refused failed => exact absurd failed nofun

variable {queue : CommandQueue Platform} {quiet : Prop} {pace : QueueState}

namespace Steady

variable {state after : Disturbed Platform}

theorem undisturbed_tail (steady : Steady queue quiet pace state) (calm : quiet) :
    state.plan.tail = [] := by
  rw [steady.undisturbed calm, List.tail_nil]

/-- A compilation leaves the queues alone. -/
theorem compile (onPlatform : queue.OnPlatform) (steady : Steady queue quiet pace state)
    {request : CompileRequest} {reply : Except BackendError Program}
    (outcome : queue.disturbed.compile request state = (reply, after)) :
    Replied quiet (state.backend.compiler queue.context)
        (Compiler.compile queue.context request (state.backend.compiler queue.context)) reply
        (after.backend.compiler queue.context) ∧
      Steady queue quiet pace after ∧ after.backend.queues = state.backend.queues ∧
      after.backend.clock = state.backend.clock := by
  obtain ⟨platform, plan⟩ := state
  have asked : queue.disturbed.compile request ⟨platform, plan⟩ =
      Disturbed.attempt (Platform.compile queue.context request) ⟨platform, plan⟩ := by
    rw [← onPlatform.compile]
    rfl
  rw [asked] at outcome
  rcases Disturbed.attempt_cases (Platform.compile queue.context request) platform plan with
    made | ⟨cause, refused, disturbed⟩
  · rw [made] at outcome
    cases outcome
    refine ⟨?_, ⟨Platform.known_compile steady.known request, steady.registered, steady.paced,
      steady.undisturbed_tail⟩, rfl, rfl⟩
    rw [Platform.compiler_compile steady.known]
    exact .answered rfl
  · rw [refused] at outcome
    cases outcome
    exact ⟨.refused ⟨cause, rfl⟩ rfl fun calm => disturbed (steady.undisturbed calm),
      ⟨steady.known, steady.registered, steady.paced, steady.undisturbed_tail⟩, rfl, rfl⟩

/-- A launch is accepted or refused by the check of it alone, and joins what is pending if
it is accepted. -/
theorem submit (onPlatform : queue.OnPlatform) (steady : Steady queue quiet pace state)
    {launch : Launch} {reply : Except BackendError Unit}
    (outcome : queue.disturbed.submit launch state = (reply, after)) :
    Steady queue quiet pace after ∧ after.backend.compilers = state.backend.compilers ∧
      after.backend.clock = state.backend.clock ∧
      (reply = .ok () → QueueState.checkLaunch launch = .ok () ∧
        (after.backend.queue queue.id).pending =
          (state.backend.queue queue.id).pending ++ [QueueState.recordOf launch]) ∧
      ∀ cause, reply = .error cause → quiet → QueueState.checkLaunch launch = .error cause := by
  obtain ⟨platform, plan⟩ := state
  have submits : queue.disturbed.submit launch ⟨platform, plan⟩ =
      Disturbed.attempt (Platform.submit queue.id launch) ⟨platform, plan⟩ := by
    rw [← onPlatform.submit]
    rfl
  have checked : (platform.submit queue.id launch).1 = QueueState.checkLaunch launch := by
    show ((platform.queue queue.id).submit launch).1 = _
    unfold QueueState.submit
    cases QueueState.checkLaunch launch <;> rfl
  have samePace (held : QueueState) : (held.submit launch).2.pace = held.pace := by
    unfold QueueState.submit
    cases QueueState.checkLaunch launch <;> rfl
  rw [submits] at outcome
  rcases Disturbed.attempt_cases (Platform.submit queue.id launch) platform plan with
    made | ⟨cause, refused, disturbed⟩
  · rw [made] at outcome
    cases outcome
    have registered := Platform.Step.registered (.submit queue.id launch) steady.registered
    have changed : ((platform.submit queue.id launch).2.queue queue.id) =
        ((platform.queue queue.id).submit launch).2 :=
      Platform.queue_modifyQueue (fun _ => ((platform.queue queue.id).submit launch).2)
        steady.registered
    refine ⟨⟨steady.known, registered, ?_, steady.undisturbed_tail⟩, rfl, rfl, ?_, ?_⟩
    · rw [changed, samePace]
      exact steady.paced
    · intro accepted
      rw [Platform.queue_submit_of_accepted steady.registered accepted]
      exact ⟨checked.symm.trans accepted, rfl⟩
    · intro cause failed _
      exact checked.symm.trans failed
  · rw [refused] at outcome
    cases outcome
    refine ⟨⟨steady.known, steady.registered, steady.paced, steady.undisturbed_tail⟩, rfl, rfl,
      nofun, ?_⟩
    exact fun _ _ calm => absurd (steady.undisturbed calm) disturbed

/-- Finishing takes the time of what is pending, after which nothing is, and fails only as
planned. -/
theorem finish (onPlatform : queue.OnPlatform) (steady : Steady queue quiet pace state)
    {reply : Except BackendError Unit} (outcome : queue.disturbed.finish state = (reply, after)) :
    Steady queue quiet pace after ∧ after.backend.compilers = state.backend.compilers ∧
      (reply = .ok () → (after.backend.queue queue.id).pending = [] ∧
        after.backend.clock =
          state.backend.clock + (state.backend.queue queue.id).pendingTime) ∧
      ∀ cause, reply = .error cause → ¬ quiet := by
  obtain ⟨platform, plan⟩ := state
  have finishes : queue.disturbed.finish ⟨platform, plan⟩ =
      Disturbed.attempt (Platform.finish queue.id) ⟨platform, plan⟩ := by
    rw [← onPlatform.finish]
    rfl
  rw [finishes] at outcome
  rcases Disturbed.attempt_cases (Platform.finish queue.id) platform plan with
    made | ⟨cause, refused, disturbed⟩
  · rw [made] at outcome
    cases outcome
    have registered := Platform.Step.registered (.finish queue.id) steady.registered
    have emptied := Platform.queue_finish steady.registered
    refine ⟨⟨steady.known, registered, ?_, steady.undisturbed_tail⟩, rfl, ?_, nofun⟩
    · rw [emptied]
      exact steady.paced
    · intro _
      rw [emptied]
      exact ⟨rfl, rfl⟩
  · rw [refused] at outcome
    cases outcome
    refine ⟨⟨steady.known, steady.registered, steady.paced, steady.undisturbed_tail⟩, rfl, nofun, ?_⟩
    exact fun _ _ calm => absurd (steady.undisturbed calm) disturbed

end Steady

/-! ### Asking for programs -/

/-- A bench on the way of a step: still at its pace, with its queues and its clock as they
were. -/
structure Bench.Onward (queue : CommandQueue Platform) (quiet : Prop) (pace : QueueState)
    (before after : Bench (Disturbed Platform)) : Prop where
  steady : Steady queue quiet pace after.backend
  queues : after.backend.backend.queues = before.backend.backend.queues
  clock : after.backend.backend.clock = before.backend.backend.clock

/-- The compiler that the queue asks on the platform of a bench. -/
def CommandQueue.compilerOn (queue : CommandQueue Platform) (bench : Bench (Disturbed Platform)) :
    Compiler :=
  bench.backend.backend.compiler queue.context

/-- The launches that are pending on the queue. -/
def CommandQueue.pendingOn (queue : CommandQueue Platform) (bench : Bench (Disturbed Platform)) :
    List LaunchRecord :=
  (bench.backend.backend.queue queue.id).pending

theorem Bench.Onward.pendingOn {before after : Bench (Disturbed Platform)}
    (onward : before.Onward queue quiet pace after) :
    queue.pendingOn after = queue.pendingOn before := by
  unfold CommandQueue.pendingOn Platform.queue
  rw [onward.queues]

theorem Bench.Onward.trans {before between after : Bench (Disturbed Platform)}
    (first : before.Onward queue quiet pace between)
    (second : between.Onward queue quiet pace after) : before.Onward queue quiet pace after :=
  ⟨second.steady, second.queues.trans first.queues, second.clock.trans first.clock⟩

variable {bench : Bench (Disturbed Platform)}

/-- Asking for the program of a shell ends with its answer, and the program is kept; or it
fails and the shell stays as it is. -/
theorem Shell.program_ends (onPlatform : queue.OnPlatform)
    (steady : Steady queue quiet pace bench.backend) (shell : Shell) :
    Ends (shell, bench) (Shell.program queue.disturbed)
      (fun program reached =>
        shell.answer queue.context (queue.compilerOn bench) =
            (.ok program, queue.compilerOn reached.2) ∧
          reached.1 = { shell with compiled := some program } ∧
          bench.Onward queue quiet pace reached.2)
      (fun cause reached =>
        (∃ refusal, cause = .backend refusal ∧ Replied quiet (queue.compilerOn bench)
          (shell.answer queue.context (queue.compilerOn bench)) (.error refusal)
          (queue.compilerOn reached.2)) ∧
        reached.1 = shell ∧ bench.Onward queue quiet pace reached.2) := by
  cases held : shell.compiled with
  | some program =>
      have same : { shell with compiled := some program } = shell := by rw [← held]
      have outcome : Shell.program queue.disturbed (shell, bench) = (.ok program, shell, bench) := by
        simp only [Shell.program, held]
      exact .of_ok outcome ⟨answer_of_compiled held, same.symm, steady, rfl, rfl⟩
  | none =>
      rcases asked : queue.disturbed.compile shell.request bench.backend with ⟨reply, after⟩
      obtain ⟨replied, stillSteady, queues, clock⟩ := steady.compile onPlatform asked
      rw [answer_of_uncompiled held]
      cases reply with
      | ok program =>
          have outcome : Shell.program queue.disturbed (shell, bench) = (.ok program,
              { shell with compiled := some program },
              { bench with backend := after }.record .programCompile) := by
            simp only [Shell.program, held, asked]
          exact .of_ok outcome ⟨replied.eq_of_ok, rfl, stillSteady, queues, clock⟩
      | error refusal =>
          have outcome : Shell.program queue.disturbed (shell, bench) = (.error (.backend refusal),
              shell, { bench with backend := after }.record .programCompile) := by
            simp only [Shell.program, held, asked]
          exact .of_error outcome ⟨⟨refusal, rfl, replied⟩, rfl, stillSteady, queues, clock⟩

namespace ProgramSet

variable {set : ProgramSet}

theorem program_ends (onPlatform : queue.OnPlatform)
    (steady : Steady queue quiet pace bench.backend) (slot : Slot) :
    Ends (set, bench) (program queue.disturbed slot)
      (fun program reached =>
        (set.shell slot).answer queue.context (queue.compilerOn bench) =
            (.ok program, queue.compilerOn reached.2) ∧
          reached.1 = set.putShell slot { set.shell slot with compiled := some program } ∧
          bench.Onward queue quiet pace reached.2)
      (fun cause reached =>
        (∃ refusal, cause = .backend refusal ∧ Replied quiet (queue.compilerOn bench)
          ((set.shell slot).answer queue.context (queue.compilerOn bench)) (.error refusal)
          (queue.compilerOn reached.2)) ∧
        reached.1 = set ∧ bench.Onward queue quiet pace reached.2) := by
  rcases (Shell.program_ends onPlatform steady (set.shell slot)).cases with
    ⟨handed, ⟨shell, reached⟩, outcome, answered, rfl, onward⟩ |
    ⟨cause, ⟨shell, reached⟩, outcome, replied, rfl, onward⟩
  · have asked : program queue.disturbed slot (set, bench) = (.ok handed,
        set.putShell slot { set.shell slot with compiled := some handed }, reached) := by
      simp only [program, Action.on, outcome]
    exact .of_ok asked ⟨answered, rfl, onward⟩
  · have asked : program queue.disturbed slot (set, bench) = (.error cause, set, reached) := by
      simp only [program, Action.on, outcome, putShell_shell]
    exact .of_error asked ⟨replied, rfl, onward⟩

/-- Compiling a slot settles it, or fails and leaves the set as it is. -/
theorem compileSlot_ends (onPlatform : queue.OnPlatform)
    (steady : Steady queue quiet pace bench.backend) (slot : Slot) :
    Ends (set, bench) (compileSlot queue.disturbed slot)
      (fun _ reached =>
        settleSlot queue.context slot (set, queue.compilerOn bench) =
            .ok (reached.1, queue.compilerOn reached.2) ∧
          reached.1.Done slot ∧ (∀ other, other ≠ slot → reached.1.shell other = set.shell other) ∧
          bench.Onward queue quiet pace reached.2)
      (fun cause reached =>
        settleSlot queue.context slot (set, queue.compilerOn reached.2) =
            settleSlot queue.context slot (set, queue.compilerOn bench) ∧
          (quiet → ∃ refusal, cause = .backend refusal ∧
            settleSlot queue.context slot (set, queue.compilerOn bench) = .error refusal) ∧
          reached.1 = set ∧ bench.Onward queue quiet pace reached.2) := by
  cases filled : (set.shell slot).isEmpty with
  | true =>
      have done : set.Done slot := fun used => absurd (filled.symm.trans used) nofun
      refine .of_ok (compileSlot_of_empty queue.disturbed filled) ?_
      exact ⟨settleSlot_of_done done, done, fun _ _ => rfl, steady, rfl, rfl⟩
  | false =>
      rcases (program_ends onPlatform steady slot).cases with
        ⟨program, ⟨reachedSet, reached⟩, outcome, answered, rfl, onward⟩ |
        ⟨_, ⟨reachedSet, reached⟩, outcome, ⟨refusal, rfl, replied⟩, rfl, onward⟩
      · have compiles : compileSlot queue.disturbed slot (set, bench) = (.ok (),
            set.putShell slot { set.shell slot with compiled := some program }, reached) :=
          (compileSlot_of_filled queue.disturbed filled).trans (Action.bind_ok outcome)
        refine .of_ok compiles ⟨settleSlot_of_answered filled answered, ?_, ?_, onward⟩
        · intro _
          exact ⟨program, by rw [shell_putShell, if_pos rfl]⟩
        · intro other apart
          rw [shell_putShell, if_neg apart.symm]
      · have compiles : compileSlot queue.disturbed slot (set, bench) =
            (.error (.backend refusal), set, reached) :=
          (compileSlot_of_filled queue.disturbed filled).trans (Action.bind_error outcome)
        refine .of_error compiles ?_
        cases replied with
        | answered same =>
            have refused := congrArg Prod.fst same
            have asked : queue.compilerOn reached = (queue.compilerOn bench).asked :=
              (congrArg Prod.snd same).symm.trans (Shell.answer_of_error refused)
            obtain ⟨fails, failsAgain⟩ := settleSlot_of_refused filled refused
            exact ⟨by rw [asked, failsAgain, fails], fun _ => ⟨refusal, rfl, fails⟩, rfl, onward⟩
        | refused _ unchanged disturbed =>
            exact ⟨by rw [unchanged], fun calm => absurd calm disturbed, rfl, onward⟩

/-- Compiling a set comes to what the set settles to, and leaves nothing to do. When it
fails, what the set settles to is still the same. -/
theorem compileAll_ends (onPlatform : queue.OnPlatform)
    (steady : Steady queue quiet pace bench.backend) :
    Ends (set, bench) (compileAll queue.disturbed)
      (fun _ reached =>
        settle queue.context (set, queue.compilerOn bench) =
            .ok (reached.1, queue.compilerOn reached.2) ∧
          reached.1.Prepared ∧ bench.Onward queue quiet pace reached.2)
      (fun cause reached =>
        settle queue.context (reached.1, queue.compilerOn reached.2) =
            settle queue.context (set, queue.compilerOn bench) ∧
          (quiet → ∃ refusal, cause = .backend refusal ∧
            settle queue.context (set, queue.compilerOn bench) = .error refusal) ∧
          bench.Onward queue quiet pace reached.2) := by
  refine .bind ((compileSlot_ends onPlatform steady .primary).imp (fun _ _ ended => ended) ?_) ?_
  · rintro cause ⟨_, reached⟩ ⟨again, failed, rfl, onward⟩
    refine ⟨?_, fun calm => ?_, onward⟩
    · unfold settle
      rw [again]
    · obtain ⟨refusal, rfl, fails⟩ := failed calm
      refine ⟨refusal, rfl, ?_⟩
      unfold settle
      rw [fails]
      rfl
  rintro _ ⟨between, middle⟩ ⟨settled, done, _, first⟩
  have rest : settle queue.context (set, queue.compilerOn bench) =
      settleSlot queue.context .fallback (between, queue.compilerOn middle) := by
    unfold settle
    rw [settled]
    rfl
  refine (compileSlot_ends onPlatform first.steady .fallback).imp ?_ ?_
  · rintro _ ⟨reached, after⟩ ⟨fallbackSettled, fallbackDone, kept, second⟩
    refine ⟨rest.trans fallbackSettled, ?_, first.trans second⟩
    intro slot
    cases slot with
    | primary =>
        show reached.Done .primary
        unfold Done
        rw [kept .primary nofun]
        exact done
    | fallback => exact fallbackDone
  · rintro cause ⟨_, after⟩ ⟨again, failed, rfl, second⟩
    refine ⟨?_, fun calm => rest ▸ failed calm, first.trans second⟩
    rw [rest, ← again]
    unfold settle
    rw [settleSlot_of_done done]
    rfl

end ProgramSet

end KernelTuner
