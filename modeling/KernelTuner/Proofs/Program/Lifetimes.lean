import Mathlib.Data.List.TakeWhile
import KernelTuner.Proofs.Program.Compiled
import KernelTuner.Proofs.Program.Sources

/-!
Contract: a program shell from when it is made.

Owns: the calls on one shell, with any steps of the platform between them; what they leave
in its source and in its compiled program; and `program_of_used`, by which a shell serves
the entries of the source that it had when it was first compiled, and asks the compiler
again after every failure. A fragment that is added later is not served.
-/

set_option autoImplicit false

namespace KernelTuner

/-! ### Calls -/

/-- A call on a shell; one for its program comes with the answer. -/
inductive ShellCall where
  | add (fragment : String)
  | program (answer : Except Error Program)

namespace ShellCall

/-- Whether the call was answered with a program. -/
def succeeds : ShellCall → Bool
  | program (.ok _) => true
  | _ => false

/-- What the call adds to the source. -/
def fragment : ShellCall → String
  | add fragment => fragment
  | program _ => ""

/-- The source that the calls make of a preamble. -/
def sourceOf (preamble : String) (calls : List ShellCall) : String :=
  calls.foldl (fun source call => source ++ call.fragment) preamble

/-- The calls before the first that was answered with a program. -/
def beforeFirst (calls : List ShellCall) : List ShellCall := calls.takeWhile (!·.succeeds)

/-- The calls from the first on that was answered with a program. -/
def fromFirst (calls : List ShellCall) : List ShellCall := calls.dropWhile (!·.succeeds)

theorem sourceOf_append (preamble : String) (calls : List ShellCall) (call : ShellCall) :
    sourceOf preamble (calls ++ [call]) = sourceOf preamble calls ++ call.fragment :=
  List.foldl_concat _ _ _ _

theorem sourceOf_of_blank (source : String) {calls : List ShellCall}
    (blank : ∀ call ∈ calls, call.fragment = "") : sourceOf source calls = source := by
  induction calls with
  | nil => rfl
  | cons call rest inductionHypothesis =>
      have unchanged : source ++ call.fragment = source := by
        rw [blank call List.mem_cons_self, String.append_empty]
      show sourceOf (source ++ call.fragment) rest = source
      rw [unchanged]
      exact inductionHypothesis fun later member => blank later (List.mem_cons_of_mem call member)

/-- Without fragments since the first answer the source is still the one at that time. -/
theorem sourceOf_beforeFirst (preamble : String) {calls : List ShellCall}
    (blank : ∀ call ∈ fromFirst calls, call.fragment = "") :
    sourceOf preamble (beforeFirst calls) = sourceOf preamble calls := by
  have split : calls = beforeFirst calls ++ fromFirst calls :=
    List.takeWhile_append_dropWhile.symm
  have joined : sourceOf preamble calls =
      sourceOf (sourceOf preamble (beforeFirst calls)) (fromFirst calls) := by
    conv_lhs => rw [split]
    exact List.foldl_append
  rw [joined, sourceOf_of_blank _ blank]

variable {calls : List ShellCall}

theorem beforeFirst_of_none (unanswered : calls.any succeeds = false) :
    beforeFirst calls = calls := by
  refine List.takeWhile_eq_self_iff.2 fun call member => ?_
  rw [Bool.eq_false_of_not_eq_true (List.any_eq_false.1 unanswered call member)]
  rfl

/-- Only calls up to the first answer count. -/
theorem beforeFirst_append {call : ShellCall}
    (answered : calls.any succeeds = true ∨ call.succeeds = true) :
    beforeFirst (calls ++ [call]) = beforeFirst calls := by
  induction calls with
  | nil =>
      have told : call.succeeds = true := answered.resolve_left Bool.false_ne_true
      rw [List.nil_append, beforeFirst, List.takeWhile_cons, told]
      rfl
  | cons first rest inductionHypothesis =>
      rw [List.any_cons] at answered
      unfold beforeFirst at inductionHypothesis ⊢
      rw [List.cons_append, List.takeWhile_cons, List.takeWhile_cons]
      cases told : first.succeeds with
      | true => rfl
      | false =>
          rw [told, Bool.false_or] at answered
          simp only [inductionHypothesis answered]

end ShellCall

open ShellCall

namespace Shell

theorem add_compiled (shell : Shell) (fragment : String) :
    (shell.add fragment).compiled = shell.compiled := by
  unfold add
  split <;> rfl

/-- The shell is what the calls since it was made leave. -/
structure Reflects (preamble : String) (calls : List ShellCall) (shell : Shell) : Prop where
  source : shell.source = sourceOf preamble calls
  answered : shell.isCompiled = calls.any succeeds
  kernels : ∀ program, shell.compiled = some program →
    program.kernels = Source.entries (sourceOf preamble (beforeFirst calls))

variable {preamble : String} {calls : List ShellCall} {shell after : Shell}
  {bench : Bench Platform} {queue : CommandQueue Platform}

/-- A call that compiles nothing adds its fragment. -/
theorem Reflects.unbuilt (reflects : shell.Reflects preamble calls) {call : ShellCall}
    (source : after.source = shell.source ++ call.fragment)
    (compiled : after.compiled = shell.compiled)
    (told : call.succeeds = true → shell.isCompiled = true) :
    after.Reflects preamble (calls ++ [call]) where
  source := by rw [source, reflects.source, sourceOf_append]
  answered := by
    have same : after.isCompiled = shell.isCompiled := by rw [isCompiled, isCompiled, compiled]
    rw [same, List.any_append, ← reflects.answered]
    cases held : shell.isCompiled with
    | true => rfl
    | false =>
        rw [held] at told
        simpa using told
  kernels := by
    intro program served
    rw [compiled] at served
    have answered : calls.any succeeds = true := by
      rw [← reflects.answered, isCompiled, served]
      rfl
    rw [beforeFirst_append (.inl answered)]
    exact reflects.kernels program served

/-- The first answer is a program of the source at that time. -/
theorem Reflects.built (reflects : shell.Reflects preamble calls)
    (fresh : shell.compiled = none) {program : Program}
    (entries : program.kernels = Source.entries shell.source) :
    ({ shell with compiled := some program } : Shell).Reflects preamble
      (calls ++ [.program (.ok program)]) where
  source := by
    rw [sourceOf_append, reflects.source]
    exact String.append_empty.symm
  answered := by
    rw [List.any_append]
    exact (Bool.or_true _).symm
  kernels := by
    intro served same
    cases same
    have unanswered : calls.any succeeds = false := by
      rw [← reflects.answered, isCompiled, fresh]
      rfl
    rw [beforeFirst_append (.inr rfl), beforeFirst_of_none unanswered, ← reflects.source]
    exact entries

theorem Reflects.add (reflects : shell.Reflects preamble calls) (fragment : String) :
    (shell.add fragment).Reflects preamble (calls ++ [.add fragment]) :=
  reflects.unbuilt (add_source shell fragment) (add_compiled shell fragment) nofun

theorem Reflects.answer (reflects : shell.Reflects preamble calls) {answer : Except Error Program}
    (told : (ShellCall.program answer).succeeds = true → shell.isCompiled = true) :
    shell.Reflects preamble (calls ++ [.program answer]) :=
  reflects.unbuilt String.append_empty.symm rfl told

/-- A shell that was made with a preamble and got the calls since, on a platform that
takes any steps between them. -/
inductive Used (preamble : String) : List ShellCall → Shell × Bench Platform → Prop where
  | made (context : ContextId) (name : String) (force : Bool) {bench : Bench Platform}
      (reachable : bench.backend.Reachable) :
      Used preamble [] ({ context, name, force, source := preamble }, bench)
  | add {calls : List ShellCall} {shell : Shell} {bench : Bench Platform}
      (used : Used preamble calls (shell, bench)) (fragment : String) :
      Used preamble (calls ++ [.add fragment]) (shell.add fragment, bench)
  | program {calls : List ShellCall} {state : Shell × Bench Platform}
      (used : Used preamble calls state) {queue : CommandQueue Platform}
      (onPlatform : queue.OnPlatform) :
      Used preamble (calls ++ [.program (Shell.program queue state).1])
        (Shell.program queue state).2
  | step {calls : List ShellCall} {shell : Shell} {bench after : Bench Platform}
      (used : Used preamble calls (shell, bench)) (step : bench.backend.Step after.backend) :
      Used preamble calls (shell, after)

namespace Used

theorem reachable {state : Shell × Bench Platform} (used : Used preamble calls state) :
    state.2.backend.Reachable := by
  induction used with
  | made _ _ _ reachable => exact reachable
  | add _ _ reachable => exact reachable
  | @program calls state used queue onPlatform reachable =>
      obtain ⟨shell, bench⟩ := state
      have compiles := reachable.tail (.compile queue.context shell.request)
      cases held : shell.compiled with
      | some program =>
          rw [Shell.program_of_compiled held]
          exact reachable
      | none =>
          rw [Shell.program_of_uncompiled onPlatform bench held]
          cases (bench.backend.compile queue.context shell.request).1 <;> exact compiles
  | step _ step reachable => exact reachable.tail step

theorem reflects {state : Shell × Bench Platform} (used : Used preamble calls state) :
    state.1.Reflects preamble calls := by
  induction used with
  | made => exact ⟨rfl, rfl, nofun⟩
  | add _ fragment reflects => exact reflects.add fragment
  | @program calls state used queue onPlatform reflects =>
      obtain ⟨shell, bench⟩ := state
      cases held : shell.compiled with
      | some program =>
          rw [Shell.program_of_compiled held]
          exact reflects.answer fun _ => by rw [isCompiled, held]; rfl
      | none =>
          have honest : (bench.backend.compiler queue.context).Honest :=
            Platform.reachable_honest used.reachable
          rw [Shell.program_of_uncompiled onPlatform bench held]
          cases compiled : (bench.backend.compile queue.context shell.request).1 with
          | error cause => exact reflects.answer nofun
          | ok program => exact reflects.built held (Compiler.compile_entries honest compiled)
  | step _ _ reflects => exact reflects

end Used

/-- A shell that is not compiled asks the compiler. -/
theorem program_of_not_isCompiled (onPlatform : queue.OnPlatform) (bench : Bench Platform)
    (fresh : shell.isCompiled = false) :
    (Shell.program queue (shell, bench)).1 =
        (bench.backend.compile queue.context shell.request).1.mapError .backend ∧
      (Shell.program queue (shell, bench)).2.2.backend =
        (bench.backend.compile queue.context shell.request).2 := by
  have uncompiled : shell.compiled = none := by simpa [isCompiled] using fresh
  rw [program_of_uncompiled onPlatform bench uncompiled]
  cases (bench.backend.compile queue.context shell.request).1 <;> exact ⟨rfl, rfl⟩

/-- A call for the program serves and keeps one, or fails and leaves the shell as it was. -/
theorem program_cases (onPlatform : queue.OnPlatform) (shell : Shell) (bench : Bench Platform) :
    (∃ program, (Shell.program queue (shell, bench)).1 = .ok program ∧
        (Shell.program queue (shell, bench)).2.1 = { shell with compiled := some program }) ∨
      (∃ cause, (Shell.program queue (shell, bench)).1 = .error cause ∧
        (Shell.program queue (shell, bench)).2.1 = shell ∧ shell.isCompiled = false) := by
  cases held : shell.compiled with
  | some program =>
      rw [program_of_compiled held]
      exact .inl ⟨program, rfl, by rw [← held]⟩
  | none =>
      rw [program_of_uncompiled onPlatform bench held]
      cases (bench.backend.compile queue.context shell.request).1 with
      | ok program => exact .inl ⟨program, rfl, rfl⟩
      | error cause => exact .inr ⟨.backend cause, rfl, rfl, by rw [isCompiled, held]; rfl⟩

/-- A shell serves the source that it had when it was first compiled. A failure leaves it
uncompiled, and an uncompiled shell asks the compiler for its source as it is then. -/
theorem program_of_used (used : Used preamble calls (shell, bench))
    (onPlatform : queue.OnPlatform) :
    shell.isCompiled = calls.any succeeds ∧
      (∀ program reached, Shell.program queue (shell, bench) = (.ok program, reached) →
        program.kernels = Source.entries (sourceOf preamble (beforeFirst calls)) ∧
          ((∀ call ∈ fromFirst calls, call.fragment = "") →
            program.kernels = Source.entries shell.source)) ∧
      (∀ cause reached, Shell.program queue (shell, bench) = (.error cause, reached) →
        reached.1 = shell ∧ shell.isCompiled = false) ∧
      (shell.isCompiled = false →
        (Shell.program queue (shell, bench)).1 =
            (bench.backend.compile queue.context shell.request).1.mapError .backend ∧
          (Shell.program queue (shell, bench)).2.2.backend =
            (bench.backend.compile queue.context shell.request).2) := by
  have cases := program_cases onPlatform shell bench
  have later := (used.program onPlatform).reflects
  refine ⟨used.reflects.answered, ?served, ?failed, program_of_not_isCompiled onPlatform bench⟩
  case served =>
    intro program reached outcome
    rw [outcome] at cases later
    obtain ⟨_, same, kept⟩ | ⟨_, failed, _⟩ := cases
    · cases same
      have kernels := later.kernels program (by rw [kept])
      rw [beforeFirst_append (.inr rfl)] at kernels
      refine ⟨kernels, fun blank => ?_⟩
      rw [kernels, sourceOf_beforeFirst preamble blank, used.reflects.source]
    · cases failed
  case failed =>
    intro cause reached outcome
    rw [outcome] at cases
    obtain ⟨_, served, _⟩ | ⟨_, _, unchanged, fresh⟩ := cases
    · cases served
    · exact ⟨unchanged, fresh⟩

end Shell

/-! ### A fragment that comes too late -/

/-- A shell with one kernel. -/
def Shell.early : Shell :=
  ({ context := ⟨1⟩, name := "p", force := false, source := "" } : Shell).add "__kernel void k0()"

theorem Shell.early_used :
    Shell.Used "" [.add "__kernel void k0()"] (.early, { backend := .single }) :=
  (Used.made ⟨1⟩ "p" false Platform.single_reachable).add "__kernel void k0()"

/-- A shell that nothing was added to since serves all its entries. -/
theorem Shell.program_of_early :
    ∃ program reached, Shell.program (Platform.single.commandQueue ⟨1⟩)
        (.early, { backend := .single }) = (.ok program, reached) ∧
      program.kernels = Source.entries Shell.early.source ∧ program.kernels = ["k0"] := by
  obtain ⟨-, served, -, -⟩ :=
    Shell.program_of_used Shell.early_used (Platform.commandQueue_onPlatform .single ⟨1⟩)
  obtain ⟨program, reached, outcome⟩ : ∃ program reached,
      Shell.program (Platform.single.commandQueue ⟨1⟩) (.early, { backend := .single }) =
        (.ok program, reached) := ⟨_, _, rfl⟩
  obtain ⟨-, current⟩ := served program reached outcome
  have kernels : program.kernels = Source.entries Shell.early.source := current (by decide)
  refine ⟨program, reached, outcome, kernels, ?_⟩
  rw [kernels]
  decide

/-- A shell need not serve all entries that are in its source. -/
theorem Shell.late_not_served :
    ¬ ∀ (preamble : String) (calls : List ShellCall) (shell : Shell) (bench : Bench Platform)
      (queue : CommandQueue Platform) (program : Program) (reached : Shell × Bench Platform),
      Shell.Used preamble calls (shell, bench) → queue.OnPlatform →
        Shell.program queue (shell, bench) = (.ok program, reached) →
          ∀ entry ∈ Source.entries shell.source, program.hasKernel entry = true := by
  intro serves
  have onPlatform := Platform.commandQueue_onPlatform .single ⟨1⟩
  have used := (Shell.early_used.program onPlatform).add "__kernel void k1()"
  have late := serves _ _ _ _ _ _ _ used onPlatform rfl "k1" (by decide)
  exact absurd late (by decide)

end KernelTuner
