import KernelTuner.Proofs.Backend.Platform
import KernelTuner.Proofs.Table
import Mathlib.Data.List.Induction

/-!
Contract: a compiler over whole runs.

Owns: runs of requests and rejected markers on one compiler; what such a run has built,
read off the answers alone; and `answers_follow_history`, by which the answer to the
next request is the one that the history calls for.

Does not own: artifacts that differ in their texts but not in a digest. Artifacts are
kept under the text itself.
-/

set_option autoImplicit false

namespace KernelTuner

/-- What an artifact is kept under. -/
def CompileRequest.key (request : CompileRequest) : ContextId × String :=
  (request.context, request.source)

namespace Compiler

/-! ### One request -/

variable {owner : ContextId} {request : CompileRequest} {compiler : Compiler}

/-- The program that is built for a request. -/
def product (owner : ContextId) (request : CompileRequest) (compiler : Compiler) : Program where
  id := ⟨owner, compiler.compilations + 1⟩
  name := request.name
  kernels := Source.entries request.source

/-- The compiler that has built a program for a request. -/
def stored (owner : ContextId) (request : CompileRequest) (compiler : Compiler) : Compiler :=
  { compiler.asked with
    artifacts := compiler.artifacts.insert request.key (product owner request compiler)
    compilations := compiler.compilations + 1 }

/-- An artifact serves a request that does not force a build. -/
def Serves (compiler : Compiler) (request : CompileRequest) (program : Program) : Prop :=
  request.force = false ∧ compiler.artifacts.get? request.key = some program

theorem cached?_eq_some_iff {program : Program} :
    compiler.cached? request = some program ↔ compiler.Serves request program := by
  unfold cached? Serves
  cases request.force with
  | true => simp
  | false => simp [CompileRequest.key]

theorem cached?_eq_none_iff :
    compiler.cached? request = none ↔
      request.force = true ∨ compiler.artifacts.get? request.key = none := by
  unfold cached?
  cases request.force with
  | true => simp
  | false => simp [CompileRequest.key]

/-- All that a request can lead to. -/
theorem compile_cases (owner : ContextId) (request : CompileRequest) (compiler : Compiler) :
    (∃ program, compiler.Serves request program ∧
        compile owner request compiler = (.ok program, compiler.asked)) ∨
      compiler.cached? request = none ∧
        ((∃ rejection, Source.rejection? compiler.rejected request.source = some rejection ∧
            compile owner request compiler =
              (.error (.compilation request.name rejection.log), compiler.asked)) ∨
          Source.rejection? compiler.rejected request.source = none ∧
            compile owner request compiler =
              (.ok (product owner request compiler), stored owner request compiler)) := by
  rw [compile_eq]
  cases cached : compiler.cached? request with
  | some program => exact .inl ⟨program, cached?_eq_some_iff.1 cached, rfl⟩
  | none =>
      refine .inr ⟨rfl, ?_⟩
      have sameMarkers : compiler.asked.rejected = compiler.rejected := rfl
      simp only [build, sameMarkers]
      cases rejected : Source.rejection? compiler.rejected request.source with
      | some rejection => exact .inl ⟨rejection, rfl, rfl⟩
      | none => exact .inr ⟨rfl, rfl⟩

/-- A program that a request builds. -/
structure Builds (owner : ContextId) (request : CompileRequest) (compiler : Compiler)
    (program : Program) : Prop where
  due : compiler.cached? request = none
  made : program = product owner request compiler
  counted : (compile owner request compiler).2.compilations = compiler.compilations + 1

/-- A compiler that has all builds of an earlier one counted, and artifacts at least where
that one had some. -/
structure GrowsTo (before after : Compiler) : Prop where
  builds : before.compilations ≤ after.compilations
  artifacts : ∀ key, before.artifacts.get? key ≠ none → after.artifacts.get? key ≠ none

theorem GrowsTo.refl (compiler : Compiler) : compiler.GrowsTo compiler :=
  ⟨Nat.le_refl _, fun _ held => held⟩

theorem GrowsTo.trans {before between after : Compiler} (first : before.GrowsTo between)
    (second : between.GrowsTo after) : before.GrowsTo after :=
  ⟨Nat.le_trans first.builds second.builds,
    fun key held => second.artifacts key (first.artifacts key held)⟩

theorem compile_grows (owner : ContextId) (request : CompileRequest) (compiler : Compiler) :
    compiler.GrowsTo (compile owner request compiler).2 := by
  rcases compile_cases owner request compiler with
    ⟨program, -, answered⟩ | ⟨-, ⟨rejection, -, answered⟩ | ⟨-, answered⟩⟩
  · rw [answered]
    exact ⟨Nat.le_refl _, fun _ held => held⟩
  · rw [answered]
    exact ⟨Nat.le_refl _, fun _ held => held⟩
  · rw [answered]
    refine ⟨Nat.le_succ _, fun key held => ?_⟩
    rw [stored, Table.get?_insert]
    split
    · exact Option.some_ne_none _
    · exact held

/-- An artifact that was not there before has been built for the request. -/
theorem artifact_of_compile {key : ContextId × String} {program : Program}
    (held : (compile owner request compiler).2.artifacts.get? key = some program) :
    compiler.artifacts.get? key = some program ∨
      key = request.key ∧ Builds owner request compiler program := by
  rcases compile_cases owner request compiler with
    ⟨served, -, answered⟩ | ⟨missing, ⟨rejection, -, answered⟩ | ⟨-, answered⟩⟩
  · rw [answered] at held
    exact .inl held
  · rw [answered] at held
    exact .inl held
  · have counted : (compile owner request compiler).2.compilations =
        compiler.compilations + 1 := by
      rw [answered]
      rfl
    rw [answered, stored, Table.get?_insert] at held
    split at held
    · next same =>
        cases held
        exact .inr ⟨same.symm, missing, rfl, counted⟩
    · exact .inl held

/-- A program that is handed out is kept under the request, and is an artifact or built. -/
theorem artifact_of_answered {program : Program}
    (answer : (compile owner request compiler).1 = .ok program) :
    (compile owner request compiler).2.artifacts.get? request.key = some program ∧
      (compiler.Serves request program ∨ Builds owner request compiler program) := by
  rcases compile_cases owner request compiler with
    ⟨served, serves, answered⟩ | ⟨missing, ⟨rejection, -, answered⟩ | ⟨-, answered⟩⟩
  · rw [answered] at answer ⊢
    cases answer
    exact ⟨serves.2, .inl serves⟩
  · rw [answered] at answer
    cases answer
  · have counted : (compile owner request compiler).2.compilations =
        compiler.compilations + 1 := by
      rw [answered]
      rfl
    rw [answered] at answer
    cases answer
    refine ⟨?_, .inr ⟨missing, rfl, counted⟩⟩
    rw [answered, stored, Table.get?_insert, if_pos rfl]

/-! ### Runs -/

/-- What a compiler is told. -/
inductive Command where
  | reject (marker : String)
  | compile (request : CompileRequest)

namespace Command

def marker? : Command → Option String
  | reject marker => some marker
  | compile _ => none

def request? : Command → Option CompileRequest
  | reject _ => none
  | compile request => some request

end Command

/-- A request with its answer. -/
structure Served where
  request : CompileRequest
  answer : Except BackendError Program

/-- What requests have built, latest first. A request that succeeds has built its
program, unless it was not forced and something was built for the same context and
source before it. -/
def builds : List Served → List ((ContextId × String) × Program)
  | [] => []
  | ⟨_, .error _⟩ :: earlier => builds earlier
  | ⟨request, .ok program⟩ :: earlier =>
      if request.force = true ∨ request.key ∉ (builds earlier).map Prod.fst then
        (request.key, program) :: builds earlier
      else builds earlier

/-- The latest build for a context and a source. -/
def lastBuilt? (served : List Served) (key : ContextId × String) : Option Program :=
  Table.find? key (builds served)

/-- A compiler that was new once, and the requests that it has answered, latest first. -/
structure Run where
  compiler : Compiler := {}
  served : List Served := []

namespace Run

def step (owner : ContextId) (run : Run) : Command → Run
  | .reject marker => { run with compiler := run.compiler.reject marker }
  | .compile request =>
      let (answer, compiler) := compile owner request run.compiler
      ⟨compiler, ⟨request, answer⟩ :: run.served⟩

end Run

/-- The run of commands on a new compiler of the context `owner`. -/
def run (owner : ContextId) (commands : List Command) : Run :=
  commands.foldl (Run.step owner) {}

theorem run_concat (owner : ContextId) (commands : List Command) (command : Command) :
    run owner (commands ++ [command]) = (run owner commands).step owner command :=
  List.foldl_concat ..

/-- What a compiler holds after `commands`, told by what it was asked and has
answered. -/
structure Tracks (commands : List Command) (run : Run) : Prop where
  artifacts : ∀ key, run.compiler.artifacts.get? key = lastBuilt? run.served key
  rejected : run.compiler.rejected = commands.filterMap Command.marker?
  requests : run.compiler.requests = (commands.filterMap Command.request?).length
  compilations : run.compiler.compilations = (builds run.served).length
  honest : run.compiler.Honest

namespace Tracks

variable {commands : List Command} {run : Run}

theorem initial : Tracks [] {} := ⟨fun _ => rfl, rfl, rfl, rfl, honest_empty⟩

/-- A request that no artifact serves is one that is forced or the first to succeed. -/
theorem cached?_eq_none_iff (tracks : Tracks commands run) (request : CompileRequest) :
    run.compiler.cached? request = none ↔
      request.force = true ∨ request.key ∉ (builds run.served).map Prod.fst := by
  rw [Compiler.cached?_eq_none_iff, tracks.artifacts, lastBuilt?, ← Table.isSome_find?_iff,
    Option.not_isSome_iff_eq_none]

theorem reject (tracks : Tracks commands run) (marker : String) :
    Tracks (commands ++ [.reject marker]) (run.step owner (.reject marker)) where
  artifacts := tracks.artifacts
  rejected := by
    rw [List.filterMap_append, ← tracks.rejected]
    rfl
  requests := by
    rw [List.filterMap_append, List.length_append, ← tracks.requests]
    rfl
  compilations := tracks.compilations
  honest := tracks.honest

theorem compile (tracks : Tracks commands run) (request : CompileRequest) :
    Tracks (commands ++ [.compile request]) (run.step owner (.compile request)) := by
  have markers : (commands ++ [Command.compile request]).filterMap Command.marker? =
      run.compiler.rejected := by
    rw [List.filterMap_append, ← tracks.rejected]
    exact List.append_nil _
  have requests : ((commands ++ [Command.compile request]).filterMap Command.request?).length =
      run.compiler.requests + 1 := by
    rw [List.filterMap_append, List.length_append, ← tracks.requests]
    rfl
  have honest : (Compiler.compile owner request run.compiler).2.Honest :=
    compile_honest tracks.honest
  have uncached := tracks.cached?_eq_none_iff request
  rcases compile_cases owner request run.compiler with
    ⟨program, serves, answered⟩ | ⟨missing, ⟨rejection, -, answered⟩ | ⟨-, answered⟩⟩
  case inl =>
    have known : ¬ (request.force = true ∨ request.key ∉ (builds run.served).map Prod.fst) := by
      rw [← uncached, cached?_eq_some_iff.2 serves]
      exact Option.some_ne_none program
    have unbuilt : builds (⟨request, .ok program⟩ :: run.served) = builds run.served := if_neg known
    simp only [Run.step, answered] at honest ⊢
    refine ⟨?_, markers.symm, requests.symm, ?_, honest⟩
    · intro key
      rw [lastBuilt?, unbuilt]
      exact tracks.artifacts key
    · rw [unbuilt]
      exact tracks.compilations
  case inr.inl =>
    simp only [Run.step, answered] at honest ⊢
    exact ⟨tracks.artifacts, markers.symm, requests.symm, tracks.compilations, honest⟩
  case inr.inr =>
    have grown : builds (⟨request, .ok (product owner request run.compiler)⟩ :: run.served) =
        (request.key, product owner request run.compiler) :: builds run.served :=
      if_pos (uncached.1 missing)
    simp only [Run.step, answered] at honest ⊢
    refine ⟨?_, markers.symm, requests.symm, ?_, honest⟩
    · intro key
      rw [lastBuilt?, grown, Table.find?]
      exact (Table.get?_insert ..).trans (by rw [tracks.artifacts key, lastBuilt?])
    · rw [grown, List.length_cons, ← tracks.compilations]
      rfl

end Tracks

/-- One command at a time, a run keeps track of its history. -/
theorem run_tracks (owner : ContextId) (commands : List Command) :
    Tracks commands (run owner commands) := by
  induction commands using List.reverseRecOn with
  | nil => exact .initial
  | append_singleton commands command inductionHypothesis =>
      rw [run_concat]
      cases command with
      | reject marker => exact inductionHypothesis.reject marker
      | compile request => exact inductionHypothesis.compile request

/-! ### The next request -/

/-- What the history of a run asks of the answer to a request. -/
structure Answers (owner : ContextId) (commands : List Command) (history : Run)
    (request : CompileRequest) (answered : Except BackendError Program × Compiler) : Prop where
  /-- A program exports the entries of the source that was asked for. -/
  exports : ∀ program, answered.1 = .ok program →
    program.kernels = Source.entries request.source
  /-- What was built last is handed out again, and nothing is compiled. Markers do not
  matter. -/
  reused : ∀ program, request.force = false →
    lastBuilt? history.served request.key = some program →
      answered = (.ok program, history.compiler.asked)
  /-- Otherwise the text decides. -/
  compiled : request.force = true ∨ request.key ∉ (builds history.served).map Prod.fst →
    ((∃ program, answered.1 = .ok program) ↔
      (∀ marker ∈ commands.filterMap Command.marker?,
          ¬ marker.toList <:+: request.source.toList) ∧
        Source.Matched request.source)
  /-- A refusal leaves nothing but the count of the request. -/
  refused : ∀ cause, answered.1 = .error cause → answered.2 = history.compiler.asked
  requests : history.compiler.requests = (commands.filterMap Command.request?).length
  compilations : history.compiler.compilations = (builds history.served).length

/-- After any run, a compiler answers the next request as its history asks for. -/
theorem answers_follow_history (owner : ContextId) (commands : List Command)
    (request : CompileRequest) :
    Answers owner commands (run owner commands) request
      (compile owner request (run owner commands).compiler) := by
  have tracks := run_tracks owner commands
  refine ⟨?exports, ?reused, ?compiled, ?refused, tracks.requests, tracks.compilations⟩
  case exports =>
    intro program answered
    exact compile_entries tracks.honest answered
  case reused =>
    intro program unforced lastBuilt
    have serves : (run owner commands).compiler.Serves request program :=
      ⟨unforced, (tracks.artifacts request.key).trans lastBuilt⟩
    rw [compile_eq, cached?_eq_some_iff.2 serves]
  case compiled =>
    intro due
    have missing := (tracks.cached?_eq_none_iff request).2 due
    rw [← tracks.rejected, ← Source.rejection?_eq_none_iff]
    rcases compile_cases owner request (run owner commands).compiler with
      ⟨program, serves, -⟩ | ⟨-, ⟨rejection, rejected, answered⟩ | ⟨accepted, answered⟩⟩
    · rw [cached?_eq_some_iff.2 serves] at missing
      cases missing
    · rw [answered, rejected]
      exact iff_of_false nofun nofun
    · rw [answered]
      exact iff_of_true ⟨_, rfl⟩ accepted
  case refused =>
    intro cause failed
    rcases compile_cases owner request (run owner commands).compiler with
      ⟨program, -, answered⟩ | ⟨-, ⟨rejection, -, answered⟩ | ⟨-, answered⟩⟩
    · rw [answered] at failed
      cases failed
    · rw [answered]
    · rw [answered] at failed
      cases failed

end Compiler

end KernelTuner
