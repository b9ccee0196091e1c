import Mathlib.Logic.Relation
import KernelTuner.Backend.Platform
import KernelTuner.Proofs.Backend.Source

/-!
Contract: what the reference platform does for a queue that is in use.

Owns: the steps of a platform, and a platform of one queue; compilers whose artifacts
have the entries of their sources, which all compilers of a reachable platform are; and
the outcome of compiling a balanced source and of submitting a launch that fills its range.
-/

set_option autoImplicit false

namespace KernelTuner

/-! ### Compilers -/

namespace Compiler

/-- Every artifact has the entries of the source that it is kept under. -/
def Honest (compiler : Compiler) : Prop :=
  ∀ key program, compiler.artifacts.get? key = some program →
    program.kernels = Source.entries key.2

theorem honest_empty : ({} : Compiler).Honest := nofun

variable {compiler : Compiler} {owner : ContextId} {request : CompileRequest}

theorem cached?_entries (honest : compiler.Honest) {program : Program}
    (cached : compiler.cached? request = some program) :
    program.kernels = Source.entries request.source := by
  unfold cached? at cached
  split at cached
  · simp at cached
  · exact honest (request.context, request.source) program cached

/-- The compiler that has been asked once more. -/
def asked (compiler : Compiler) : Compiler := { compiler with requests := compiler.requests + 1 }

theorem compile_eq (owner : ContextId) (request : CompileRequest) (compiler : Compiler) :
    compile owner request compiler =
      match compiler.cached? request with
      | some program => (.ok program, compiler.asked)
      | none => build owner request compiler.asked := rfl

theorem compile_rejected :
    (compile owner request compiler).2.rejected = compiler.rejected := by
  rw [compile_eq]
  split
  · rfl
  · unfold build
    split <;> rfl

theorem build_honest (honest : compiler.Honest) : (build owner request compiler).2.Honest := by
  unfold build
  split
  · exact honest
  · intro key program held
    rw [Table.get?_insert] at held
    split at held
    · next same =>
        subst same
        cases held
        rfl
    · exact honest key program held

theorem compile_honest (honest : compiler.Honest) : (compile owner request compiler).2.Honest := by
  have askedHonest : compiler.asked.Honest := honest
  rw [compile_eq]
  split
  · exact askedHonest
  · exact build_honest askedHonest

theorem compile_entries (honest : compiler.Honest) {program : Program}
    (compiled : (compile owner request compiler).1 = .ok program) :
    program.kernels = Source.entries request.source := by
  rw [compile_eq] at compiled
  split at compiled
  · next held cached =>
      cases compiled
      exact cached?_entries honest cached
  · unfold build at compiled
    split at compiled
    · simp at compiled
    · cases compiled
      rfl

/-- A compiler without markers compiles every balanced source. -/
theorem compile_ok (accepting : compiler.rejected = [])
    (balanced : Source.Balanced request.source) :
    ∃ program, (compile owner request compiler).1 = .ok program := by
  have unrejected : Source.rejection? compiler.asked.rejected request.source = none := by
    have none : compiler.asked.rejected = [] := accepting
    rw [none]
    exact Source.rejection?_eq_none balanced
  rw [compile_eq]
  cases cached : compiler.cached? request with
  | some program => exact ⟨program, rfl⟩
  | none =>
      refine ⟨⟨⟨owner, compiler.asked.compilations + 1⟩, request.name,
        Source.entries request.source⟩, ?_⟩
      simp only [build, unrejected]

end Compiler

/-! ### Platforms -/

namespace Platform

/-- One thing that is done with a platform. -/
inductive Step (platform : Platform) : Platform → Prop where
  | addContext (device : Device) : Step platform (platform.addContext device).1
  | addQueue {context : ContextId} (known : platform.compilers.get? context ≠ none)
      (latency : Nat) : Step platform (platform.addQueue context latency).1
  | reject (context : ContextId) (marker : String) :
      Step platform (platform.modifyCompiler context (Compiler.reject · marker))
  | setLatency (id : QueueId) (variant time : Nat) :
      Step platform (platform.modifyQueue id fun held =>
        { held with variantLatency := held.variantLatency.insert variant time })
  | clearLaunches (id : QueueId) :
      Step platform (platform.modifyQueue id QueueState.clearLaunches)
  | compile (owner : ContextId) (request : CompileRequest) :
      Step platform (platform.compile owner request).2
  | submit (id : QueueId) (launch : Launch) : Step platform (platform.submit id launch).2
  | finish (id : QueueId) : Step platform (platform.finish id).2

/-- A platform that steps lead to from an empty one. -/
def Reachable (platform : Platform) : Prop := Relation.ReflTransGen Step {} platform

/-- A platform on which a model can work on queue `id`, with the compiler of `home`. -/
structure Ready (id : QueueId) (home : ContextId) (platform : Platform) : Prop where
  registered : platform.queues.get? id ≠ none
  accepting : (platform.compiler home).rejected = []
  honest : (platform.compiler home).Honest

/-- A step after which the compiler of `home` rejects no source. -/
def Accepting (home : ContextId) (before after : Platform) : Prop :=
  before.Step after ∧ (after.compiler home).rejected = []

variable {platform after : Platform} {id : QueueId} {home : ContextId}

theorem get?_modifyQueue_ne_none (other : QueueId) (update : QueueState → QueueState)
    (registered : platform.queues.get? id ≠ none) :
    (platform.modifyQueue other update).queues.get? id ≠ none := by
  have changed := Table.get?_modify platform.queues other id update
  unfold modifyQueue
  rw [changed]
  split
  · simpa using registered
  · exact registered

/-- What a change of a queue makes of it. -/
theorem queue_modifyQueue (update : QueueState → QueueState)
    (registered : platform.queues.get? id ≠ none) :
    (platform.modifyQueue id update).queue id = update (platform.queue id) := by
  obtain ⟨held, found⟩ := Option.ne_none_iff_exists'.1 registered
  have modified := Table.get?_modify platform.queues id id update
  rw [if_pos rfl] at modified
  unfold queue modifyQueue
  rw [modified, found]
  rfl

/-- A launch that was accepted has joined both lists of the queue. -/
theorem queue_submit_of_accepted {launch : Launch} (registered : platform.queues.get? id ≠ none)
    (accepted : (platform.submit id launch).1 = .ok ()) :
    (platform.submit id launch).2.queue id = { platform.queue id with
      pending := (platform.queue id).pending ++ [QueueState.recordOf launch]
      history := (platform.queue id).history ++ [QueueState.recordOf launch] } := by
  have changed : (platform.submit id launch).2.queue id =
      ((platform.queue id).submit launch).2 :=
    queue_modifyQueue (fun _ => ((platform.queue id).submit launch).2) registered
  have joined : ((platform.queue id).submit launch).1 = .ok () := accepted
  rw [changed]
  cases checked : QueueState.checkLaunch launch with
  | error cause =>
      rw [QueueState.submit, checked] at joined
      simp at joined
  | ok => rw [QueueState.submit, checked]

/-- Finishing empties the queue and keeps its history. -/
theorem queue_finish (registered : platform.queues.get? id ≠ none) :
    (platform.finish id).2.queue id = (platform.queue id).finish :=
  queue_modifyQueue (fun _ => (platform.queue id).finish) registered

theorem compiler_modifyCompiler (platform : Platform) (context home : ContextId)
    (update : Compiler → Compiler) :
    (platform.modifyCompiler context update).compiler home = platform.compiler home ∨
      context = home ∧
        (platform.modifyCompiler context update).compiler home =
          update (platform.compiler home) := by
  have changed := Table.get?_modify platform.compilers context home update
  unfold compiler modifyCompiler
  rw [changed]
  split
  · next same =>
      cases platform.compilers.get? home with
      | none => exact .inl rfl
      | some held => exact .inr ⟨same, rfl⟩
  · exact .inl rfl

theorem compiler_addContext (platform : Platform) (home : ContextId) (device : Device) :
    (platform.addContext device).1.compiler home = platform.compiler home ∨
      (platform.addContext device).1.compiler home = {} := by
  unfold compiler addContext
  simp only
  rw [Table.get?_insert]
  split
  · exact .inr rfl
  · exact .inl rfl

theorem compile_compiler (platform : Platform) (owner home : ContextId)
    (request : CompileRequest) :
    (platform.compile owner request).2.compiler home = platform.compiler home ∨
      (platform.compile owner request).2.compiler home =
        (Compiler.compile owner request (platform.compiler home)).2 := by
  have modified := platform.compiler_modifyCompiler owner home
    (fun _ => (Compiler.compile owner request (platform.compiler owner)).2)
  refine modified.imp_right ?_
  rintro ⟨rfl, same⟩
  exact same

/-- A compiler that is there changes by what it does. -/
theorem compiler_compile (known : platform.compilers.get? home ≠ none) (request : CompileRequest) :
    (platform.compile home request).2.compiler home =
      (Compiler.compile home request (platform.compiler home)).2 := by
  obtain ⟨held, found⟩ := Option.ne_none_iff_exists'.1 known
  have modified := Table.get?_modify platform.compilers home home
    fun _ => (Compiler.compile home request (platform.compiler home)).2
  rw [if_pos rfl, found] at modified
  have reached : (platform.compile home request).2.compiler home =
      ((platform.compilers.modify home fun _ =>
        (Compiler.compile home request (platform.compiler home)).2).get? home).getD {} := rfl
  rw [reached, modified]
  rfl

theorem known_compile (known : platform.compilers.get? home ≠ none) (request : CompileRequest) :
    (platform.compile home request).2.compilers.get? home ≠ none := by
  have modified := Table.get?_modify platform.compilers home home
    fun _ => (Compiler.compile home request (platform.compiler home)).2
  rw [if_pos rfl] at modified
  have reached : (platform.compile home request).2.compilers =
      platform.compilers.modify home fun _ =>
        (Compiler.compile home request (platform.compiler home)).2 := rfl
  rw [reached, modified]
  simpa using known

theorem compile_queues (platform : Platform) (owner : ContextId) (request : CompileRequest) :
    (platform.compile owner request).2.queues = platform.queues := rfl

theorem Step.honest (step : platform.Step after) (honest : (platform.compiler home).Honest) :
    (after.compiler home).Honest := by
  cases step with
  | addContext device =>
      rcases platform.compiler_addContext home device with same | fresh
      · rwa [same]
      · rw [fresh]
        exact Compiler.honest_empty
  | reject context marker =>
      rcases platform.compiler_modifyCompiler context home (Compiler.reject · marker) with
        same | ⟨_, rejected⟩
      · rwa [same]
      · rw [rejected]
        exact honest
  | compile owner request =>
      rcases platform.compile_compiler owner home request with same | compiled
      · rwa [same]
      · rw [compiled]
        exact Compiler.compile_honest honest
  | _ => exact honest

/-- All compilers of a reachable platform are honest. -/
theorem reachable_honest (reachable : platform.Reachable) : (platform.compiler home).Honest := by
  induction reachable with
  | refl => exact Compiler.honest_empty
  | tail _ step honest => exact step.honest honest

theorem Step.registered (step : platform.Step after) (registered : platform.queues.get? id ≠ none) :
    after.queues.get? id ≠ none := by
  cases step with
  | addQueue known latency =>
      show (platform.queues.insert ⟨platform.queues.size + 1⟩ { latency }).get? id ≠ none
      rw [Table.get?_insert]
      split
      · exact Option.some_ne_none _
      · exact registered
  | setLatency other variant time => exact get?_modifyQueue_ne_none other _ registered
  | clearLaunches other => exact get?_modifyQueue_ne_none other _ registered
  | submit other launch => exact get?_modifyQueue_ne_none other _ registered
  | finish other => exact get?_modifyQueue_ne_none other _ registered
  | _ => exact registered

/-- A platform never forgets a context. -/
theorem Step.known (step : platform.Step after) (known : platform.compilers.get? home ≠ none) :
    after.compilers.get? home ≠ none := by
  have modified (context : ContextId) (update : Compiler → Compiler) :
      (platform.compilers.modify context update).get? home ≠ none := by
    rw [Table.get?_modify]
    split
    · simpa using known
    · exact known
  cases step with
  | addContext device =>
      show (platform.compilers.insert ⟨platform.devices.size + 1⟩ {}).get? home ≠ none
      rw [Table.get?_insert]
      split
      · exact Option.some_ne_none _
      · exact known
  | reject context marker => exact modified context _
  | compile owner request => exact modified owner _
  | _ => exact known

/-- A platform of one device with one queue. -/
def single : Platform := ((({} : Platform).addContext .reference).1.addQueue ⟨1⟩ 0).1

theorem context_reachable (device : Device) : (({} : Platform).addContext device).1.Reachable :=
  Relation.ReflTransGen.single (.addContext device)

theorem single_reachable : Platform.single.Reachable :=
  (context_reachable .reference).tail (.addQueue (by decide) 0)

namespace Ready

/-- A platform stays ready as long as nobody rejects sources for the context. -/
theorem step (ready : platform.Ready id home) (step : platform.Step after)
    (accepting : (after.compiler home).rejected = []) : after.Ready id home :=
  ⟨step.registered ready.registered, accepting, step.honest ready.honest⟩

theorem compile (ready : platform.Ready id home) (request : CompileRequest) :
    (platform.compile home request).2.Ready id home := by
  refine ready.step (.compile home request) ?_
  rcases platform.compile_compiler home home request with same | changed
  · rw [same]
    exact ready.accepting
  · rw [changed, Compiler.compile_rejected]
    exact ready.accepting

theorem compile_entries {request : CompileRequest} {program : Program}
    (ready : platform.Ready id home)
    (compiled : (platform.compile home request).1 = .ok program) :
    program.kernels = Source.entries request.source :=
  Compiler.compile_entries ready.honest compiled

theorem compile_ok (ready : platform.Ready id home) (request : CompileRequest)
    (balanced : Source.Balanced request.source) :
    ∃ program, (platform.compile home request).1 = .ok program :=
  Compiler.compile_ok ready.accepting balanced

theorem finish (ready : platform.Ready id home) : (platform.finish id).2.Ready id home :=
  ready.step (.finish id) ready.accepting

theorem submit (ready : platform.Ready id home) (launch : Launch) :
    (platform.submit id launch).2.Ready id home :=
  ready.step (.submit id launch) ready.accepting

/-- A launch that passes the check is appended to both lists of the queue. -/
theorem submit_ok {launch : Launch} (ready : platform.Ready id home)
    (checked : QueueState.checkLaunch launch = .ok ()) :
    ∃ reached, platform.submit id launch = (.ok (), reached) ∧ reached.Ready id home ∧
      (reached.queue id).history =
        (platform.queue id).history ++ [QueueState.recordOf launch] ∧
      (reached.queue id).pending =
        (platform.queue id).pending ++ [QueueState.recordOf launch] := by
  have accepted : (platform.submit id launch).1 = .ok () := by
    show ((platform.queue id).submit launch).1 = .ok ()
    rw [QueueState.submit, checked]
  have changed := queue_submit_of_accepted ready.registered accepted
  refine ⟨(platform.submit id launch).2, Prod.ext accepted rfl, ready.submit launch, ?_, ?_⟩
  · rw [changed]
  · rw [changed]

end Ready

end Platform

end KernelTuner
