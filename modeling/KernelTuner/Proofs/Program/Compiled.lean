import KernelTuner.Proofs.Kernel.Braces
import KernelTuner.Proofs.Program.Sources
import KernelTuner.Proofs.Variant.Entries
import KernelTuner.Proofs.Action
import KernelTuner.Proofs.Backend.Platform
import KernelTuner.Proofs.Program.Cache

/-!
Contract: the programs of a set on the reference platform.

Owns: that the source of every shell is balanced, and the kernels that it holds;
`assemble_entries`, by which the compiler finds in it the entries of all variants, in their
order, and nothing else; sets that are complete for a list of variants, which those built for
them are and stay when anything of them is compiled; and `Complete.program_ok`, by which every
program of a complete set compiles and has the entries of all variants.
-/

set_option autoImplicit false

namespace KernelTuner

theorem Variant.emit_legible {variant : Variant} {index : Nat} {batch : Batch}
    {emission : Emission} (emits : variant.emit index batch = .ok emission) (slot : Slot) :
    ∀ kernel ∈ emission.kernels slot, kernel.Legible := by
  intro kernel member
  have entry := List.mem_map_of_mem (f := Kernel.name) member
  rw [emit_entries emits] at entry
  exact ⟨entry_identifier entry,
    (Kernel.interior_enclosed (emit_namesPlain emits slot kernel member)).unheaded⟩

namespace ProgramSet

variable {batch : Batch} {variants : List Variant} {emissions : List Emission}

/-! ### Kernels of a set -/

/-- The kernels of a slot, variant by variant. -/
def kernelsOf (emissions : List Emission) (slot : Slot) : List (List Kernel) :=
  emissions.map fun emission => emission.kernels slot

theorem holds_emissions {index : Nat}
    (emitted : emissionsFrom batch index variants = .ok emissions) (slot : Slot) :
    Source.Holds (kernelsOf emissions slot).flatten
      (String.join (emissions.map fun emission => emission.text slot)).toList := by
  have every := emissionsFrom_eq_ok_iff.1 emitted
  generalize variants.zipIdx index = numbered at every
  clear emitted
  induction every with
  | nil => exact .none .nil
  | cons emits _ inductionHypothesis =>
      rw [List.map_cons, String.join_cons, String.toList_append, Emission.text_eq]
      exact (Source.Holds.fragmentText (Variant.emit_legible emits slot)).append
        inductionHypothesis

theorem names_kernelsOf {index : Nat}
    (emitted : emissionsFrom batch index variants = .ok emissions) (slot : Slot) :
    (kernelsOf emissions slot).flatten.map Kernel.name =
      (variants.zipIdx index).flatMap fun numbered => numbered.1.entries numbered.2 slot := by
  have every := emissionsFrom_eq_ok_iff.1 emitted
  generalize variants.zipIdx index = numbered at every ⊢
  clear emitted
  induction every with
  | nil => rfl
  | cons emits _ inductionHypothesis =>
      rw [List.flatMap_cons, ← inductionHypothesis, ← Variant.emit_entries emits slot]
      simp [kernelsOf]

/-! ### Sources -/

theorem preamble_plain (device : Device) : Source.Plain (device.defineExtension "cl_khr_fp64") := by
  unfold Device.defineExtension
  split
  · exact (Source.Plain.append (by decide) (by decide)).append (by decide)
  · decide

variable (context : ContextId) (fingerprint : Fingerprint) (device : Device) (force : Bool)

theorem assemble_source (emissions : List Emission) (slot : Slot) :
    ((assemble context fingerprint device force emissions).shell slot).source =
      device.defineExtension "cl_khr_fp64" ++
        String.join (emissions.map fun emission => emission.text slot) := by
  cases slot with
  | primary => exact assemble_primary_source
  | fallback => exact assemble_fallback_source

theorem assemble_balanced (emitted : emissionsFrom batch 0 variants = .ok emissions)
    (slot : Slot) :
    Source.Balanced
      ((assemble context fingerprint device force emissions).shell slot).source := by
  rw [assemble_source]
  refine (preamble_plain device).balanced.append (.join fun text member => ?_)
  obtain ⟨emission, emissionMember, rfl⟩ := List.mem_map.1 member
  obtain ⟨place, found⟩ := List.mem_iff_getElem?.1 emissionMember
  obtain ⟨variant, _, emits⟩ := variant_at emitted found
  rw [Emission.text_eq]
  exact Kernel.fragmentText_balanced (Variant.emit_namesPlain emits slot)

theorem assemble_holds (emitted : emissionsFrom batch 0 variants = .ok emissions) (slot : Slot) :
    Source.Holds (kernelsOf emissions slot).flatten
      ((assemble context fingerprint device force emissions).shell slot).source.toList := by
  rw [assemble_source, String.toList_append]
  exact (holds_emissions emitted slot).behind (preamble_plain device).unheaded

/-- The compiler finds the entries of the variants in their order. -/
theorem assemble_entries (emitted : emissionsFrom batch 0 variants = .ok emissions)
    (slot : Slot) :
    Source.entries ((assemble context fingerprint device force emissions).shell slot).source =
      variants.zipIdx.flatMap fun numbered => numbered.1.entries numbered.2 slot :=
  (assemble_holds context fingerprint device force emitted slot).entries.trans
    (names_kernelsOf emitted slot)

theorem entry_mem_entries (emitted : emissionsFrom batch 0 variants = .ok emissions)
    {place : Nat} {variant : Variant} (found : variants[place]? = some variant) {slot : Slot}
    {name : String} (member : name ∈ variant.entries place slot) :
    name ∈ Source.entries
      ((assemble context fingerprint device force emissions).shell slot).source := by
  rw [assemble_entries context fingerprint device force emitted]
  exact List.mem_flatMap.2 ⟨(variant, place), List.mem_zipIdx_iff_getElem?.2 found, member⟩

end ProgramSet

/-! ### Queues of the platform -/

/-- A queue whose calls are those of the reference platform. -/
structure CommandQueue.OnPlatform (queue : CommandQueue Platform) : Prop where
  compile : queue.compile = Platform.compile queue.context
  submit : queue.submit = Platform.submit queue.id
  finish : queue.finish = Platform.finish queue.id

theorem Platform.commandQueue_onPlatform (platform : Platform) (id : QueueId) :
    (platform.commandQueue id).OnPlatform := ⟨rfl, rfl, rfl⟩

/-- A bench on whose platform the queue works. -/
def Bench.Ready (queue : CommandQueue Platform) (bench : Bench Platform) : Prop :=
  bench.backend.Ready queue.id queue.context

variable {queue : CommandQueue Platform} {bench : Bench Platform}

/-! ### Shells -/

namespace Shell

/-- What has been compiled of the shell has the entries of its source. -/
def Faithful (shell : Shell) : Prop :=
  ∀ program, shell.compiled = some program → program.kernels = Source.entries shell.source

theorem program_of_compiled {shell : Shell} {program : Program}
    (held : shell.compiled = some program) :
    Shell.program queue (shell, bench) = (.ok program, shell, bench) := by
  simp only [Shell.program, held]

/-- The bench behind a compilation. -/
def benchAfter (queue : CommandQueue Platform) (shell : Shell) (bench : Bench Platform) :
    Bench Platform :=
  { bench with backend := (bench.backend.compile queue.context shell.request).2 }.record
    .programCompile

theorem benchAfter_ready (shell : Shell) (ready : bench.Ready queue) :
    (benchAfter queue shell bench).Ready queue :=
  Platform.Ready.compile ready shell.request

theorem program_of_uncompiled (onPlatform : queue.OnPlatform) (bench : Bench Platform) {shell : Shell}
    (fresh : shell.compiled = none) :
    Shell.program queue (shell, bench) =
      match (bench.backend.compile queue.context shell.request).1 with
      | .ok program =>
          (.ok program, { shell with compiled := some program }, benchAfter queue shell bench)
      | .error cause => (.error (.backend cause), shell, benchAfter queue shell bench) := by
  simp only [Shell.program, fresh, onPlatform.compile]
  rfl

theorem program_keeps (onPlatform : queue.OnPlatform) :
    Action.Keeps (fun state : Shell × Bench Platform => state.1.Faithful ∧ state.2.Ready queue)
      (Shell.program queue) := by
  rintro ⟨shell, bench⟩ ⟨faithful, ready⟩
  cases held : shell.compiled with
  | some program =>
      rw [program_of_compiled held]
      exact ⟨faithful, ready⟩
  | none =>
      rw [program_of_uncompiled onPlatform bench held]
      cases outcome : (bench.backend.compile queue.context shell.request).1 with
      | error cause => exact ⟨faithful, benchAfter_ready shell ready⟩
      | ok program =>
          refine ⟨?_, benchAfter_ready shell ready⟩
          intro other same
          cases same
          exact Platform.Ready.compile_entries ready outcome

/-- Compiling leaves all queues alone. -/
theorem program_queues (onPlatform : queue.OnPlatform) (shell : Shell)
    (bench : Bench Platform) :
    (Shell.program queue (shell, bench)).2.2.backend.queues = bench.backend.queues := by
  cases held : shell.compiled with
  | some program => rw [program_of_compiled held]
  | none =>
      have compiles := bench.backend.compile_queues queue.context shell.request
      rw [program_of_uncompiled onPlatform bench held]
      cases (bench.backend.compile queue.context shell.request).1 <;> exact compiles

/-- The program of a balanced shell is there or compiles, and is kept. -/
theorem program_ok (onPlatform : queue.OnPlatform) {shell : Shell} (faithful : shell.Faithful)
    (ready : bench.Ready queue) (balanced : Source.Balanced shell.source) :
    ∃ program reached, Shell.program queue (shell, bench) = (.ok program, reached) ∧
      program.kernels = Source.entries shell.source ∧ reached.1.compiled = some program ∧
      reached.2.backend.queues = bench.backend.queues := by
  cases held : shell.compiled with
  | some program =>
      exact ⟨program, (shell, bench), program_of_compiled held, faithful program held, held, rfl⟩
  | none =>
      have unfolded := program_of_uncompiled onPlatform bench held
      obtain ⟨program, compiled⟩ := Platform.Ready.compile_ok ready shell.request balanced
      rw [compiled] at unfolded
      exact ⟨program, _, unfolded, Platform.Ready.compile_entries ready compiled, rfl,
        bench.backend.compile_queues queue.context shell.request⟩

end Shell

/-! ### Sets -/

namespace ProgramSet

variable {variants : List Variant} {set : ProgramSet}

/-- A set of which every program compiles and has the entries of all variants. -/
structure Complete (variants : List Variant) (set : ProgramSet) : Prop where
  balanced : ∀ slot, Source.Balanced (set.shell slot).source
  entries : ∀ {slot : Slot} {place : Nat} {variant : Variant} {name : String},
    variants[place]? = some variant → name ∈ variant.entries place slot →
      name ∈ Source.entries (set.shell slot).source
  faithful : ∀ slot, (set.shell slot).Faithful

theorem build_complete {context : ContextId} {fingerprint : Fingerprint} {device : Device}
    {batch : Batch} {force : Bool}
    (built : build context fingerprint device variants batch force = .ok set) :
    set.Complete variants := by
  obtain ⟨emissions, emitted, rfl⟩ := build_eq_ok_iff.1 built
  refine ⟨assemble_balanced context fingerprint device force emitted, ?_, ?_⟩
  · exact fun found member => entry_mem_entries context fingerprint device force emitted found member
  · intro slot program compiled
    rw [assemble_compiled] at compiled
    simp at compiled

theorem Complete.putShell (complete : set.Complete variants) {slot : Slot} {shell : Shell}
    (same : shell.uncompiled = (set.shell slot).uncompiled) (faithful : shell.Faithful) :
    (set.putShell slot shell).Complete variants := by
  have sameSource (other : Slot) :
      ((set.putShell slot shell).shell other).source = (set.shell other).source := by
    rw [shell_putShell]
    split
    · next equal =>
        subst equal
        have sources := congrArg Shell.source same
        exact sources
    · rfl
  refine ⟨?_, ?_, ?_⟩
  · intro other
    rw [sameSource]
    exact complete.balanced other
  · intro other place variant name found member
    rw [sameSource]
    exact complete.entries found member
  · intro other
    rw [shell_putShell]
    split
    · exact faithful
    · exact complete.faithful other

/-- What a step on a set and its bench may rely on and has to keep. -/
def Running (queue : CommandQueue Platform) (variants : List Variant)
    (state : ProgramSet × Bench Platform) : Prop :=
  state.1.Complete variants ∧ state.2.Ready queue

theorem program_keeps (onPlatform : queue.OnPlatform) (slot : Slot) :
    Action.Keeps (Running queue variants) (program queue slot) := by
  rintro ⟨set, bench⟩ ⟨complete, ready⟩
  obtain ⟨faithful, stillReady⟩ :=
    Shell.program_keeps onPlatform (set.shell slot, bench) ⟨complete.faithful slot, ready⟩
  exact ⟨complete.putShell (shell_program_uncompiled queue (set.shell slot) bench) faithful,
    stillReady⟩

/-- Every program of a complete set compiles, is kept, and has the entries of all
variants. -/
theorem Complete.program_ok (onPlatform : queue.OnPlatform) (complete : set.Complete variants)
    (ready : bench.Ready queue) (slot : Slot) :
    ∃ program reached, ProgramSet.program queue slot (set, bench) = (.ok program, reached) ∧
      (∀ (place : Nat) (variant : Variant), variants[place]? = some variant →
        ∀ name ∈ variant.entries place slot, program.hasKernel name = true) ∧
      (reached.1.shell slot).compiled = some program ∧
      reached.2.backend.queues = bench.backend.queues := by
  obtain ⟨program, ⟨shell, reached⟩, outcome, kernels, compiled, queues⟩ :=
    Shell.program_ok onPlatform (complete.faithful slot) ready (complete.balanced slot)
  refine ⟨program, (set.putShell slot shell, reached), ?_, ?_, ?_, queues⟩
  · simp only [ProgramSet.program, Action.on, outcome]
  · intro place variant found name member
    rw [Program.hasKernel, kernels, List.contains_iff_mem]
    exact complete.entries found member
  · rw [shell_putShell, if_pos rfl]
    exact compiled

end ProgramSet

end KernelTuner
