import KernelTuner.Proofs.Backend.Recording
import KernelTuner.Proofs.Program.Compiled

/-!
Contract: program sets that have been compiled as a whole.

Owns: which shells of a set hold kernels; the compile requests that a step makes on a
platform, which move no queue; and `compileAll_prepares`, by which every shell that holds
kernels has its program afterwards, so that asking for it makes no request.
-/

set_option autoImplicit false

namespace KernelTuner

/-! ### Shells that hold kernels -/

theorem Shell.add_isEmpty (shell : Shell) (fragment : String) :
    (shell.add fragment).isEmpty = (shell.isEmpty && fragment.isEmpty) := by
  unfold add
  split
  · next blank => rw [blank, Bool.and_true]
  · next filled => simp [isEmpty, filled]

theorem Shell.addAll_isEmpty (shell : Shell) (fragments : List String) :
    (shell.addAll fragments).isEmpty = (shell.isEmpty && fragments.all String.isEmpty) := by
  induction fragments generalizing shell with
  | nil => simp
  | cons fragment rest inductionHypothesis =>
      rw [addAll_cons, inductionHypothesis, add_isEmpty, List.all_cons, Bool.and_assoc]

/-- Every kernel has some text. -/
theorem Kernel.fragmentText_ne_empty {kernels : List Kernel} (some : kernels ≠ []) :
    fragmentText kernels ≠ "" := by
  obtain ⟨kernel, others, rfl⟩ := List.exists_cons_of_ne_nil some
  intro blank
  have headed := header_infix_fragmentText (List.mem_cons_self (a := kernel) (l := others))
  rw [blank] at headed
  have nothing : kernel.header.toList = [] := List.infix_nil.1 headed
  simp [header, entryMark] at nothing

theorem Variant.emission_text_ne_empty {variant : Variant} {index : Nat} {batch : Batch}
    {emission : Emission} {slot : Slot} (emits : variant.emit index batch = .ok emission)
    (used : variant.entries index slot ≠ []) : emission.text slot ≠ "" := by
  rw [Emission.text_eq]
  apply Kernel.fragmentText_ne_empty
  intro none
  rw [← emit_entries emits slot, none] at used
  exact used rfl

/-- A plan takes its kernels from a slot for which the variant has some. -/
theorem Variant.plan_slot_used {variant : Variant} {index : Nat} {batch : Batch}
    {plan : LaunchPlan} (planned : variant.plan index batch = .ok plan) :
    variant.entries index plan.slot ≠ [] := by
  cases variant with
  | vectorUpdate params =>
      obtain ⟨_, _, planned⟩ := bind_eq_ok_iff.1 planned
      cases planned
      exact List.cons_ne_nil _ _
  | innerProduct params =>
      obtain ⟨_, _, planned⟩ := bind_eq_ok_iff.1 planned
      cases planned
      exact List.cons_ne_nil _ _
  | matrixUpdate params =>
      obtain ⟨_, _, planned⟩ := bind_eq_ok_iff.1 planned
      cases planned
      exact List.cons_ne_nil _ _
  | matrixVector params =>
      obtain ⟨_, _, planned⟩ := bind_eq_ok_iff.1 planned
      cases planned
      exact List.cons_ne_nil _ _
  | matrixProduct params => cases plan.slot <;> exact List.cons_ne_nil _ _

namespace ProgramSet

variable {set : ProgramSet} {variants : List Variant}

/-- A set in which every slot that a variant has kernels for holds kernels. -/
def Filled (variants : List Variant) (set : ProgramSet) : Prop :=
  ∀ (place : Nat) (variant : Variant) (slot : Slot), variants[place]? = some variant →
    variant.entries place slot ≠ [] → (set.shell slot).isEmpty = false

theorem uncompiled_isEmpty (set : ProgramSet) (slot : Slot) :
    (set.uncompiled.shell slot).isEmpty = (set.shell slot).isEmpty := by
  cases slot <;> rfl

theorem Filled.congr {other : ProgramSet} (filled : set.Filled variants)
    (same : other.uncompiled = set.uncompiled) : other.Filled variants := by
  intro place variant slot found used
  rw [← uncompiled_isEmpty, same, uncompiled_isEmpty]
  exact filled place variant slot found used

theorem assemble_shell_isEmpty (context : ContextId) (fingerprint : Fingerprint) (device : Device)
    (force : Bool) (emissions : List Emission) (slot : Slot) :
    ((assemble context fingerprint device force emissions).shell slot).isEmpty =
      (emissions.map fun emission => emission.text slot).all String.isEmpty := by
  cases slot with
  | primary => exact Shell.addAll_isEmpty _ _
  | fallback => exact Shell.addAll_isEmpty _ _

theorem filled_of_emitted {context : ContextId} {fingerprint : Fingerprint} {device : Device}
    {force : Bool} {batch : Batch} {emissions : List Emission}
    (emitted : emissionsFrom batch 0 variants = .ok emissions)
    (assembled : set.uncompiled = assemble context fingerprint device force emissions) :
    set.Filled variants := by
  intro place variant slot found used
  obtain ⟨emission, emissionFound, emits⟩ := emission_at emitted found
  rw [Nat.zero_add] at emits
  rw [← uncompiled_isEmpty, assembled, assemble_shell_isEmpty, Bool.eq_false_iff]
  intro blank
  have texts := List.all_eq_true.1 blank (emission.text slot)
    (List.mem_map_of_mem (List.mem_of_getElem? emissionFound))
  exact Variant.emission_text_ne_empty emits used (String.isEmpty_iff.1 texts)

end ProgramSet

/-! ### Compile requests -/

/-- Nothing but compile requests lies between two states of a platform. They leave all
queues alone. -/
structure Compiles (before after : Recorded Platform) : Prop where
  queues : after.backend.queues = before.backend.queues
  logged : ∃ events, after.log = before.log ++ events ∧
    ∀ event ∈ events, (∃ request, event.call = .compile request) ∧
      event.before.queues = before.backend.queues

namespace Compiles

theorem refl (state : Recorded Platform) : Compiles state state :=
  ⟨rfl, [], (List.append_nil _).symm, List.forall_mem_nil _⟩

theorem trans {before middle after : Recorded Platform} (first : Compiles before middle)
    (second : Compiles middle after) : Compiles before after := by
  obtain ⟨firstEvents, firstLog, firstCalls⟩ := first.logged
  obtain ⟨secondEvents, secondLog, secondCalls⟩ := second.logged
  refine ⟨second.queues.trans first.queues, firstEvents ++ secondEvents, ?_, ?_⟩
  · rw [secondLog, firstLog, List.append_assoc]
  · intro event member
    rcases List.mem_append.1 member with earlier | later
    · exact firstCalls event earlier
    · obtain ⟨request, queues⟩ := secondCalls event later
      exact ⟨request, queues.trans first.queues⟩

end Compiles

variable {queue : CommandQueue Platform}

/-- Asking for the program of a shell makes at most a compile request. -/
theorem Shell.program_compiles (onPlatform : queue.OnPlatform) {shell reached : Shell}
    {bench after : Bench (Recorded Platform)} {program : Program}
    (outcome : Shell.program queue.recorded (shell, bench) = (.ok program, reached, after)) :
    reached.compiled = some program ∧ Compiles bench.backend after.backend := by
  cases held : shell.compiled with
  | some stored =>
      simp only [Shell.program, held] at outcome
      cases outcome
      exact ⟨held, .refl _⟩
  | none =>
      simp only [Shell.program, held, CommandQueue.recorded, Recorded.note,
        onPlatform.compile] at outcome
      split at outcome
      · cases outcome
        refine ⟨rfl, bench.backend.backend.compile_queues queue.context shell.request,
          [⟨.compile shell.request, bench.backend.backend⟩], rfl, ?_⟩
        exact List.forall_mem_singleton.2 ⟨⟨shell.request, rfl⟩, rfl⟩
      · cases outcome

namespace ProgramSet

/-- A set in which every shell that holds kernels has its program. -/
def Prepared (set : ProgramSet) : Prop :=
  ∀ slot, (set.shell slot).isEmpty = false → ∃ program, (set.shell slot).compiled = some program

theorem compileSlot_compiles (onPlatform : queue.OnPlatform) {slot : Slot}
    {set reached : ProgramSet} {bench after : Bench (Recorded Platform)}
    (outcome : compileSlot queue.recorded slot (set, bench) = (.ok (), reached, after)) :
    Compiles bench.backend after.backend ∧
      ((set.shell slot).isEmpty = false → ∃ program, (reached.shell slot).compiled = some program) ∧
      ∀ other, other ≠ slot → reached.shell other = set.shell other := by
  cases filled : (set.shell slot).isEmpty with
  | true =>
      rw [compileSlot_of_empty queue.recorded filled] at outcome
      cases outcome
      exact ⟨.refl _, nofun, fun _ _ => rfl⟩
  | false =>
      rw [compileSlot_of_filled queue.recorded filled] at outcome
      obtain ⟨program, ⟨middle, between⟩, ran, rest⟩ := Action.bind_succeeds_iff.1 outcome
      cases rest
      rcases shellOutcome : Shell.program queue.recorded (set.shell slot, bench) with
        ⟨result, shell, shellBench⟩
      simp only [ProgramSet.program, Action.on, shellOutcome] at ran
      cases ran
      obtain ⟨compiled, compiles⟩ := Shell.program_compiles onPlatform shellOutcome
      refine ⟨compiles, fun _ => ⟨program, ?_⟩, ?_⟩
      · rw [shell_putShell, if_pos rfl, compiled]
      · intro other apart
        rw [shell_putShell, if_neg apart.symm]

/-- Compiling a set makes compile requests only, and leaves it prepared. -/
theorem compileAll_prepares (onPlatform : queue.OnPlatform) {set reached : ProgramSet}
    {bench after : Bench (Recorded Platform)}
    (outcome : compileAll queue.recorded (set, bench) = (.ok (), reached, after)) :
    Compiles bench.backend after.backend ∧ reached.Prepared ∧
      reached.uncompiled = set.uncompiled := by
  have uncompiled := compileAll_uncompiled queue.recorded set bench
  rw [outcome] at uncompiled
  obtain ⟨_, ⟨middle, between⟩, first, second⟩ := Action.bind_succeeds_iff.1 outcome
  obtain ⟨firstCompiles, firstCompiled, firstKept⟩ := compileSlot_compiles onPlatform first
  obtain ⟨secondCompiles, secondCompiled, secondKept⟩ := compileSlot_compiles onPlatform second
  refine ⟨firstCompiles.trans secondCompiles, ?_, uncompiled⟩
  intro slot filled
  rw [← uncompiled_isEmpty, show reached.uncompiled = set.uncompiled from uncompiled,
    uncompiled_isEmpty] at filled
  cases slot with
  | primary =>
      rw [secondKept .primary (by decide)]
      exact firstCompiled filled
  | fallback =>
      rw [← firstKept .fallback (by decide)] at filled
      exact secondCompiled filled

/-- The program of a prepared set is there. -/
theorem program_of_prepared {σ : Type} {queue : CommandQueue σ} {set : ProgramSet} {slot : Slot}
    (prepared : set.Prepared) (filled : (set.shell slot).isEmpty = false) (bench : Bench σ) :
    ∃ program, ProgramSet.program queue slot (set, bench) = (.ok program, set, bench) := by
  obtain ⟨program, compiled⟩ := prepared slot filled
  refine ⟨program, ?_⟩
  simp only [ProgramSet.program, Action.on, Shell.program, compiled]
  cases slot <;> rfl

end ProgramSet

end KernelTuner
