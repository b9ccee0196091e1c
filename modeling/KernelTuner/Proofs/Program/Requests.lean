import KernelTuner.Proofs.Backend.Recording
import KernelTuner.Proofs.Fingerprint.Spelling
import KernelTuner.Proofs.Outcome
import KernelTuner.Proofs.Program.Cache
import KernelTuner.Proofs.Program.Sources

/-!
Contract: the compile requests of stored programs.

Owns: the names under which programs are requested, which are all different; and the
agreement of what is stored with the log of the backend: requests are those of stored
shells, a shell is compiled exactly when one of its requests has succeeded, and it makes
no request after that. Every step on stored programs keeps the agreement.
-/

set_option autoImplicit false

namespace KernelTuner

/-! ### Programs of one name -/

namespace Fingerprint

/-- The name that the program of a slot is compiled under. -/
def slotName (name : Fingerprint) : Slot → String
  | .primary => name.text
  | .fallback => name.fallbackName

theorem slotName_fallback_toList (name : Fingerprint) :
    (name.slotName .fallback).toList = name.text.toList ++ ['_', 'f', 'b'] :=
  String.toList_append

/-- The programs of batches have names of their own: no name of a primary program ends
as those of fallback programs do. -/
theorem slotName_injective {left right : Batch} {leftName rightName : Fingerprint}
    {leftSlot rightSlot : Slot} (leftNamed : left.programName = .ok leftName)
    (rightNamed : right.programName = .ok rightName)
    (same : leftName.slotName leftSlot = rightName.slotName rightSlot) :
    leftName = rightName ∧ leftSlot = rightSlot := by
  have marked (name : Fingerprint) : '_' ∈ (name.slotName .fallback).toList := by
    rw [slotName_fallback_toList]
    exact List.mem_append_right _ List.mem_cons_self
  cases leftSlot with
  | primary =>
      cases rightSlot with
      | primary => exact ⟨congrArg Fingerprint.mk same, rfl⟩
      | fallback =>
          have unmarked := Batch.underscore_not_mem_programName leftNamed
          have sameText : leftName.text = rightName.slotName .fallback := same
          rw [sameText] at unmarked
          exact absurd (marked rightName) unmarked
  | fallback =>
      cases rightSlot with
      | primary =>
          have unmarked := Batch.underscore_not_mem_programName rightNamed
          have sameText : leftName.slotName .fallback = rightName.text := same
          rw [← sameText] at unmarked
          exact absurd (marked leftName) unmarked
      | fallback =>
          have sameLists := congrArg String.toList same
          rw [slotName_fallback_toList, slotName_fallback_toList] at sameLists
          have sameText := String.toList_injective (List.append_cancel_right sameLists)
          exact ⟨congrArg Fingerprint.mk sameText, rfl⟩

end Fingerprint

namespace ProgramSet

variable {context : ContextId} {name : Fingerprint} {device : Device} {force : Bool}
  {emissions : List Emission}

theorem assemble_stamp (slot : Slot) :
    ((assemble context name device force emissions).shell slot).stamp =
      (context, name.slotName slot, force, none) := by
  cases slot <;> exact Shell.addAll_stamp _ _

/-- The shells of a set are requested for its context, under their own names, and as its
flag says. -/
theorem shell_of_assembled {set : ProgramSet}
    (assembled : set.uncompiled = assemble context name device force emissions) (slot : Slot) :
    (set.shell slot).context = context ∧ (set.shell slot).name = name.slotName slot ∧
      (set.shell slot).force = force := by
  have stamp : (set.uncompiled.shell slot).stamp = (context, name.slotName slot, force, none) := by
    rw [assembled, assemble_stamp]
  have shown : (set.uncompiled.shell slot).stamp =
      ((set.shell slot).context, (set.shell slot).name, (set.shell slot).force, none) := by
    cases slot <;> rfl
  simpa using shown.symm.trans stamp

end ProgramSet

/-! ### Shelves -/

variable {σ ι : Type} {queue : CommandQueue σ}

/-- A request that has been answered with a program. -/
def BackendEvent.Compiles (queue : CommandQueue σ) (request : CompileRequest) (program : Program)
    (event : BackendEvent σ) : Prop :=
  event.call = .compile request ∧ (queue.compile request event.before).1 = .ok program

/-- Shells on a shelf in agreement with the log of the backend. -/
structure Logged (queue : CommandQueue σ) (shelf : ι → Option Shell)
    (log : List (BackendEvent σ)) : Prop where
  distinct : ∀ place other shell otherShell, shelf place = some shell →
    shelf other = some otherShell → shell.request = otherShell.request → place = other
  requested : ∀ event ∈ log, ∀ request, event.call = .compile request →
    ∃ place shell, shelf place = some shell ∧ shell.request = request
  answered : ∀ place shell program, shelf place = some shell →
    (shell.compiled = some program ↔ ∃ event ∈ log, event.Compiles queue shell.request program)
  once : log.Pairwise fun earlier later =>
    ∀ request program, earlier.Compiles queue request program → later.call ≠ .compile request

namespace Logged

variable {shelf : ι → Option Shell} {log : List (BackendEvent σ)} {event : BackendEvent σ}
  {place : ι} {shell : Shell}

theorem empty (vacant : ∀ place, shelf place = none) : Logged queue shelf [] where
  distinct := fun place _ _ _ held => absurd (vacant place ▸ held) nofun
  requested := nofun
  answered := fun place _ _ held => absurd (vacant place ▸ held) nofun
  once := .nil

/-- An event that is no request may follow anything. -/
theorem concat_silent (logged : Logged queue shelf log)
    (silent : ∀ request, event.call ≠ .compile request) : Logged queue shelf (log ++ [event]) where
  distinct := logged.distinct
  requested := by
    intro noted member request asks
    rcases List.mem_append.1 member with earlier | last
    · exact logged.requested noted earlier request asks
    · rw [List.mem_singleton.1 last] at asks
      exact absurd asks (silent request)
  answered := by
    intro place shell program held
    rw [logged.answered place shell program held]
    constructor
    · rintro ⟨noted, earlier, compiles⟩
      exact ⟨noted, List.mem_append_left _ earlier, compiles⟩
    · rintro ⟨noted, member, compiles⟩
      rcases List.mem_append.1 member with earlier | last
      · exact ⟨noted, earlier, compiles⟩
      · rw [List.mem_singleton.1 last] at compiles
        exact absurd compiles.1 (silent _)
  once := by
    refine List.pairwise_append.2 ⟨logged.once, List.pairwise_singleton _ _, ?_⟩
    intro earlier _ later last request _ _
    rw [List.mem_singleton.1 last]
    exact silent request

/-- More shells may be put on the shelf as long as they are new and uncompiled. -/
theorem grow {grown : ι → Option Shell} (logged : Logged queue shelf log)
    (distinct : ∀ place other shell otherShell, grown place = some shell →
      grown other = some otherShell → shell.request = otherShell.request → place = other)
    (kept : ∀ place shell, shelf place = some shell → grown place = some shell)
    (fresh : ∀ place shell, grown place = some shell →
      shelf place = some shell ∨ shelf place = none ∧ shell.compiled = none) :
    Logged queue grown log where
  distinct := distinct
  requested := by
    intro event member request asks
    obtain ⟨place, shell, held, same⟩ := logged.requested event member request asks
    exact ⟨place, shell, kept place shell held, same⟩
  answered := by
    intro place shell program held
    rcases fresh place shell held with old | ⟨vacant, uncompiled⟩
    · exact logged.answered place shell program old
    · rw [uncompiled]
      refine ⟨nofun, ?_⟩
      rintro ⟨event, member, asks, _⟩
      obtain ⟨other, otherShell, otherHeld, same⟩ := logged.requested event member _ asks
      have together :=
        distinct other place otherShell shell (kept other otherShell otherHeld) held same
      rw [together, vacant] at otherHeld
      cases otherHeld
  once := logged.once

section Requests

variable [DecidableEq ι]

/-- The shelf behind a request of the shell at `place` that has come to `reply`. -/
def replied (shelf : ι → Option Shell) (place : ι) (shell : Shell)
    (reply : Except BackendError Program) : ι → Option Shell :=
  Function.update shelf place (some { shell with compiled := reply.toOption })

variable {reply : Except BackendError Program} {other : ι} {found : Shell}

theorem replied_self : replied shelf place shell reply place =
    some { shell with compiled := reply.toOption } :=
  Function.update_self place _ shelf

theorem replied_of_ne (apart : other ≠ place) :
    replied shelf place shell reply other = shelf other :=
  Function.update_of_ne apart _ shelf

/-- A reply changes no request. -/
theorem request_of_replied (held : shelf place = some shell)
    (present : replied shelf place shell reply other = some found) :
    ∃ old, shelf other = some old ∧ old.request = found.request := by
  by_cases same : other = place
  · subst same
    rw [replied_self] at present
    cases present
    exact ⟨shell, held, rfl⟩
  · rw [replied_of_ne same] at present
    exact ⟨found, present, rfl⟩

/-- An uncompiled shell may ask the compiler, and is then compiled exactly when the
compiler has replied with a program. -/
theorem concat_request (logged : Logged queue shelf log) (held : shelf place = some shell)
    (uncompiled : shell.compiled = none) (asks : event.call = .compile shell.request) :
    Logged queue (replied shelf place shell (queue.compile shell.request event.before).1)
      (log ++ [event]) where
  distinct := by
    intro one another oneShell anotherShell oneHeld anotherHeld same
    obtain ⟨oneOld, oneBefore, oneSame⟩ := request_of_replied held oneHeld
    obtain ⟨anotherOld, anotherBefore, anotherSame⟩ := request_of_replied held anotherHeld
    refine logged.distinct one another oneOld anotherOld oneBefore anotherBefore ?_
    rw [oneSame, anotherSame, same]
  requested := by
    intro noted member request noteAsks
    rcases List.mem_append.1 member with earlier | last
    · obtain ⟨other, found, present, same⟩ := logged.requested noted earlier request noteAsks
      by_cases here : other = place
      · subst here
        rw [held] at present
        cases present
        exact ⟨other, _, replied_self, same⟩
      · exact ⟨other, found, (replied_of_ne here).trans present, same⟩
    · rw [List.mem_singleton.1 last, asks] at noteAsks
      cases noteAsks
      exact ⟨place, _, replied_self, rfl⟩
  answered := by
    intro other found program present
    by_cases here : other = place
    · subst here
      rw [replied_self] at present
      cases present
      rw [toOption_eq_some_iff]
      constructor
      · exact fun answer => ⟨event, List.mem_append_right _ List.mem_cons_self, asks, answer⟩
      · rintro ⟨noted, member, compiles⟩
        rcases List.mem_append.1 member with earlier | last
        · have answer := (logged.answered other shell program held).2 ⟨noted, earlier, compiles⟩
          rw [uncompiled] at answer
          cases answer
        · rw [List.mem_singleton.1 last] at compiles
          exact compiles.2
    · rw [replied_of_ne here] at present
      rw [logged.answered other found program present]
      constructor
      · rintro ⟨noted, earlier, compiles⟩
        exact ⟨noted, List.mem_append_left _ earlier, compiles⟩
      · rintro ⟨noted, member, compiles⟩
        rcases List.mem_append.1 member with earlier | last
        · exact ⟨noted, earlier, compiles⟩
        · rw [List.mem_singleton.1 last] at compiles
          have same : found.request = shell.request :=
            BackendCall.compile.inj (compiles.1.symm.trans asks)
          exact absurd (logged.distinct other place found shell present held same) here
  once := by
    refine List.pairwise_append.2 ⟨logged.once, List.pairwise_singleton _ _, ?_⟩
    intro earlier member later last request program compiles
    rw [List.mem_singleton.1 last, asks]
    rintro ⟨⟩
    have answer := (logged.answered place shell program held).2 ⟨earlier, member, compiles⟩
    rw [uncompiled] at answer
    cases answer

end Requests

end Logged

/-! ### Steps on stored programs -/

/-- What asking the compiler leaves behind. -/
theorem Shell.state_of_uncompiled (queue : CommandQueue σ) {shell : Shell} (bench : Bench σ)
    (uncompiled : shell.compiled = none) :
    (Shell.program queue (shell, bench)).2 =
      ({ shell with compiled := (queue.compile shell.request bench.backend).1.toOption },
        { bench with backend := (queue.compile shell.request bench.backend).2 }.record
          .programCompile) := by
  rcases outcome : queue.compile shell.request bench.backend with ⟨result, backend⟩
  cases result with
  | ok program =>
      simp only [Shell.program, uncompiled, outcome]
      rfl
  | error cause =>
      have same : { shell with compiled := none } = shell := by rw [← uncompiled]
      simp only [Shell.program, uncompiled, outcome, Except.toOption, same]

/-- The shells of stored sets, each in its place. -/
def shelf (store : ProgramKey → Option ProgramSet) (place : ProgramKey × Slot) : Option Shell :=
  (store place.1).map fun set => set.shell place.2

/-- What is stored, with another set under one key. -/
def stock (store : ProgramKey → Option ProgramSet) (key : ProgramKey) (set : ProgramSet)
    (other : ProgramKey) : Option ProgramSet :=
  if key = other then some set else store other

variable {store : ProgramKey → Option ProgramSet} {key : ProgramKey} {set : ProgramSet}
  {slot : Slot}

theorem shelf_stock_self : shelf (stock store key set) (key, slot) = some (set.shell slot) := by
  simp only [shelf, stock, ↓reduceIte, Option.map_some]

theorem shelf_stock_putShell (shell : Shell) :
    shelf (stock store key (set.putShell slot shell)) =
      Function.update (shelf (stock store key set)) (key, slot) (some shell) := by
  funext place
  obtain ⟨other, otherSlot⟩ := place
  by_cases here : (other, otherSlot) = (key, slot)
  · cases here
    rw [shelf_stock_self, Function.update_self, ProgramSet.shell_putShell, if_pos rfl]
  · rw [Function.update_of_ne here]
    by_cases sameKey : key = other
    · subst sameKey
      have otherwise : slot ≠ otherSlot := fun same => here (Prod.ext rfl same.symm)
      rw [shelf_stock_self, shelf_stock_self, ProgramSet.shell_putShell, if_neg otherwise]
    · simp only [shelf, stock, sameKey, ↓reduceIte]

/-- The condition that what is stored beside a set, and the set under its key, agree with
the log. -/
def LoggedBeside (queue : CommandQueue σ) (store : ProgramKey → Option ProgramSet)
    (key : ProgramKey) (state : ProgramSet × Bench (Recorded σ)) : Prop :=
  Logged queue (shelf (stock store key state.1)) state.2.backend.log

namespace ProgramSet

theorem program_keeps_log (slot : Slot) :
    Action.Keeps (LoggedBeside queue store key) (program queue.recorded slot) := by
  rintro ⟨set, bench⟩ logged
  have answer : (program queue.recorded slot (set, bench)).2 =
      (set.putShell slot (Shell.program queue.recorded (set.shell slot, bench)).2.1,
        (Shell.program queue.recorded (set.shell slot, bench)).2.2) := rfl
  rw [answer]
  unfold LoggedBeside at logged ⊢
  rw [shelf_stock_putShell]
  cases held : (set.shell slot).compiled with
  | some kept =>
      have unchanged : (Shell.program queue.recorded (set.shell slot, bench)).2 =
          (set.shell slot, bench) := by
        simp only [Shell.program, held]
      rw [unchanged, ← shelf_stock_self, Function.update_eq_self]
      exact logged
  | none =>
      rw [Shell.state_of_uncompiled queue.recorded bench held]
      have asks : (BackendEvent.mk (.compile (set.shell slot).request) bench.backend.backend).call =
        .compile (set.shell slot).request := rfl
      exact logged.concat_request shelf_stock_self held asks

theorem compileAll_keeps_log :
    Action.Keeps (LoggedBeside queue store key) (compileAll queue.recorded) :=
  keeps_compileAll program_keeps_log

end ProgramSet

end KernelTuner
