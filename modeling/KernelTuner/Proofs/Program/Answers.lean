import KernelTuner.Proofs.Backend.CompilerHistory
import KernelTuner.Proofs.Program.Cache

/-!
Contract: what a compiler answers about the programs of a set.

Owns: the answer about a shell, and what a whole set settles to, each with the compiler
that it leaves; and that neither depends on what has already been asked in vain.
-/

set_option autoImplicit false

namespace KernelTuner

/-! ### Compilers -/

namespace Compiler

variable (owner : ContextId) (request : CompileRequest) (compiler : Compiler)

/-- That a compiler has been asked before changes no answer of it. -/
theorem compile_asked : compile owner request compiler.asked =
    ((compile owner request compiler).1, (compile owner request compiler).2.asked) := by
  have sameCache : compiler.asked.cached? request = compiler.cached? request := rfl
  rw [compile_eq, compile_eq, sameCache]
  cases compiler.cached? request with
  | some program => rfl
  | none =>
      have sameMarkers : compiler.asked.asked.rejected = compiler.asked.rejected := rfl
      simp only [build, sameMarkers]
      cases Source.rejection? compiler.asked.rejected request.source <;> rfl

variable {owner request compiler}

/-- A request that fails leaves nothing but its count. -/
theorem compile_of_error {cause : BackendError}
    (failed : (compile owner request compiler).1 = .error cause) :
    (compile owner request compiler).2 = compiler.asked := by
  rcases compile_cases owner request compiler with
    ⟨program, -, answered⟩ | ⟨-, ⟨rejection, -, answered⟩ | ⟨-, answered⟩⟩
  · rw [answered]
  · rw [answered]
  · rw [answered] at failed
    cases failed

end Compiler

/-! ### Answers -/

/-- What asking the compiler of `home` for the program of a shell comes to, and the compiler
behind it. -/
def Shell.answer (home : ContextId) (compiler : Compiler) (shell : Shell) :
    Except BackendError Program × Compiler :=
  match shell.compiled with
  | some program => (.ok program, compiler)
  | none => compiler.compile home shell.request

namespace ProgramSet

/-- What asking for the programs of a set one by one comes to. -/
def answers (home : ContextId) (compiler : Compiler) (set : ProgramSet) (slot : Slot) :
    Except BackendError Program :=
  ((set.shell slot).answer home compiler).1

/-- Compiles the program of a slot if it holds kernels. -/
def settleSlot (home : ContextId) (slot : Slot) (state : ProgramSet × Compiler) :
    Except BackendError (ProgramSet × Compiler) :=
  if (state.1.shell slot).isEmpty then .ok state
  else
    match (state.1.shell slot).answer home state.2 with
    | (.ok program, compiler) =>
        .ok (state.1.putShell slot { state.1.shell slot with compiled := some program }, compiler)
    | (.error cause, _) => .error cause

/-- Compiles every program that holds kernels, the primary one first. -/
def settle (home : ContextId) (state : ProgramSet × Compiler) :
    Except BackendError (ProgramSet × Compiler) :=
  settleSlot home .primary state >>= settleSlot home .fallback

end ProgramSet

variable {home : ContextId} {compiler : Compiler} {shell : Shell}

theorem Shell.answer_of_compiled {program : Program} (held : shell.compiled = some program) :
    shell.answer home compiler = (.ok program, compiler) := by
  rw [answer, held]

theorem Shell.answer_of_uncompiled (fresh : shell.compiled = none) :
    shell.answer home compiler = compiler.compile home shell.request := by
  rw [answer, fresh]

theorem Shell.answer_asked :
    shell.answer home compiler.asked =
      ((shell.answer home compiler).1, (shell.answer home compiler).2.asked) := by
  cases held : shell.compiled with
  | some program => simp only [answer_of_compiled held]
  | none =>
      simp only [answer_of_uncompiled held]
      exact Compiler.compile_asked home shell.request compiler

/-- A shell that cannot be compiled leaves nothing but the count of its request. -/
theorem Shell.answer_of_error {cause : BackendError}
    (failed : (shell.answer home compiler).1 = .error cause) :
    (shell.answer home compiler).2 = compiler.asked := by
  cases held : shell.compiled with
  | some program =>
      rw [answer_of_compiled held] at failed
      cases failed
  | none =>
      rw [answer_of_uncompiled held] at failed ⊢
      exact Compiler.compile_of_error failed

namespace ProgramSet

variable {slot : Slot} {set reached : ProgramSet} {left : Compiler}

theorem putShell_shell (set : ProgramSet) (slot : Slot) : set.putShell slot (set.shell slot) = set := by
  cases slot <;> rfl

/-- A program that was handed out is handed out again. -/
theorem answers_of_answered {program : Program}
    (answered : (set.shell slot).answer home compiler = (.ok program, left)) :
    (set.putShell slot { set.shell slot with compiled := some program }).answers home left slot =
      set.answers home compiler slot := by
  rw [answers, shell_putShell, if_pos rfl, answers, answered]
  rfl

/-- A program that was refused is refused again. -/
theorem answers_of_refused {cause : BackendError}
    (refused : (set.shell slot).answer home compiler = (.error cause, left)) :
    set.answers home left slot = set.answers home compiler slot := by
  have asked : left = compiler.asked :=
    (congrArg Prod.snd refused).symm.trans (Shell.answer_of_error (congrArg Prod.fst refused))
  rw [asked, answers, Shell.answer_asked]
  rfl

/-- Nothing is left to do for the slot. -/
def Done (slot : Slot) (set : ProgramSet) : Prop :=
  (set.shell slot).isEmpty = false → ∃ program, (set.shell slot).compiled = some program

theorem settleSlot_of_done (done : set.Done slot) :
    settleSlot home slot (set, compiler) = .ok (set, compiler) := by
  unfold settleSlot
  split
  · rfl
  · next filled =>
      obtain ⟨program, held⟩ := done (eq_false_of_ne_true filled)
      have same : { set.shell slot with compiled := some program } = set.shell slot := by
        rw [← held]
      simp only [Shell.answer_of_compiled held, same, putShell_shell]

theorem settleSlot_of_answered {program : Program} (filled : (set.shell slot).isEmpty = false)
    (answered : (set.shell slot).answer home compiler = (.ok program, left)) :
    settleSlot home slot (set, compiler) =
      .ok (set.putShell slot { set.shell slot with compiled := some program }, left) := by
  unfold settleSlot
  rw [if_neg (ne_true_of_eq_false filled), answered]

/-- A slot that cannot be settled cannot be settled by a compiler that was asked before. -/
theorem settleSlot_of_refused {cause : BackendError} (filled : (set.shell slot).isEmpty = false)
    (refused : ((set.shell slot).answer home compiler).1 = .error cause) :
    settleSlot home slot (set, compiler) = .error cause ∧
      settleSlot home slot (set, compiler.asked) = .error cause := by
  unfold settleSlot
  rw [if_neg (ne_true_of_eq_false filled), if_neg (ne_true_of_eq_false filled), Shell.answer_asked]
  rcases answered : (set.shell slot).answer home compiler with ⟨result, left⟩
  rw [answered] at refused
  cases refused
  exact ⟨rfl, rfl⟩

/-- A set in which nothing is left to do is what it settles to. -/
theorem settle_of_done (primary : set.Done .primary) (fallback : set.Done .fallback) :
    settle home (set, compiler) = .ok (set, compiler) := by
  unfold settle
  rw [settleSlot_of_done primary]
  exact settleSlot_of_done fallback

end ProgramSet

end KernelTuner
