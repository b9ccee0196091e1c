import KernelTuner.Action
import KernelTuner.Backend.Basic

/-!
Contract: program sources that are compiled when they are first needed.

Owns: the accumulation of source fragments and the compiled program, which later
uses share. A failed compilation leaves the shell uncompiled.
-/

set_option autoImplicit false

namespace KernelTuner

/-- A program that is compiled on first use. -/
structure Shell where
  context : ContextId
  name : String
  /-- Whether cached artifacts of the compiler are passed over. -/
  force : Bool
  source : String
  /-- Number of fragments behind the preamble. -/
  fragments : Nat := 0
  compiled : Option Program := none

namespace Shell

/-- Appends a fragment; an empty one does not count. -/
def add (shell : Shell) (fragment : String) : Shell :=
  if fragment.isEmpty then shell
  else { shell with source := shell.source ++ fragment, fragments := shell.fragments + 1 }

/-- Whether no fragment was added. -/
def isEmpty (shell : Shell) : Bool := shell.fragments = 0

def isCompiled (shell : Shell) : Bool := shell.compiled.isSome

def request (shell : Shell) : CompileRequest where
  context := shell.context
  name := shell.name
  source := shell.source
  force := shell.force

variable {σ : Type}

/-- The compiled program. Only an uncompiled shell asks the compiler. -/
def program (queue : CommandQueue σ) : Action (Shell × Bench σ) Program :=
  fun (shell, bench) =>
    match shell.compiled with
    | some program => (.ok program, shell, bench)
    | none =>
        let (result, backend) := queue.compile shell.request bench.backend
        let bench := { bench with backend }.record .programCompile
        match result with
        | .ok program => (.ok program, { shell with compiled := some program }, bench)
        | .error cause => (.error (.backend cause), shell, bench)

end Shell

end KernelTuner
