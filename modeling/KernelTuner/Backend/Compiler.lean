import KernelTuner.Backend.Basic
import KernelTuner.Backend.Source
import KernelTuner.Table

/-!
Contract: the reference compiler.

Owns: its artifacts, which are kept per context and source text, its list of
rejected markers and its counters. A program holds the entry points found in its
source and keeps the name of the request that built it.
-/

set_option autoImplicit false

namespace KernelTuner

structure Compiler where
  artifacts : Table (ContextId × String) Program := {}
  /-- Sources that contain one of these texts do not compile. -/
  rejected : List String := []
  /-- Number of compile calls. -/
  requests : Nat := 0
  /-- Number of programs that were built. -/
  compilations : Nat := 0

namespace Compiler

def reject (compiler : Compiler) (marker : String) : Compiler :=
  { compiler with rejected := compiler.rejected ++ [marker] }

/-- The artifact that serves a request as it stands. -/
def cached? (compiler : Compiler) (request : CompileRequest) : Option Program :=
  if request.force then none else compiler.artifacts.get? (request.context, request.source)

/-- Builds the source of a request and stores the artifact. -/
def build (owner : ContextId) (request : CompileRequest) (compiler : Compiler) :
    Except BackendError Program × Compiler :=
  match Source.rejection? compiler.rejected request.source with
  | some rejection => (.error (.compilation request.name rejection.log), compiler)
  | none =>
      let program : Program := {
        id := ⟨owner, compiler.compilations + 1⟩
        name := request.name
        kernels := Source.entries request.source }
      (.ok program, { compiler with
        artifacts := compiler.artifacts.insert (request.context, request.source) program
        compilations := compiler.compilations + 1 })

/-- Serves a request, as the compiler of the context `owner`. -/
def compile (owner : ContextId) (request : CompileRequest) (compiler : Compiler) :
    Except BackendError Program × Compiler :=
  let compiler := { compiler with requests := compiler.requests + 1 }
  match compiler.cached? request with
  | some program => (.ok program, compiler)
  | none => build owner request compiler

end Compiler

end KernelTuner
