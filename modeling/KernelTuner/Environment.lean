import KernelTuner.FileTree
import KernelTuner.Text.Blank

/-!
Contract: what the surroundings provide.

Owns: environment variables beside the files that can be read, and the variable
that names the model description of a device.
-/

set_option autoImplicit false

namespace KernelTuner

structure Environment where
  /-- Environment variables by name. -/
  values : Table String String := {}
  files : FileTree := {}

namespace Environment

/-- The variable that names the description for the device at `ordinal`. -/
def modelFileVariable (ordinal : Nat) : String := s!"AUTOKERN_MODEL_DEVICE_{ordinal}"

/-- The description path for the device at `ordinal`, without blanks at its ends.
An unset variable and a blank one both name none. -/
def modelFile? (environment : Environment) (ordinal : Nat) : Option String :=
  match environment.values.get? (modelFileVariable ordinal) with
  | none => none
  | some value =>
      let path := Text.trim value
      if path.isEmpty then none else some path

end Environment

end KernelTuner
