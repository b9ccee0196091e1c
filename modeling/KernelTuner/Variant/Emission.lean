import KernelTuner.Kernel.Text

/-!
Contract: what a variant contributes to a program set.

Owns: the kernels per slot. Every variant has kernels for the primary slot; only
some have kernels for the fallback slot.
-/

set_option autoImplicit false

namespace KernelTuner

/-- Kernels of one variant for one batch. -/
structure Emission where
  primary : List Kernel
  fallback : Option (List Kernel) := none

namespace Emission

def primaryText (emission : Emission) : String := Kernel.fragmentText emission.primary

/-- Source for the fallback slot; empty when there is none. -/
def fallbackText (emission : Emission) : String :=
  match emission.fallback with
  | some kernels => Kernel.fragmentText kernels
  | none => ""

/-- Sources in slot order. -/
def texts (emission : Emission) : List String :=
  emission.primaryText :: (emission.fallback.map Kernel.fragmentText).toList

end Emission

end KernelTuner
