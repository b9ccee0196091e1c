import KernelTuner.Shape

/-!
Contract: cost predictors and the choice of the cheapest cost.

Owns: the interface of a predictor and `firstMinimum?`, which a `NaN` never wins
and in which ties go to the lowest index.
-/

set_option autoImplicit false

namespace KernelTuner

/-- A predictor scores a number of variants for every shape. -/
structure CostPredictor where
  /-- Predicted cost per variant, in variant order. -/
  predict : Shape → List Float32
  /-- Number of variants that are scored. -/
  outputs : Nat

/-- The better of the best cost so far and the cost at `index`. -/
def keepCheaper (best : Option (Nat × Float32)) (index : Nat) (cost : Float32) :
    Option (Nat × Float32) :=
  if cost.isNaN then best
  else
    match best with
    | some (place, current) =>
        if current ≤ cost then some (place, current) else some (index, cost)
    | none => some (index, cost)

def firstMinimumFrom (index : Nat) (best : Option (Nat × Float32)) :
    List Float32 → Option (Nat × Float32)
  | [] => best
  | cost :: rest => firstMinimumFrom (index + 1) (keepCheaper best index cost) rest

/-- Index of the first smallest cost, if any cost is a number. -/
def firstMinimum? (costs : List Float32) : Option Nat :=
  (firstMinimumFrom 0 none costs).map Prod.fst

end KernelTuner
