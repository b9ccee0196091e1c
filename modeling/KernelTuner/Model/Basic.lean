import KernelTuner.Predictor.Basic
import KernelTuner.Program.Cache

/-!
Contract: selection models.

Owns: the candidate variants of one operation on one queue, the check of a
predictor against them, the override table and the choice of a variant for a
shape. Variant zero is the baseline.
-/

set_option autoImplicit false

namespace KernelTuner

/-- Why a variant was picked. -/
inductive SelectionReason where
  /-- A tuned override exists for the exact shape. -/
  | override
  /-- No predictor was consulted, or none of its costs is a number. -/
  | baseline
  /-- Lowest predicted cost. -/
  | predicted
deriving DecidableEq, Repr

def SelectionReason.display : SelectionReason → String
  | override => "override"
  | baseline => "default"
  | predicted => "predicted"

structure Selection where
  variant : Nat
  reason : SelectionReason
deriving DecidableEq, Repr

/-- Candidate variants of one operation, bound to a queue. -/
structure Model (σ : Type) where
  variants : List Variant
  predictor : Option CostPredictor
  queue : CommandQueue σ
  /-- The tuned variant of a shape. -/
  overrides : Table Shape Nat := {}
  programs : ProgramCache := {}

namespace Model

variable {σ : Type}

/-- A model with several variants, or with one and no predictor. -/
def create (variants : List Variant) (predictor : Option CostPredictor)
    (queue : CommandQueue σ) : Except Error (Model σ) :=
  if variants.isEmpty then refuse .noVariants
  else
    match predictor with
    | none => .ok { variants, predictor, queue }
    | some scorer =>
        if variants.length = 1 then refuse .needlessPredictor
        else if scorer.outputs ≠ variants.length then
          refuse (.predictorWidth scorer.outputs variants.length)
        else .ok { variants, predictor, queue }

/-- The model that always runs `variant`. -/
def single (variant : Variant) (queue : CommandQueue σ) : Model σ :=
  { variants := [variant], predictor := none, queue }

def hasPredictor (model : Model σ) : Bool := model.predictor.isSome

/-- Number of program sets that the model has built. -/
def programBuilds (model : Model σ) : Nat := model.programs.builds

/-- The variant recorded for exactly this shape. -/
def overrideFor? (model : Model σ) (shape : Shape) : Option Nat := model.overrides.get? shape

def variantAt (model : Model σ) (index : Nat) : Except Error Variant :=
  match model.variants[index]? with
  | some variant => .ok variant
  | none => .error (.fault .indexOutOfRange)

/-- The cheapest variant by prediction, or the baseline when no cost is a number. -/
def selectPredicted (model : Model σ) (predictor : CostPredictor) (shape : Shape) :
    Except Error Selection :=
  let costs := predictor.predict shape
  if costs.length ≠ model.variants.length then
    refuse (.costCount costs.length model.variants.length)
  else
    match firstMinimum? costs with
    | some variant => .ok ⟨variant, .predicted⟩
    | none => .ok ⟨0, .baseline⟩

/-- The variant for a shape: its override, else the prediction unless it is
bypassed or there is no predictor, else the baseline. -/
def select (model : Model σ) (shape : Shape) (bypassPredictor : Bool) :
    Except Error Selection :=
  match model.overrideFor? shape with
  | some variant => .ok ⟨variant, .override⟩
  | none =>
      match model.predictor with
      | none => .ok ⟨0, .baseline⟩
      | some predictor =>
          if bypassPredictor then .ok ⟨0, .baseline⟩
          else model.selectPredicted predictor shape

/-- Batches of another context than the queue's are refused. -/
def checkContext (model : Model σ) (batch : Batch) : Except Error Unit :=
  if model.queue.context = batch.context then .ok ()
  else .error (.contextMismatch model.queue.context batch.context)

end Model

end KernelTuner
