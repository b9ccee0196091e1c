import KernelTuner.Json.Decode
import KernelTuner.Predictor.Basic
import KernelTuner.Predictor.Tree

/-!
Contract: forests of regression trees.

Owns: the forest type, its reading from a description, and prediction as the mean
over all trees in binary32 arithmetic, added up in tree order.
-/

set_option autoImplicit false

namespace KernelTuner

/-- Trees that predict the same number of costs. -/
structure Forest where
  trees : List RegressionTree
  outputs : Nat

namespace Forest

/-- The first tree, at `position` or later, whose width is not `outputs`. -/
def misfit? (outputs : Nat) (position : Nat) : List RegressionTree → Option (Nat × Nat)
  | [] => none
  | tree :: rest =>
      if tree.outputs = outputs then misfit? outputs (position + 1) rest
      else some (position, tree.outputs)

def ofTrees : List RegressionTree → Except Error Forest
  | [] => refuse .noTrees
  | first :: rest =>
      match misfit? first.outputs 1 rest with
      | some (position, found) => refuse (.treeWidth position found first.outputs)
      | none => .ok ⟨first :: rest, first.outputs⟩

/-- The trees that descriptions stand for, from number `position` on. -/
def readTrees (position : Nat) : List TreeDescription → Except Error (List RegressionTree)
  | [] => .ok []
  | description :: rest =>
      match RegressionTree.ofDescription description with
      | .error cause => refuse (.tree position cause)
      | .ok tree => do return tree :: (← readTrees (position + 1) rest)

/-- Fields of a tree description read so far. -/
structure PartialTree where
  childrenLeft : Option (List Int) := none
  childrenRight : Option (List Int) := none
  threshold : Option (List Float) := none
  feature : Option (List Int) := none
  value : Option (List (List Float32)) := none

open Json in
def treeRecord : Record PartialTree where
  names := ["children_left", "children_right", "threshold", "feature", "value"]
  defaulted := []
  store := fun name field tree =>
    match name with
    | "children_left" => do return { tree with childrenLeft := some (← list integer field) }
    | "children_right" => do return { tree with childrenRight := some (← list integer field) }
    | "threshold" => do return { tree with threshold := some (← list float field) }
    | "feature" => do return { tree with feature := some (← list integer field) }
    | "value" => do return { tree with value := some (← list (list float32) field) }
    | _ => .ok tree

open Json in
def readTree : Decoder TreeDescription := fun value => do
  let tree ← treeRecord.read {} value
  return {
    childrenLeft := tree.childrenLeft.getD []
    childrenRight := tree.childrenRight.getD []
    threshold := tree.threshold.getD []
    feature := tree.feature.getD []
    value := tree.value.getD [] }

open Json in
def forestRecord : Record (List TreeDescription) where
  names := ["trees"]
  defaulted := []
  store := fun _ field _ => list readTree field

/-- The tree descriptions of a predictor entry. -/
def readDescription : Json.Decoder (List TreeDescription) := forestRecord.read []

/-- The forest that the predictor entry of a model description stands for. -/
def ofDescription (description : Json.Value) : Except Error Forest :=
  match readDescription description with
  | .error cause => refuse (.malformedPredictor cause)
  | .ok trees => do ofTrees (← readTrees 0 trees)

/-- Adds the costs of the trees to `sums`, in order. -/
def addCosts (shape : Shape) (sums : List Float32) (trees : List RegressionTree) :
    List Float32 :=
  trees.foldl (fun sums tree => List.zipWith (· + ·) sums (tree.predict shape)) sums

/-- The mean of the trees' costs. -/
def predict (forest : Forest) (shape : Shape) : List Float32 :=
  let count := (UInt64.ofNat forest.trees.length).toFloat32
  (addCosts shape (List.replicate forest.outputs 0.0) forest.trees).map (· / count)

def toPredictor (forest : Forest) : CostPredictor := ⟨forest.predict, forest.outputs⟩

end Forest

end KernelTuner
