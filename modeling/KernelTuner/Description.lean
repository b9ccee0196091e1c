import KernelTuner.Json.Parser
import KernelTuner.Model.Store
import KernelTuner.Predictor.Forest
import KernelTuner.Variant.Profile

/-!
Contract: model descriptions.

Owns: the reading of a description into models. A description is a JSON object
keyed by operation name, then by element type. Each leaf lists the profiles of its
variants and, when it lists more than one, the predictor that chooses among them.

All leaves are read before any model is entered into a map, so an import either
enters every leaf or changes nothing.
-/

set_option autoImplicit false

namespace KernelTuner

/-- A leaf of a description. -/
structure DescriptionEntry where
  profiles : List (List Int)
  predictor : Option Json.Value

namespace DescriptionEntry

/-- Fields of a leaf read so far. -/
structure Fields where
  profiles : Option (List (List Int)) := none
  predictor : Option Json.Value := none

open Json in
def record : Record Fields where
  names := ["profiles", "predictor"]
  defaulted := ["predictor"]
  store := fun name field entry =>
    match name with
    | "profiles" => do return { entry with profiles := some (← list (list integer) field) }
    | _ => do return { entry with predictor := ← optional field }

def read : Json.Decoder DescriptionEntry := fun value => do
  let fields ← record.read {} value
  return { profiles := fields.profiles.getD [], predictor := fields.predictor }

/-- The model that a leaf stands for. With one profile the predictor is not looked
at. -/
def model {σ : Type} (operation : Operation) (queue : CommandQueue σ)
    (entry : DescriptionEntry) : Except Error (Model σ) := do
  match ← entry.profiles.mapM (Variant.ofProfile operation) with
  | [] => refuse .noProfiles
  | [variant] => return Model.single variant queue
  | variants =>
      match entry.predictor with
      | none => refuse (.noPredictor variants.length)
      | some description => do
          let forest ← Forest.ofDescription description
          Model.create variants (some forest.toPredictor) queue

end DescriptionEntry

namespace Description

variable {σ : Type}

/-- Says in which entry an argument was refused. -/
def within {α : Type} (entry : String) : Except Error α → Except Error α
  | .error (.invalidArgument cause) => refuse (.inEntry entry cause)
  | result => result

/-- The model of one leaf. -/
def leaf (queue : CommandQueue σ) (operationName : String) (operation : Operation)
    (member : String × Json.Value) : Except Error (ModelKey × Model σ) :=
  match ElementType.ofDescriptionName? member.1 with
  | none => refuse (.unknownType operationName member.1)
  | some elementType => do
      let path := operationName ++ "/" ++ member.1
      let entry ←
        match DescriptionEntry.read member.2 with
        | .ok entry => pure entry
        | .error cause => refuse (.inEntry path (.malformedEntry cause))
      let model ← within path (entry.model operation queue)
      return (⟨operation, elementType⟩, model)

/-- The models of one operation. -/
def operationModels (queue : CommandQueue σ) (member : String × Json.Value) :
    Except Error (List (ModelKey × Model σ)) :=
  match Operation.ofDescriptionName? member.1 with
  | none => refuse (.unknownOperation member.1)
  | some operation =>
      match member.2 with
      | .object leaves => leaves.mapM (leaf queue member.1 operation)
      | _ => refuse (.notKeyedByType member.1)

/-- The models of a document. -/
def documentModels (queue : CommandQueue σ) : Json.Value → Except Error (List (ModelKey × Model σ))
  | .object operations => do return (← operations.mapM (operationModels queue)).flatten
  | _ => refuse .notKeyedByOperation

/-- The models that a description text stands for. -/
def models (queue : CommandQueue σ) (text : String) : Except Error (List (ModelKey × Model σ)) :=
  match Json.parse? text with
  | none => .error .malformedJson
  | some document => documentModels queue document

end Description

namespace ModelMap

variable {σ : Type}

/-- Stages the models of a description text by key, and enters them. Gives the number of those that
are staged. -/
def importText (queue : CommandQueue σ) (text : String) :
    Action (ModelStore σ × ModelMap) Nat := fun (store, map) =>
  match Description.models queue text with
  | .error cause => (.error cause, store, map)
  | .ok models =>
      let staged : Table ModelKey (Model σ) := Table.insertAll {} models
      (.ok staged.size, extend store map staged.entries)

end ModelMap

end KernelTuner
