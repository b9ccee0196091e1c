import KernelTuner.ElementType
import KernelTuner.Model.Run
import KernelTuner.Variant.Profile

/-!
Contract: models as objects with an identity.

Owns: the store in which models live, keys of operation and element type, and maps
from keys to stored models. Several maps and callers may hold the same model; what
one of them does to it all others see.
-/

set_option autoImplicit false

namespace KernelTuner

/-- What a model serves. -/
structure ModelKey where
  operation : Operation
  elementType : ElementType
deriving DecidableEq, Repr

namespace ModelKey

/-- Keys are ordered by operation, then by element type. -/
def rank (key : ModelKey) : Nat :=
  key.operation.rank * ElementType.all.length + key.elementType.rank

def display (key : ModelKey) : String :=
  key.operation.display ++ "/" ++ key.elementType.kernelName

/-- Every pair of operation and element type. -/
def all : List ModelKey :=
  Operation.all.flatMap fun operation => ElementType.all.map (ModelKey.mk operation)

/-- Keys in ascending order. -/
def sort (keys : List ModelKey) : List ModelKey :=
  keys.mergeSort (fun left right => left.rank ≤ right.rank)

end ModelKey

/-- Identity of a stored model: its place in the store. -/
structure ModelId where
  place : Nat
deriving DecidableEq, Repr

/-- Models in order of creation. -/
structure ModelStore (σ : Type) where
  models : Array (Model σ) := #[]

namespace ModelStore

variable {σ α : Type}

def get? (store : ModelStore σ) (id : ModelId) : Option (Model σ) := store.models[id.place]?

/-- Stores a new model. -/
def add (store : ModelStore σ) (model : Model σ) : ModelStore σ × ModelId :=
  (⟨store.models.push model⟩, ⟨store.models.size⟩)

def put (store : ModelStore σ) (id : ModelId) (model : Model σ) : ModelStore σ :=
  ⟨store.models.setIfInBounds id.place model⟩

/-- Runs a step of a stored model. -/
def run (id : ModelId) (step : Action (ModelRun σ) α) :
    Action (ModelStore σ × Bench σ) α := fun (store, bench) =>
  match store.get? id with
  | none => (.error (.fault .indexOutOfRange), store, bench)
  | some model =>
      let (result, run) := step { model, bench }
      (result, store.put id run.model, run.bench)

end ModelStore

/-- Models by key. -/
structure ModelMap where
  entries : Table ModelKey ModelId := {}

namespace ModelMap

variable {σ : Type}

def get? (map : ModelMap) (key : ModelKey) : Option ModelId := map.entries.get? key

def size (map : ModelMap) : Nat := map.entries.size

/-- Entries in key order. -/
def sorted (map : ModelMap) : List (ModelKey × ModelId) :=
  map.entries.entries.mergeSort (fun left right => left.1.rank ≤ right.1.rank)

/-- Stores new models and enters them, each in place of what its key held. -/
def extend (store : ModelStore σ) (map : ModelMap) :
    List (ModelKey × Model σ) → ModelStore σ × ModelMap
  | [] => (store, map)
  | (key, model) :: rest =>
      let (store, id) := store.add model
      extend store ⟨map.entries.insert key id⟩ rest

/-- The built-in model of every key. -/
def baselineModels (queue : CommandQueue σ) : List (ModelKey × Model σ) :=
  ModelKey.all.map fun key => (key, Model.single (Variant.baseline key.operation) queue)

end ModelMap

end KernelTuner
