import KernelTuner.BuildOnce
import KernelTuner.Description
import KernelTuner.Environment

/-!
Contract: one complete model map per command queue.

Owns: the configured source of model descriptions and the lookup of maps and
models. The first lookup for a queue enters the built-in model of every key and
then imports the configured description. Later lookups share that map; a failed
build is repeated by the next lookup.
-/

set_option autoImplicit false

namespace KernelTuner

/-- Where a registry looks for the description of a queue's device. -/
inductive RegistryConfig where
  /-- The environment variable of the device, read whenever a map is built. -/
  | environment
  /-- This file, whatever the device. -/
  | file (path : String)
  /-- Nowhere: built-in models only. -/
  | disabled
deriving DecidableEq, Repr

/-- The description for the device at `ordinal`. -/
def RegistryConfig.modelFile? (config : RegistryConfig) (environment : Environment)
    (ordinal : Nat) : Option String :=
  match config with
  | .environment => environment.modelFile? ordinal
  | .file path => some path
  | .disabled => none

structure Registry where
  config : RegistryConfig
  maps : BuildOnce QueueId ModelMap := {}

namespace ModelMap

variable {σ : Type}

/-- Enters the models of the description file under `path`. -/
def importFile (environment : Environment) (queue : CommandQueue σ) (path : String) :
    Action (ModelStore σ × ModelMap) Nat := fun state =>
  match environment.files.readText path with
  | .error cause => (.error (.unreadable path cause), state)
  | .ok text => importText queue text state

end ModelMap

namespace Registry

variable {σ : Type}

/-- Number of queues with a built map. -/
def size (registry : Registry) : Nat := registry.maps.size

def isBuilt (registry : Registry) (queue : QueueId) : Bool := (registry.maps.get? queue).isSome

/-- The map of a queue: built-in models, then those of the configured description.
A failure leaves the store as it was. -/
def build (config : RegistryConfig) (environment : Environment) (queue : CommandQueue σ) :
    Action (ModelStore σ) ModelMap := fun store =>
  let (filled, map) := ModelMap.extend store {} (ModelMap.baselineModels queue)
  match config.modelFile? environment queue.device.ordinal with
  | none => (.ok map, filled)
  | some path =>
      match ModelMap.importFile environment queue path (filled, map) with
      | (.ok _, filled, map) => (.ok map, filled)
      | (.error cause, _) => (.error cause, store)

/-- State that a lookup acts on. -/
structure Lookup (σ : Type) where
  registry : Registry
  store : ModelStore σ
  profile : Profile

/-- The map of a queue, built on first use. -/
def modelMap (environment : Environment) (queue : CommandQueue σ) :
    Action (Lookup σ) ModelMap := fun lookup =>
  match BuildOnce.getOrTryBuild queue.id (build lookup.registry.config environment queue)
      (lookup.registry.maps, lookup.store) with
  | (.ok (map, hit), maps, store) =>
      (.ok map, {
        registry := { lookup.registry with maps }
        store
        profile := lookup.profile.record (if hit then .registryHit else .registryMiss) })
  | (.error cause, maps, store) =>
      (.error cause, { lookup with registry := { lookup.registry with maps }, store })

/-- The model of a queue for a key. -/
def model (environment : Environment) (queue : CommandQueue σ) (key : ModelKey) :
    Action (Lookup σ) ModelId := do
  let map ← modelMap environment queue
  match map.get? key with
  | some id => return id
  | none => Action.fail (.modelNotFound key.operation key.elementType)

end Registry

end KernelTuner
