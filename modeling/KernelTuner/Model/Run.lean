import KernelTuner.Model.Basic

/-!
Contract: what a selection model does on its queue.

Owns: `execute`, which picks a variant for a batch and submits it, and `tune`,
which runs every variant on a batch in isolation and records the fastest one as
the override for the batch's shape. Both keep, on failure, whatever they have
built, compiled or submitted before it.
-/

set_option autoImplicit false

namespace KernelTuner

/-- A model and the bench that it runs on. -/
structure ModelRun (σ : Type) where
  model : Model σ
  bench : Bench σ

/-- Measurements of one tuning pass. -/
structure TuneReport where
  shape : Shape
  /-- Time per variant, in variant order. -/
  durations : List Nat
  /-- The variant recorded for the shape. -/
  best : Nat
deriving DecidableEq, Repr

namespace Model

variable {σ : Type}

/-- The program set of `batch`, built on first use, and the key it is stored under. -/
def obtainPrograms (batch : Batch) (force : Bool) : Action (ModelRun σ) ProgramKey := do
  let model ← Action.read ModelRun.model
  let fingerprint ← Action.ofExcept batch.programName
  let key : ProgramKey := (model.queue.context, fingerprint)
  let _ ← (ProgramCache.obtain key model.queue.device model.variants batch force).on
    (fun (run : ModelRun σ) => (run.model.programs, run.bench.profile))
    (fun run part => {
      model := { run.model with programs := part.1 }
      bench := { run.bench with profile := part.2 } })
  return key

/-- Runs a step on the program set stored under `key`. -/
def onPrograms {α : Type} (key : ProgramKey) (step : Action (ProgramSet × Bench σ) α) :
    Action (ModelRun σ) α :=
  (ProgramCache.onSet key step).on (fun run => (run.model.programs, run.bench))
    (fun run part => { model := { run.model with programs := part.1 }, bench := part.2 })

/-- A call of the backend. -/
def onBackend {α : Type} (call : σ → Except BackendError α × σ) : Action (ModelRun σ) α :=
  fun run =>
    let (result, backend) := call run.bench.backend
    (result.mapError Error.backend, { run with bench := { run.bench with backend } })

/-- The launch of variant number `variant` that a plan stands for. -/
def launchOf (program : Program) (variant : Nat) (planned : PlannedLaunch) : Launch where
  program := program
  kernel := planned.kernel
  globalSize := planned.globalSize
  localSize := planned.localSize
  arguments := planned.arguments
  variant := variant

/-- Submits launches in order, up to the first that is not accepted. -/
def submitAll (queue : CommandQueue σ) : List Launch → Action (ModelRun σ) Unit
  | [] => return ()
  | launch :: rest => do
      onBackend (queue.submit launch)
      submitAll queue rest

/-- Submits the kernels of variant number `index` without waiting for them. -/
def enqueue (key : ProgramKey) (index : Nat) (batch : Batch) : Action (ModelRun σ) Unit := do
  let model ← Action.read ModelRun.model
  let variant ← Action.ofExcept (model.variantAt index)
  let plan ← Action.ofExcept (variant.plan index batch)
  let program ← onPrograms key (ProgramSet.program model.queue plan.slot)
  submitAll model.queue (plan.launches.map (launchOf program index))

/-- The sizes of `batch` as the baseline variant sees them. -/
def shapeOf (batch : Batch) : Action (ModelRun σ) Shape := do
  let model ← Action.read ModelRun.model
  let baseline ← Action.ofExcept (model.variantAt 0)
  Action.ofExcept (baseline.sizes batch)

/-- Picks a variant for `batch` and submits it without waiting. -/
def execute (batch : Batch) (bypassPredictor force : Bool) : Action (ModelRun σ) Selection := do
  let model ← Action.read ModelRun.model
  Action.ofExcept (model.checkContext batch)
  let key ← obtainPrograms batch force
  let shape ← shapeOf batch
  let selection ← Action.ofExcept (model.select shape bypassPredictor)
  enqueue key selection.variant batch
  return selection

def finish : Action (ModelRun σ) Unit := do
  let model ← Action.read ModelRun.model
  onBackend model.queue.finish

def clock : Action (ModelRun σ) Nat :=
  Action.read fun run => run.model.queue.clock run.bench.backend

/-- Time from the submission of a variant to its completion. -/
def measure (key : ProgramKey) (index : Nat) (batch : Batch) : Action (ModelRun σ) Nat := do
  let started ← clock
  enqueue key index batch
  finish
  let stopped ← clock
  return stopped - started

/-- Times of `count` variants, the first of which has number `index`. -/
def measureFrom (key : ProgramKey) (batch : Batch) (index : Nat) :
    Nat → Action (ModelRun σ) (List Nat)
  | 0 => return []
  | count + 1 => do
      let duration ← measure key index batch
      let durations ← measureFrom key batch (index + 1) count
      return duration :: durations

/-- The better of the best time so far and the time at `index`. -/
def fastestFrom (index best bestTime : Nat) : List Nat → Nat
  | [] => best
  | time :: rest =>
      if time < bestTime then fastestFrom (index + 1) index time rest
      else fastestFrom (index + 1) best bestTime rest

/-- Index of the first shortest time. -/
def fastest : List Nat → Nat
  | [] => 0
  | time :: rest => fastestFrom 1 0 time rest

/-- Records the override of a shape. -/
def recordOverride (shape : Shape) (variant : Nat) : Action (ModelRun σ) Unit :=
  Action.change fun run =>
    { run with model := { run.model with
        overrides := run.model.overrides.insert shape variant } }

/-- Runs every variant on `batch` and records the fastest. All programs are compiled
before the first measurement. -/
def tune (batch : Batch) : Action (ModelRun σ) TuneReport :=
  let pass : Action (ModelRun σ) TuneReport := do
    let model ← Action.read ModelRun.model
    Action.ofExcept (model.checkContext batch)
    let key ← obtainPrograms batch false
    let shape ← shapeOf batch
    onPrograms key (ProgramSet.compileAll model.queue)
    finish
    let durations ← measureFrom key batch 0 model.variants.length
    let best := fastest durations
    recordOverride shape best
    return { shape, durations, best }
  pass.afterwards fun run => { run with bench := run.bench.record .tune }

end Model

end KernelTuner
