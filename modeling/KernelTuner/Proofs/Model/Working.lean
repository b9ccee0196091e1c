import KernelTuner.Proofs.Model.Steps
import KernelTuner.Proofs.Program.Compiled

/-!
Contract: selection models on the reference platform between calls.

Owns: the condition `Working`, under which a model can execute any batch; that a new
model satisfies it; and `Working.of_reaches`, by which it does so after any history of
calls, whatever else is done with the platform as long as nobody makes the compiler
reject sources.
-/

set_option autoImplicit false

namespace KernelTuner

/-! ### Choices -/

theorem Model.fastestFrom_lt {times : List Nat} {index best bestTime limit : Nat}
    (bestInside : best < limit) (restInside : index + times.length ≤ limit) :
    Model.fastestFrom index best bestTime times < limit := by
  induction times generalizing index best bestTime with
  | nil => exact bestInside
  | cons time rest inductionHypothesis =>
      rw [List.length_cons] at restInside
      unfold fastestFrom
      split
      · exact inductionHypothesis (by omega) (by omega)
      · exact inductionHypothesis bestInside (by omega)

/-- The fastest of some durations is one of them. -/
theorem Model.fastest_lt {durations : List Nat} (some : 0 < durations.length) :
    Model.fastest durations < durations.length := by
  cases durations with
  | nil => exact some
  | cons time rest => exact fastestFrom_lt (Nat.succ_pos _) (by rw [List.length_cons]; omega)

theorem keepCheaper_lt {best : Option (Nat × Float32)} {index limit : Nat} {cost : Float32}
    (bestInside : ∀ kept ∈ best, kept.1 < limit) (inside : index < limit) :
    ∀ kept ∈ keepCheaper best index cost, kept.1 < limit := by
  unfold keepCheaper
  split
  · exact bestInside
  · split
    · next place current =>
        split
        · exact bestInside
        · rintro kept ⟨⟩
          exact inside
    · rintro kept ⟨⟩
      exact inside

theorem firstMinimumFrom_lt {costs : List Float32} {best : Option (Nat × Float32)}
    {index limit : Nat} (bestInside : ∀ kept ∈ best, kept.1 < limit)
    (restInside : index + costs.length ≤ limit) :
    ∀ kept ∈ firstMinimumFrom index best costs, kept.1 < limit := by
  induction costs generalizing index best with
  | nil => exact bestInside
  | cons cost rest inductionHypothesis =>
      rw [List.length_cons] at restInside
      refine inductionHypothesis (keepCheaper_lt bestInside ?_) ?_
      · omega
      · omega

theorem firstMinimum?_lt {costs : List Float32} {place : Nat}
    (found : firstMinimum? costs = some place) : place < costs.length := by
  obtain ⟨kept, first, rfl⟩ := Option.map_eq_some_iff.1 found
  have noBest : ∀ kept ∈ (none : Option (Nat × Float32)), kept.1 < costs.length := nofun
  exact firstMinimumFrom_lt noBest (Nat.le_of_eq (Nat.zero_add _)) kept first

/-! ### Between calls -/

/-- A model of `variants` that can execute on its queue: the queue works, all stored sets
are complete, and no override is out of range. -/
structure Working (queue : CommandQueue Platform) (variants : List Variant)
    (run : ModelRun Platform) : Prop where
  onQueue : run.model.queue = queue
  ofVariants : run.model.variants = variants
  ready : run.bench.Ready queue
  complete : ∀ key set, run.model.programs.get? key = some set → set.Complete variants
  inRange : ∀ shape place, run.model.overrides.get? shape = some place → place < variants.length

namespace Working

variable {queue : CommandQueue Platform} {variants : List Variant} {run : ModelRun Platform}

theorem initial {predictor : Option CostPredictor} {model : Model Platform}
    {bench : Bench Platform} (created : Model.create variants predictor queue = .ok model)
    (ready : bench.Ready queue) : Working queue variants ⟨model, bench⟩ := by
  obtain ⟨_, rfl⟩ := Model.eq_of_create created
  exact ⟨rfl, rfl, ready, nofun, nofun⟩

theorem onPrograms {α : Type} {step : Action (ProgramSet × Bench Platform) α}
    (kept : Action.Keeps (ProgramSet.Running queue variants) step) (key : ProgramKey) :
    Action.Keeps (Working queue variants) (Model.onPrograms key step) := by
  refine Model.onPrograms_keeps step fun run set reached working held stored => ?_
  obtain ⟨complete, ready⟩ :=
    kept (set, run.bench) ⟨working.complete key set held, working.ready⟩
  refine ⟨working.onQueue, working.ofVariants, ready, ?_, working.inRange⟩
  intro other found present
  have lookup : reached.get? other = some found := present
  rw [stored] at lookup
  split at lookup
  · cases lookup
    exact complete
  · exact working.complete other found lookup

theorem lasting (batch : Batch) (onPlatform : queue.OnPlatform) (nonempty : 0 < variants.length) :
    Lasting queue variants batch (Working queue variants) where
  onQueue := fun _ working => working.onQueue
  ofVariants := fun _ working => working.ofVariants
  program := fun key slot => onPrograms (ProgramSet.program_keeps onPlatform slot) key
  compileAll := fun key =>
    onPrograms (ProgramSet.keeps_compileAll (ProgramSet.program_keeps onPlatform)) key
  submit := by
    intro launch _ run working
    rw [onPlatform.submit]
    exact { working with ready := Platform.Ready.submit working.ready launch }
  finish := by
    intro run working
    rw [onPlatform.finish]
    exact { working with ready := Platform.Ready.finish working.ready }
  override := by
    intro shape durations length run working
    refine { working with inRange := ?_ }
    intro other place found
    have lookup : (run.model.overrides.insert shape (Model.fastest durations)).get? other =
      some place := found
    rw [Table.get?_insert] at lookup
    split at lookup
    · cases lookup
      rw [← length] at nonempty ⊢
      exact Model.fastest_lt nonempty
    · exact working.inRange other place lookup
  record := fun _ _ working => { working with ready := working.ready }

theorem obtainPrograms (working : Working queue variants run) (batch : Batch) (force : Bool) :
    Working queue variants (Model.obtainPrograms batch force run).2 := by
  obtain ⟨rfl, rfl, ready, complete, inRange⟩ := working
  have stillComplete : ∀ key set,
      (Model.obtainPrograms batch force run).2.model.programs.get? key = some set →
        set.Complete run.model.variants :=
    Model.stored_of_obtainPrograms (fun _ _ built => ProgramSet.build_complete built) complete
  rcases obtains : Model.obtainPrograms batch force run with ⟨result, obtained⟩
  rw [obtains] at stillComplete
  obtain ⟨sameVariants, _, sameQueue, sameOverrides⟩ :=
    Model.of_setup (Model.setup_of_obtained obtains)
  refine ⟨sameQueue, sameVariants, ?_, stillComplete, ?_⟩
  · show obtained.bench.backend.Ready _ _
    rw [Model.backend_of_obtained obtains]
    exact ready
  · show ∀ shape place, obtained.model.overrides.get? shape = some place → _
    rw [sameOverrides]
    exact inRange

/-- A model keeps working through any history of calls while the platform moves in
between, if no move makes the compiler of its context reject sources. -/
theorem of_reaches {start : ModelRun Platform} {calls : List Call}
    (onPlatform : queue.OnPlatform) (nonempty : 0 < variants.length)
    (initial : Working queue variants start)
    (reached : Reaches (Platform.Accepting queue.context) start calls run) :
    Working queue variants run := by
  induction reached with
  | start => exact initial
  | call _ call inductionHypothesis =>
      refine (lasting call.batch onPlatform nonempty).perform call inductionHypothesis.onQueue
        inductionHypothesis.ofVariants ?_ ?_
      · exact fun _ _ => inductionHypothesis
      · exact fun _ => inductionHypothesis.obtainPrograms call.batch call.force
  | drift _ moved inductionHypothesis =>
      have ready := Platform.Ready.step inductionHypothesis.ready moved.1 moved.2
      exact { inductionHypothesis with ready := ready }

end Working

end KernelTuner
