import KernelTuner.Proofs.Model.Submitting
import KernelTuner.Proofs.Model.Transparency
import KernelTuner.Proofs.Model.Working
import KernelTuner.Proofs.Predictor.Cost

/-!
Contract: the choice of variants in the course of a history.

Owns: what calls come to; the overrides, which are the fastest variants of the last
tunings that succeeded; the rule by which a variant is chosen; and
`selection_follows_history`, by which every execution of any history follows it.
-/

set_option autoImplicit false

namespace KernelTuner

variable {σ : Type}

/-! ### Outcomes -/

/-- What a call on a selection model comes to. -/
inductive Outcome where
  | executed (result : Except Error Selection)
  | tuned (result : Except Error TuneReport)

namespace Outcome

/-- The report of a tuning that has succeeded. -/
def report? : Outcome → Option TuneReport
  | tuned (.ok report) => some report
  | _ => none

/-- What the last successful tuning of a shape has found to be the fastest. -/
def lastBest? (shape : Shape) (outcomes : List Outcome) : Option Nat :=
  ((outcomes.filterMap report?).reverse.find? fun report => report.shape = shape).map
    TuneReport.best

variable {shape : Shape} {outcomes : List Outcome} {outcome : Outcome}

theorem lastBest?_of_unreported (unreported : outcome.report? = none) :
    lastBest? shape (outcomes ++ [outcome]) = lastBest? shape outcomes := by
  simp [lastBest?, List.filterMap_append, unreported]

theorem lastBest?_of_reported {report : TuneReport} (reported : outcome.report? = some report) :
    lastBest? shape (outcomes ++ [outcome]) =
      if report.shape = shape then some report.best else lastBest? shape outcomes := by
  have newest : (outcomes ++ [outcome]).filterMap report? =
      outcomes.filterMap report? ++ [report] := by
    simp [List.filterMap_append, reported]
  rw [lastBest?, newest, List.reverse_append, List.reverse_singleton, List.singleton_append,
    List.find?_cons]
  by_cases same : report.shape = shape
  · simp [same]
  · simp [same, lastBest?]

end Outcome

/-- What a call comes to. -/
def Call.outcome (call : Call) (run : ModelRun σ) : Outcome :=
  match call with
  | execute batch bypassPredictor force => .executed (Model.execute batch bypassPredictor force run).1
  | tune batch => .tuned (Model.tune batch run).1

/-- The states that calls lead to from `start`, with what the calls have come to. Between
two calls the backend moves as `drift` allows. -/
inductive Recounts (drift : σ → σ → Prop) (start : ModelRun σ) :
    List Outcome → ModelRun σ → Prop where
  | start : Recounts drift start [] start
  | call {outcomes : List Outcome} {run : ModelRun σ} (recounted : Recounts drift start outcomes run)
      (call : Call) : Recounts drift start (outcomes ++ [call.outcome run]) (call.perform run)
  | drift {outcomes : List Outcome} {run : ModelRun σ} (recounted : Recounts drift start outcomes run)
      {bench : Bench σ} (moved : drift run.bench.backend bench.backend) :
      Recounts drift start outcomes { run with bench }

/-! ### Overrides -/

/-- How a call ends for the setup of the model: a report becomes an override, and
whatever else the call comes to changes nothing. -/
theorem Call.setup_perform (call : Call) (run : ModelRun σ) :
    (call.outcome run).report? = none ∧ (call.perform run).model.setup = run.model.setup ∨
      ∃ report, (call.outcome run).report? = some report ∧
        (call.perform run).model.setup =
          run.model.setup.withOverride report.shape report.best ∧
        report.durations.length = run.model.variants.length ∧
        report.best = Model.fastest report.durations := by
  cases call with
  | execute batch bypassPredictor force =>
      exact .inl ⟨rfl, Model.execute_keeps_setup batch bypassPredictor force run rfl⟩
  | tune batch =>
      rcases (Model.tune_ends batch run).cases with
        ⟨report, after, succeeded, ends⟩ | ⟨cause, after, failed, ends⟩
      · refine .inr ⟨report, ?_, ?_⟩
        · simp only [outcome, succeeded, Outcome.report?]
        · simpa only [perform, succeeded] using ends
      · refine .inl ⟨?_, ?_⟩
        · simp only [outcome, failed, Outcome.report?]
        · simpa only [perform, failed] using ends

/-- A model that has been set up as `model` and has come to `outcomes` since. -/
structure Remembers (model : Model σ) (outcomes : List Outcome) (run : ModelRun σ) : Prop where
  variants : run.model.variants = model.variants
  predictor : run.model.predictor = model.predictor
  overrides : ∀ shape, run.model.overrides.get? shape = Outcome.lastBest? shape outcomes
  inRange : ∀ shape place, run.model.overrides.get? shape = some place →
    place < model.variants.length

namespace Remembers

variable {model : Model σ} {outcomes : List Outcome} {run : ModelRun σ}

theorem initial {variants : List Variant} {predictor : Option CostPredictor}
    {queue : CommandQueue σ} (created : Model.create variants predictor queue = .ok model)
    (bench : Bench σ) : Remembers model [] ⟨model, bench⟩ := by
  obtain ⟨_, rfl⟩ := Model.eq_of_create created
  exact ⟨rfl, rfl, fun _ => rfl, nofun⟩

theorem call (remembers : Remembers model outcomes run) (nonempty : 0 < model.variants.length)
    (call : Call) : Remembers model (outcomes ++ [call.outcome run]) (call.perform run) := by
  rcases call.setup_perform run with
    ⟨unreported, same⟩ | ⟨report, reported, changed, counted, best⟩
  · obtain ⟨variants, predictor, _, overrides⟩ := Model.of_setup same
    have overrides : (call.perform run).model.overrides = run.model.overrides := overrides
    refine ⟨variants.trans remembers.variants, predictor.trans remembers.predictor, ?_, ?_⟩
    · intro shape
      rw [overrides, Outcome.lastBest?_of_unreported unreported, remembers.overrides]
    · rw [overrides]
      exact remembers.inRange
  · obtain ⟨variants, predictor, _, overrides⟩ := Model.of_setup changed
    have overrides : (call.perform run).model.overrides =
        run.model.overrides.insert report.shape report.best := overrides
    have bestInside : report.best < model.variants.length := by
      rw [remembers.variants] at counted
      rw [← counted] at nonempty ⊢
      rw [best]
      exact Model.fastest_lt nonempty
    refine ⟨variants.trans remembers.variants, predictor.trans remembers.predictor, ?_, ?_⟩
    · intro shape
      rw [overrides, Table.get?_insert, Outcome.lastBest?_of_reported reported,
        remembers.overrides]
    · intro shape place found
      rw [overrides, Table.get?_insert] at found
      split at found
      · cases found
        exact bestInside
      · exact remembers.inRange shape place found

theorem of_recounts {drift : σ → σ → Prop} {start : ModelRun σ}
    (nonempty : 0 < model.variants.length) (initial : Remembers model [] start)
    (recounted : Recounts drift start outcomes run) : Remembers model outcomes run := by
  induction recounted with
  | start => exact initial
  | call _ call inductionHypothesis => exact inductionHypothesis.call nonempty call
  | drift _ _ inductionHypothesis =>
      exact ⟨inductionHypothesis.variants, inductionHypothesis.predictor,
        inductionHypothesis.overrides, inductionHypothesis.inRange⟩

end Remembers

/-! ### Choices -/

/-- The variant for a shape, where `recorded` is its override: the override if there is
one, else the cheapest by prediction, unless nothing is or can be predicted. -/
inductive Chooses (predictor : Option CostPredictor) (recorded : Option Nat)
    (bypassPredictor : Bool) (shape : Shape) : Selection → Prop where
  | override {variant : Nat} (found : recorded = some variant) :
      Chooses predictor recorded bypassPredictor shape ⟨variant, .override⟩
  | unasked (unrecorded : recorded = none)
      (unpredicted : bypassPredictor = true ∨ predictor = none) :
      Chooses predictor recorded bypassPredictor shape ⟨0, .baseline⟩
  | predicted {scorer : CostPredictor} {place : Nat} (unrecorded : recorded = none)
      (asked : bypassPredictor = false) (scores : predictor = some scorer)
      (cheapest : IsLeast {place | Cheapest (scorer.predict shape) place} place) :
      Chooses predictor recorded bypassPredictor shape ⟨place, .predicted⟩
  | numberless {scorer : CostPredictor} (unrecorded : recorded = none)
      (asked : bypassPredictor = false) (scores : predictor = some scorer)
      (numberless : ∀ cost ∈ scorer.predict shape, cost.isNaN = true) :
      Chooses predictor recorded bypassPredictor shape ⟨0, .baseline⟩

theorem Model.select_chooses {model : Model σ} {shape : Shape} {bypassPredictor : Bool}
    {selection : Selection} (selected : model.select shape bypassPredictor = .ok selection) :
    Chooses model.predictor (model.overrides.get? shape) bypassPredictor shape selection := by
  unfold select overrideFor? at selected
  cases recorded : model.overrides.get? shape with
  | some variant =>
      rw [recorded] at selected
      cases selected
      exact .override rfl
  | none =>
      rw [recorded] at selected
      cases scores : model.predictor with
      | none =>
          rw [scores] at selected
          cases selected
          exact .unasked rfl (.inr rfl)
      | some scorer =>
          rw [scores] at selected
          cases bypassPredictor with
          | true =>
              cases selected
              exact .unasked rfl (.inl rfl)
          | false =>
              simp only [Bool.false_eq_true, ↓reduceIte, selectPredicted] at selected
              split at selected
              · simp at selected
              · split at selected
                · next place found =>
                    cases selected
                    exact .predicted rfl rfl rfl (firstMinimum?_eq_some_iff.1 found)
                · next nothing =>
                    cases selected
                    exact .numberless rfl rfl rfl (firstMinimum?_eq_none_iff.1 nothing)

/-- What holds of a model of `variants` that has come to `outcomes` so far. -/
structure FollowsHistory (variants : List Variant) (predictor : Option CostPredictor)
    (outcomes : List Outcome) (run : ModelRun σ) : Prop where
  /-- The override of a shape is what the last successful tuning of it has reported. -/
  overrides : ∀ shape, run.model.overrides.get? shape = Outcome.lastBest? shape outcomes
  inRange : ∀ shape place, run.model.overrides.get? shape = some place → place < variants.length
  /-- Only a tuning that succeeds changes the overrides. -/
  unchanged : ∀ call : Call, (call.outcome run).report? = none →
    (call.perform run).model.overrides = run.model.overrides
  /-- An execution chooses by the sizes that the first variant sees. -/
  chooses : ∀ batch bypassPredictor force selection after,
    Model.execute batch bypassPredictor force run = (.ok selection, after) →
      ∃ baseline shape, variants[0]? = some baseline ∧ baseline.sizes batch = .ok shape ∧
        Chooses predictor (Outcome.lastBest? shape outcomes) bypassPredictor shape selection
  /-- An execution submits the launches of the variant that it returns. -/
  submits : ∀ batch bypassPredictor force selection after,
    Model.execute batch bypassPredictor force run = (.ok selection, after) →
      ∃ variant plan program, variants[selection.variant]? = some variant ∧
        variant.plan selection.variant batch = .ok plan ∧
        (Call.execute batch bypassPredictor force).submissions run =
          plan.launches.map (Model.launchOf program selection.variant) ∧
        ∀ launch ∈ (Call.execute batch bypassPredictor force).submissions run,
          launch.variant = selection.variant

/-- After any history of calls, successful or not, the overrides are what the last
successful tunings have reported, and executions choose by them. -/
theorem selection_follows_history {variants : List Variant} {predictor : Option CostPredictor}
    {queue : CommandQueue σ} {model : Model σ} {bench : Bench σ} {drift : σ → σ → Prop}
    {outcomes : List Outcome} {run : ModelRun σ}
    (created : Model.create variants predictor queue = .ok model)
    (recounted : Recounts drift ⟨model, bench⟩ outcomes run) :
    FollowsHistory variants predictor outcomes run := by
  have initial := Remembers.initial created bench
  obtain ⟨nonempty, rfl⟩ := Model.eq_of_create created
  have remembers := initial.of_recounts nonempty recounted
  refine ⟨remembers.overrides, remembers.inRange, ?_, ?_, ?_⟩
  · intro call unreported
    rcases call.setup_perform run with ⟨_, same⟩ | ⟨report, reported, _⟩
    · exact (Model.of_setup same).2.2.2
    · rw [unreported] at reported
      cases reported
  · intro batch bypassPredictor force selection after executed
    obtain ⟨_, key, obtained, baseline, shape, obtains, first, sized, selected, _⟩ :=
      Model.execute_succeeds_iff.1 executed
    obtain ⟨sameVariants, _⟩ := Model.of_setup (Model.setup_of_obtained obtains)
    have ofVariants : obtained.model.variants = variants :=
      sameVariants.trans remembers.variants
    have chooses := Model.select_chooses selected
    rw [remembers.predictor, remembers.overrides] at chooses
    rw [ofVariants] at first
    exact ⟨baseline, shape, first, sized, chooses⟩
  · intro batch bypassPredictor force selection after executed
    obtain ⟨variant, plan, program, chosen, planned, submitted⟩ :=
      Call.submissions_of_executed executed
    rw [remembers.variants] at chosen
    refine ⟨variant, plan, program, chosen, planned, submitted, ?_⟩
    intro launch member
    rw [submitted] at member
    obtain ⟨_, _, rfl⟩ := List.mem_map.1 member
    rfl

/-- A model of inner products that has been tuned and has then executed. -/
theorem folding_follows_history :
    Model.create [.folding] none (Platform.single.commandQueue ⟨1⟩) =
        .ok (.single .folding (Platform.single.commandQueue ⟨1⟩)) ∧
      FollowsHistory [.folding] none
        [(Call.tune (.dot .f32)).outcome .folding,
          (Call.execute (.dot .f32) true true).outcome ((Call.tune (.dot .f32)).perform .folding)]
        ((Call.execute (.dot .f32) true true).perform
          ((Call.tune (.dot .f32)).perform .folding)) := by
  have recounted : Recounts (fun _ _ => False) .folding _ _ :=
    .call (.call .start (.tune (.dot .f32))) (.execute (.dot .f32) true true)
  exact ⟨folding_created, selection_follows_history folding_created recounted⟩

end KernelTuner
