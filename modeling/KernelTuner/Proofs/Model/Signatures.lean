import KernelTuner.Proofs.Model.Serving
import KernelTuner.Proofs.Model.Succeeding
import KernelTuner.Proofs.Variant.Signatures

/-!
Contract: the signatures of the kernels that submitted launches run.

Owns: `submissions_meet_signatures_iff`, by which every launch that an execution submits has
an argument of the right kind for each parameter of the kernel that it names, and which
launches meet the element types of these parameters.
-/

set_option autoImplicit false

namespace KernelTuner

variable {σ : Type} {queue : CommandQueue σ} {variants : List Variant}

/-- The launch that serves a batch is passed to its kernel as its variant passes it. -/
theorem Serving.passes {source batch : Batch} {launch : Launch} {variant : Variant}
    {plan : LaunchPlan} {planned : PlannedLaunch} {emission : Emission}
    {fragments : List (List Kernel)} {name : Fingerprint}
    (serving : Serving queue variants source batch launch variant plan planned emission fragments)
    (sized : variant.Sized) (grouped : variant.Grouped) (named : batch.programName = .ok name)
    (sourceNamed : source.programName = .ok name) :
    ∃ kernel, launch.Runs queue fragments kernel ∧
      List.Forall₂ Argument.Fits launch.arguments kernel.parameters ∧
      (List.Forall₂ (Argument.Meets batch plan.groups) launch.arguments kernel.parameters ↔
        variant.IsElementWise ∨
          ∀ argument ∈ launch.arguments, argument.OfType batch source.elementType) := by
  have passes := Variant.plan_passes sized grouped sourceNamed named serving.emission_eq
    serving.plan_eq
  obtain ⟨place, found⟩ := List.mem_iff_getElem?.1 serving.planned_mem
  obtain ⟨inside, rfl⟩ := List.getElem?_eq_some_iff.1 found
  have within : place < (emission.kernels plan.slot).length := passes.length_eq ▸ inside
  have own := passes.get inside within
  have sameArguments : launch.arguments = plan.launches[place].arguments :=
    congrArg Launch.arguments serving.launch_eq
  rw [sameArguments]
  exact ⟨_, serving.runs (List.get_mem _ _) own.name, own.fits, own.meets_iff⟩

/-- Every launch that an execution submits names one kernel in the source of its program,
and has an argument of the right kind for each of its parameters. The arguments meet the
element types of these parameters when the variant is element-wise, and otherwise exactly
when all buffers that are passed, and the elements that the workspace has room for, are of
the element type that the batch says it is of from which the program was emitted. -/
theorem submissions_meet_signatures_iff {predictor : Option CostPredictor} {model : Model σ}
    {bench : Bench σ} {drift : σ → σ → Prop} {calls : List Call} {run : ModelRun σ}
    {batch : Batch} {bypassPredictor force : Bool} {launch : Launch}
    (accepted : ∀ variant ∈ variants,
      ∃ operation profile, Variant.ofProfile operation profile = .ok variant)
    (created : Model.create variants predictor queue = .ok model)
    (reached : Reaches drift ⟨model, bench⟩ calls run)
    (submitted : launch ∈ (Call.execute batch bypassPredictor force).submissions run) :
    ∃ name variant plan fragments kernel,
      batch.programName = .ok name ∧ variants[launch.variant]? = some variant ∧
        variant.plan launch.variant batch = .ok plan ∧
        launch.Runs queue fragments kernel ∧
        List.Forall₂ Argument.Fits launch.arguments kernel.parameters ∧
        (List.Forall₂ (Argument.Meets batch plan.groups) launch.arguments kernel.parameters ↔
          variant.IsElementWise ∨ ∀ argument ∈ launch.arguments, argument.OfType batch
            (answering queue variants name (calls.map Call.batch) batch).elementType) := by
  obtain ⟨name, source, variant, plan, planned, emission, fragments, named, sourceNamed, answers,
    serving⟩ := serving_of_submitted created reached submitted
  obtain ⟨operation, profile, fromProfile⟩ :=
    accepted variant (List.mem_of_getElem? serving.chosen)
  obtain ⟨kernel, runs, fits, meets_iff⟩ := serving.passes (Variant.ofProfile_sized fromProfile)
    (Variant.ofProfile_grouped fromProfile) named sourceNamed
  subst answers
  exact ⟨name, variant, plan, fragments, kernel, named, serving.chosen, serving.plan_eq, runs,
    fits, meets_iff⟩

/-! ### Inner products of two element types -/

theorem folding_accepted :
    ∀ variant ∈ [Variant.folding],
      ∃ operation profile, Variant.ofProfile operation profile = .ok variant :=
  List.forall_mem_singleton.2 ⟨.reduction, [1, 64, 16, 1], rfl⟩

/-- All buffers of the inner product are of single precision, whatever it says it is of. -/
theorem Batch.dot_holds {elementType : ElementType} {handle : Buffer}
    (holds : (dot elementType).Holds handle) : handle.elementType = .f32 := by
  rcases holds_of_assignment holds with rfl | first | second
  · rfl
  · rw [← Operand.buffer.inj first]
  · rw [← Operand.buffer.inj second]

theorem Batch.dot_bufferOf (elementType : ElementType) :
    (dot elementType).BufferOf ⟨1⟩ .f32 ∧ (dot elementType).BufferOf ⟨2⟩ .f32 := by
  have product := Nat.zero_lt_succ 1
  constructor
  · exact ⟨⟨⟨1⟩, .f32, .vector 8, ⟨1⟩⟩, ⟨_, List.mem_singleton.2 rfl, 0, product, .inl rfl⟩, rfl, rfl⟩
  · exact ⟨⟨⟨2⟩, .f32, .vector 8, ⟨1⟩⟩, ⟨_, List.mem_singleton.2 rfl, 0, product, .inr rfl⟩, rfl, rfl⟩

/-- An inner product submits its first pass, where no tuning has chosen a variant. -/
theorem Working.dot_submitted {run : ModelRun Platform} (elementType : ElementType)
    (working : Working (Platform.single.commandQueue ⟨1⟩) [.folding] run)
    (untuned : run.model.setup = ModelRun.folding.model.setup) :
    ∃ launch ∈ (Call.execute (.dot elementType) false false).submissions run,
      ∃ length bytes, launch.arguments =
        [.size length, .buffer ⟨1⟩, .buffer ⟨2⟩, .workspace 0 bytes] := by
  have selected (shape : Shape) : run.model.select shape false = .ok ⟨0, .baseline⟩ :=
    congrArg (fun setup => setup.select shape false) untuned
  obtain ⟨after, executed⟩ := working.executes_dot elementType selected rfl
  obtain ⟨variant, plan, program, chosen, planned, submitted⟩ :=
    Call.submissions_of_executed executed
  rw [working.ofVariants] at chosen
  cases chosen
  cases planned
  rw [submitted]
  exact ⟨_, List.mem_cons_self, _, _, rfl⟩

/-- An inner product of single precision meets the signatures of its kernels, also when its
programs have been built for an earlier one. -/
theorem dot_meets_signatures :
    (∀ variant ∈ [Variant.folding],
        ∃ operation profile, Variant.ofProfile operation profile = .ok variant) ∧
      ∃ launch ∈ (Call.execute (.dot .f32) false false).submissions
          ((Call.execute (.dot .f32) false false).perform .folding),
        ∃ (plan : LaunchPlan) (fragments : List (List Kernel)) (kernel : Kernel),
          Variant.folding.plan launch.variant (.dot .f32) = .ok plan ∧
            launch.Runs (Platform.single.commandQueue ⟨1⟩) fragments kernel ∧
            List.Forall₂ (Argument.Meets (.dot .f32) plan.groups) launch.arguments
              kernel.parameters := by
  have reached : Reaches (Platform.Accepting ⟨1⟩) .folding [.execute (.dot .f32) false false]
      ((Call.execute (.dot .f32) false false).perform .folding) := .call .start _
  have nonempty : 0 < [Variant.folding].length := Nat.one_pos
  have working := (Working.initial folding_created folding_ready).of_reaches
    (Platform.single.commandQueue_onPlatform ⟨1⟩) nonempty reached
  have untuned : ((Call.execute (.dot .f32) false false).perform .folding).model.setup =
      ModelRun.folding.model.setup :=
    Call.setup_of_execute (.dot .f32) false false .folding
  obtain ⟨launch, submitted, length, bytes, arguments⟩ := working.dot_submitted .f32 untuned
  obtain ⟨name, variant, plan, fragments, kernel, named, chosen, planned, runs, _, meets_iff⟩ :=
    submissions_meet_signatures_iff folding_accepted folding_created reached submitted
  obtain rfl : variant = .folding := List.mem_singleton.1 (List.mem_of_getElem? chosen)
  rw [Batch.dot_programName] at named
  cases named
  have answer := dot_answering .f32
  refine ⟨folding_accepted, launch, submitted, plan, fragments, kernel, planned, runs, ?_⟩
  rw [meets_iff, arguments]
  simp only [List.map_cons, List.map_nil, Call.batch, answer]
  refine .inr (List.forall_mem_cons.2 ⟨trivial, List.forall_mem_cons.2 ⟨?_, ?_⟩⟩)
  · exact (Batch.dot_bufferOf .f32).1
  · exact List.forall_mem_cons.2 ⟨(Batch.dot_bufferOf .f32).2, List.forall_mem_singleton.2 rfl⟩

/-- An inner product that says it is of double precision is passed buffers of single
precision through pointers of double precision. -/
theorem dot_breaks_signature :
    (∀ variant ∈ [Variant.folding],
        ∃ operation profile, Variant.ofProfile operation profile = .ok variant) ∧
      ∃ launch ∈ (Call.execute (.dot .f64) false false).submissions .folding,
        ∃ (plan : LaunchPlan) (fragments : List (List Kernel)) (kernel : Kernel),
          Variant.folding.plan launch.variant (.dot .f64) = .ok plan ∧
            launch.Runs (Platform.single.commandQueue ⟨1⟩) fragments kernel ∧
            ¬ List.Forall₂ (Argument.Meets (.dot .f64) plan.groups) launch.arguments
              kernel.parameters := by
  have reached : Reaches (fun _ _ => False) ModelRun.folding [] .folding := .start
  have working : Working (Platform.single.commandQueue ⟨1⟩) [.folding] .folding :=
    .initial folding_created folding_ready
  obtain ⟨launch, submitted, length, bytes, arguments⟩ := working.dot_submitted .f64 rfl
  obtain ⟨name, source, variant, plan, planned, emission, fragments, named, sourceNamed, answers,
    serving⟩ := serving_of_submitted folding_created reached submitted
  obtain rfl : source = .dot .f64 := answers
  obtain rfl : variant = .folding := List.mem_singleton.1 (List.mem_of_getElem? serving.chosen)
  have accepted : Variant.ofProfile .reduction [1, 64, 16, 1] = .ok .folding := rfl
  obtain ⟨kernel, runs, _, meets_iff⟩ :=
    serving.passes (Variant.ofProfile_sized accepted) (Variant.ofProfile_grouped accepted) named
      sourceNamed
  refine ⟨folding_accepted, launch, submitted, plan, fragments, kernel, serving.plan_eq, runs, ?_⟩
  rw [meets_iff]
  rintro (elementWise | ofType)
  · exact elementWise
  · have passed : .buffer ⟨1⟩ ∈ launch.arguments := by
      rw [arguments]
      exact List.mem_cons_of_mem _ List.mem_cons_self
    obtain ⟨handle, holds, _, double⟩ := ofType _ passed
    rw [Batch.dot_holds holds] at double
    cases double

end KernelTuner
