import KernelTuner.Proofs.Backend.Platform
import KernelTuner.Proofs.Expression.PrefixNotation
import KernelTuner.Proofs.Model.Stock
import KernelTuner.Proofs.Variant.SharedKernels
import KernelTuner.Proofs.Variant.TypedKernels

/-!
Contract: whether it shows that programs are shared between batches.

Owns: `obtain_transparent_iff`, by which a stored set has the sources that a batch
would have been given on its own exactly when all variants are element-wise or the
batch that supplied the set has the element type of this one.
Does not own: the launches of the kernels.
-/

set_option autoImplicit false

namespace KernelTuner

/-! ### Two batches of one name -/

namespace Variant

variable {variant : Variant} {index : Nat} {left right : Batch}

/-- Batches of one name are given the same kernels by every variant that is element-wise,
and by all others if their element types agree. -/
theorem emit_eq_of_alike_types {leftEmission rightEmission : Emission}
    (sameTokens : left.tokens = right.tokens)
    (leftEmits : variant.emit index left = .ok leftEmission)
    (rightEmits : variant.emit index right = .ok rightEmission)
    (alike : variant.IsElementWise ∨ left.elementType = right.elementType) :
    leftEmission = rightEmission := by
  by_cases elementWise : variant.IsElementWise
  · exact emit_eq_of_tokens elementWise sameTokens leftEmits rightEmits
  · have sameType := alike.resolve_left elementWise
    rw [emit_typed elementWise leftEmits, emit_typed elementWise rightEmits, sameType]

end Variant

namespace ProgramSet

variable {variants : List Variant} {left right : Batch} {leftEmissions rightEmissions : List Emission}

theorem emissions_eq_of_alike_types (sameTokens : left.tokens = right.tokens) {index : Nat}
    (leftEmitted : emissionsFrom left index variants = .ok leftEmissions)
    (rightEmitted : emissionsFrom right index variants = .ok rightEmissions)
    (alike : (∀ variant ∈ variants, variant.IsElementWise) ∨ left.elementType = right.elementType) :
    leftEmissions = rightEmissions := by
  induction variants generalizing index leftEmissions rightEmissions with
  | nil =>
      cases leftEmitted
      cases rightEmitted
      rfl
  | cons variant rest inductionHypothesis =>
      obtain ⟨leftFirst, leftOthers, leftEmits, leftRest, rfl⟩ :=
        emissionsFrom_cons_eq_ok_iff.1 leftEmitted
      obtain ⟨rightFirst, rightOthers, rightEmits, rightRest, rfl⟩ :=
        emissionsFrom_cons_eq_ok_iff.1 rightEmitted
      have first : leftFirst = rightFirst := by
        apply Variant.emit_eq_of_alike_types sameTokens leftEmits rightEmits
        exact alike.imp_left fun all => all variant List.mem_cons_self
      have others : leftOthers = rightOthers := by
        apply inductionHypothesis leftRest rightRest
        exact alike.imp_left fun all later member => all later (List.mem_cons_of_mem variant member)
      rw [first, others]

/-- Two batches of one name but of different element types show in the text of the first
variant that is not element-wise. -/
theorem elementType_eq_of_text_eq (sameTokens : left.tokens = right.tokens) {index : Nat}
    (leftEmitted : emissionsFrom left index variants = .ok leftEmissions)
    (rightEmitted : emissionsFrom right index variants = .ok rightEmissions)
    (sameText : String.join (leftEmissions.map Emission.primaryText) =
      String.join (rightEmissions.map Emission.primaryText)) :
    (∀ variant ∈ variants, variant.IsElementWise) ∨ left.elementType = right.elementType := by
  induction variants generalizing index leftEmissions rightEmissions with
  | nil => exact .inl nofun
  | cons variant rest inductionHypothesis =>
      obtain ⟨leftFirst, leftOthers, leftEmits, leftRest, rfl⟩ :=
        emissionsFrom_cons_eq_ok_iff.1 leftEmitted
      obtain ⟨rightFirst, rightOthers, rightEmits, rightRest, rfl⟩ :=
        emissionsFrom_cons_eq_ok_iff.1 rightEmitted
      rw [List.map_cons, List.map_cons, String.join_cons, String.join_cons] at sameText
      by_cases elementWise : variant.IsElementWise
      · have first := Variant.emit_eq_of_tokens elementWise sameTokens leftEmits rightEmits
        rw [first, String.append_right_inj] at sameText
        have later := inductionHypothesis leftRest rightRest sameText
        exact later.imp_left fun all => List.forall_mem_cons.2 ⟨elementWise, all⟩
      · rw [Variant.emit_typed elementWise leftEmits,
          Variant.emit_typed elementWise rightEmits] at sameText
        exact .inr (Variant.typed_text_injective elementWise sameText)

variable (context : ContextId) (name : Fingerprint) (device : Device) (leftForce rightForce : Bool)

/-- The sets of two batches of one name have the same sources exactly when the variants
are all element-wise or the element types agree. -/
theorem assemble_sources_eq_iff (sameTokens : left.tokens = right.tokens)
    (leftEmitted : emissionsFrom left 0 variants = .ok leftEmissions)
    (rightEmitted : emissionsFrom right 0 variants = .ok rightEmissions) :
    (∀ slot, ((assemble context name device leftForce leftEmissions).shell slot).source =
        ((assemble context name device rightForce rightEmissions).shell slot).source) ↔
      (∀ variant ∈ variants, variant.IsElementWise) ∨ left.elementType = right.elementType := by
  constructor
  · intro same
    have primary := same .primary
    simp only [shell, assemble_primary_source, String.append_right_inj] at primary
    exact elementType_eq_of_text_eq sameTokens leftEmitted rightEmitted primary
  · intro alike
    rw [emissions_eq_of_alike_types sameTokens leftEmitted rightEmitted alike]
    intro slot
    cases slot with
    | primary => exact assemble_primary_source.trans assemble_primary_source.symm
    | fallback => exact assemble_fallback_source.trans assemble_fallback_source.symm

/-- Compilation aside, sets with the same sources. -/
def SameSources (one other : ProgramSet) : Prop :=
  ∀ slot, (one.shell slot).source = (other.shell slot).source

end ProgramSet

/-! ### Lookups in the course of a history -/

section Runs

variable {σ : Type} {queue : CommandQueue σ} {variants : List Variant} {name : Fingerprint}
  {batch : Batch}

/-- The batch that a lookup for `batch` is answered from: the one that supplied the set,
or `batch` when there is none. -/
def answering (queue : CommandQueue σ) (variants : List Variant) (name : Fingerprint)
    (batches : List Batch) (batch : Batch) : Batch :=
  (supplier? queue.context variants name batches).getD batch

theorem supplier?_eq_some {batches : List Batch} {supplier : Batch}
    (supplied : supplier? queue.context variants name batches = some supplier) :
    supplier.programName = .ok name := by
  have supplies := List.find?_some supplied
  exact (supplies_iff.1 supplies).2.1

/-- A batch that could be given a set of its own is handed the set of the answering batch. -/
theorem Stocked.obtain_eq {batches : List Batch} {run : ModelRun σ}
    (stocked : Stocked queue variants batches run) (named : batch.programName = .ok name)
    {own : List Emission} (emitted : ProgramSet.emissionsFrom batch 0 variants = .ok own)
    (force : Bool) (profile : Profile) :
    ∃ handed after answerForce emissions,
      ProgramCache.obtain (queue.context, name) queue.device variants batch force
        (run.model.programs, profile) = (.ok handed, after) ∧
      (answering queue variants name batches batch).programName = .ok name ∧
      ProgramSet.emissionsFrom (answering queue variants name batches batch) 0 variants =
        .ok emissions ∧
      handed.uncompiled =
        ProgramSet.assemble queue.context name queue.device answerForce emissions := by
  have stored := stocked.stored name
  unfold answering
  cases supplied : supplier? queue.context variants name batches with
  | none =>
      rw [supplied] at stored
      have built : ProgramSet.build queue.context name queue.device variants batch force =
          .ok (ProgramSet.assemble queue.context name queue.device force own) :=
        ProgramSet.build_eq_ok_iff.2 ⟨own, emitted, rfl⟩
      exact ⟨_, _, force, own, ProgramCache.obtain_eq_of_built profile stored built, named, emitted,
        ProgramSet.assemble_uncompiled⟩
  | some supplier =>
      rw [supplied] at stored
      obtain ⟨set, answerForce, emissions, held, supplierEmitted, assembled⟩ := stored
      have obtained :=
        ProgramCache.obtain_eq_of_held profile queue.device variants batch force held
      exact ⟨set, _, answerForce, emissions, obtained, supplier?_eq_some supplied,
        supplierEmitted, assembled⟩

/-- What a lookup hands out differs from what the batch would be given on its own in its
sources only, and in these exactly when it shows that the answering batch has another
element type. -/
theorem Stocked.obtain_sources {batches : List Batch} {run : ModelRun σ}
    (stocked : Stocked queue variants batches run) (named : batch.programName = .ok name)
    {force : Bool} {own : ProgramSet}
    (built : ProgramSet.build queue.context name queue.device variants batch force = .ok own)
    (profile : Profile) :
    ∃ handed after,
      ProgramCache.obtain (queue.context, name) queue.device variants batch force
        (run.model.programs, profile) = (.ok handed, after) ∧
      handed.fingerprint = own.fingerprint ∧ handed.variantCount = own.variantCount ∧
      (handed.SameSources own ↔ (∀ variant ∈ variants, variant.IsElementWise) ∨
        (answering queue variants name batches batch).elementType = batch.elementType) := by
  obtain ⟨emissions, emitted, rfl⟩ := ProgramSet.build_eq_ok_iff.1 built
  obtain ⟨handed, after, answerForce, answerEmissions, obtained, answerNamed, answerEmitted,
    assembled⟩ := stocked.obtain_eq named emitted force profile
  obtain ⟨_, sameTokens⟩ := Batch.tokens_eq_of_programName_eq answerNamed named
  refine ⟨handed, after, obtained, ?_, ?_, ?_⟩
  · have fingerprints := congrArg ProgramSet.fingerprint assembled
    exact fingerprints
  · have counted := congrArg ProgramSet.variantCount assembled
    have lengths : answerEmissions.length = emissions.length := by
      rw [ProgramSet.length_emissionsFrom answerEmitted, ProgramSet.length_emissionsFrom emitted]
    exact counted.trans lengths
  · have decided := ProgramSet.assemble_sources_eq_iff queue.context name queue.device answerForce
      force sameTokens answerEmitted emitted
    rw [← decided, ← assembled]
    simp only [ProgramSet.SameSources, ProgramSet.uncompiled_source]

/-- Programs are shared transparently, after any history of calls, exactly when the
variants are all element-wise or the batch that supplied the set has the element type
of the batch that asks for it. -/
theorem obtain_transparent_iff {predictor : Option CostPredictor} {model : Model σ}
    {bench : Bench σ} {drift : σ → σ → Prop} {calls : List Call} {run : ModelRun σ}
    {force : Bool} {own : ProgramSet}
    (created : Model.create variants predictor queue = .ok model)
    (reached : Reaches drift ⟨model, bench⟩ calls run)
    (named : batch.programName = .ok name)
    (built : ProgramSet.build queue.context name queue.device variants batch force = .ok own) :
    ∃ handed after,
      ProgramCache.obtain (run.model.queue.context, name) run.model.queue.device
        run.model.variants batch force (run.model.programs, run.bench.profile) =
          (.ok handed, after) ∧
      handed.fingerprint = own.fingerprint ∧ handed.variantCount = own.variantCount ∧
      (handed.SameSources own ↔ (∀ variant ∈ variants, variant.IsElementWise) ∨
        (answering queue variants name (calls.map Call.batch) batch).elementType =
          batch.elementType) := by
  have stocked := (Stocked.initial created).of_reaches reached
  rw [stocked.onQueue, stocked.ofVariants]
  exact stocked.obtain_sources named built run.bench.profile

end Runs

/-! ### Inner products of two element types -/

theorem Batch.dot_allowed :
    (Node.mk (.buffer ⟨⟨1⟩, .f32, .vector 8, ⟨1⟩⟩) .innerProduct
      (.buffer ⟨⟨2⟩, .f32, .vector 8, ⟨1⟩⟩)).Admissible ⟨1⟩ 0 := ⟨rfl, rfl⟩

/-- The inner product of two vectors of single precision, as an expression that says it
is of `elementType`. -/
def Batch.dot (elementType : ElementType) : Batch :=
  .single (.assignment elementType ⟨⟨0⟩, .f32, .scalar, ⟨1⟩⟩ .innerProduct
    (.buffer ⟨⟨1⟩, .f32, .vector 8, ⟨1⟩⟩) (.buffer ⟨⟨2⟩, .f32, .vector 8, ⟨1⟩⟩) dot_allowed)

/-- Inner products of one lane in sixteen groups. -/
def Variant.folding : Variant := .innerProduct ⟨1, 64, 16, .strided⟩

/-- The model that folds on the queue of that platform, before any call. -/
def ModelRun.folding : ModelRun Platform where
  model := .single .folding (Platform.single.commandQueue ⟨1⟩)
  bench := { backend := .single }

theorem folding_created :
    Model.create [.folding] none (Platform.single.commandQueue ⟨1⟩) =
      .ok (.single .folding (Platform.single.commandQueue ⟨1⟩)) := rfl

namespace Batch

variable {elementType : ElementType}

theorem dot_programName : (dot elementType).programName = .ok ⟨"sassf0ipvf1vf2"⟩ := by
  have symbols : (dot elementType).symbols = (dot elementType).first.tree.symbols ++ [] := rfl
  have tree : (dot elementType).first.tree = .node .assign (.buffer ⟨⟨0⟩, .f32, .scalar, ⟨1⟩⟩)
      (.node .innerProduct (.buffer ⟨⟨1⟩, .f32, .vector 8, ⟨1⟩⟩)
        (.buffer ⟨⟨2⟩, .f32, .vector 8, ⟨1⟩⟩)) := Expression.assignment_tree dot_allowed
  have tokens : (dot elementType).tokens =
      [.operator .assign, .buffer .scalar .f32 0, .operator .innerProduct, .buffer .vector .f32 1,
        .buffer .vector .f32 2] := by
    simp only [Batch.tokens, ids, symbols, tree]
    rfl
  rw [programName_eq, tokens]
  rfl

theorem dot_emitted (elementType : ElementType) :
    ∃ emissions, ProgramSet.emissionsFrom (dot elementType) 0 [.folding] = .ok emissions :=
  ⟨_, rfl⟩

theorem dot_supplies : supplies ⟨1⟩ [.folding] ⟨"sassf0ipvf1vf2"⟩ (dot elementType) = true :=
  supplies_iff.2 ⟨rfl, dot_programName, dot_emitted elementType⟩

end Batch

theorem dot_reached :
    Reaches (fun _ _ => False) .folding [.execute (.dot .f32) false false]
      ((Call.execute (.dot .f32) false false).perform .folding) :=
  .call .start (.execute (.dot .f32) false false)

theorem dot_stocked :
    Stocked (Platform.single.commandQueue ⟨1⟩) [.folding] [.dot .f32]
      ((Call.execute (.dot .f32) false false).perform .folding) := by
  have initial : Stocked (Platform.single.commandQueue ⟨1⟩) [.folding] [] .folding :=
    Stocked.initial folding_created
  exact initial.of_reaches dot_reached

theorem dot_built (elementType : ElementType) :
    ∃ own, ProgramSet.build ⟨1⟩ ⟨"sassf0ipvf1vf2"⟩ .reference [.folding] (.dot elementType) false =
      .ok own := by
  obtain ⟨emissions, emitted⟩ := Batch.dot_emitted elementType
  exact ⟨_, ProgramSet.build_eq_ok_iff.2 ⟨emissions, emitted, rfl⟩⟩

theorem dot_answering (elementType : ElementType) :
    answering (Platform.single.commandQueue ⟨1⟩) [.folding] ⟨"sassf0ipvf1vf2"⟩ [.dot .f32]
      (.dot elementType) = .dot .f32 := by
  have supplied : supplier? ⟨1⟩ [.folding] ⟨"sassf0ipvf1vf2"⟩ [.dot .f32] = some (.dot .f32) :=
    List.find?_cons_of_pos Batch.dot_supplies
  exact congrArg (Option.getD · (Batch.dot elementType)) supplied

/-- After an inner product of single precision has been executed, the next one is handed
its own sources. -/
theorem dot_handed_own_sources :
    Model.create [.folding] none (Platform.single.commandQueue ⟨1⟩) =
        .ok (.single .folding (Platform.single.commandQueue ⟨1⟩)) ∧
      (Batch.dot .f32).programName = .ok ⟨"sassf0ipvf1vf2"⟩ ∧
      ∃ handed own after,
        ProgramSet.build ⟨1⟩ ⟨"sassf0ipvf1vf2"⟩ .reference [.folding] (.dot .f32) false =
          .ok own ∧
        ProgramCache.obtain (⟨1⟩, ⟨"sassf0ipvf1vf2"⟩) .reference [.folding] (.dot .f32) false
          (((Call.execute (.dot .f32) false false).perform .folding).model.programs,
            ((Call.execute (.dot .f32) false false).perform .folding).bench.profile) =
              (.ok handed, after) ∧
        handed.SameSources own := by
  obtain ⟨own, built⟩ := dot_built .f32
  obtain ⟨handed, after, obtained, _, _, sameSources⟩ :=
    obtain_transparent_iff folding_created dot_reached Batch.dot_programName built
  have onQueue := dot_stocked.onQueue
  have ofVariants := dot_stocked.ofVariants
  rw [onQueue, ofVariants] at obtained
  refine ⟨folding_created, Batch.dot_programName, handed, own, after, built, obtained, ?_⟩
  rw [sameSources]
  exact .inr (congrArg Batch.elementType (dot_answering .f32))

/-- An inner product that says it is of double precision is handed the sources that one
of single precision was executed with. -/
theorem dot_handed_other_sources :
    ∃ handed own after,
      ProgramCache.obtain (⟨1⟩, ⟨"sassf0ipvf1vf2"⟩) .reference [.folding] (.dot .f64) false
        (((Call.execute (.dot .f32) false false).perform .folding).model.programs, {}) =
          (.ok handed, after) ∧
      ProgramSet.build ⟨1⟩ ⟨"sassf0ipvf1vf2"⟩ .reference [.folding] (.dot .f64) false = .ok own ∧
      ¬ handed.SameSources own := by
  obtain ⟨own, built⟩ := dot_built .f64
  obtain ⟨handed, after, obtained, _, _, sameSources⟩ :=
    dot_stocked.obtain_sources Batch.dot_programName built {}
  refine ⟨handed, own, after, obtained, built, ?_⟩
  have answer : answering (Platform.single.commandQueue ⟨1⟩) [.folding] ⟨"sassf0ipvf1vf2"⟩
      [.dot .f32] (.dot .f64) = .dot .f32 := dot_answering .f64
  rw [sameSources, answer]
  rintro (elementWise | sameType)
  · exact elementWise .folding (List.mem_singleton.2 rfl)
  · cases sameType

end KernelTuner
