import KernelTuner.Proofs.Description.Entries
import KernelTuner.Proofs.Description.Import

/-!
Contract: which descriptions are imported.

Owns: the names that a description may use; the entries from which a model can be made; the
documents that consist of such entries; and `ModelMap.importText_accepts`, by which exactly
these documents are imported, each entry as a model of its profiles.

Does not own: which profiles and which forests are accepted.
-/

set_option autoImplicit false

namespace KernelTuner

variable {σ : Type}

/-! ### Entries -/

theorem Model.create_of_width {variants : List Variant} {scorer : CostPredictor}
    {queue : CommandQueue σ} (several : 2 ≤ variants.length)
    (width : scorer.outputs = variants.length) :
    Model.create variants (some scorer) queue =
      .ok { variants, predictor := some scorer, queue } := by
  have nonempty : variants.isEmpty = false :=
    List.isEmpty_eq_false_iff.2 (List.ne_nil_of_length_pos (by omega))
  have notSingle : variants.length ≠ 1 := by omega
  simp [Model.create, nonempty, notSingle, width]

namespace DescriptionEntry

/-- An entry from which a model can be made: all of its profiles are accepted, and if there
are several, a forest that scores as many variants is given. -/
structure Admissible (operation : Operation) (entry : DescriptionEntry) : Prop where
  nonempty : entry.profiles ≠ []
  profiles : ∀ profile ∈ entry.profiles, ∃ variant,
    Variant.ofProfile operation profile = .ok variant
  predictor : 2 ≤ entry.profiles.length → ∃ description forest,
    entry.predictor = some description ∧ Forest.ofDescription description = .ok forest ∧
      forest.outputs = entry.profiles.length

/-- The model of an entry: its variants are the images of the profiles, and it predicts
by the forest of the entry if there are several. -/
structure Modelled (operation : Operation) (queue : CommandQueue σ) (entry : DescriptionEntry)
    (model : Model σ) : Prop where
  variants : List.Forall₂ (fun profile variant => Variant.ofProfile operation profile = .ok variant)
    entry.profiles model.variants
  hasPredictor : model.hasPredictor = true ↔ 2 ≤ entry.profiles.length
  forest : ∀ scorer, model.predictor = some scorer → ∃ description forest,
    entry.predictor = some description ∧ Forest.ofDescription description = .ok forest ∧
      scorer = forest.toPredictor
  queue : model.queue = queue

variable {operation : Operation} {queue : CommandQueue σ} {entry : DescriptionEntry}
  {model : Model σ}

theorem Describes.modelled (describes : entry.Describes operation queue model) :
    entry.Modelled operation queue model := by
  cases describes with
  | single listed read =>
      refine ⟨?_, ?_, nofun, rfl⟩
      · rw [listed]
        exact .cons read .nil
      · simp [Model.hasPredictor, listed]
  | choice read several listed forestRead wide =>
      refine ⟨read, ?_, ?_, rfl⟩
      · simp only [Model.hasPredictor, Option.isSome_some, read.length_eq, true_iff]
        exact several
      · rintro scorer ⟨⟩
        exact ⟨_, _, listed, forestRead, rfl⟩

theorem Describes.admissible (describes : entry.Describes operation queue model) :
    entry.Admissible operation := by
  cases describes with
  | single listed read =>
      refine ⟨?_, ?_, ?_⟩
      · simp [listed]
      · intro profile member
        rw [listed, List.mem_singleton] at member
        exact ⟨_, member ▸ read⟩
      · intro several
        simp [listed] at several
  | choice read several listed forestRead wide =>
      have count := read.length_eq
      refine ⟨?_, ?_, fun _ => ⟨_, _, listed, forestRead, wide.trans count.symm⟩⟩
      · exact List.ne_nil_of_length_pos (by omega)
      · intro profile member
        obtain ⟨variant, _, accepted⟩ := exists_of_forall₂_left read member
        exact ⟨variant, accepted⟩

/-- The predictor next to one profile is not looked at. -/
theorem model_of_single (operation : Operation) (queue : CommandQueue σ) (profile : List Int)
    (predictor : Option Json.Value) :
    DescriptionEntry.model operation queue ⟨[profile], predictor⟩ =
      (Variant.ofProfile operation profile).map fun variant => Model.single variant queue := by
  unfold DescriptionEntry.model
  cases read : Variant.ofProfile operation profile with
  | error cause => simp [read, bind, Except.bind, Except.map]
  | ok variant => simp [read, bind, Except.bind, Except.map, pure, Except.pure]

theorem model_of_several {variants : List Variant} {description : Json.Value}
    (several : 2 ≤ variants.length)
    (read : entry.profiles.mapM (Variant.ofProfile operation) = .ok variants)
    (given : entry.predictor = some description) :
    entry.model operation queue = (do
      let forest ← Forest.ofDescription description
      Model.create variants (some forest.toPredictor) queue) := by
  match variants, several with
  | first :: second :: rest, _ =>
      simp only [DescriptionEntry.model, read, given]
      rfl

theorem exists_model_iff (queue : CommandQueue σ) :
    (∃ model, entry.model operation queue = .ok model) ↔ entry.Admissible operation := by
  constructor
  · rintro ⟨model, built⟩
    exact (describes_of_model built).admissible
  · rintro ⟨nonempty, accepted, predictor⟩
    obtain ⟨variants, read⟩ := exists_mapM_eq_ok_iff.2 accepted
    have count := (mapM_eq_ok_iff.1 read).length_eq
    rcases Nat.lt_or_ge 1 entry.profiles.length with several | single
    · obtain ⟨description, forest, given, forestRead, width⟩ := predictor several
      rw [count] at several width
      rw [model_of_several several read given]
      exact ⟨_, bind_eq_ok_iff.2 ⟨forest, forestRead, Model.create_of_width several width⟩⟩
    · obtain ⟨profiles, predictor⟩ := entry
      obtain ⟨profile, rfl⟩ := List.length_eq_one_iff.1
        (Nat.le_antisymm single (List.length_pos_iff.2 nonempty))
      obtain ⟨variant, profileRead⟩ := accepted profile List.mem_cons_self
      exact ⟨_, by rw [model_of_single, profileRead]; rfl⟩

end DescriptionEntry

/-! ### Documents -/

theorem Json.Value.Unambiguous.leaf {document : Json.Value} (unambiguous : document.Unambiguous)
    {leaf : Description.Leaf} (present : leaf ∈ Description.leaves document) :
    leaf.value.Unambiguous := by
  unfold Description.leaves at present
  split at present
  · next operations =>
      obtain ⟨member, listed, under⟩ := List.mem_flatMap.1 present
      have inner := unambiguous.member listed
      unfold Description.leavesUnder at under
      split at under
      · next types object =>
          obtain ⟨type, typeListed, rfl⟩ := List.mem_map.1 under
          rw [object] at inner
          exact inner.member typeListed
      · cases under
  · cases present

namespace Description

/-- The operations that a description can name. -/
def operationNames : List (String × Operation) :=
  [("vaxpy", .vectorAxpy), ("dot", .reduction), ("maxpy", .matrixAxpy),
    ("gemvN", .rowWiseReduction), ("gemvT", .colWiseReduction), ("gemmNN", .matrixProductNN),
    ("gemmNT", .matrixProductNT), ("gemmTN", .matrixProductTN), ("gemmTT", .matrixProductTT)]

/-- The element types that a description can name. -/
def typeNames : List (String × ElementType) := [("float32", .f32), ("float64", .f64)]

/-- An object of entries for one operation, keyed by element type. -/
def AdmissibleTypes (operation : Operation) (value : Json.Value) : Prop :=
  ∃ types, value = .object types ∧ ∀ type ∈ types,
    (∃ elementType, (type.1, elementType) ∈ typeNames) ∧
      ∃ entry : DescriptionEntry, entry.Spells type.2 ∧ entry.Admissible operation

/-- An object of such objects, keyed by operation. -/
def Admissible (document : Json.Value) : Prop :=
  ∃ operations, document = .object operations ∧ ∀ member ∈ operations,
    ∃ operation, (member.1, operation) ∈ operationNames ∧ AdmissibleTypes operation member.2

theorem mem_operationNames_iff {name : String} {operation : Operation} :
    (name, operation) ∈ operationNames ↔ Operation.ofDescriptionName? name = some operation := by
  rw [Operation.ofDescriptionName?_eq_some_iff]
  cases operation <;> simp [operationNames, Operation.descriptionName?, eq_comm]

theorem mem_typeNames_iff {name : String} {elementType : ElementType} :
    (name, elementType) ∈ typeNames ↔ ElementType.ofDescriptionName? name = some elementType := by
  rw [ElementType.ofDescriptionName?_eq_some_iff]
  cases elementType <;> simp [typeNames, ElementType.descriptionName?, eq_comm]

theorem exists_leaf_iff {queue : CommandQueue σ} {operationName : String} {operation : Operation}
    {type : String × Json.Value} (unambiguous : type.2.Unambiguous) :
    (∃ built, leaf queue operationName operation type = .ok built) ↔
      (∃ elementType, (type.1, elementType) ∈ typeNames) ∧
        ∃ entry : DescriptionEntry, entry.Spells type.2 ∧ entry.Admissible operation := by
  simp only [mem_typeNames_iff, ← DescriptionEntry.read_eq_ok_iff unambiguous]
  unfold leaf
  cases ElementType.ofDescriptionName? type.1 with
  | none => simp
  | some elementType =>
      cases DescriptionEntry.read type.2 with
      | error cause =>
          simp only [bind_eq_ok_iff, refuse_ne_ok, false_and, exists_false, reduceCtorEq, and_false]
      | ok entry =>
          simp only [bind_eq_ok_iff, pure_eq_ok_iff, within_eq_ok_iff, exists_eq_left',
            Option.some.injEq, exists_eq', true_and, Except.ok.injEq,
            ← DescriptionEntry.exists_model_iff queue]
          constructor
          · rintro ⟨_, model, built, rfl⟩
            exact ⟨model, built⟩
          · rintro ⟨model, built⟩
            exact ⟨_, model, built, rfl⟩

theorem exists_operationModels_iff {queue : CommandQueue σ} {member : String × Json.Value}
    (unambiguous : member.2.Unambiguous) :
    (∃ built, operationModels queue member = .ok built) ↔
      ∃ operation, (member.1, operation) ∈ operationNames ∧ AdmissibleTypes operation member.2 := by
  simp only [mem_operationNames_iff]
  unfold operationModels
  cases Operation.ofDescriptionName? member.1 with
  | none => simp
  | some operation =>
      simp only [Option.some.injEq, exists_eq_left']
      unfold AdmissibleTypes
      split
      · next types object =>
          rw [object] at unambiguous
          simp only [exists_mapM_eq_ok_iff, Json.Value.object.injEq, exists_eq_left', object]
          exact forall₂_congr fun type member => exists_leaf_iff (unambiguous.member member)
      · next noObject =>
          constructor
          · rintro ⟨_, impossible⟩
            cases impossible
          · rintro ⟨types, object, _⟩
            exact absurd object (noObject types)

theorem exists_documentModels_iff {queue : CommandQueue σ} {document : Json.Value}
    (unambiguous : document.Unambiguous) :
    (∃ built, documentModels queue document = .ok built) ↔ Admissible document := by
  unfold documentModels Admissible
  split
  · next operations =>
      have each : (∃ lists, operations.mapM (operationModels queue) = .ok lists) ↔
          ∀ member ∈ operations, ∃ operation,
            (member.1, operation) ∈ operationNames ∧ AdmissibleTypes operation member.2 := by
        rw [exists_mapM_eq_ok_iff]
        exact forall₂_congr fun _ member =>
          exists_operationModels_iff (unambiguous.member member)
      simp only [bind_eq_ok_iff, pure_eq_ok_iff, Json.Value.object.injEq, exists_eq_left', ← each]
      constructor
      · rintro ⟨_, lists, done, _⟩
        exact ⟨lists, done⟩
      · rintro ⟨lists, done⟩
        exact ⟨_, lists, done, rfl⟩
  · next noObject =>
      constructor
      · rintro ⟨_, impossible⟩
        cases impossible
      · rintro ⟨operations, rfl, _⟩
        exact absurd rfl (noObject operations)

theorem exists_models_iff {queue : CommandQueue σ} {text : String} :
    (∃ built, models queue text = .ok built) ↔
      ∃ document, Json.parse? text = some document ∧ Admissible document := by
  unfold models
  cases parsed : Json.parse? text with
  | none => simp
  | some document =>
      simp only [exists_documentModels_iff (Json.parse?_unambiguous parsed), Option.some.injEq,
        exists_eq_left']

end Description

/-! ### Imports -/

namespace ModelMap

/-- Which texts are imported, and as which models: each entry as the model of its profiles,
and an entry of one profile as the same model whatever stands in the place of the predictor. -/
theorem importText_accepts (queue : CommandQueue σ) (text : String)
    (before : ModelStore σ × ModelMap) :
    ((∃ count, (importText queue text before).1 = .ok count) ↔
        ∃ document, Json.parse? text = some document ∧ Description.Admissible document) ∧
      (∀ count after, importText queue text before = (.ok count, after) →
        ∃ document, Json.parse? text = some document ∧
          ∀ leaf ∈ Description.leaves document, ∃ key entry id model,
            leaf.key? = some key ∧ DescriptionEntry.Spells entry leaf.value ∧
              after.2.get? key = some id ∧ after.1.get? id = some model ∧
                entry.Modelled key.operation queue model) ∧
      ∀ operation profile predictor,
        DescriptionEntry.model operation queue ⟨[profile], predictor⟩ =
          (Variant.ofProfile operation profile).map fun variant => Model.single variant queue := by
  refine ⟨?accepts, ?models, ?single⟩
  case accepts =>
    rw [← @Description.exists_models_iff σ queue text]
    unfold importText
    cases Description.models queue text <;> simp
  case models =>
    intro count after done
    cases built : Description.models queue text with
    | error cause =>
        unfold importText at done
        rw [built] at done
        cases done
    | ok models =>
        obtain ⟨document, _, parsed, imports, imported⟩ := imported_of_models built before
        cases imports.symm.trans done
        refine ⟨document, parsed, fun leaf present => ?_⟩
        obtain ⟨key, named⟩ := imported.named leaf present
        obtain ⟨id, model, entered, _, stored, ⟨_, entry, read, describes⟩, _⟩ :=
          imported.entered leaf present key named
        have spells := (DescriptionEntry.read_eq_ok_iff
          ((Json.parse?_unambiguous parsed).leaf present)).1 read
        exact ⟨key, entry, id, model, named, spells, entered, stored, describes.modelled⟩
  case single =>
    exact fun operation profile predictor =>
      DescriptionEntry.model_of_single operation queue profile predictor

end ModelMap

end KernelTuner
