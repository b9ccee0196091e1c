import KernelTuner.Description
import KernelTuner.Proofs.Json.Unambiguous
import KernelTuner.Proofs.Outcome
import Mathlib.Data.Prod.Basic

/-!
Contract: what the leaves of a description stand for.

Owns: the leaves of a document with the key that each one names, the models that a
leaf describes, and the correspondence of leaves and models in a document that is
read. Two leaves of a document that comes from a text name different keys, because
no object repeats a name and no two names stand for one operation or element type.
-/

set_option autoImplicit false

namespace KernelTuner

variable {σ : Type}

/-- The models that an entry describes: one profile stands alone, several come with
the forest that chooses among them. -/
inductive DescriptionEntry.Describes (operation : Operation) (queue : CommandQueue σ)
    (entry : DescriptionEntry) : Model σ → Prop where
  | single {profile : List Int} {variant : Variant} (listed : entry.profiles = [profile])
      (read : Variant.ofProfile operation profile = .ok variant) :
      Describes operation queue entry { variants := [variant], predictor := none, queue }
  | choice {variants : List Variant} {description : Json.Value} {forest : Forest}
      (read : List.Forall₂ (fun profile variant => Variant.ofProfile operation profile = .ok variant)
        entry.profiles variants)
      (several : 1 < variants.length) (listed : entry.predictor = some description)
      (forestRead : Forest.ofDescription description = .ok forest)
      (wide : forest.outputs = variants.length) :
      Describes operation queue entry { variants, predictor := some forest.toPredictor, queue }

theorem DescriptionEntry.Describes.queue_eq {operation : Operation} {queue : CommandQueue σ}
    {entry : DescriptionEntry} {model : Model σ} (describes : entry.Describes operation queue model) :
    model.queue = queue := by
  cases describes <;> rfl

theorem Model.eq_of_create_predictor {variants : List Variant} {scorer : CostPredictor}
    {queue : CommandQueue σ} {model : Model σ}
    (created : Model.create variants (some scorer) queue = .ok model) :
    scorer.outputs = variants.length ∧ model = { variants, predictor := some scorer, queue } := by
  unfold Model.create at created
  split at created
  · cases created
  · dsimp only at created
    split at created
    · cases created
    · split at created
      · cases created
      · rename_i wide
        exact ⟨not_not.1 wide, (Except.ok.inj created).symm⟩

theorem DescriptionEntry.describes_of_model {operation : Operation} {queue : CommandQueue σ}
    {entry : DescriptionEntry} {model : Model σ} (built : entry.model operation queue = .ok model) :
    entry.Describes operation queue model := by
  obtain ⟨variants, read, built⟩ := bind_eq_ok_iff.1 built
  have listed := mapM_eq_ok_iff.1 read
  split at built
  · cases built
  · rename_i variant
    cases built
    obtain ⟨profile, none, profileRead, noneLeft, single⟩ := List.forall₂_cons_right_iff.1 listed
    cases List.forall₂_nil_right_iff.1 noneLeft
    exact .single single profileRead
  · rename_i notEmpty notSingle
    have several : 1 < variants.length := by
      match variants, notEmpty, notSingle with
      | [], notEmpty, _ => exact absurd rfl notEmpty
      | [variant], _, notSingle => exact absurd rfl (notSingle variant)
      | _ :: _ :: _, _, _ => simp
    split at built
    · cases built
    · rename_i description given
      obtain ⟨forest, forestRead, created⟩ := bind_eq_ok_iff.1 built
      obtain ⟨wide, rfl⟩ := Model.eq_of_create_predictor created
      exact .choice listed several given forestRead wide

namespace Description

/-- A leaf of a document, with the names that it stands under. -/
structure Leaf where
  operationName : String
  typeName : String
  value : Json.Value

/-- The key that the names of a leaf stand for. -/
def Leaf.key? (leaf : Leaf) : Option ModelKey := do
  let operation ← Operation.ofDescriptionName? leaf.operationName
  let elementType ← ElementType.ofDescriptionName? leaf.typeName
  return ⟨operation, elementType⟩

/-- The leaves that stand under one operation name. -/
def leavesUnder (member : String × Json.Value) : List Leaf :=
  match member.2 with
  | .object types => types.map fun type => ⟨member.1, type.1, type.2⟩
  | _ => []

/-- The leaves of a document in its order. -/
def leaves : Json.Value → List Leaf
  | .object operations => operations.flatMap leavesUnder
  | _ => []

/-- What a leaf says of the model that it stands for. -/
def Leaf.Describes (leaf : Leaf) (queue : CommandQueue σ) (key : ModelKey) (model : Model σ) :
    Prop :=
  leaf.key? = some key ∧
    ∃ entry, DescriptionEntry.read leaf.value = .ok entry ∧
      entry.Describes key.operation queue model

theorem Leaf.key?_eq_some_iff {leaf : Leaf} {key : ModelKey} :
    leaf.key? = some key ↔
      key.operation.descriptionName? = some leaf.operationName ∧
        key.elementType.descriptionName? = some leaf.typeName := by
  rw [← Operation.ofDescriptionName?_eq_some_iff, ← ElementType.ofDescriptionName?_eq_some_iff]
  constructor
  · intro named
    obtain ⟨operation, operationNamed, rest⟩ := Option.bind_eq_some_iff.1 named
    obtain ⟨elementType, typeNamed, same⟩ := Option.bind_eq_some_iff.1 rest
    cases Option.some.inj same
    exact ⟨operationNamed, typeNamed⟩
  · rintro ⟨operationNamed, typeNamed⟩
    simp [Leaf.key?, operationNamed, typeNamed]

theorem within_eq_ok_iff {α : Type} {entry : String} {outcome : Except Error α} {result : α} :
    within entry outcome = .ok result ↔ outcome = .ok result := by
  unfold within
  split
  · simp
  · rfl

theorem describes_of_leaf {queue : CommandQueue σ} {operationName : String} {operation : Operation}
    {type : String × Json.Value} {built : ModelKey × Model σ}
    (named : Operation.ofDescriptionName? operationName = some operation)
    (done : leaf queue operationName operation type = .ok built) :
    Leaf.Describes ⟨operationName, type.1, type.2⟩ queue built.1 built.2 := by
  unfold leaf at done
  split at done
  · cases done
  · rename_i elementType typeNamed
    dsimp only at done
    split at done
    · rename_i entry read
      obtain ⟨_, given, done⟩ := bind_eq_ok_iff.1 done
      cases pure_eq_ok_iff.1 given
      obtain ⟨model, modelBuilt, done⟩ := bind_eq_ok_iff.1 done
      cases pure_eq_ok_iff.1 done
      refine ⟨?_, entry, read, DescriptionEntry.describes_of_model (within_eq_ok_iff.1 modelBuilt)⟩
      exact Leaf.key?_eq_some_iff.2 ⟨Operation.ofDescriptionName?_eq_some_iff.1 named,
        ElementType.ofDescriptionName?_eq_some_iff.1 typeNamed⟩
    · cases done

theorem describes_of_operationModels {queue : CommandQueue σ} {member : String × Json.Value}
    {built : List (ModelKey × Model σ)} (done : operationModels queue member = .ok built) :
    List.Forall₂ (fun leaf (entry : ModelKey × Model σ) => leaf.Describes queue entry.1 entry.2)
      (leavesUnder member) built := by
  unfold operationModels at done
  split at done
  · cases done
  · rename_i operation named
    split at done
    · rename_i types object
      have under : leavesUnder member = types.map fun type => ⟨member.1, type.1, type.2⟩ := by
        rw [leavesUnder, object]
      rw [under, List.forall₂_map_left_iff]
      exact (mapM_eq_ok_iff.1 done).imp fun _ _ leafDone => describes_of_leaf named leafDone
    · cases done

/-- In a document that is read every leaf describes the model at its place. -/
theorem describes_of_documentModels {queue : CommandQueue σ} {document : Json.Value}
    {built : List (ModelKey × Model σ)} (done : documentModels queue document = .ok built) :
    List.Forall₂ (fun leaf (entry : ModelKey × Model σ) => leaf.Describes queue entry.1 entry.2)
      (leaves document) built := by
  unfold documentModels at done
  split at done
  · rename_i operations
    obtain ⟨lists, each, done⟩ := bind_eq_ok_iff.1 done
    cases pure_eq_ok_iff.1 done
    have paired := (mapM_eq_ok_iff.1 each).imp fun _ _ => describes_of_operationModels
    rw [leaves, List.flatMap_def]
    exact List.rel_flatten (List.forall₂_map_left_iff.2 paired)
  · cases done

theorem operationName_of_leavesUnder {member : String × Json.Value} {leaf : Leaf}
    (present : leaf ∈ leavesUnder member) : leaf.operationName = member.1 := by
  unfold leavesUnder at present
  split at present
  · obtain ⟨type, _, rfl⟩ := List.mem_map.1 present
    rfl
  · cases present

/-- The place at which the model of a leaf stands. -/
theorem exists_model_of_leaf {queue : CommandQueue σ} {document : Json.Value}
    {built : List (ModelKey × Model σ)} {leaf : Leaf}
    (done : documentModels queue document = .ok built) (present : leaf ∈ leaves document) :
    ∃ (place : Nat) (key : ModelKey) (model : Model σ),
      built[place]? = some (key, model) ∧ leaf.Describes queue key model := by
  have paired := describes_of_documentModels done
  obtain ⟨place, bound, rfl⟩ := List.getElem_of_mem present
  have builtBound : place < built.length := paired.length_eq ▸ bound
  exact ⟨place, _, _, List.getElem?_eq_getElem builtBound, paired.get bound builtBound⟩

/-- Names under which a leaf stands. -/
def Leaf.names (leaf : Leaf) : String × String := (leaf.operationName, leaf.typeName)

theorem nodup_names_leaves {document : Json.Value} (unambiguous : document.Unambiguous) :
    ((leaves document).map Leaf.names).Nodup := by
  unfold leaves
  split
  · rename_i operations
    rw [List.map_flatMap, List.nodup_flatMap]
    constructor
    · intro member present
      unfold leavesUnder
      split
      · rename_i types object
        have distinct : (types.map Prod.fst).Nodup :=
          (object ▸ unambiguous.member present).distinct_keys
        have named : types.map (Leaf.names ∘ fun type => ⟨member.1, type.1, type.2⟩) =
            (types.map Prod.fst).map (Prod.mk member.1) := by
          rw [List.map_map]
          rfl
        rw [List.map_map, named]
        exact distinct.map (Prod.mk_right_injective member.1)
      · exact List.nodup_nil
    · have distinct := List.pairwise_map.1 unambiguous.distinct_keys
      refine distinct.imp fun {first second} apart => ?_
      intro names underFirst underSecond
      obtain ⟨leaf, present, rfl⟩ := List.mem_map.1 underFirst
      obtain ⟨other, otherPresent, same⟩ := List.mem_map.1 underSecond
      apply apart
      rw [← operationName_of_leavesUnder present, ← operationName_of_leavesUnder otherPresent]
      exact congrArg Prod.fst same.symm
  · exact List.nodup_nil

/-- A key is named in one way only. -/
theorem Leaf.names_eq_of_key? {left right : Leaf} {key : ModelKey}
    (leftNamed : left.key? = some key) (rightNamed : right.key? = some key) :
    left.names = right.names := by
  obtain ⟨leftOperation, leftType⟩ := Leaf.key?_eq_some_iff.1 leftNamed
  obtain ⟨rightOperation, rightType⟩ := Leaf.key?_eq_some_iff.1 rightNamed
  exact Prod.ext (Option.some.inj (leftOperation.symm.trans rightOperation))
    (Option.some.inj (leftType.symm.trans rightType))

/-- Where every leaf names a key, no two leaves name the same. -/
theorem nodup_keys_leaves {document : Json.Value} (unambiguous : document.Unambiguous)
    (named : ∀ leaf ∈ leaves document, ∃ key, leaf.key? = some key) :
    ((leaves document).map Leaf.key?).Nodup := by
  have apart := List.pairwise_map.1 (nodup_names_leaves unambiguous)
  refine List.pairwise_map.2 (apart.imp_of_mem fun {left right} leftPresent _ namesApart same => ?_)
  obtain ⟨key, leftNamed⟩ := named left leftPresent
  exact namesApart (Leaf.names_eq_of_key? leftNamed (same ▸ leftNamed))

/-- The models of a document stand under the keys of its leaves, in document order. -/
theorem keys_of_documentModels {queue : CommandQueue σ} {document : Json.Value}
    {built : List (ModelKey × Model σ)} (done : documentModels queue document = .ok built) :
    (leaves document).map Leaf.key? = (built.map Prod.fst).map some := by
  rw [List.map_map, ← List.forall₂_eq_eq_eq, List.forall₂_map_left_iff, List.forall₂_map_right_iff]
  exact (describes_of_documentModels done).imp fun _ _ describes => describes.1

/-- Every leaf of a document that is read names a key. -/
theorem named_of_documentModels {queue : CommandQueue σ} {document : Json.Value}
    {built : List (ModelKey × Model σ)} (done : documentModels queue document = .ok built) :
    ∀ leaf ∈ leaves document, ∃ key, leaf.key? = some key := by
  intro leaf present
  obtain ⟨_, key, _, _, describes⟩ := exists_model_of_leaf done present
  exact ⟨key, describes.1⟩

theorem nodup_keys_of_documentModels {queue : CommandQueue σ} {document : Json.Value}
    {built : List (ModelKey × Model σ)} (unambiguous : document.Unambiguous)
    (done : documentModels queue document = .ok built) : (built.map Prod.fst).Nodup := by
  have distinct := nodup_keys_leaves unambiguous (named_of_documentModels done)
  rw [keys_of_documentModels done] at distinct
  exact distinct.of_map some

end Description

end KernelTuner
