import KernelTuner.Proofs.Description.Leaves
import KernelTuner.Proofs.Model.Store
import Mathlib.Data.Option.Basic

/-!
Contract: what an import does to a map.

Owns: `ModelMap.Imported`, which lists the effects of entering the leaves of a
document, and the theorem that an import has these effects or none.
-/

set_option autoImplicit false

namespace KernelTuner.ModelMap

variable {σ : Type}

/-- Effects of the leaves of a document on a store and a map. A key is named when a
leaf stands for it. -/
structure Imported (queue : CommandQueue σ) (leaves : List Description.Leaf)
    (before after : ModelStore σ × ModelMap) : Prop where
  /-- Every leaf names a key. -/
  named : ∀ leaf ∈ leaves, ∃ key, leaf.key? = some key
  /-- No two leaves name the same key. -/
  distinct : (leaves.map Description.Leaf.key?).Nodup
  /-- The named keys join those that were present. -/
  keys : ∀ key, (after.2.get? key).isSome ↔
    (before.2.get? key).isSome ∨ some key ∈ leaves.map Description.Leaf.key?
  /-- A named key holds a new model, which is the one that its leaf describes. -/
  entered : ∀ leaf ∈ leaves, ∀ key, leaf.key? = some key →
    ∃ id model, after.2.get? key = some id ∧ before.1.get? id = none ∧
      after.1.get? id = some model ∧ leaf.Describes queue key model ∧ model.queue = queue
  /-- No two named keys hold the same model. -/
  unshared : ∀ left right id, some left ∈ leaves.map Description.Leaf.key? →
    some right ∈ leaves.map Description.Leaf.key? →
    after.2.get? left = some id → after.2.get? right = some id → left = right
  /-- Every other key holds what it held. -/
  others : ∀ key, some key ∉ leaves.map Description.Leaf.key? →
    after.2.get? key = before.2.get? key
  /-- No key is listed twice that was not before. -/
  once : before.2.entries.keys.Nodup → after.2.entries.keys.Nodup
  /-- Stored models stay as they are. -/
  stored : ∀ id model, before.1.get? id = some model → after.1.get? id = some model

variable {queue : CommandQueue σ}

theorem imported_extend {document : Json.Value} {built : List (ModelKey × Model σ)}
    (unambiguous : document.Unambiguous)
    (done : Description.documentModels queue document = .ok built) (store : ModelStore σ)
    (map : ModelMap) :
    Imported queue (Description.leaves document) (store, map) (extend store map built) := by
  have builtDistinct := Description.nodup_keys_of_documentModels unambiguous done
  have namedIff : ∀ key, some key ∈ (Description.leaves document).map Description.Leaf.key? ↔
      key ∈ built.map Prod.fst := by
    intro key
    rw [Description.keys_of_documentModels done]
    exact List.mem_map_of_injective (Option.some_injective _)
  exact {
    named := Description.named_of_documentModels done
    distinct := Description.nodup_keys_leaves unambiguous (Description.named_of_documentModels done)
    keys := fun key => (isSome_get?_extend_iff builtDistinct).trans
      (or_congr_right (namedIff key).symm)
    entered := by
      intro leaf present key leafKey
      obtain ⟨place, _, model, found, describes⟩ := Description.exists_model_of_leaf done present
      cases Option.some.inj (leafKey.symm.trans describes.1)
      obtain ⟨held, stored⟩ := extend_at builtDistinct found
      obtain ⟨_, _, _, entryDescribes⟩ := id describes
      exact ⟨⟨store.models.size + place⟩, model, held, store.get?_behind place, stored, describes,
        entryDescribes.queue_eq⟩
    unshared := fun left right id leftNamed rightNamed =>
      extend_unshared builtDistinct ((namedIff left).1 leftNamed) ((namedIff right).1 rightNamed)
    others := fun key unnamed => get?_extend_of_unnamed (mt (namedIff key).2 unnamed)
    once := nodup_keys_extend
    stored := fun id model held => get?_extend_of_held held }

/-- An import of a text that has models has the effects of its leaves. -/
theorem imported_of_models {text : String} {built : List (ModelKey × Model σ)}
    (done : Description.models queue text = .ok built) (before : ModelStore σ × ModelMap) :
    ∃ document after, Json.parse? text = some document ∧
      importText queue text before = (.ok (Description.leaves document).length, after) ∧
      Imported queue (Description.leaves document) before after := by
  unfold importText
  rw [done]
  unfold Description.models at done
  split at done
  · cases done
  · next document parsed =>
      have unambiguous := Json.parse?_unambiguous parsed
      have staged : (({} : Table ModelKey (Model σ)).insertAll built).entries = built :=
        Table.entries_insertAll_empty (Description.nodup_keys_of_documentModels unambiguous done)
      have count : built.length = (Description.leaves document).length := by
        simpa using (congrArg List.length (Description.keys_of_documentModels done)).symm
      refine ⟨document, extend before.1 before.2 built, parsed, ?_,
        imported_extend unambiguous done before.1 before.2⟩
      simp only [Table.size, staged, count]

/-- An import changes nothing, or it enters every leaf of the document: their number is
its result, and apart from the keys that they name nothing changes. -/
theorem importText_all_or_nothing (queue : CommandQueue σ) (text : String)
    (before : ModelStore σ × ModelMap) :
    match importText queue text before with
    | (.error _, after) => after = before
    | (.ok count, after) => ∃ document, Json.parse? text = some document ∧
        count = (Description.leaves document).length ∧
        Imported queue (Description.leaves document) before after := by
  cases done : Description.models queue text with
  | error cause =>
      unfold importText
      rw [done]
  | ok built =>
      obtain ⟨document, after, parsed, imports, imported⟩ := imported_of_models done before
      rw [imports]
      exact ⟨document, parsed, rfl, imported⟩

/-- A document with one leaf. -/
example (store : ModelStore σ) (map : ModelMap) :
    (importText queue "\x7b\"dot\":\x7b\"float32\":\x7b\"profiles\":[[1,64,128,0]]\x7d\x7d\x7d"
      (store, map)).1 = .ok 1 := by
  cbv

end KernelTuner.ModelMap
