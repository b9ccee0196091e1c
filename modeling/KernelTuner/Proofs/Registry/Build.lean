import KernelTuner.Proofs.Description.Import
import KernelTuner.Proofs.Description.Refusals
import KernelTuner.Registry

/-!
Contract: the map that a registry builds.

Owns: `ModelMap.Complete`, which says that a map has one stored model for every key and
the built-in one wherever no description reaches, and the two ends of a build: a
complete map over a store that has only grown, or a failure to read the description
that leaves the store as it was.
-/

set_option autoImplicit false

namespace KernelTuner

/-! ### Keys -/

namespace ModelKey

theorem mem_all (key : ModelKey) : key ∈ all :=
  List.mem_flatMap.2 ⟨key.operation, Operation.mem_all key.operation,
    List.mem_map.2 ⟨key.elementType, ElementType.mem_all key.elementType, rfl⟩⟩

theorem nodup_all : all.Nodup := by
  refine List.nodup_flatMap.2 ⟨fun operation _ => ?_, ?_⟩
  · have distinct : ElementType.all.Nodup := by decide
    exact distinct.map fun _ _ same => congrArg elementType same
  · have distinct : Operation.all.Nodup := by decide
    refine distinct.imp fun {first second} apart => ?_
    intro key underFirst underSecond
    obtain ⟨_, _, rfl⟩ := List.mem_map.1 underFirst
    obtain ⟨_, _, same⟩ := List.mem_map.1 underSecond
    exact apart (congrArg operation same).symm

/-- Keys that no description names: scalar updates, and element types that are not
floating-point types. -/
def IsBuiltIn (key : ModelKey) : Prop :=
  key.operation = .scalarAxpy ∨ key.elementType.isFloat = false

theorem IsBuiltIn.unnamed {key : ModelKey} (builtIn : key.IsBuiltIn) (leaf : Description.Leaf) :
    leaf.key? ≠ some key := by
  intro named
  obtain ⟨operationNamed, typeNamed⟩ := Description.Leaf.key?_eq_some_iff.1 named
  rcases builtIn with scalar | integral
  · rw [scalar] at operationNamed
    cases operationNamed
  · cases type : key.elementType with
    | f32 => simp [type, ElementType.isFloat] at integral
    | f64 => simp [type, ElementType.isFloat] at integral
    | _ => simp [type, ElementType.descriptionName?] at typeNamed

end ModelKey

/-! ### Complete maps -/

namespace ModelMap

variable {σ : Type}

/-- A map that lists every key once, each with a stored model on `queue`. A key that no
description names has its built-in model. -/
structure Complete (queue : CommandQueue σ) (store : ModelStore σ) (map : ModelMap) : Prop where
  keys : map.entries.keys.Perm ModelKey.all
  held : ∀ key, ∃ id model,
    map.get? key = some id ∧ store.get? id = some model ∧ model.queue = queue
  builtIn : ∀ key : ModelKey, key.IsBuiltIn → ∀ id model,
    map.get? key = some id → store.get? id = some model →
    model.core = ([Variant.baseline key.operation], none, queue)

variable {queue : CommandQueue σ} {map : ModelMap}

theorem Complete.carried {before after : ModelStore σ} (complete : Complete queue before map)
    (carries : before.Carries after) : Complete queue after map where
  keys := complete.keys
  held := by
    intro key
    obtain ⟨id, model, found, stored, onQueue⟩ := complete.held key
    obtain ⟨later, laterStored, same⟩ := carries id model stored
    have sameQueue : later.queue = model.queue := congrArg (fun core => core.2.2) same
    exact ⟨id, later, found, laterStored, sameQueue.trans onQueue⟩
  builtIn := by
    intro key builtIn id later found laterStored
    obtain ⟨other, model, otherFound, stored, _⟩ := complete.held key
    cases found.symm.trans otherFound
    obtain ⟨last, lastStored, same⟩ := carries id model stored
    cases laterStored.symm.trans lastStored
    exact same.trans (complete.builtIn key builtIn id model found stored)

theorem keys_baselineModels (queue : CommandQueue σ) :
    (baselineModels queue).map Prod.fst = ModelKey.all := by
  rw [baselineModels, List.map_map]
  exact List.map_id _

/-- Every key is listed once where every key has a value and none is listed twice. -/
theorem keys_perm_all (once : map.entries.keys.Nodup) (every : ∀ key, (map.get? key).isSome) :
    map.entries.keys.Perm ModelKey.all := by
  refine (List.perm_ext_iff_of_nodup once ModelKey.nodup_all).2 fun key => ?_
  exact iff_of_true (Table.isSome_get?_iff.1 (every key)) (ModelKey.mem_all key)

/-- The built-in models alone make a complete map. -/
theorem complete_baseline (store : ModelStore σ) (queue : CommandQueue σ) :
    Complete queue (extend store {} (baselineModels queue)).1
      (extend store {} (baselineModels queue)).2 := by
  have distinct : ((baselineModels queue).map Prod.fst).Nodup := by
    rw [keys_baselineModels]
    exact ModelKey.nodup_all
  have entered (key : ModelKey) : ∃ id,
      (extend store {} (baselineModels queue)).2.get? key = some id ∧
        (extend store {} (baselineModels queue)).1.get? id =
          some (Model.single (Variant.baseline key.operation) queue) := by
    have listed : (key, Model.single (Variant.baseline key.operation) queue) ∈
        baselineModels queue := List.mem_map.2 ⟨key, key.mem_all, rfl⟩
    obtain ⟨place, found⟩ := List.mem_iff_getElem?.1 listed
    exact ⟨_, extend_at distinct found⟩
  constructor
  · refine keys_perm_all (nodup_keys_extend List.nodup_nil) fun key => ?_
    obtain ⟨id, found, _⟩ := entered key
    exact Option.isSome_of_eq_some found
  · intro key
    obtain ⟨id, found, stored⟩ := entered key
    exact ⟨id, _, found, stored, rfl⟩
  · intro key _ id model found stored
    obtain ⟨other, otherFound, otherStored⟩ := entered key
    cases found.symm.trans otherFound
    cases stored.symm.trans otherStored
    rfl

/-- An import keeps a map complete, for no leaf names a key that has its built-in
model. -/
theorem Complete.imported {leaves : List Description.Leaf} {before after : ModelStore σ × ModelMap}
    (complete : Complete queue before.1 before.2) (imported : Imported queue leaves before after) :
    Complete queue after.1 after.2 := by
  have present (key : ModelKey) : (after.2.get? key).isSome := by
    obtain ⟨id, _, found, _⟩ := complete.held key
    exact (imported.keys key).2 (.inl (Option.isSome_of_eq_some found))
  have once : before.2.entries.keys.Nodup := complete.keys.nodup_iff.2 ModelKey.nodup_all
  constructor
  · exact keys_perm_all (imported.once once) present
  · intro key
    by_cases named : some key ∈ leaves.map Description.Leaf.key?
    · obtain ⟨leaf, listed, leafKey⟩ := List.mem_map.1 named
      obtain ⟨id, model, found, _, stored, _, onQueue⟩ := imported.entered leaf listed key leafKey
      exact ⟨id, model, found, stored, onQueue⟩
    · obtain ⟨id, model, found, stored, onQueue⟩ := complete.held key
      exact ⟨id, model, (imported.others key named).trans found, imported.stored id model stored,
        onQueue⟩
  · intro key builtIn id model found stored
    have unnamed : some key ∉ leaves.map Description.Leaf.key? := by
      intro named
      obtain ⟨leaf, _, leafKey⟩ := List.mem_map.1 named
      exact builtIn.unnamed leaf leafKey
    obtain ⟨other, earlier, otherFound, earlierStored, _⟩ := complete.held key
    rw [imported.others key unnamed, otherFound] at found
    cases found
    cases (imported.stored id earlier earlierStored).symm.trans stored
    exact complete.builtIn key builtIn id model otherFound earlierStored

end ModelMap

/-! ### Builds -/

/-- A description that was not found, is not JSON or is refused. -/
def Error.IsUnusable : Error → Prop
  | .unreadable _ _ | .malformedJson | .invalidArgument _ => True
  | _ => False

/-- An import from a file fails for want of a usable description, or has the effects of
the leaves of a document. -/
theorem ModelMap.importFile_ends {σ : Type} (environment : Environment) (queue : CommandQueue σ)
    (path : String) (before : ModelStore σ × ModelMap) :
    match importFile environment queue path before with
    | (.error cause, _) => cause.IsUnusable
    | (.ok _, after) => ∃ leaves, Imported queue leaves before after := by
  unfold importFile
  cases read : environment.files.readText path with
  | error cause => trivial
  | ok text =>
      cases done : Description.models queue text with
      | error cause =>
          simp only [importText, done]
          rcases Description.models_fails done with malformed | refused
          · rw [malformed]
            trivial
          · cases cause with
            | invalidArgument _ => trivial
            | _ => cases refused
      | ok built =>
          obtain ⟨document, after, _, imports, imported⟩ := imported_of_models done before
          simp only [imports]
          exact ⟨_, imported⟩

namespace Registry

variable {σ : Type} {config : RegistryConfig} {environment : Environment}
  {queue : CommandQueue σ} {store after : ModelStore σ}

/-- A map that is built is complete, and the stored models are as before. -/
theorem build_complete {map : ModelMap}
    (built : build config environment queue store = (.ok map, after)) :
    ModelMap.Complete queue after map ∧ store.Carries after := by
  have baseline := ModelMap.complete_baseline store queue
  have grown : store.Carries (ModelMap.extend store {} (ModelMap.baselineModels queue)).1 :=
    .of_kept fun _ _ held => ModelMap.get?_extend_of_held held
  unfold build at built
  generalize ModelMap.extend store {} (ModelMap.baselineModels queue) = filled at *
  dsimp only at built
  split at built
  · cases built
    exact ⟨baseline, grown⟩
  · next path _ =>
      have ends := ModelMap.importFile_ends environment queue path filled
      split at built
      · next imports =>
          cases built
          rw [imports] at ends
          obtain ⟨leaves, imported⟩ := ends
          exact ⟨baseline.imported imported, grown.trans (.of_kept imported.stored)⟩
      · cases built

/-- A build that fails stores nothing. -/
theorem build_fails {cause : Error}
    (failed : build config environment queue store = (.error cause, after)) :
    cause.IsUnusable ∧ after = store := by
  unfold build at failed
  generalize ModelMap.extend store {} (ModelMap.baselineModels queue) = filled at failed
  dsimp only at failed
  split at failed
  · cases failed
  · next path _ =>
      have ends := ModelMap.importFile_ends environment queue path filled
      split at failed
      · cases failed
      · next fails =>
          cases failed
          rw [fails] at ends
          exact ⟨ends, rfl⟩

end Registry

end KernelTuner
