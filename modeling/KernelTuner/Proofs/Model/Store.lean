import KernelTuner.Model.Store
import KernelTuner.Proofs.Table

/-!
Contract: stored models through the changes of a store.

Owns: what `ModelMap.extend` does to the store and to the map. The store keeps every
model that it had. Under distinct keys the entry at a place of the list gets an
identity of its own, which no model had before. Owns also `ModelStore.Carries`, which
allows what running stored models does to them: their programs and overrides change,
and what they choose among does not.
-/

set_option autoImplicit false

namespace KernelTuner

variable {σ : Type}

namespace ModelStore

variable {store : ModelStore σ} {id : ModelId} {model : Model σ}

theorem get?_add_of_held (added : Model σ) (held : store.get? id = some model) :
    (store.add added).1.get? id = some model := by
  obtain ⟨bound, same⟩ := Array.getElem?_eq_some_iff.1 held
  exact (Array.getElem?_push_lt bound).trans (congrArg some same)

theorem get?_add_new (store : ModelStore σ) (added : Model σ) :
    (store.add added).1.get? (store.add added).2 = some added :=
  Array.getElem?_push_size

/-- The identity at `place` behind the models of the store belongs to none of them. -/
theorem get?_behind (store : ModelStore σ) (place : Nat) :
    store.get? ⟨store.models.size + place⟩ = none :=
  Array.getElem?_eq_none (Nat.le_add_right _ place)

theorem get?_put_of_held (replacement : Model σ) (held : store.get? id = some model) :
    (store.put id replacement).get? id = some replacement := by
  obtain ⟨bound, _⟩ := Array.getElem?_eq_some_iff.1 held
  exact Array.getElem?_setIfInBounds_self_of_lt bound

theorem get?_put_of_ne (replacement : Model σ) {other : ModelId} (apart : id ≠ other)
    (store : ModelStore σ) : (store.put id replacement).get? other = store.get? other :=
  Array.getElem?_setIfInBounds_ne fun same => apart (congrArg ModelId.mk same)

end ModelStore

/-- What a model is made of: its candidates, their predictor and the queue. -/
def Model.core (model : Model σ) : List Variant × Option CostPredictor × CommandQueue σ :=
  (model.variants, model.predictor, model.queue)

namespace ModelStore

/-- Every model of `before` is found in `after`, made of the same. -/
def Carries (before after : ModelStore σ) : Prop :=
  ∀ id model, before.get? id = some model →
    ∃ later, after.get? id = some later ∧ later.core = model.core

theorem Carries.refl (store : ModelStore σ) : Carries store store :=
  fun _ model held => ⟨model, held, rfl⟩

theorem Carries.trans {before between after : ModelStore σ} (first : Carries before between)
    (second : Carries between after) : Carries before after := by
  intro id model held
  obtain ⟨later, laterHeld, same⟩ := first id model held
  obtain ⟨last, lastHeld, lastSame⟩ := second id later laterHeld
  exact ⟨last, lastHeld, lastSame.trans same⟩

theorem Carries.of_kept {before after : ModelStore σ}
    (kept : ∀ id model, before.get? id = some model → after.get? id = some model) :
    Carries before after :=
  fun id model held => ⟨model, kept id model held, rfl⟩

/-- Running a stored model carries the store, if the step leaves the core of the model
alone. -/
theorem carries_run {α : Type} {step : Action (ModelRun σ) α}
    (kept : ∀ run, (step run).2.model.core = run.model.core) (id : ModelId)
    (state : ModelStore σ × Bench σ) : Carries state.1 (run id step state).2.1 := by
  obtain ⟨store, bench⟩ := state
  cases held : store.get? id with
  | none =>
      simp only [run, held]
      exact .refl store
  | some model =>
      simp only [run, held]
      intro other found otherHeld
      by_cases same : id = other
      · subst same
        cases held.symm.trans otherHeld
        exact ⟨_, get?_put_of_held _ held, kept ⟨model, bench⟩⟩
      · exact ⟨found, (get?_put_of_ne _ same store).trans otherHeld, rfl⟩

end ModelStore

namespace ModelMap

variable {store : ModelStore σ} {map : ModelMap} {additions : List (ModelKey × Model σ)}

theorem get?_extend_of_held {id : ModelId} {model : Model σ}
    (held : store.get? id = some model) :
    (extend store map additions).1.get? id = some model := by
  induction additions generalizing store map with
  | nil => exact held
  | cons addition rest inductionHypothesis =>
      exact inductionHypothesis (ModelStore.get?_add_of_held addition.2 held)

theorem get?_extend_of_unnamed {key : ModelKey} (unnamed : key ∉ additions.map Prod.fst) :
    (extend store map additions).2.get? key = map.get? key := by
  induction additions generalizing store map with
  | nil => rfl
  | cons addition rest inductionHypothesis =>
      obtain ⟨apart, later⟩ := not_or.1 (mt List.mem_cons.2 unnamed)
      have entered : (extend store map (addition :: rest)).2.get? key =
          (map.entries.insert addition.1 (store.add addition.2).2).get? key :=
        inductionHypothesis later
      rw [entered, Table.get?_insert, if_neg fun same => apart same.symm]
      rfl

/-- The addition at `place` gets the identity at that place behind the store. -/
theorem extend_at {place : Nat} {key : ModelKey} {model : Model σ}
    (distinct : (additions.map Prod.fst).Nodup) (found : additions[place]? = some (key, model)) :
    (extend store map additions).2.get? key = some ⟨store.models.size + place⟩ ∧
      (extend store map additions).1.get? ⟨store.models.size + place⟩ = some model := by
  induction additions generalizing store map place with
  | nil => cases found
  | cons addition rest inductionHypothesis =>
      obtain ⟨fresh, restDistinct⟩ := List.nodup_cons.1 distinct
      cases place with
      | zero =>
          cases Option.some.inj found
          constructor
          · have entered : (extend store map ((key, model) :: rest)).2.get? key =
                (map.entries.insert key (store.add model).2).get? key :=
              get?_extend_of_unnamed fresh
            rw [entered, Table.get?_insert, if_pos rfl]
            rfl
          · exact @get?_extend_of_held _ (store.add model).1
              ⟨map.entries.insert key (store.add model).2⟩ rest _ _
              (ModelStore.get?_add_new store model)
      | succ place =>
          have later := @inductionHypothesis (store.add addition.2).1
            ⟨map.entries.insert addition.1 (store.add addition.2).2⟩ place restDistinct found
          have size : (store.add addition.2).1.models.size + place =
              store.models.size + (place + 1) := by
            have pushed : (store.add addition.2).1.models.size = store.models.size + 1 :=
              Array.size_push _
            omega
          rw [size] at later
          exact later

theorem exists_place_of_named {key : ModelKey} (named : key ∈ additions.map Prod.fst) :
    ∃ (place : Nat) (model : Model σ), additions[place]? = some (key, model) := by
  obtain ⟨⟨_, model⟩, present, rfl⟩ := List.mem_map.1 named
  obtain ⟨place, found⟩ := List.mem_iff_getElem?.1 present
  exact ⟨place, model, found⟩

/-- Keys that are entered together hold different models. -/
theorem extend_unshared (distinct : (additions.map Prod.fst).Nodup) {left right : ModelKey}
    {id : ModelId} (leftNamed : left ∈ additions.map Prod.fst)
    (rightNamed : right ∈ additions.map Prod.fst)
    (leftHeld : (extend store map additions).2.get? left = some id)
    (rightHeld : (extend store map additions).2.get? right = some id) : left = right := by
  obtain ⟨leftPlace, _, leftFound⟩ := exists_place_of_named leftNamed
  obtain ⟨rightPlace, _, rightFound⟩ := exists_place_of_named rightNamed
  have leftId := leftHeld.symm.trans (extend_at distinct leftFound).1
  have rightId := rightHeld.symm.trans (extend_at distinct rightFound).1
  have samePlace : leftPlace = rightPlace := by
    have sameId := Option.some.inj (leftId.symm.trans rightId)
    have samePosition := congrArg ModelId.place sameId
    exact Nat.add_left_cancel samePosition
  rw [samePlace] at leftFound
  exact congrArg Prod.fst (Option.some.inj (leftFound.symm.trans rightFound))

theorem isSome_get?_extend_iff (distinct : (additions.map Prod.fst).Nodup) {key : ModelKey} :
    ((extend store map additions).2.get? key).isSome ↔
      (map.get? key).isSome ∨ key ∈ additions.map Prod.fst := by
  by_cases named : key ∈ additions.map Prod.fst
  · obtain ⟨_, _, found⟩ := exists_place_of_named named
    rw [(extend_at distinct found).1]
    exact iff_of_true rfl (.inr named)
  · rw [get?_extend_of_unnamed named]
    exact ⟨.inl, fun present => present.resolve_right named⟩

theorem nodup_keys_extend (distinct : map.entries.keys.Nodup) :
    (extend store map additions).2.entries.keys.Nodup := by
  induction additions generalizing store map with
  | nil => exact distinct
  | cons addition rest inductionHypothesis =>
      exact inductionHypothesis (Table.nodup_keys_insert _ _ distinct)

end ModelMap

end KernelTuner
