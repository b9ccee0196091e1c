import KernelTuner.BuildOnce
import KernelTuner.Proofs.Table

/-!
Contract: maps that build their values at most once.

Owns: the three ways in which a lookup may end, told by what is stored under every key
and by how many keys have a value afterwards. A slot that is made for a build counts
for nothing until the build succeeds.
-/

set_option autoImplicit false

namespace KernelTuner

namespace BuildOnce

variable {κ α : Type} [DecidableEq κ]

theorem get?_reserve (cache : BuildOnce κ α) (key other : κ) :
    (cache.reserve key).get? other = cache.get? other := by
  unfold reserve get?
  cases held : cache.slots.get? key with
  | some slot => rfl
  | none =>
      simp only [Table.get?_insert]
      split
      · next same =>
          subst same
          rw [held]
          rfl
      · rfl

theorem reserve_of_held {cache : BuildOnce κ α} {key : κ} {value : α}
    (held : cache.get? key = some value) : cache.reserve key = cache := by
  unfold reserve
  unfold get? at held
  cases slot : cache.slots.get? key with
  | some _ => rfl
  | none => simp [slot] at held

theorem size_reserve (cache : BuildOnce κ α) (key : κ) : (cache.reserve key).size = cache.size := by
  unfold reserve size
  split
  · rfl
  · next absent =>
      have unlisted : key ∉ cache.slots.keys := by
        rw [← Table.isSome_get?_iff, absent]
        exact Bool.false_ne_true
      rw [Table.entries_insert_of_absent none unlisted, List.countP_append]
      rfl

/-- A slot that is filled for a key without a value counts. -/
theorem size_store {cache : BuildOnce κ α} {key : κ} (absent : cache.get? key = none) (value : α) :
    (BuildOnce.mk ((cache.reserve key).slots.insert key (some value))).size = cache.size + 1 := by
  have held : (cache.reserve key).slots.get? key = some none := by
    unfold reserve
    unfold get? at absent
    cases slot : cache.slots.get? key with
    | none => exact (Table.get?_insert _ _ _ _).trans (if_pos rfl)
    | some stored =>
        rw [slot] at absent
        obtain rfl : stored = none := absent
        exact slot
  have counted := Table.countP_put_of_held (some value) (fun entry => entry.2.isSome) held
  rw [← size_reserve cache key]
  exact counted

/-- A value that is replaced in place counts as before. -/
theorem size_modify (cache : BuildOnce κ α) (key : κ) (change : α → α) :
    (cache.modify key change).size = cache.size := by
  unfold modify Table.modify
  cases held : cache.slots.get? key with
  | none => rfl
  | some slot =>
      have counted := Table.countP_put_of_held (slot.map change) (fun entry => entry.2.isSome) held
      simp only [Option.isSome_map, Nat.add_right_cancel_iff] at counted
      exact counted

theorem get?_modify (cache : BuildOnce κ α) (key other : κ) (change : α → α) :
    (cache.modify key change).get? other =
      if key = other then (cache.get? other).map change else cache.get? other := by
  unfold modify get?
  simp only [Table.get?_modify]
  split
  · cases cache.slots.get? other with
    | none => rfl
    | some slot => cases slot <;> rfl
  · rfl

theorem get?_store (slots : Table κ (Option α)) (key other : κ) (value : α) :
    (BuildOnce.mk (slots.insert key (some value))).get? other =
      if key = other then some value else (BuildOnce.mk slots).get? other := by
  unfold get?
  simp only [Table.get?_insert]
  split <;> rfl

variable {ς : Type} {cache : BuildOnce κ α} {key : κ} {build : Action ς α} {state reached : ς}
  {value : α} {cause : Error}

theorem getOrTryBuild_of_held (held : cache.get? key = some value) :
    getOrTryBuild key build (cache, state) = (.ok (value, true), cache.reserve key, state) := by
  have reserved : (cache.reserve key).get? key = some value := by rw [get?_reserve, held]
  simp only [getOrTryBuild, reserved]

theorem getOrTryBuild_of_built (absent : cache.get? key = none)
    (built : build state = (.ok value, reached)) :
    getOrTryBuild key build (cache, state) =
      (.ok (value, false), ⟨(cache.reserve key).slots.insert key (some value)⟩, reached) := by
  have reserved : (cache.reserve key).get? key = none := by rw [get?_reserve, absent]
  simp only [getOrTryBuild, reserved, built]

theorem getOrTryBuild_of_failed (absent : cache.get? key = none)
    (failed : build state = (.error cause, reached)) :
    getOrTryBuild key build (cache, state) = (.error cause, cache.reserve key, reached) := by
  have reserved : (cache.reserve key).get? key = none := by rw [get?_reserve, absent]
  simp only [getOrTryBuild, reserved, failed]

end BuildOnce

end KernelTuner
