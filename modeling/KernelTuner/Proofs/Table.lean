import KernelTuner.Table
import Mathlib.Data.List.Nodup
import Mathlib.Data.List.Perm.Basic

/-!
Contract: the keys of a table.

Owns: what entering a pair does to the listed keys, from which follows that a
table built by insertions alone lists every key once, and when a key is present; and
what it does to the number of pairs, of all and of those that are counted.

Does not own: the values, whose equations stand beside the operations.
-/

set_option autoImplicit false

namespace KernelTuner.Table

variable {κ α : Type} [DecidableEq κ]

/-- A new key goes to the end and a present one keeps its place. -/
theorem keys_put (key : κ) (value : α) (entries : List (κ × α)) :
    (put key value entries).map Prod.fst =
      if key ∈ entries.map Prod.fst then entries.map Prod.fst
      else entries.map Prod.fst ++ [key] := by
  induction entries with
  | nil => simp [put]
  | cons entry rest inductionHypothesis =>
      obtain ⟨head, previous⟩ := entry
      by_cases same : head = key
      · simp [put, same]
      · have apart : ¬ key = head := fun equal => same equal.symm
        by_cases present : key ∈ rest.map Prod.fst
        · rw [if_pos present] at inductionHypothesis
          simp only [put, if_neg same, List.map_cons, inductionHypothesis,
            if_pos (List.mem_cons_of_mem head present)]
        · rw [if_neg present] at inductionHypothesis
          simp only [put, if_neg same, List.map_cons, inductionHypothesis,
            if_neg (List.not_mem_cons_of_ne_of_not_mem apart present), List.cons_append]

/-- A pair with a new key is appended. -/
theorem put_of_absent {entries : List (κ × α)} {key : κ} (value : α)
    (absent : key ∉ entries.map Prod.fst) : put key value entries = entries ++ [(key, value)] := by
  induction entries with
  | nil => rfl
  | cons entry rest inductionHypothesis =>
      obtain ⟨apart, later⟩ := not_or.1 (mt List.mem_cons.2 absent)
      rw [put, if_neg fun same => apart same.symm, inductionHypothesis later, List.cons_append]

theorem entries_insert_of_absent {table : Table κ α} {key : κ} (value : α)
    (absent : key ∉ table.keys) :
    (table.insert key value).entries = table.entries ++ [(key, value)] :=
  put_of_absent value absent

theorem nodup_keys_put {entries : List (κ × α)} (key : κ) (value : α)
    (distinct : (entries.map Prod.fst).Nodup) : ((put key value entries).map Prod.fst).Nodup := by
  rw [keys_put]
  split
  · exact distinct
  · rename_i absent
    exact List.nodup_append.2 ⟨distinct, List.nodup_singleton key, by grind⟩

theorem mem_put {entries : List (κ × α)} {key : κ} {value : α} {entry : κ × α}
    (member : entry ∈ put key value entries) : entry = (key, value) ∨ entry ∈ entries := by
  induction entries with
  | nil => exact .inl (by simpa [put] using member)
  | cons head rest inductionHypothesis =>
      unfold put at member
      split at member
      · exact (List.mem_cons.1 member).imp_right (List.mem_cons_of_mem _)
      · rcases List.mem_cons.1 member with first | later
        · exact .inr (first ▸ List.mem_cons_self)
        · exact (inductionHypothesis later).imp_right (List.mem_cons_of_mem _)

theorem isSome_find?_iff {key : κ} {entries : List (κ × α)} :
    (find? key entries).isSome ↔ key ∈ entries.map Prod.fst := by
  induction entries with
  | nil => simp [find?]
  | cons entry rest inductionHypothesis =>
      obtain ⟨head, value⟩ := entry
      by_cases same : head = key
      · simp [find?, same]
      · have apart : ¬ key = head := fun equal => same equal.symm
        simp only [find?, if_neg same, inductionHypothesis, List.map_cons, List.mem_cons, apart,
          false_or]

theorem isSome_get?_iff {table : Table κ α} {key : κ} :
    (table.get? key).isSome ↔ key ∈ table.keys :=
  isSome_find?_iff

theorem nodup_keys_insert {table : Table κ α} (key : κ) (value : α) (distinct : table.keys.Nodup) :
    (table.insert key value).keys.Nodup :=
  nodup_keys_put key value distinct

theorem nodup_keys_insertAll {table : Table κ α} (additions : List (κ × α))
    (distinct : table.keys.Nodup) : (table.insertAll additions).keys.Nodup := by
  induction additions generalizing table with
  | nil => exact distinct
  | cons entry rest inductionHypothesis =>
      exact inductionHypothesis (nodup_keys_insert entry.1 entry.2 distinct)

/-- Pairs with new keys, all of them different, are appended. -/
theorem entries_insertAll_of_absent {table : Table κ α} {additions : List (κ × α)}
    (distinct : (additions.map Prod.fst).Nodup)
    (absent : ∀ key ∈ additions.map Prod.fst, key ∉ table.keys) :
    (table.insertAll additions).entries = table.entries ++ additions := by
  induction additions generalizing table with
  | nil => exact (List.append_nil _).symm
  | cons entry rest inductionHypothesis =>
      obtain ⟨fresh, restDistinct⟩ := List.nodup_cons.1 distinct
      have appended : (table.insert entry.1 entry.2).entries = table.entries ++ [entry] :=
        entries_insert_of_absent entry.2 (absent entry.1 List.mem_cons_self)
      have restAbsent : ∀ key ∈ rest.map Prod.fst, key ∉ (table.insert entry.1 entry.2).keys := by
        intro key listed present
        rw [keys, appended, List.map_append, List.mem_append] at present
        rcases present with earlier | first
        · exact absent key (List.mem_cons_of_mem _ listed) earlier
        · exact fresh (List.mem_singleton.1 first ▸ listed)
      have grown := inductionHypothesis restDistinct restAbsent
      rwa [appended, List.append_assoc, List.singleton_append] at grown

theorem entries_insertAll_empty {additions : List (κ × α)}
    (distinct : (additions.map Prod.fst).Nodup) :
    (({} : Table κ α).insertAll additions).entries = additions :=
  entries_insertAll_of_absent distinct fun _ _ => List.not_mem_nil

theorem mem_insertAll {table : Table κ α} {additions : List (κ × α)} {entry : κ × α}
    (member : entry ∈ (table.insertAll additions).entries) :
    entry ∈ additions ∨ entry ∈ table.entries := by
  induction additions generalizing table with
  | nil => exact .inr member
  | cons addition rest inductionHypothesis =>
      rcases inductionHypothesis member with later | entered
      · exact .inl (List.mem_cons_of_mem _ later)
      · rcases mem_put entered with rfl | earlier
        · exact .inl List.mem_cons_self
        · exact .inr earlier

theorem put_of_held {entries : List (κ × α)} {key : κ} {value : α}
    (held : find? key entries = some value) : put key value entries = entries := by
  induction entries with
  | nil => simp [find?] at held
  | cons entry rest inductionHypothesis =>
      obtain ⟨head, first⟩ := entry
      rw [find?] at held
      by_cases same : head = key
      · rw [if_pos same, Option.some.injEq] at held
        rw [put, if_pos same, same, held]
      · rw [if_neg same] at held
        rw [put, if_neg same, inductionHypothesis held]

/-- A change that leaves the value alone leaves the table alone. -/
theorem modify_of_same {table : Table κ α} {key : κ} {change : α → α}
    (same : ∀ value, table.get? key = some value → change value = value) :
    table.modify key change = table := by
  unfold modify
  cases held : table.get? key with
  | none => rfl
  | some value =>
      simp only [same value held, insert]
      rw [put_of_held held]

/-- A pair that takes the place of another counts in its stead. -/
theorem countP_put_of_held {entries : List (κ × α)} {key : κ} {old : α} (value : α)
    (counts : κ × α → Bool) (held : find? key entries = some old) :
    (put key value entries).countP counts + (counts (key, old)).toNat =
      entries.countP counts + (counts (key, value)).toNat := by
  induction entries with
  | nil => simp [find?] at held
  | cons entry rest inductionHypothesis =>
      obtain ⟨head, first⟩ := entry
      rw [find?] at held
      by_cases same : head = key
      · rw [if_pos same, Option.some.injEq] at held
        rw [put, if_pos same, same, held, List.countP_cons, List.countP_cons]
        cases counts (key, value) <;> cases counts (key, old) <;> simp
      · rw [if_neg same] at held
        have counted := inductionHypothesis held
        rw [put, if_neg same, List.countP_cons, List.countP_cons]
        omega

/-! ### Sizes -/

omit [DecidableEq κ] in
theorem size_eq_length_keys (table : Table κ α) : table.size = table.keys.length :=
  (List.length_map Prod.fst).symm

theorem size_insert_le (table : Table κ α) (key : κ) (value : α) :
    table.size ≤ (table.insert key value).size := by
  rw [size_eq_length_keys, size_eq_length_keys]
  show table.keys.length ≤ ((put key value table.entries).map Prod.fst).length
  rw [keys_put]
  split
  · exact Nat.le_refl _
  · rw [List.length_append]
    exact Nat.le_add_right _ _

theorem size_insert_of_absent {table : Table κ α} {key : κ} {value : α}
    (absent : table.get? key = none) : (table.insert key value).size = table.size + 1 := by
  have unlisted : key ∉ table.keys := by
    rw [← isSome_get?_iff, absent]
    exact Bool.false_ne_true
  rw [size, entries_insert_of_absent value unlisted, List.length_append]
  rfl

theorem size_modify_le (table : Table κ α) (key : κ) (change : α → α) :
    table.size ≤ (table.modify key change).size := by
  unfold modify
  split
  · exact size_insert_le table key _
  · exact Nat.le_refl _

end KernelTuner.Table
