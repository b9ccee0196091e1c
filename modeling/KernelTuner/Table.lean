/-!
Contract: finite maps kept as lists of pairs.

Owns: `get?`, `insert`, `modify`, and one equation per operation that says what
it does to `get?`. A present key keeps its place and a new key goes to the end,
so the listing order is the order of first insertion.

Does not own: any order on keys. A caller whose answers are ordered sorts the
listing.
-/

set_option autoImplicit false

namespace KernelTuner

universe u v w

/-- A finite map from `κ` to `α`, listed in order of first insertion. -/
structure Table (κ : Type u) (α : Type v) where
  entries : List (κ × α) := []
deriving Repr

namespace Table

variable {κ : Type u} {α : Type v}

instance : Inhabited (Table κ α) := ⟨{}⟩

def keys (table : Table κ α) : List κ :=
  table.entries.map Prod.fst

def size (table : Table κ α) : Nat :=
  table.entries.length

variable [DecidableEq κ]

/-- The value beside the first occurrence of `key`. -/
def find? (key : κ) : List (κ × α) → Option α
  | [] => none
  | (other, value) :: rest => if other = key then some value else find? key rest

/-- `entries` with `value` beside `key`, which is appended when it is new. -/
def put (key : κ) (value : α) : List (κ × α) → List (κ × α)
  | [] => [(key, value)]
  | (other, previous) :: rest =>
      if other = key then (key, value) :: rest else (other, previous) :: put key value rest

def get? (table : Table κ α) (key : κ) : Option α :=
  find? key table.entries

def insert (table : Table κ α) (key : κ) (value : α) : Table κ α :=
  ⟨put key value table.entries⟩

/-- Replaces the value of a present key; an absent key stays absent. -/
def modify (table : Table κ α) (key : κ) (change : α → α) : Table κ α :=
  match table.get? key with
  | some value => table.insert key (change value)
  | none => table

/-- All pairs of `additions`, each replacing what `table` held under its key. -/
def insertAll (table : Table κ α) (additions : List (κ × α)) : Table κ α :=
  additions.foldl (fun grown entry => grown.insert entry.1 entry.2) table

/-- The table without `key`. -/
def erase (table : Table κ α) (key : κ) : Table κ α :=
  ⟨table.entries.filter (fun entry => entry.1 ≠ key)⟩

theorem find?_put (key other : κ) (value : α) (entries : List (κ × α)) :
    find? other (put key value entries) =
      if key = other then some value else find? other entries := by
  induction entries with
  | nil => simp [put, find?]
  | cons entry rest inductionHypothesis =>
      obtain ⟨head, previous⟩ := entry
      by_cases present : head = key
      · subst present
        by_cases same : head = other <;> simp [put, find?, same]
      · by_cases same : head = other
        · subst same
          have apart : ¬ key = head := fun equal => present equal.symm
          simp [put, find?, present, apart]
        · simp [put, find?, present, same, inductionHypothesis]

@[simp] theorem get?_empty (key : κ) : ({} : Table κ α).get? key = none := rfl

theorem get?_insert (table : Table κ α) (key other : κ) (value : α) :
    (table.insert key value).get? other =
      if key = other then some value else table.get? other :=
  find?_put key other value table.entries

theorem get?_modify (table : Table κ α) (key other : κ) (change : α → α) :
    (table.modify key change).get? other =
      if key = other then (table.get? other).map change else table.get? other := by
  unfold modify
  by_cases same : key = other
  · subst same
    cases held : table.get? key with
    | none => simp [held]
    | some value => simp [get?_insert]
  · cases table.get? key with
    | none => simp [same]
    | some value => simp [get?_insert, same]

end Table

end KernelTuner
