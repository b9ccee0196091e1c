import KernelTuner.Action
import KernelTuner.Table

/-!
Contract: maps whose values are built at most once per key.

Owns: the lookup that builds on a miss. Every key that was asked for has a slot;
a failed build leaves its slot empty, so that the next lookup builds again.
-/

set_option autoImplicit false

namespace KernelTuner

/-- Slots by key; an empty slot belongs to a key whose builds have all failed. -/
structure BuildOnce (κ α : Type) where
  slots : Table κ (Option α) := {}

namespace BuildOnce

variable {κ α ς : Type} [DecidableEq κ]

/-- The value stored under `key`. -/
def get? (cache : BuildOnce κ α) (key : κ) : Option α := (cache.slots.get? key).join

/-- Number of keys with a stored value. -/
def size (cache : BuildOnce κ α) : Nat :=
  cache.slots.entries.countP (fun entry => entry.2.isSome)

/-- Makes a slot for `key` unless there is one. -/
def reserve (cache : BuildOnce κ α) (key : κ) : BuildOnce κ α :=
  match cache.slots.get? key with
  | some _ => cache
  | none => ⟨cache.slots.insert key none⟩

/-- The stored value and `true`, or the value that `build` gives and `false`. A
build is not run when there is a value, and one that fails stores nothing. -/
def getOrTryBuild (key : κ) (build : Action ς α) : Action (BuildOnce κ α × ς) (α × Bool) :=
  fun (cache, state) =>
    let cache := cache.reserve key
    match cache.get? key with
    | some value => (.ok (value, true), cache, state)
    | none =>
        match build state with
        | (.ok value, state) => (.ok (value, false), ⟨cache.slots.insert key (some value)⟩, state)
        | (.error cause, state) => (.error cause, cache, state)

/-- Replaces a stored value in place. -/
def modify (cache : BuildOnce κ α) (key : κ) (change : α → α) : BuildOnce κ α :=
  ⟨cache.slots.modify key (Option.map change)⟩

end BuildOnce

end KernelTuner
