import KernelTuner.Proofs.Program.Prepared
import KernelTuner.Proofs.Program.Requests

/-!
Contract: the slot of a program, as its source shows it.

Owns: entries, which belong to one slot only; and `slot_eq_of_source`, by which a program that
holds kernels has the source of no program of the other slot, in whatever set.
-/

set_option autoImplicit false

namespace KernelTuner

/-! ### Entries -/

namespace Variant

variable {variant other : Variant} {index otherIndex : Nat} {slot otherSlot : Slot} {name : String}

/-- The entries of fallback programs are those that end in a letter. -/
theorem entry_last (member : name ∈ variant.entries index slot) :
    name.toList.getLast?.any Char.isDigit = true ↔ slot = .primary := by
  have numbered (front : String) : (front ++ toString index).toList.getLast?.any Char.isDigit = true := by
    have digits : (toString index).toList = Nat.toDigits 10 index := by simp
    have last := List.getLast?_eq_some_getLast (Nat.toDigits_ne_nil (n := index) (b := 10))
    rw [String.toList_append, digits, List.getLast?_append, last]
    exact Nat.isDigit_of_mem_toDigits (by decide) (by decide) (List.getLast_mem _)
  have ended (front back : String) (last : back.toList.getLast? ≠ none) :
      (front ++ back).toList.getLast? = back.toList.getLast? := by
    obtain ⟨character, same⟩ := Option.ne_none_iff_exists'.1 last
    rw [String.toList_append, List.getLast?_append, same, Option.some_or]
  cases slot with
  | primary =>
      refine iff_of_true ?_ rfl
      cases variant with
      | vectorUpdate params =>
          rw [List.mem_singleton.1 member]
          exact numbered "axpy"
      | innerProduct params =>
          rcases List.mem_cons.1 member with rfl | second
          · exact (congrArg (Option.any Char.isDigit) (ended _ "_0" (by decide))).trans rfl
          · rw [List.mem_singleton.1 second]
            exact (congrArg (Option.any Char.isDigit) (ended _ "_1" (by decide))).trans rfl
      | matrixUpdate params =>
          rw [List.mem_singleton.1 member]
          exact numbered "maxpy"
      | matrixVector params =>
          rw [List.mem_singleton.1 member]
          exact numbered "gemv"
      | matrixProduct params =>
          rw [List.mem_singleton.1 member]
          exact numbered "gemm"
  | fallback =>
      refine iff_of_false ?_ nofun
      cases variant with
      | matrixProduct params =>
          rw [List.mem_singleton.1 member]
          have last := ended ("gemm" ++ toString index) "_fb" (by decide)
          exact ne_of_eq_of_ne (congrArg (Option.any Char.isDigit) last) (by decide)
      | _ => cases member

/-- An entry belongs to one slot. -/
theorem slot_eq_of_entry (member : name ∈ variant.entries index slot)
    (otherMember : name ∈ other.entries otherIndex otherSlot) : slot = otherSlot := by
  have together := (entry_last member).symm.trans (entry_last otherMember)
  cases slot with
  | primary => exact (together.1 rfl).symm
  | fallback =>
      cases otherSlot with
      | primary => exact together.2 rfl
      | fallback => rfl

end Variant

namespace ProgramSet

variable {batch : Batch} {variants : List Variant}

/-- A set that variants have been emitted into for some batch, stored under `key`. -/
def AssembledFor (variants : List Variant) (key : ProgramKey) (set : ProgramSet) : Prop :=
  ∃ batch device force emissions, emissionsFrom batch 0 variants = .ok emissions ∧
    set.uncompiled = assemble key.1 key.2 device force emissions

namespace AssembledFor

variable {key : ProgramKey} {set other : ProgramSet} {slot otherSlot : Slot}

theorem congr (assembled : set.AssembledFor variants key)
    (same : other.uncompiled = set.uncompiled) : other.AssembledFor variants key := by
  obtain ⟨batch, device, force, emissions, emitted, made⟩ := assembled
  exact ⟨batch, device, force, emissions, emitted, same.trans made⟩

theorem of_build {device : Device} {force : Bool}
    (built : build key.1 key.2 device variants batch force = .ok set) :
    set.AssembledFor variants key := by
  obtain ⟨emissions, emitted, rfl⟩ := build_eq_ok_iff.1 built
  exact ⟨batch, device, force, emissions, emitted, assemble_uncompiled⟩

/-- The programs of the set are requested under the names of its key. -/
theorem request (assembled : set.AssembledFor variants key) (slot : Slot) :
    (set.shell slot).context = key.1 ∧ (set.shell slot).name = key.2.slotName slot := by
  obtain ⟨batch, device, force, emissions, emitted, made⟩ := assembled
  obtain ⟨context, name, _⟩ := shell_of_assembled made slot
  exact ⟨context, name⟩

/-- What the compiler finds in a source are the entries of its slot. -/
theorem entries_eq (assembled : set.AssembledFor variants key) (slot : Slot) :
    Source.entries (set.shell slot).source =
      variants.zipIdx.flatMap fun numbered => numbered.1.entries numbered.2 slot := by
  obtain ⟨batch, device, force, emissions, emitted, made⟩ := assembled
  rw [← uncompiled_source, made, assemble_entries key.1 key.2 device force emitted slot]

/-- A program that holds kernels has the source of no program of the other slot. -/
theorem slot_eq_of_source {otherVariants : List Variant} {otherKey : ProgramKey}
    (assembled : set.AssembledFor variants key)
    (otherAssembled : other.AssembledFor otherVariants otherKey) {place : Nat} {variant : Variant}
    (found : variants[place]? = some variant) (used : variant.entries place slot ≠ [])
    (same : (other.shell otherSlot).source = (set.shell slot).source) : otherSlot = slot := by
  obtain ⟨entry, member⟩ := List.exists_mem_of_ne_nil _ used
  have entered : entry ∈ Source.entries (other.shell otherSlot).source := by
    rw [same, assembled.entries_eq]
    exact List.mem_flatMap.2 ⟨(variant, place), List.mem_zipIdx_iff_getElem?.2 found, member⟩
  rw [otherAssembled.entries_eq] at entered
  obtain ⟨numbered, _, otherMember⟩ := List.mem_flatMap.1 entered
  exact Variant.slot_eq_of_entry otherMember member

end AssembledFor

end ProgramSet

end KernelTuner
