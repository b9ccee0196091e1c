import KernelTuner.Proofs.Fingerprint.Token
import KernelTuner.Proofs.Program.Compiled
import KernelTuner.Variant.Profile
import Mathlib.Data.List.Nodup

/-!
Contract: kernels as their names find them.

Owns: the number of a variant, which every entry of it shows; `kernel_unique`, by which no
two kernels in the sources of one set have the same name; and `sources_scan_back`, by which
the sources name exactly the kernels of the variants, each once and each in front of its own
text.
-/

set_option autoImplicit false

namespace KernelTuner

/-! ### Numbers in names -/

/-- The digits of the first number in a name. -/
def numberIn (name : String) : List Char :=
  (name.toList.dropWhile fun character => !character.isDigit).takeWhile Char.isDigit

/-- A number between letters is read back. -/
theorem numberIn_eq {front back : String} (index : Nat)
    (lettered : front.toList.all (fun character => !character.isDigit) = true)
    (ended : back.toList.takeWhile Char.isDigit = []) :
    numberIn (front ++ toString index ++ back) = Nat.toDigits 10 index := by
  have digits : ∀ character ∈ Nat.toDigits 10 index, character.isDigit = true :=
    fun _ member => Nat.isDigit_of_mem_toDigits (by decide) (by decide) member
  have text : (front ++ toString index ++ back).toList =
      front.toList ++ (Nat.toDigits 10 index ++ back.toList) := by
    simp [String.toList_append]
  have kept : (Nat.toDigits 10 index ++ back.toList).dropWhile (fun character =>
      !character.isDigit) = Nat.toDigits 10 index ++ back.toList := by
    cases shown : Nat.toDigits 10 index with
    | nil => exact absurd shown Nat.toDigits_ne_nil
    | cons first rest =>
        have firstDigit := digits first (by rw [shown]; exact List.mem_cons_self)
        simp [firstDigit]
  rw [numberIn, text, List.dropWhile_append_of_pos (List.all_eq_true.1 lettered), kept,
    List.takeWhile_append_of_pos digits, ended, List.append_nil]

namespace Variant

variable {variant other : Variant} {index otherIndex : Nat} {slot otherSlot : Slot} {name : String}

theorem entry_numberIn (member : name ∈ variant.entries index slot) :
    numberIn name = Nat.toDigits 10 index := by
  have ending (front : String)
      (lettered : front.toList.all (fun character => !character.isDigit) = true) :
      numberIn (front ++ toString index) = Nat.toDigits 10 index := by
    have shown : numberIn (front ++ toString index ++ "") = Nat.toDigits 10 index :=
      numberIn_eq index lettered rfl
    rwa [String.append_empty] at shown
  cases slot with
  | primary =>
      cases variant with
      | vectorUpdate params =>
          rw [List.mem_singleton.1 member]
          exact ending "axpy" (by decide)
      | innerProduct params =>
          rcases List.mem_cons.1 member with rfl | second
          · exact numberIn_eq index (by decide) (by decide)
          · rw [List.mem_singleton.1 second]
            exact numberIn_eq index (by decide) (by decide)
      | matrixUpdate params =>
          rw [List.mem_singleton.1 member]
          exact ending "maxpy" (by decide)
      | matrixVector params =>
          rw [List.mem_singleton.1 member]
          exact ending "gemv" (by decide)
      | matrixProduct params =>
          rw [List.mem_singleton.1 member]
          exact ending "gemm" (by decide)
  | fallback =>
      cases variant with
      | matrixProduct params =>
          rw [List.mem_singleton.1 member]
          exact numberIn_eq index (by decide) (by decide)
      | _ => cases member

/-- Variants of different numbers have different entries. -/
theorem index_eq_of_entry (member : name ∈ variant.entries index slot)
    (otherMember : name ∈ other.entries otherIndex otherSlot) : index = otherIndex := by
  refine Token.toDigits_injective ?_
  rw [← entry_numberIn member, entry_numberIn otherMember]

theorem entries_nodup : (variant.entries index slot).Nodup := by
  have apart : InnerProduct.firstEntry index ≠ InnerProduct.secondEntry index := by
    intro same
    have ends : "dot" ++ toString index ++ "_0" = "dot" ++ toString index ++ "_1" := same
    rw [String.append_right_inj] at ends
    revert ends
    decide
  cases variant with
  | innerProduct params =>
      cases slot with
      | primary =>
          exact List.nodup_cons.2 ⟨List.mem_singleton.not.2 apart, List.nodup_singleton _⟩
      | fallback => exact List.nodup_nil
  | _ => cases slot <;> first | exact List.nodup_singleton _ | exact List.nodup_nil

end Variant

/-! ### Kernels of a set -/

namespace ProgramSet

variable {batch : Batch} {variants : List Variant} {emissions : List Emission}

/-- A kernel is the only one of its name among the kernels of a slot. -/
theorem kernel_unique (emitted : emissionsFrom batch 0 variants = .ok emissions) {place : Nat}
    {emission : Emission} (found : emissions[place]? = some emission) {slot : Slot}
    {kernel other : Kernel} (member : kernel ∈ emission.kernels slot)
    (otherMember : other ∈ (kernelsOf emissions slot).flatten) (sameName : other.name = kernel.name) :
    other = kernel := by
  obtain ⟨kernels, listed, within⟩ := List.mem_flatten.1 otherMember
  obtain ⟨otherEmission, otherListed, rfl⟩ := List.mem_map.1 listed
  obtain ⟨otherPlace, otherFound⟩ := List.mem_iff_getElem?.1 otherListed
  obtain ⟨variant, _, emits⟩ := variant_at emitted found
  obtain ⟨otherVariant, _, otherEmits⟩ := variant_at emitted otherFound
  have entry := List.mem_map_of_mem (f := Kernel.name) member
  have otherEntry := List.mem_map_of_mem (f := Kernel.name) within
  rw [Variant.emit_entries emits] at entry
  rw [Variant.emit_entries otherEmits, sameName] at otherEntry
  have samePlace := Variant.index_eq_of_entry entry otherEntry
  rw [Nat.zero_add, Nat.zero_add] at samePlace
  subst samePlace
  rw [found] at otherFound
  cases otherFound
  have distinct : ((emission.kernels slot).map Kernel.name).Nodup := by
    rw [Variant.emit_entries emits]
    exact Variant.entries_nodup
  exact List.inj_on_of_nodup_map distinct within member sameName

end ProgramSet

/-! ### Sources scanned back -/

namespace ProgramSet

variable {batch : Batch} {variants : List Variant} {emissions : List Emission}

/-- Numbered variants have different entries. -/
theorem nodup_entries (variants : List Variant) (slot : Slot) :
    (variants.zipIdx.flatMap fun numbered => numbered.1.entries numbered.2 slot).Nodup := by
  rw [List.nodup_flatMap]
  refine ⟨fun numbered _ => Variant.entries_nodup, ?_⟩
  have numbers : (variants.zipIdx.map Prod.snd).Nodup := by
    rw [List.zipIdx_map_snd]
    exact List.nodup_range'
  refine (List.pairwise_map.1 numbers).imp ?_
  intro first second different name own other
  exact different (Variant.index_eq_of_entry own other)

variable {context : ContextId} {fingerprint : Fingerprint} {device : Device} {force : Bool}
  {set : ProgramSet}

/-- The sources of a set pass the check of their braces and name, in the order of the variants,
every entry of every variant once, and nothing else. The text that stands under a name is the
kernel that the variant with its number emits. -/
theorem sources_scan_back
    (built : build context fingerprint device variants batch force = .ok set) (slot : Slot) :
    Source.rejection? [] (set.shell slot).source = none ∧
    Source.entries (set.shell slot).source =
      (variants.zipIdx.flatMap fun numbered => numbered.1.entries numbered.2 slot) ∧
    (Source.entries (set.shell slot).source).Nodup ∧
    ∀ (place : Nat) (variant : Variant), variants[place]? = some variant →
      ∃ emission, variant.emit place batch = .ok emission ∧
        (emission.kernels slot).map Kernel.name = variant.entries place slot ∧
        ∀ kernel ∈ emission.kernels slot, Source.Shows (set.shell slot).source kernel := by
  obtain ⟨emissions, emitted, rfl⟩ := build_eq_ok_iff.1 built
  have holds := assemble_holds context fingerprint device force emitted slot
  have entries := assemble_entries context fingerprint device force emitted slot
  refine ⟨?_, entries, ?_, ?_⟩
  · exact Source.rejection?_eq_none (assemble_balanced context fingerprint device force emitted slot)
  · rw [entries]
    exact nodup_entries variants slot
  · intro place variant found
    obtain ⟨emission, emissionFound, emits⟩ := emission_at emitted found
    rw [Nat.zero_add] at emits
    refine ⟨emission, emits, Variant.emit_entries emits slot, ?_⟩
    intro kernel member
    have listed : emission.kernels slot ∈ kernelsOf emissions slot :=
      List.mem_map_of_mem (List.mem_of_getElem? emissionFound)
    refine holds.shows (Variant.emit_legible emits slot kernel member).named
      (List.mem_flatten_of_mem listed member) ?_
    intro other otherMember sameName
    exact kernel_unique emitted emissionFound member otherMember sameName

/-- Two kinds of variant in one set. -/
theorem updates_scan_back :
    ∃ set,
      build ⟨1⟩ ⟨"sasvf0scvf1hf"⟩ .reference [.streaming, .baseline .matrixAxpy]
        (.scaling ⟨7⟩ ⟨5⟩ 8 3) false = .ok set ∧
      Source.rejection? [] (set.shell .primary).source = none ∧
      Source.entries (set.shell .primary).source = ["axpy0", "maxpy1"] ∧
      Source.entries (set.shell .fallback).source = [] := by
  obtain ⟨first, firstEmits⟩ : ∃ emission,
      Variant.streaming.emit 0 (.scaling ⟨7⟩ ⟨5⟩ 8 3) = .ok emission :=
    Variant.scaling_emits (by decide)
  obtain ⟨second, secondEmits⟩ : ∃ emission,
      (Variant.baseline .matrixAxpy).emit 1 (.scaling ⟨7⟩ ⟨5⟩ 8 3) = .ok emission := by
    have apart : (⟨7⟩ : BufferId) ≠ ⟨5⟩ := by decide
    obtain ⟨statements, stated⟩ :=
      Variant.scaling_stated apart (.element (.add (.mul (.var "i") (.var "N")) (.var "j")))
    exact ⟨_, bind_eq_ok_iff.2 ⟨statements, stated, rfl⟩⟩
  have last : emissionsFrom (.scaling ⟨7⟩ ⟨5⟩ 8 3) 2 [] = .ok [] := rfl
  have emitted := emissionsFrom_cons_eq_ok_iff.2 ⟨first, _, firstEmits,
    emissionsFrom_cons_eq_ok_iff.2 ⟨second, _, secondEmits, last, rfl⟩, rfl⟩
  have built : ∃ set, build ⟨1⟩ ⟨"sasvf0scvf1hf"⟩ .reference
      [.streaming, .baseline .matrixAxpy] (.scaling ⟨7⟩ ⟨5⟩ 8 3) false = .ok set :=
    ⟨_, build_eq_ok_iff.2 ⟨_, emitted, rfl⟩⟩
  obtain ⟨set, built⟩ := built
  obtain ⟨accepted, primary, -⟩ := sources_scan_back built .primary
  obtain ⟨-, fallback, -⟩ := sources_scan_back built .fallback
  exact ⟨set, built, accepted, primary.trans (by decide), fallback.trans (by decide)⟩

end ProgramSet

end KernelTuner
