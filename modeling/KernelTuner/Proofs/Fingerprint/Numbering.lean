import KernelTuner.Proofs.Fingerprint.Token
import Mathlib.Data.List.Forall2
import Mathlib.Data.Set.Function

/-!
Contract: numbering by first use.

Owns: the list of first uses and the number of an element in it;
`numbers_eq_iff_renaming`, by which two lists have the same numbers exactly when one
injective renaming leads from the first to the second.

Does not own: what is numbered. Fingerprints number buffer identities.
-/

set_option autoImplicit false

namespace KernelTuner

variable {α β : Type} [DecidableEq α] [DecidableEq β]

namespace FirstUse

/-- Adds an element behind those seen so far, unless it is one of them. -/
def note (seen : List α) (element : α) : List α :=
  if element ∈ seen then seen else seen ++ [element]

/-- What has been seen after `elements`. -/
def noteAll (seen elements : List α) : List α := elements.foldl note seen

/-- The number of an element: its place among the first uses. -/
def number (elements : List α) (element : α) : Nat := (noteAll [] elements).idxOf element

theorem note_of_mem {seen : List α} {element : α} (member : element ∈ seen) :
    note seen element = seen := if_pos member

theorem note_of_not_mem {seen : List α} {element : α} (fresh : element ∉ seen) :
    note seen element = seen ++ [element] := if_neg fresh

theorem mem_note {seen : List α} {element other : α} :
    other ∈ note seen element ↔ other ∈ seen ∨ other = element := by
  by_cases member : element ∈ seen
  · rw [note_of_mem member]
    constructor
    · exact Or.inl
    · rintro (earlier | rfl)
      · exact earlier
      · exact member
  · simp [note_of_not_mem member]

theorem mem_noteAll {seen elements : List α} {element : α} :
    element ∈ noteAll seen elements ↔ element ∈ seen ∨ element ∈ elements := by
  induction elements generalizing seen with
  | nil => simp [noteAll]
  | cons first rest inductionHypothesis =>
      have step : noteAll seen (first :: rest) = noteAll (note seen first) rest := rfl
      rw [step, inductionHypothesis, mem_note, List.mem_cons, or_assoc]

/-- What has been seen stays in place. -/
theorem prefix_noteAll (seen elements : List α) : seen <+: noteAll seen elements := by
  induction elements generalizing seen with
  | nil => exact List.prefix_rfl
  | cons first rest inductionHypothesis =>
      have grown : seen <+: note seen first := by
        by_cases member : first ∈ seen
        · simp [note_of_mem member]
        · rw [note_of_not_mem member]
          exact List.prefix_append seen [first]
      exact grown.trans (inductionHypothesis (note seen first))

/-- Nothing is noted twice. -/
theorem nodup_noteAll {seen : List α} (distinct : seen.Nodup) (elements : List α) :
    (noteAll seen elements).Nodup := by
  induction elements generalizing seen with
  | nil => exact distinct
  | cons first rest inductionHypothesis =>
      apply inductionHypothesis
      by_cases member : first ∈ seen
      · rwa [note_of_mem member]
      · rw [note_of_not_mem member]
        refine List.nodup_append.2 ⟨distinct, List.pairwise_singleton _ first, ?_⟩
        rintro earlier among last isFirst rfl
        exact member (List.mem_singleton.1 isFirst ▸ among)

/-- An element keeps its number while more are seen. -/
theorem idxOf_noteAll {seen : List α} {element : α} (member : element ∈ seen)
    (elements : List α) : (noteAll seen elements).idxOf element = seen.idxOf element := by
  obtain ⟨added, extended⟩ := prefix_noteAll seen elements
  rw [← extended, List.idxOf_append_of_mem member]

theorem number_injOn {elements : List α} {left right : α} (member : left ∈ elements)
    (same : number elements left = number elements right) : left = right :=
  (List.idxOf_inj (mem_noteAll.2 (Or.inr member))).1 same

/-- What an injective renaming does to the elements it does to their first uses. -/
theorem noteAll_map {rename : α → β} {seen elements : List α}
    (injective : Set.InjOn rename {element | element ∈ noteAll seen elements}) :
    noteAll (seen.map rename) (elements.map rename) = (noteAll seen elements).map rename := by
  induction elements generalizing seen with
  | nil => rfl
  | cons first rest inductionHypothesis =>
      have step : noteAll seen (first :: rest) = noteAll (note seen first) rest := rfl
      rw [step] at injective
      have noted : note (seen.map rename) (rename first) = (note seen first).map rename := by
        by_cases member : first ∈ seen
        · rw [note_of_mem member, note_of_mem (List.mem_map_of_mem member)]
        · have apart : rename first ∉ seen.map rename := by
            rintro renamed
            obtain ⟨earlier, earlierSeen, same⟩ := List.mem_map.1 renamed
            have earlierKept : earlier ∈ noteAll (note seen first) rest :=
              mem_noteAll.2 (Or.inl (mem_note.2 (Or.inl earlierSeen)))
            have firstKept : first ∈ noteAll (note seen first) rest :=
              mem_noteAll.2 (Or.inl (mem_note.2 (Or.inr rfl)))
            exact member (injective earlierKept firstKept same ▸ earlierSeen)
          rw [note_of_not_mem member, note_of_not_mem apart, List.map_append]
          rfl
      calc noteAll (seen.map rename) ((first :: rest).map rename)
          = noteAll (note (seen.map rename) (rename first)) (rest.map rename) := rfl
        _ = noteAll ((note seen first).map rename) (rest.map rename) := by rw [noted]
        _ = (noteAll (note seen first) rest).map rename := inductionHypothesis injective

theorem idxOf_map_of_injOn {rename : α → β} {elements : List α} {element : α}
    (injective : Set.InjOn rename {element | element ∈ elements}) (member : element ∈ elements) :
    (elements.map rename).idxOf (rename element) = elements.idxOf element := by
  induction elements with
  | nil => cases member
  | cons first rest inductionHypothesis =>
      by_cases same : first = element
      · subst same
        simp
      · have apart : rename first ≠ rename element := fun equal =>
          same (injective List.mem_cons_self member equal)
        have later : element ∈ rest := (List.mem_cons.1 member).resolve_left (Ne.symm same)
        have restInjective : Set.InjOn rename {element | element ∈ rest} :=
          injective.mono fun _ => List.mem_cons_of_mem first
        rw [List.map_cons, List.idxOf_cons_ne _ apart, List.idxOf_cons_ne _ same,
          inductionHypothesis restInjective later]

/-- A renaming that keeps the elements apart keeps their numbers. -/
theorem number_map {rename : α → β} {elements : List α} {element : α}
    (injective : Set.InjOn rename {element | element ∈ elements}) (member : element ∈ elements) :
    number (elements.map rename) (rename element) = number elements element := by
  have onUses : Set.InjOn rename {element | element ∈ noteAll [] elements} :=
    injective.mono fun _ used => (mem_noteAll.1 used).resolve_left List.not_mem_nil
  have renamed : noteAll [] (elements.map rename) = (noteAll [] elements).map rename :=
    noteAll_map onUses
  unfold number
  rw [renamed, idxOf_map_of_injOn onUses (mem_noteAll.2 (Or.inr member))]

/-- The numbers of all elements in order. -/
def numbers (elements : List α) : List Nat := elements.map (number elements)

/-- The renaming that takes an element to the one with its number. -/
def matching [Inhabited β] (left : List α) (right : List β) (element : α) : β :=
  (noteAll [] right).getD (number left element) default

theorem matching_eq [Inhabited β] {left : List α} {right : List β} {element : α} {other : β}
    (member : other ∈ right) (same : number left element = number right other) :
    matching left right element = other := by
  have used : other ∈ noteAll [] right := mem_noteAll.2 (Or.inr member)
  unfold matching
  rw [same, List.getD_eq_getElem?_getD, number, List.getElem?_idxOf used]
  rfl

section SameNumbers

variable {left : List α} {right : List β}

theorem length_eq_of_numbers_eq (same : numbers left = numbers right) :
    left.length = right.length := by
  simpa [numbers] using congrArg List.length same

theorem number_getElem (same : numbers left = numbers right) {index : Nat}
    (leftBound : index < left.length) (rightBound : index < right.length) :
    number left left[index] = number right right[index] := by
  have sameAt : (numbers left)[index]? = (numbers right)[index]? := by rw [same]
  simpa [numbers, leftBound, rightBound] using sameAt

variable [Inhabited β]

theorem map_matching (same : numbers left = numbers right) :
    left.map (matching left right) = right := by
  apply List.ext_getElem
  · simpa using length_eq_of_numbers_eq same
  · intro index leftBound rightBound
    rw [List.getElem_map]
    have leftIndex : index < left.length := by simpa using leftBound
    exact matching_eq (List.getElem_mem rightBound) (number_getElem same leftIndex rightBound)

theorem number_matching (same : numbers left = numbers right) {element : α}
    (member : element ∈ left) :
    number right (matching left right element) = number left element := by
  obtain ⟨index, leftBound, rfl⟩ := List.getElem_of_mem member
  have rightBound : index < right.length := length_eq_of_numbers_eq same ▸ leftBound
  have sameNumber := number_getElem same leftBound rightBound
  rw [matching_eq (List.getElem_mem rightBound) sameNumber, sameNumber]

theorem bijOn_matching (same : numbers left = numbers right) :
    Set.BijOn (matching left right) {element | element ∈ left} {element | element ∈ right} := by
  have renamed := map_matching same
  refine ⟨?mapsTo, ?injective, ?surjective⟩
  case mapsTo =>
    intro element member
    have image : matching left right element ∈ left.map (matching left right) :=
      List.mem_map_of_mem member
    rwa [renamed] at image
  case injective =>
    intro first firstMember second secondMember equal
    apply number_injOn firstMember
    rw [← number_matching same firstMember, ← number_matching same secondMember, equal]
  case surjective =>
    intro element member
    have inMap : element ∈ left.map (matching left right) := by rwa [renamed]
    exact List.mem_map.1 inMap

end SameNumbers

/-- Two lists have the same numbers exactly when an injective renaming leads from the
first to the second. -/
theorem numbers_eq_iff_renaming [Inhabited β] {left : List α} {right : List β} :
    numbers left = numbers right ↔
      ∃ rename : α → β, right = left.map rename ∧
        Set.BijOn rename {element | element ∈ left} {element | element ∈ right} := by
  constructor
  · intro same
    exact ⟨matching left right, (map_matching same).symm, bijOn_matching same⟩
  · rintro ⟨rename, rfl, bijective⟩
    unfold numbers
    rw [List.map_map]
    apply List.map_congr_left
    intro element member
    exact (number_map bijective.injOn member).symm

end FirstUse

end KernelTuner
