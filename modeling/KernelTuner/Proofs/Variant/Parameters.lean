import KernelTuner.Proofs.Expression.PrefixNotation
import KernelTuner.Proofs.Fingerprint.Numbering
import KernelTuner.Variant.ElementWise
import Mathlib.Data.List.Induction

/-!
Contract: the parameters of element-wise kernels as a numbering by first use.

Owns: the occurrences of leaves, by which parameters are told apart; `collected_stand`,
by which the parameters stand for the first uses of occurrences; and what follows for
positions, host scalars, launch arguments and declarations.

Does not own: the statements that refer to parameters.
-/

set_option autoImplicit false

namespace KernelTuner

/-! ### Occurrences -/

/-- What parameters are told apart by: the identity of a buffer, or the place of a
host scalar among all leaves. -/
inductive Occurrence where
  | buffer (id : BufferId)
  | scalar (index : Nat)
deriving DecidableEq, Inhabited

/-- The occurrence of the leaf at place `index`. -/
def Leaf.occurrence (index : Nat) : Leaf → Occurrence
  | .buffer handle => .buffer handle.id
  | .scalar _ _ => .scalar index

/-- What a launch passes for a leaf. -/
def Leaf.argument : Leaf → Argument
  | .buffer handle => .buffer handle.id
  | .scalar _ value => .scalar value

/-- The occurrences of leaves, the first of which has place `start`. -/
def occurrencesFrom (start : Nat) : List Leaf → List Occurrence
  | [] => []
  | leaf :: rest => leaf.occurrence start :: occurrencesFrom (start + 1) rest

theorem occurrencesFrom_append (start : Nat) (front back : List Leaf) :
    occurrencesFrom start (front ++ back) =
      occurrencesFrom start front ++ occurrencesFrom (start + front.length) back := by
  induction front generalizing start with
  | nil => rfl
  | cons leaf rest inductionHypothesis =>
      simp only [List.cons_append, occurrencesFrom, inductionHypothesis, List.length_cons]
      rw [Nat.add_right_comm, Nat.add_assoc start rest.length 1]

theorem occurrencesFrom_concat (front : List Leaf) (leaf : Leaf) :
    occurrencesFrom 0 (front ++ [leaf]) =
      occurrencesFrom 0 front ++ [leaf.occurrence front.length] := by
  rw [occurrencesFrom_append, Nat.zero_add]
  rfl

theorem getElem?_occurrencesFrom (start : Nat) (leaves : List Leaf) (index : Nat) :
    (occurrencesFrom start leaves)[index]? =
      leaves[index]?.map (Leaf.occurrence (start + index)) := by
  induction leaves generalizing start index with
  | nil => rfl
  | cons leaf rest inductionHypothesis =>
      cases index with
      | zero => rfl
      | succ index =>
          simp only [occurrencesFrom, List.getElem?_cons_succ, inductionHypothesis]
          rw [Nat.add_assoc, Nat.add_comm 1 index]

/-- A place beyond the leaves is no occurrence of them. -/
theorem scalar_not_mem_occurrencesFrom (leaves : List Leaf) :
    Occurrence.scalar leaves.length ∉ occurrencesFrom 0 leaves := by
  intro member
  obtain ⟨index, found⟩ := List.mem_iff_getElem?.1 member
  rw [getElem?_occurrencesFrom] at found
  obtain ⟨leaf, leafFound, same⟩ := Option.map_eq_some_iff.1 found
  obtain ⟨bound, _⟩ := List.getElem?_eq_some_iff.1 leafFound
  cases leaf with
  | buffer handle => cases same
  | scalar elementType value =>
      have places := Occurrence.scalar.inj same
      omega

/-! ### Parameters -/

namespace Bindings

/-- A parameter stands for an occurrence among `leaves`: for a buffer it is some
handle of that identity, for a host scalar the very leaf. -/
def Stands (leaves : List Leaf) (parameter : Leaf) : Occurrence → Prop
  | .buffer id => parameter.isBuffer id = true
  | .scalar index => parameter.isScalar = true ∧ leaves[index]? = some parameter

/-- The parameters that leaves are given. -/
def collected (leaves : List Leaf) : Bindings := ⟨leaves.foldl Bindings.bind []⟩

/-- The occurrences that have parameters, in order. -/
def uses (leaves : List Leaf) : List Occurrence :=
  FirstUse.noteAll [] (occurrencesFrom 0 leaves)

/-- The position of the parameter for an occurrence. -/
def place (leaves : List Leaf) (occurrence : Occurrence) : Nat :=
  FirstUse.number (occurrencesFrom 0 leaves) occurrence

theorem Stands.concat {leaves : List Leaf} {parameter : Leaf} {occurrence : Occurrence}
    (stands : Stands leaves parameter occurrence) (leaf : Leaf) :
    Stands (leaves ++ [leaf]) parameter occurrence := by
  cases occurrence with
  | buffer id => exact stands
  | scalar index =>
      obtain ⟨isScalar, found⟩ := stands
      obtain ⟨inside, _⟩ := List.getElem?_eq_some_iff.1 found
      exact ⟨isScalar, by rw [List.getElem?_append_left inside, found]⟩

theorem collected_concat (leaves : List Leaf) (leaf : Leaf) :
    (collected (leaves ++ [leaf])).parameters =
      Bindings.bind (collected leaves).parameters leaf := by
  simp only [collected, List.foldl_append, List.foldl_cons, List.foldl_nil]

theorem uses_concat (leaves : List Leaf) (leaf : Leaf) :
    uses (leaves ++ [leaf]) =
      FirstUse.note (uses leaves) (leaf.occurrence leaves.length) := by
  simp only [uses, occurrencesFrom_concat, FirstUse.noteAll, List.foldl_append, List.foldl_cons,
    List.foldl_nil]

theorem Stands.isBuffer_eq {leaves : List Leaf} {parameter : Leaf} {occurrence : Occurrence}
    (stands : Stands leaves parameter occurrence) (id : BufferId) :
    parameter.isBuffer id = decide (occurrence = .buffer id) := by
  cases occurrence with
  | buffer other =>
      cases parameter with
      | buffer handle =>
          have same : handle.id = other := by simpa [Stands, Leaf.isBuffer] using stands
          simp [Leaf.isBuffer, same]
      | scalar elementType value => cases stands
  | scalar index =>
      cases parameter with
      | buffer handle => cases stands.1
      | scalar elementType value => simp [Leaf.isBuffer]

theorem any_isBuffer_iff {leaves parameters : List Leaf} {occurrences : List Occurrence}
    (stand : List.Forall₂ (Stands leaves) parameters occurrences) (id : BufferId) :
    parameters.any (Leaf.isBuffer id) = true ↔ Occurrence.buffer id ∈ occurrences := by
  induction stand with
  | nil => simp
  | cons first _ inductionHypothesis =>
      rw [List.any_cons, Bool.or_eq_true, inductionHypothesis, first.isBuffer_eq,
        decide_eq_true_iff, List.mem_cons, eq_comm]

/-- The parameters stand, one by one, for the first uses of occurrences. -/
theorem collected_stand (leaves : List Leaf) :
    List.Forall₂ (Stands leaves) (collected leaves).parameters (uses leaves) := by
  induction leaves using List.reverseRecOn with
  | nil => exact .nil
  | append_singleton leaves leaf inductionHypothesis =>
      have kept : List.Forall₂ (Stands (leaves ++ [leaf])) (collected leaves).parameters
          (uses leaves) := inductionHypothesis.imp fun _ _ stands => stands.concat leaf
      rw [collected_concat, uses_concat]
      cases leaf with
      | buffer handle =>
          by_cases member : Occurrence.buffer handle.id ∈ uses leaves
          · have present := (any_isBuffer_iff kept handle.id).2 member
            simp only [Bindings.bind, present, ↓reduceIte, Leaf.occurrence,
              FirstUse.note_of_mem member]
            exact kept
          · have absent := mt (any_isBuffer_iff kept handle.id).1 member
            simp only [Bindings.bind, absent, Leaf.occurrence, FirstUse.note_of_not_mem member]
            have last : Stands (leaves ++ [.buffer handle]) (.buffer handle)
                (.buffer handle.id) := decide_eq_true rfl
            exact List.rel_append kept (.cons last .nil)
      | scalar elementType value =>
          have fresh : Occurrence.scalar leaves.length ∉ uses leaves := fun member =>
            scalar_not_mem_occurrencesFrom leaves
              ((FirstUse.mem_noteAll.1 member).resolve_left List.not_mem_nil)
          simp only [Bindings.bind, Leaf.occurrence, FirstUse.note_of_not_mem fresh]
          have last : Stands (leaves ++ [.scalar elementType value]) (.scalar elementType value)
              (.scalar leaves.length) := ⟨rfl, List.getElem?_concat_length⟩
          exact List.rel_append kept (.cons last .nil)

/-! ### Positions -/

theorem mem_occurrences {leaves : List Leaf} {leaf : Leaf} {index : Nat}
    (found : leaves[index]? = some leaf) : leaf.occurrence index ∈ occurrencesFrom 0 leaves := by
  apply List.mem_iff_getElem?.2
  exact ⟨index, by rw [getElem?_occurrencesFrom, found, Nat.zero_add, Option.map_some]⟩

theorem findIdx?_eq_of_forall₂ {α β : Type} {related : α → β → Prop} {first : α → Bool}
    {second : β → Bool} {left : List α} {right : List β} (stand : List.Forall₂ related left right)
    (same : ∀ a b, related a b → first a = second b) : left.findIdx? first = right.findIdx? second := by
  induction stand with
  | nil => rfl
  | cons head _ inductionHypothesis =>
      rw [List.findIdx?_cons, List.findIdx?_cons, same _ _ head, inductionHypothesis]

/-- A buffer that occurs has a parameter, at its place. -/
theorem position?_collected {leaves : List Leaf} {id : BufferId}
    (member : Occurrence.buffer id ∈ occurrencesFrom 0 leaves) :
    (collected leaves).position? id = some (place leaves (.buffer id)) := by
  have used : Occurrence.buffer id ∈ uses leaves := FirstUse.mem_noteAll.2 (Or.inr member)
  have found : (collected leaves).position? id = (uses leaves).idxOf? (.buffer id) := by
    apply findIdx?_eq_of_forall₂ (collected_stand leaves)
    intro parameter occurrence stands
    rw [stands.isBuffer_eq]
    rfl
  rw [found, place, FirstUse.number, List.idxOf_eq_getD_idxOf?]
  obtain ⟨number, held⟩ := Option.isSome_iff_exists.1 (List.isSome_idxOf?.2 used)
  rw [uses] at held
  rw [uses, held, Option.getD_some]

/-- The parameter at the place of a leaf stands for the leaf. -/
theorem stands_at_place {leaves : List Leaf} {occurrence : Occurrence}
    (member : occurrence ∈ occurrencesFrom 0 leaves) :
    ∃ parameter, (collected leaves).parameters[place leaves occurrence]? = some parameter ∧
      Stands leaves parameter occurrence := by
  have used : occurrence ∈ uses leaves := FirstUse.mem_noteAll.2 (Or.inr member)
  obtain ⟨sameLength, pointwise⟩ := List.forall₂_iff_get.1 (collected_stand leaves)
  have inside : place leaves occurrence < (uses leaves).length := List.idxOf_lt_length_of_mem used
  have parameterInside : place leaves occurrence < (collected leaves).parameters.length :=
    sameLength ▸ inside
  refine ⟨_, List.getElem?_eq_getElem parameterInside, ?_⟩
  have stands := pointwise _ parameterInside inside
  have atPlace : (uses leaves).get ⟨place leaves occurrence, inside⟩ = occurrence :=
    List.getElem_idxOf inside
  rwa [atPlace] at stands

/-- A buffer has no other parameter. -/
theorem place_of_parameter {leaves : List Leaf} {position : Nat} {handle : Buffer}
    (found : (collected leaves).parameters[position]? = some (.buffer handle)) :
    place leaves (.buffer handle.id) = position := by
  obtain ⟨sameLength, pointwise⟩ := List.forall₂_iff_get.1 (collected_stand leaves)
  obtain ⟨parameterInside, parameter⟩ := List.getElem?_eq_some_iff.1 found
  have inside : position < (uses leaves).length := sameLength ▸ parameterInside
  have stands := (pointwise position parameterInside inside).isBuffer_eq handle.id
  rw [List.get_eq_getElem, List.get_eq_getElem, parameter, Leaf.isBuffer, decide_eq_decide] at stands
  have distinct : (uses leaves).Nodup := FirstUse.nodup_noteAll List.nodup_nil _
  have same : (uses leaves)[position] = .buffer handle.id := stands.1 rfl
  have number : (uses leaves).idxOf (uses leaves)[position] = position :=
    distinct.idxOf_getElem position inside
  rwa [same] at number

/-! ### Launch arguments -/

theorem arguments_eq (bindings : Bindings) :
    bindings.arguments = bindings.parameters.map Leaf.argument := by
  apply List.map_congr_left
  intro parameter _
  cases parameter <;> rfl

/-- At the place of a leaf a launch passes that leaf. -/
theorem argument_at_place {leaves : List Leaf} {leaf : Leaf} {index : Nat}
    (found : leaves[index]? = some leaf) :
    (collected leaves).arguments[place leaves (leaf.occurrence index)]? = some leaf.argument := by
  obtain ⟨parameter, held, stands⟩ := stands_at_place (mem_occurrences found)
  rw [arguments_eq, List.getElem?_map, held, Option.map_some]
  congr 1
  cases leaf with
  | buffer handle =>
      cases parameter with
      | buffer other =>
          have same : other.id = handle.id := of_decide_eq_true stands
          rw [Leaf.argument, Leaf.argument, same]
      | scalar elementType value => cases stands
  | scalar elementType value =>
      obtain ⟨_, same⟩ := stands
      rw [found] at same
      rw [Option.some.inj same]

/-- Two leaves share a parameter when they are one leaf or one buffer. -/
theorem place_eq_iff {leaves : List Leaf} {left right : Leaf} {leftIndex rightIndex : Nat}
    (leftFound : leaves[leftIndex]? = some left) (rightFound : leaves[rightIndex]? = some right) :
    place leaves (left.occurrence leftIndex) = place leaves (right.occurrence rightIndex) ↔
      leftIndex = rightIndex ∨
        ∃ first second, left = .buffer first ∧ right = .buffer second ∧ first.id = second.id := by
  constructor
  · intro same
    have occurrences := FirstUse.number_injOn (mem_occurrences leftFound) same
    cases left with
    | buffer first =>
        cases right with
        | buffer second => exact Or.inr ⟨first, second, rfl, rfl, Occurrence.buffer.inj occurrences⟩
        | scalar elementType value => cases occurrences
    | scalar leftType leftValue =>
        cases right with
        | buffer second => cases occurrences
        | scalar rightType rightValue => exact Or.inl (Occurrence.scalar.inj occurrences)
  · rintro (rfl | ⟨first, second, rfl, rfl, sameId⟩)
    · rw [leftFound] at rightFound
      rw [Option.some.inj rightFound]
    · rw [Leaf.occurrence, Leaf.occurrence, sameId]

/-! ### Host scalars -/

/-- The positions of the parameters for the host scalars among occurrences. -/
def scalarPlaces (leaves : List Leaf) (occurrences : List Occurrence) : List Nat :=
  occurrences.filterMap fun occurrence =>
    match occurrence with
    | .buffer _ => none
    | .scalar index => some (place leaves (.scalar index))

theorem scalarPositions_concat (parameters : List Leaf) (leaf : Leaf) :
    Bindings.scalarPositions ⟨parameters ++ [leaf]⟩ =
      Bindings.scalarPositions ⟨parameters⟩ ++
        if leaf.isScalar then [parameters.length] else [] := by
  simp only [Bindings.scalarPositions, List.zipIdx_append, List.filterMap_append]
  cases leaf <;> simp [Leaf.isScalar]

theorem place_concat {leaves : List Leaf} {occurrence : Occurrence}
    (member : occurrence ∈ occurrencesFrom 0 leaves) (leaf : Leaf) :
    place (leaves ++ [leaf]) occurrence = place leaves occurrence := by
  have used : occurrence ∈ uses leaves := FirstUse.mem_noteAll.2 (Or.inr member)
  have grown : uses (leaves ++ [leaf]) =
      FirstUse.noteAll (uses leaves) [leaf.occurrence leaves.length] := uses_concat leaves leaf
  have kept : (uses (leaves ++ [leaf])).idxOf occurrence = (uses leaves).idxOf occurrence := by
    rw [grown, FirstUse.idxOf_noteAll used]
  exact kept

theorem scalarPlaces_concat (leaves : List Leaf) (leaf : Leaf) :
    scalarPlaces (leaves ++ [leaf]) (occurrencesFrom 0 leaves) =
      scalarPlaces leaves (occurrencesFrom 0 leaves) := by
  apply List.filterMap_congr
  intro occurrence member
  cases occurrence with
  | buffer id => rfl
  | scalar index => exact congrArg some (place_concat member leaf)

/-- The host scalars have parameters in the order of their occurrence. -/
theorem scalarPositions_collected (leaves : List Leaf) :
    (collected leaves).scalarPositions = scalarPlaces leaves (occurrencesFrom 0 leaves) := by
  induction leaves using List.reverseRecOn with
  | nil => rfl
  | append_singleton leaves leaf inductionHypothesis =>
      have split : scalarPlaces (leaves ++ [leaf]) (occurrencesFrom 0 (leaves ++ [leaf])) =
          scalarPlaces (leaves ++ [leaf]) (occurrencesFrom 0 leaves) ++
            scalarPlaces (leaves ++ [leaf]) [leaf.occurrence leaves.length] := by
        rw [occurrencesFrom_concat, scalarPlaces, List.filterMap_append]
        rfl
      have grown : (collected (leaves ++ [leaf])).scalarPositions =
          Bindings.scalarPositions ⟨Bindings.bind (collected leaves).parameters leaf⟩ := by
        rw [← collected_concat]
      rw [split, scalarPlaces_concat, ← inductionHypothesis, grown]
      cases leaf with
      | buffer handle =>
          have noScalar : scalarPlaces (leaves ++ [.buffer handle])
              [(Leaf.buffer handle).occurrence leaves.length] = [] := rfl
          rw [noScalar, List.append_nil, Bindings.bind]
          split
          · rfl
          · rw [scalarPositions_concat]
            simp [Leaf.isScalar]
      | scalar elementType value =>
          have fresh : Occurrence.scalar leaves.length ∉ uses leaves := fun member =>
            scalar_not_mem_occurrencesFrom leaves
              ((FirstUse.mem_noteAll.1 member).resolve_left List.not_mem_nil)
          have last : place (leaves ++ [.scalar elementType value]) (.scalar leaves.length) =
              (collected leaves).parameters.length := by
            have grownBound := uses_concat leaves (.scalar elementType value)
            rw [Leaf.occurrence, FirstUse.note_of_not_mem fresh] at grownBound
            have found : (uses (leaves ++ [.scalar elementType value])).idxOf
                (.scalar leaves.length) = (uses leaves).length := by
              rw [grownBound, List.idxOf_append_of_notMem fresh, List.idxOf_cons_self, Nat.add_zero]
            rw [(collected_stand leaves).length_eq]
            exact found
          simp only [Bindings.bind, scalarPositions_concat, Leaf.isScalar, ↓reduceIte,
            scalarPlaces, Leaf.occurrence, List.filterMap_cons, List.filterMap_nil, last]

end Bindings

end KernelTuner
