import KernelTuner.Proofs.Fingerprint.Structure
import KernelTuner.Proofs.Variant.Rendering

/-!
Contract: the parameters of batches of one name.

Owns: what two batches with the same tokens have in common in an element-wise kernel.
Corresponding leaves have the same places (`places_eq`), and the kernels declare the
same parameters (`declarations_eq`).
-/

set_option autoImplicit false

namespace KernelTuner

variable {rename : BufferId → BufferId}

/-- Leaves that differ in values, sizes and, by `rename`, identities. -/
inductive Leaf.Alike (rename : BufferId → BufferId) : Leaf → Leaf → Prop where
  | buffer {left right : Buffer} (alike : left.Alike rename right) :
      Alike rename (.buffer left) (.buffer right)
  | scalar (elementType : ElementType) (left right : Float) :
      Alike rename (.scalar elementType left) (.scalar elementType right)

theorem Symbol.leaves_alike {left right : List Symbol}
    (alike : List.Forall₂ (Symbol.Alike rename) left right) :
    List.Forall₂ (Leaf.Alike rename) (left.filterMap Symbol.leaf?)
      (right.filterMap Symbol.leaf?) := by
  induction alike with
  | nil => exact .nil
  | cons head _ inductionHypothesis =>
      rw [List.filterMap_cons, List.filterMap_cons]
      cases head with
      | operator found => exact inductionHypothesis
      | buffer handles => exact .cons (.buffer handles) inductionHypothesis
      | scalar elementType left right =>
          exact .cons (.scalar elementType left right) inductionHypothesis

/-- The same occurrence after a renaming of buffers. -/
def Occurrence.renamed (rename : BufferId → BufferId) : Occurrence → Occurrence
  | .buffer id => .buffer (rename id)
  | .scalar index => .scalar index

theorem occurrences_of_alike {left right : List Leaf}
    (alike : List.Forall₂ (Leaf.Alike rename) left right) (start : Nat) :
    occurrencesFrom start right = (occurrencesFrom start left).map (Occurrence.renamed rename) := by
  induction alike generalizing start with
  | nil => rfl
  | cons head _ inductionHypothesis =>
      simp only [occurrencesFrom, List.map_cons, inductionHypothesis]
      congr 1
      cases head with
      | buffer handles => exact congrArg Occurrence.buffer handles.id
      | scalar elementType left right => rfl

theorem buffer_mem_occurrencesFrom {leaves : List Leaf} {start : Nat} {id : BufferId} :
    Occurrence.buffer id ∈ occurrencesFrom start leaves ↔
      ∃ handle, Leaf.buffer handle ∈ leaves ∧ handle.id = id := by
  induction leaves generalizing start with
  | nil => simp [occurrencesFrom]
  | cons leaf rest inductionHypothesis =>
      rw [occurrencesFrom, List.mem_cons, inductionHypothesis]
      cases leaf with
      | buffer handle => simp [Leaf.occurrence, eq_comm, or_and_right, exists_or]
      | scalar elementType value => simp [Leaf.occurrence]

namespace Batch

theorem leaves_eq (batch : Batch) : batch.leaves = batch.symbols.filterMap Symbol.leaf? := by
  simp only [leaves, symbols, List.filterMap_flatMap, Tree.symbols_leaves]

theorem mem_ids_of_leaf {batch : Batch} {handle : Buffer} (member : .buffer handle ∈ batch.leaves) :
    handle.id ∈ batch.ids := by
  rw [leaves_eq] at member
  obtain ⟨symbol, symbolMember, shows⟩ := List.mem_filterMap.1 member
  cases symbol with
  | operator found => cases shows
  | leaf found =>
      cases shows
      exact mem_ids symbolMember rfl

variable {left right : Batch}

theorem SymbolsAlike.leaves (alike : SymbolsAlike rename left right) :
    List.Forall₂ (Leaf.Alike rename) left.leaves right.leaves := by
  rw [leaves_eq, leaves_eq]
  exact Symbol.leaves_alike alike.symbols

theorem SymbolsAlike.injOn_occurrences (alike : SymbolsAlike rename left right) :
    Set.InjOn (Occurrence.renamed rename)
      {occurrence | occurrence ∈ occurrencesFrom 0 left.leaves} := by
  have idOf {id : BufferId} (member : Occurrence.buffer id ∈ occurrencesFrom 0 left.leaves) :
      id ∈ left.ids := by
    obtain ⟨handle, leafMember, rfl⟩ := buffer_mem_occurrencesFrom.1 member
    exact mem_ids_of_leaf leafMember
  intro first firstMember second secondMember same
  cases first with
  | buffer firstId =>
      cases second with
      | buffer secondId =>
          have sameId := alike.bijective.injOn (idOf firstMember) (idOf secondMember)
            (Occurrence.buffer.inj same)
          rw [sameId]
      | scalar index => cases same
  | scalar firstIndex =>
      cases second with
      | buffer secondId => cases same
      | scalar secondIndex => exact same

/-- Corresponding occurrences have parameters at the same position. -/
theorem SymbolsAlike.place_eq (alike : SymbolsAlike rename left right) {occurrence : Occurrence}
    (member : occurrence ∈ occurrencesFrom 0 left.leaves) :
    Bindings.place right.leaves (occurrence.renamed rename) =
      Bindings.place left.leaves occurrence := by
  have kept := FirstUse.number_map alike.injOn_occurrences member
  rwa [← occurrences_of_alike alike.leaves 0] at kept

/-- Corresponding leaves have the same places. -/
theorem SymbolsAlike.places_eq (alike : SymbolsAlike rename left right) :
    left.places = right.places := by
  rw [places, places, occurrences_of_alike alike.leaves 0, List.map_map]
  apply List.map_congr_left
  intro occurrence member
  exact (alike.place_eq member).symm

theorem isBuffer_of_alike {ids : Set BufferId} (injective : Set.InjOn rename ids)
    {first second : Leaf} (alike : first.Alike rename second)
    (known : ∀ handle, first = .buffer handle → handle.id ∈ ids) {id : BufferId}
    (member : id ∈ ids) : second.isBuffer (rename id) = first.isBuffer id := by
  cases alike with
  | @buffer handle other handles =>
      have sameTest : other.id = rename id ↔ handle.id = id := by
        rw [handles.id]
        exact ⟨fun same => injective (known handle rfl) member same, congrArg rename⟩
      exact decide_eq_decide.2 sameTest
  | scalar elementType left right => rfl

theorem any_isBuffer_of_alike {ids : Set BufferId} (injective : Set.InjOn rename ids)
    {leftLeaves rightLeaves : List Leaf}
    (alike : List.Forall₂ (Leaf.Alike rename) leftLeaves rightLeaves)
    (known : ∀ handle, .buffer handle ∈ leftLeaves → handle.id ∈ ids) {id : BufferId}
    (member : id ∈ ids) :
    rightLeaves.any (Leaf.isBuffer (rename id)) = leftLeaves.any (Leaf.isBuffer id) := by
  induction alike with
  | nil => rfl
  | cons head _ inductionHypothesis =>
      have headKnown := isBuffer_of_alike injective head
        (fun handle same => known handle (same ▸ List.mem_cons_self)) member
      have restKnown := inductionHypothesis
        fun handle later => known handle (List.mem_cons_of_mem _ later)
      rw [List.any_cons, List.any_cons, headKnown, restKnown]

/-- Corresponding leaves are given corresponding parameters. -/
theorem parameters_of_alike {ids : Set BufferId} (injective : Set.InjOn rename ids)
    {leftLeaves rightLeaves leftParameters rightParameters : List Leaf}
    (leaves : List.Forall₂ (Leaf.Alike rename) leftLeaves rightLeaves)
    (parameters : List.Forall₂ (Leaf.Alike rename) leftParameters rightParameters)
    (leavesKnown : ∀ handle, .buffer handle ∈ leftLeaves → handle.id ∈ ids)
    (parametersKnown : ∀ handle, .buffer handle ∈ leftParameters → handle.id ∈ ids) :
    List.Forall₂ (Leaf.Alike rename) (leftLeaves.foldl Bindings.bind leftParameters)
      (rightLeaves.foldl Bindings.bind rightParameters) := by
  induction leaves generalizing leftParameters rightParameters with
  | nil => exact parameters
  | @cons leftLeaf rightLeaf leftRest rightRest head _ inductionHypothesis =>
      have restKnown : ∀ handle, .buffer handle ∈ leftRest → handle.id ∈ ids :=
        fun handle member => leavesKnown handle (List.mem_cons_of_mem _ member)
      have grown : List.Forall₂ (Leaf.Alike rename) (leftParameters ++ [leftLeaf])
          (rightParameters ++ [rightLeaf]) := List.rel_append parameters (.cons head .nil)
      have grownKnown : ∀ handle, .buffer handle ∈ leftParameters ++ [leftLeaf] →
          handle.id ∈ ids := by
        intro handle member
        rcases List.mem_append.1 member with earlier | last
        · exact parametersKnown handle earlier
        · exact leavesKnown handle (List.mem_singleton.1 last ▸ List.mem_cons_self)
      rw [List.foldl_cons, List.foldl_cons]
      cases head with
      | @buffer handle other handles =>
          have idKnown : handle.id ∈ ids := leavesKnown handle List.mem_cons_self
          have sameTest : rightParameters.any (Leaf.isBuffer other.id) =
              leftParameters.any (Leaf.isBuffer handle.id) := by
            rw [handles.id]
            exact any_isBuffer_of_alike injective parameters parametersKnown idKnown
          simp only [Bindings.bind, sameTest]
          split
          · exact inductionHypothesis parameters restKnown parametersKnown
          · exact inductionHypothesis grown restKnown grownKnown
      | scalar elementType left right =>
          exact inductionHypothesis grown restKnown grownKnown

theorem declarations_of_alike {left right : List Leaf}
    (alike : List.Forall₂ (Leaf.Alike rename) left right) :
    Bindings.declarations ⟨left⟩ = Bindings.declarations ⟨right⟩ := by
  unfold Bindings.declarations
  generalize 0 = start
  induction alike generalizing start with
  | nil => rfl
  | cons head _ inductionHypothesis =>
      rw [List.zipIdx_cons, List.zipIdx_cons, List.map_cons, List.map_cons,
        inductionHypothesis (start + 1)]
      congr 1
      cases head with
      | buffer handles => simp only [handles.elementType]
      | scalar elementType left right => rfl

theorem SymbolsAlike.declarations_eq (alike : SymbolsAlike rename left right) :
    (Bindings.collect left).declarations = (Bindings.collect right).declarations := by
  have parameters : List.Forall₂ (Leaf.Alike rename) (Bindings.collect left).parameters
      (Bindings.collect right).parameters :=
    parameters_of_alike alike.bijective.injOn alike.leaves .nil
      (fun _ member => mem_ids_of_leaf member) nofun
  exact declarations_of_alike parameters

end Batch

end KernelTuner
