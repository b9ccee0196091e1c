import KernelTuner.Predictor.Forest
import KernelTuner.Proofs.Predictor.Trees

/-!
Contract: which descriptions of forests are accepted.

Owns: the descriptions of trees that make a forest; the forest that they make; and
`Forest.ofDescription_validates`, by which exactly these descriptions are accepted, and any
other is refused as an argument.
-/

set_option autoImplicit false

namespace KernelTuner

namespace Forest

variable {forest : Forest} {trees : List TreeDescription}

/-- Descriptions of trees that make a forest: there are some, and all of their leaves have
equally many costs, which are at least one. -/
def Plantable (trees : List TreeDescription) : Prop :=
  trees ≠ [] ∧ ∃ width, 0 < width ∧ ∀ tree ∈ trees, tree.WellFormed width

/-- A tree of a forest whose leaves have `width` costs is the described one. -/
structure Grown (width : Nat) (tree : TreeDescription) (built : RegressionTree) : Prop where
  wellFormed : tree.WellFormed width
  outputs : built.outputs = width
  follows : built.Follows tree

/-- The trees of the forest are the described ones, in order, and their width is its own. -/
structure Realizes (forest : Forest) (trees : List TreeDescription) : Prop where
  nonempty : trees ≠ []
  positive : 0 < forest.outputs
  trees : List.Forall₂ (Grown forest.outputs) trees forest.trees

theorem grown_iff {width : Nat} (positive : 0 < width) {tree : TreeDescription}
    {built : RegressionTree} :
    Grown width tree built ↔
      RegressionTree.ofDescription tree = .ok built ∧ built.outputs = width := by
  rw [RegressionTree.ofDescription_eq_ok_iff]
  constructor
  · rintro ⟨wellFormed, rfl, follows⟩
    exact ⟨⟨wellFormed, positive, follows⟩, rfl⟩
  · rintro ⟨⟨wellFormed, _, follows⟩, rfl⟩
    exact ⟨wellFormed, rfl, follows⟩

theorem misfit?_eq_none_iff {outputs position : Nat} {rest : List RegressionTree} :
    misfit? outputs position rest = none ↔ ∀ tree ∈ rest, tree.outputs = outputs := by
  induction rest generalizing position with
  | nil => simp [misfit?]
  | cons tree rest inductionHypothesis =>
      unfold misfit?
      split
      · next same => simp [inductionHypothesis, same]
      · next apart => simp [apart]

theorem ofTrees_eq_ok_iff {built : List RegressionTree} :
    ofTrees built = .ok forest ↔
      built ≠ [] ∧ forest.trees = built ∧ ∀ tree ∈ built, tree.outputs = forest.outputs := by
  cases built with
  | nil => simp [ofTrees]
  | cons first rest =>
      cases fits : misfit? first.outputs 1 rest with
      | some misfit =>
          simp only [ofTrees, fits, refuse_ne_ok, false_iff]
          rintro ⟨_, _, same⟩
          obtain ⟨firstSame, restSame⟩ := List.forall_mem_cons.1 same
          have none : misfit? first.outputs 1 rest = none :=
            misfit?_eq_none_iff.2 fun tree member => (restSame tree member).trans firstSame.symm
          cases fits.symm.trans none
      | none =>
          simp only [ofTrees, fits]
          constructor
          · intro done
            cases done
            exact ⟨List.cons_ne_nil first rest, rfl,
              List.forall_mem_cons.2 ⟨rfl, misfit?_eq_none_iff.1 fits⟩⟩
          · rintro ⟨_, treesSame, same⟩
            obtain ⟨trees, outputs⟩ := forest
            cases treesSame
            cases (List.forall_mem_cons.1 same).1
            rfl

theorem readTrees_eq_ok_iff {position : Nat} {built : List RegressionTree} :
    readTrees position trees = .ok built ↔
      List.Forall₂ (fun tree built => RegressionTree.ofDescription tree = .ok built)
        trees built := by
  induction trees generalizing position built with
  | nil =>
      rw [List.forall₂_nil_left_iff]
      exact ⟨fun done => (Except.ok.inj done).symm, fun same => same ▸ rfl⟩
  | cons tree rest inductionHypothesis =>
      rw [List.forall₂_cons_left_iff]
      unfold readTrees
      cases outcome : RegressionTree.ofDescription tree with
      | error cause => simp
      | ok first =>
          simp only [bind_eq_ok_iff, pure_eq_ok_iff, inductionHypothesis, Except.ok.injEq]
          constructor
          · rintro ⟨later, laterRead, rfl⟩
            exact ⟨first, later, rfl, laterRead, rfl⟩
          · rintro ⟨_, later, rfl, laterRead, rfl⟩
            exact ⟨later, laterRead, rfl⟩

theorem readTrees_error {position : Nat} {cause : Error}
    (failed : readTrees position trees = .error cause) :
    ∃ place found, cause = .invalidArgument (.tree place found) ∧ found ≠ .noLeaves := by
  induction trees generalizing position with
  | nil => cases failed
  | cons tree rest inductionHypothesis =>
      unfold readTrees at failed
      split at failed
      · next found outcome =>
          cases failed
          refine ⟨position, found, rfl, ?_⟩
          rintro rfl
          exact RegressionTree.ofDescription_ne_noLeaves tree outcome
      · rcases bind_eq_error_iff.1 failed with later | ⟨_, _, impossible⟩
        · exact inductionHypothesis later
        · cases impossible

/-- No cause of a refused forest is a tree without leaves. -/
theorem ofTrees_error {built : List RegressionTree} {cause : Error}
    (failed : ofTrees built = .error cause) :
    cause.isInvalidArgument = true ∧
      ∀ position, cause ≠ .invalidArgument (.tree position .noLeaves) := by
  unfold ofTrees at failed
  split at failed
  · cases failed
    exact ⟨rfl, nofun⟩
  · split at failed
    · cases failed
      exact ⟨rfl, nofun⟩
    · cases failed

theorem ofDescription_error {description : Json.Value} {cause : Error}
    (failed : ofDescription description = .error cause) :
    cause.isInvalidArgument = true ∧
      ∀ position, cause ≠ .invalidArgument (.tree position .noLeaves) := by
  unfold ofDescription at failed
  split at failed
  · cases failed
    exact ⟨rfl, nofun⟩
  · rcases bind_eq_error_iff.1 failed with unread | ⟨_, _, failed⟩
    · obtain ⟨place, found, rfl, named⟩ := readTrees_error unread
      refine ⟨rfl, ?_⟩
      rintro position same
      cases same
      exact named rfl
    · exact ofTrees_error failed

/-- The trees of a forest are read, one by one, and have its width. -/
theorem realizes_iff :
    forest.Realizes trees ↔
      List.Forall₂ (fun tree built => RegressionTree.ofDescription tree = .ok built)
        trees forest.trees ∧
      forest.trees ≠ [] ∧ ∀ tree ∈ forest.trees, tree.outputs = forest.outputs := by
  constructor
  · rintro ⟨some, positive, each⟩
    refine ⟨each.imp fun _ _ grown => ((grown_iff positive).1 grown).1, ?_, ?_⟩
    · intro empty
      rw [empty, List.forall₂_nil_right_iff] at each
      exact some each
    · intro tree member
      obtain ⟨_, _, grown⟩ := exists_of_forall₂_right each member
      exact grown.outputs
  · rintro ⟨read, some, same⟩
    obtain ⟨first, rest, present⟩ := List.exists_cons_of_ne_nil some
    have member : first ∈ forest.trees := present ▸ List.mem_cons_self
    obtain ⟨_, _, firstRead⟩ := exists_of_forall₂_right read member
    have positive : 0 < forest.outputs :=
      same first member ▸ (RegressionTree.ofDescription_eq_ok_iff.1 firstRead).2.1
    refine ⟨?_, positive, ?_⟩
    · rintro rfl
      exact some (List.forall₂_nil_left_iff.1 read)
    · rw [List.forall₂_iff_zip] at read ⊢
      refine ⟨read.1, fun {tree built} pair => (grown_iff positive).2 ⟨read.2 pair, ?_⟩⟩
      exact same built (List.of_mem_zip pair).2

/-- A forest is made of the trees that are read, one by one. -/
theorem ofDescription_eq_ok_iff {description : Json.Value} :
    ofDescription description = .ok forest ↔
      ∃ trees, readDescription description = .ok trees ∧ forest.Realizes trees := by
  unfold ofDescription
  cases readDescription description with
  | error cause => simp
  | ok trees =>
      simp only [bind_eq_ok_iff, readTrees_eq_ok_iff, ofTrees_eq_ok_iff, Except.ok.injEq,
        exists_eq_left', realizes_iff]
      constructor
      · rintro ⟨built, read, some, rfl, same⟩
        exact ⟨read, some, same⟩
      · rintro ⟨read, some, same⟩
        exact ⟨_, read, some, rfl, same⟩

/-- Well-formed trees of one width make a forest. -/
theorem exists_realizes_iff : (∃ forest : Forest, forest.Realizes trees) ↔ Plantable trees := by
  constructor
  · rintro ⟨forest, some, positive, each⟩
    refine ⟨some, forest.outputs, positive, fun tree member => ?_⟩
    obtain ⟨_, _, grown⟩ := exists_of_forall₂_left each member
    exact grown.wellFormed
  · rintro ⟨some, width, positive, wellFormed⟩
    obtain ⟨built, each⟩ : ∃ built, List.Forall₂ (Grown width) trees built := by
      refine exists_forall₂ fun tree member => ?_
      obtain ⟨found, read, outputs, _⟩ :=
        RegressionTree.exists_of_wellFormed (wellFormed tree member) positive
      exact ⟨found, (grown_iff positive).2 ⟨read, outputs⟩⟩
    exact ⟨⟨built, width⟩, some, positive, each⟩

/-- Descriptions that are accepted, and the forests that they stand for. -/
theorem ofDescription_validates (description : Json.Value) :
    (∀ forest, ofDescription description = .ok forest ↔
        ∃ trees, readDescription description = .ok trees ∧ forest.Realizes trees) ∧
      ((∃ forest, ofDescription description = .ok forest) ↔
        ∃ trees, readDescription description = .ok trees ∧ Plantable trees) ∧
      (∀ cause, ofDescription description = .error cause → cause.isInvalidArgument = true ∧
        ∀ position, cause ≠ .invalidArgument (.tree position .noLeaves)) ∧
      ∀ tree, RegressionTree.ofDescription tree ≠ .error .noLeaves := by
  refine ⟨fun forest => ofDescription_eq_ok_iff, ?_,
    fun cause => ofDescription_error, RegressionTree.ofDescription_ne_noLeaves⟩
  simp only [ofDescription_eq_ok_iff, ← exists_realizes_iff]
  constructor
  · rintro ⟨forest, trees, read, realizes⟩
    exact ⟨trees, read, forest, realizes⟩
  · rintro ⟨trees, read, forest, realizes⟩
    exact ⟨forest, trees, read, realizes⟩

end Forest

end KernelTuner
