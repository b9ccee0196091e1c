import KernelTuner.Predictor.Tree
import KernelTuner.Proofs.Outcome

/-!
Contract: which descriptions of trees are read.

Owns: the form that the node arrays of a tree must have; the nodes that they list; and that
exactly the arrays of this form are read, node by node as they are listed.

The last node has no room for children behind it. So the nodes of a tree that are accepted
end with a leaf, and a tree without leaves is refused for another reason.
-/

set_option autoImplicit false

namespace KernelTuner

/-! ### Descriptions of trees -/

namespace TreeDescription

/-- The node that entry `index` of the arrays lists. What a split says of costs, and a leaf
of a feature and a threshold, is not looked at. -/
inductive Lists (tree : TreeDescription) (index : Nat) : TreeNode → Prop where
  | leaf {costs : List Float32} (left : tree.childrenLeft[index]? = some (-1))
      (right : tree.childrenRight[index]? = some (-1)) (value : tree.value[index]? = some costs) :
      Lists tree index (.leaf costs)
  | split {feature left right : Nat} {threshold : Float}
      (leftChild : tree.childrenLeft[index]? = some (left : Int))
      (rightChild : tree.childrenRight[index]? = some (right : Int))
      (splitFeature : tree.feature[index]? = some (feature : Int))
      (splitThreshold : tree.threshold[index]? = some threshold) :
      Lists tree index (.split feature threshold left right)

/-- The arrays have one entry per node. -/
structure Aligned (tree : TreeDescription) : Prop where
  childrenRight : tree.childrenRight.length = tree.childrenLeft.length
  threshold : tree.threshold.length = tree.childrenLeft.length
  feature : tree.feature.length = tree.childrenLeft.length
  value : tree.value.length = tree.childrenLeft.length

/-- A tree whose leaves have `width` costs, listed from the root on. -/
structure WellFormed (width : Nat) (tree : TreeDescription) : Prop where
  nonempty : 0 < tree.childrenLeft.length
  aligned : tree.Aligned
  /-- A node is a leaf, or it splits on a feature and both of its children come after it. -/
  nodes : ∀ (index : Nat) (left right feature : Int), tree.childrenLeft[index]? = some left →
    tree.childrenRight[index]? = some right → tree.feature[index]? = some feature →
      left = -1 ∧ right = -1 ∨
        (index < left ∧ left < tree.childrenLeft.length) ∧
          (index < right ∧ right < tree.childrenLeft.length) ∧ 0 ≤ feature
  leaves : ∀ (index : Nat) (costs : List Float32), tree.childrenLeft[index]? = some (-1) →
    tree.childrenRight[index]? = some (-1) → tree.value[index]? = some costs →
      costs.length = width

variable {tree : TreeDescription}

theorem rows_getElem?_eq_some_iff {index : Nat} {row : TreeRow} :
    tree.rows[index]? = some row ↔
      tree.childrenLeft[index]? = some row.left ∧ tree.childrenRight[index]? = some row.right ∧
        tree.threshold[index]? = some row.threshold ∧ tree.feature[index]? = some row.feature ∧
          tree.value[index]? = some row.costs := by
  rw [rows, List.getElem?_map, Option.map_eq_some_iff]
  constructor
  · rintro ⟨entry, found, rfl⟩
    simpa only [List.getElem?_zip_eq_some] using found
  · intro found
    exact ⟨(row.left, row.right, row.threshold, row.feature, row.costs),
      by simpa only [List.getElem?_zip_eq_some] using found, rfl⟩

theorem Aligned.rows_length (aligned : tree.Aligned) :
    tree.rows.length = tree.childrenLeft.length := by
  simp [rows, aligned.childrenRight, aligned.threshold, aligned.feature, aligned.value]

end TreeDescription

/-! ### Rows -/

namespace TreeRow

variable {index count : Nat} {row : TreeRow} {width after : Option Nat}

def IsLeaf (row : TreeRow) : Prop := row.left = -1 ∧ row.right = -1

/-- The row of a leaf, or of a split whose children stand behind it. -/
def Sound (index count : Nat) (row : TreeRow) : Prop :=
  row.IsLeaf ∨
    ((index : Int) < row.left ∧ row.left < count) ∧
      ((index : Int) < row.right ∧ row.right < count) ∧ 0 ≤ row.feature

instance (row : TreeRow) : Decidable row.IsLeaf := inferInstanceAs (Decidable (_ ∧ _))

/-- The node that a sound row lists. -/
def listed (row : TreeRow) : TreeNode :=
  if row.IsLeaf then .leaf row.costs
  else .split row.feature.toNat row.threshold row.left.toNat row.right.toNat

theorem child_eq_ok_iff {place : Nat} {given : Int} :
    child index count given = .ok place ↔
      ((index : Int) < given ∧ given < count) ∧ place = given.toNat := by
  unfold child
  split
  · next inside => simp [inside, eq_comm]
  · next outside => simp [outside]

/-- The first leaf must have costs, and any other as many as the first. -/
theorem leafWidth_eq_ok_iff {costs : List Float32} {found : Nat} :
    leafWidth index width costs = .ok found ↔
      found = costs.length ∧ (width = none ∧ 0 < found ∨ width = some found) := by
  unfold leafWidth
  cases width with
  | none =>
      cases costs with
      | nil => simp
      | cons cost rest =>
          have some : 0 < (cost :: rest).length := Nat.succ_pos _
          simp only [List.isEmpty_cons, Bool.false_eq_true, ↓reduceIte, Except.ok.injEq, true_and,
            reduceCtorEq, or_false]
          exact ⟨fun same => ⟨same.symm, same ▸ some⟩, fun same => same.1.symm⟩
  | some expected =>
      dsimp only
      split
      · next same => simp [same, eq_comm]
      · next apart =>
          simp only [reduceCtorEq, false_and, Option.some.injEq, false_or, false_iff, not_and]
          rintro rfl
          exact apart

/-- The width of the leaves behind a row, where it was `width` in front of it. -/
def Widens (row : TreeRow) (width after : Option Nat) : Prop :=
  if row.IsLeaf then
    after = some row.costs.length ∧ (width = none ∧ 0 < row.costs.length ∨ width = after)
  else after = width

theorem node_eq_ok_iff {node : TreeNode} :
    row.node index count width = .ok (node, after) ↔
      row.Sound index count ∧ node = row.listed ∧ row.Widens width after := by
  unfold TreeRow.node Sound listed Widens
  by_cases isLeaf : row.IsLeaf
  · have given : row.left = -1 ∧ row.right = -1 := isLeaf
    rw [if_pos given, if_pos isLeaf, if_pos isLeaf]
    simp only [bind_eq_ok_iff, leafWidth_eq_ok_iff, pure_eq_ok_iff, Prod.mk.injEq, isLeaf, true_or,
      true_and]
    constructor
    · rintro ⟨found, ⟨rfl, seen⟩, rfl, rfl⟩
      exact ⟨rfl, rfl, seen⟩
    · rintro ⟨rfl, rfl, seen⟩
      exact ⟨_, ⟨rfl, seen⟩, rfl, rfl⟩
  · have given : ¬ (row.left = -1 ∧ row.right = -1) := isLeaf
    rw [if_neg given, if_neg isLeaf, if_neg isLeaf]
    split
    · next negative =>
        have noFeature : ¬ 0 ≤ row.feature := Int.not_le.2 negative
        simp [isLeaf, noFeature]
    · next feature =>
        have someFeature : 0 ≤ row.feature := Int.not_lt.1 feature
        simp only [bind_eq_ok_iff, child_eq_ok_iff, pure_eq_ok_iff, Prod.mk.injEq, isLeaf,
          someFeature, false_or, and_true]
        constructor
        · rintro ⟨left, ⟨leftInside, rfl⟩, right, ⟨rightInside, rfl⟩, rfl, rfl⟩
          exact ⟨⟨leftInside, rightInside⟩, rfl, rfl⟩
        · rintro ⟨⟨leftInside, rightInside⟩, rfl, rfl⟩
          exact ⟨_, ⟨leftInside, rfl⟩, _, ⟨rightInside, rfl⟩, rfl, rfl⟩

/-- Rows that are accepted are sound, and their leaves have the width that is found. -/
theorem of_nodes {rows : List TreeRow} {nodes : List TreeNode}
    (accepted : TreeRow.nodes count index width rows = .ok (nodes, after)) :
    nodes = rows.map listed ∧
      (∀ (place : Nat) (row : TreeRow), rows[place]? = some row → row.Sound (index + place) count) ∧
      (∀ row ∈ rows, row.IsLeaf → after = some row.costs.length) ∧
      (∀ found, width = some found → after = some found) ∧
      ∀ found, width = none → after = some found → 0 < found := by
  induction rows generalizing index width nodes with
  | nil =>
      cases accepted
      exact ⟨rfl, nofun, nofun, fun _ same => same,
        fun _ absent found => absurd found (by simp [absent])⟩
  | cons row rest inductionHypothesis =>
      obtain ⟨⟨node, between⟩, first, accepted⟩ := bind_eq_ok_iff.1 accepted
      obtain ⟨⟨following, final⟩, later, accepted⟩ := bind_eq_ok_iff.1 accepted
      cases pure_eq_ok_iff.1 accepted
      obtain ⟨sound, rfl, widens⟩ := node_eq_ok_iff.1 first
      obtain ⟨rfl, restSound, restLeaves, kept, positive⟩ := inductionHypothesis later
      unfold Widens at widens
      refine ⟨rfl, ?_, ?_, ?_, ?_⟩
      · intro place other found
        cases place with
        | zero =>
            cases found
            exact sound
        | succ place =>
            rw [← Nat.succ_add_eq_add_succ]
            exact restSound place other found
      · intro other member isLeaf
        rcases List.mem_cons.1 member with rfl | inRest
        · rw [if_pos isLeaf] at widens
          exact kept _ widens.1
        · exact restLeaves other inRest isLeaf
      · rintro found rfl
        split at widens
        · obtain ⟨rfl, ⟨absent, _⟩ | same⟩ := widens
          · cases absent
          · exact kept found same.symm
        · exact kept found widens
      · rintro found rfl finalFound
        split at widens
        · obtain ⟨rfl, ⟨_, some⟩ | absent⟩ := widens
          · cases finalFound.symm.trans (kept _ rfl)
            exact some
          · cases absent
        · exact positive found widens finalFound

/-- Sound rows whose leaves have one width are accepted. -/
theorem nodes_of_sound {rows : List TreeRow} {expected : Nat} (positive : 0 < expected)
    (before : width = none ∨ width = some expected)
    (sound : ∀ (place : Nat) (row : TreeRow), rows[place]? = some row →
      row.Sound (index + place) count)
    (leaves : ∀ row ∈ rows, row.IsLeaf → row.costs.length = expected) :
    ∃ after, TreeRow.nodes count index width rows = .ok (rows.map listed, after) := by
  induction rows generalizing index width with
  | nil => exact ⟨width, rfl⟩
  | cons row rest inductionHypothesis =>
      obtain ⟨rowLeaf, restLeaves⟩ := List.forall_mem_cons.1 leaves
      obtain ⟨between, behind, first⟩ : ∃ between, (between = none ∨ between = some expected) ∧
          row.node index count width = .ok (row.listed, between) := by
        have rowSound : row.Sound index count := sound 0 row rfl
        by_cases isLeaf : row.IsLeaf
        · refine ⟨some expected, .inr rfl, node_eq_ok_iff.2 ⟨rowSound, rfl, ?_⟩⟩
          rw [Widens, if_pos isLeaf, rowLeaf isLeaf]
          exact ⟨rfl, before.imp_left fun absent => ⟨absent, positive⟩⟩
        · refine ⟨width, before, node_eq_ok_iff.2 ⟨rowSound, rfl, ?_⟩⟩
          rw [Widens, if_neg isLeaf]
      obtain ⟨after, later⟩ := @inductionHypothesis (index + 1) between behind
        (fun place other found => by
          rw [Nat.succ_add_eq_add_succ]
          exact sound (place + 1) other found) restLeaves
      exact ⟨after, bind_eq_ok_iff.2 ⟨_, first, bind_eq_ok_iff.2 ⟨_, later, rfl⟩⟩⟩

theorem child_ne_noLeaves {place : Int} : child index count place ≠ .error .noLeaves := by
  unfold child
  split <;> nofun

theorem leafWidth_ne_noLeaves {costs : List Float32} :
    leafWidth index width costs ≠ .error .noLeaves := by
  unfold leafWidth
  split <;> split <;> nofun

theorem node_ne_noLeaves : row.node index count width ≠ .error .noLeaves := by
  intro failed
  unfold TreeRow.node at failed
  split at failed
  · rcases bind_eq_error_iff.1 failed with narrow | ⟨_, _, impossible⟩
    · exact leafWidth_ne_noLeaves narrow
    · cases impossible
  · split at failed
    · cases failed
    · rcases bind_eq_error_iff.1 failed with outside | ⟨_, _, failed⟩
      · exact child_ne_noLeaves outside
      · rcases bind_eq_error_iff.1 failed with outside | ⟨_, _, impossible⟩
        · exact child_ne_noLeaves outside
        · cases impossible

/-- Rows are refused for what one of them says. -/
theorem nodes_ne_noLeaves (rows : List TreeRow) :
    TreeRow.nodes count index width rows ≠ .error .noLeaves := by
  induction rows generalizing index width with
  | nil => nofun
  | cons row rest inductionHypothesis =>
      intro failed
      rcases bind_eq_error_iff.1 failed with first | ⟨⟨node, between⟩, _, failed⟩
      · exact node_ne_noLeaves first
      · rcases bind_eq_error_iff.1 failed with later | ⟨_, _, impossible⟩
        · exact inductionHypothesis later
        · cases impossible

end TreeRow

/-! ### Trees -/

namespace TreeDescription

variable {tree : TreeDescription} {width : Nat}

theorem Aligned.exists_row (aligned : tree.Aligned) {index : Nat}
    (bound : index < tree.childrenLeft.length) : ∃ row, tree.rows[index]? = some row :=
  ⟨_, List.getElem?_eq_getElem (aligned.rows_length.symm ▸ bound)⟩

/-- The form of a tree, row by row. -/
theorem wellFormed_iff_rows :
    tree.WellFormed width ↔ 0 < tree.childrenLeft.length ∧ tree.Aligned ∧
      (∀ (place : Nat) (row : TreeRow), tree.rows[place]? = some row →
        row.Sound place tree.childrenLeft.length) ∧
      ∀ row ∈ tree.rows, row.IsLeaf → row.costs.length = width := by
  constructor
  · rintro ⟨nonempty, aligned, nodes, leaves⟩
    refine ⟨nonempty, aligned, ?_, ?_⟩
    · intro place row found
      obtain ⟨left, right, _, feature, _⟩ := rows_getElem?_eq_some_iff.1 found
      exact nodes place _ _ _ left right feature
    · intro row member isLeaf
      obtain ⟨place, found⟩ := List.mem_iff_getElem?.1 member
      obtain ⟨left, right, _, _, value⟩ := rows_getElem?_eq_some_iff.1 found
      exact leaves place _ (isLeaf.1 ▸ left) (isLeaf.2 ▸ right) value
  · rintro ⟨nonempty, aligned, sound, leaves⟩
    have row_at {index : Nat} {given : Int} (present : tree.childrenLeft[index]? = some given) :
        ∃ row, tree.rows[index]? = some row :=
      aligned.exists_row (List.getElem?_eq_some_iff.1 present).1
    refine ⟨nonempty, aligned, ?_, ?_⟩
    · intro index left right feature leftGiven rightGiven featureGiven
      obtain ⟨row, found⟩ := row_at leftGiven
      obtain ⟨leftRow, rightRow, _, featureRow, _⟩ := rows_getElem?_eq_some_iff.1 found
      cases leftGiven.symm.trans leftRow
      cases rightGiven.symm.trans rightRow
      cases featureGiven.symm.trans featureRow
      exact sound index row found
    · intro index costs leftGiven rightGiven costsGiven
      obtain ⟨row, found⟩ := row_at leftGiven
      obtain ⟨leftRow, rightRow, _, _, valueRow⟩ := rows_getElem?_eq_some_iff.1 found
      cases costsGiven.symm.trans valueRow
      exact leaves row (List.mem_of_getElem? found)
        ⟨Option.some.inj (leftRow.symm.trans leftGiven),
          Option.some.inj (rightRow.symm.trans rightGiven)⟩

/-- The last of some sound rows is a leaf. -/
theorem Aligned.exists_leaf (aligned : tree.Aligned) (nonempty : 0 < tree.childrenLeft.length)
    (sound : ∀ (place : Nat) (row : TreeRow), tree.rows[place]? = some row →
      row.Sound place tree.childrenLeft.length) : ∃ row ∈ tree.rows, row.IsLeaf := by
  obtain ⟨row, found⟩ := aligned.exists_row (Nat.sub_lt nonempty Nat.one_pos)
  refine ⟨row, List.mem_of_getElem? found, ?_⟩
  rcases sound _ row found with isLeaf | ⟨⟨after, before⟩, _⟩
  · exact isLeaf
  · omega

theorem lists_iff_listed {index count : Nat} {row : TreeRow} {node : TreeNode}
    (found : tree.rows[index]? = some row) (sound : row.Sound index count) :
    tree.Lists index node ↔ node = row.listed := by
  obtain ⟨left, right, threshold, feature, value⟩ := rows_getElem?_eq_some_iff.1 found
  unfold TreeRow.listed
  split
  · next isLeaf =>
      constructor
      · rintro (⟨_, _, costs⟩ | ⟨leftChild, _, _, _⟩)
        · cases value.symm.trans costs
          rfl
        · cases Option.some.inj (leftChild.symm.trans (left.trans (congrArg some isLeaf.1)))
      · rintro rfl
        exact .leaf (isLeaf.1 ▸ left) (isLeaf.2 ▸ right) value
  · next notLeaf =>
      obtain ⟨⟨afterLeft, _⟩, ⟨afterRight, _⟩, someFeature⟩ := sound.resolve_left notLeaf
      constructor
      · rintro (⟨leftGiven, rightGiven, _⟩ | ⟨leftChild, rightChild, splitFeature, splitThreshold⟩)
        · exact absurd ⟨Option.some.inj (left.symm.trans leftGiven),
            Option.some.inj (right.symm.trans rightGiven)⟩ notLeaf
        · rw [Option.some.inj (left.symm.trans leftChild),
            Option.some.inj (right.symm.trans rightChild),
            Option.some.inj (feature.symm.trans splitFeature),
            Option.some.inj (threshold.symm.trans splitThreshold)]
          rfl
      · rintro rfl
        refine .split ?_ ?_ ?_ threshold
        · rw [left, Int.toNat_of_nonneg (by omega)]
        · rw [right, Int.toNat_of_nonneg (by omega)]
        · rw [feature, Int.toNat_of_nonneg someFeature]

end TreeDescription

namespace RegressionTree

variable {tree : TreeDescription} {built : RegressionTree}

/-- The nodes of the tree are those that the description lists, place by place. -/
structure Follows (built : RegressionTree) (tree : TreeDescription) : Prop where
  length : built.nodes.length = tree.childrenLeft.length
  nodes : ∀ (index : Nat) (node : TreeNode), built.nodes[index]? = some node → tree.Lists index node

theorem ext_of_nodes {other : RegressionTree} (nodes : built.nodes = other.nodes)
    (outputs : built.outputs = other.outputs) : built = other := by
  cases built
  cases other
  cases nodes
  cases outputs
  rfl

theorem follows_iff_listed {width : Nat} (wellFormed : tree.WellFormed width) :
    built.Follows tree ↔ built.nodes = tree.rows.map TreeRow.listed := by
  obtain ⟨_, aligned, sound, _⟩ := TreeDescription.wellFormed_iff_rows.1 wellFormed
  constructor
  · rintro ⟨length, nodes⟩
    refine List.ext_getElem? fun index => ?_
    rw [List.getElem?_map]
    cases found : tree.rows[index]? with
    | none =>
        rw [List.getElem?_eq_none_iff, aligned.rows_length] at found
        exact List.getElem?_eq_none (length ▸ found)
    | some row =>
        have bound := (List.getElem?_eq_some_iff.1 found).1
        rw [aligned.rows_length, ← length] at bound
        have node := List.getElem?_eq_getElem bound
        rw [node, Option.map_some,
          (TreeDescription.lists_iff_listed found (sound index row found)).1 (nodes index _ node)]
  · intro nodes
    refine ⟨by rw [nodes, List.length_map, aligned.rows_length], ?_⟩
    intro index node found
    rw [nodes, List.getElem?_map] at found
    obtain ⟨row, present, rfl⟩ := Option.map_eq_some_iff.1 found
    exact (TreeDescription.lists_iff_listed present (sound index row present)).2 rfl

/-- Arrays of which one has entries for other nodes than the first are refused for that. -/
theorem ofDescription_of_unaligned
    (unaligned : ¬ (0 < tree.childrenLeft.length ∧ tree.Aligned)) :
    ∃ cause, ofDescription tree = .error cause ∧ cause ≠ .noLeaves := by
  unfold ofDescription
  dsimp only
  split
  · exact ⟨_, rfl, nofun⟩
  · next some =>
      rw [if_pos]
      · exact ⟨_, rfl, nofun⟩
      · by_contra allEqual
        simp only [List.any_cons, List.any_nil, Bool.or_false, Bool.or_eq_true, decide_eq_true_eq,
          not_or, not_not] at allEqual
        obtain ⟨right, threshold, feature, value⟩ := allEqual
        exact unaligned ⟨Nat.pos_of_ne_zero some, right, threshold, feature, value⟩

theorem ofDescription_of_refused (nonempty : 0 < tree.childrenLeft.length)
    (aligned : tree.Aligned) {cause : TreeError}
    (refused : TreeRow.nodes tree.rows.length 0 none tree.rows = .error cause) :
    ofDescription tree = .error cause := by
  unfold ofDescription
  dsimp only
  rw [if_neg (Nat.ne_of_gt nonempty), if_neg]
  · split
    · next found => rw [Except.error.inj (found.symm.trans refused)]
    · next found => cases found.symm.trans refused
    · next found => cases found.symm.trans refused
  · simp [aligned.childrenRight, aligned.threshold, aligned.feature, aligned.value]

/-- Nodes that are accepted make a tree, since they end with a leaf. -/
theorem ofDescription_of_accepted (nonempty : 0 < tree.childrenLeft.length)
    (aligned : tree.Aligned) {nodes : List TreeNode} {after : Option Nat}
    (accepted : TreeRow.nodes tree.rows.length 0 none tree.rows = .ok (nodes, after)) :
    ∃ built, ofDescription tree = .ok built ∧ built.nodes = nodes ∧
      after = some built.outputs := by
  obtain ⟨rfl, sound, leaves, _⟩ := TreeRow.of_nodes accepted
  simp only [Nat.zero_add, aligned.rows_length] at sound
  obtain ⟨row, member, isLeaf⟩ := aligned.exists_leaf nonempty sound
  have rooted : 0 < (tree.rows.map TreeRow.listed).length := by
    rwa [List.length_map, aligned.rows_length]
  unfold ofDescription
  dsimp only
  rw [if_neg (Nat.ne_of_gt nonempty), if_neg]
  · split
    · next found => cases found.symm.trans accepted
    · next found =>
        cases found.symm.trans accepted
        rw [dif_pos rooted]
        exact ⟨_, rfl, rfl, rfl⟩
    · next found =>
        cases found.symm.trans accepted
        cases leaves row member isLeaf
  · simp [aligned.childrenRight, aligned.threshold, aligned.feature, aligned.value]

/-- A well-formed tree whose leaves have costs is read. -/
theorem exists_of_wellFormed {width : Nat} (wellFormed : tree.WellFormed width)
    (positive : 0 < width) :
    ∃ built, ofDescription tree = .ok built ∧ built.outputs = width ∧
      built.nodes = tree.rows.map TreeRow.listed := by
  obtain ⟨nonempty, aligned, sound, leaves⟩ := TreeDescription.wellFormed_iff_rows.1 wellFormed
  have soundRows : ∀ (place : Nat) (row : TreeRow), tree.rows[place]? = some row →
      row.Sound (0 + place) tree.rows.length := by
    simpa only [Nat.zero_add, aligned.rows_length] using sound
  obtain ⟨after, accepted⟩ := TreeRow.nodes_of_sound positive (.inl rfl) soundRows leaves
  obtain ⟨built, done, nodes, rfl⟩ := ofDescription_of_accepted nonempty aligned accepted
  obtain ⟨row, member, isLeaf⟩ := aligned.exists_leaf nonempty sound
  have found := (TreeRow.of_nodes accepted).2.2.1 row member isLeaf
  rw [leaves row member isLeaf] at found
  exact ⟨built, done, Option.some.inj found, nodes⟩

/-- The trees that are read are the well-formed ones, and each is as it is listed. -/
theorem ofDescription_eq_ok_iff :
    ofDescription tree = .ok built ↔
      tree.WellFormed built.outputs ∧ 0 < built.outputs ∧ built.Follows tree := by
  constructor
  · intro done
    by_cases readable : 0 < tree.childrenLeft.length ∧ tree.Aligned
    · obtain ⟨nonempty, aligned⟩ := readable
      cases outcome : TreeRow.nodes tree.rows.length 0 none tree.rows with
      | error cause => cases done.symm.trans (ofDescription_of_refused nonempty aligned outcome)
      | ok accepted =>
          obtain ⟨nodes, after⟩ := accepted
          obtain ⟨_, same, rfl, rfl⟩ := ofDescription_of_accepted nonempty aligned outcome
          cases done.symm.trans same
          obtain ⟨listed, sound, leaves, _, positive⟩ := TreeRow.of_nodes outcome
          simp only [Nat.zero_add, aligned.rows_length] at sound
          have wellFormed : tree.WellFormed built.outputs :=
            TreeDescription.wellFormed_iff_rows.2 ⟨nonempty, aligned, sound,
              fun row member isLeaf => (Option.some.inj (leaves row member isLeaf)).symm⟩
          exact ⟨wellFormed, positive _ rfl rfl, (follows_iff_listed wellFormed).2 listed⟩
    · obtain ⟨_, refused, _⟩ := ofDescription_of_unaligned readable
      cases done.symm.trans refused
  · rintro ⟨wellFormed, positive, follows⟩
    obtain ⟨found, done, outputs, nodes⟩ := exists_of_wellFormed wellFormed positive
    have listed := (follows_iff_listed wellFormed).1 follows
    rwa [ext_of_nodes (nodes.trans listed.symm) outputs] at done

/-- No tree is refused for its lack of leaves. -/
theorem ofDescription_ne_noLeaves (tree : TreeDescription) :
    ofDescription tree ≠ .error .noLeaves := by
  intro failed
  by_cases readable : 0 < tree.childrenLeft.length ∧ tree.Aligned
  · obtain ⟨nonempty, aligned⟩ := readable
    cases outcome : TreeRow.nodes tree.rows.length 0 none tree.rows with
    | error cause =>
        cases failed.symm.trans (ofDescription_of_refused nonempty aligned outcome)
        exact TreeRow.nodes_ne_noLeaves _ outcome
    | ok accepted =>
        obtain ⟨_, same, _⟩ := ofDescription_of_accepted nonempty aligned outcome
        cases failed.symm.trans same
  · obtain ⟨_, refused, named⟩ := ofDescription_of_unaligned readable
    cases failed.symm.trans refused
    exact named rfl

end RegressionTree

end KernelTuner
