import KernelTuner.Proofs.Expression.PrefixNotation

/-!
Contract: element-wise updates recognized by their symbols.

Owns: trees that are element-wise updates, the missing operands of a tree, and
`alike_of_updates`: when the symbols of updates are alike to those of trees that each
assign a buffer, the trees are alike. Missing operands leave no symbol, so the trees
of the second kind cannot be read back on their own; counting operators and leaves
shows that nothing is missing.
-/

set_option autoImplicit false

namespace KernelTuner

/-! ### Counting symbols -/

namespace Symbol

def isOperator : Symbol → Bool
  | operator _ => true
  | leaf _ => false

def isLeaf : Symbol → Bool
  | operator _ => false
  | leaf _ => true

def isAssign : Symbol → Bool
  | operator found => found = .assign
  | leaf _ => false

def isTranspose : Symbol → Bool
  | operator found => found = .transpose
  | leaf _ => false

theorem countP_eq_of_alike {rename : BufferId → BufferId} {left right : List Symbol}
    (alike : List.Forall₂ (Symbol.Alike rename) left right) (test : Symbol → Bool)
    (same : ∀ first second, Symbol.Alike rename first second → test first = test second) :
    left.countP test = right.countP test := by
  induction alike with
  | nil => rfl
  | cons head _ inductionHypothesis =>
      rw [List.countP_cons, List.countP_cons, same _ _ head, inductionHypothesis]

end Symbol

namespace Tree

/-- Number of missing operands. -/
def gaps : Tree → Nat
  | empty => 1
  | buffer _ => 0
  | scalar _ _ => 0
  | node _ lhs rhs => lhs.gaps + rhs.gaps

/-- A tree has one operand more than it has operators; missing ones count too. -/
theorem balance (tree : Tree) :
    tree.symbols.countP Symbol.isLeaf + tree.gaps =
      tree.symbols.countP Symbol.isOperator + 1 := by
  induction tree with
  | empty => rfl
  | buffer handle => rfl
  | scalar elementType value => rfl
  | node operator lhs rhs lhsHypothesis rhsHypothesis =>
      simp only [symbols, gaps, List.countP_cons, List.countP_append, Symbol.isLeaf,
        Symbol.isOperator, Bool.false_eq_true, ↓reduceIte]
      omega

/-- The missing operands of all trees. -/
def totalGaps : List Tree → Nat
  | [] => 0
  | tree :: rest => tree.gaps + totalGaps rest

theorem gaps_le_totalGaps {trees : List Tree} {tree : Tree} (member : tree ∈ trees) :
    tree.gaps ≤ totalGaps trees := by
  induction trees with
  | nil => cases member
  | cons first rest inductionHypothesis =>
      rw [totalGaps]
      rcases List.mem_cons.1 member with rfl | later
      · omega
      · have inRest := inductionHypothesis later
        omega

theorem balance_flatMap (trees : List Tree) :
    (trees.flatMap symbols).countP Symbol.isLeaf + totalGaps trees =
      (trees.flatMap symbols).countP Symbol.isOperator + trees.length := by
  induction trees with
  | nil => rfl
  | cons tree rest inductionHypothesis =>
      have first := balance tree
      simp only [List.flatMap_cons, List.countP_append, totalGaps, List.length_cons]
      omega

/-- Without missing operands and transpositions a tree is saturated. -/
theorem saturated_of_gaps_eq_zero {tree : Tree} (full : tree.gaps = 0)
    (straight : tree.symbols.countP Symbol.isTranspose = 0) : tree.Saturated := by
  induction tree with
  | empty => cases full
  | buffer handle => trivial
  | scalar elementType value => trivial
  | node operator lhs rhs lhsHypothesis rhsHypothesis =>
      simp only [symbols, List.countP_cons, List.countP_append, Symbol.isTranspose,
        decide_eq_true_eq] at straight
      simp only [gaps] at full
      have notTranspose : operator ≠ .transpose := by
        rintro rfl
        simp at straight
      rw [if_neg notTranspose] at straight
      refine ⟨lhsHypothesis (by omega) (by omega), ?_⟩
      rw [if_neg notTranspose]
      exact rhsHypothesis (by omega) (by omega)

/-! ### Updates -/

/-- Arithmetic on buffers and host scalars. -/
def ElementWise : Tree → Prop
  | empty => False
  | buffer _ => True
  | scalar _ _ => True
  | node operator lhs rhs =>
      operator.isElementWise = true ∧ lhs.ElementWise ∧ rhs.ElementWise

/-- An assignment of some tree to a buffer. -/
def AssignsBuffer : Tree → Prop
  | node .assign (buffer _) _ => True
  | _ => False

/-- An assignment of an element-wise tree to a buffer. -/
def Update : Tree → Prop
  | node .assign (buffer _) rhs => rhs.ElementWise
  | _ => False

theorem ElementWise.counts {tree : Tree} (elementWise : tree.ElementWise) :
    tree.gaps = 0 ∧ tree.symbols.countP Symbol.isAssign = 0 ∧
      tree.symbols.countP Symbol.isTranspose = 0 := by
  induction tree with
  | empty => exact elementWise.elim
  | buffer handle => exact ⟨rfl, rfl, rfl⟩
  | scalar elementType value => exact ⟨rfl, rfl, rfl⟩
  | node operator lhs rhs lhsHypothesis rhsHypothesis =>
      obtain ⟨arithmetic, lhsElementWise, rhsElementWise⟩ := elementWise
      obtain ⟨lhsFull, lhsAssigns, lhsTransposes⟩ := lhsHypothesis lhsElementWise
      obtain ⟨rhsFull, rhsAssigns, rhsTransposes⟩ := rhsHypothesis rhsElementWise
      have notAssign : operator ≠ .assign := by
        rintro rfl
        cases arithmetic
      have notTranspose : operator ≠ .transpose := by
        rintro rfl
        cases arithmetic
      simp [gaps, symbols, Symbol.isAssign, Symbol.isTranspose, lhsFull, rhsFull,
        lhsAssigns, rhsAssigns, lhsTransposes, rhsTransposes, notAssign, notTranspose]

theorem Update.counts {tree : Tree} (update : tree.Update) :
    tree.gaps = 0 ∧ tree.symbols.countP Symbol.isAssign = 1 ∧
      tree.symbols.countP Symbol.isTranspose = 0 := by
  unfold Update at update
  split at update
  · next target rhs =>
      obtain ⟨full, assigns, transposes⟩ := update.counts
      simp [gaps, symbols, Symbol.isAssign, Symbol.isTranspose, full, assigns,
        transposes]
  · exact update.elim

theorem Update.assignsBuffer {tree : Tree} (update : tree.Update) : tree.AssignsBuffer := by
  unfold Update at update
  split at update
  · trivial
  · exact update.elim

theorem AssignsBuffer.one_le_assigns {tree : Tree} (assigns : tree.AssignsBuffer) :
    1 ≤ tree.symbols.countP Symbol.isAssign := by
  unfold AssignsBuffer at assigns
  split at assigns
  · simp [symbols, Symbol.isAssign]
  · exact assigns.elim

theorem updates_counts {trees : List Tree} (updates : ∀ tree ∈ trees, tree.Update) :
    totalGaps trees = 0 ∧
      (trees.flatMap symbols).countP Symbol.isAssign = trees.length ∧
      (trees.flatMap symbols).countP Symbol.isTranspose = 0 := by
  induction trees with
  | nil => exact ⟨rfl, rfl, rfl⟩
  | cons tree rest inductionHypothesis =>
      obtain ⟨full, assigns, transposes⟩ := (updates tree List.mem_cons_self).counts
      obtain ⟨restFull, restAssigns, restTransposes⟩ :=
        inductionHypothesis fun other member => updates other (List.mem_cons_of_mem _ member)
      simp only [totalGaps, List.flatMap_cons, List.countP_append, List.length_cons]
      omega

theorem length_le_assigns {trees : List Tree} (assign : ∀ tree ∈ trees, tree.AssignsBuffer) :
    trees.length ≤ (trees.flatMap symbols).countP Symbol.isAssign := by
  induction trees with
  | nil => exact Nat.le_refl 0
  | cons tree rest inductionHypothesis =>
      have first := (assign tree List.mem_cons_self).one_le_assigns
      have others := inductionHypothesis fun other member =>
        assign other (List.mem_cons_of_mem _ member)
      simp only [List.flatMap_cons, List.countP_append, List.length_cons]
      omega

/-- Trees that assign buffers and show the symbols of updates are updates of the same
form, one by one. -/
theorem alike_of_updates {rename : BufferId → BufferId} {left right : List Tree}
    (updates : ∀ tree ∈ left, tree.Update) (assign : ∀ tree ∈ right, tree.AssignsBuffer)
    (alike : List.Forall₂ (Symbol.Alike rename) (left.flatMap symbols)
      (right.flatMap symbols)) :
    List.Forall₂ (Tree.Alike rename) left right := by
  obtain ⟨leftFull, leftAssigns, leftTransposes⟩ := updates_counts updates
  have sameLeaves := Symbol.countP_eq_of_alike alike Symbol.isLeaf
    fun _ _ related => by cases related <;> rfl
  have sameOperators := Symbol.countP_eq_of_alike alike Symbol.isOperator
    fun _ _ related => by cases related <;> rfl
  have sameAssigns := Symbol.countP_eq_of_alike alike Symbol.isAssign
    fun _ _ related => by cases related <;> rfl
  have sameTransposes := Symbol.countP_eq_of_alike alike Symbol.isTranspose
    fun _ _ related => by cases related <;> rfl
  have rightFull : totalGaps right = 0 := by
    have leftBalance := balance_flatMap left
    have rightBalance := balance_flatMap right
    have atLeast := length_le_assigns assign
    omega
  refine forall₂_alike_of_symbols ?_ ?_ alike
  · intro tree member
    obtain ⟨full, _, transposes⟩ := (updates tree member).counts
    exact saturated_of_gaps_eq_zero full transposes
  · intro tree member
    have full : tree.gaps = 0 := by
      have inTotal := gaps_le_totalGaps member
      omega
    have noTransposes : (right.flatMap symbols).countP Symbol.isTranspose = 0 := by
      rw [← sameTransposes, leftTransposes]
    have transposes : tree.symbols.countP Symbol.isTranspose = 0 := by
      rw [List.countP_eq_zero] at noTransposes ⊢
      exact fun symbol symbolMember =>
        noTransposes symbol (List.mem_flatMap.2 ⟨tree, member, symbolMember⟩)
    exact saturated_of_gaps_eq_zero full transposes

end Tree

end KernelTuner
