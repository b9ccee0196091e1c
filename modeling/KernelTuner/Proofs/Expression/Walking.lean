import KernelTuner.Proofs.Expression.Drafts
import KernelTuner.Proofs.Expression.PrefixNotation
import KernelTuner.Proofs.Variant.Refusals

/-!
Contract: the walks of finished expressions.

Owns: the unfolding of an operand, which looks every node up in an array and ends at its leaves;
the expressions all of whose operands unfold, and whose walks are recursions over what they
unfold to; `walk_stops_at_first_break`, by which a walk that may stop hands out a prefix of what a
visit hands out; and `finish_walkable`, by which a builder finishes exactly the acceptable drafts,
into such expressions.

An operand that leads outside of the array, or back to itself, does not unfold. A derivation of
`Unfolds` is therefore the run of a recursion over the array that ends.
-/

set_option autoImplicit false

namespace KernelTuner

/-- The operand unfolds to the tree, and its nodes and leaves are the items in prefix order: a
node, then what is left of it, then what is right of it. What is missing is not an item. -/
inductive Unfolds (nodes : Array Node) : Operand → Tree → List Item → Prop where
  | empty : Unfolds nodes .empty .empty []
  | buffer (handle : Buffer) :
      Unfolds nodes (.buffer handle) (.buffer handle) [.leaf (.buffer handle)]
  | scalar (elementType : ElementType) (value : Float) :
      Unfolds nodes (.scalar elementType value) (.scalar elementType value)
        [.leaf (.scalar elementType value)]
  | node {index : Nat} {node : Node} {lhs rhs : Tree} {front back : List Item}
      (found : nodes[index]? = some node) (left : Unfolds nodes node.lhs lhs front)
      (right : Unfolds nodes node.rhs rhs back) :
      Unfolds nodes (.node index) (.node node.operator lhs rhs) (.node node :: (front ++ back))

namespace Unfolds

variable {nodes : Array Node} {operand : Operand} {tree other : Tree} {items others : List Item}

theorem unique (unfolds : Unfolds nodes operand tree items)
    (otherUnfolds : Unfolds nodes operand other others) : other = tree ∧ others = items := by
  induction unfolds generalizing other others with
  | empty =>
      cases otherUnfolds
      exact ⟨rfl, rfl⟩
  | buffer handle =>
      cases otherUnfolds
      exact ⟨rfl, rfl⟩
  | scalar elementType value =>
      cases otherUnfolds
      exact ⟨rfl, rfl⟩
  | node found _ _ leftHypothesis rightHypothesis =>
      cases otherUnfolds with
      | node otherFound left right =>
          cases Option.some.inj (found.symm.trans otherFound)
          obtain ⟨rfl, rfl⟩ := leftHypothesis left
          obtain ⟨rfl, rfl⟩ := rightHypothesis right
          exact ⟨rfl, rfl⟩

end Unfolds

namespace Tree

/-- The number of nodes above the deepest leaf. -/
def nesting : Tree → Nat
  | node _ lhs rhs => max lhs.nesting rhs.nesting + 1
  | _ => 0

/-- The buffer behind the transpositions at the top of the tree, and whether their number is
odd. -/
def behind? : Tree → Option (Buffer × Bool)
  | buffer handle => some (handle, false)
  | node operator lhs _ =>
      if operator = .transpose then lhs.behind?.map (fun found => (found.1, !found.2)) else none
  | _ => none

end Tree

/-- The node that an item is, if it has this operator. -/
def Item.nodeOf? (operator : Operator) : Item → Option Node
  | .node found => if found.operator = operator then some found else none
  | .leaf _ => none

theorem Item.nodeOf?_eq_some_iff {operator : Operator} {item : Item} {node : Node} :
    item.nodeOf? operator = some node ↔ item = .node node ∧ node.operator = operator := by
  cases item with
  | leaf operand => simp [Item.nodeOf?]
  | node other =>
      simp only [Item.nodeOf?, Option.ite_none_right_eq_some, Option.some.injEq, Item.node.injEq]
      constructor
      · rintro ⟨same, rfl⟩
        exact ⟨rfl, same⟩
      · rintro ⟨rfl, same⟩
        exact ⟨same, rfl⟩

namespace Flow

variable {σ β : Type}

/-- A step that never stops folds the items. -/
theorem through_next (step : Item → σ → σ) (items : List Item) (state : σ) :
    through (β := β) (fun item state => .next (step item state)) items state =
      .next (items.foldl (fun state item => step item state) state) := by
  induction items generalizing state with
  | nil => rfl
  | cons item rest inductionHypothesis => exact inductionHypothesis (step item state)

/-! ### Steps that may stop -/

/-- The step of a caller, who keeps the items that have been handed out. -/
def logged (step : Item → σ → Flow σ β) (item : Item) (seen : List Item × σ) :
    Flow (List Item × σ) (List Item × β) :=
  match step item seen.2 with
  | .next state => .next (seen.1 ++ [item], state)
  | .stop result => .stop (seen.1 ++ [item], result)

/-- The same without the items. -/
def unlogged : Flow (List Item × σ) (List Item × β) → Flow σ β
  | .next (_, state) => .next state
  | .stop (_, result) => .stop result

/-- The caller goes on at each of these items. -/
inductive GoesOn (step : Item → σ → Flow σ β) : List Item → σ → σ → Prop where
  | nil (state : σ) : GoesOn step [] state state
  | cons {item : Item} {rest : List Item} {state next last : σ}
      (goes : step item state = .next next) (later : GoesOn step rest next last) :
      GoesOn step (item :: rest) state last

variable {step : Item → σ → Flow σ β} {item : Item} {items handed seen : List Item}
  {state next last : σ} {result : β}

theorem logged_of_next (goes : step item state = .next next) :
    logged step item (seen, state) = .next (seen ++ [item], next) := by
  simp only [logged, goes]

theorem logged_of_stop (stops : step item state = .stop result) :
    logged step item (seen, state) = .stop (seen ++ [item], result) := by
  simp only [logged, stops]

/-- The record of the items makes no difference. -/
theorem unlogged_through_logged :
    (through (logged step) items (seen, state)).unlogged = through step items state := by
  induction items generalizing seen state with
  | nil => rfl
  | cons item rest inductionHypothesis =>
      rw [through, through]
      cases outcome : step item state with
      | next reached =>
          rw [logged_of_next outcome, andThen_next, andThen_next]
          exact inductionHypothesis
      | stop result =>
          rw [logged_of_stop outcome, andThen_stop, andThen_stop]
          rfl

/-- A caller who goes on at all items has been handed all of them. -/
theorem through_logged_eq_next_iff :
    through (logged step) items (seen, state) = .next (handed, last) ↔
      handed = seen ++ items ∧ GoesOn step items state last := by
  induction items generalizing seen state with
  | nil =>
      rw [through, List.append_nil]
      constructor
      · rintro ⟨⟩
        exact ⟨rfl, .nil _⟩
      · rintro ⟨rfl, ⟨⟩⟩
        rfl
  | cons item rest inductionHypothesis =>
      rw [through]
      cases outcome : step item state with
      | next reached =>
          rw [logged_of_next outcome, andThen_next, inductionHypothesis, List.append_assoc]
          refine and_congr_right fun _ => ⟨.cons outcome, ?_⟩
          rintro (_ | ⟨goes, later⟩)
          cases outcome.symm.trans goes
          exact later
      | stop result =>
          rw [logged_of_stop outcome, andThen_stop]
          constructor
          · intro goesOn
            cases goesOn
          · rintro ⟨_, _ | ⟨goes, _⟩⟩
            cases outcome.symm.trans goes

/-- A caller who stops has been handed the items up to the one at which it stops. -/
theorem through_logged_eq_stop_iff :
    through (logged step) items (seen, state) = .stop (handed, result) ↔
      ∃ front item back reached, handed = seen ++ (front ++ [item]) ∧
        items = front ++ item :: back ∧ GoesOn step front state reached ∧
          step item reached = .stop result := by
  induction items generalizing seen state with
  | nil => simp [through]
  | cons first rest inductionHypothesis =>
      rw [through]
      cases outcome : step first state with
      | next next =>
          rw [logged_of_next outcome, andThen_next, inductionHypothesis]
          constructor
          · rintro ⟨front, item, back, reached, rfl, rfl, goesOn, stops⟩
            exact ⟨first :: front, item, back, reached, by simp, rfl, .cons outcome goesOn, stops⟩
          · rintro ⟨front, item, back, reached, rfl, whole, goesOn, stops⟩
            cases goesOn with
            | nil _ =>
                obtain ⟨rfl, rfl⟩ := List.cons.inj whole
                cases outcome.symm.trans stops
            | cons goes later =>
                obtain ⟨rfl, rfl⟩ := List.cons.inj whole
                cases outcome.symm.trans goes
                exact ⟨_, item, back, reached, by simp, rfl, later, stops⟩
      | stop found =>
          rw [logged_of_stop outcome, andThen_stop]
          constructor
          · rintro ⟨⟩
            exact ⟨[], first, rest, state, rfl, rfl, .nil state, outcome⟩
          · rintro ⟨front, item, back, reached, rfl, whole, goesOn, stops⟩
            cases goesOn with
            | nil _ =>
                obtain ⟨rfl, rfl⟩ := List.cons.inj whole
                cases outcome.symm.trans stops
                rfl
            | cons goes later =>
                obtain ⟨rfl, rfl⟩ := List.cons.inj whole
                cases outcome.symm.trans goes

end Flow

namespace Expression

variable {expression : Expression} {index : Nat} {bound : index < expression.nodes.size}

/-! ### Items of an operand -/

/-- The items of an operand that may stand at place `index`. -/
def operandItems (expression : Expression) {index : Nat} (bound : index < expression.nodes.size)
    (operand : Operand) (admissible : operand.Admissible expression.context index) : List Item :=
  operand.elimAt admissible
    (fun child earlier => expression.itemsFrom child (expression.lt_size_of_earlier bound earlier))
    (fun handle => [.leaf (.buffer handle)])
    (fun elementType value => [.leaf (.scalar elementType value)])
    []

theorem itemsFrom_eq (expression : Expression) (index : Nat)
    (bound : index < expression.nodes.size) :
    expression.itemsFrom index bound = .node expression.nodes[index] ::
      (expression.operandItems bound expression.nodes[index].lhs
          (expression.admissible index bound).1 ++
        expression.operandItems bound expression.nodes[index].rhs
          (expression.admissible index bound).2) := by
  rw [itemsFrom]
  rfl

theorem operand_unfolds
    (below : ∀ (child : Nat) (inside : child < expression.nodes.size), child < index →
      Unfolds expression.nodes (.node child) (expression.treeFrom child inside)
        (expression.itemsFrom child inside))
    (operand : Operand) (admissible : operand.Admissible expression.context index) :
    Unfolds expression.nodes operand (expression.operandTree bound operand admissible)
      (expression.operandItems bound operand admissible) := by
  cases operand with
  | empty => exact .empty
  | buffer handle => exact .buffer handle
  | scalar elementType value => exact .scalar elementType value
  | node child => exact below child _ admissible

/-- Every node unfolds, whether it is reachable from the root or not. -/
theorem unfolds_from (expression : Expression) (index : Nat)
    (bound : index < expression.nodes.size) :
    Unfolds expression.nodes (.node index) (expression.treeFrom index bound)
      (expression.itemsFrom index bound) := by
  induction index using Nat.strongRecOn with
  | _ index inductionHypothesis =>
      have found : expression.nodes[index]? = some expression.nodes[index] :=
        Array.getElem?_eq_getElem bound
      have below (child : Nat) (inside : child < expression.nodes.size) (earlier : child < index) :=
        inductionHypothesis child earlier inside
      rw [treeFrom_eq, itemsFrom_eq]
      exact .node found (operand_unfolds below _ _) (operand_unfolds below _ _)

/-! ### Depth and transpositions -/

theorem operand_nesting_le
    (below : ∀ (child : Nat) (inside : child < expression.nodes.size), child < index →
      (expression.treeFrom child inside).nesting ≤ child + 1)
    (operand : Operand) (admissible : operand.Admissible expression.context index) :
    (expression.operandTree bound operand admissible).nesting ≤ index := by
  cases operand with
  | empty => exact Nat.zero_le index
  | buffer handle => exact Nat.zero_le index
  | scalar elementType value => exact Nat.zero_le index
  | node child =>
      have earlier : child < index := admissible
      exact (below child (Nat.lt_trans earlier bound) earlier).trans earlier

theorem treeFrom_nesting_le (expression : Expression) (index : Nat)
    (bound : index < expression.nodes.size) :
    (expression.treeFrom index bound).nesting ≤ index + 1 := by
  induction index using Nat.strongRecOn with
  | _ index inductionHypothesis =>
      have below (child : Nat) (inside : child < expression.nodes.size) (earlier : child < index) :=
        inductionHypothesis child earlier inside
      rw [treeFrom_eq, Tree.nesting]
      apply Nat.succ_le_succ
      exact Nat.max_le.2 ⟨operand_nesting_le below _ _, operand_nesting_le below _ _⟩

theorem transposed?_eq_behind (expression : Expression) (index : Nat)
    (bound : index < expression.nodes.size) :
    expression.transposed? index bound = (expression.treeFrom index bound).behind? := by
  induction index using Nat.strongRecOn with
  | _ index inductionHypothesis =>
      have operandBehind (operand : Operand)
          (admissible : operand.Admissible expression.context index) :
          operand.elimAt admissible
              (fun child earlier => expression.transposed? child (Nat.lt_trans earlier bound))
              (fun handle => some (handle, false)) (fun _ _ => none) none =
            (expression.operandTree bound operand admissible).behind? := by
        cases operand with
        | empty => rfl
        | buffer handle => rfl
        | scalar elementType value => rfl
        | node child => exact inductionHypothesis child admissible _
      rw [transposed?, treeFrom_eq, Tree.behind?]
      simp only [operandBehind]

theorem bufferOperand?_eq_behind {operand : Operand}
    (admissible : operand.Admissible expression.context index) :
    expression.bufferOperand? operand =
      (expression.operandTree bound operand admissible).behind? := by
  cases operand with
  | empty => rfl
  | buffer handle => rfl
  | scalar elementType value => rfl
  | node child =>
      have inside : child < expression.nodes.size :=
        expression.lt_size_of_earlier bound admissible
      rw [bufferOperand?, dif_pos inside]
      exact expression.transposed?_eq_behind child inside

/-! ### Walks -/

theorem visit_eq_foldl {σ : Type} (expression : Expression) (step : Item → σ → σ) (state : σ) :
    expression.visit step state =
      expression.items.foldl (fun state item => step item state) state := by
  unfold visit
  rw [walk_eq_through, Flow.through_next]

/-- What a visit hands out, from the first item on. -/
def handedOut (expression : Expression) : List Item :=
  expression.visit (fun item handed => handed ++ [item]) []

theorem handedOut_eq_items (expression : Expression) : expression.handedOut = expression.items := by
  have collects (items front : List Item) :
      items.foldl (fun handed item => handed ++ [item]) front = front ++ items := by
    induction items generalizing front with
    | nil => exact (List.append_nil front).symm
    | cons item rest inductionHypothesis =>
        rw [List.foldl_cons, inductionHypothesis, List.append_assoc, List.singleton_append]
  rw [handedOut, visit_eq_foldl, collects, List.nil_append]

theorem find?_eq_findSome? (expression : Expression) (operator : Operator) :
    expression.find? operator = expression.items.findSome? (Item.nodeOf? operator) := by
  unfold find?
  simp only
  rw [walk_eq_through]
  generalize expression.items = items
  induction items with
  | nil => rfl
  | cons item rest inductionHypothesis =>
      rw [List.findSome?_cons, Flow.through]
      cases item with
      | leaf operand => exact inductionHypothesis
      | node found =>
          by_cases same : found.operator = operator
          · simp only [Item.nodeOf?, if_pos same, Flow.andThen_stop]
          · simp only [Item.nodeOf?, if_neg same, Flow.andThen_next]
            exact inductionHypothesis

/-- All walks of the expression are recursions over what its operands unfold to, and no
recursion is deeper than the array is long. -/
structure Walkable (expression : Expression) : Prop where
  root : expression.nodes[expression.rootIndex]? = some expression.root ∧
    expression.rootIndex + 1 = expression.nodes.size
  unfolds_iff : ∀ tree items, Unfolds expression.nodes (.node expression.rootIndex) tree items ↔
    tree = expression.tree ∧ items = expression.items
  nesting : expression.tree.nesting ≤ expression.nodes.size
  walk : ∀ {σ β : Type} (step : Item → σ → Flow σ β) (state : σ),
    expression.walk step state = Flow.through step expression.items state
  visit : ∀ {σ : Type} (step : Item → σ → σ) (state : σ), expression.visit step state =
    expression.items.foldl (fun state item => step item state) state
  find : ∀ operator, expression.find? operator =
    expression.items.findSome? (Item.nodeOf? operator)
  assigned : ∀ target, expression.assigned? = some target ↔
    expression.root.operator = .assign ∧ expression.root.lhs = .buffer target
  operands : ∀ (index : Nat) (node : Node), expression.nodes[index]? = some node →
    ∀ operand, operand = node.lhs ∨ operand = node.rhs →
      ∃ tree items, Unfolds expression.nodes operand tree items ∧ tree.nesting ≤ index ∧
        expression.bufferOperand? operand = tree.behind?
  renders : ∀ (bindings : Bindings) (access : Access) (scalars : List Nat),
    OnlyRefuses (bindings.statement access expression.tree scalars)

theorem assigned?_eq_some_iff {target : Buffer} :
    expression.assigned? = some target ↔
      expression.root.operator = .assign ∧ expression.root.lhs = .buffer target := by
  unfold assigned?
  split
  · next isAssign isBuffer => simp [isAssign, isBuffer]
  · next other =>
      constructor
      · exact nofun
      · intro ⟨isAssign, isBuffer⟩
        exact (other target isAssign isBuffer).elim

theorem walkable (expression : Expression) : expression.Walkable where
  root := by
    have nonempty := expression.nonempty
    refine ⟨Array.getElem?_eq_getElem expression.rootIndex_lt, ?_⟩
    unfold rootIndex
    omega
  unfolds_iff := by
    intro tree items
    have unfolds := expression.unfolds_from expression.rootIndex expression.rootIndex_lt
    constructor
    · exact unfolds.unique
    · rintro ⟨rfl, rfl⟩
      exact unfolds
  nesting := by
    have depth := expression.treeFrom_nesting_le expression.rootIndex expression.rootIndex_lt
    have inside := expression.rootIndex_lt
    unfold tree
    omega
  walk := expression.walk_eq_through
  visit := expression.visit_eq_foldl
  find := expression.find?_eq_findSome?
  assigned := fun _ => assigned?_eq_some_iff
  operands := by
    intro index node found operand stands
    obtain ⟨bound, rfl⟩ := Array.getElem?_eq_some_iff.1 found
    have admissible : operand.Admissible expression.context index := by
      rcases stands with rfl | rfl
      · exact (expression.admissible index bound).1
      · exact (expression.admissible index bound).2
    refine ⟨expression.operandTree bound operand admissible, _,
      operand_unfolds (fun child inside _ => expression.unfolds_from child inside) _ _,
      operand_nesting_le (fun child inside _ => expression.treeFrom_nesting_le child inside) _ _,
      bufferOperand?_eq_behind admissible⟩
  renders := fun bindings access scalars => bindings.statement_onlyRefuses access _ scalars

section FirstBreak

variable {node : Node} {operator : Operator}

/-! ### The first break -/

theorem operandItems_of_node (bound : index < expression.nodes.size) {operand : Operand}
    {child : Nat} (leads : operand = .node child)
    (admissible : operand.Admissible expression.context index) :
    ∃ inside,
      expression.operandItems bound operand admissible = expression.itemsFrom child inside := by
  subst leads
  exact ⟨_, rfl⟩

theorem itemsFrom_subset_items (reached : expression.Reachable index)
    (bound : index < expression.nodes.size) :
    expression.itemsFrom index bound ⊆ expression.items := by
  induction reached with
  | root => exact List.Subset.refl _
  | @lhs parent child node reached found operand inductionHypothesis =>
      obtain ⟨inside, rfl⟩ := Array.getElem?_eq_some_iff.1 found
      obtain ⟨_, same⟩ :=
        operandItems_of_node inside operand (expression.admissible parent inside).1
      apply List.Subset.trans _ (inductionHypothesis inside)
      rw [← same, expression.itemsFrom_eq parent inside]
      exact List.subset_cons_of_subset _ (List.subset_append_left _ _)
  | @rhs parent child node reached found operand inductionHypothesis =>
      obtain ⟨inside, rfl⟩ := Array.getElem?_eq_some_iff.1 found
      obtain ⟨_, same⟩ :=
        operandItems_of_node inside operand (expression.admissible parent inside).2
      apply List.Subset.trans _ (inductionHypothesis inside)
      rw [← same, expression.itemsFrom_eq parent inside]
      exact List.subset_cons_of_subset _ (List.subset_append_right _ _)

theorem exists_reachable_of_mem_itemsFrom (bound : index < expression.nodes.size)
    (reached : expression.Reachable index)
    (member : .node node ∈ expression.itemsFrom index bound) :
    ∃ place, expression.Reachable place ∧ expression.node? place = some node := by
  induction index using Nat.strongRecOn with
  | _ index inductionHypothesis =>
      have found : expression.node? index = some expression.nodes[index] :=
        Array.getElem?_eq_getElem bound
      have below (operand : Operand) (admissible : operand.Admissible expression.context index)
          (leads : ∀ child, operand = .node child → expression.Reachable child)
          (among : .node node ∈ expression.operandItems bound operand admissible) :
          ∃ place, expression.Reachable place ∧ expression.node? place = some node := by
        cases operand with
        | empty => cases among
        | buffer handle => cases List.mem_singleton.1 among
        | scalar elementType value => cases List.mem_singleton.1 among
        | node child => exact inductionHypothesis child admissible _ (leads child rfl) among
      rw [itemsFrom_eq, List.mem_cons, List.mem_append] at member
      rcases member with own | left | right
      · cases own
        exact ⟨index, reached, found⟩
      · exact below _ _ (fun child => .lhs reached found) left
      · exact below _ _ (fun child => .rhs reached found) right

/-- The nodes among the items are those that the root leads to. -/
theorem node_mem_items_iff : .node node ∈ expression.items ↔
    ∃ place, expression.Reachable place ∧ expression.node? place = some node := by
  constructor
  · exact exists_reachable_of_mem_itemsFrom expression.rootIndex_lt .root
  · rintro ⟨place, reached, found⟩
    obtain ⟨bound, rfl⟩ := Array.getElem?_eq_some_iff.1 found
    apply itemsFrom_subset_items reached bound
    rw [itemsFrom_eq]
    exact List.mem_cons_self

/-- A search finds the first node with the operator. -/
theorem find?_eq_some_iff : expression.find? operator = some node ↔
    ∃ front back, expression.items = front ++ .node node :: back ∧ node.operator = operator ∧
      ∀ other, .node other ∈ front → other.operator ≠ operator := by
  rw [find?_eq_findSome?, List.findSome?_eq_some_iff]
  constructor
  · rintro ⟨front, item, back, whole, isNode, none⟩
    obtain ⟨rfl, same⟩ := Item.nodeOf?_eq_some_iff.1 isNode
    refine ⟨front, back, whole, same, ?_⟩
    intro other member equal
    cases (Item.nodeOf?_eq_some_iff.2 ⟨rfl, equal⟩).symm.trans (none _ member)
  · rintro ⟨front, back, whole, same, others⟩
    refine ⟨front, .node node, back, whole, Item.nodeOf?_eq_some_iff.2 ⟨rfl, same⟩, ?_⟩
    intro item member
    rw [Option.eq_none_iff_forall_ne_some]
    intro other isNode
    obtain ⟨rfl, equal⟩ := Item.nodeOf?_eq_some_iff.1 isNode
    exact others other member equal

/-- It finds none when no node that the root leads to has the operator. -/
theorem find?_eq_none_iff : expression.find? operator = none ↔
    ∀ (place : Nat) (node : Node), expression.Reachable place →
      expression.node? place = some node → node.operator ≠ operator := by
  rw [find?_eq_findSome?, List.findSome?_eq_none_iff]
  constructor
  · intro none place node reached found same
    have member := node_mem_items_iff.2 ⟨place, reached, found⟩
    cases (Item.nodeOf?_eq_some_iff.2 ⟨rfl, same⟩).symm.trans (none _ member)
  · intro others item member
    rw [Option.eq_none_iff_forall_ne_some]
    intro node isNode
    obtain ⟨rfl, same⟩ := Item.nodeOf?_eq_some_iff.1 isNode
    obtain ⟨place, reached, found⟩ := node_mem_items_iff.1 member
    exact others place node reached found same

/-- A walk hands out what a visit hands out, which is the tree in prefix order, up to the first
item at which the step stops, and it returns what the step returned there. It is through exactly
when the step goes on at every item. A search therefore finds the first node with the operator, and
none when the root leads to none. -/
theorem walk_stops_at_first_break (expression : Expression) :
    Unfolds expression.nodes (.node expression.rootIndex) expression.tree expression.handedOut ∧
      (∀ {σ β : Type} (step : Item → σ → Flow σ β) (state : σ),
        (expression.walk (Flow.logged step) ([], state)).unlogged = expression.walk step state ∧
        (∀ handed result,
          expression.walk (Flow.logged step) ([], state) = .stop (handed, result) ↔
            ∃ front item back reached, handed = front ++ [item] ∧
              expression.handedOut = front ++ item :: back ∧
              Flow.GoesOn step front state reached ∧ step item reached = .stop result) ∧
        (∀ handed last,
          expression.walk (Flow.logged step) ([], state) = .next (handed, last) ↔
            handed = expression.handedOut ∧
              Flow.GoesOn step expression.handedOut state last)) ∧
      (∀ operator node, expression.find? operator = some node ↔
        ∃ front back, expression.handedOut = front ++ .node node :: back ∧
          node.operator = operator ∧
          ∀ other, .node other ∈ front → other.operator ≠ operator) ∧
      (∀ operator, expression.find? operator = none ↔
        ∀ place node, expression.Reachable place → expression.node? place = some node →
          node.operator ≠ operator) := by
  rw [handedOut_eq_items]
  refine ⟨expression.unfolds_from _ expression.rootIndex_lt, ?walks, fun _ _ => find?_eq_some_iff,
    fun _ => find?_eq_none_iff⟩
  intro σ β step state
  simp only [walk_eq_through]
  exact ⟨Flow.unlogged_through_logged, fun _ _ => Flow.through_logged_eq_stop_iff,
    fun _ _ => Flow.through_logged_eq_next_iff⟩

end FirstBreak

end Expression

/-! ### Finished drafts -/

namespace Draft

variable {draft : Draft}

/-- The root is the last node. Every node, reachable or not, refers to earlier nodes and to
buffers of the context. -/
structure Acceptable (draft : Draft) : Prop where
  root : ∃ last, draft.root = .node last ∧ last + 1 = draft.pushes.length
  earlier : ∀ (index : Nat) (node : Node), draft.pushes[index]? = some node →
    ∀ child, node.lhs = .node child ∨ node.rhs = .node child → child < index
  home : ∀ handle, draft.Pushes handle → handle.context = draft.context

/-- There are no nodes, and the root is the greatest reference. -/
def Overflows (draft : Draft) : Prop :=
  draft.pushes = [] ∧ draft.root = .node (Size.wordCount - 1)

theorem admissible_iff {context : ContextId} {index : Nat} {operand : Operand} :
    operand.Admissible context index ↔
      (∀ child, operand = .node child → child < index) ∧
        ∀ handle, operand = .buffer handle → handle.context = context := by
  cases operand <;> simp [Operand.Admissible]

/-- The conditions on the nodes are those that the builder checks. -/
theorem acceptable_iff : draft.Acceptable ↔
    (∃ last, draft.root = .node last ∧ last + 1 = draft.pushes.length) ∧
      draft.builder.violation? = none := by
  have clean_iff : draft.builder.violation? = none ↔
      ∀ (index : Nat) (node : Node), draft.pushes[index]? = some node →
        node.Admissible draft.context index := by
    rw [builder_eq, Builder.violation?_eq_none_iff]
    simp only [List.size_toArray, List.getElem_toArray, List.getElem?_eq_some_iff]
    constructor
    · rintro allowed index node ⟨bound, rfl⟩
      exact allowed index bound
    · intro allowed index bound
      exact allowed index _ ⟨bound, rfl⟩
  rw [clean_iff]
  constructor
  · intro acceptable
    refine ⟨acceptable.root, ?_⟩
    intro index node found
    have pushed := List.mem_of_getElem? found
    have earlier := acceptable.earlier index node found
    have home (handle : Buffer) (stands : node.lhs = .buffer handle ∨ node.rhs = .buffer handle) :=
      acceptable.home handle ⟨node, pushed, stands⟩
    exact ⟨admissible_iff.2 ⟨fun child same => earlier child (.inl same),
        fun handle same => home handle (.inl same)⟩,
      admissible_iff.2 ⟨fun child same => earlier child (.inr same),
        fun handle same => home handle (.inr same)⟩⟩
  · rintro ⟨root, allowed⟩
    refine ⟨root, ?earlier, ?home⟩
    case earlier =>
      intro index node found child stands
      obtain ⟨lhs, rhs⟩ := allowed index node found
      rcases stands with left | right
      · exact (admissible_iff.1 lhs).1 child left
      · exact (admissible_iff.1 rhs).1 child right
    case home =>
      rintro handle ⟨node, pushed, stands⟩
      obtain ⟨index, found⟩ := List.mem_iff_getElem?.1 pushed
      obtain ⟨lhs, rhs⟩ := allowed index node found
      rcases stands with left | right
      · exact (admissible_iff.1 lhs).2 handle left
      · exact (admissible_iff.1 rhs).2 handle right

theorem exists_finish_iff : (∃ expression, draft.finish = .ok expression) ↔ draft.Acceptable := by
  rw [acceptable_iff]
  constructor
  · rintro ⟨expression, finished⟩
    obtain ⟨root, sameNodes, sameContext, _⟩ := finish_eq_ok_iff.1 finished
    refine ⟨root, ?_⟩
    rw [builder_eq, Builder.violation?_eq_none_iff]
    obtain ⟨nodes, context, elementType, nonempty, admissible⟩ := expression
    cases sameNodes
    cases sameContext
    exact admissible
  · rintro ⟨⟨last, isNode, isLast⟩, clean⟩
    have admissible := Builder.violation?_eq_none_iff.1 clean
    rw [builder_eq] at admissible
    have nonempty : 0 < draft.pushes.toArray.size := by
      rw [List.size_toArray]
      omega
    exact ⟨⟨draft.pushes.toArray, draft.context, draft.elementType, nonempty, admissible⟩,
      finish_eq_ok_iff.2 ⟨⟨last, isNode, isLast⟩, rfl, rfl, rfl⟩⟩

theorem finish_of_overflows (overflows : draft.Overflows) :
    draft.finish = .error (.fault .indexOverflow) := by
  obtain ⟨noNodes, greatest⟩ := overflows
  unfold finish
  rw [builder_eq, noNodes, greatest]
  rfl

theorem finish_onlyRefuses (fits : ¬ draft.Overflows) : OnlyRefuses draft.finish := by
  unfold finish Builder.finish
  split
  · next index isNode =>
      split
      · split
        · exact .refuse _
        · exact .ok _
      · split
        · next greatest =>
            rw [builder_eq] at greatest
            have noNodes : draft.pushes = [] := List.eq_nil_of_length_eq_zero greatest.2
            have index_eq : index = Size.wordCount - 1 := by omega
            exact absurd ⟨noNodes, index_eq ▸ isNode⟩ fits
        · exact .refuse _
  · exact .refuse _

/-- A builder finishes a draft exactly when the draft is acceptable, into an expression of its
nodes, all of whose walks end within the array. Other drafts are refused, but for one without
nodes whose root is the greatest reference: the index behind it is not a machine word. -/
theorem finish_walkable (draft : Draft) :
    ((∃ expression, draft.finish = .ok expression) ↔ draft.Acceptable) ∧
      (∀ expression, draft.finish = .ok expression →
        expression.nodes = draft.pushes.toArray ∧
          draft.root = .node expression.rootIndex ∧ expression.Walkable) ∧
      (∀ cause, draft.finish = .error cause →
        cause.isInvalidArgument = true ∨ draft.Overflows ∧ cause = .fault .indexOverflow) ∧
      (draft.Overflows → draft.finish = .error (.fault .indexOverflow)) := by
  refine ⟨exists_finish_iff, ?finished, ?refused, finish_of_overflows⟩
  case finished =>
    intro expression finished
    obtain ⟨⟨last, isNode, isLast⟩, sameNodes, _⟩ := finish_eq_ok_iff.1 finished
    have rootIndex : expression.rootIndex = last := by
      unfold Expression.rootIndex
      rw [sameNodes, List.size_toArray]
      omega
    exact ⟨sameNodes, rootIndex ▸ isNode, expression.walkable⟩
  case refused =>
    intro cause failed
    by_cases overflows : draft.Overflows
    · rw [finish_of_overflows overflows] at failed
      exact .inr ⟨overflows, (Except.error.inj failed).symm⟩
    · exact .inl (finish_onlyRefuses overflows cause failed)

/-- Without nodes, the greatest reference is neither refused nor the root of an expression. Where
machine words wrap, the word behind it is the number of nodes. -/
theorem greatest_root_overflows :
    (Draft.mk ⟨1⟩ .f32 [] (.node 0xFFFFFFFFFFFFFFFF)).finish = .error (.fault .indexOverflow) ∧
      ¬ (Draft.mk ⟨1⟩ .f32 [] (.node 0xFFFFFFFFFFFFFFFF)).Acceptable ∧
      (Error.fault .indexOverflow).isInvalidArgument = false ∧
      ((0xFFFFFFFFFFFFFFFF : UInt64) + 1).toNat =
        (Draft.mk ⟨1⟩ .f32 [] (.node 0xFFFFFFFFFFFFFFFF)).pushes.length := by
  refine ⟨rfl, ?_, rfl, rfl⟩
  intro acceptable
  obtain ⟨last, _, isLast⟩ := acceptable.root
  cases isLast

end Draft

end KernelTuner
