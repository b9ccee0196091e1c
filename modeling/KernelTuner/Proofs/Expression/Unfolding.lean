import KernelTuner.Expression.Tree
import KernelTuner.Expression.Walk

/-!
Contract: traversals read off the unfolded tree.

Owns: the symbols of a tree in prefix order; `walk_eq_through`, by which a walk is the
run of its step over the list of all items, stopped early or not, and the same for several
expressions in a row; and
`items_symbols`, by which that list spells the tree. Together they free statements
about traversals from the node array and from sharing.
-/

set_option autoImplicit false

namespace KernelTuner

variable {σ β : Type}

namespace Flow

/-- The run of a step over items, up to the first at which it stops. -/
def through (step : Item → σ → Flow σ β) : List Item → σ → Flow σ β
  | [], state => .next state
  | item :: rest, state => (step item state).andThen (through step rest)

@[simp] theorem andThen_next (state : σ) (continuation : σ → Flow σ β) :
    (Flow.next state).andThen continuation = continuation state := rfl

@[simp] theorem andThen_stop (result : β) (continuation : σ → Flow σ β) :
    (Flow.stop result : Flow σ β).andThen continuation = .stop result := rfl

theorem andThen_assoc (flow : Flow σ β) (first second : σ → Flow σ β) :
    (flow.andThen first).andThen second =
      flow.andThen (fun state => (first state).andThen second) := by
  cases flow <;> rfl

theorem through_append (step : Item → σ → Flow σ β) (front back : List Item) :
    through step (front ++ back) = fun state => (through step front state).andThen (through step back) := by
  induction front with
  | nil => rfl
  | cons item rest inductionHypothesis =>
      funext state
      simp only [List.cons_append, through, andThen_assoc, inductionHypothesis]

end Flow

/-- What a tree shows of an item: its operator, or the leaf that it is. -/
inductive Symbol where
  | operator (operator : Operator)
  | leaf (leaf : Leaf)

/-- The symbol of an item. No traversal hands out an empty operand or a reference. -/
def Item.symbol? : Item → Option Symbol
  | .node parent => some (.operator parent.operator)
  | .leaf (.buffer handle) => some (.leaf (.buffer handle))
  | .leaf (.scalar elementType value) => some (.leaf (.scalar elementType value))
  | .leaf _ => none

namespace Tree

/-- The symbols in prefix order; what is missing leaves no trace. -/
def symbols : Tree → List Symbol
  | empty => []
  | buffer handle => [.leaf (.buffer handle)]
  | scalar elementType value => [.leaf (.scalar elementType value)]
  | node operator lhs rhs => .operator operator :: (lhs.symbols ++ rhs.symbols)

end Tree

/-- The leaf that a symbol is. -/
def Symbol.leaf? : Symbol → Option Leaf
  | operator _ => none
  | leaf found => some found

theorem Tree.symbols_leaves (tree : Tree) : tree.symbols.filterMap Symbol.leaf? = tree.leaves := by
  induction tree with
  | empty => rfl
  | buffer handle => rfl
  | scalar elementType value => rfl
  | node operator lhs rhs lhsHypothesis rhsHypothesis =>
      simp [symbols, leaves, Symbol.leaf?, List.filterMap_cons, lhsHypothesis, rhsHypothesis]

namespace Expression

theorem lt_size_of_earlier (expression : Expression) {index child : Nat}
    (bound : index < expression.nodes.size) (earlier : child < index) :
    child < expression.nodes.size := Nat.lt_trans earlier bound

/-- The tree of an operand that may stand at place `index`. -/
def operandTree (expression : Expression) {index : Nat} (bound : index < expression.nodes.size)
    (operand : Operand) (admissible : operand.Admissible expression.context index) : Tree :=
  operand.elimAt admissible
    (fun child earlier => expression.treeFrom child (expression.lt_size_of_earlier bound earlier))
    .buffer .scalar .empty

theorem treeFrom_eq (expression : Expression) (index : Nat)
    (bound : index < expression.nodes.size) :
    expression.treeFrom index bound =
      .node expression.nodes[index].operator
        (expression.operandTree bound expression.nodes[index].lhs
          (expression.admissible index bound).1)
        (expression.operandTree bound expression.nodes[index].rhs
          (expression.admissible index bound).2) := by
  rw [treeFrom]
  rfl

theorem walkFrom_eq_through (expression : Expression) (step : Item → σ → Flow σ β) (index : Nat)
    (bound : index < expression.nodes.size) (state : σ) :
    expression.walkFrom step index bound state =
      Flow.through step (expression.itemsFrom index bound) state := by
  induction index using Nat.strongRecOn generalizing state with
  | _ index inductionHypothesis =>
      have operandOver (operand : Operand)
          (admissible : operand.Admissible expression.context index) (state : σ) :
          operand.elimAt admissible
              (fun child earlier =>
                expression.walkFrom step child (Nat.lt_trans earlier bound) state)
              (fun handle => step (.leaf (.buffer handle)) state)
              (fun elementType value => step (.leaf (.scalar elementType value)) state)
              (.next state) =
            Flow.through step
              (operand.elimAt admissible
                (fun child earlier => expression.itemsFrom child (Nat.lt_trans earlier bound))
                (fun handle => [.leaf (.buffer handle)])
                (fun elementType value => [.leaf (.scalar elementType value)])
                []) state := by
        have single (item : Item) : step item state = Flow.through step [item] state := by
          simp only [Flow.through]
          cases step item state <;> rfl
        cases operand with
        | empty => rfl
        | buffer handle => exact single _
        | scalar elementType value => exact single _
        | node child => exact inductionHypothesis child admissible _ state
      rw [walkFrom, itemsFrom]
      simp only [Flow.through, Flow.through_append, operandOver]

/-- A walk runs its step over the items in prefix order. -/
theorem walk_eq_through (expression : Expression) (step : Item → σ → Flow σ β) (state : σ) :
    expression.walk step state = Flow.through step expression.items state :=
  expression.walkFrom_eq_through step expression.rootIndex expression.rootIndex_lt state

/-- The walk of several expressions one after another. -/
def walkAll (step : Item → σ → Flow σ β) : List Expression → σ → Flow σ β
  | [], state => .next state
  | expression :: rest, state => (expression.walk step state).andThen (walkAll step rest)

/-- Several expressions are walked as if their items were one list. -/
theorem walkAll_eq_through (step : Item → σ → Flow σ β) (expressions : List Expression)
    (state : σ) :
    walkAll step expressions state = Flow.through step (expressions.flatMap items) state := by
  induction expressions generalizing state with
  | nil => rfl
  | cons expression rest inductionHypothesis =>
      rw [List.flatMap_cons, Flow.through_append, walkAll, walk_eq_through]
      congr 1
      funext reached
      exact inductionHypothesis reached

theorem itemsFrom_symbols (expression : Expression) (index : Nat)
    (bound : index < expression.nodes.size) :
    (expression.itemsFrom index bound).map Item.symbol? =
      (expression.treeFrom index bound).symbols.map some := by
  induction index using Nat.strongRecOn with
  | _ index inductionHypothesis =>
      have operandSymbols (operand : Operand)
          (admissible : operand.Admissible expression.context index) :
          (operand.elimAt admissible
              (fun child earlier => expression.itemsFrom child (Nat.lt_trans earlier bound))
              (fun handle => [.leaf (.buffer handle)])
              (fun elementType value => [.leaf (.scalar elementType value)])
              []).map Item.symbol? =
            (expression.operandTree bound operand admissible).symbols.map some := by
        cases operand with
        | empty => rfl
        | buffer handle => rfl
        | scalar elementType value => rfl
        | node child => exact inductionHypothesis child admissible _
      rw [itemsFrom, treeFrom_eq]
      simp only [List.map_cons, List.map_append, Tree.symbols, operandSymbols, Item.symbol?]

/-- The items spell the tree in prefix order. -/
theorem items_symbols (expression : Expression) :
    expression.items.map Item.symbol? = expression.tree.symbols.map some :=
  expression.itemsFrom_symbols expression.rootIndex expression.rootIndex_lt

/-- The root of the tree is the root node. -/
theorem tree_eq (expression : Expression) :
    expression.tree =
      .node expression.root.operator
        (expression.operandTree expression.rootIndex_lt expression.root.lhs
          (expression.admissible expression.rootIndex expression.rootIndex_lt).1)
        (expression.operandTree expression.rootIndex_lt expression.root.rhs
          (expression.admissible expression.rootIndex expression.rootIndex_lt).2) :=
  expression.treeFrom_eq expression.rootIndex expression.rootIndex_lt

end Expression

end KernelTuner
