import KernelTuner.Expression.Basic

/-!
Contract: traversal of expressions.

Owns: the walk in prefix order (a node, then its left operand, then its right
one), which a step may stop at any item; the list of all items it would hand out;
the search for an operator; and the resolution of an operand to a buffer through
transpositions.

A full walk may be exponential in the number of nodes. A caller with a budget
stops it.
-/

set_option autoImplicit false

namespace KernelTuner

/-- Where a traversal stands after an item. -/
inductive Flow (σ β : Type) where
  | next (state : σ)
  | stop (result : β)

/-- Goes on with `continuation` unless the traversal has stopped. -/
def Flow.andThen {σ β : Type} (flow : Flow σ β) (continuation : σ → Flow σ β) : Flow σ β :=
  match flow with
  | .next state => continuation state
  | .stop result => .stop result

/-- What a traversal hands out: a node, or an operand that is a buffer or a host
scalar. -/
inductive Item where
  | node (node : Node)
  | leaf (operand : Operand)
deriving Inhabited

namespace Expression

variable {σ β : Type}

/-- The walk of what stands below place `index`, from that place on. -/
def walkFrom (expression : Expression) (step : Item → σ → Flow σ β) (index : Nat)
    (bound : index < expression.nodes.size) (state : σ) : Flow σ β :=
  let node := expression.nodes[index]
  let below (operand : Operand) (admissible : operand.Admissible expression.context index)
      (state : σ) : Flow σ β :=
    operand.elimAt admissible
      (fun child earlier => walkFrom expression step child (Nat.lt_trans earlier bound) state)
      (fun handle => step (.leaf (.buffer handle)) state)
      (fun elementType value => step (.leaf (.scalar elementType value)) state)
      (.next state)
  (step (.node node) state).andThen fun state =>
    (below node.lhs (expression.admissible index bound).1 state).andThen fun state =>
      below node.rhs (expression.admissible index bound).2 state
termination_by index

/-- The walk from the root. -/
def walk (expression : Expression) (step : Item → σ → Flow σ β) (state : σ) : Flow σ β :=
  expression.walkFrom step expression.rootIndex expression.rootIndex_lt state

/-- The walk that hands out every item. -/
def visit (expression : Expression) (step : Item → σ → σ) (state : σ) : σ :=
  match expression.walk (β := Empty) (fun item state => .next (step item state)) state with
  | .next state => state

/-- All items below place `index`, in prefix order. -/
def itemsFrom (expression : Expression) (index : Nat)
    (bound : index < expression.nodes.size) : List Item :=
  let node := expression.nodes[index]
  let below (operand : Operand) (admissible : operand.Admissible expression.context index) :
      List Item :=
    operand.elimAt admissible
      (fun child earlier => itemsFrom expression child (Nat.lt_trans earlier bound))
      (fun handle => [.leaf (.buffer handle)])
      (fun elementType value => [.leaf (.scalar elementType value)])
      []
  .node node ::
    (below node.lhs (expression.admissible index bound).1 ++
      below node.rhs (expression.admissible index bound).2)
termination_by index

/-- All items of the expression, in prefix order. -/
def items (expression : Expression) : List Item :=
  expression.itemsFrom expression.rootIndex expression.rootIndex_lt

/-- The first node with `operator` in prefix order. -/
def find? (expression : Expression) (operator : Operator) : Option Node :=
  let step (item : Item) (_ : Unit) : Flow Unit Node :=
    match item with
    | .node node => if node.operator = operator then .stop node else .next ()
    | .leaf _ => .next ()
  match expression.walk step () with
  | .stop node => some node
  | .next () => none

/-- The buffer behind the transpositions from place `index` on, and whether their
number is odd. -/
def transposed? (expression : Expression) (index : Nat)
    (bound : index < expression.nodes.size) : Option (Buffer × Bool) :=
  let node := expression.nodes[index]
  if node.operator = .transpose then
    (node.lhs.elimAt (expression.admissible index bound).1
      (fun child earlier => transposed? expression child (Nat.lt_trans earlier bound))
      (fun handle => some (handle, false))
      (fun _ _ => none)
      none).map (fun found => (found.1, !found.2))
  else none
termination_by index

/-- The buffer that an operand stands for, and whether it is read transposed. -/
def bufferOperand? (expression : Expression) : Operand → Option (Buffer × Bool)
  | .buffer handle => some (handle, false)
  | .node index =>
      if bound : index < expression.nodes.size then expression.transposed? index bound else none
  | _ => none

end Expression

end KernelTuner
