import KernelTuner.Error
import KernelTuner.Shape

/-!
Contract: regression trees in flat form.

Owns: the tree type, the reading of a tree from five parallel node arrays, and
evaluation. The children of a split come after it and exist, so evaluation
reaches a leaf.
-/

set_option autoImplicit false

namespace KernelTuner

inductive TreeNode where
  | split (feature : Nat) (threshold : Float) (left right : Nat)
  | leaf (costs : List Float32)
deriving Inhabited

/-- The children of a node at place `index` of `count` nodes come after it. -/
def TreeNode.Forward (index count : Nat) : TreeNode → Prop
  | .split _ _ left right => (index < left ∧ left < count) ∧ (index < right ∧ right < count)
  | .leaf _ => True

/-- A regression tree; its root is the first node. -/
structure RegressionTree where
  nodes : List TreeNode
  /-- Number of costs at each leaf. -/
  outputs : Nat
  nonempty : 0 < nodes.length
  forward : ∀ (index : Nat) (bound : index < nodes.length),
    nodes[index].Forward index nodes.length

/-- A tree as a description lists it: entry `i` of every array belongs to node `i`,
and a node both of whose children are `-1` is a leaf. -/
structure TreeDescription where
  childrenLeft : List Int
  childrenRight : List Int
  threshold : List Float
  feature : List Int
  value : List (List Float32)
deriving Inhabited

/-- What a description says about one node. -/
structure TreeRow where
  left : Int
  right : Int
  threshold : Float
  feature : Int
  costs : List Float32

namespace TreeDescription

/-- The nodes, as long as all arrays last. -/
def rows (tree : TreeDescription) : List TreeRow :=
  (tree.childrenLeft.zip (tree.childrenRight.zip
    (tree.threshold.zip (tree.feature.zip tree.value)))).map fun entry =>
      ⟨entry.1, entry.2.1, entry.2.2.1, entry.2.2.2.1, entry.2.2.2.2⟩

end TreeDescription

namespace TreeRow

/-- The place of a child of node `index`: behind the node and before the end. -/
def child (index count : Nat) (place : Int) : Except TreeError Nat :=
  if (index : Int) < place ∧ place < count then .ok place.toNat
  else .error (.childOutside index place count)

/-- The width of the leaves once this leaf has been seen. -/
def leafWidth (index : Nat) (width : Option Nat) (costs : List Float32) :
    Except TreeError Nat :=
  match width with
  | none => if costs.isEmpty then .error (.leafWithoutCosts index) else .ok costs.length
  | some expected =>
      if expected = costs.length then .ok expected
      else .error (.leafWidth index costs.length expected)

/-- The node that a row stands for, and the width of the leaves seen so far. -/
def node (index count : Nat) (width : Option Nat) (row : TreeRow) :
    Except TreeError (TreeNode × Option Nat) :=
  if row.left = -1 ∧ row.right = -1 then do
    let width ← leafWidth index width row.costs
    return (.leaf row.costs, some width)
  else if row.feature < 0 then .error (.negativeFeature index row.feature)
  else do
    let left ← child index count row.left
    let right ← child index count row.right
    return (.split row.feature.toNat row.threshold left right, width)

/-- The nodes that rows stand for, from place `index` on. -/
def nodes (count : Nat) (index : Nat) (width : Option Nat) :
    List TreeRow → Except TreeError (List TreeNode × Option Nat)
  | [] => .ok ([], width)
  | row :: rest => do
      let (node, width) ← row.node index count width
      let (following, width) ← nodes count (index + 1) width rest
      return (node :: following, width)

theorem child_eq_ok {index count place : Nat} {given : Int}
    (accepted : child index count given = .ok place) : index < place ∧ place < count := by
  unfold child at accepted
  split at accepted
  · cases accepted
    omega
  · cases accepted

theorem node_forward {index count : Nat} {width after : Option Nat} {row : TreeRow}
    {node : TreeNode} (accepted : row.node index count width = .ok (node, after)) :
    node.Forward index count := by
  unfold TreeRow.node at accepted
  split at accepted
  · cases widthRead : leafWidth index width row.costs with
    | error cause => simp [widthRead, bind, Except.bind] at accepted
    | ok found =>
        simp [widthRead, bind, Except.bind, pure, Except.pure] at accepted
        simp [← accepted.1, TreeNode.Forward]
  · split at accepted
    · cases accepted
    · cases leftRead : child index count row.left with
      | error cause => simp [leftRead, bind, Except.bind] at accepted
      | ok left =>
          cases rightRead : child index count row.right with
          | error cause => simp [leftRead, rightRead, bind, Except.bind] at accepted
          | ok right =>
              simp [leftRead, rightRead, bind, Except.bind, pure, Except.pure] at accepted
              rw [← accepted.1]
              exact ⟨child_eq_ok leftRead, child_eq_ok rightRead⟩

theorem nodes_forward {count : Nat} {rows : List TreeRow} :
    ∀ {index : Nat} {width after : Option Nat} {nodes : List TreeNode},
      TreeRow.nodes count index width rows = .ok (nodes, after) →
        nodes.length = rows.length ∧
          ∀ (place : Nat) (bound : place < nodes.length),
            nodes[place].Forward (index + place) count := by
  induction rows with
  | nil =>
      intro index width after nodes accepted
      simp only [TreeRow.nodes, Except.ok.injEq, Prod.mk.injEq] at accepted
      rw [← accepted.1]
      exact ⟨rfl, fun place bound => absurd bound (Nat.not_lt_zero place)⟩
  | cons row rest inductionHypothesis =>
      intro index width after nodes accepted
      unfold TreeRow.nodes at accepted
      cases headRead : row.node index count width with
      | error cause => simp [headRead, bind, Except.bind] at accepted
      | ok head =>
          obtain ⟨node, seen⟩ := head
          cases tailRead : TreeRow.nodes count (index + 1) seen rest with
          | error cause => simp [headRead, tailRead, bind, Except.bind] at accepted
          | ok tail =>
              obtain ⟨following, final⟩ := tail
              simp [headRead, tailRead, bind, Except.bind, pure, Except.pure] at accepted
              obtain ⟨sameLength, tailForward⟩ := inductionHypothesis tailRead
              rw [← accepted.1]
              refine ⟨by simp [sameLength], fun place bound => ?_⟩
              cases place with
              | zero => exact node_forward headRead
              | succ place =>
                  have shifted := tailForward place (by simpa using bound)
                  rw [show index + (place + 1) = index + 1 + place by omega]
                  simpa using shifted

end TreeRow

namespace RegressionTree

/-- The tree that a description stands for. -/
def ofDescription (tree : TreeDescription) : Except TreeError RegressionTree :=
  let count := tree.childrenLeft.length
  let lengths := [tree.childrenRight.length, tree.threshold.length, tree.feature.length,
    tree.value.length]
  if count = 0 then .error .noNodes
  else if lengths.any (fun length => length ≠ count) then .error (.lengthsDiffer count lengths)
  else
    match accepted : TreeRow.nodes tree.rows.length 0 none tree.rows with
    | .error cause => .error cause
    | .ok (nodes, some outputs) =>
        if nonempty : 0 < nodes.length then
          .ok {
            nodes, outputs, nonempty
            forward := fun index bound => by
              obtain ⟨sameLength, forward⟩ := TreeRow.nodes_forward accepted
              rw [sameLength]
              simpa using forward index bound }
        else .error .noNodes
    | .ok (_, none) => .error .noLeaves

/-- The costs of the leaf that `shape` reaches from place `index`. -/
def costsFrom (tree : RegressionTree) (shape : Shape) (index : Nat)
    (bound : index < tree.nodes.length) : List Float32 :=
  match reached : tree.nodes[index] with
  | .leaf costs => costs
  | .split feature threshold left right =>
      have forward : (TreeNode.split feature threshold left right).Forward index
          tree.nodes.length := reached ▸ tree.forward index bound
      if (Int64.ofInt (shape.feature feature)).toFloat ≤ threshold then
        costsFrom tree shape left forward.1.2
      else costsFrom tree shape right forward.2.2
termination_by tree.nodes.length - index
decreasing_by
  · have := forward.1
    omega
  · have := forward.2
    omega

/-- The costs of the leaf that `shape` reaches. A size that the shape does not have
reads as zero. -/
def predict (tree : RegressionTree) (shape : Shape) : List Float32 :=
  tree.costsFrom shape 0 tree.nonempty

end RegressionTree

end KernelTuner
