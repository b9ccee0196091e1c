import KernelTuner.Proofs.Fingerprint.Structure
import KernelTuner.Proofs.Kernel.Meaning
import KernelTuner.Proofs.Variant.Operands
import Mathlib.Data.List.Perm.Basic

/-!
Contract: the meaning of a batch over whole arrays, and block by block.

Owns: what the buffers hold behind a batch whose expressions are evaluated one after another
over whole arrays; the same for the elements of a block only; and `evaluate_blocks`, by which
blocks that have each element once, in any order, together do what whole arrays do.

A block sees an element of another block nowhere: where it reads the only element of a single
value that the batch assigns, that value is all there is, and there is one block.
-/

set_option autoImplicit false

namespace KernelTuner

open Kernel (Meaning)

/-- What buffers hold, element by element. -/
abbrev Elements (α : Type) := BufferId → Nat → α

/-- The element of a buffer that is found at an index. A single value is found at all of them. -/
def Buffer.visible (handle : Buffer) (index : Nat) : Nat := if handle.rank = 0 then 0 else index

section Definitions

variable {α : Type} (meaning : Meaning α) (constant : ElementType → Float → α)

/-- Element `index` of a tree. What is not element-wise has no elements, and counts as zero. -/
def Tree.element (contents : Elements α) (index : Nat) : Tree → α
  | .empty => meaning.number 0
  | .buffer handle => contents handle.id (handle.visible index)
  | .scalar elementType value => constant elementType value
  | .node operator lhs rhs =>
      match operator.arithmetic? with
      | some arithmetic =>
          meaning.operate arithmetic (lhs.element contents index) (rhs.element contents index)
      | none => meaning.number 0

/-- What buffers hold behind an assignment of a block of elements. -/
def Tree.assign (block : List Nat) (contents : Elements α) : Tree → Elements α
  | .node .assign (.buffer target) rhs => fun id index =>
      if id = target.id ∧ index ∈ block then rhs.element meaning constant contents index
      else contents id index
  | _ => contents

/-- What buffers hold behind assignments of a block, one after another. -/
def assignAll (block : List Nat) (contents : Elements α) (trees : List Tree) : Elements α :=
  trees.foldl (fun contents tree => tree.assign meaning constant block contents) contents

/-- The elements that a tree assigns over whole arrays: all those of its target. -/
def Tree.extent : Tree → List Nat
  | .node .assign (.buffer target) _ => List.range target.extent.elements
  | _ => []

/-- What buffers hold behind a batch whose expressions are evaluated one after another over
whole arrays. -/
def Batch.evaluate (batch : Batch) (contents : Elements α) : Elements α :=
  batch.trees.foldl (fun contents tree => tree.assign meaning constant tree.extent contents)
    contents

end Definitions

/-- All targets have `count` elements, and handles of one identity are of one buffer. -/
structure Aligned (trees : List Tree) (count : Nat) : Prop where
  targets : ∀ target rhs, .node .assign (.buffer target) rhs ∈ trees →
    target.extent.elements = count
  coherent : ∀ handle other, .buffer handle ∈ trees.flatMap Tree.leaves →
    .buffer other ∈ trees.flatMap Tree.leaves → handle.id = other.id → handle.extent = other.extent

/-- No leaf tells the contents apart at an index. -/
def SeesAlike {α : Type} (leaves : List Leaf) (index : Nat) (left right : Elements α) : Prop :=
  ∀ handle, .buffer handle ∈ leaves →
    left handle.id (handle.visible index) = right handle.id (handle.visible index)

namespace Aligned

variable {trees : List Tree} {count : Nat}

/-- A single value that is assigned is found at index zero only, and it is all there is. -/
theorem visible_eq (aligned : Aligned trees count) {target handle : Buffer} {rhs : Tree}
    (assigns : .node .assign (.buffer target) rhs ∈ trees)
    (leaf : .buffer handle ∈ trees.flatMap Tree.leaves) (same : handle.id = target.id)
    {index : Nat} (inside : index < count) : handle.visible index = index := by
  have targetLeaf : .buffer target ∈ trees.flatMap Tree.leaves :=
    List.mem_flatMap.2 ⟨_, assigns, List.mem_cons_self⟩
  have extent := aligned.coherent handle target leaf targetLeaf same
  unfold Buffer.visible
  split
  · next single =>
      have elements := Buffer.elements_of_single single
      rw [extent, aligned.targets target rhs assigns] at elements
      omega
  · rfl

end Aligned

section Blocks

variable {α : Type} {meaning : Meaning α} {constant : ElementType → Float → α}
  {leaves : List Leaf} {tree : Tree} {trees : List Tree} {block other : List Nat}
  {count index : Nat} {left right contents : Elements α}

/-! ### What a block sees -/

theorem Tree.element_congr (alike : SeesAlike tree.leaves index left right) :
    tree.element meaning constant left index = tree.element meaning constant right index := by
  induction tree with
  | empty => rfl
  | buffer handle => exact alike handle List.mem_cons_self
  | scalar elementType value => rfl
  | node operator lhs rhs lhsHypothesis rhsHypothesis =>
      have alikeLeft : SeesAlike lhs.leaves index left right :=
        fun handle leaf => alike handle (List.mem_append_left _ leaf)
      have alikeRight : SeesAlike rhs.leaves index left right :=
        fun handle leaf => alike handle (List.mem_append_right _ leaf)
      simp only [element, lhsHypothesis alikeLeft, rhsHypothesis alikeRight]

/-- The parts of an assignment that a tree is, if it is one. -/
theorem Tree.assign_cases (tree : Tree) :
    (∃ target rhs, tree = .node .assign (.buffer target) rhs) ∨
      ∀ (block : List Nat) (contents : Elements α),
        tree.assign meaning constant block contents = contents := by
  cases tree with
  | node operator lhs rhs =>
      cases lhs with
      | buffer target =>
          cases operator
          case assign => exact .inl ⟨target, rhs, rfl⟩
          all_goals exact .inr fun _ _ => rfl
      | empty => exact .inr fun _ _ => by cases operator <;> rfl
      | scalar elementType value => exact .inr fun _ _ => by cases operator <;> rfl
      | node inner first second => exact .inr fun _ _ => by cases operator <;> rfl
  | empty => exact .inr fun _ _ => rfl
  | buffer handle => exact .inr fun _ _ => rfl
  | scalar elementType value => exact .inr fun _ _ => rfl

theorem Tree.assign_seesAlike (aligned : Aligned trees count) (member : tree ∈ trees)
    (inside : index < count) (inBlock : index ∈ block) (inOther : index ∈ other)
    (alike : SeesAlike (trees.flatMap Tree.leaves) index left right) :
    SeesAlike (trees.flatMap Tree.leaves) index (tree.assign meaning constant block left)
      (tree.assign meaning constant other right) := by
  rcases tree.assign_cases with ⟨target, rhs, rfl⟩ | unchanged
  · intro handle leaf
    by_cases same : handle.id = target.id
    · have place := aligned.visible_eq member leaf same inside
      have value : rhs.element meaning constant left index =
          rhs.element meaning constant right index := by
        apply Tree.element_congr
        intro read listed
        exact alike read (List.mem_flatMap.2 ⟨_, member, List.mem_cons_of_mem _ listed⟩)
      simp only [assign, place, same, inBlock, inOther, and_self, ↓reduceIte, value]
    · simp only [assign, same, false_and, ↓reduceIte]
      exact alike handle leaf
  · rw [unchanged, unchanged]
    exact alike

/-- An assignment of a block is not seen outside the block. -/
theorem Tree.assign_unseen (aligned : Aligned trees count) (member : tree ∈ trees)
    (inside : index < count) (outside : index ∉ block) :
    SeesAlike (trees.flatMap Tree.leaves) index (tree.assign meaning constant block contents)
      contents := by
  rcases tree.assign_cases with ⟨target, rhs, rfl⟩ | unchanged
  · intro handle leaf
    by_cases same : handle.id = target.id
    · have place := aligned.visible_eq member leaf same inside
      simp only [assign, place, outside, and_false, ↓reduceIte]
    · simp only [assign, same, false_and, ↓reduceIte]
  · rw [unchanged]
    exact fun _ _ => rfl

theorem assignAll_seesAlike {all : List Tree} (aligned : Aligned all count)
    (among : ∀ tree ∈ trees, tree ∈ all) (inside : index < count) (inBlock : index ∈ block)
    (inOther : index ∈ other) (alike : SeesAlike (all.flatMap Tree.leaves) index left right) :
    SeesAlike (all.flatMap Tree.leaves) index (assignAll meaning constant block left trees)
      (assignAll meaning constant other right trees) := by
  induction trees generalizing left right with
  | nil => exact alike
  | cons tree rest inductionHypothesis =>
      obtain ⟨member, later⟩ := List.forall_mem_cons.1 among
      apply inductionHypothesis later
      exact Tree.assign_seesAlike aligned member inside inBlock inOther alike

theorem assignAll_unseen {all : List Tree} (aligned : Aligned all count)
    (among : ∀ tree ∈ trees, tree ∈ all) (inside : index < count) (outside : index ∉ block) :
    SeesAlike (all.flatMap Tree.leaves) index (assignAll meaning constant block contents trees)
      contents := by
  induction trees generalizing contents with
  | nil => exact fun _ _ => rfl
  | cons tree rest inductionHypothesis =>
      obtain ⟨member, later⟩ := List.forall_mem_cons.1 among
      have behind : SeesAlike (all.flatMap Tree.leaves) index
          (assignAll meaning constant block (tree.assign meaning constant block contents) rest)
          (tree.assign meaning constant block contents) := inductionHypothesis later
      have first : SeesAlike (all.flatMap Tree.leaves) index
          (tree.assign meaning constant block contents) contents :=
        Tree.assign_unseen aligned member inside outside
      intro handle leaf
      exact (behind handle leaf).trans (first handle leaf)

/-! ### Blocks one after another -/

/-- What buffers hold behind the assignments of all trees, block by block. -/
def assignBlocks (meaning : Meaning α) (constant : ElementType → Float → α)
    (blocks : List (List Nat)) (contents : Elements α) (trees : List Tree) : Elements α :=
  blocks.foldl (fun contents block => assignAll meaning constant block contents trees) contents

theorem assignBlocks_concat {blocks : List (List Nat)} :
    assignBlocks meaning constant (blocks ++ [block]) contents trees =
      assignAll meaning constant block (assignBlocks meaning constant blocks contents trees)
        trees := by
  rw [assignBlocks, List.foldl_append]
  rfl

/-- Blocks without a common element leave behind, at an element of theirs, what whole arrays
do, and otherwise what was there. -/
theorem assignBlocks_seesAlike (aligned : Aligned trees count) {blocks : List (List Nat)}
    (distinct : blocks.flatten.Nodup) (inside : index < count) :
    SeesAlike (trees.flatMap Tree.leaves) index
      (assignBlocks meaning constant blocks contents trees)
      (if index ∈ blocks.flatten then
        assignAll meaning constant (List.range count) contents trees
      else contents) := by
  have among : ∀ tree ∈ trees, tree ∈ trees := fun _ member => member
  induction blocks using List.reverseRecOn with
  | nil => exact fun _ _ => rfl
  | append_singleton blocks block inductionHypothesis =>
      rw [List.flatten_append, List.flatten_singleton] at distinct ⊢
      obtain ⟨earlierDistinct, _, apart⟩ := List.nodup_append.1 distinct
      have earlier := inductionHypothesis earlierDistinct
      rw [assignBlocks_concat]
      by_cases last : index ∈ block
      · have fresh : index ∉ blocks.flatten := fun early => apart index early index last rfl
        rw [if_neg fresh] at earlier
        rw [if_pos (List.mem_append_right _ last)]
        exact assignAll_seesAlike aligned among inside last (List.mem_range.2 inside) earlier
      · have unseen : SeesAlike (trees.flatMap Tree.leaves) index
            (assignAll meaning constant block
              (assignBlocks meaning constant blocks contents trees) trees)
            (assignBlocks meaning constant blocks contents trees) :=
          assignAll_unseen aligned among inside last
        simp only [List.mem_append, last, or_false]
        intro handle leaf
        exact (unseen handle leaf).trans (earlier handle leaf)

/-- What no tree assigns stays as it is. -/
theorem assignAll_elsewhere {id : BufferId}
    (elsewhere : ∀ target rhs, .node .assign (.buffer target) rhs ∈ trees → target.id = id →
      index ∉ block) :
    assignAll meaning constant block contents trees id index = contents id index := by
  induction trees generalizing contents with
  | nil => rfl
  | cons tree rest inductionHypothesis =>
      have behind : assignAll meaning constant block (tree.assign meaning constant block contents)
          rest id index = tree.assign meaning constant block contents id index :=
        inductionHypothesis fun target rhs member =>
          elsewhere target rhs (List.mem_cons_of_mem _ member)
      refine behind.trans ?_
      rcases tree.assign_cases with ⟨target, rhs, rfl⟩ | unchanged
      · apply if_neg
        rintro ⟨rfl, inBlock⟩
        exact elsewhere target rhs List.mem_cons_self rfl inBlock
      · rw [unchanged]

theorem assignBlocks_elsewhere {id : BufferId} {blocks : List (List Nat)}
    (elsewhere : ∀ target rhs, .node .assign (.buffer target) rhs ∈ trees → target.id = id →
      index ∉ blocks.flatten) :
    assignBlocks meaning constant blocks contents trees id index = contents id index := by
  induction blocks using List.reverseRecOn with
  | nil => rfl
  | append_singleton blocks block inductionHypothesis =>
      rw [List.flatten_append, List.flatten_singleton] at elsewhere
      rw [assignBlocks_concat]
      refine (assignAll_elsewhere ?_).trans (inductionHypothesis ?_)
      · intro target rhs member same listed
        exact elsewhere target rhs member same (List.mem_append_right _ listed)
      · intro target rhs member same listed
        exact elsewhere target rhs member same (List.mem_append_left _ listed)

/-- Blocks that together have each element once leave behind what whole arrays do. -/
theorem assignBlocks_eq (aligned : Aligned trees count) {blocks : List (List Nat)}
    (covers : blocks.flatten.Perm (List.range count)) :
    assignBlocks meaning constant blocks contents trees =
      assignAll meaning constant (List.range count) contents trees := by
  have distinct : blocks.flatten.Nodup := covers.nodup_iff.2 List.nodup_range
  funext id index
  by_cases assigned : index < count ∧
      ∃ target rhs, .node .assign (.buffer target) rhs ∈ trees ∧ target.id = id
  · obtain ⟨inside, target, rhs, member, rfl⟩ := assigned
    have leaf : .buffer target ∈ trees.flatMap Tree.leaves :=
      List.mem_flatMap.2 ⟨_, member, List.mem_cons_self⟩
    have covered : index ∈ blocks.flatten := covers.mem_iff.2 (List.mem_range.2 inside)
    have alike : SeesAlike (trees.flatMap Tree.leaves) index
        (assignBlocks meaning constant blocks contents trees)
        (if index ∈ blocks.flatten then
          assignAll meaning constant (List.range count) contents trees
        else contents) := assignBlocks_seesAlike aligned distinct inside
    rw [if_pos covered] at alike
    have place := alike target leaf
    rwa [aligned.visible_eq member leaf rfl inside] at place
  · have outside (target : Buffer) (rhs : Tree)
        (member : .node .assign (.buffer target) rhs ∈ trees) (same : target.id = id) :
        index ∉ List.range count := by
      rw [List.mem_range]
      exact fun inside => assigned ⟨inside, target, rhs, member, same⟩
    rw [assignAll_elsewhere outside]
    apply assignBlocks_elsewhere
    intro target rhs member same
    exact mt covers.mem_iff.1 (outside target rhs member same)

end Blocks

/-- A batch whose targets have `count` elements is evaluated block by block, by blocks that
together have each element once, in any order. -/
theorem Batch.evaluate_blocks {α : Type} {meaning : Meaning α}
    {constant : ElementType → Float → α} {batch : Batch} {count : Nat}
    (aligned : Aligned batch.trees count) {blocks : List (List Nat)}
    (covers : blocks.flatten.Perm (List.range count)) (contents : Elements α) :
    assignBlocks meaning constant blocks contents batch.trees =
      batch.evaluate meaning constant contents := by
  rw [assignBlocks_eq aligned covers, assignAll, Batch.evaluate]
  apply List.foldl_ext
  intro held tree member
  rcases tree.assign_cases with ⟨target, rhs, rfl⟩ | unchanged
  · rw [Tree.extent, aligned.targets target rhs member]
  · rw [unchanged, unchanged]

end KernelTuner
