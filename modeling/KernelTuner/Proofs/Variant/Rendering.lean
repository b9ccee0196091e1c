import KernelTuner.Kernel.Text
import KernelTuner.Proofs.Outcome
import KernelTuner.Proofs.Variant.Parameters

/-!
Contract: the text of element-wise stores.

Owns: the infix text of a tree, written with the parameters at given places, and of
the stores that trees amount to; and `stores_of_statements`, by which the scalar
statements of a batch are those stores, with every leaf at its own place.

Does not own: how the statements are looped over (`Variant`).
-/

set_option autoImplicit false

namespace KernelTuner

/-! ### Infix text -/

/-- The element of the buffer whose parameter is at `place`. A buffer of rank zero
has one element only. -/
def Buffer.elementText (handle : Buffer) (element : String) (place : Nat) : String :=
  Bindings.name place ++ "[" ++ (if handle.rank = 0 then "0" else element) ++ "]"

/-- The fully parenthesised text of a tree. Its leaves are, from left to right, the
parameters at `places`; `element` is the index at which buffers are read. -/
inductive Tree.Infix (element : String) : Tree → List Nat → String → Prop where
  | buffer (handle : Buffer) (place : Nat) :
      Infix element (.buffer handle) [place] (handle.elementText element place)
  | scalar (elementType : ElementType) (value : Float) (place : Nat) :
      Infix element (.scalar elementType value) [place] (Bindings.name place)
  | node {operator : Operator} {arithmetic : Arithmetic} {lhs rhs : Tree}
      {leftPlaces rightPlaces : List Nat} {left right : String}
      (means : operator.arithmetic? = some arithmetic)
      (lhsText : Infix element lhs leftPlaces left)
      (rhsText : Infix element rhs rightPlaces right) :
      Infix element (.node operator lhs rhs) (leftPlaces ++ rightPlaces)
        ("(" ++ left ++ " " ++ arithmetic.symbol ++ " " ++ right ++ ")")

/-- The text of the store that an assignment to a buffer amounts to. -/
inductive Tree.Store (element : String) : Tree → List Nat → String → Prop where
  | assign (target : Buffer) (place : Nat) {rhs : Tree} {places : List Nat} {value : String}
      (valueText : rhs.Infix element places value) :
      Store element (.node .assign (.buffer target) rhs) (place :: places)
        (target.elementText element place ++ " = " ++ value ++ ";")

/-- One store per tree, in order. -/
inductive Tree.Stores (element : String) : List Tree → List Nat → List String → Prop where
  | nil : Stores element [] [] []
  | cons {tree : Tree} {trees : List Tree} {places others : List Nat} {text : String}
      {texts : List String} (first : tree.Store element places text)
      (rest : Stores element trees others texts) :
      Stores element (tree :: trees) (places ++ others) (text :: texts)

theorem Tree.Infix.of_alike {rename : BufferId → BufferId} {element text : String}
    {left right : Tree} {places : List Nat} (written : left.Infix element places text)
    (alike : left.Alike rename right) : right.Infix element places text := by
  induction written generalizing right with
  | buffer handle place =>
      cases alike with
      | @buffer _ other handles =>
          have same : handle.elementText element place = other.elementText element place := by
            rw [Buffer.elementText, Buffer.elementText, handles.rank]
          rw [same]
          exact .buffer other place
  | scalar elementType value place =>
      cases alike
      exact .scalar _ _ place
  | node means _ _ lhsHypothesis rhsHypothesis =>
      cases alike with
      | node operator lhs rhs => exact .node means (lhsHypothesis lhs) (rhsHypothesis rhs)

theorem Tree.Store.of_alike {rename : BufferId → BufferId} {element text : String}
    {left right : Tree} {places : List Nat} (written : left.Store element places text)
    (alike : left.Alike rename right) : right.Store element places text := by
  cases written with
  | assign target place valueText =>
      cases alike with
      | node operator lhs rhs =>
          cases lhs with
          | @buffer _ other handles =>
              have same : target.elementText element place = other.elementText element place := by
                rw [Buffer.elementText, Buffer.elementText, handles.rank]
              rw [same]
              exact .assign other place (valueText.of_alike rhs)

theorem Tree.Stores.of_alike {rename : BufferId → BufferId} {element : String}
    {left right : List Tree} {places : List Nat} {texts : List String}
    (written : Stores element left places texts)
    (alike : List.Forall₂ (Tree.Alike rename) left right) :
    Stores element right places texts := by
  induction written generalizing right with
  | nil =>
      cases alike
      exact .nil
  | cons first _ inductionHypothesis =>
      cases alike with
      | cons firstAlike restAlike =>
          exact .cons (first.of_alike firstAlike) (inductionHypothesis restAlike)

/-! ### Statements -/

namespace Bindings

section Rendered

variable {bindings : Bindings} {access : Access} {scalars rest : List Nat}

/-- A rendered operation is element-wise, and its operands are rendered from left to right. -/
theorem operands_of_render {operator : Operator} {lhs rhs : Tree} {value : Kernel.Value}
    (rendered : bindings.render access (.node operator lhs rhs) scalars = .ok (value, rest)) :
    ∃ arithmetic left right between, operator.arithmetic? = some arithmetic ∧
      bindings.render access lhs scalars = .ok (left, between) ∧
      bindings.render access rhs between = .ok (right, rest) ∧
      value = .group (.binary arithmetic left right) := by
  rw [render] at rendered
  split at rendered
  · simp at rendered
  · next arithmetic means =>
      obtain ⟨⟨left, between⟩, leftRendered, rendered⟩ := bind_eq_ok_iff.1 rendered
      obtain ⟨⟨right, _⟩, rightRendered, same⟩ := bind_eq_ok_iff.1 rendered
      cases same
      exact ⟨arithmetic, left, right, between, means, leftRendered, rightRendered, rfl⟩

/-- A stated tree assigns a rendered value to a buffer that is bound. -/
theorem assignment_of_statement {tree : Tree} {store : Kernel.Instruction}
    (stated : bindings.statement access tree scalars = .ok (store, rest)) :
    ∃ target rhs name value, tree = .node .assign (.buffer target) rhs ∧
      bindings.nameOf target = .ok name ∧
      bindings.render access rhs scalars = .ok (value, rest) ∧
      store = access.write target name value := by
  unfold statement at stated
  split at stated
  · next target rhs =>
      obtain ⟨name, named, stated⟩ := bind_eq_ok_iff.1 stated
      obtain ⟨⟨value, _⟩, rendered, same⟩ := bind_eq_ok_iff.1 stated
      cases same
      exact ⟨target, rhs, name, value, rfl, named, rendered, rfl⟩
  · simp at stated

end Rendered

variable {leaves : List Leaf} {index : Kernel.Index}

theorem nameOf_collected {handle : Buffer}
    (member : Occurrence.buffer handle.id ∈ occurrencesFrom 0 leaves) :
    (collected leaves).nameOf handle = .ok (name (place leaves (.buffer handle.id))) := by
  rw [nameOf, position?_collected member]

theorem element_text (array : String) :
    (Kernel.Place.element array [index]).text = array ++ "[" ++ index.text ++ "]" := by
  simp [Kernel.Place.text, String.join, String.append_assoc]

theorem first_text (array : String) : (Access.first array).text = array ++ "[" ++ "0" ++ "]" :=
  element_text array

theorem read_text (handle : Buffer) (position : Nat) :
    ((Access.element index).read handle (name position)).text =
      handle.elementText index.text position := by
  have value (place : Kernel.Place) : (Kernel.Value.read place).text = place.text := rfl
  unfold Access.read Buffer.elementText
  split
  · rw [value, first_text]
  · rw [value, element_text]

theorem read_level (handle : Buffer) (position : Nat) :
    ((Access.element index).read handle (name position)).level = 3 := by
  unfold Access.read
  split <;> rfl

theorem write_text (target : Buffer) (position : Nat) (value : Kernel.Value) :
    ((Access.element index).write target (name position) value).text =
      target.elementText index.text position ++ " = " ++ value.text ++ ";" := by
  have store (place : Kernel.Place) :
      (Kernel.Instruction.assign place value).text = place.text ++ " = " ++ value.text ++ ";" := rfl
  unfold Access.write Buffer.elementText
  split
  · rw [store, first_text]
  · rw [store, element_text]

/-- Operands of full level are never put into parentheses. -/
theorem group_text (arithmetic : Arithmetic) {left right : Kernel.Value}
    (leftLevel : left.level = 3) (rightLevel : right.level = 3) :
    (Kernel.Value.group (.binary arithmetic left right)).text =
      "(" ++ left.text ++ " " ++ arithmetic.symbol ++ " " ++ right.text ++ ")" := by
  have grouped : (Kernel.Value.group (.binary arithmetic left right)).text =
      "(" ++ (Kernel.enclose (left.level < Kernel.arithmeticLevel arithmetic) left.text ++ " " ++
        arithmetic.symbol ++ " " ++
        Kernel.enclose (right.level < Kernel.arithmeticLevel arithmetic + 1) right.text) ++ ")" :=
    rfl
  have bare (text : String) : Kernel.enclose (decide False) text = text := rfl
  have leftTight : (3 < Kernel.arithmeticLevel arithmetic) = False := by
    cases arithmetic <;> simp [Kernel.arithmeticLevel]
  have rightTight : (3 < Kernel.arithmeticLevel arithmetic + 1) = False := by
    cases arithmetic <;> simp [Kernel.arithmeticLevel]
  simp only [grouped, leftLevel, rightLevel, leftTight, rightTight, bare, String.append_assoc]

theorem scalarPlaces_append (front back : List Occurrence) :
    scalarPlaces leaves (front ++ back) =
      scalarPlaces leaves front ++ scalarPlaces leaves back :=
  List.filterMap_append

/-- Rendering uses up the host scalars of the tree and writes every leaf at its
place. -/
theorem infix_of_render {tree : Tree} {start : Nat} {rest remaining : List Nat}
    {value : Kernel.Value}
    (within : ∀ occurrence ∈ occurrencesFrom start tree.leaves,
      occurrence ∈ occurrencesFrom 0 leaves)
    (rendered : (collected leaves).render (.element index) tree
      (scalarPlaces leaves (occurrencesFrom start tree.leaves) ++ rest) = .ok (value, remaining)) :
    remaining = rest ∧ value.level = 3 ∧
      tree.Infix index.text ((occurrencesFrom start tree.leaves).map (place leaves))
        value.text := by
  induction tree generalizing start rest remaining value with
  | empty => cases rendered
  | buffer handle =>
      have member : Occurrence.buffer handle.id ∈ occurrencesFrom 0 leaves :=
        within _ List.mem_cons_self
      have places : scalarPlaces leaves (occurrencesFrom start (Tree.buffer handle).leaves) = [] :=
        rfl
      rw [places, render, nameOf_collected member] at rendered
      cases rendered
      refine ⟨rfl, read_level handle _, ?_⟩
      rw [read_text]
      exact .buffer handle _
  | scalar elementType number =>
      have places : scalarPlaces leaves
          (occurrencesFrom start (Tree.scalar elementType number).leaves) =
            [place leaves (.scalar start)] := rfl
      rw [places, List.cons_append, List.nil_append, render] at rendered
      cases rendered
      exact ⟨rfl, rfl, .scalar elementType number _⟩
  | node operator lhs rhs lhsHypothesis rhsHypothesis =>
      have split : occurrencesFrom start (Tree.node operator lhs rhs).leaves =
          occurrencesFrom start lhs.leaves ++
            occurrencesFrom (start + lhs.leaves.length) rhs.leaves :=
        occurrencesFrom_append start lhs.leaves rhs.leaves
      rw [split] at within ⊢
      rw [split, scalarPlaces_append, List.append_assoc] at rendered
      obtain ⟨arithmetic, left, right, between, means, leftRendered, rightRendered, rfl⟩ :=
        operands_of_render rendered
      obtain ⟨rfl, leftLevel, leftText⟩ := lhsHypothesis
        (fun occurrence member => within occurrence (List.mem_append_left _ member)) leftRendered
      obtain ⟨rfl, rightLevel, rightText⟩ := rhsHypothesis
        (fun occurrence member => within occurrence (List.mem_append_right _ member)) rightRendered
      refine ⟨rfl, rfl, ?_⟩
      rw [group_text arithmetic leftLevel rightLevel, List.map_append]
      exact .node means leftText rightText

theorem store_of_statement {tree : Tree} {start : Nat} {rest remaining : List Nat}
    {store : Kernel.Instruction}
    (within : ∀ occurrence ∈ occurrencesFrom start tree.leaves,
      occurrence ∈ occurrencesFrom 0 leaves)
    (stated : (collected leaves).statement (.element index) tree
      (scalarPlaces leaves (occurrencesFrom start tree.leaves) ++ rest) = .ok (store, remaining)) :
    remaining = rest ∧
      tree.Store index.text ((occurrencesFrom start tree.leaves).map (place leaves))
        store.text := by
  obtain ⟨target, rhs, _, value, rfl, named, rendered, rfl⟩ := assignment_of_statement stated
  have member : Occurrence.buffer target.id ∈ occurrencesFrom 0 leaves :=
    within _ List.mem_cons_self
  have places : scalarPlaces leaves
      (occurrencesFrom start (Tree.node .assign (.buffer target) rhs).leaves) =
        scalarPlaces leaves (occurrencesFrom (start + 1) rhs.leaves) := rfl
  rw [nameOf_collected member] at named
  cases named
  rw [places] at rendered
  obtain ⟨rfl, _, valueText⟩ := infix_of_render
    (fun occurrence member => within occurrence (List.mem_cons_of_mem _ member)) rendered
  refine ⟨rfl, ?_⟩
  rw [write_text]
  exact .assign target _ valueText

theorem stores_of_statementsFrom {trees : List Tree} {start : Nat}
    {stores : List Kernel.Instruction}
    (within : ∀ occurrence ∈ occurrencesFrom start (trees.flatMap Tree.leaves),
      occurrence ∈ occurrencesFrom 0 leaves)
    (stated : (collected leaves).statementsFrom (.element index) trees
      (scalarPlaces leaves (occurrencesFrom start (trees.flatMap Tree.leaves))) = .ok stores) :
    Tree.Stores index.text trees
      ((occurrencesFrom start (trees.flatMap Tree.leaves)).map (place leaves))
      (stores.map Kernel.Instruction.text) := by
  induction trees generalizing start stores with
  | nil =>
      cases stated
      exact .nil
  | cons tree trees inductionHypothesis =>
      have split : occurrencesFrom start ((tree :: trees).flatMap Tree.leaves) =
          occurrencesFrom start tree.leaves ++
            occurrencesFrom (start + tree.leaves.length) (trees.flatMap Tree.leaves) := by
        rw [List.flatMap_cons, occurrencesFrom_append]
      rw [split] at within ⊢
      rw [split, scalarPlaces_append, statementsFrom] at stated
      obtain ⟨⟨store, afterStore⟩, first, stated⟩ := bind_eq_ok_iff.1 stated
      obtain ⟨others, rest, stated⟩ := bind_eq_ok_iff.1 stated
      cases stated
      obtain ⟨rfl, firstStore⟩ := store_of_statement
        (fun occurrence member => within occurrence (List.mem_append_left _ member)) first
      rw [List.map_append, List.map_cons]
      exact .cons firstStore (inductionHypothesis
        (fun occurrence member => within occurrence (List.mem_append_right _ member)) rest)

end Bindings

namespace Batch

/-- The leaves of the batch from left to right. -/
def leaves (batch : Batch) : List Leaf :=
  batch.expressions.flatMap (fun expression => expression.tree.leaves)

/-- The positions of the parameters for the leaves. -/
def places (batch : Batch) : List Nat :=
  (occurrencesFrom 0 batch.leaves).map (Bindings.place batch.leaves)

/-- The scalar statements of a batch are the stores that its expressions amount to. -/
theorem stores_of_statements {batch : Batch} {index : Kernel.Index}
    {statements : List Kernel.Statement}
    (stated : (Bindings.collect batch).statements batch (.element index) = .ok statements) :
    ∃ stores : List Kernel.Instruction, statements = stores.map .run ∧
      Tree.Stores index.text (batch.expressions.map Expression.tree) batch.places
        (stores.map Kernel.Instruction.text) := by
  obtain ⟨stores, listed, same⟩ := bind_eq_ok_iff.1 stated
  cases same
  have collect : Bindings.collect batch = Bindings.collected batch.leaves := rfl
  have flattened : (batch.expressions.map Expression.tree).flatMap Tree.leaves = batch.leaves :=
    List.flatMap_map ..
  refine ⟨stores, rfl, ?_⟩
  rw [collect, Bindings.scalarPositions_collected, ← flattened] at listed
  rw [places, ← flattened]
  exact Bindings.stores_of_statementsFrom (fun _ member => member) listed

end Batch

end KernelTuner
