import KernelTuner.Proofs.Description.Leaves
import KernelTuner.Proofs.Model.Selecting
import KernelTuner.Proofs.Predictor.Validation

/-!
Contract: the evaluation of forests that are accepted.

Owns: the way of a shape through the nodes of a tree; the costs that a forest adds up, place
by place; and `Forest.ofDescription_evaluates`, by which a forest that is accepted has a cost
for every variant and the choice of a variant never fails.

The children of a split stand behind it. So a way goes up through the nodes and is no longer
than their list.
-/

set_option autoImplicit false

namespace KernelTuner

/-! ### Ways through a tree -/

/-- The places that a shape comes by from `place` on, and the costs of the leaf at the end. -/
inductive Descends (nodes : List TreeNode) (shape : Shape) :
    Nat → List Nat → List Float32 → Prop where
  | leaf {place : Nat} {costs : List Float32} (here : nodes[place]? = some (.leaf costs)) :
      Descends nodes shape place [place] costs
  | left {place feature left right : Nat} {threshold : Float} {path : List Nat}
      {costs : List Float32} (here : nodes[place]? = some (.split feature threshold left right))
      (below : (Int64.ofInt (shape.feature feature)).toFloat ≤ threshold)
      (rest : Descends nodes shape left path costs) :
      Descends nodes shape place (place :: path) costs
  | right {place feature left right : Nat} {threshold : Float} {path : List Nat}
      {costs : List Float32} (here : nodes[place]? = some (.split feature threshold left right))
      (notBelow : ¬ (Int64.ofInt (shape.feature feature)).toFloat ≤ threshold)
      (rest : Descends nodes shape right path costs) :
      Descends nodes shape place (place :: path) costs

namespace Descends

variable {nodes : List TreeNode} {shape : Shape} {place : Nat} {path : List Nat}
  {costs : List Float32}

theorem inside (descends : Descends nodes shape place path costs) :
    ∀ visited ∈ path, visited < nodes.length := by
  induction descends with
  | leaf here =>
      intro visited member
      cases List.mem_singleton.1 member
      exact (List.getElem?_eq_some_iff.1 here).1
  | left here _ _ inductionHypothesis | right here _ _ inductionHypothesis =>
      intro visited member
      rcases List.mem_cons.1 member with rfl | later
      · exact (List.getElem?_eq_some_iff.1 here).1
      · exact inductionHypothesis visited later

theorem ends_at_leaf (descends : Descends nodes shape place path costs) :
    ∃ last, path.getLast? = some last ∧ nodes[last]? = some (.leaf costs) := by
  induction descends with
  | leaf here => exact ⟨_, rfl, here⟩
  | left _ _ _ inductionHypothesis | right _ _ _ inductionHypothesis =>
      obtain ⟨last, found, leaf⟩ := inductionHypothesis
      exact ⟨last, by rw [List.getLast?_cons, found, Option.getD_some], leaf⟩

/-- A shape has one way. -/
theorem unique {otherPath : List Nat} {otherCosts : List Float32}
    (descends : Descends nodes shape place path costs)
    (other : Descends nodes shape place otherPath otherCosts) :
    otherPath = path ∧ otherCosts = costs := by
  induction descends generalizing otherPath with
  | leaf here =>
      cases other with
      | leaf found =>
          cases here.symm.trans found
          exact ⟨rfl, rfl⟩
      | left found | right found => cases here.symm.trans found
  | left here below _ inductionHypothesis =>
      cases other with
      | leaf found => cases here.symm.trans found
      | left found _ rest =>
          cases here.symm.trans found
          obtain ⟨rfl, rfl⟩ := inductionHypothesis rest
          exact ⟨rfl, rfl⟩
      | right found notBelow =>
          cases here.symm.trans found
          exact absurd below notBelow
  | right here notBelow _ inductionHypothesis =>
      cases other with
      | leaf found => cases here.symm.trans found
      | left found below =>
          cases here.symm.trans found
          exact absurd below notBelow
      | right found _ rest =>
          cases here.symm.trans found
          obtain ⟨rfl, rfl⟩ := inductionHypothesis rest
          exact ⟨rfl, rfl⟩

end Descends

namespace RegressionTree

variable {tree : RegressionTree} {shape : Shape}

/-- From any node on there is a way to a leaf, as short as the list of the nodes from there
on. -/
theorem descends_costsFrom (tree : RegressionTree) (shape : Shape) (place : Nat)
    (bound : place < tree.nodes.length) :
    ∃ path, Descends tree.nodes shape place path (tree.costsFrom shape place bound) ∧
      place + path.length ≤ tree.nodes.length := by
  fun_induction RegressionTree.costsFrom tree shape place bound with
  | case1 place bound costs reached =>
      exact ⟨[place], .leaf (List.getElem?_eq_some_iff.2 ⟨bound, reached⟩), bound⟩
  | case2 place bound feature threshold left right reached forward below inductionHypothesis =>
      obtain ⟨path, descends, short⟩ := inductionHypothesis
      refine ⟨place :: path,
        .left (List.getElem?_eq_some_iff.2 ⟨bound, reached⟩) below descends, ?_⟩
      rw [List.length_cons]
      have behind : place < left := forward.1.1
      omega
  | case3 place bound feature threshold left right reached forward notBelow inductionHypothesis =>
      obtain ⟨path, descends, short⟩ := inductionHypothesis
      refine ⟨place :: path,
        .right (List.getElem?_eq_some_iff.2 ⟨bound, reached⟩) notBelow descends, ?_⟩
      rw [List.length_cons]
      have behind : place < right := forward.2.1
      omega

/-- A shape has a way through the tree, and the costs at its end are those predicted. -/
structure Evaluates (tree : RegressionTree) (shape : Shape) (width : Nat) : Prop where
  descends : ∃ path, Descends tree.nodes shape 0 path (tree.predict shape) ∧
    (∀ place ∈ path, place < tree.nodes.length) ∧ path.length ≤ tree.nodes.length
  decided : ∀ path costs, Descends tree.nodes shape 0 path costs → costs = tree.predict shape
  width : (tree.predict shape).length = width

theorem evaluates {width : Nat}
    (leaves : ∀ (place : Nat) (costs : List Float32), tree.nodes[place]? = some (.leaf costs) →
      costs.length = width) (shape : Shape) : tree.Evaluates shape width := by
  obtain ⟨path, descends, short⟩ := descends_costsFrom tree shape 0 tree.nonempty
  rw [Nat.zero_add] at short
  refine ⟨⟨path, descends, descends.inside, short⟩, ?_, ?_⟩
  · exact fun _ _ other => (descends.unique other).2
  · obtain ⟨last, _, leaf⟩ := descends.ends_at_leaf
    exact leaves last _ leaf

end RegressionTree

/-! ### Costs of a forest -/

namespace Forest

variable {forest : Forest} {shape : Shape} {trees : List RegressionTree}

theorem addCosts_length {sums : List Float32} {width : Nat} (sameWidth : sums.length = width)
    (widths : ∀ tree ∈ trees, (tree.predict shape).length = width) :
    (addCosts shape sums trees).length = width := by
  induction trees generalizing sums with
  | nil => exact sameWidth
  | cons tree rest inductionHypothesis =>
      obtain ⟨first, others⟩ := List.forall_mem_cons.1 widths
      refine inductionHypothesis ?_ others
      rw [List.length_zipWith, sameWidth, first, Nat.min_self]

/-- At every place the costs of all trees are added up, one after another. -/
theorem addCosts_getElem? {sums : List Float32} {place : Nat} {sum : Float32}
    {costs : List Float32} (present : sums[place]? = some sum)
    (each : List.Forall₂ (fun (tree : RegressionTree) cost =>
      (tree.predict shape)[place]? = some cost) trees costs) :
    (addCosts shape sums trees)[place]? = some (costs.foldl (· + ·) sum) := by
  induction each generalizing sums sum with
  | nil => exact present
  | cons first _ inductionHypothesis =>
      refine inductionHypothesis ?_
      rw [List.getElem?_zipWith, present, first]

/-- A forest has a cost at each of its places, the mean of what all of its trees say there. -/
structure Evaluates (forest : Forest) (shape : Shape) : Prop where
  trees : ∀ tree ∈ forest.trees, tree.Evaluates shape forest.outputs
  width : (forest.predict shape).length = forest.outputs
  mean : ∀ place < forest.outputs, ∃ costs,
    List.Forall₂ (fun (tree : RegressionTree) cost => (tree.predict shape)[place]? = some cost)
      forest.trees costs ∧
    (forest.predict shape)[place]? =
      some (costs.foldl (· + ·) 0.0 / (UInt64.ofNat forest.trees.length).toFloat32)

theorem evaluates (each : ∀ tree ∈ forest.trees, tree.Evaluates shape forest.outputs) :
    forest.Evaluates shape := by
  refine ⟨each, ?_, ?_⟩
  · rw [predict, List.length_map]
    exact addCosts_length List.length_replicate fun tree member => (each tree member).width
  · intro place bound
    obtain ⟨costs, listed⟩ : ∃ costs, List.Forall₂ (fun (tree : RegressionTree) cost =>
        (tree.predict shape)[place]? = some cost) forest.trees costs := by
      refine exists_forall₂ fun tree member => ?_
      have inside : place < (tree.predict shape).length := (each tree member).width.symm ▸ bound
      exact ⟨_, List.getElem?_eq_getElem inside⟩
    refine ⟨costs, listed, ?_⟩
    have start : (List.replicate forest.outputs (0.0 : Float32))[place]? = some 0.0 := by
      rw [List.getElem?_replicate, if_pos bound]
    rw [predict, List.getElem?_map, addCosts_getElem? start listed, Option.map_some]

/-- The leaves of a tree of an accepted forest have one cost per place. -/
theorem leaf_length {description : Json.Value} (accepted : ofDescription description = .ok forest)
    {tree : RegressionTree} (member : tree ∈ forest.trees) {place : Nat} {costs : List Float32}
    (leaf : tree.nodes[place]? = some (.leaf costs)) : costs.length = forest.outputs := by
  obtain ⟨trees, _, realizes⟩ := ofDescription_eq_ok_iff.1 accepted
  obtain ⟨described, _, grown⟩ := exists_of_forall₂_right realizes.trees member
  cases grown.follows.nodes place _ leaf with
  | leaf left right value => exact grown.wellFormed.leaves place costs left right value

end Forest

/-! ### Choices -/

namespace Model

variable {σ : Type} {model : Model σ} {shape : Shape}

/-- A model whose overrides are in range chooses one of its variants if its predictor has a
cost for each of them. -/
theorem exists_select {bypassPredictor : Bool} (nonempty : 0 < model.variants.length)
    (inRange : ∀ place, model.overrides.get? shape = some place → place < model.variants.length)
    (scored : ∀ predictor, model.predictor = some predictor →
      (predictor.predict shape).length = model.variants.length) :
    ∃ selection, model.select shape bypassPredictor = .ok selection ∧
      selection.variant < model.variants.length := by
  unfold select overrideFor?
  cases recorded : model.overrides.get? shape with
  | some place => exact ⟨_, rfl, inRange place recorded⟩
  | none =>
      cases scores : model.predictor with
      | none => exact ⟨_, rfl, nonempty⟩
      | some predictor =>
          cases bypassPredictor with
          | true => exact ⟨_, rfl, nonempty⟩
          | false =>
              have width := scored predictor scores
              simp only [Bool.false_eq_true, ↓reduceIte, selectPredicted, width, ne_eq,
                not_true_eq_false]
              cases found : firstMinimum? (predictor.predict shape) with
              | some place => exact ⟨_, rfl, width ▸ firstMinimum?_lt found⟩
              | none => exact ⟨_, rfl, nonempty⟩

end Model

namespace Forest

/-- An accepted forest can be evaluated on every shape, and a model that chooses by it always
chooses one of its variants, also after any history of calls. -/
theorem ofDescription_evaluates {description : Json.Value} {forest : Forest}
    (accepted : ofDescription description = .ok forest) :
    (∀ shape, forest.Evaluates shape) ∧
      ∀ (σ : Type) (variants : List Variant) (queue : CommandQueue σ) (model : Model σ)
        (bench : Bench σ) (drift : σ → σ → Prop) (outcomes : List Outcome) (run : ModelRun σ),
        Model.create variants (some forest.toPredictor) queue = .ok model →
        Recounts drift ⟨model, bench⟩ outcomes run →
        ∀ shape bypassPredictor, ∃ selection,
          run.model.select shape bypassPredictor = .ok selection ∧
            selection.variant < variants.length ∧ run.model.variants = variants := by
  have evaluated (shape : Shape) : forest.Evaluates shape :=
    evaluates fun tree member => tree.evaluates (fun _ _ => leaf_length accepted member) shape
  refine ⟨evaluated, ?_⟩
  intro σ variants queue model bench drift outcomes run created recounted shape bypassPredictor
  have initial := Remembers.initial created bench
  obtain ⟨nonempty, _⟩ := Model.eq_of_create created
  obtain ⟨width, rfl⟩ := Model.eq_of_create_predictor created
  have remembers := initial.of_recounts nonempty recounted
  have ofVariants : run.model.variants = variants := remembers.variants
  have scored (predictor : CostPredictor) (scores : run.model.predictor = some predictor) :
      (predictor.predict shape).length = run.model.variants.length := by
    cases remembers.predictor.symm.trans scores
    rw [ofVariants, ← width]
    exact (evaluated shape).width
  rw [← ofVariants] at nonempty
  obtain ⟨selection, selected, inside⟩ :=
    Model.exists_select nonempty (ofVariants ▸ remembers.inRange shape) scored
  exact ⟨selection, selected, ofVariants ▸ inside, ofVariants⟩

/-- One tree that tells sizes up to 1024 from larger ones and scores two variants. -/
def stumpDescription : Json.Value :=
  let whole (value : Int) : Json.Value := .number (.integer value)
  let wholes (values : List Int) : Json.Value := .array (values.map whole)
  .object [("trees", .array [.object [
    ("children_left", wholes [1, -1, -1]), ("children_right", wholes [2, -1, -1]),
    ("feature", wholes [0, -2, -2]), ("threshold", wholes [1024, -2, -2]),
    ("value", .array [.array [], wholes [1, 2], wholes [2, 1]])]])]

/-- The forest of that tree. -/
def stump : Forest where
  trees := [{
    nodes := [.split 0 (Json.Number.integer 1024).toFloat 1 2,
      .leaf [(Json.Number.integer 1).toFloat32, (Json.Number.integer 2).toFloat32],
      .leaf [(Json.Number.integer 2).toFloat32, (Json.Number.integer 1).toFloat32]]
    outputs := 2
    nonempty := Nat.succ_pos 2
    forward := by
      intro index bound
      match index with
      | 0 =>
          exact ⟨⟨Nat.one_pos, Nat.lt_succ_of_lt Nat.one_lt_two⟩, Nat.two_pos, Nat.lt_succ_self 2⟩
      | 1 | 2 => trivial }]
  outputs := 2

/-- A choice between two inner products by that forest, after one of them has been recorded. -/
theorem stump_evaluates :
    ofDescription stumpDescription = .ok stump ∧ (∀ shape, stump.Evaluates shape) ∧
      ∃ model, Model.create [.folding, .innerProduct ⟨2, 128, 16, .contiguous⟩]
          (some stump.toPredictor) (Platform.single.commandQueue ⟨1⟩) = .ok model ∧
        ∀ shape bypassPredictor, ∃ selection,
          ((Call.tune (.dot .f32)).perform ⟨model, { backend := .single }⟩).model.select shape
            bypassPredictor = .ok selection ∧ selection.variant < 2 := by
  have accepted : ofDescription stumpDescription = .ok stump := rfl
  obtain ⟨evaluated, chooses⟩ := ofDescription_evaluates accepted
  have created : Model.create [.folding, .innerProduct ⟨2, 128, 16, .contiguous⟩]
      (some stump.toPredictor) (Platform.single.commandQueue ⟨1⟩) =
        .ok { variants := [.folding, .innerProduct ⟨2, 128, 16, .contiguous⟩],
              predictor := some stump.toPredictor,
              queue := Platform.single.commandQueue ⟨1⟩ } := rfl
  refine ⟨accepted, evaluated, _, created, ?_⟩
  intro shape bypassPredictor
  obtain ⟨selection, selected, inside, _⟩ := chooses Platform _ _ _ { backend := .single }
    (fun _ _ => False) _ _ created (.call .start (.tune (.dot .f32))) shape bypassPredictor
  exact ⟨selection, selected, inside⟩

end Forest

end KernelTuner
