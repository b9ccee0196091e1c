import KernelTuner.Expression.Batch
import KernelTuner.Expression.Builder
import KernelTuner.Proofs.Variant.Operands

/-!
Contract: the batches that builders can make.

Owns: drafts, which are what builders are asked for; `Draft.finish_eq_ok_iff`, by which a
draft is finished into its own nodes; and `Drafted.holds_iff` and `Drafted.context_of_pushes`,
by which a batch holds the buffers that were pushed for it, all of one context.
-/

set_option autoImplicit false

namespace KernelTuner

/-! ### Builders -/

/-- A builder is finished by its last node when all of its nodes may stand where they are,
and then it has become the expression of these nodes. -/
theorem Builder.finish_eq_ok_iff {builder : Builder} {root : Operand} {expression : Expression} :
    builder.finish root = .ok expression ↔
      (∃ last, root = .node last ∧ last + 1 = builder.nodes.size) ∧
        expression.nodes = builder.nodes ∧ expression.context = builder.context ∧
        expression.elementType = builder.elementType := by
  constructor
  · intro finished
    unfold finish at finished
    split at finished
    · next last =>
        split at finished
        · next isLast =>
            split at finished
            · simp at finished
            · cases finished
              exact ⟨⟨last, rfl, isLast⟩, rfl, rfl, rfl⟩
        · split at finished <;> simp at finished
    · simp at finished
  · rintro ⟨⟨last, rfl, isLast⟩, sameNodes, sameContext, sameType⟩
    obtain ⟨nodes, context, elementType, nonempty, admissible⟩ := expression
    obtain ⟨builderContext, builderType, builderNodes⟩ := builder
    simp only at sameNodes sameContext sameType isLast
    subst sameNodes sameContext sameType
    have clean : (mk context elementType nodes).violation? = none :=
      violation?_eq_none_iff.2 admissible
    unfold finish
    simp only [isLast, ↓reduceDIte]
    split
    · next cause found =>
        rw [clean] at found
        cases found
    · rfl

/-! ### Drafts -/

/-- What one builder is asked for: to push nodes, in order, and to finish with a root. -/
structure Draft where
  context : ContextId
  elementType : ElementType
  pushes : List Node
  root : Operand

namespace Draft

/-- The builder behind all pushes. -/
def builder (draft : Draft) : Builder :=
  draft.pushes.foldl (fun builder node => (builder.push node.lhs node.operator node.rhs).1)
    { context := draft.context, elementType := draft.elementType }

def finish (draft : Draft) : Except Error Expression := draft.builder.finish draft.root

/-- The buffer is an operand of a push. -/
def Pushes (draft : Draft) (handle : Buffer) : Prop :=
  ∃ node ∈ draft.pushes, node.lhs = .buffer handle ∨ node.rhs = .buffer handle

variable {draft : Draft} {expression : Expression} {handle : Buffer}

theorem builder_eq (draft : Draft) :
    draft.builder = ⟨draft.context, draft.elementType, draft.pushes.toArray⟩ := by
  have appended (pushes : List Node) (builder : Builder) :
      pushes.foldl (fun builder node => (builder.push node.lhs node.operator node.rhs).1) builder =
        { builder with nodes := builder.nodes ++ pushes.toArray } := by
    induction pushes generalizing builder with
    | nil => simp
    | cons node rest inductionHypothesis =>
        rw [List.foldl_cons, inductionHypothesis]
        simp [Builder.push]
  simp [builder, appended]

/-- A finished draft has become the expression of its pushes. -/
theorem finish_eq_ok_iff :
    draft.finish = .ok expression ↔
      (∃ last, draft.root = .node last ∧ last + 1 = draft.pushes.length) ∧
        expression.nodes = draft.pushes.toArray ∧ expression.context = draft.context ∧
        expression.elementType = draft.elementType := by
  unfold finish
  rw [builder_eq, Builder.finish_eq_ok_iff, List.size_toArray]

theorem holds_iff (finished : draft.finish = .ok expression) :
    expression.Holds handle ↔ draft.Pushes handle := by
  obtain ⟨_, sameNodes, _⟩ := finish_eq_ok_iff.1 finished
  unfold Pushes
  constructor
  · rintro ⟨index, bound, stands⟩
    refine ⟨expression.nodes[index], ?_, stands⟩
    have member := Array.getElem_mem bound
    simpa only [sameNodes, List.mem_toArray] using member
  · rintro ⟨node, pushed, stands⟩
    have member : node ∈ expression.nodes := by
      rw [sameNodes]
      exact List.mem_toArray.2 pushed
    obtain ⟨index, bound, rfl⟩ := Array.getElem_of_mem member
    exact ⟨index, bound, stands⟩

end Draft

/-! ### Contexts -/

/-- An expression holds buffers of its own context only. -/
theorem Expression.context_of_holds {expression : Expression} {handle : Buffer}
    (holds : expression.Holds handle) : handle.context = expression.context := by
  obtain ⟨index, bound, left | right⟩ := holds
  · have admissible := (expression.admissible index bound).1
    rw [left] at admissible
    exact admissible
  · have admissible := (expression.admissible index bound).2
    rw [right] at admissible
    exact admissible

namespace Batch

variable {batch : Batch} {handle : Buffer}

theorem context_of_mem {expression : Expression} (member : expression ∈ batch.expressions) :
    expression.context = batch.context := by
  rcases List.mem_cons.1 member with rfl | other
  · rfl
  · exact batch.oneContext expression other

/-- A batch holds buffers of its own context only. -/
theorem context_of_holds (holds : batch.Holds handle) : handle.context = batch.context := by
  obtain ⟨expression, member, within⟩ := holds
  exact (Expression.context_of_holds within).trans (context_of_mem member)

theorem expressions_of_independent {expressions : List Expression}
    (formed : independent expressions = .ok batch) : batch.expressions = expressions := by
  unfold independent at formed
  split at formed
  · simp at formed
  · split at formed
    · simp at formed
    · cases formed
      rfl

end Batch

/-! ### Drafted batches -/

/-- The batches that can be made of finished drafts. -/
inductive Drafted : List Draft → Batch → Prop where
  | single {draft : Draft} {expression : Expression} (finished : draft.finish = .ok expression) :
      Drafted [draft] (.single expression)
  | independent {drafts : List Draft} {expressions : List Expression} {batch : Batch}
      (finished : List.Forall₂ (fun draft expression => draft.finish = .ok expression)
        drafts expressions)
      (formed : Batch.independent expressions = .ok batch) : Drafted drafts batch

namespace Drafted

variable {drafts : List Draft} {draft : Draft} {batch : Batch} {handle : Buffer}

theorem finished (drafted : Drafted drafts batch) :
    List.Forall₂ (fun draft expression => draft.finish = .ok expression) drafts
      batch.expressions := by
  cases drafted with
  | single finished => exact .cons finished .nil
  | independent finished formed =>
      rw [Batch.expressions_of_independent formed]
      exact finished

theorem expression_of_draft (drafted : Drafted drafts batch) (listed : draft ∈ drafts) :
    ∃ expression ∈ batch.expressions, draft.finish = .ok expression := by
  obtain ⟨sameLength, matched⟩ := List.forall₂_iff_get.1 drafted.finished
  obtain ⟨⟨place, bound⟩, rfl⟩ := List.mem_iff_get.1 listed
  exact ⟨_, List.get_mem _ _, matched place bound (sameLength ▸ bound)⟩

theorem draft_of_expression {expression : Expression} (drafted : Drafted drafts batch)
    (member : expression ∈ batch.expressions) :
    ∃ draft ∈ drafts, draft.finish = .ok expression := by
  obtain ⟨sameLength, matched⟩ := List.forall₂_iff_get.1 drafted.finished
  obtain ⟨⟨place, bound⟩, rfl⟩ := List.mem_iff_get.1 member
  exact ⟨_, List.get_mem _ _, matched place (sameLength ▸ bound) bound⟩

/-- All drafts of a batch are on its context. -/
theorem context_of_mem (drafted : Drafted drafts batch) (listed : draft ∈ drafts) :
    draft.context = batch.context := by
  obtain ⟨expression, member, finished⟩ := drafted.expression_of_draft listed
  obtain ⟨_, _, sameContext, _⟩ := Draft.finish_eq_ok_iff.1 finished
  exact sameContext.symm.trans (Batch.context_of_mem member)

/-- A batch holds exactly the buffers that were pushed for it. -/
theorem holds_iff (drafted : Drafted drafts batch) :
    batch.Holds handle ↔ ∃ draft ∈ drafts, draft.Pushes handle := by
  constructor
  · rintro ⟨expression, member, within⟩
    obtain ⟨draft, listed, finished⟩ := drafted.draft_of_expression member
    exact ⟨draft, listed, (Draft.holds_iff finished).1 within⟩
  · rintro ⟨draft, listed, pushes⟩
    obtain ⟨expression, member, finished⟩ := drafted.expression_of_draft listed
    exact ⟨expression, member, (Draft.holds_iff finished).2 pushes⟩

/-- All buffers that were pushed for a batch are of its context. -/
theorem context_of_pushes (drafted : Drafted drafts batch) (listed : draft ∈ drafts)
    (pushes : draft.Pushes handle) : handle.context = batch.context :=
  Batch.context_of_holds (drafted.holds_iff.2 ⟨draft, listed, pushes⟩)

end Drafted

end KernelTuner
