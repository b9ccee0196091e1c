import KernelTuner.Proofs.Expression.PrefixNotation
import KernelTuner.Proofs.Fingerprint.Spelling

/-!
Contract: the name of a program and the structure of a batch.

Owns: the likeness of batches, by which the expressions of one lead to those of the
other under one renaming of buffers that keeps them apart; `tokens_eq_iff_alike`, by
which tokens are equal exactly when the symbols are alike; and
`programName_determines_structure` for batches whose nodes are fully applied.
-/

set_option autoImplicit false

namespace KernelTuner

/-- The number that a token carries. -/
def Token.number? : Token → Option Nat
  | buffer _ _ number => some number
  | _ => none

namespace Symbol

theorem token_number? (number : BufferId → Nat) (symbol : Symbol) :
    (symbol.token number).number? = symbol.id?.map number := by
  cases symbol with
  | operator found => rfl
  | leaf found => cases found <;> rfl

variable {rename : BufferId → BufferId} {left right : Symbol}

theorem Alike.id? (alike : left.Alike rename right) : right.id? = left.id?.map rename := by
  cases alike with
  | operator found => rfl
  | buffer handles => exact congrArg some handles.id
  | scalar elementType left right => rfl

theorem Alike.token_eq (alike : left.Alike rename right) {leftNumber rightNumber : BufferId → Nat}
    (same : ∀ id, left.id? = some id → leftNumber id = rightNumber (rename id)) :
    left.token leftNumber = right.token rightNumber := by
  cases alike with
  | operator found => rfl
  | buffer handles =>
      simp only [token, handles.elementType, Extent.kind_eq_iff_rank_eq.2 handles.rank, handles.id,
        same _ rfl]
  | scalar elementType left right => rfl

theorem alike_of_token_eq {leftNumber rightNumber : BufferId → Nat}
    (same : left.token leftNumber = right.token rightNumber)
    (renames : ∀ leftId rightId, left.id? = some leftId → right.id? = some rightId →
      leftNumber leftId = rightNumber rightId → rightId = rename leftId) :
    left.Alike rename right := by
  cases left with
  | operator leftOperator =>
      cases right with
      | operator rightOperator =>
          cases same
          exact .operator _
      | leaf rightLeaf => cases rightLeaf <;> cases same
  | leaf leftLeaf =>
      cases right with
      | operator rightOperator => cases leftLeaf <;> cases same
      | leaf rightLeaf =>
          cases leftLeaf with
          | buffer leftHandle =>
              cases rightLeaf with
              | buffer rightHandle =>
                  obtain ⟨sameKind, sameType, sameNumber⟩ := Token.buffer.inj same
                  exact .buffer ⟨Extent.kind_eq_iff_rank_eq.1 sameKind, sameType,
                    renames _ _ rfl rfl sameNumber⟩
              | scalar rightType rightValue => cases same
          | scalar leftType leftValue =>
              cases rightLeaf with
              | buffer rightHandle => cases same
              | scalar rightType rightValue =>
                  cases Token.scalar.inj same
                  exact .scalar _ _ _

end Symbol

namespace Batch

/-- Two batches whose buffers correspond, one to one over the whole batch. -/
structure SymbolsAlike (rename : BufferId → BufferId) (left right : Batch) : Prop where
  bijective : Set.BijOn rename {id | id ∈ left.ids} {id | id ∈ right.ids}
  symbols : List.Forall₂ (Symbol.Alike rename) left.symbols right.symbols

theorem tokens_numbers (batch : Batch) :
    batch.tokens.filterMap Token.number? = FirstUse.numbers batch.ids := by
  simp only [tokens, FirstUse.numbers, ids, List.filterMap_map, List.map_filterMap]
  congr 1
  funext symbol
  exact Symbol.token_number? _ symbol

theorem ids_of_symbols_alike {rename : BufferId → BufferId} {left right : List Symbol}
    (alike : List.Forall₂ (Symbol.Alike rename) left right) :
    right.filterMap Symbol.id? = (left.filterMap Symbol.id?).map rename := by
  induction alike with
  | nil => rfl
  | @cons leftSymbol rightSymbol _ _ first _ inductionHypothesis =>
      rw [List.filterMap_cons, List.filterMap_cons, first.id?, inductionHypothesis]
      cases leftSymbol.id? <;> rfl

theorem mem_ids {batch : Batch} {symbol : Symbol} {id : BufferId} (member : symbol ∈ batch.symbols)
    (refers : symbol.id? = some id) : id ∈ batch.ids :=
  List.mem_filterMap.2 ⟨symbol, member, refers⟩

/-- Tokens tell everything about symbols but sizes, values and the choice of
identities. -/
theorem tokens_eq_iff_alike {left right : Batch} :
    left.tokens = right.tokens ↔ ∃ rename, SymbolsAlike rename left right := by
  constructor
  · intro same
    have sameNumbers : FirstUse.numbers left.ids = FirstUse.numbers right.ids := by
      rw [← tokens_numbers, ← tokens_numbers, same]
    obtain ⟨rename, renamed, bijective⟩ := FirstUse.numbers_eq_iff_renaming.1 sameNumbers
    refine ⟨rename, bijective, ?_⟩
    have sameLength : left.symbols.length = right.symbols.length := by
      simpa [tokens] using congrArg List.length same
    refine List.forall₂_iff_get.2 ⟨sameLength, ?_⟩
    intro index leftBound rightBound
    have sameToken := congrArg (fun tokens => tokens[index]?) same
    simp only [tokens, List.getElem?_map, List.getElem?_eq_getElem leftBound,
      List.getElem?_eq_getElem rightBound, Option.map_some] at sameToken
    apply Symbol.alike_of_token_eq (Option.some.inj sameToken)
    intro leftId rightId leftRefers rightRefers sameNumber
    have kept : FirstUse.number right.ids (rename leftId) = FirstUse.number left.ids leftId := by
      rw [renamed]
      exact FirstUse.number_map bijective.injOn (mem_ids (List.getElem_mem leftBound) leftRefers)
    exact FirstUse.number_injOn (mem_ids (List.getElem_mem rightBound) rightRefers)
      (sameNumber.symm.trans kept.symm)
  · rintro ⟨rename, alike⟩
    have renamed : right.ids = left.ids.map rename := ids_of_symbols_alike alike.symbols
    obtain ⟨sameLength, pointwise⟩ := List.forall₂_iff_get.1 alike.symbols
    apply List.ext_getElem
    · simpa [tokens] using sameLength
    · intro index leftBound rightBound
      have leftIndex : index < left.symbols.length := by simpa [tokens] using leftBound
      have rightIndex : index < right.symbols.length := sameLength ▸ leftIndex
      simp only [tokens, List.getElem_map]
      apply (pointwise index leftIndex rightIndex).token_eq
      intro id refers
      rw [renamed, FirstUse.number_map alike.bijective.injOn
        (mem_ids (List.getElem_mem leftIndex) refers)]

/-! ### Structure -/

/-- The trees of the expressions. -/
def trees (batch : Batch) : List Tree := batch.expressions.map Expression.tree

/-- Every reachable node of every expression is fully applied. -/
def FullyApplied (batch : Batch) : Prop :=
  ∀ expression ∈ batch.expressions, expression.FullyApplied

/-- Two batches of one order whose expressions unfold, one by one, to trees of one
form. One renaming leads from the buffers of the first batch to those of the second
and keeps them apart. -/
structure Alike (rename : BufferId → BufferId) (left right : Batch) : Prop where
  order : left.order = right.order
  bijective : Set.BijOn rename {id | id ∈ left.ids} {id | id ∈ right.ids}
  trees : List.Forall₂ (Tree.Alike rename) left.trees right.trees

theorem symbols_eq_flatMap (batch : Batch) : batch.symbols = batch.trees.flatMap Tree.symbols := by
  rw [trees, List.flatMap_map]
  rfl

theorem symbols_alike_of_trees {rename : BufferId → BufferId} {left right : List Tree}
    (alike : List.Forall₂ (Tree.Alike rename) left right) :
    List.Forall₂ (Symbol.Alike rename) (left.flatMap Tree.symbols)
      (right.flatMap Tree.symbols) := by
  induction alike with
  | nil => exact .nil
  | cons first _ inductionHypothesis => exact List.rel_append first.symbols inductionHypothesis

theorem FullyApplied.trees_saturated {batch : Batch} (applied : batch.FullyApplied) :
    ∀ tree ∈ batch.trees, tree.Saturated := by
  intro tree member
  obtain ⟨expression, expressionMember, rfl⟩ := List.mem_map.1 member
  exact (applied expression expressionMember).tree_saturated

theorem Alike.tokens_eq {rename : BufferId → BufferId} {left right : Batch}
    (alike : Alike rename left right) : left.tokens = right.tokens := by
  apply tokens_eq_iff_alike.2
  refine ⟨rename, alike.bijective, ?_⟩
  rw [symbols_eq_flatMap, symbols_eq_flatMap]
  exact symbols_alike_of_trees alike.trees

/-- Batches of one structure share a name or are both refused one, and a name belongs
to one structure only. -/
theorem programName_determines_structure {left right : Batch} (leftApplied : left.FullyApplied)
    (rightApplied : right.FullyApplied) :
    ((∃ rename, Alike rename left right) → left.programName = right.programName) ∧
      ∀ name, left.programName = .ok name → right.programName = .ok name →
        ∃ rename, Alike rename left right := by
  refine ⟨?sufficient, ?necessary⟩
  case sufficient =>
    rintro ⟨rename, alike⟩
    exact programName_eq_of_tokens_eq alike.order alike.tokens_eq
  case necessary =>
    intro name leftName rightName
    obtain ⟨sameOrder, sameTokens⟩ := tokens_eq_of_programName_eq leftName rightName
    obtain ⟨rename, alike⟩ := tokens_eq_iff_alike.1 sameTokens
    refine ⟨rename, sameOrder, alike.bijective, ?_⟩
    have symbolsAlike := alike.symbols
    rw [symbols_eq_flatMap, symbols_eq_flatMap] at symbolsAlike
    exact Tree.forall₂_alike_of_symbols leftApplied.trees_saturated rightApplied.trees_saturated
      symbolsAlike

theorem scaling_allowed (x : BufferId) (length : UInt64) (factor : Float) :
    (Node.mk (.buffer ⟨x, .f32, .vector length, ⟨1⟩⟩) .scale (.scalar .f32 factor)).Admissible
      ⟨1⟩ 0 := ⟨rfl, trivial⟩

/-- `target = x * factor` on vectors of one length. -/
def scaling (target x : BufferId) (length : UInt64) (factor : Float) : Batch :=
  .single (.assignment .f32 ⟨target, .f32, .vector length, ⟨1⟩⟩ .scale
    (.buffer ⟨x, .f32, .vector length, ⟨1⟩⟩) (.scalar .f32 factor)
    (scaling_allowed x length factor))

section Scaling

variable {target x : BufferId} {length : UInt64} {factor : Float}

theorem scaling_fullyApplied : (scaling target x length factor).FullyApplied := by
  intro expression member
  rw [List.mem_singleton.1 member]
  apply Expression.assignment_fullyApplied (scaling_allowed x length factor)
  exact ⟨nofun, nofun, nofun⟩

theorem scaling_tree :
    (scaling target x length factor).first.tree =
      .node .assign (.buffer ⟨target, .f32, .vector length, ⟨1⟩⟩)
        (.node .scale (.buffer ⟨x, .f32, .vector length, ⟨1⟩⟩) (.scalar .f32 factor)) :=
  Expression.assignment_tree (scaling_allowed x length factor)

theorem scaling_symbols :
    (scaling target x length factor).symbols =
      [.operator .assign, .leaf (.buffer ⟨target, .f32, .vector length, ⟨1⟩⟩),
        .operator .scale, .leaf (.buffer ⟨x, .f32, .vector length, ⟨1⟩⟩),
        .leaf (.scalar .f32 factor)] := by
  have symbols : (scaling target x length factor).symbols =
      (scaling target x length factor).first.tree.symbols ++ [] := rfl
  rw [symbols, scaling_tree]
  rfl

theorem scaling_tokens (apart : target ≠ x) :
    (scaling target x length factor).tokens =
      [.operator .assign, .buffer .vector .f32 0, .operator .scale, .buffer .vector .f32 1,
        .scalar .f32] := by
  have uses : FirstUse.noteAll [] [target, x] = [target, x] := by
    simp [FirstUse.noteAll, FirstUse.note, apart.symm]
  simp only [tokens, ids, scaling_symbols]
  simp [Symbol.id?, List.filterMap_cons, Symbol.token, FirstUse.number, uses, apart,
    Extent.kind]

theorem scaling_programName (apart : target ≠ x) :
    (scaling target x length factor).programName = .ok ⟨"sasvf0scvf1hf"⟩ := by
  rw [programName_eq, scaling_tokens apart]
  rfl

end Scaling

/-- Sizes, values and the choice of identities do not show in a name. -/
theorem scalings_share_structure :
    (scaling ⟨0⟩ ⟨1⟩ 4 2).FullyApplied ∧ (scaling ⟨7⟩ ⟨5⟩ 8 3).FullyApplied ∧
      (scaling ⟨0⟩ ⟨1⟩ 4 2).programName = .ok ⟨"sasvf0scvf1hf"⟩ ∧
      (scaling ⟨7⟩ ⟨5⟩ 8 3).programName = .ok ⟨"sasvf0scvf1hf"⟩ ∧
      ∃ rename, Alike rename (scaling ⟨0⟩ ⟨1⟩ 4 2) (scaling ⟨7⟩ ⟨5⟩ 8 3) := by
  have firstName : (scaling ⟨0⟩ ⟨1⟩ 4 2).programName = .ok ⟨"sasvf0scvf1hf"⟩ :=
    scaling_programName (by decide)
  have secondName : (scaling ⟨7⟩ ⟨5⟩ 8 3).programName = .ok ⟨"sasvf0scvf1hf"⟩ :=
    scaling_programName (by decide)
  exact ⟨scaling_fullyApplied, scaling_fullyApplied, firstName, secondName,
    (programName_determines_structure scaling_fullyApplied scaling_fullyApplied).2 _ firstName
      secondName⟩

end Batch

end KernelTuner
