import KernelTuner.Expression.Walk
import Mathlib.Data.Nat.Bits

/-!
Contract: buffers behind transpositions.

Owns: the chains of transpositions that lead from an operand to a buffer; that a chain is the
only one of its operand; and `bufferOperand?_eq_some_iff`, by which the resolution of an operand
finds the buffer that a chain leads to, and whether the chain is of odd length.
-/

set_option autoImplicit false

namespace KernelTuner.Expression

/-- The operand leads to the buffer through this many transpositions, by their left operands. -/
inductive LeadsTo (expression : Expression) (handle : Buffer) : Operand → Nat → Prop where
  | buffer : LeadsTo expression handle (.buffer handle) 0
  | transpose {index count : Nat} {node : Node} (found : expression.node? index = some node)
      (turns : node.operator = .transpose) (behind : LeadsTo expression handle node.lhs count) :
      LeadsTo expression handle (.node index) (count + 1)

variable {expression : Expression} {handle : Buffer}

/-- No other chain leads from the operand to a buffer. -/
theorem LeadsTo.unique {operand : Operand} {count otherCount : Nat} {other : Buffer}
    (leads : expression.LeadsTo handle operand count)
    (otherLeads : expression.LeadsTo other operand otherCount) :
    other = handle ∧ otherCount = count := by
  induction leads generalizing otherCount with
  | buffer =>
      cases otherLeads with
      | buffer => exact ⟨rfl, rfl⟩
  | transpose found _ _ inductionHypothesis =>
      cases otherLeads with
      | transpose otherFound _ behind =>
          cases Option.some.inj (found.symm.trans otherFound)
          obtain ⟨sameBuffer, sameCount⟩ := inductionHypothesis behind
          exact ⟨sameBuffer, congrArg Nat.succ sameCount⟩

/-- A transposition turns what is behind it once more. -/
theorem transposed?_eq_some_iff {index : Nat} {bound : index < expression.nodes.size} {odd : Bool} :
    expression.transposed? index bound = some (handle, odd) ↔
      ∃ count, expression.LeadsTo handle (.node index) count ∧ count.bodd = odd := by
  induction index using Nat.strongRecOn generalizing odd with
  | _ index inductionHypothesis =>
      have below {operand : Operand} {even : Bool}
          {admissible : operand.Admissible expression.context index} :
          operand.elimAt admissible
              (fun child earlier => expression.transposed? child (Nat.lt_trans earlier bound))
              (fun held => some (held, false)) (fun _ _ => none) none = some (handle, even) ↔
            ∃ count, expression.LeadsTo handle operand count ∧ count.bodd = even := by
        cases operand with
        | empty => exact ⟨nofun, nofun⟩
        | scalar elementType value => exact ⟨nofun, nofun⟩
        | node child => exact inductionHypothesis child admissible
        | buffer held =>
            constructor
            · intro same
              cases same
              exact ⟨0, .buffer, rfl⟩
            · rintro ⟨count, leads, rfl⟩
              cases leads
              rfl
      have found : expression.node? index = some expression.nodes[index] :=
        Array.getElem?_eq_getElem bound
      rw [transposed?]
      split
      · next turns =>
          rw [Option.map_eq_some_iff]
          constructor
          · rintro ⟨⟨other, even⟩, reached, same⟩
            cases same
            obtain ⟨count, leads, rfl⟩ := below.1 reached
            exact ⟨count + 1, .transpose found turns leads, Nat.bodd_succ count⟩
          · rintro ⟨_, leads, rfl⟩
            cases leads with
            | @transpose _ count _ otherFound _ behind =>
                cases Option.some.inj (found.symm.trans otherFound)
                refine ⟨(handle, count.bodd), below.2 ⟨count, behind, rfl⟩, ?_⟩
                rw [Nat.bodd_succ]
      · next straight =>
          constructor
          · exact nofun
          · rintro ⟨_, leads, _⟩
            cases leads with
            | transpose otherFound turns _ =>
                cases Option.some.inj (found.symm.trans otherFound)
                exact absurd turns straight

/-- An operand stands for the buffer that its chain leads to, transposed when the chain is odd. -/
theorem bufferOperand?_eq_some_iff {operand : Operand} {odd : Bool} :
    expression.bufferOperand? operand = some (handle, odd) ↔
      ∃ count, expression.LeadsTo handle operand count ∧ count.bodd = odd := by
  cases operand with
  | empty => exact ⟨nofun, nofun⟩
  | scalar elementType value => exact ⟨nofun, nofun⟩
  | buffer held =>
      constructor
      · intro same
        cases same
        exact ⟨0, .buffer, rfl⟩
      · rintro ⟨count, leads, rfl⟩
        cases leads
        rfl
  | node index =>
      simp only [bufferOperand?]
      split
      · exact transposed?_eq_some_iff
      · next outside =>
          constructor
          · exact nofun
          · rintro ⟨_, leads, _⟩
            cases leads with
            | transpose found _ _ =>
                exact absurd (Array.getElem?_eq_some_iff.1 found).1 outside

end KernelTuner.Expression
