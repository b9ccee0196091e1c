import KernelTuner.Error
import KernelTuner.Expression.Basic

/-!
Contract: batches of expressions.

Owns: the batch type, its two orders and the condition that all expressions of a
batch are on one context.
-/

set_option autoImplicit false

namespace KernelTuner

/-- How the expressions of a batch relate. -/
inductive BatchOrder where
  /-- Unrelated expressions that may be fused into one launch. -/
  | independent
  /-- One composed expression. -/
  | sequential
deriving DecidableEq, Repr, Inhabited

namespace BatchOrder

/-- First character of a fingerprint. -/
def mark : BatchOrder → Char
  | independent => 'i'
  | sequential => 's'

def label : BatchOrder → String
  | independent => "Independent"
  | sequential => "Sequential"

end BatchOrder

/-- One or more expressions on one context. -/
structure Batch where
  order : BatchOrder
  first : Expression
  rest : List Expression
  oneContext : ∀ expression ∈ rest, expression.context = first.context

namespace Batch

def expressions (batch : Batch) : List Expression := batch.first :: batch.rest

def context (batch : Batch) : ContextId := batch.first.context

/-- Element type of the first expression. -/
def elementType (batch : Batch) : ElementType := batch.first.elementType

/-- The batch of one expression. -/
def single (expression : Expression) : Batch := ⟨.sequential, expression, [], nofun⟩

/-- The batch of unrelated expressions, which must share their context. -/
def independent : List Expression → Except Error Batch
  | [] => refuse .emptyBatch
  | first :: rest =>
      match mixed : rest.find? (fun expression => expression.context ≠ first.context) with
      | some stray => refuse (.mixedContexts first.context stray.context)
      | none =>
          .ok ⟨.independent, first, rest, fun expression member => by
            simpa using List.find?_eq_none.1 mixed expression member⟩

end Batch

end KernelTuner
