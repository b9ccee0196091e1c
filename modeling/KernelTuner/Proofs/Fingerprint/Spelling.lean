import KernelTuner.Proofs.Fingerprint.Numbering
import KernelTuner.Proofs.Fingerprint.Stream

/-!
Contract: what the name of a program tells of a batch.

Owns: the tokens of a batch, which are those of its symbols with buffers numbered by
first use over the whole batch; `programName_eq`, by which they spell the name; and
`tokens_eq_of_programName_eq`, by which batches of one name have the same tokens.
-/

set_option autoImplicit false

namespace KernelTuner

namespace Symbol

/-- The buffer that a symbol refers to. -/
def id? : Symbol → Option BufferId
  | leaf (.buffer handle) => some handle.id
  | _ => none

/-- The token of a symbol, with buffers numbered by `number`. -/
def token (number : BufferId → Nat) : Symbol → Token
  | operator found => .operator found
  | leaf (.buffer handle) => .buffer handle.extent.kind handle.elementType (number handle.id)
  | leaf (.scalar elementType _) => .scalar elementType

theorem token_congr {first second : BufferId → Nat} {symbol : Symbol}
    (same : ∀ id, symbol.id? = some id → first id = second id) :
    symbol.token first = symbol.token second := by
  cases symbol with
  | operator found => rfl
  | leaf found =>
      cases found with
      | buffer handle => simp only [token, same handle.id rfl]
      | scalar elementType value => rfl

end Symbol

theorem BatchOrder.mark_injective {left right : BatchOrder} (same : left.mark = right.mark) :
    left = right := by
  cases left <;> cases right <;> first | rfl | exact absurd same (by decide)

namespace Binder

/-- The numbering after `ids` have been bound. -/
def noteAll (binder : Binder) (ids : List BufferId) : Binder :=
  { binder with bound := FirstUse.noteAll binder.bound ids }

/-- The number of a buffer that is bound. -/
def numberOf (binder : Binder) (id : BufferId) : Nat := binder.bound.idxOf id

theorem bind_toHandle (binder : Binder) (id : BufferId) :
    binder.bind .toHandle id = ((binder.noteAll [id]).numberOf id, binder.noteAll [id]) := by
  have noted : binder.noteAll [id] = { binder with bound := FirstUse.note binder.bound id } := rfl
  rw [noted]
  unfold bind numberOf
  cases held : binder.bound.idxOf? id with
  | some number =>
      obtain ⟨bound, found, least⟩ := List.idxOf?_eq_some_iff.1 held
      have member : id ∈ binder.bound := found ▸ List.getElem_mem bound
      have place : binder.bound.idxOf id = number := by
        rw [List.idxOf_eq_getD_idxOf?, held, Option.getD_some]
      simp only [FirstUse.note_of_mem member, place]
  | none =>
      have fresh : id ∉ binder.bound := List.idxOf?_eq_none_iff.1 held
      have place : (binder.bound ++ [id]).idxOf id = binder.bound.length := by
        rw [List.idxOf_append_of_notMem fresh, List.idxOf_cons_self, Nat.add_zero]
      simp only [FirstUse.note_of_not_mem fresh, place]

/-- An item is written as its symbol, and a buffer is bound on the way. -/
theorem token_toHandle (binder : Binder) {item : Item} {symbol : Symbol}
    (shows : item.symbol? = some symbol) :
    binder.token .toHandle item =
      ((symbol.token (binder.noteAll symbol.id?.toList).numberOf).text,
        binder.noteAll symbol.id?.toList) := by
  cases item with
  | node parent =>
      cases shows
      rfl
  | leaf operand =>
      cases operand with
      | buffer handle =>
          cases shows
          simp only [token, bind_toHandle, Symbol.id?, Symbol.token, Token.text, Buffer.kindCode,
            Extent.kindCode_eq, Option.toList]
      | scalar elementType value =>
          cases shows
          rfl
      | empty => cases shows
      | node index => cases shows

/-- The tokens of items are those of their symbols, under the numbering that is
reached in the end. -/
theorem tokens_toHandle (binder : Binder) {items : List Item} {symbols : List Symbol}
    (shows : items.map Item.symbol? = symbols.map some) :
    binder.tokens .toHandle items =
      symbols.map (fun symbol =>
        (symbol.token (binder.noteAll (symbols.filterMap Symbol.id?)).numberOf).text) := by
  induction symbols generalizing binder items with
  | nil =>
      cases items with
      | nil => rfl
      | cons item rest => cases shows
  | cons symbol symbols inductionHypothesis =>
      cases items with
      | nil => cases shows
      | cons item items =>
          obtain ⟨showsFirst, showsRest⟩ := List.cons.inj shows
          have whole : binder.noteAll ((symbol :: symbols).filterMap Symbol.id?) =
              (binder.noteAll symbol.id?.toList).noteAll (symbols.filterMap Symbol.id?) := by
            cases held : symbol.id? with
            | none => simp only [List.filterMap_cons, held]; rfl
            | some id => simp only [List.filterMap_cons, held]; rfl
          rw [whole, List.map_cons, tokens, token_toHandle binder showsFirst,
            inductionHypothesis _ showsRest]
          -- later buffers do not change the number of this one
          rw [Symbol.token_congr]
          intro id refers
          have member : id ∈ (binder.noteAll symbol.id?.toList).bound := by
            rw [refers]
            exact FirstUse.mem_note.2 (Or.inr rfl)
          exact (FirstUse.idxOf_noteAll member _).symm

end Binder

namespace Batch

/-- The symbols of the batch, one expression after another. -/
def symbols (batch : Batch) : List Symbol :=
  batch.expressions.flatMap (fun expression => expression.tree.symbols)

/-- The buffers of the batch in order of occurrence. -/
def ids (batch : Batch) : List BufferId := batch.symbols.filterMap Symbol.id?

/-- What the fingerprint consists of behind the mark of the order. -/
def tokens (batch : Batch) : List Token :=
  batch.symbols.map (Symbol.token (FirstUse.number batch.ids))

theorem items_symbols (batch : Batch) :
    batch.items.map Item.symbol? = batch.symbols.map some := by
  simp only [items, symbols, List.map_flatMap, Expression.items_symbols]

theorem spelling_toHandle (batch : Batch) (fresh : Nat) :
    (batch.spelling .toHandle fresh).toList = batch.order.mark :: Token.spelled batch.tokens := by
  have written := Binder.tokens_toHandle { fresh } batch.items_symbols
  have joined : (String.join (({ fresh } : Binder).tokens .toHandle batch.items)).toList =
      Token.spelled batch.tokens := by
    rw [written, String.toList_join, Token.spelled, tokens, List.flatMap_map, List.flatMap_map]
    rfl
  rw [spelling, String.toList_append, joined]
  simp

/-- The name of a program is the text of the batch's tokens behind the mark of its
order, and is refused when that is too long. -/
theorem programName_eq (batch : Batch) :
    batch.programName =
      if (Token.spelled batch.tokens).length < Fingerprint.lengthLimit then
        .ok ⟨String.ofList (batch.order.mark :: Token.spelled batch.tokens)⟩
      else .error (.fingerprintOverflow Fingerprint.lengthLimit) := by
  have text : batch.spelling .toHandle 0 =
      String.ofList (batch.order.mark :: Token.spelled batch.tokens) := by
    rw [← spelling_toHandle batch 0, String.ofList_toList]
  unfold programName
  rw [fingerprint_eq, text]
  simp only [String.length_ofList, List.length_cons, Nat.succ_le_iff]

theorem programName_eq_of_tokens_eq {left right : Batch} (sameOrder : left.order = right.order)
    (sameTokens : left.tokens = right.tokens) : left.programName = right.programName := by
  rw [programName_eq, programName_eq, sameOrder, sameTokens]

theorem programName_text {batch : Batch} {name : Fingerprint}
    (named : batch.programName = .ok name) :
    name.text.toList = batch.order.mark :: Token.spelled batch.tokens := by
  rw [programName_eq] at named
  split at named
  · cases named
    exact String.toList_ofList
  · simp at named

/-- Batches of one name have the same order and the same tokens. -/
theorem tokens_eq_of_programName_eq {left right : Batch} {name : Fingerprint}
    (leftName : left.programName = .ok name) (rightName : right.programName = .ok name) :
    left.order = right.order ∧ left.tokens = right.tokens := by
  have sameText := (programName_text leftName).symm.trans (programName_text rightName)
  obtain ⟨sameMark, sameSpelling⟩ := List.cons.inj sameText
  exact ⟨BatchOrder.mark_injective sameMark, Token.spelled_injective sameSpelling⟩

theorem underscore_not_mem_programName {batch : Batch} {name : Fingerprint}
    (named : batch.programName = .ok name) : '_' ∉ name.text.toList := by
  rw [programName_text named, List.mem_cons, not_or]
  refine ⟨?_, Token.underscore_not_mem_spelled batch.tokens⟩
  cases batch.order <;> decide

end Batch

end KernelTuner
