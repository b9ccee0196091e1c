import KernelTuner.Fingerprint
import KernelTuner.Proofs.Expression.Unfolding

/-!
Contract: the bounded writing of a fingerprint against the unbounded one.

Owns: the tokens that numbering gives to a list of items, the text of a batch that
they make up, and `fingerprint_eq`: a fingerprint is that text when it fits the
length limit, and is refused otherwise. Writing stops early, but what it has seen
never shows in the result. How much that is, a walk with a record of its items tells: every
token has at least two characters, so that the length limit is also a limit on the walk,
however many items a full one has.
-/

set_option autoImplicit false

namespace KernelTuner

namespace Binder

/-- The tokens of items, numbered one after another. -/
def tokens (policy : Binding) (binder : Binder) : List Item → List String
  | [] => []
  | item :: rest => (binder.token policy item).1 :: (binder.token policy item).2.tokens policy rest

/-- What numbering has handed out after items. -/
def after (policy : Binding) (binder : Binder) : List Item → Binder
  | [] => binder
  | item :: rest => (binder.token policy item).2.after policy rest

end Binder

namespace Scribe

/-- The state that writing reaches when everything fits. -/
def afterAll (policy : Binding) (scribe : Scribe) (items : List Item) : Scribe :=
  ⟨scribe.text ++ String.join (scribe.binder.tokens policy items),
    scribe.binder.after policy items⟩

theorem afterAll_cons (policy : Binding) (scribe : Scribe) (item : Item) (rest : List Item) :
    scribe.afterAll policy (item :: rest) =
      afterAll policy
        ⟨scribe.text ++ (scribe.binder.token policy item).1, (scribe.binder.token policy item).2⟩
        rest := by
  simp [afterAll, Binder.tokens, Binder.after, String.append_assoc]

theorem text_length_le_afterAll (policy : Binding) (scribe : Scribe) (items : List Item) :
    scribe.text.length ≤ (scribe.afterAll policy items).text.length := by
  simp [afterAll]

theorem through_write_of_fits (policy : Binding) (scribe : Scribe) (items : List Item)
    (fits : (scribe.afterAll policy items).text.length ≤ Fingerprint.lengthLimit) :
    Flow.through (write policy) items scribe = .next (scribe.afterAll policy items) := by
  induction items generalizing scribe with
  | nil => simp [Flow.through, afterAll, Binder.tokens, Binder.after]
  | cons item rest inductionHypothesis =>
      rw [afterAll_cons] at fits ⊢
      have tokenFits : scribe.text.length + (scribe.binder.token policy item).1.length ≤
          Fingerprint.lengthLimit := by
        have grown := Nat.le_trans (text_length_le_afterAll policy _ rest) fits
        simpa using grown
      simp only [Flow.through, write, tokenFits, ↓reduceIte, Flow.andThen_next]
      exact inductionHypothesis _ fits

theorem through_write_of_not_fits (policy : Binding) (scribe : Scribe) (items : List Item)
    (short : scribe.text.length ≤ Fingerprint.lengthLimit)
    (long : Fingerprint.lengthLimit < (scribe.afterAll policy items).text.length) :
    ∃ cut, Flow.through (write policy) items scribe = .stop cut := by
  induction items generalizing scribe with
  | nil =>
      simp [afterAll, Binder.tokens] at long
      omega
  | cons item rest inductionHypothesis =>
      rw [afterAll_cons] at long
      simp only [Flow.through, write]
      split
      · next tokenFits =>
          exact inductionHypothesis _ (by simpa using tokenFits) long
      · exact ⟨_, rfl⟩

/-- Writing walks the expressions one after another. -/
theorem writeAll_eq_walkAll (policy : Binding) (expressions : List Expression) :
    writeAll policy expressions = Expression.walkAll (write policy) expressions := by
  induction expressions with
  | nil => rfl
  | cons expression rest inductionHypothesis =>
      funext scribe
      rw [writeAll, Expression.walkAll, inductionHypothesis]

theorem writeAll_eq_through (policy : Binding) (expressions : List Expression) (scribe : Scribe) :
    writeAll policy expressions scribe =
      Flow.through (write policy) (expressions.flatMap Expression.items) scribe := by
  rw [writeAll_eq_walkAll, Expression.walkAll_eq_through]

end Scribe

namespace Batch

/-- All items of the batch, in the order in which its fingerprint is written. -/
def items (batch : Batch) : List Item := batch.expressions.flatMap Expression.items

/-- The text that names the batch when nothing is cut. -/
def spelling (batch : Batch) (policy : Binding) (fresh : Nat) : String :=
  String.singleton batch.order.mark ++
    String.join (({ fresh } : Binder).tokens policy batch.items)

/-- A text that fits is the fingerprint, and all items have been numbered. -/
theorem fingerprint_of_fits {batch : Batch} {policy : Binding} {fresh : Nat}
    (fits : (batch.spelling policy fresh).length ≤ Fingerprint.lengthLimit) :
    batch.fingerprint policy fresh =
      (.ok ⟨batch.spelling policy fresh⟩, (({ fresh } : Binder).after policy batch.items).fresh) := by
  let start : Scribe := ⟨String.singleton batch.order.mark, { fresh }⟩
  have written : Flow.through (Scribe.write policy)
      (batch.expressions.flatMap Expression.items) start =
        .next (start.afterAll policy batch.items) :=
    Scribe.through_write_of_fits policy start batch.items fits
  unfold fingerprint
  simp only [Scribe.writeAll_eq_through]
  simp only [start] at written
  rw [written]
  rfl

/-- The fingerprint is the whole text or a refusal, never a part of the text. -/
theorem fingerprint_eq (batch : Batch) (policy : Binding) (fresh : Nat) :
    (batch.fingerprint policy fresh).1 =
      if (batch.spelling policy fresh).length ≤ Fingerprint.lengthLimit then
        .ok ⟨batch.spelling policy fresh⟩
      else .error (.fingerprintOverflow Fingerprint.lengthLimit) := by
  by_cases fits : (batch.spelling policy fresh).length ≤ Fingerprint.lengthLimit
  · rw [if_pos fits, fingerprint_of_fits fits]
  · let start : Scribe := ⟨String.singleton batch.order.mark, { fresh }⟩
    have startFits : start.text.length ≤ Fingerprint.lengthLimit := by
      simp [start, Fingerprint.lengthLimit]
    obtain ⟨cut, stopped⟩ : ∃ cut, Flow.through (Scribe.write policy)
        (batch.expressions.flatMap Expression.items) start = .stop cut :=
      Scribe.through_write_of_not_fits policy start batch.items startFits (Nat.lt_of_not_le fits)
    rw [if_neg fits]
    unfold fingerprint
    simp only [Scribe.writeAll_eq_through]
    simp only [start] at stopped
    rw [stopped]

end Batch

variable {σ β : Type}

/-! ### Walks with a record -/

namespace Flow

/-- A step that also records the items it is handed, in order. -/
def recording (step : Item → σ → Flow σ β) (item : Item) (state : σ × List Item) :
    Flow (σ × List Item) (β × List Item) :=
  match step item state.1 with
  | .next reached => .next (reached, state.2 ++ [item])
  | .stop result => .stop (result, state.2 ++ [item])

/-- Where the traversal stands, without the record. -/
def unrecorded : Flow (σ × List Item) (β × List Item) → Flow σ β
  | .next state => .next state.1
  | .stop result => .stop result.1

/-- The items that have been handed out. -/
def record : Flow (σ × List Item) (β × List Item) → List Item
  | .next state => state.2
  | .stop result => result.2

variable {step : Item → σ → Flow σ β}

theorem unrecorded_through (items : List Item) (state : σ) (seen : List Item) :
    (through (recording step) items (state, seen)).unrecorded = through step items state := by
  induction items generalizing state seen with
  | nil => rfl
  | cons item rest inductionHypothesis =>
      simp only [through, recording]
      cases step item state with
      | next reached => exact inductionHypothesis reached (seen ++ [item])
      | stop result => rfl

/-- What is handed out are the first of the items. -/
theorem record_through (items : List Item) (state : σ) (seen : List Item) :
    (through (recording step) items (state, seen)).record <+: seen ++ items := by
  induction items generalizing state seen with
  | nil => simp [through, record]
  | cons item rest inductionHypothesis =>
      simp only [through, recording]
      cases step item state with
      | next reached => simpa using inductionHypothesis reached (seen ++ [item])
      | stop result => exact ⟨rest, by simp [andThen, record]⟩

/-- A walk that reaches the end hands out all items. -/
theorem record_through_of_next {items : List Item} {state reached : σ} (seen : List Item)
    (done : through step items state = .next reached) :
    (through (recording step) items (state, seen)).record = seen ++ items := by
  induction items generalizing state seen with
  | nil => simp [through, record]
  | cons item rest inductionHypothesis =>
      simp only [through, recording] at done ⊢
      cases stepped : step item state with
      | next between =>
          rw [stepped] at done
          simpa using inductionHypothesis (seen ++ [item]) done
      | stop result => simp [stepped] at done

end Flow

/-! ### Tokens take room -/

theorem Operator.token_length (operator : Operator) : 2 ≤ operator.token.length := by
  cases operator <;> decide

/-- Every item that a traversal shows is spelled with two characters or more. -/
theorem Binder.two_le_token_length (binder : Binder) (policy : Binding) {item : Item}
    (shown : item.symbol? ≠ none) : 2 ≤ (binder.token policy item).1.length := by
  match item with
  | .node parent => exact parent.operator.token_length
  | .leaf (.buffer handle) => simp [token]
  | .leaf (.scalar elementType value) =>
      rw [token, String.length_ofList]
      exact Nat.le_refl 2
  | .leaf .empty => exact absurd rfl shown
  | .leaf (.node child) => exact absurd rfl shown

theorem Expression.symbol?_of_mem_items {expression : Expression} {item : Item}
    (found : item ∈ expression.items) : item.symbol? ≠ none := by
  have listed : item.symbol? ∈ expression.items.map Item.symbol? := List.mem_map_of_mem found
  rw [expression.items_symbols] at listed
  obtain ⟨symbol, -, same⟩ := List.mem_map.1 listed
  simp [← same]

namespace Scribe

/-- Each item that was written has taken at least two of the characters that there are, and
only the last one handed out may not have been written. -/
theorem record_length_le (policy : Binding) {items : List Item}
    (shown : ∀ item ∈ items, item.symbol? ≠ none) {scribe : Scribe} {seen : List Item}
    (fits : scribe.text.length ≤ Fingerprint.lengthLimit)
    (spent : 2 * seen.length < scribe.text.length) :
    (Flow.through (Flow.recording (write policy)) items (scribe, seen)).record.length ≤ 128 := by
  have limit : Fingerprint.lengthLimit = 255 := rfl
  induction items generalizing scribe seen with
  | nil =>
      simp only [Flow.through, Flow.record]
      omega
  | cons item rest inductionHypothesis =>
      obtain ⟨first, shown⟩ := List.forall_mem_cons.1 shown
      have grows := scribe.binder.two_le_token_length policy first
      by_cases tokenFits : scribe.text.length + (scribe.binder.token policy item).1.length ≤
          Fingerprint.lengthLimit
      · simp only [Flow.through, Flow.recording, write, tokenFits, ↓reduceIte, Flow.andThen_next]
        apply inductionHypothesis shown
        · simpa using tokenFits
        · simp
          omega
      · simp only [Flow.through, Flow.recording, write, tokenFits, ↓reduceIte, Flow.andThen_stop,
          Flow.record, List.length_append, List.length_singleton]
        omega

end Scribe

/-! ### Fingerprints -/

namespace Batch

theorem symbol?_of_mem_items {batch : Batch} {item : Item} (found : item ∈ batch.items) :
    item.symbol? ≠ none := by
  obtain ⟨expression, -, found⟩ := List.mem_flatMap.1 found
  exact Expression.symbol?_of_mem_items found

/-- The state in which the fingerprint of the batch is begun. -/
def opening (batch : Batch) (fresh : Nat) : Scribe :=
  ⟨String.singleton batch.order.mark, { fresh }⟩

/-- The walk that writes the fingerprint of the batch, with a record of the items it sees. -/
def watched (batch : Batch) (policy : Binding) (fresh : Nat) :
    Flow (Scribe × List Item) (Scribe × List Item) :=
  Expression.walkAll (Flow.recording (Scribe.write policy)) batch.expressions
    (batch.opening fresh, [])

theorem watched_eq_through (batch : Batch) (policy : Binding) (fresh : Nat) :
    batch.watched policy fresh =
      Flow.through (Flow.recording (Scribe.write policy)) batch.items (batch.opening fresh, []) :=
  Expression.walkAll_eq_through ..

/-- The record does not change what is written. -/
theorem unrecorded_watched (batch : Batch) (policy : Binding) (fresh : Nat) :
    (batch.watched policy fresh).unrecorded =
      Scribe.writeAll policy batch.expressions (batch.opening fresh) := by
  rw [watched_eq_through, Flow.unrecorded_through, Scribe.writeAll_eq_through]
  rfl

/-- A fingerprint is the whole text of its batch or a refusal. The walk that writes it sees
the first items of the full traversal, all of them when the text fits, and never more than the
limit leaves room for. -/
theorem fingerprint_within_budget (batch : Batch) (policy : Binding) (fresh : Nat) :
    ((batch.fingerprint policy fresh).1 =
      if (batch.spelling policy fresh).length ≤ Fingerprint.lengthLimit then
        .ok ⟨batch.spelling policy fresh⟩
      else .error (.fingerprintOverflow Fingerprint.lengthLimit)) ∧
    (batch.watched policy fresh).unrecorded =
      Scribe.writeAll policy batch.expressions (batch.opening fresh) ∧
    (batch.watched policy fresh).record <+: batch.items ∧
    ((batch.spelling policy fresh).length ≤ Fingerprint.lengthLimit →
      (batch.watched policy fresh).record = batch.items) ∧
    (batch.watched policy fresh).record.length ≤ 128 := by
  refine ⟨batch.fingerprint_eq policy fresh, batch.unrecorded_watched policy fresh, ?_, ?_, ?_⟩
  · rw [watched_eq_through]
    exact Flow.record_through batch.items (batch.opening fresh) []
  · intro fits
    have written := Scribe.through_write_of_fits policy (batch.opening fresh) batch.items fits
    rw [watched_eq_through]
    exact Flow.record_through_of_next [] written
  · rw [watched_eq_through]
    refine Scribe.record_length_le policy (fun _ => symbol?_of_mem_items) ?_ ?_ <;>
      simp [opening, Fingerprint.lengthLimit]

end Batch

end KernelTuner
