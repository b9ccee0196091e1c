import KernelTuner.Proofs.Fingerprint.Structure

/-!
Contract: fingerprints with unique numbering over the life of a process.

Owns: runs of requests for fingerprints, which share one counter; the tokens of a
batch under unique numbering; and `fingerprints_never_repeat`, by which two
fingerprints with unique numbering differ as long as the counter has not gone round,
while numbering by handle never looks at the counter.

Numbers stand in a fingerprint without separators. They can be told apart because
`Token.spelled_injective` reads the tokens back.
-/

set_option autoImplicit false

namespace KernelTuner

/-- The tokens of symbols, each buffer of which takes the next number of the counter. -/
def Symbol.uniqueTokens (fresh : Nat) : List Symbol → List Token
  | [] => []
  | symbol :: rest =>
      symbol.token (fun _ => Size.word fresh) ::
        uniqueTokens (fresh + symbol.id?.toList.length) rest

theorem Symbol.numbers_uniqueTokens (fresh : Nat) (symbols : List Symbol) :
    (uniqueTokens fresh symbols).filterMap Token.number? =
      (List.range' fresh (symbols.filterMap id?).length).map Size.word := by
  induction symbols generalizing fresh with
  | nil => rfl
  | cons symbol rest inductionHypothesis =>
      cases symbol with
      | operator found => exact inductionHypothesis fresh
      | leaf found =>
          cases found with
          | scalar elementType value => exact inductionHypothesis fresh
          | buffer handle =>
              simp [uniqueTokens, token, id?, Token.number?, inductionHypothesis, List.range'_succ]

namespace Binder

/-- An item is written as its symbol, and a buffer takes a number of the counter. -/
theorem token_allUnique (binder : Binder) {item : Item} {symbol : Symbol}
    (shows : item.symbol? = some symbol) :
    binder.token .allUnique item =
      ((symbol.token (fun _ => Size.word binder.fresh)).text,
        { binder with fresh := binder.fresh + symbol.id?.toList.length }) := by
  cases item with
  | node parent =>
      cases shows
      rfl
  | leaf operand =>
      cases operand with
      | buffer handle =>
          cases shows
          simp only [token, bind, Symbol.id?, Symbol.token, Token.text, Buffer.kindCode,
            Extent.kindCode_eq]
          rfl
      | scalar elementType value =>
          cases shows
          rfl
      | empty => cases shows
      | node index => cases shows

theorem tokens_allUnique (binder : Binder) {items : List Item} {symbols : List Symbol}
    (shows : items.map Item.symbol? = symbols.map some) :
    binder.tokens .allUnique items =
        (Symbol.uniqueTokens binder.fresh symbols).map Token.text ∧
      (binder.after .allUnique items).fresh =
        binder.fresh + (symbols.filterMap Symbol.id?).length := by
  induction symbols generalizing binder items with
  | nil =>
      cases items with
      | nil => exact ⟨rfl, rfl⟩
      | cons item rest => cases shows
  | cons symbol symbols inductionHypothesis =>
      cases items with
      | nil => cases shows
      | cons item items =>
          obtain ⟨showsFirst, showsRest⟩ := List.cons.inj shows
          obtain ⟨written, taken⟩ := inductionHypothesis
            { binder with fresh := binder.fresh + symbol.id?.toList.length } showsRest
          have counted : ((symbol :: symbols).filterMap Symbol.id?).length =
              symbol.id?.toList.length + (symbols.filterMap Symbol.id?).length := by
            cases held : symbol.id? <;> simp [held, Nat.add_comm]
          rw [tokens, after, token_allUnique binder showsFirst, written, taken, counted,
            Nat.add_assoc]
          exact ⟨rfl, rfl⟩

theorem fresh_token_toHandle (binder : Binder) (item : Item) :
    (binder.token .toHandle item).2.fresh = binder.fresh := by
  cases item with
  | node parent => rfl
  | leaf operand =>
      cases operand with
      | buffer handle =>
          simp only [token, bind_toHandle]
          rfl
      | scalar elementType value => rfl
      | empty => rfl
      | node index => rfl

/-- The counter never goes back. -/
theorem fresh_le_token (binder : Binder) (policy : Binding) (item : Item) :
    binder.fresh ≤ (binder.token policy item).2.fresh := by
  cases policy with
  | toHandle => exact Nat.le_of_eq (binder.fresh_token_toHandle item).symm
  | allUnique =>
      cases item with
      | node parent => exact Nat.le_refl _
      | leaf operand =>
          cases operand with
          | buffer handle => exact Nat.le_succ _
          | scalar elementType value => exact Nat.le_refl _
          | empty => exact Nat.le_refl _
          | node index => exact Nat.le_refl _

end Binder

namespace Scribe

/-- The state in which writing ends, whether it has been stopped or not. -/
def reached : Flow Scribe Scribe → Scribe
  | .next scribe => scribe
  | .stop scribe => scribe

/-- What every token keeps of the numbering, the whole writing keeps. -/
theorem binder_of_through {policy : Binding} {Kept : Binder → Prop}
    (step : ∀ binder item, Kept binder → Kept (Binder.token binder policy item).2)
    (items : List Item) (scribe : Scribe) (start : Kept scribe.binder) :
    Kept (reached (Flow.through (write policy) items scribe)).binder := by
  induction items generalizing scribe with
  | nil => exact start
  | cons item rest inductionHypothesis =>
      have taken := step scribe.binder item start
      simp only [Flow.through, write]
      split
      · rw [Flow.andThen_next]
        exact inductionHypothesis _ taken
      · exact taken

end Scribe

namespace Batch

theorem counter_of_fingerprint (batch : Batch) (policy : Binding) {fresh : Nat}
    (Kept : Binder → Prop)
    (step : ∀ binder item, Kept binder → Kept (Binder.token binder policy item).2)
    (start : Kept { fresh }) :
    ∃ binder, Kept binder ∧ (batch.fingerprint policy fresh).2 = binder.fresh := by
  let scribe : Scribe := ⟨String.singleton batch.order.mark, { fresh }⟩
  have kept := Scribe.binder_of_through step (batch.expressions.flatMap Expression.items) scribe start
  rw [← Scribe.writeAll_eq_through] at kept
  refine ⟨_, kept, ?_⟩
  unfold fingerprint
  simp only [scribe]
  cases Scribe.writeAll policy batch.expressions ⟨_, { fresh }⟩ <;> rfl

theorem fresh_le_fingerprint (batch : Batch) (policy : Binding) (fresh : Nat) :
    fresh ≤ (batch.fingerprint policy fresh).2 := by
  obtain ⟨binder, grown, ended⟩ := batch.counter_of_fingerprint policy
    (fun binder => fresh ≤ binder.fresh)
    (fun binder item grown => Nat.le_trans grown (binder.fresh_le_token policy item))
    (Nat.le_refl fresh)
  rw [ended]
  exact grown

theorem spelling_allUnique (batch : Batch) (fresh : Nat) :
    (batch.spelling .allUnique fresh).toList =
      batch.order.mark :: Token.spelled (Symbol.uniqueTokens fresh batch.symbols) := by
  have written := (Binder.tokens_allUnique { fresh } batch.items_symbols).1
  have joined : (String.join (({ fresh } : Binder).tokens .allUnique batch.items)).toList =
      Token.spelled (Symbol.uniqueTokens fresh batch.symbols) := by
    rw [written, String.toList_join, Token.spelled, List.flatMap_map]
  rw [spelling, String.toList_append, joined]
  simp

/-- A fingerprint with unique numbering spells the batch with the numbers that come
next, one for each place where a buffer stands. -/
theorem fingerprint_allUnique_of_ok {batch : Batch} {fresh : Nat} {name : Fingerprint}
    (named : (batch.fingerprint .allUnique fresh).1 = .ok name) :
    name.text.toList =
        batch.order.mark :: Token.spelled (Symbol.uniqueTokens fresh batch.symbols) ∧
      (batch.fingerprint .allUnique fresh).2 = fresh + batch.ids.length := by
  by_cases fits : (batch.spelling .allUnique fresh).length ≤ Fingerprint.lengthLimit
  · rw [fingerprint_of_fits fits] at named ⊢
    cases named
    exact ⟨batch.spelling_allUnique fresh,
      (Binder.tokens_allUnique { fresh } batch.items_symbols).2⟩
  · rw [fingerprint_eq, if_neg fits] at named
    cases named

theorem fingerprint_allUnique_of_short {batch : Batch} {fresh : Nat}
    (short : (Token.spelled (Symbol.uniqueTokens fresh batch.symbols)).length <
      Fingerprint.lengthLimit) :
    batch.fingerprint .allUnique fresh =
      (.ok ⟨String.ofList
        (batch.order.mark :: Token.spelled (Symbol.uniqueTokens fresh batch.symbols))⟩,
        fresh + batch.ids.length) := by
  have text : batch.spelling .allUnique fresh = String.ofList
      (batch.order.mark :: Token.spelled (Symbol.uniqueTokens fresh batch.symbols)) := by
    rw [← spelling_allUnique, String.ofList_toList]
  have fits : (batch.spelling .allUnique fresh).length ≤ Fingerprint.lengthLimit := by
    rw [text, String.length_ofList, List.length_cons]
    exact short
  have taken := (Binder.tokens_allUnique { fresh } batch.items_symbols).2
  rw [fingerprint_of_fits fits, text, taken]
  rfl

/-- Numbering by handle neither looks at the counter nor moves it. -/
theorem fingerprint_toHandle (batch : Batch) (fresh : Nat) :
    batch.fingerprint .toHandle fresh = (batch.programName, fresh) := by
  have sameText : batch.spelling .toHandle fresh = batch.spelling .toHandle 0 := by
    apply String.toList_injective
    rw [spelling_toHandle, spelling_toHandle]
  have sameAnswer : (batch.fingerprint .toHandle fresh).1 = batch.programName := by
    rw [programName, fingerprint_eq, fingerprint_eq, sameText]
  obtain ⟨binder, unmoved, ended⟩ := batch.counter_of_fingerprint .toHandle
    (fun binder => binder.fresh = fresh)
    (fun binder item unmoved => (binder.fresh_token_toHandle item).trans unmoved) rfl
  exact Prod.ext sameAnswer (ended.trans unmoved)

/-- Numbers that are taken at different times lead to different fingerprints, whatever
the batches are. -/
theorem fingerprint_ne_of_later {left right : Batch} {earlier later : Nat}
    {leftName rightName : Fingerprint} (leftReaches : left.ids ≠ [])
    (rightReaches : right.ids ≠ [])
    (leftNamed : (left.fingerprint .allUnique earlier).1 = .ok leftName)
    (rightNamed : (right.fingerprint .allUnique later).1 = .ok rightName)
    (apart : (left.fingerprint .allUnique earlier).2 ≤ later)
    (few : (right.fingerprint .allUnique later).2 ≤ Size.wordCount) : leftName ≠ rightName := by
  obtain ⟨leftText, leftTaken⟩ := fingerprint_allUnique_of_ok leftNamed
  obtain ⟨rightText, rightTaken⟩ := fingerprint_allUnique_of_ok rightNamed
  obtain ⟨leftCount, leftSome⟩ := Nat.exists_eq_succ_of_ne_zero
    (mt List.eq_nil_of_length_eq_zero leftReaches)
  obtain ⟨rightCount, rightSome⟩ := Nat.exists_eq_succ_of_ne_zero
    (mt List.eq_nil_of_length_eq_zero rightReaches)
  rintro rfl
  have sameTokens := Token.spelled_injective (List.cons.inj (leftText.symm.trans rightText)).2
  have sameNumbers := congrArg (List.filterMap Token.number?) sameTokens
  rw [Symbol.numbers_uniqueTokens, Symbol.numbers_uniqueTokens, ← ids, ← ids, leftSome,
    rightSome, List.range'_succ, List.range'_succ] at sameNumbers
  have sameFirst : Size.word earlier = Size.word later := (List.cons.inj sameNumbers).1
  have laterSmall : later < Size.wordCount := by omega
  have earlierSmall : earlier < Size.wordCount := by omega
  rw [Size.word_eq_self earlierSmall, Size.word_eq_self laterSmall] at sameFirst
  omega

/-- The answers to requests for fingerprints, one after another, and how many unique
numbers are handed out by then. -/
def fingerprints : List (Batch × Binding) → Nat → List (Except Error Fingerprint) × Nat
  | [], fresh => ([], fresh)
  | (batch, policy) :: rest, fresh =>
      let (answer, taken) := batch.fingerprint policy fresh
      let (answers, total) := fingerprints rest taken
      (answer :: answers, total)

theorem fresh_le_fingerprints (requests : List (Batch × Binding)) (fresh : Nat) :
    fresh ≤ (fingerprints requests fresh).2 := by
  induction requests generalizing fresh with
  | nil => exact Nat.le_refl _
  | cons request rest inductionHypothesis =>
      exact Nat.le_trans (fresh_le_fingerprint request.1 request.2 fresh) (inductionHypothesis _)

/-- Every request is answered at some state of the counter, and the later requests go
on from where it ends. -/
theorem fingerprints_split {requests : List (Batch × Binding)} (fresh : Nat) {index : Nat}
    {batch : Batch} {policy : Binding} (asked : requests[index]? = some (batch, policy)) :
    ∃ taken, fresh ≤ taken ∧
      (fingerprints requests fresh).1[index]? = some (batch.fingerprint policy taken).1 ∧
      (fingerprints requests fresh).2 =
        (fingerprints (requests.drop (index + 1)) (batch.fingerprint policy taken).2).2 ∧
      ∀ later, (fingerprints requests fresh).1[index + 1 + later]? =
        (fingerprints (requests.drop (index + 1))
          (batch.fingerprint policy taken).2).1[later]? := by
  induction requests generalizing index fresh with
  | nil => simp at asked
  | cons first rest inductionHypothesis =>
      cases index with
      | zero =>
          obtain rfl : first = (batch, policy) := by simpa using asked
          refine ⟨fresh, Nat.le_refl _, rfl, rfl, ?_⟩
          intro later
          rw [Nat.zero_add, Nat.add_comm]
          rfl
      | succ index =>
          obtain ⟨taken, grown, answered, total, others⟩ :=
            inductionHypothesis (first.1.fingerprint first.2 fresh).2 asked
          have counted := fresh_le_fingerprint first.1 first.2 fresh
          refine ⟨taken, Nat.le_trans counted grown, answered, total, ?_⟩
          intro later
          have place : index + 1 + 1 + later = index + 1 + later + 1 := by omega
          rw [place]
          exact others later

/-- In a run of requests that does not exhaust the counter, no two fingerprints with
unique numbering are equal, and numbering by handle answers as it does alone. -/
theorem fingerprints_never_repeat (requests : List (Batch × Binding))
    (few : (fingerprints requests 0).2 ≤ Size.wordCount) :
    (∀ (first second : Nat) (left right : Batch) (leftName rightName : Fingerprint),
        first ≠ second →
        requests[first]? = some (left, .allUnique) → left.ids ≠ [] →
        (fingerprints requests 0).1[first]? = some (.ok leftName) →
        requests[second]? = some (right, .allUnique) → right.ids ≠ [] →
        (fingerprints requests 0).1[second]? = some (.ok rightName) →
        leftName.text ≠ rightName.text) ∧
      ∀ (index : Nat) (batch : Batch), requests[index]? = some (batch, .toHandle) →
        (fingerprints requests 0).1[index]? = some batch.programName := by
  have ordered (first later : Nat) (left right : Batch) (leftName rightName : Fingerprint)
      (leftAsked : requests[first]? = some (left, .allUnique)) (leftReaches : left.ids ≠ [])
      (leftAnswer : (fingerprints requests 0).1[first]? = some (.ok leftName))
      (rightAsked : requests[first + 1 + later]? = some (right, .allUnique))
      (rightReaches : right.ids ≠ [])
      (rightAnswer : (fingerprints requests 0).1[first + 1 + later]? = some (.ok rightName)) :
      leftName ≠ rightName := by
    obtain ⟨earlier, -, leftAnswered, leftTotal, others⟩ :=
      fingerprints_split 0 leftAsked
    rw [← List.getElem?_drop] at rightAsked
    obtain ⟨taken, apart, rightAnswered, rightTotal, -⟩ :=
      fingerprints_split (left.fingerprint .allUnique earlier).2 rightAsked
    have bounded : (right.fingerprint .allUnique taken).2 ≤ Size.wordCount := by
      calc (right.fingerprint .allUnique taken).2
          ≤ (fingerprints ((requests.drop (first + 1)).drop (later + 1))
              (right.fingerprint .allUnique taken).2).2 := fresh_le_fingerprints _ _
        _ = (fingerprints requests 0).2 := (leftTotal.trans rightTotal).symm
        _ ≤ Size.wordCount := few
    rw [leftAnswer] at leftAnswered
    rw [others later, rightAnswered] at rightAnswer
    exact fingerprint_ne_of_later leftReaches rightReaches (Option.some.inj leftAnswered).symm
      (Option.some.inj rightAnswer) apart bounded
  refine ⟨?unique, ?byHandle⟩
  case unique =>
    intro first second left right leftName rightName apart leftAsked leftReaches leftAnswer
      rightAsked rightReaches rightAnswer sameText
    have sameName : leftName = rightName := congrArg Fingerprint.mk sameText
    rcases Nat.lt_or_gt_of_ne apart with before | after
    · obtain ⟨later, rfl⟩ := Nat.exists_eq_add_of_lt before
      rw [Nat.add_right_comm] at rightAsked rightAnswer
      exact ordered first later left right leftName rightName leftAsked leftReaches leftAnswer
        rightAsked rightReaches rightAnswer sameName
    · obtain ⟨later, rfl⟩ := Nat.exists_eq_add_of_lt after
      rw [Nat.add_right_comm] at leftAsked leftAnswer
      exact ordered second later right left rightName leftName rightAsked rightReaches rightAnswer
        leftAsked leftReaches leftAnswer sameName.symm
  case byHandle =>
    intro index batch asked
    obtain ⟨taken, -, answered, -⟩ := fingerprints_split 0 asked
    rw [answered, fingerprint_toHandle]

section Scaling

variable {target x : BufferId} {length : UInt64} {factor : Float}

theorem scaling_uniqueTokens (fresh : Nat) :
    Symbol.uniqueTokens fresh (scaling target x length factor).symbols =
      [.operator .assign, .buffer .vector .f32 (Size.word fresh), .operator .scale,
        .buffer .vector .f32 (Size.word (fresh + 1)), .scalar .f32] := by
  rw [scaling_symbols]
  rfl

theorem scaling_ids : (scaling target x length factor).ids = [target, x] := by
  rw [ids, scaling_symbols]
  rfl

theorem scaling_first_unique :
    (scaling target x length factor).fingerprint .allUnique 0 = (.ok ⟨"sasvf0scvf1hf"⟩, 2) := by
  have short : (Token.spelled (Symbol.uniqueTokens 0
      (scaling target x length factor).symbols)).length < Fingerprint.lengthLimit := by
    rw [scaling_uniqueTokens]
    decide
  rw [fingerprint_allUnique_of_short short, scaling_uniqueTokens, scaling_ids]
  rfl

theorem scaling_second_unique :
    (scaling target x length factor).fingerprint .allUnique 2 = (.ok ⟨"sasvf2scvf3hf"⟩, 4) := by
  have short : (Token.spelled (Symbol.uniqueTokens 2
      (scaling target x length factor).symbols)).length < Fingerprint.lengthLimit := by
    rw [scaling_uniqueTokens]
    decide
  rw [fingerprint_allUnique_of_short short, scaling_uniqueTokens, scaling_ids]
  rfl

/-- A batch is named three times, by handle in between. -/
def scalingRequests : List (Batch × Binding) :=
  [(scaling ⟨0⟩ ⟨1⟩ 4 2, .allUnique), (scaling ⟨0⟩ ⟨1⟩ 4 2, .toHandle),
    (scaling ⟨0⟩ ⟨1⟩ 4 2, .allUnique)]

theorem scalingRequests_answered :
    fingerprints scalingRequests 0 =
      ([.ok ⟨"sasvf0scvf1hf"⟩, .ok ⟨"sasvf0scvf1hf"⟩, .ok ⟨"sasvf2scvf3hf"⟩], 4) := by
  have byHandle : (scaling ⟨0⟩ ⟨1⟩ 4 2).fingerprint .toHandle 2 = (.ok ⟨"sasvf0scvf1hf"⟩, 2) := by
    rw [fingerprint_toHandle, scaling_programName (by decide)]
  simp only [fingerprints, scalingRequests, scaling_first_unique, byHandle, scaling_second_unique]

/-- The equal batches of a run get different names, and the name by handle stands beside
them unchanged. -/
theorem scalings_named_apart :
    (fingerprints scalingRequests 0).2 ≤ Size.wordCount ∧
      (fingerprints scalingRequests 0).1[1]? = some (scaling ⟨0⟩ ⟨1⟩ 4 2).programName ∧
      "sasvf0scvf1hf" ≠ "sasvf2scvf3hf" := by
  have few : (fingerprints scalingRequests 0).2 ≤ Size.wordCount := by
    rw [scalingRequests_answered]
    decide
  obtain ⟨unique, byHandle⟩ := fingerprints_never_repeat scalingRequests few
  have reaches : (scaling ⟨0⟩ ⟨1⟩ 4 2).ids ≠ [] := by
    rw [scaling_ids]
    exact List.cons_ne_nil _ _
  have firstAnswer : (fingerprints scalingRequests 0).1[0]? = some (.ok ⟨"sasvf0scvf1hf"⟩) := by
    rw [scalingRequests_answered]
    rfl
  have secondAnswer : (fingerprints scalingRequests 0).1[2]? = some (.ok ⟨"sasvf2scvf3hf"⟩) := by
    rw [scalingRequests_answered]
    rfl
  exact ⟨few, byHandle 1 _ rfl,
    unique 0 2 _ _ _ _ (by decide) rfl reaches firstAnswer rfl reaches secondAnswer⟩

end Scaling

end Batch

end KernelTuner
