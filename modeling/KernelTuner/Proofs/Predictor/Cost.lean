import Mathlib
import KernelTuner.Predictor.Basic

/-!
Contract: the order of costs and the choice of the cheapest.

Owns: that costs which are numbers are totally ordered; places whose cost is least;
`firstMinimum?_eq_some_iff`, by which the search finds the lowest of these places, and
finds none exactly when no cost is a number; lists padded with entries that are no numbers; and
`firstMinimum?_among_numbers`, by which such entries do not change which cost is found.
-/

set_option autoImplicit false

namespace KernelTuner

open Float.Model (UnpackedFloat)

/-! ### The order of numbers -/

/-- Where a number stands among all numbers: by class, then by exponent and mantissa.
Zeros of both signs stand at one place. -/
def costKey : UnpackedFloat → ℤ ×ₗ ℤ ×ₗ ℤ
  | .infinity .negative => toLex (-2, toLex (0, 0))
  | .finite .negative mantissa exponent _ => toLex (-1, toLex (-exponent, -mantissa))
  | .zero _ => toLex (0, toLex (0, 0))
  | .finite .positive mantissa exponent _ => toLex (1, toLex (exponent, mantissa))
  | .infinity .positive => toLex (2, toLex (0, 0))
  | .notANumber => toLex (3, toLex (0, 0))

theorem isLE_compare_then (exponent otherExponent : ℤ) (mantissa otherMantissa : ℕ) :
    ((compare exponent otherExponent).then (compare mantissa otherMantissa)).isLE = true ↔
      exponent < otherExponent ∨ exponent = otherExponent ∧ mantissa ≤ otherMantissa := by
  rcases lt_trichotomy exponent otherExponent with less | same | greater
  · simp [compare_lt_iff_lt.2 less, less]
  · subst same
    simp [Ordering.then, Nat.isLE_compare]
  · simp [compare_gt_iff_gt.2 greater, greater.not_gt, greater.ne']

theorem isGE_compare_then (exponent otherExponent : ℤ) (mantissa otherMantissa : ℕ) :
    ((compare exponent otherExponent).then (compare mantissa otherMantissa)).isGE = true ↔
      otherExponent < exponent ∨ exponent = otherExponent ∧ otherMantissa ≤ mantissa := by
  rcases lt_trichotomy exponent otherExponent with less | same | greater
  · simp [compare_lt_iff_lt.2 less, less.not_gt, less.ne]
  · subst same
    simp [Ordering.then, Nat.isGE_compare]
  · simp [compare_gt_iff_gt.2 greater, greater]

theorem isLE_compare_sign (left right : UnpackedFloat.Sign) :
    (compare left right).isLE = true ↔
      costKey (.infinity left) ≤ costKey (.infinity right) := by
  cases left <;> cases right <;> decide

/-- Numbers are compared as their keys are. -/
theorem unpacked_le_iff {left right : UnpackedFloat} (leftNumber : left.isNaN = false)
    (rightNumber : right.isNaN = false) :
    left.le right = true ↔ costKey left ≤ costKey right := by
  have infinities := isLE_compare_sign
  rcases left with (_ | _) | _ | _ | ⟨(_ | _), _, _, _⟩ <;>
    rcases right with (_ | _) | _ | _ | ⟨(_ | _), _, _, _⟩ <;>
    simp_all [UnpackedFloat.isNaN, UnpackedFloat.le, UnpackedFloat.compare, costKey,
      Prod.Lex.le_iff, isLE_compare_then, isGE_compare_then]

theorem cost_le_iff {left right : Float32} (leftNumber : left.isNaN = false)
    (rightNumber : right.isNaN = false) :
    left ≤ right ↔ costKey left.toModel.unpack ≤ costKey right.toModel.unpack := by
  have unfolded : left ≤ right ↔ left.toModel.unpack.le right.toModel.unpack = true :=
    decide_eq_true_iff
  rw [unfolded]
  exact unpacked_le_iff leftNumber rightNumber

theorem cost_le_refl {cost : Float32} (number : cost.isNaN = false) : cost ≤ cost :=
  (cost_le_iff number number).2 le_rfl

theorem cost_le_of_not_le {left right : Float32} (leftNumber : left.isNaN = false)
    (rightNumber : right.isNaN = false) (above : ¬ left ≤ right) : right ≤ left := by
  rw [cost_le_iff leftNumber rightNumber] at above
  exact (cost_le_iff rightNumber leftNumber).2 (le_of_not_ge above)

theorem cost_le_trans {left middle right : Float32} (leftNumber : left.isNaN = false)
    (middleNumber : middle.isNaN = false) (rightNumber : right.isNaN = false)
    (first : left ≤ middle) (second : middle ≤ right) : left ≤ right := by
  rw [cost_le_iff leftNumber middleNumber] at first
  rw [cost_le_iff middleNumber rightNumber] at second
  exact (cost_le_iff leftNumber rightNumber).2 (first.trans second)

theorem unpacked_compare_swap (left right : UnpackedFloat) :
    right.compare left = (left.compare right).map Ordering.swap := by
  rcases left with (_ | _) | _ | _ | ⟨(_ | _), _, _, _⟩ <;>
    rcases right with (_ | _) | _ | _ | ⟨(_ | _), _, _, _⟩ <;>
    first
    | rfl
    | simp [UnpackedFloat.compare, Ordering.swap_then, Nat.compare_swap, Int.compare_swap]

theorem cost_lt_iff {left right : Float32} (leftNumber : left.isNaN = false)
    (rightNumber : right.isNaN = false) : left < right ↔ ¬ right ≤ left := by
  have lt_unfolded : left < right ↔ left.toModel.unpack.lt right.toModel.unpack = true :=
    decide_eq_true_iff
  have le_unfolded (first second : Float32) :
      first ≤ second ↔ first.toModel.unpack.le second.toModel.unpack = true := decide_eq_true_iff
  have total := cost_le_of_not_le rightNumber leftNumber
  rw [le_unfolded, le_unfolded] at total
  rw [lt_unfolded, le_unfolded]
  unfold UnpackedFloat.lt
  unfold UnpackedFloat.le at total ⊢
  rw [unpacked_compare_swap left.toModel.unpack right.toModel.unpack] at total ⊢
  generalize left.toModel.unpack.compare right.toModel.unpack = order at total ⊢
  rcases order with _ | (_ | _ | _) <;> simp at total ⊢

/-! ### The cheapest -/

/-- A place whose cost is a number, and no other number is below it. -/
def Cheapest (costs : List Float32) (place : Nat) : Prop :=
  ∃ cost, costs[place]? = some cost ∧ cost.isNaN = false ∧
    ∀ other ∈ costs, other.isNaN = false → cost ≤ other

/-- What the search holds behind the costs it has seen: nothing, as long as none was a
number, or the first of the cheapest. -/
inductive Tracked (seen : List Float32) : Option (Nat × Float32) → Prop where
  | nothing (numberless : ∀ cost ∈ seen, cost.isNaN = true) : Tracked seen none
  | cheapest {place : Nat} {cost : Float32} (found : seen[place]? = some cost)
      (number : cost.isNaN = false)
      (least : ∀ other ∈ seen, other.isNaN = false → cost ≤ other)
      (first : ∀ earlier other, earlier < place → seen[earlier]? = some other →
        other.isNaN = false → ¬ other ≤ cost) :
      Tracked seen (some (place, cost))

namespace Tracked

variable {seen : List Float32} {best : Option (Nat × Float32)}

theorem lt_of_found {place : Nat} {cost : Float32} (found : seen[place]? = some cost) :
    place < seen.length :=
  (List.getElem?_eq_some_iff.1 found).1

theorem found_before {place earlier : Nat} {cost other : Float32} (inside : place ≤ seen.length)
    (before : earlier < place) (found : (seen ++ [cost])[earlier]? = some other) :
    seen[earlier]? = some other := by
  rwa [List.getElem?_append_left (by omega)] at found

/-- The best cost stays when the next one is not below it. -/
theorem stays {place : Nat} {held cost : Float32} (tracked : Tracked seen (some (place, held)))
    (above : cost.isNaN = false → held ≤ cost) :
    Tracked (seen ++ [cost]) (some (place, held)) := by
  cases tracked with
  | cheapest found number least first =>
      have inside := lt_of_found found
      refine .cheapest ?_ number ?_ ?_
      · rw [List.getElem?_append_left inside, found]
      · intro other member otherNumber
        rcases List.mem_append.1 member with earlier | last
        · exact least other earlier otherNumber
        · obtain rfl := List.mem_singleton.1 last
          exact above otherNumber
      · intro earlier other before otherFound
        exact first earlier other before (found_before inside.le before otherFound)

/-- The next cost is the best when it is below all numbers before it. -/
theorem moves {cost : Float32} (number : cost.isNaN = false)
    (below : ∀ other ∈ seen, other.isNaN = false → cost ≤ other ∧ ¬ other ≤ cost) :
    Tracked (seen ++ [cost]) (some (seen.length, cost)) := by
  refine .cheapest List.getElem?_concat_length number ?_ ?_
  · intro other member otherNumber
    rcases List.mem_append.1 member with earlier | last
    · exact (below other earlier otherNumber).1
    · rw [List.mem_singleton.1 last]
      exact cost_le_refl number
  · intro earlier other before found otherNumber
    have member := List.mem_of_getElem? (found_before le_rfl before found)
    exact (below other member otherNumber).2

/-- One more cost is tracked. -/
theorem keepCheaper (tracked : Tracked seen best) (cost : Float32) :
    Tracked (seen ++ [cost]) (keepCheaper best seen.length cost) := by
  unfold KernelTuner.keepCheaper
  by_cases isNaN : cost.isNaN = true
  · rw [if_pos isNaN]
    cases tracked with
    | nothing numberless =>
        refine .nothing fun other member => ?_
        rcases List.mem_append.1 member with earlier | last
        · exact numberless other earlier
        · rw [List.mem_singleton.1 last, isNaN]
    | cheapest found number least first =>
        refine (Tracked.cheapest found number least first).stays fun impossible => ?_
        rw [isNaN] at impossible
        cases impossible
  · rw [if_neg isNaN]
    rw [Bool.not_eq_true] at isNaN
    cases tracked with
    | nothing numberless =>
        refine .moves isNaN fun other member otherNumber => ?_
        rw [numberless other member] at otherNumber
        cases otherNumber
    | @cheapest place held found number least first =>
        simp only
        split
        · next above => exact (Tracked.cheapest found number least first).stays fun _ => above
        · next notAbove =>
            have below := cost_le_of_not_le number isNaN notAbove
            refine .moves isNaN fun other member otherNumber => ?_
            have heldLeast := least other member otherNumber
            refine ⟨cost_le_trans isNaN number otherNumber below heldLeast, ?_⟩
            exact fun otherBelow =>
              notAbove (cost_le_trans number otherNumber isNaN heldLeast otherBelow)

theorem firstMinimumFrom (tracked : Tracked seen best) (rest : List Float32) :
    Tracked (seen ++ rest) (firstMinimumFrom seen.length best rest) := by
  induction rest generalizing seen best with
  | nil => rwa [List.append_nil]
  | cons cost rest inductionHypothesis =>
      have tail := inductionHypothesis (tracked.keepCheaper cost)
      rwa [List.append_assoc, List.length_append] at tail

theorem isLeast {place : Nat} {cost : Float32} (tracked : Tracked seen (some (place, cost))) :
    IsLeast {place | Cheapest seen place} place := by
  cases tracked with
  | cheapest found number least first =>
      refine ⟨⟨cost, found, number, least⟩, ?_⟩
      rintro other ⟨otherCost, otherFound, otherNumber, otherLeast⟩
      by_contra before
      exact first other otherCost (Nat.lt_of_not_le before) otherFound otherNumber
        (otherLeast cost (List.mem_of_getElem? found) number)

end Tracked

variable {costs : List Float32} {place : Nat}

theorem firstMinimum?_tracked (costs : List Float32) :
    Tracked costs (firstMinimumFrom 0 none costs) := by
  have unseen : Tracked [] none := .nothing nofun
  exact unseen.firstMinimumFrom costs

/-- No place is found exactly when no cost is a number. -/
theorem firstMinimum?_eq_none_iff :
    firstMinimum? costs = none ↔ ∀ cost ∈ costs, cost.isNaN = true := by
  have tracked := firstMinimum?_tracked costs
  rw [firstMinimum?, Option.map_eq_none_iff]
  generalize firstMinimumFrom 0 none costs = best at tracked ⊢
  cases tracked with
  | nothing numberless => exact ⟨fun _ => numberless, fun _ => rfl⟩
  | cheapest found number least first =>
      refine ⟨nofun, fun numberless => ?_⟩
      rw [numberless _ (List.mem_of_getElem? found)] at number
      cases number

/-- The place that is found is the lowest of the cheapest. -/
theorem firstMinimum?_eq_some_iff :
    firstMinimum? costs = some place ↔ IsLeast {place | Cheapest costs place} place := by
  have tracked := firstMinimum?_tracked costs
  rw [firstMinimum?]
  generalize firstMinimumFrom 0 none costs = best at tracked ⊢
  cases tracked with
  | nothing numberless =>
      refine ⟨nofun, ?_⟩
      rintro ⟨⟨cost, found, number, _⟩, _⟩
      rw [numberless cost (List.mem_of_getElem? found)] at number
      cases number
  | cheapest found number least first =>
      have isLeast := (Tracked.cheapest found number least first).isLeast
      constructor
      · rintro ⟨⟩
        exact isLeast
      · intro other
        exact congrArg some (isLeast.unique other)

/-- The lowest of the cheapest places is the one whose cost is below all numbers before it. -/
theorem isLeast_cheapest_iff : IsLeast {place | Cheapest costs place} place ↔
    ∃ cost, costs[place]? = some cost ∧ cost.isNaN = false ∧
      (∀ other ∈ costs, other.isNaN = false → cost ≤ other) ∧
        ∀ earlier < place, ∀ other, costs[earlier]? = some other → other.isNaN = false →
          cost < other := by
  constructor
  · rintro ⟨⟨cost, found, number, least⟩, lowest⟩
    refine ⟨cost, found, number, least, ?_⟩
    intro earlier before other otherFound otherNumber
    rw [cost_lt_iff number otherNumber]
    intro otherBelow
    have cheapest : Cheapest costs earlier :=
      ⟨other, otherFound, otherNumber, fun third member thirdNumber =>
        cost_le_trans otherNumber number thirdNumber otherBelow (least third member thirdNumber)⟩
    exact Nat.not_lt_of_le (lowest cheapest) before
  · rintro ⟨cost, found, number, least, first⟩
    refine ⟨⟨cost, found, number, least⟩, ?_⟩
    rintro other ⟨otherCost, otherFound, otherNumber, otherLeast⟩
    by_contra before
    have below := first other (Nat.lt_of_not_le before) otherCost otherFound otherNumber
    rw [cost_lt_iff number otherNumber] at below
    exact below (otherLeast cost (List.mem_of_getElem? found) number)

/-! ### Padding -/

/-- Where an entry stands once another one has been put in at `gap`. -/
def stepAside (gap place : Nat) : Nat := if place < gap then place else place + 1

/-- Costs among which entries have been put that are no numbers, one after another and anywhere,
and the places to which the costs have moved. -/
inductive Padded (costs : List Float32) : List Float32 → (Nat → Nat) → Prop where
  | none : Padded costs costs id
  | insert {front back : List Float32} {moved : Nat → Nat} {entry : Float32}
      (padded : Padded costs (front ++ back) moved) (notNumber : entry.isNaN = true) :
      Padded costs (front ++ entry :: back) (stepAside front.length ∘ moved)

/-- The best cost so far, which has stepped aside. -/
def asideOf (gap : Nat) (kept : Nat × Float32) : Nat × Float32 := (stepAside gap kept.1, kept.2)

variable {wide front back : List Float32} {best : Option (Nat × Float32)} {gap index : Nat}
  {moved : Nat → Nat} {entry : Float32}

theorem stepAside_of_lt {place : Nat} (before : place < gap) : stepAside gap place = place :=
  if_pos before

theorem stepAside_of_le {place : Nat} (behind : gap ≤ place) : stepAside gap place = place + 1 :=
  if_neg (Nat.not_lt_of_le behind)

theorem getElem?_stepAside (place : Nat) :
    (front ++ entry :: back)[stepAside front.length place]? = (front ++ back)[place]? := by
  rcases Nat.lt_or_ge place front.length with before | behind
  · rw [stepAside_of_lt before, List.getElem?_append_left before, List.getElem?_append_left before]
  · rw [stepAside_of_le behind, List.getElem?_append_right (by omega),
      List.getElem?_append_right behind, Nat.sub_add_comm behind, List.getElem?_cons_succ]

theorem keepCheaper_aside (behind : gap ≤ index) (cost : Float32) :
    keepCheaper (best.map (asideOf gap)) (index + 1) cost =
      (keepCheaper best index cost).map (asideOf gap) := by
  have moves : asideOf gap (index, cost) = (index + 1, cost) := by
    rw [asideOf, stepAside_of_le behind]
  unfold keepCheaper
  cases best with
  | none => split <;> simp [moves]
  | some kept =>
      simp only [Option.map_some, asideOf]
      split
      · rfl
      · split
        · rfl
        · exact congrArg some moves.symm

theorem firstMinimumFrom_aside (behind : gap ≤ index) :
    firstMinimumFrom (index + 1) (best.map (asideOf gap)) back =
      (firstMinimumFrom index best back).map (asideOf gap) := by
  induction back generalizing index best with
  | nil => rfl
  | cons cost rest inductionHypothesis =>
      rw [firstMinimumFrom, keepCheaper_aside behind]
      exact inductionHypothesis (Nat.le_succ_of_le behind)

theorem firstMinimumFrom_append :
    firstMinimumFrom index best (front ++ back) =
      firstMinimumFrom (index + front.length) (firstMinimumFrom index best front) back := by
  induction front generalizing index best with
  | nil => rfl
  | cons cost rest inductionHypothesis =>
      rw [List.cons_append, firstMinimumFrom, inductionHypothesis, List.length_cons,
        Nat.add_right_comm, Nat.add_assoc, firstMinimumFrom]

/-- The search passes over an entry that is no number. -/
theorem firstMinimum?_insert (notNumber : entry.isNaN = true) :
    firstMinimum? (front ++ entry :: back) =
      (firstMinimum? (front ++ back)).map (stepAside front.length) := by
  have passes : keepCheaper (firstMinimumFrom 0 none front) (0 + front.length) entry =
      firstMinimumFrom 0 none front := if_pos notNumber
  -- What was best in front of the entry has not moved.
  have stays : (firstMinimumFrom 0 none front).map (asideOf front.length) =
      firstMinimumFrom 0 none front := by
    have tracked := firstMinimum?_tracked front
    generalize firstMinimumFrom 0 none front = best at tracked ⊢
    cases tracked with
    | nothing numberless => rfl
    | cheapest found number least first =>
        rw [Option.map_some, asideOf, stepAside_of_lt (Tracked.lt_of_found found)]
  have aside : firstMinimumFrom 0 none (front ++ entry :: back) =
      (firstMinimumFrom 0 none (front ++ back)).map (asideOf front.length) := by
    rw [firstMinimumFrom_append, firstMinimumFrom_append, firstMinimumFrom, passes,
      ← firstMinimumFrom_aside (Nat.le_add_left _ _), stays]
  rw [firstMinimum?, firstMinimum?, aside, Option.map_map, Option.map_map]
  rfl

namespace Padded

theorem getElem? (padded : Padded costs wide moved) (place : Nat) :
    wide[moved place]? = costs[place]? := by
  induction padded with
  | none => rfl
  | insert _ _ inductionHypothesis =>
      rw [Function.comp_apply, getElem?_stepAside, inductionHypothesis]

theorem firstMinimum?_eq (padded : Padded costs wide moved) :
    firstMinimum? wide = (firstMinimum? costs).map moved := by
  induction padded with
  | none => rw [Option.map_id, id]
  | insert _ notNumber inductionHypothesis =>
      rw [firstMinimum?_insert notNumber, inductionHypothesis, Option.map_map]

end Padded

/-- The search finds nothing exactly when no cost is a number. Otherwise it finds the number that
none is below, and that is below all numbers before it. Entries that are no numbers, wherever they
are put, leave it at that. -/
theorem firstMinimum?_among_numbers (costs : List Float32) :
    (firstMinimum? costs = none ↔ ∀ cost ∈ costs, cost.isNaN = true) ∧
      (∀ place, firstMinimum? costs = some place ↔
        ∃ cost, costs[place]? = some cost ∧ cost.isNaN = false ∧
          (∀ other ∈ costs, other.isNaN = false → cost ≤ other) ∧
            ∀ earlier < place, ∀ other, costs[earlier]? = some other → other.isNaN = false →
              cost < other) ∧
      ∀ wide moved, Padded costs wide moved →
        firstMinimum? wide = (firstMinimum? costs).map moved ∧
          ∀ place, wide[moved place]? = costs[place]? := by
  refine ⟨firstMinimum?_eq_none_iff, fun place => ?_, fun wide moved padded => ?_⟩
  · rw [firstMinimum?_eq_some_iff, isLeast_cheapest_iff]
  · exact ⟨padded.firstMinimum?_eq, padded.getElem?⟩

/-- The first of two equal costs still wins behind two entries that are no numbers. -/
theorem firstMinimum?_padded_tie :
    ((0 / 0 : Float32).isNaN = true ∧
      Padded [2, 1, 1] [0 / 0, 2, 0 / 0, 1, 1] (stepAside 2 ∘ stepAside 0 ∘ id)) ∧
      firstMinimum? [0 / 0, 2, 0 / 0, 1, 1] = some 3 := by
  have notNumber : (0 / 0 : Float32).isNaN = true := by decide +kernel
  have once : Padded [2, 1, 1] ([] ++ 0 / 0 :: [2, 1, 1]) (stepAside 0 ∘ id) :=
    .insert .none notNumber
  have padded : Padded [2, 1, 1] ([0 / 0, 2] ++ 0 / 0 :: [1, 1]) (stepAside 2 ∘ stepAside 0 ∘ id) :=
    .insert once notNumber
  refine ⟨⟨notNumber, padded⟩, ?_⟩
  have first : firstMinimum? [2, 1, 1] = some 1 := by decide +kernel
  calc firstMinimum? [0 / 0, 2, 0 / 0, 1, 1]
      = (firstMinimum? [2, 1, 1]).map (stepAside 2 ∘ stepAside 0 ∘ id) :=
        ((firstMinimum?_among_numbers [2, 1, 1]).2.2 _ _ padded).1
    _ = some 3 := by rw [first]; rfl

end KernelTuner
