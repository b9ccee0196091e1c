import KernelTuner.Proofs.Kernel.Portions
import KernelTuner.Proofs.Kernel.Segments
import Mathlib.Algebra.BigOperators.Group.Finset.Basic
import Mathlib.Data.Nat.Log

/-!
Contract: sums that work items build up alone, and that a group folds in local memory.

Owns: the effect of loops that add to a variable; the distance at which a fold begins; the segments
of a fold, in which nobody races (`Folds.orderly`); and `Folds.shared_of_reaching`, by which a fold
over any number of entries, power of two or not, leaves their sum in the first entry of each row.

Does not own: what the kernels of a variant add up.
-/

set_option autoImplicit false

namespace KernelTuner.Kernel

open Function (update)

variable {ι α : Type}

/-- Elements are added as in a commutative monoid. -/
structure Meaning.Sums [AddCommMonoid α] (meaning : Meaning α) : Prop where
  add : ∀ left right, meaning.operate .add left right = left + right
  zero : meaning.number 0 = 0

/-- Exact arithmetic on natural numbers. -/
def Meaning.natural : Meaning Nat where
  operate
    | .add, left, right => left + right
    | .sub, left, right => left - right
    | .mul, left, right => left * right
    | .div, left, right => left / right
  number := id

theorem Meaning.natural_sums : Meaning.natural.Sums := ⟨fun _ _ => rfl, rfl⟩

/-! ### Accumulation -/

section Accumulation

variable {meaning : Meaning α} {seat : Seat} {memory : Memory α} {name : String}

@[simp] theorem Memory.registers_setVariable_self {value : Nat → α} :
    (memory.setVariable name value).registers name = value := by
  simp [setVariable]

theorem Memory.setVariable_self : memory.setVariable name (memory.registers name) = memory := by
  simp [setVariable]

theorem Memory.setVariable_setVariable {first second : Nat → α} :
    (memory.setVariable name first).setVariable name second = memory.setVariable name second := by
  simp [setVariable]

theorem Step.Idle.keeps {step : Step} (idle : step.Idle) (sources : List String) :
    step.instruction.Keeps sources := by
  obtain ⟨name, value, isIndex⟩ := idle
  rw [isIndex]
  trivial

theorem performAll_idle {steps : List Step} (idle : ∀ step ∈ steps, step.Idle) :
    performAll meaning seat memory steps = memory := by
  induction steps with
  | nil => rfl
  | cons step rest inductionHypothesis =>
      obtain ⟨⟨declared, value, isIndex⟩, later⟩ := List.forall_mem_cons.1 idle
      rw [performAll_cons, isIndex]
      exact inductionHypothesis later

/-- Turns of a loop that add to a variable add the sum of their terms, lane by lane. The terms do
not depend on the variable. -/
theorem performAll_turns [AddCommMonoid α] (sums : meaning.Sums) {turns : List Nat}
    {locals : Nat → Variables} {value : Value} (term : Nat → Nat → α)
    (each : ∀ turn ∈ turns, ∀ (found : Nat → α) (lane : Nat),
      value.inLane meaning seat (locals turn) (memory.setVariable name found) lane =
        term turn lane) :
    performAll meaning seat memory
        (turns.flatMap fun turn => [⟨locals turn, .accumulate (.var name) value⟩]) =
      memory.setVariable name fun lane =>
        memory.registers name lane + (turns.map fun turn => term turn lane).sum := by
  induction turns generalizing memory with
  | nil =>
      simp only [List.map_nil, List.sum_nil, add_zero]
      exact Memory.setVariable_self.symm
  | cons turn rest inductionHypothesis =>
      rw [List.forall_mem_cons] at each
      obtain ⟨first, later⟩ := each
      have behind : Instruction.perform meaning seat (locals turn) memory
          (.accumulate (.var name) value) =
            memory.setVariable name fun lane => memory.registers name lane + term turn lane := by
        simp only [Instruction.perform, sums.add, ← first (memory.registers name),
          Memory.setVariable_self]
        rfl
      rw [List.flatMap_cons, List.singleton_append, performAll_cons, behind, inductionHypothesis]
      · simp only [Memory.registers_setVariable_self, Memory.setVariable_setVariable, List.map_cons,
          List.sum_cons, add_assoc]
      · intro other listed found lane
        rw [Memory.setVariable_setVariable]
        exact later other listed found lane

end Accumulation

/-! ### Strides -/

/-- A distance between entries that is halved down to one, or none. -/
def IsStride (stride : Nat) : Prop := stride = 0 ∨ ∃ exponent, stride = 2 ^ exponent

/-- The entries that are still to be folded in front of a stride. -/
def reach (stride : Nat) : Nat := if stride = 0 then 1 else 2 * stride

theorem IsStride.half {stride : Nat} (isStride : IsStride stride) (some : 0 < stride) :
    IsStride (stride / 2) ∧ reach (stride / 2) = stride := by
  obtain ⟨exponent, rfl⟩ := isStride.resolve_left some.ne'
  cases exponent with
  | zero => exact ⟨.inl rfl, rfl⟩
  | succ exponent =>
      have half : 2 ^ (exponent + 1) / 2 = 2 ^ exponent := by omega
      have positive : 2 ^ exponent ≠ 0 := (Nat.two_pow_pos _).ne'
      rw [half, reach, if_neg positive]
      exact ⟨.inr ⟨exponent, rfl⟩, by omega⟩

theorem leastPowerOfTwo_eq_two_pow_clog (size : Nat) :
    Size.leastPowerOfTwo size = 2 ^ Nat.clog 2 size := by
  unfold Size.leastPowerOfTwo
  split
  · next small => rw [Nat.clog_of_right_le_one small, Nat.pow_zero]
  · next several =>
      refine congrArg (2 ^ ·) (eq_of_forall_ge_iff fun exponent => ?_)
      have some : size - 1 ≠ 0 := by omega
      rw [Nat.clog_le_iff_le_pow Nat.one_lt_two, Nat.add_one_le_iff, Nat.log2_lt some]
      omega

theorem leastPowerOfTwo_le {size exponent : Nat} (small : size ≤ 2 ^ exponent) :
    Size.leastPowerOfTwo size ≤ 2 ^ exponent := by
  rw [leastPowerOfTwo_eq_two_pow_clog]
  exact Nat.pow_le_pow_right Nat.two_pos (Nat.clog_le_of_le_pow small)

/-- Half of the least power of two that is not below the size reaches all entries. -/
theorem leastPowerOfTwo_half_reaches (size : Nat) :
    IsStride (Size.leastPowerOfTwo size / 2) ∧ size ≤ reach (Size.leastPowerOfTwo size / 2) := by
  have covered := Nat.le_pow_clog Nat.one_lt_two size
  rw [leastPowerOfTwo_eq_two_pow_clog]
  generalize Nat.clog 2 size = exponent at covered ⊢
  cases exponent with
  | zero => exact ⟨.inl rfl, covered⟩
  | succ exponent =>
      have half : 2 ^ (exponent + 1) / 2 = 2 ^ exponent := by omega
      have positive : 2 ^ exponent ≠ 0 := (Nat.two_pow_pos _).ne'
      rw [half, reach, if_neg positive]
      exact ⟨.inr ⟨exponent, rfl⟩, by omega⟩

/-- A fold begins with this distance, as long as the power of two is a machine word. -/
theorem foldStart_eq_half {size : Nat} (small : size ≤ 2 ^ 63) :
    foldStart size = Size.leastPowerOfTwo size / 2 := by
  have limited : Size.leastPowerOfTwo size < Size.wordCount :=
    lt_of_le_of_lt (leastPowerOfTwo_le small) (by decide)
  rw [foldStart, Size.word_eq_self limited]

/-- A fold begins with a stride that reaches all entries. -/
theorem foldStart_reaches {size : Nat} (small : size ≤ Size.kernelLimit) :
    IsStride (foldStart size) ∧ size ≤ reach (foldStart size) := by
  rw [foldStart_eq_half (le_trans small (by decide))]
  exact leastPowerOfTwo_half_reaches size

/-! ### Folds -/

/-- A fold of local memory whose first distance is given. -/
def foldFrom (start : Nat) (lane : String) (place : Index → Place) (size : Nat) : List Statement :=
  [.run .barrier,
    .loop ⟨"stride", .literal start, .greater (.var "stride") (.literal 0), .halve⟩ [
      .guarded (.both (.less (.var lane) (.var "stride"))
          (.less (.add (.var lane) (.var "stride")) (.literal size)))
        (.accumulate (place (.var lane)) (.read (place (.add (.var lane) (.var "stride"))))) false,
      .run .barrier]]

theorem localFold_eq_foldFrom {lane : String} {place : Index → Place} {size : Nat}
    (small : size ≤ 2 ^ 63) :
    localFold lane place size = foldFrom (Size.leastPowerOfTwo size / 2) lane place size := by
  rw [← foldStart_eq_half small]
  rfl

/-- Work items in rows of `size`, in which each has an entry of an array of its own. -/
structure Folds (seat : ι → Seat) (locals : ι → Variables) (name array : String)
    (front : List Index) (size : Nat) (lane : ι → Nat) (row : ι → List Nat) : Prop where
  laneKnown : ∀ item stride, update (locals item) "stride" stride name = lane item
  rowKnown : ∀ item stride,
    front.map (Index.eval (seat item) (update (locals item) "stride" stride)) = row item
  inside : ∀ item, lane item < size
  only : ∀ item other, row item = row other → lane item = lane other → item = other
  whole : ∀ item, ∀ entry < size, ∃ other, row other = row item ∧ lane other = entry

/-- An entry of a row. -/
def entryOf (array : String) (row : List Nat) (entry : Nat) : Touch := ⟨array, row ++ [entry]⟩

section Definitions

variable (seat : ι → Seat) (locals : ι → Variables) (name array : String) (front : List Index)
  (size : Nat)

/-- The steps of a work item for a stride. -/
def strideSteps (stride : Nat) (item : ι) : List Step :=
  let inner := update (locals item) "stride" stride
  let other : Index := .add (.var name) (.var "stride")
  if Condition.Holds (seat item) inner
      (.both (.less (.var name) (.var "stride")) (.less other (.literal size))) then
    [⟨inner, .accumulate (.element array (front ++ [.var name]))
      (.read (.element array (front ++ [other])))⟩]
  else []

/-- What a group does for a stride. -/
def strideRound (stride : Nat) : List (Segment ι) :=
  [.work (strideSteps seat locals name array front size stride),
    .barrier fun item => update (locals item) "stride" stride]

/-- What a group does for a fold with these strides. -/
def foldSegments (strides : List Nat) : List (Segment ι) :=
  .barrier locals :: strides.flatMap (strideRound seat locals name array front size)

end Definitions

section Folds

variable {seat : ι → Seat} {locals : ι → Variables} {name array : String} {front : List Index}
  {size stride start : Nat} {strides : List Nat} {lane : ι → Nat} {row : ι → List Nat}

theorem entryOf_inj {first second : List Nat} {entry other : Nat} :
    entryOf array first entry = entryOf array second other ↔ first = second ∧ entry = other := by
  simp [entryOf]

/-- The loop of a fold takes its counter from its start down. -/
theorem groupUnrolls_foldFrom
    (counting : Counting (fun value => value / 2) (fun value => 0 < value) start strides) :
    GroupUnrolls seat locals
      (foldFrom start name (fun index => .element array (front ++ [index])) size)
      (foldSegments seat locals name array front size strides) := by
  have waits : GroupUnrolls seat locals [.run .barrier] [.barrier locals] := .barrier
  refine waits.append (.loop (fun item => ?_) fun stride _ => ?_)
  · have goes : (fun value => Condition.Holds (seat item) (update (locals item) "stride" value)
        (.greater (.var "stride") (.literal 0))) = fun value => 0 < value := by
      funext value
      simp [Condition.Holds, Index.eval]
    show Counting (fun value => value / 2) _ start strides
    rwa [← goes] at counting
  · have adds : GroupUnrolls seat (fun item => update (locals item) "stride" stride)
        [.guarded (.both (.less (.var name) (.var "stride"))
          (.less (.add (.var name) (.var "stride")) (.literal size)))
          (.accumulate (.element array (front ++ [.var name]))
            (.read (.element array (front ++ [.add (.var name) (.var "stride")])))) false]
        [.work (strideSteps seat locals name array front size stride)] :=
      .work fun item => blockUnrolls_singleton.2 rfl
    exact adds.append .barrier

theorem groupUnrolls_localFold
    (counting : Counting (fun value => value / 2) (fun value => 0 < value) (foldStart size) strides) :
    GroupUnrolls seat locals
      (localFold name (fun index => .element array (front ++ [index])) size)
      (foldSegments seat locals name array front size strides) :=
  groupUnrolls_foldFrom counting

theorem foldSegments_plain :
    ∀ segment ∈ foldSegments seat locals name array front size strides, segment.Plain := by
  intro segment listed
  simp only [foldSegments, strideRound, List.mem_cons, List.mem_flatMap, List.not_mem_nil,
    or_false] at listed
  rcases listed with rfl | ⟨stride, _, rfl | rfl⟩
  · trivial
  · intro item
    simp only [strideSteps]
    split
    · simp [BarrierFree]
    · exact nofun
  · trivial

section Orderly

variable {owned last : ι → Set Touch}

/-- The entries that a work item deals with for a stride. -/
def strideOwned (array : String) (lane : ι → Nat) (row : ι → List Nat) (stride : Nat) (item : ι) :
    Set Touch :=
  {touch | lane item < stride ∧ ∃ entry, touch = entryOf array (row item) entry ∧
    (entry = lane item ∨ entry = lane item + stride)}

variable (folds : Folds seat locals name array front size lane row)
include folds

theorem Folds.entry_eq (item : ι) (index : Index) :
    (⟨array, (front ++ [index]).map
      (Index.eval (seat item) (update (locals item) "stride" stride))⟩ : Touch) =
      entryOf array (row item) (index.eval (seat item) (update (locals item) "stride" stride)) := by
  rw [List.map_append, folds.rowKnown item stride]
  rfl

theorem Folds.eval_own (item : ι) :
    (Index.var name).eval (seat item) (update (locals item) "stride" stride) = lane item :=
  folds.laneKnown item stride

theorem Folds.eval_far (item : ι) : (Index.add (.var name) (.var "stride")).eval (seat item)
    (update (locals item) "stride" stride) = lane item + stride := by
  simp [Index.eval, folds.laneKnown]

/-- For a stride, a work item adds the entry at this distance to its own. -/
theorem Folds.strideSteps_eq (item : ι) : strideSteps seat locals name array front size stride item =
    if lane item < stride ∧ lane item + stride < size then
      [⟨update (locals item) "stride" stride, .accumulate (.element array (front ++ [.var name]))
        (.read (.element array (front ++ [.add (.var name) (.var "stride")])))⟩]
    else [] := by
  simp [strideSteps, Condition.Holds, Index.eval, folds.laneKnown]

theorem Folds.strideSteps_respect (item : ι) : Respects seat (strideOwned array lane row stride) item
    (strideSteps seat locals name array front size stride item) := by
  rw [folds.strideSteps_eq]
  split
  · next near =>
      have alone (other : ι) (entry : Nat)
          (mine : entry = lane item ∨ entry = lane item + stride)
          (owns : entryOf array (row item) entry ∈ strideOwned array lane row stride other) :
          other = item := by
        obtain ⟨near, again, same, theirs⟩ := owns
        obtain ⟨sameRow, rfl⟩ := entryOf_inj.1 same
        refine folds.only other item sameRow.symm ?_
        omega
      intro step listed
      obtain rfl := List.mem_singleton.1 listed
      constructor
      · intro touch writes
        obtain rfl := List.mem_singleton.1 writes
        rw [folds.entry_eq, folds.eval_own]
        exact ⟨near.1, _, rfl, .inl rfl⟩
      · intro touch inside other owns
        rcases inside with rfl | rfl
        · rw [folds.entry_eq, folds.eval_own] at owns
          exact alone other _ (.inl rfl) owns
        · rw [folds.entry_eq, folds.eval_far] at owns
          exact alone other _ (.inr rfl) owns
  · exact Respects.nil

/-- Nobody races in a fold, whoever owns the elements in front of it and behind it. -/
theorem Folds.orderly : Orderly seat owned
    (foldSegments seat locals name array front size strides) last := by
  have along (strides : List Nat) (owned : ι → Set Touch) (waiting : ι → Variables) :
      Orderly seat owned
        (.barrier waiting :: strides.flatMap (strideRound seat locals name array front size))
          last := by
    induction strides generalizing owned waiting with
    | nil => exact ⟨last, rfl⟩
    | cons stride rest inductionHypothesis =>
        exact ⟨strideOwned array lane row stride, folds.strideSteps_respect,
          inductionHypothesis _ _⟩
  exact along strides owned locals

end Orderly

/-! ### Sums -/

section Sums

variable [AddCommMonoid α] {meaning : Meaning α} {before after : View ι α}

/-- What an entry of a row adds to its sum: entries are counted up to the size of the row. -/
def entryValue (array : String) (row : List Nat) (size : Nat) (view : View ι α) (entry : Nat) : α :=
  if entry < size then view.shared (entryOf array row entry) else 0

/-- A stride adds the entries behind it to those in front of it. -/
theorem sum_stride {front back : Nat → α}
    (adds : ∀ entry < stride, back entry = front entry + front (stride + entry)) :
    ∑ entry ∈ Finset.range stride, back entry = ∑ entry ∈ Finset.range (2 * stride), front entry := by
  rw [two_mul, Finset.sum_range_add, ← Finset.sum_add_distrib]
  exact Finset.sum_congr rfl fun entry inside => adds entry (Finset.mem_range.1 inside)

variable (folds : Folds seat locals name array front size lane row) (sums : meaning.Sums)
include folds

/-- No element is written but the entries. -/
theorem Folds.entry_of_written {item : ι} {touch : Touch}
    (writes : touch ∈ written (seat item) (strideSteps seat locals name array front size stride item)) :
    touch = entryOf array (row item) (lane item) ∧ lane item < stride ∧ lane item + stride < size := by
  rw [folds.strideSteps_eq] at writes
  split at writes
  · next near =>
      rw [written_cons, written_nil, List.append_nil] at writes
      obtain rfl := List.mem_singleton.1 writes
      rw [folds.entry_eq]
      exact ⟨congrArg _ (folds.eval_own item), near⟩
  · cases writes

include sums

/-- What is in an entry behind a stride. -/
theorem Folds.entry_of_stride
    (settles : Settles meaning seat (strideSteps seat locals name array front size stride) before
      after) (item : ι) {entry : Nat} (inside : entry < stride) :
    entryValue array (row item) size after entry = entryValue array (row item) size before entry +
      entryValue array (row item) size before (stride + entry) := by
  unfold entryValue
  by_cases isEntry : entry < size
  · obtain ⟨other, sameRow, rfl⟩ := folds.whole item entry isEntry
    rw [← sameRow, if_pos isEntry, if_pos isEntry, Nat.add_comm stride]
    by_cases near : lane other + stride < size
    · have steps : strideSteps seat locals name array front size stride other = _ :=
        folds.strideSteps_eq other
      rw [if_pos ⟨inside, near⟩] at steps
      have isWritten : entryOf array (row other) (lane other) ∈ written (seat other)
          (strideSteps seat locals name array front size stride other) := by
        rw [steps, written_cons, written_nil, List.append_nil]
        refine List.mem_singleton.2 ?_
        rw [folds.entry_eq]
        exact congrArg _ (folds.eval_own other).symm
      rw [settles.written other _ isWritten, steps, if_pos near]
      simp only [performAll_cons, performAll_nil, Instruction.perform, Place.set, Place.found,
        Value.inLane, sums.add, folds.entry_eq, folds.eval_own, folds.eval_far]
      exact Memory.elements_setElement_self
    · rw [if_neg near, add_zero]
      apply settles.kept
      intro writer writes
      obtain ⟨same, _, reaches⟩ := folds.entry_of_written writes
      have sameLane := (entryOf_inj.1 same).2
      omega
  · rw [if_neg isEntry, if_neg isEntry, if_neg (by omega), add_zero]

theorem Folds.shared_of_rounds
    (counting : Counting (fun value => value / 2) (fun value => 0 < value) start strides)
    (isStride : IsStride start)
    (runs : Runs meaning seat (strides.flatMap (strideRound seat locals name array front size)) before
      after) (item : ι) :
    after.shared (entryOf array (row item) 0) =
      ∑ entry ∈ Finset.range (reach start), entryValue array (row item) size before entry := by
  induction counting generalizing before with
  | @ends start stops =>
      obtain rfl : start = 0 := Nat.eq_zero_of_not_pos stops
      obtain rfl : after = before := runs
      have some : 0 < size := Nat.zero_lt_of_lt (folds.inside item)
      rw [reach, if_pos rfl, Finset.sum_range_one, entryValue, if_pos some]
  | @turn stride later goes _ inductionHypothesis =>
      obtain ⟨between, settles, runs⟩ := runs
      obtain ⟨half, reaches⟩ := isStride.half goes
      rw [inductionHypothesis half runs, reaches, reach, if_neg goes.ne']
      exact sum_stride fun entry inside => folds.entry_of_stride sums settles item inside

/-- A fold from a stride that reaches all entries leaves the sum of the entries of each row in the
first of them. -/
theorem Folds.shared_of_reaching (isStride : IsStride start) (reaches : size ≤ reach start)
    (counting : Counting (fun value => value / 2) (fun value => 0 < value) start strides)
    (runs : Runs meaning seat (foldSegments seat locals name array front size strides) before after)
    (item : ι) :
    after.shared (entryOf array (row item) 0) =
      ∑ entry ∈ Finset.range size, before.shared (entryOf array (row item) entry) := by
  rw [folds.shared_of_rounds sums counting isStride runs item]
  have beyond (entry : Nat) (_ : entry ∈ Finset.range (reach start))
      (outside : entry ∉ Finset.range size) :
      entryValue array (row item) size before entry = 0 :=
    if_neg (mt Finset.mem_range.2 outside)
  rw [← Finset.sum_subset (Finset.range_subset_range.2 reaches) beyond]
  exact Finset.sum_congr rfl fun entry inside => if_pos (Finset.mem_range.1 inside)

theorem Folds.shared_of_runs (small : size ≤ Size.kernelLimit)
    (counting : Counting (fun value => value / 2) (fun value => 0 < value) (foldStart size) strides)
    (runs : Runs meaning seat (foldSegments seat locals name array front size strides) before after)
    (item : ι) :
    after.shared (entryOf array (row item) 0) =
      ∑ entry ∈ Finset.range size, before.shared (entryOf array (row item) entry) := by
  obtain ⟨isStride, reaches⟩ := foldStart_reaches small
  exact folds.shared_of_reaching sums isStride reaches counting runs item

end Sums

end Folds

end KernelTuner.Kernel
