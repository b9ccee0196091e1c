import KernelTuner.Proofs.Kernel.Unrolling

/-!
Contract: blocks in which a device computes no index that wraps.

Owns: the steps of a work item as a device comes to them, with the arithmetic of the device on
counters and conditions; blocks all of whose indices, conditions and counters are exact; and
`blockExecutes_iff`, by which the device comes to the same steps there as exact arithmetic does.

Does not own: which kernels are exact at which sizes.
-/

set_option autoImplicit false

namespace KernelTuner.Kernel

open Function (update)

/-! ### Steps of a device -/

section Device

variable (seat : Seat)

mutual

/-- The steps of a device through a statement. All of its loops end. -/
def Statement.Executes (locals : Variables) : Statement → List Step → Prop
  | .run instruction, steps => steps = [⟨locals, instruction⟩]
  | .guarded condition instruction _, steps =>
      condition.Met seat locals ∧ steps = [⟨locals, instruction⟩] ∨
        ¬ condition.Met seat locals ∧ steps = []
  | .scope body, steps => blockExecutes locals body steps
  | .loop head body, steps => ∃ values rounds, head.Counts seat locals values ∧
      (∀ value ∈ values, blockExecutes (update locals head.counter value) body (rounds value)) ∧
        steps = values.flatMap rounds
  | .loopOver head body, steps => ∃ values rounds, head.Counts seat locals values ∧
      (∀ value ∈ values, body.Executes (update locals head.counter value) (rounds value)) ∧
        steps = values.flatMap rounds
  | .unroll _, steps => steps = []

/-- The steps of a device through statements one after another. -/
def blockExecutes (locals : Variables) : List Statement → List Step → Prop
  | [], steps => steps = []
  | statement :: rest, steps => ∃ front behind, steps = front ++ behind ∧
      statement.Executes locals front ∧ blockExecutes (statement.declares seat locals) rest behind

end

mutual

/-- A device has one way through a statement. -/
theorem Statement.executes_unique {locals : Variables} {steps others : List Step} :
    (statement : Statement) → statement.Executes seat locals steps →
      statement.Executes seat locals others → others = steps
  | .run _, executes, other => other.trans executes.symm
  | .guarded _ _ _, executes, other => by
    rcases executes with ⟨met, rfl⟩ | ⟨unmet, rfl⟩
    · exact (other.resolve_right fun both => both.1 met).2
    · exact (other.resolve_left fun both => unmet both.1).2
  | .scope body, executes, other => blockExecutes_unique body executes other
  | .loop _ body, ⟨values, rounds, counts, each, same⟩,
      ⟨_, otherRounds, otherCounts, otherEach, otherSame⟩ => by
    obtain rfl := Counting.unique counts otherCounts
    rw [same, otherSame]
    exact List.flatMap_congr fun value member =>
      blockExecutes_unique body (each value member) (otherEach value member)
  | .loopOver _ body, ⟨values, rounds, counts, each, same⟩,
      ⟨_, otherRounds, otherCounts, otherEach, otherSame⟩ => by
    obtain rfl := Counting.unique counts otherCounts
    rw [same, otherSame]
    exact List.flatMap_congr fun value member =>
      Statement.executes_unique body (each value member) (otherEach value member)
  | .unroll _, executes, other => other.trans executes.symm

/-- A device has one way through a block. -/
theorem blockExecutes_unique {locals : Variables} {steps others : List Step} :
    (block : List Statement) → blockExecutes seat locals block steps →
      blockExecutes seat locals block others → others = steps
  | [], executes, other => other.trans executes.symm
  | statement :: rest, ⟨front, behind, same, first, later⟩,
      ⟨otherFront, otherBehind, otherSame, otherFirst, otherLater⟩ => by
    rw [same, otherSame, Statement.executes_unique statement first otherFirst,
      blockExecutes_unique rest later otherLater]

end

end Device

/-! ### Exact blocks -/

section Exact

variable (seat : Seat) (locals : Variables)

/-- A device computes the index without wrapping. -/
def Index.Exact (index : Index) : Prop := index.computed seat locals = index.eval seat locals

def Place.Exact : Place → Prop
  | .var _ => True
  | .element _ indices => ∀ index ∈ indices, index.Exact seat locals

/-- The same for all indices on which a value depends. -/
def Value.Exact : Value → Prop
  | .literal _ => True
  | .read place => place.Exact seat locals
  | .load _ index _ => index.Exact seat locals
  | .lane _ _ => True
  | .binary _ left right => left.Exact ∧ right.Exact
  | .orZero condition value =>
      (condition.Met seat locals ↔ condition.Holds seat locals) ∧
        (condition.Holds seat locals → value.Exact)
  | .group value => value.Exact

/-- The same for all indices of an instruction. -/
def Instruction.Exact : Instruction → Prop
  | .declareIndex _ value => value.computed seat locals % uintCount = value.eval seat locals
  | .declareValue _ _ value => value.Exact seat locals
  | .declareArray _ _ _ _ => True
  | .assign place value => place.Exact seat locals ∧ value.Exact seat locals
  | .accumulate place value => place.Exact seat locals ∧ value.Exact seat locals
  | .store _ value index _ => value.Exact seat locals ∧ index.Exact seat locals
  | .barrier => True

/-- The values to which the counter of a loop comes, up to the one for which it ends. -/
def LoopHead.Comes (head : LoopHead) (value : Nat) : Prop :=
  value = head.start.eval seat locals ∨
    ∃ turn, head.Turn seat locals turn ∧ value = head.next seat locals turn

/-- The counter of a loop does not wrap before the loop ends. -/
structure LoopHead.Exact (head : LoopHead) : Prop where
  starts : head.start.computed seat locals % uintCount = head.start.eval seat locals
  goes : ∀ value, head.Comes seat locals value →
    (head.condition.Met seat (update locals head.counter value) ↔
      head.condition.Holds seat (update locals head.counter value))
  moves : ∀ value, head.Turn seat locals value →
    head.moved seat locals value = head.next seat locals value

mutual

/-- Nothing wraps on the way through a statement. -/
def Statement.Exact (locals : Variables) : Statement → Prop
  | .run instruction => instruction.Exact seat locals
  | .guarded condition instruction _ =>
      (condition.Met seat locals ↔ condition.Holds seat locals) ∧
        (condition.Holds seat locals → instruction.Exact seat locals)
  | .scope body => blockExact locals body
  | .loop head body => head.Exact seat locals ∧
      ∀ value, head.Turn seat locals value → blockExact (update locals head.counter value) body
  | .loopOver head body => head.Exact seat locals ∧
      ∀ value, head.Turn seat locals value → body.Exact (update locals head.counter value)
  | .unroll _ => True

/-- Nothing wraps on the way through statements one after another. -/
def blockExact (locals : Variables) : List Statement → Prop
  | [] => True
  | statement :: rest => statement.Exact locals ∧ blockExact (statement.bind seat locals) rest

end

end Exact

section Rules

variable {seat : Seat} {locals : Variables} {steps : List Step}

namespace LoopHead

variable {head : LoopHead} {values : List Nat} {value : Nat}

theorem Comes.turn (comes : head.Comes seat locals value)
    (runs : head.condition.Holds seat (update locals head.counter value)) :
    head.Turn seat locals value := by
  rcases comes with rfl | ⟨before, turn, rfl⟩
  · exact .first runs
  · exact turn.next runs

/-- A counter that does not wrap takes the same values on a device. -/
theorem Exact.counts (exact : head.Exact seat locals) (takes : head.Takes seat locals values) :
    head.Counts seat locals values := by
  have along {start : Nat} {values : List Nat} (comes : head.Comes seat locals start)
      (counting : Counting (head.next seat locals)
        (fun value => head.condition.Holds seat (update locals head.counter value)) start values) :
      Counting (head.moved seat locals)
        (fun value => head.condition.Met seat (update locals head.counter value)) start values := by
    induction counting with
    | ends stops => exact .ends (mt (exact.goes _ comes).1 stops)
    | turn runs _ inductionHypothesis =>
        have turn := comes.turn runs
        refine .turn ((exact.goes _ comes).2 runs) ?_
        rw [exact.moves _ turn]
        exact inductionHypothesis (.inr ⟨_, turn, rfl⟩)
  rw [Counts, exact.starts]
  exact along (.inl rfl) takes

/-- A counter that goes up below a bound that it does not wrap behind. -/
theorem exact_of_bound (bound : Nat)
    (starts : head.start.computed seat locals % uintCount = head.start.eval seat locals)
    (met : ∀ value, head.condition.Met seat (update locals head.counter value) ↔ value < bound)
    (holds : ∀ value, head.condition.Holds seat (update locals head.counter value) ↔ value < bound)
    (moves : ∀ value < bound, head.moved seat locals value = head.next seat locals value) :
    head.Exact seat locals where
  starts := starts
  goes := fun value _ => (met value).trans (holds value).symm
  moves := fun value turn => moves value ((holds value).1 turn.runs)

end LoopHead

mutual

/-- A device comes to the exact steps of an exact statement, and computes their indices exactly. -/
theorem Statement.executes_of_unrolls {locals : Variables} {steps : List Step} :
    (statement : Statement) → statement.Exact seat locals → statement.Unrolls seat locals steps →
      statement.Executes seat locals steps ∧
        ∀ step ∈ steps, step.instruction.Exact seat step.locals
  | .run instruction, exact, unrolls => by
    refine ⟨unrolls, ?_⟩
    rw [unrolls, List.forall_mem_singleton]
    exact exact
  | .guarded condition instruction _, ⟨same, exact⟩, unrolls => by
    rw [Statement.Unrolls] at unrolls
    split at unrolls
    · next holds =>
        rw [unrolls]
        exact ⟨.inl ⟨same.2 holds, rfl⟩, List.forall_mem_singleton.2 (exact holds)⟩
    · next fails =>
        rw [unrolls]
        exact ⟨.inr ⟨mt same.1 fails, rfl⟩, nofun⟩
  | .scope body, exact, unrolls => executes_of_unrolls body exact unrolls
  | .loop head body, ⟨counter, exact⟩, ⟨values, rounds, takes, each, same⟩ => by
    have every (value : Nat) (taken : value ∈ values) :=
      executes_of_unrolls body (exact value (takes.turn taken)) (each value taken)
    refine ⟨⟨values, rounds, counter.counts takes, fun value taken => (every value taken).1, same⟩,
      ?_⟩
    rw [same, List.forall_mem_flatMap]
    exact fun value taken => (every value taken).2
  | .loopOver head body, ⟨counter, exact⟩, ⟨values, rounds, takes, each, same⟩ => by
    have every (value : Nat) (taken : value ∈ values) :=
      Statement.executes_of_unrolls body (exact value (takes.turn taken)) (each value taken)
    refine ⟨⟨values, rounds, counter.counts takes, fun value taken => (every value taken).1, same⟩,
      ?_⟩
    rw [same, List.forall_mem_flatMap]
    exact fun value taken => (every value taken).2
  | .unroll _, _, unrolls => by
    refine ⟨unrolls, ?_⟩
    rw [unrolls]
    nofun

/-- A device comes to the exact steps of an exact block, and computes their indices exactly. -/
theorem executes_of_unrolls {locals : Variables} {steps : List Step} :
    (block : List Statement) → blockExact seat locals block → blockUnrolls seat locals block steps →
      blockExecutes seat locals block steps ∧
        ∀ step ∈ steps, step.instruction.Exact seat step.locals
  | [], _, unrolls => by
    refine ⟨unrolls, ?_⟩
    rw [unrolls]
    nofun
  | statement :: rest, ⟨exact, later⟩, ⟨front, behind, same, first, unrolls⟩ => by
    have inFront := Statement.executes_of_unrolls statement exact first
    have inRest := executes_of_unrolls rest later unrolls
    have declares : statement.declares seat locals = statement.bind seat locals := by
      cases statement with
      | run instruction =>
          cases instruction with
          | declareIndex name value => exact congrArg (update locals name) exact
          | _ => rfl
      | _ => rfl
    refine ⟨⟨front, behind, same, inFront.1, by rw [declares]; exact inRest.1⟩, ?_⟩
    rw [same, List.forall_mem_append]
    exact ⟨inFront.2, inRest.2⟩

end

/-- A device comes to the steps of an exact block that exact arithmetic comes to. -/
theorem blockExecutes_iff {block : List Statement} (exact : blockExact seat locals block)
    (ends : ∃ steps, blockUnrolls seat locals block steps) :
    blockExecutes seat locals block steps ↔ blockUnrolls seat locals block steps := by
  constructor
  · intro executes
    obtain ⟨others, unrolls⟩ := ends
    obtain rfl := blockExecutes_unique seat block (executes_of_unrolls block exact unrolls).1 executes
    exact unrolls
  · exact fun unrolls => (executes_of_unrolls block exact unrolls).1

/-! ### Rules -/

@[simp] theorem blockExact_nil : blockExact seat locals [] := trivial

@[simp] theorem blockExact_cons {statement : Statement} {rest : List Statement} :
    blockExact seat locals (statement :: rest) ↔
      statement.Exact seat locals ∧ blockExact seat (statement.bind seat locals) rest := Iff.rfl

@[simp] theorem blockExact_append {front back : List Statement} :
    blockExact seat locals (front ++ back) ↔
      blockExact seat locals front ∧ blockExact seat (blockBind seat locals front) back := by
  induction front generalizing locals with
  | nil => exact ⟨fun exact => ⟨trivial, exact⟩, And.right⟩
  | cons statement rest inductionHypothesis =>
      rw [List.cons_append, blockExact_cons, blockExact_cons, inductionHypothesis, and_assoc]
      rfl

end Rules

end KernelTuner.Kernel
