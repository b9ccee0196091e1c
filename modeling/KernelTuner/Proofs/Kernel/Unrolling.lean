import KernelTuner.Proofs.Kernel.Counters
import Mathlib.Data.List.Basic
import Mathlib.Data.List.Range

/-!
Contract: the instructions that a work item comes to, in order.

Owns: the steps of a work item through a block whose loops end, with arithmetic taken as exact;
that they are determined by the block (`blockUnrolls_unique`), and exist where all counters go up
below bounds (`exists_blockSteps`); the values that such a counter takes; the elements that steps
write; and that steps run instructions of the text of the block (`instruction_of_step`) and touch
elements only that the block touches (`touched_of_step`).

Does not own: the values that are computed (`Proofs.Kernel.Meaning`).
-/

set_option autoImplicit false

namespace KernelTuner.Kernel

open Function (update)

/-- An instruction that a work item comes to, with the variables that it has there. -/
structure Step where
  locals : Variables
  instruction : Instruction

/-- Conditions can be computed. -/
instance Condition.decidableHolds (seat : Seat) (locals : Variables) :
    (condition : Condition) → Decidable (condition.Holds seat locals)
  | .less _ _ => Nat.decLt _ _
  | .greater _ _ => Nat.decLt _ _
  | .equal _ _ => Nat.decEq _ _
  | .both left right =>
      @instDecidableAnd _ _ (decidableHolds seat locals left) (decidableHolds seat locals right)

section Definitions

variable (seat : Seat)

/-- The values that the counter of a loop takes until the loop ends. -/
def LoopHead.Takes (head : LoopHead) (locals : Variables) (values : List Nat) : Prop :=
  Counting (head.next seat locals)
    (fun value => head.condition.Holds seat (update locals head.counter value))
    (head.start.eval seat locals) values

mutual

/-- The steps through a statement. All of its loops end. -/
def Statement.Unrolls (locals : Variables) : Statement → List Step → Prop
  | .run instruction, steps => steps = [⟨locals, instruction⟩]
  | .guarded condition instruction _, steps =>
      steps = if condition.Holds seat locals then [⟨locals, instruction⟩] else []
  | .scope body, steps => blockUnrolls locals body steps
  | .loop head body, steps => ∃ values rounds, head.Takes seat locals values ∧
      (∀ value ∈ values, blockUnrolls (update locals head.counter value) body (rounds value)) ∧
        steps = values.flatMap rounds
  | .loopOver head body, steps => ∃ values rounds, head.Takes seat locals values ∧
      (∀ value ∈ values, body.Unrolls (update locals head.counter value) (rounds value)) ∧
        steps = values.flatMap rounds
  | .unroll _, steps => steps = []

/-- The steps through statements one after another. -/
def blockUnrolls (locals : Variables) : List Statement → List Step → Prop
  | [], steps => steps = []
  | statement :: rest, steps => ∃ front behind, steps = front ++ behind ∧
      statement.Unrolls locals front ∧ blockUnrolls (statement.bind seat locals) rest behind

end

/-- The elements of arrays that an instruction writes. -/
def Instruction.written (locals : Variables) : Instruction → List Touch
  | .assign (.element array indices) _ => [⟨array, indices.map (Index.eval seat locals)⟩]
  | .accumulate (.element array indices) _ => [⟨array, indices.map (Index.eval seat locals)⟩]
  | .store width _ index array =>
      (List.range width).map fun lane => ⟨array, [width * index.eval seat locals + lane]⟩
  | _ => []

/-- The elements that are written in these steps, in order. -/
def written (steps : List Step) : List Touch :=
  steps.flatMap fun step => step.instruction.written seat step.locals

end Definitions

/-- The array that an instruction assigns elements of. -/
def Instruction.target? : Instruction → Option String
  | .assign (.element array _) _ => some array
  | .accumulate (.element array _) _ => some array
  | .store _ _ _ array => some array
  | _ => none

/-- The array that an instruction declares for its work item alone. -/
def Instruction.own? : Instruction → Option String
  | .declareArray false _ name _ => some name
  | _ => none

/-- An instruction that waits for nobody, assigns elements of certain arrays only, and declares
only certain ones for its work item. -/
def Instruction.Confined (targets own : List String) : Instruction → Prop
  | .declareArray false _ name _ => name ∈ own
  | .assign (.element array _) _ => array ∈ targets
  | .accumulate (.element array _) _ => array ∈ targets
  | .store _ _ _ array => array ∈ targets
  | .barrier => False
  | _ => True

mutual

/-- The instructions in the text of a statement. -/
def Statement.instructions : Statement → List Instruction
  | .run instruction => [instruction]
  | .guarded _ instruction _ => [instruction]
  | .scope body => blockInstructions body
  | .loop _ body => blockInstructions body
  | .loopOver _ body => body.instructions
  | .unroll _ => []

/-- The same for statements one after another. -/
def blockInstructions : List Statement → List Instruction
  | [] => []
  | statement :: rest => statement.instructions ++ blockInstructions rest

end

/-- The arrays that the text of a block assigns elements of. -/
def blockTargets (block : List Statement) : List String :=
  (blockInstructions block).filterMap Instruction.target?

/-- The counter of a loop goes up in steps of one size below a bound, for every work item. -/
def LoopHead.Ascends (head : LoopHead) : Prop :=
  ∃ step, 0 < step ∧ ∀ seat locals,
    (∀ value, head.next seat locals value = value + step) ∧
      ∃ bound, ∀ value,
        head.condition.Holds seat (update locals head.counter value) ↔ value < bound

mutual

/-- The counters of all loops of a statement go up below bounds. -/
def Statement.Ascends : Statement → Prop
  | .run _ => True
  | .guarded _ _ _ => True
  | .scope body => blockAscends body
  | .loop head body => head.Ascends ∧ blockAscends body
  | .loopOver head body => head.Ascends ∧ body.Ascends
  | .unroll _ => True

/-- The same for statements one after another. -/
def blockAscends : List Statement → Prop
  | [] => True
  | statement :: rest => statement.Ascends ∧ blockAscends rest

end

section Rules

variable {seat : Seat} {locals : Variables} {steps : List Step}

/-! ### Blocks -/

@[simp] theorem unrolls_run {instruction : Instruction} :
    (Statement.run instruction).Unrolls seat locals steps ↔ steps = [⟨locals, instruction⟩] :=
  Iff.rfl

@[simp] theorem unrolls_unroll {factor : Nat} :
    (Statement.unroll factor).Unrolls seat locals steps ↔ steps = [] := Iff.rfl

@[simp] theorem blockUnrolls_nil : blockUnrolls seat locals [] steps ↔ steps = [] := Iff.rfl

theorem blockUnrolls_cons {statement : Statement} {rest : List Statement} :
    blockUnrolls seat locals (statement :: rest) steps ↔
      ∃ front behind, steps = front ++ behind ∧ statement.Unrolls seat locals front ∧
        blockUnrolls seat (statement.bind seat locals) rest behind := Iff.rfl

@[simp] theorem blockUnrolls_singleton {statement : Statement} :
    blockUnrolls seat locals [statement] steps ↔ statement.Unrolls seat locals steps := by
  constructor
  · rintro ⟨front, _, rfl, unrolls, rfl⟩
    rwa [List.append_nil]
  · intro unrolls
    exact ⟨steps, [], (List.append_nil steps).symm, unrolls, rfl⟩

/-- An instruction is a step of its own, in front of those behind it. -/
@[simp] theorem blockUnrolls_run_cons {instruction : Instruction} {rest : List Statement} :
    blockUnrolls seat locals (.run instruction :: rest) steps ↔
      ∃ behind, steps = ⟨locals, instruction⟩ :: behind ∧
        blockUnrolls seat ((Statement.run instruction).bind seat locals) rest behind := by
  constructor
  · rintro ⟨_, behind, rfl, rfl, unrolls⟩
    exact ⟨behind, rfl, unrolls⟩
  · rintro ⟨behind, rfl, unrolls⟩
    exact ⟨_, behind, rfl, rfl, unrolls⟩

/-- A loop over one statement is one over a block. -/
theorem unrolls_loopOver {head : LoopHead} {body : Statement} :
    (Statement.loopOver head body).Unrolls seat locals steps ↔
      (Statement.loop head [body]).Unrolls seat locals steps := by
  constructor
  · rintro ⟨values, rounds, takes, each, same⟩
    exact ⟨values, rounds, takes, fun value member => blockUnrolls_singleton.2 (each value member),
      same⟩
  · rintro ⟨values, rounds, takes, each, same⟩
    exact ⟨values, rounds, takes, fun value member => blockUnrolls_singleton.1 (each value member),
      same⟩

/-- A loop of whose counter the values are known. -/
theorem unrolls_loop_of_takes {head : LoopHead} {body : List Statement} {values : List Nat}
    (takes : head.Takes seat locals values) :
    (Statement.loop head body).Unrolls seat locals steps ↔
      ∃ rounds, (∀ value ∈ values, blockUnrolls seat (update locals head.counter value) body
        (rounds value)) ∧ steps = values.flatMap rounds := by
  constructor
  · rintro ⟨others, rounds, otherTakes, each, same⟩
    obtain rfl := Counting.unique otherTakes takes
    exact ⟨rounds, each, same⟩
  · rintro ⟨rounds, each, same⟩
    exact ⟨values, rounds, takes, each, same⟩

theorem blockUnrolls_append {front back : List Statement} :
    blockUnrolls seat locals (front ++ back) steps ↔
      ∃ first second, steps = first ++ second ∧ blockUnrolls seat locals front first ∧
        blockUnrolls seat (blockBind seat locals front) back second := by
  induction front generalizing locals steps with
  | nil =>
      constructor
      · intro unrolls
        exact ⟨[], steps, rfl, rfl, unrolls⟩
      · rintro ⟨_, _, rfl, rfl, unrolls⟩
        exact unrolls
  | cons statement rest inductionHypothesis =>
      constructor
      · rintro ⟨own, behind, rfl, unrolls, later⟩
        obtain ⟨first, second, rfl, inRest, inBack⟩ := inductionHypothesis.1 later
        exact ⟨own ++ first, second, (List.append_assoc _ _ _).symm,
          ⟨own, first, rfl, unrolls, inRest⟩, inBack⟩
      · rintro ⟨_, second, rfl, ⟨own, first, rfl, unrolls, inRest⟩, inBack⟩
        exact ⟨own, first ++ second, List.append_assoc _ _ _, unrolls,
          inductionHypothesis.2 ⟨first, second, rfl, inRest, inBack⟩⟩

mutual

/-- A statement has one way through it. -/
theorem Statement.unrolls_unique {locals : Variables} {steps others : List Step} :
    (statement : Statement) → statement.Unrolls seat locals steps →
      statement.Unrolls seat locals others → others = steps
  | .run _, unrolls, other => other.trans unrolls.symm
  | .guarded _ _ _, unrolls, other => other.trans unrolls.symm
  | .scope body, unrolls, other => blockUnrolls_unique body unrolls other
  | .loop _ body, ⟨values, rounds, takes, each, same⟩,
      ⟨_, otherRounds, otherTakes, otherEach, otherSame⟩ => by
    obtain rfl := takes.unique otherTakes
    rw [same, otherSame]
    exact List.flatMap_congr fun value member =>
      blockUnrolls_unique body (each value member) (otherEach value member)
  | .loopOver _ body, ⟨values, rounds, takes, each, same⟩,
      ⟨_, otherRounds, otherTakes, otherEach, otherSame⟩ => by
    obtain rfl := takes.unique otherTakes
    rw [same, otherSame]
    exact List.flatMap_congr fun value member =>
      Statement.unrolls_unique body (each value member) (otherEach value member)
  | .unroll _, unrolls, other => other.trans unrolls.symm

/-- A block has one way through it. -/
theorem blockUnrolls_unique {locals : Variables} {steps others : List Step} :
    (block : List Statement) → blockUnrolls seat locals block steps →
      blockUnrolls seat locals block others → others = steps
  | [], unrolls, other => other.trans unrolls.symm
  | statement :: rest, ⟨front, behind, same, first, later⟩,
      ⟨otherFront, otherBehind, otherSame, otherFirst, otherLater⟩ => by
    rw [same, otherSame, Statement.unrolls_unique statement first otherFirst,
      blockUnrolls_unique rest later otherLater]

end

/-! ### Counters in steps -/

/-- The values from `start` on, in steps of `step`, below `bound`. -/
def stepsBelow (start bound step : Nat) : List Nat :=
  List.range' start ((bound - start + (step - 1)) / step) step

theorem counting_stepsBelow {step : Nat} (positive : 0 < step) (bound start : Nat) :
    Counting (fun value => value + step) (fun value => value < bound) start
      (stepsBelow start bound step) := by
  induction left : bound - start using Nat.strongRecOn generalizing start with
  | ind room inductionHypothesis =>
      subst left
      unfold stepsBelow
      by_cases inside : start < bound
      · have rest := inductionHypothesis (bound - (start + step)) (by omega) (start + step) rfl
        have count : (bound - start + (step - 1)) / step =
            (bound - (start + step) + (step - 1)) / step + 1 := by
          by_cases last : bound - start ≤ step
          · rw [show bound - (start + step) = 0 by omega, Nat.zero_add,
              Nat.div_eq_of_lt (Nat.sub_lt positive Nat.one_pos), Nat.zero_add]
            exact Nat.div_eq_of_lt_le (by omega) (by omega)
          · rw [← Nat.add_div_right _ positive]
            congr 1
            omega
        rw [count, List.range'_succ]
        exact .turn inside rest
      · have none : (bound - start + (step - 1)) / step = 0 :=
          Nat.div_eq_of_lt (by omega)
        rw [none, List.range'_zero]
        exact .ends inside

theorem mem_stepsBelow {start bound step value : Nat} (positive : 0 < step) :
    value ∈ stepsBelow start bound step ↔
      value < bound ∧ ∃ rounds, value = start + rounds * step := by
  have ascending : ∃ values,
      Counting (fun value => value + step) (fun value => value < bound) start values ∧
        values.Nodup ∧ ∀ value, value ∈ values ↔
          value < bound ∧ ∃ rounds, value = start + rounds * step :=
    Counting.exists_ascending positive (fun _ => Iff.rfl) (fun _ _ => rfl) start
  obtain ⟨values, counting, _, members⟩ := ascending
  rw [counting.unique (counting_stepsBelow positive bound start)]
  exact members value

/-- A counter that starts below its step takes the values with this remainder. -/
theorem mem_stepsBelow_of_lt {start bound step value : Nat} (starts : start < step) :
    value ∈ stepsBelow start bound step ↔ value < bound ∧ value % step = start := by
  rw [mem_stepsBelow (Nat.zero_lt_of_lt starts)]
  refine and_congr_right fun _ => ⟨?_, ?_⟩
  · rintro ⟨rounds, rfl⟩
    rw [Nat.add_mul_mod_self_right, Nat.mod_eq_of_lt starts]
  · rintro rfl
    exact ⟨value / step, (Nat.mod_add_div' value step).symm⟩

theorem nodup_stepsBelow {start bound step : Nat} (positive : 0 < step) :
    (stepsBelow start bound step).Nodup :=
  @List.nodup_range' start _ step positive

theorem mul_mem_stepsBelow {bound step turn : Nat} (positive : 0 < step)
    (inside : turn * step < bound) : turn * step ∈ stepsBelow 0 bound step :=
  (mem_stepsBelow positive).2 ⟨inside, turn, (Nat.zero_add _).symm⟩

/-- The turns of a counter that starts at zero. -/
theorem getElem?_stepsBelow_zero {bound step turn value : Nat} (positive : 0 < step) :
    (stepsBelow 0 bound step)[turn]? = some value ↔ value = turn * step ∧ value < bound := by
  have count : turn < (bound - 0 + (step - 1)) / step ↔ turn * step < bound := by
    rw [Nat.lt_div_iff_mul_lt positive]
    omega
  unfold stepsBelow
  by_cases inside : turn < (bound - 0 + (step - 1)) / step
  · rw [List.getElem?_range' inside, Option.some.injEq, Nat.zero_add, Nat.mul_comm step]
    constructor
    · rintro rfl
      exact ⟨rfl, count.1 inside⟩
    · exact fun same => same.1.symm
  · rw [List.getElem?_eq_none (by rw [List.length_range']; omega)]
    constructor
    · nofun
    · rintro ⟨rfl, below⟩
      exact absurd (count.2 below) inside

@[simp] theorem stepsBelow_one (bound : Nat) : stepsBelow 0 bound 1 = List.range bound := by
  simp [stepsBelow, List.range_eq_range']

/-- The values of a counter that moves on by `step` below `bound`. -/
theorem LoopHead.takes_iff {head : LoopHead} {step : Nat} (positive : 0 < step) (bound : Nat)
    (moves : ∀ value, head.next seat locals value = value + step)
    (below : ∀ value,
      head.condition.Holds seat (update locals head.counter value) ↔ value < bound)
    {values : List Nat} :
    head.Takes seat locals values ↔
      values = stepsBelow (head.start.eval seat locals) bound step := by
  have sameNext : head.next seat locals = fun value => value + step := funext moves
  have sameRuns : (fun value => head.condition.Holds seat (update locals head.counter value)) =
      fun value => value < bound := funext fun value => propext (below value)
  unfold Takes
  rw [sameNext, sameRuns]
  constructor
  · intro takes
    exact (counting_stepsBelow positive _ _).unique takes
  · rintro rfl
    exact counting_stepsBelow positive _ _

/-! ### Loops that end -/

theorem LoopHead.Ascends.exists_takes {head : LoopHead} (ascends : head.Ascends) (seat : Seat)
    (locals : Variables) : ∃ values, head.Takes seat locals values := by
  obtain ⟨step, positive, everywhere⟩ := ascends
  obtain ⟨moves, bound, below⟩ := everywhere seat locals
  exact ⟨_, (takes_iff positive bound moves below).2 rfl⟩

@[simp] theorem blockAscends_nil : blockAscends [] := trivial

@[simp] theorem blockAscends_cons {statement : Statement} {rest : List Statement} :
    blockAscends (statement :: rest) ↔ statement.Ascends ∧ blockAscends rest := Iff.rfl

@[simp] theorem blockAscends_append {front back : List Statement} :
    blockAscends (front ++ back) ↔ blockAscends front ∧ blockAscends back := by
  induction front with
  | nil => simp
  | cons statement rest inductionHypothesis =>
      rw [List.cons_append, blockAscends_cons, blockAscends_cons, inductionHypothesis, and_assoc]

mutual

/-- A statement whose loops ascend comes to an end. -/
theorem Statement.exists_steps (locals : Variables) :
    (statement : Statement) → statement.Ascends → ∃ steps, statement.Unrolls seat locals steps
  | .run _, _ => ⟨_, rfl⟩
  | .guarded _ _ _, _ => ⟨_, rfl⟩
  | .scope body, ascends => exists_blockSteps locals body ascends
  | .loop head body, ⟨counts, ascends⟩ => by
    obtain ⟨values, takes⟩ := counts.exists_takes seat locals
    choose rounds unrolls using fun value =>
      exists_blockSteps (update locals head.counter value) body ascends
    exact ⟨_, values, rounds, takes, fun value _ => unrolls value, rfl⟩
  | .loopOver head body, ⟨counts, ascends⟩ => by
    obtain ⟨values, takes⟩ := counts.exists_takes seat locals
    choose rounds unrolls using fun value =>
      Statement.exists_steps (update locals head.counter value) body ascends
    exact ⟨_, values, rounds, takes, fun value _ => unrolls value, rfl⟩
  | .unroll _, _ => ⟨_, rfl⟩

/-- A block whose loops ascend comes to an end. -/
theorem exists_blockSteps (locals : Variables) :
    (block : List Statement) → blockAscends block → ∃ steps, blockUnrolls seat locals block steps
  | [], _ => ⟨_, rfl⟩
  | statement :: rest, ⟨first, later⟩ => by
    obtain ⟨front, inFront⟩ := Statement.exists_steps locals statement first
    obtain ⟨behind, inRest⟩ := exists_blockSteps (statement.bind seat locals) rest later
    exact ⟨_, front, behind, rfl, inFront, inRest⟩

end

/-! ### Written elements -/

@[simp] theorem written_nil : written seat [] = [] := rfl

@[simp] theorem written_cons {step : Step} :
    written seat (step :: steps) =
      step.instruction.written seat step.locals ++ written seat steps :=
  List.flatMap_cons

@[simp] theorem written_append {others : List Step} :
    written seat (steps ++ others) = written seat steps ++ written seat others :=
  List.flatMap_append

theorem written_flatMap {values : List Nat} {rounds : Nat → List Step} :
    written seat (values.flatMap rounds) = values.flatMap fun value => written seat (rounds value) :=
  List.flatMap_assoc

/-- An instruction writes elements of its target only. -/
theorem Instruction.target_of_written {instruction : Instruction} {touch : Touch}
    (member : touch ∈ instruction.written seat locals) :
    instruction.target? = some touch.array := by
  cases instruction with
  | declareIndex name value => cases member
  | declareValue type name value => cases member
  | declareArray shared element name extents => cases member
  | barrier => cases member
  | store width value index array =>
      obtain ⟨lane, _, rfl⟩ := List.mem_map.1 member
      rfl
  | assign place value =>
      cases place with
      | var name => cases member
      | element array indices =>
          obtain rfl := List.mem_singleton.1 member
          rfl
  | accumulate place value =>
      cases place with
      | var name => cases member
      | element array indices =>
          obtain rfl := List.mem_singleton.1 member
          rfl

mutual

/-- The steps through a statement run instructions of its text. -/
theorem Statement.instruction_of_step {locals : Variables} {steps : List Step} {step : Step}
    (member : step ∈ steps) :
    (statement : Statement) → statement.Unrolls seat locals steps →
      step.instruction ∈ statement.instructions
  | .run _, unrolls => by
    rw [unrolls, List.mem_singleton] at member
    subst member
    exact List.mem_singleton_self _
  | .guarded _ _ _, unrolls => by
    rw [unrolls] at member
    split at member
    · obtain rfl := List.mem_singleton.1 member
      exact List.mem_singleton_self _
    · cases member
  | .scope body, unrolls => instruction_of_step member body unrolls
  | .loop _ body, ⟨_, _, _, each, same⟩ => by
    rw [same] at member
    obtain ⟨value, taken, within⟩ := List.mem_flatMap.1 member
    exact instruction_of_step within body (each value taken)
  | .loopOver _ body, ⟨_, _, _, each, same⟩ => by
    rw [same] at member
    obtain ⟨value, taken, within⟩ := List.mem_flatMap.1 member
    exact Statement.instruction_of_step within body (each value taken)
  | .unroll _, unrolls => by
    rw [unrolls] at member
    cases member

/-- The steps through a block run instructions of its text. -/
theorem instruction_of_step {locals : Variables} {steps : List Step} {step : Step}
    (member : step ∈ steps) :
    (block : List Statement) → blockUnrolls seat locals block steps →
      step.instruction ∈ blockInstructions block
  | [], unrolls => by
    rw [unrolls] at member
    cases member
  | statement :: rest, ⟨_, _, same, first, later⟩ => by
    rw [same] at member
    rcases List.mem_append.1 member with inFront | behind
    · exact List.mem_append_left _ (Statement.instruction_of_step inFront statement first)
    · exact List.mem_append_right _ (instruction_of_step behind rest later)

end

/-- The steps through a block write its targets only. -/
theorem target_of_written {block : List Statement} (unrolls : blockUnrolls seat locals block steps)
    {touch : Touch} (member : touch ∈ written seat steps) : touch.array ∈ blockTargets block := by
  obtain ⟨step, listed, writes⟩ := List.mem_flatMap.1 member
  exact List.mem_filterMap.2
    ⟨_, instruction_of_step listed block unrolls, Instruction.target_of_written writes⟩

/-- A block that has no array for a target leaves its elements alone. -/
theorem filter_written_eq_nil {block : List Statement} {array : String}
    (untouched : array ∉ blockTargets block) (unrolls : blockUnrolls seat locals block steps) :
    (written seat steps).filter (fun touch => touch.array = array) = [] := by
  rw [List.filter_eq_nil_iff]
  intro touch member same
  rw [decide_eq_true_iff] at same
  exact untouched (same ▸ target_of_written unrolls member)

/-! ### Touched elements -/

/-- What a counter takes from a turn on are turns. -/
theorem LoopHead.turn_of_counting {head : LoopHead} {start value : Nat} {values : List Nat}
    (counting : Counting (head.next seat locals)
      (fun value => head.condition.Holds seat (update locals head.counter value)) start values)
    (begins : head.condition.Holds seat (update locals head.counter start) →
      head.Turn seat locals start) (member : value ∈ values) : head.Turn seat locals value := by
  induction counting with
  | ends _ => cases member
  | turn runs _ inductionHypothesis =>
      rcases List.mem_cons.1 member with rfl | later
      · exact begins runs
      · exact inductionHypothesis (.next (begins runs)) later

theorem LoopHead.Takes.turn {head : LoopHead} {values : List Nat}
    (takes : head.Takes seat locals values) {value : Nat} (member : value ∈ values) :
    head.Turn seat locals value :=
  turn_of_counting takes .first member

mutual

/-- The steps through a statement touch nothing else. -/
theorem Statement.touched_of_step {locals : Variables} {steps : List Step} {step : Step}
    (member : step ∈ steps) :
    (statement : Statement) → statement.Unrolls seat locals steps →
      step.instruction.touched seat step.locals ⊆ statement.touched seat locals
  | .run _, unrolls => by
    rw [unrolls, List.mem_singleton] at member
    subst member
    exact Set.Subset.rfl
  | .guarded condition _ _, unrolls => by
    rw [unrolls] at member
    split at member
    · next holds =>
        obtain rfl := List.mem_singleton.1 member
        exact fun _ touched => ⟨holds, touched⟩
    · cases member
  | .scope body, unrolls => touched_of_step member body unrolls
  | .loop _ body, ⟨_, _, takes, each, same⟩ => by
    rw [same] at member
    obtain ⟨value, taken, within⟩ := List.mem_flatMap.1 member
    exact fun _ touched =>
      ⟨value, takes.turn taken, touched_of_step within body (each value taken) touched⟩
  | .loopOver _ body, ⟨_, _, takes, each, same⟩ => by
    rw [same] at member
    obtain ⟨value, taken, within⟩ := List.mem_flatMap.1 member
    exact fun _ touched =>
      ⟨value, takes.turn taken, Statement.touched_of_step within body (each value taken) touched⟩
  | .unroll _, unrolls => by
    rw [unrolls] at member
    cases member

/-- The steps through a block touch nothing else. -/
theorem touched_of_step {locals : Variables} {steps : List Step} {step : Step}
    (member : step ∈ steps) :
    (block : List Statement) → blockUnrolls seat locals block steps →
      step.instruction.touched seat step.locals ⊆ blockTouched seat locals block
  | [], unrolls => by
    rw [unrolls] at member
    cases member
  | statement :: rest, ⟨_, _, same, first, later⟩ => by
    rw [same] at member
    rcases List.mem_append.1 member with inFront | behind
    · exact Set.subset_union_of_subset_left
        (Statement.touched_of_step inFront statement first) _
    · exact Set.subset_union_of_subset_right (touched_of_step behind rest later) _

end

/-! ### Text -/

@[simp] theorem blockInstructions_nil : blockInstructions [] = [] := rfl

@[simp] theorem blockInstructions_cons {statement : Statement} {rest : List Statement} :
    blockInstructions (statement :: rest) = statement.instructions ++ blockInstructions rest := rfl

@[simp] theorem blockInstructions_append {front back : List Statement} :
    blockInstructions (front ++ back) = blockInstructions front ++ blockInstructions back := by
  induction front with
  | nil => rfl
  | cons statement rest inductionHypothesis =>
      rw [List.cons_append, blockInstructions_cons, blockInstructions_cons, inductionHypothesis,
        List.append_assoc]

/-- Statements that may be left out. -/
theorem forall_instructions_optional {condition : Prop} [Decidable condition]
    {block : List Statement} {holds : Instruction → Prop}
    (each : ∀ instruction ∈ blockInstructions block, holds instruction) :
    ∀ instruction ∈ blockInstructions (if condition then block else []), holds instruction := by
  split
  · exact each
  · exact nofun

theorem blockTargets_append {front back : List Statement} :
    blockTargets (front ++ back) = blockTargets front ++ blockTargets back := by
  rw [blockTargets, blockInstructions_append, List.filterMap_append]
  rfl

@[simp] theorem blockTargets_loop {head : LoopHead} {body : List Statement} :
    blockTargets [.loop head body] = blockTargets body := by
  simp [blockTargets, Statement.instructions]

namespace Instruction

variable {targets own : List String} {instruction : Instruction} {array : String}

theorem confined_iff : instruction.Confined targets own ↔ instruction ≠ .barrier ∧
    (∀ array, instruction.target? = some array → array ∈ targets) ∧
      ∀ array, instruction.own? = some array → array ∈ own := by
  cases instruction with
  | declareArray shared element name extents =>
      cases shared <;> simp [Confined, target?, own?]
  | assign place value => cases place <;> simp [Confined, target?, own?]
  | accumulate place value => cases place <;> simp [Confined, target?, own?]
  | _ => simp [Confined, target?, own?]

theorem ne_barrier_of_target (writes : instruction.target? = some array) :
    instruction ≠ .barrier := by
  rintro rfl
  cases writes

theorem ne_barrier_of_own (declares : instruction.own? = some array) :
    instruction ≠ .barrier := by
  rintro rfl
  cases declares

namespace Confined

variable (confined : instruction.Confined targets own)
include confined

theorem ne_barrier : instruction ≠ .barrier := (confined_iff.1 confined).1

theorem target_mem (writes : instruction.target? = some array) : array ∈ targets :=
  (confined_iff.1 confined).2.1 array writes

theorem own_mem (declares : instruction.own? = some array) : array ∈ own :=
  (confined_iff.1 confined).2.2 array declares

theorem mono {moreTargets moreOwn : List String} (wider : targets ⊆ moreTargets)
    (widerOwn : own ⊆ moreOwn) : instruction.Confined moreTargets moreOwn :=
  confined_iff.2 ⟨confined.ne_barrier, fun _ writes => wider (confined.target_mem writes),
    fun _ declares => widerOwn (confined.own_mem declares)⟩

end Confined

end Instruction

end Rules

end KernelTuner.Kernel
