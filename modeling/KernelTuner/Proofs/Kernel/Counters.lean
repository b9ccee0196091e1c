import KernelTuner.Proofs.Kernel.Access
import KernelTuner.Size
import Mathlib.Tactic.Ring

/-!
Contract: the counters of loops as a device counts them.

Owns: the value of an index in the arithmetic of a device, where an `unsigned int` has 32 bits
and wraps and where the answers about a work item's place have 64; the values that a counter
takes until its loop ends; and the counters of the outermost loops of a block, which exist
exactly when all of its loops end, with the bodies of these loops.

Does not own: what the bodies of loops compute. They change no counter.
-/

set_option autoImplicit false

namespace KernelTuner.Kernel

open Function (update)

/-- Number of values of an `unsigned int`. -/
def uintCount : Nat := 0x100000000

/-- Whether an index is computed in 64 bits: it asks for the place of a work item, or it has
a literal that is no `int`. -/
def Index.isWide : Index → Bool
  | .literal value => 0x80000000 ≤ value
  | .var _ => false
  | .workItem _ _ => true
  | .add left right => left.isWide || right.isWide
  | .sub left right => left.isWide || right.isWide
  | .mul left right => left.isWide || right.isWide
  | .div left right => left.isWide || right.isWide
  | .mod left right => left.isWide || right.isWide
  | .minimum left right => left.isWide || right.isWide
  | .narrow _ => false

/-- Number of values of the type in which an operator is computed. -/
def operandCount (left right : Index) : Nat :=
  if left.isWide || right.isWide then Size.wordCount else uintCount

section Device

variable (seat : Seat) (locals : Variables)

def Index.computed : Index → Nat
  | .literal value => value
  | .var name => locals name
  | .workItem query dimension => seat query dimension
  | .add left right => (left.computed + right.computed) % operandCount left right
  | .sub left right =>
      (left.computed + operandCount left right - right.computed) % operandCount left right
  | .mul left right => left.computed * right.computed % operandCount left right
  | .div left right => left.computed / right.computed
  | .mod left right => left.computed % right.computed
  | .minimum left right => min left.computed right.computed
  | .narrow index => index.computed % uintCount

def Condition.Met : Condition → Prop
  | .less left right => left.computed seat locals < right.computed seat locals
  | .greater left right => right.computed seat locals < left.computed seat locals
  | .equal left right => left.computed seat locals = right.computed seat locals
  | .both left right => left.Met ∧ right.Met

/-- The counter of a loop in the turn behind one in which it is `value`. What leaves 32 bits
is cut off, whether the sum has been computed in 32 bits or in 64. -/
def LoopHead.moved (head : LoopHead) (value : Nat) : Nat :=
  match head.stride with
  | .increment => (value + 1) % uintCount
  | .advance distance =>
      (value + distance.computed seat (update locals head.counter value)) % uintCount
  | .halve => value / 2

end Device

/-- The values of a counter from its first one on, up to the first for which the loop does
not go on. -/
inductive Counting (moved : Nat → Nat) (goes : Nat → Prop) : Nat → List Nat → Prop where
  | ends {value : Nat} (stops : ¬ goes value) : Counting moved goes value []
  | turn {value : Nat} {later : List Nat} (runs : goes value)
      (rest : Counting moved goes (moved value) later) : Counting moved goes value (value :: later)

section Device

variable (seat : Seat) (locals : Variables)

/-- A loop that ends after its counter has taken these values. -/
def LoopHead.Counts (head : LoopHead) (values : List Nat) : Prop :=
  Counting (head.moved seat locals)
    (fun value => head.condition.Met seat (update locals head.counter value))
    (head.start.computed seat locals % uintCount) values

/-- The variables behind a statement. -/
def Statement.declares : Statement → Variables
  | .run (.declareIndex name value) => update locals name (value.computed seat locals % uintCount)
  | _ => locals

/-- The variables behind statements one after another. -/
def blockDeclares (locals : Variables) (block : List Statement) : Variables :=
  block.foldl (fun locals statement => statement.declares seat locals) locals

mutual

/-- The values that the counters of the outermost loops of a statement take, loop by loop. All
loops end, also those inside. -/
def Statement.Counts (locals : Variables) : Statement → List (List Nat) → Prop
  | .run _, counters => counters = []
  | .guarded _ _ _, counters => counters = []
  | .scope body, counters => blockCounts locals body counters
  | .loop head body, counters => ∃ values, counters = [values] ∧ head.Counts seat locals values ∧
      ∀ value ∈ values, ∃ inner, blockCounts (update locals head.counter value) body inner
  | .loopOver head body, counters => ∃ values, counters = [values] ∧
      head.Counts seat locals values ∧
        ∀ value ∈ values, ∃ inner, body.Counts (update locals head.counter value) inner
  | .unroll _, counters => counters = []

/-- The same for statements one after another. -/
def blockCounts (locals : Variables) : List Statement → List (List Nat) → Prop
  | [], counters => counters = []
  | statement :: rest, counters => ∃ front behind, counters = front ++ behind ∧
      statement.Counts locals front ∧ blockCounts (statement.declares seat locals) rest behind

end

end Device

mutual

/-- The bodies of the outermost loops of a statement, in the order of their counters. -/
def Statement.bodies : Statement → List (List Statement)
  | .run _ => []
  | .guarded _ _ _ => []
  | .scope body => blockBodies body
  | .loop _ body => [body]
  | .loopOver _ body => [[body]]
  | .unroll _ => []

/-- The same for statements one after another. -/
def blockBodies : List Statement → List (List Statement)
  | [] => []
  | statement :: rest => statement.bodies ++ blockBodies rest

end

/-! ### Counting -/

namespace Counting

variable {moved : Nat → Nat} {goes : Nat → Prop} {start value : Nat} {values : List Nat}

theorem unique {others : List Nat} (counting : Counting moved goes start values)
    (other : Counting moved goes start others) : others = values := by
  induction counting generalizing others with
  | ends stops =>
      cases other with
      | ends _ => rfl
      | turn runs _ => exact absurd runs stops
  | turn runs _ inductionHypothesis =>
      cases other with
      | ends stops => exact absurd runs stops
      | turn _ rest => rw [inductionHypothesis rest]

theorem eq_cons (counting : Counting moved goes start values) (runs : goes start) :
    ∃ later, values = start :: later ∧ Counting moved goes (moved start) later := by
  cases counting with
  | ends stops => exact absurd runs stops
  | turn _ rest => exact ⟨_, rfl, rest⟩

/-- Behind a value of the counter stands the one that it moves on to. -/
theorem moved_mem_tail (counting : Counting moved goes start values) (member : value ∈ values)
    (runs : goes (moved value)) : moved value ∈ values.tail := by
  induction counting with
  | ends _ => cases member
  | turn _ rest inductionHypothesis =>
      rcases List.mem_cons.1 member with rfl | later
      · obtain ⟨_, rfl, _⟩ := rest.eq_cons runs
        exact List.mem_cons_self
      · exact List.mem_of_mem_tail (inductionHypothesis later)

/-- A counter that does not wrap below `bound` takes each value that lies a number of steps
behind its start, once. -/
theorem exists_ascending {step bound : Nat} (positive : 0 < step)
    (below : ∀ value, goes value ↔ value < bound)
    (moves : ∀ value, value < bound → moved value = value + step) (start : Nat) :
    ∃ values, Counting moved goes start values ∧ values.Nodup ∧
      ∀ value, value ∈ values ↔ value < bound ∧ ∃ rounds, value = start + rounds * step := by
  induction left : bound - start using Nat.strongRecOn generalizing start with
  | ind room inductionHypothesis =>
      by_cases inside : start < bound
      · obtain ⟨later, rest, nodup, mem_later⟩ :=
          inductionHypothesis (bound - (start + step)) (by omega) (start + step) rfl
        rw [← moves start inside] at rest
        refine ⟨start :: later, .turn ((below start).2 inside) rest, ?_, ?_⟩
        · refine List.nodup_cons.2 ⟨fun member => ?_, nodup⟩
          obtain ⟨_, rounds, same⟩ := (mem_later start).1 member
          omega
        · intro value
          rw [List.mem_cons, mem_later]
          constructor
          · rintro (rfl | ⟨valueInside, rounds, rfl⟩)
            · exact ⟨inside, 0, by simp⟩
            · exact ⟨valueInside, rounds + 1, by ring⟩
          · rintro ⟨valueInside, rounds, rfl⟩
            cases rounds with
            | zero => exact .inl (by simp)
            | succ rounds => exact .inr ⟨valueInside, rounds, by ring⟩
      · refine ⟨[], .ends (mt (below start).1 inside), List.nodup_nil, fun value => ?_⟩
        rw [iff_false_intro List.not_mem_nil, false_iff]
        rintro ⟨valueInside, rounds, rfl⟩
        exact inside (Nat.lt_of_le_of_lt (Nat.le_add_right _ _) valueInside)

end Counting

/-! ### Blocks -/

section Rules

variable {seat : Seat} {locals : Variables} {counters : List (List Nat)}

theorem blockCounts_append {front back : List Statement} :
    blockCounts seat locals (front ++ back) counters ↔
      ∃ first second, counters = first ++ second ∧ blockCounts seat locals front first ∧
        blockCounts seat (blockDeclares seat locals front) back second := by
  induction front generalizing locals counters with
  | nil =>
      constructor
      · intro counts
        exact ⟨[], counters, rfl, rfl, counts⟩
      · rintro ⟨_, _, rfl, rfl, counts⟩
        exact counts
  | cons statement rest inductionHypothesis =>
      constructor
      · rintro ⟨own, behind, rfl, counts, later⟩
        obtain ⟨first, second, rfl, inRest, inBack⟩ := inductionHypothesis.1 later
        exact ⟨own ++ first, second, (List.append_assoc _ _ _).symm,
          ⟨own, first, rfl, counts, inRest⟩, inBack⟩
      · rintro ⟨_, second, rfl, ⟨own, first, rfl, counts, inRest⟩, inBack⟩
        exact ⟨own, first ++ second, List.append_assoc _ _ _, counts,
          inductionHypothesis.2 ⟨first, second, rfl, inRest, inBack⟩⟩

theorem blockBodies_append (front back : List Statement) :
    blockBodies (front ++ back) = blockBodies front ++ blockBodies back := by
  induction front with
  | nil => rfl
  | cons statement rest inductionHypothesis =>
      rw [List.cons_append, blockBodies, blockBodies, inductionHypothesis, List.append_assoc]

/-- A statement without loops is passed over. -/
theorem blockCounts_cons_of_plain {statement : Statement} {rest : List Statement}
    (plain : ∀ own, statement.Counts seat locals own ↔ own = []) :
    blockCounts seat locals (statement :: rest) counters ↔
      blockCounts seat (statement.declares seat locals) rest counters := by
  constructor
  · rintro ⟨own, behind, rfl, counts, later⟩
    rwa [(plain own).1 counts, List.nil_append]
  · intro later
    exact ⟨[], counters, rfl, (plain []).2 rfl, later⟩

@[simp] theorem blockCounts_run_cons {instruction : Instruction} {rest : List Statement} :
    blockCounts seat locals (.run instruction :: rest) counters ↔
      blockCounts seat ((Statement.run instruction).declares seat locals) rest counters :=
  blockCounts_cons_of_plain fun _ => Iff.rfl

@[simp] theorem blockCounts_guarded_cons {condition : Condition} {instruction : Instruction}
    {sameLine : Bool} {rest : List Statement} :
    blockCounts seat locals (.guarded condition instruction sameLine :: rest) counters ↔
      blockCounts seat locals rest counters :=
  blockCounts_cons_of_plain fun _ => Iff.rfl

/-- A block of one statement has its loops. -/
theorem blockCounts_singleton {statement : Statement} :
    blockCounts seat locals [statement] counters ↔ statement.Counts seat locals counters := by
  constructor
  · rintro ⟨own, _, rfl, counts, rfl⟩
    rwa [List.append_nil]
  · intro counts
    exact ⟨counters, [], (List.append_nil counters).symm, counts, rfl⟩

@[simp] theorem counts_scope {body : List Statement} :
    (Statement.scope body).Counts seat locals counters ↔ blockCounts seat locals body counters :=
  Iff.rfl

@[simp] theorem blockCounts_nil : blockCounts seat locals [] counters ↔ counters = [] := Iff.rfl

/-- A block of instructions ends, without a loop. -/
theorem blockCounts_runs (instructions : List Instruction) (locals : Variables) :
    blockCounts seat locals (instructions.map .run) [] := by
  induction instructions generalizing locals with
  | nil => rfl
  | cons instruction rest inductionHypothesis =>
      rw [List.map_cons, blockCounts_run_cons]
      exact inductionHypothesis _

theorem LoopHead.counts_iff {head : LoopHead} {moved : Nat → Nat} {goes : Nat → Prop}
    {start : Nat} {values : List Nat} (moves : ∀ value, head.moved seat locals value = moved value)
    (runs : ∀ value,
      head.condition.Met seat (update locals head.counter value) ↔ goes value)
    (starts : head.start.computed seat locals % uintCount = start) :
    head.Counts seat locals values ↔ Counting moved goes start values := by
  have sameMoved : head.moved seat locals = moved := funext moves
  have sameGoes :
      (fun value => head.condition.Met seat (update locals head.counter value)) = goes :=
    funext fun value => propext (runs value)
  rw [LoopHead.Counts, sameMoved, sameGoes, starts]

/-- A loop over instructions. -/
theorem counts_loop_iff {head : LoopHead} {body : List Statement}
    (ends : ∀ inner, blockCounts seat inner body []) :
    (Statement.loop head body).Counts seat locals counters ↔
      ∃ values, counters = [values] ∧ head.Counts seat locals values := by
  constructor
  · rintro ⟨values, same, counts, _⟩
    exact ⟨values, same, counts⟩
  · rintro ⟨values, same, counts⟩
    exact ⟨values, same, counts, fun _ _ => ⟨[], ends _⟩⟩

end Rules

end KernelTuner.Kernel
