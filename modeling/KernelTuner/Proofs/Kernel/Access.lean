import KernelTuner.Kernel.Basic
import Mathlib.Data.Set.Insert
import Mathlib.Logic.Function.Basic

/-!
Contract: the elements of arrays that a kernel touches.

Owns: the value of an index for a work item, with arithmetic taken as exact; the elements
that instructions, statements and blocks read and write, whatever the data are; and the
rules by which all of them lie in a given set, one for each way of putting statements
together.

Does not own: the values that are computed, and the order in which work items run.
-/

set_option autoImplicit false

namespace KernelTuner.Kernel

/-- The unsigned integers that a work item has in its variables. -/
abbrev Variables := String → Nat

/-- What a work item is told about its place, by dimension. -/
abbrev Seat := WorkItem → Nat → Nat

/-- An element of an array, or of an array of arrays. -/
structure Touch where
  array : String
  indices : List Nat

open Function (update)

/-! ### Indices and conditions -/

variable (seat : Seat) (locals : Variables)

def Index.eval : Index → Nat
  | .literal value => value
  | .var name => locals name
  | .workItem query dimension => seat query dimension
  | .add left right => left.eval + right.eval
  | .sub left right => left.eval - right.eval
  | .mul left right => left.eval * right.eval
  | .div left right => left.eval / right.eval
  | .mod left right => left.eval % right.eval
  | .minimum left right => min left.eval right.eval
  | .narrow index => index.eval

def Condition.Holds : Condition → Prop
  | .less left right => left.eval seat locals < right.eval seat locals
  | .greater left right => right.eval seat locals < left.eval seat locals
  | .equal left right => left.eval seat locals = right.eval seat locals
  | .both left right => left.Holds ∧ right.Holds

/-! ### Touched elements -/

def Place.touched : Place → Set Touch
  | .var _ => ∅
  | .element array indices => {⟨array, indices.map (Index.eval seat locals)⟩}

/-- The elements of a vector of `width` consecutive elements. -/
def vectorTouched (width : Nat) (index : Index) (array : String) : Set Touch :=
  {touch | ∃ lane < width, touch = ⟨array, [width * index.eval seat locals + lane]⟩}

def Value.touched : Value → Set Touch
  | .literal _ => ∅
  | .read place => place.touched seat locals
  | .load width index array => vectorTouched seat locals width index array
  | .lane _ _ => ∅
  | .binary _ left right => left.touched ∪ right.touched
  | .orZero condition value => {touch | condition.Holds seat locals ∧ touch ∈ value.touched}
  | .group value => value.touched

def Instruction.touched : Instruction → Set Touch
  | .declareIndex _ _ => ∅
  | .declareValue _ _ value => value.touched seat locals
  | .declareArray _ _ _ _ => ∅
  | .assign place value => place.touched seat locals ∪ value.touched seat locals
  | .accumulate place value => place.touched seat locals ∪ value.touched seat locals
  | .store width value index array =>
      value.touched seat locals ∪ vectorTouched seat locals width index array
  | .barrier => ∅

/-- The counter of a loop in the turn behind one in which it is `value`. -/
def LoopHead.next (head : LoopHead) (value : Nat) : Nat :=
  match head.stride with
  | .increment => value + 1
  | .advance distance => value + distance.eval seat (update locals head.counter value)
  | .halve => value / 2

/-- The values of its counter for which the body of a loop runs. -/
inductive LoopHead.Turn (head : LoopHead) : Nat → Prop where
  | first
      (runs : head.condition.Holds seat
        (update locals head.counter (head.start.eval seat locals))) :
      Turn head (head.start.eval seat locals)
  | next {value : Nat} (turn : Turn head value)
      (runs : head.condition.Holds seat
        (update locals head.counter (head.next seat locals value))) :
      Turn head (head.next seat locals value)

/-- The variables behind a statement. What a block or a loop declares ends with it. -/
def Statement.bind : Statement → Variables
  | .run (.declareIndex name value) => update locals name (value.eval seat locals)
  | _ => locals

/-- The variables behind statements one after another. -/
def blockBind (locals : Variables) (block : List Statement) : Variables :=
  block.foldl (fun locals statement => statement.bind seat locals) locals

mutual

/-- What a work item touches in a statement that it reaches with these variables. -/
def Statement.touched (locals : Variables) : Statement → Set Touch
  | .run instruction => instruction.touched seat locals
  | .guarded condition instruction _ =>
      {touch | condition.Holds seat locals ∧ touch ∈ instruction.touched seat locals}
  | .scope body => blockTouched locals body
  | .loop head body =>
      {touch | ∃ value, head.Turn seat locals value ∧
        touch ∈ blockTouched (update locals head.counter value) body}
  | .loopOver head body =>
      {touch | ∃ value, head.Turn seat locals value ∧
        touch ∈ body.touched (update locals head.counter value)}
  | .unroll _ => ∅

/-- What it touches in statements one after another. -/
def blockTouched (locals : Variables) : List Statement → Set Touch
  | [] => ∅
  | statement :: rest =>
      statement.touched locals ∪ blockTouched (statement.bind seat locals) rest

end

/-! ### Rules -/

section Rules

variable {seat locals} {allowed : Set Touch}

@[simp] theorem Place.touched_var (name : String) :
    (Place.var name).touched seat locals = ∅ := rfl

@[simp] theorem Value.touched_literal (value : Nat) :
    (Value.literal value).touched seat locals = ∅ := rfl

@[simp] theorem Value.touched_read (place : Place) :
    (Value.read place).touched seat locals = place.touched seat locals := rfl

@[simp] theorem Value.touched_load (width : Nat) (index : Index) (array : String) :
    (Value.load width index array).touched seat locals =
      vectorTouched seat locals width index array := rfl

@[simp] theorem Value.touched_lane (vector : String) (lane : Nat) :
    (Value.lane vector lane).touched seat locals = ∅ := rfl

@[simp] theorem Value.touched_binary (operator : Arithmetic) (left right : Value) :
    (Value.binary operator left right).touched seat locals =
      left.touched seat locals ∪ right.touched seat locals := rfl

@[simp] theorem Value.touched_group (value : Value) :
    (Value.group value).touched seat locals = value.touched seat locals := rfl

@[simp] theorem Statement.touched_run (instruction : Instruction) :
    (Statement.run instruction).touched seat locals = instruction.touched seat locals := rfl

@[simp] theorem Statement.touched_scope (body : List Statement) :
    (Statement.scope body).touched seat locals = blockTouched seat locals body := rfl

@[simp] theorem Statement.touched_unroll (factor : Nat) :
    (Statement.unroll factor).touched seat locals = ∅ := rfl

@[simp] theorem Place.touched_element_subset {array : String} {indices : List Index} :
    (Place.element array indices).touched seat locals ⊆ allowed ↔
      ⟨array, indices.map (Index.eval seat locals)⟩ ∈ allowed :=
  Set.singleton_subset_iff

@[simp] theorem vectorTouched_subset {width : Nat} {index : Index} {array : String} :
    vectorTouched seat locals width index array ⊆ allowed ↔
      ∀ lane < width, ⟨array, [width * index.eval seat locals + lane]⟩ ∈ allowed := by
  constructor
  · intro inside lane within
    exact inside ⟨lane, within, rfl⟩
  · rintro inside _ ⟨lane, within, rfl⟩
    exact inside lane within

@[simp] theorem Value.touched_orZero_subset {condition : Condition} {value : Value} :
    (Value.orZero condition value).touched seat locals ⊆ allowed ↔
      (condition.Holds seat locals → value.touched seat locals ⊆ allowed) :=
  ⟨fun inside holds _ touched => inside ⟨holds, touched⟩,
    fun inside _ touched => inside touched.1 touched.2⟩

@[simp] theorem Statement.touched_guarded_subset {condition : Condition}
    {instruction : Instruction} {sameLine : Bool} :
    (Statement.guarded condition instruction sameLine).touched seat locals ⊆ allowed ↔
      (condition.Holds seat locals → instruction.touched seat locals ⊆ allowed) :=
  ⟨fun inside holds _ touched => inside ⟨holds, touched⟩,
    fun inside _ touched => inside touched.1 touched.2⟩

@[simp] theorem Statement.touched_loop_subset {head : LoopHead} {body : List Statement} :
    (Statement.loop head body).touched seat locals ⊆ allowed ↔
      ∀ value, head.Turn seat locals value →
        blockTouched seat (update locals head.counter value) body ⊆ allowed :=
  ⟨fun inside value turn _ touched => inside ⟨value, turn, touched⟩,
    fun inside _ ⟨value, turn, touched⟩ => inside value turn touched⟩

@[simp] theorem Statement.touched_loopOver_subset {head : LoopHead} {body : Statement} :
    (Statement.loopOver head body).touched seat locals ⊆ allowed ↔
      ∀ value, head.Turn seat locals value →
        body.touched seat (update locals head.counter value) ⊆ allowed :=
  ⟨fun inside value turn _ touched => inside ⟨value, turn, touched⟩,
    fun inside _ ⟨value, turn, touched⟩ => inside value turn touched⟩

@[simp] theorem blockTouched_nil : blockTouched seat locals [] = ∅ := rfl

@[simp] theorem blockTouched_cons_subset {statement : Statement} {rest : List Statement} :
    blockTouched seat locals (statement :: rest) ⊆ allowed ↔
      statement.touched seat locals ⊆ allowed ∧
        blockTouched seat (statement.bind seat locals) rest ⊆ allowed :=
  Set.union_subset_iff

@[simp] theorem mem_blockTouched_cons {statement : Statement} {rest : List Statement}
    {touch : Touch} : touch ∈ blockTouched seat locals (statement :: rest) ↔
      touch ∈ statement.touched seat locals ∨
        touch ∈ blockTouched seat (statement.bind seat locals) rest := Iff.rfl

theorem blockBind_append (front back : List Statement) :
    blockBind seat locals (front ++ back) =
      blockBind seat (blockBind seat locals front) back :=
  List.foldl_append

theorem blockTouched_append (front back : List Statement) :
    blockTouched seat locals (front ++ back) =
      blockTouched seat locals front ∪ blockTouched seat (blockBind seat locals front) back := by
  induction front generalizing locals with
  | nil => exact (Set.empty_union _).symm
  | cons statement rest inductionHypothesis =>
      rw [List.cons_append, blockTouched, blockTouched, inductionHypothesis, Set.union_assoc]
      rfl

@[simp] theorem blockTouched_append_subset {front back : List Statement} :
    blockTouched seat locals (front ++ back) ⊆ allowed ↔
      blockTouched seat locals front ⊆ allowed ∧
        blockTouched seat (blockBind seat locals front) back ⊆ allowed := by
  rw [blockTouched_append, Set.union_subset_iff]

/-- Statements that may be left out. -/
theorem blockBind_optional (condition : Prop) [Decidable condition] {block : List Statement}
    (inert : blockBind seat locals block = locals) :
    blockBind seat locals (if condition then block else []) = locals := by
  split
  · exact inert
  · rfl

theorem blockTouched_optional_subset (condition : Prop) [Decidable condition]
    {block : List Statement} (inside : blockTouched seat locals block ⊆ allowed) :
    blockTouched seat locals (if condition then block else []) ⊆ allowed := by
  split
  · exact inside
  · exact Set.empty_subset allowed

@[simp] theorem mem_touched_loop {head : LoopHead} {body : List Statement} {touch : Touch} :
    touch ∈ (Statement.loop head body).touched seat locals ↔
      ∃ value, head.Turn seat locals value ∧
        touch ∈ blockTouched seat (update locals head.counter value) body := Iff.rfl

/-! ### Turns of loops -/

namespace LoopHead

variable {head : LoopHead} {value : Nat}

theorem Turn.runs (turn : head.Turn seat locals value) :
    head.condition.Holds seat (update locals head.counter value) := by
  cases turn with
  | first runs => exact runs
  | next _ runs => exact runs

/-- A counter that moves on by `step` below `bound` takes the values a number of steps
behind its start. -/
theorem turn_iff (step bound : Nat)
    (moves : ∀ value, head.next seat locals value = value + step)
    (below : ∀ value,
      head.condition.Holds seat (update locals head.counter value) ↔ value < bound) :
    head.Turn seat locals value ↔
      value < bound ∧ ∃ rounds, value = head.start.eval seat locals + rounds * step := by
  constructor
  · intro turn
    refine ⟨(below value).1 turn.runs, ?_⟩
    induction turn with
    | first _ => exact ⟨0, by simp⟩
    | next _ _ inductionHypothesis =>
        obtain ⟨rounds, reached⟩ := inductionHypothesis
        exact ⟨rounds + 1, by rw [moves, reached, Nat.add_mul, Nat.one_mul, Nat.add_assoc]⟩
  · rintro ⟨inside, rounds, rfl⟩
    induction rounds with
    | zero =>
        rw [Nat.zero_mul, Nat.add_zero] at inside ⊢
        exact .first ((below _).2 inside)
    | succ rounds inductionHypothesis =>
        have split : head.start.eval seat locals + (rounds + 1) * step =
            head.next seat locals (head.start.eval seat locals + rounds * step) := by
          rw [moves, Nat.add_mul, Nat.one_mul, Nat.add_assoc]
        rw [split] at inside ⊢
        have earlier : head.start.eval seat locals + rounds * step < bound := by
          rw [moves] at inside
          omega
        exact .next (inductionHypothesis earlier) ((below _).2 inside)

end LoopHead

end Rules

end KernelTuner.Kernel
