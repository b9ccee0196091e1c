import KernelTuner.Proofs.Kernel.Folding
import KernelTuner.Variant.MatrixVector

/-!
Contract: the columns that a work item of a matrix-vector product visits for an output.

Owns: the shares of columns, by which the work items along a row of a group share out the inner
extent; the columns that show in the steps of a work item; and the loops over columns of the fetch
policies that read the vector where it is.

Does not own: the policy that stages the vector (`Proofs.Variant.MatrixVectorShares`).
-/

set_option autoImplicit false

namespace KernelTuner

open Kernel
open Function (update)

namespace MatrixVector

/-! ### Columns -/

/-- The element of the matrix that contributes entry `c` to output `r`. -/
def placeOf (axis : Axis) (columnCount r c : Nat) : Nat :=
  match axis with
  | .rows => r * columnCount + c
  | .columns => c * columnCount + r

/-- The columns that the work item in this lane has for output `r`. -/
def columns (params : MatrixVector) (sizes : Variables) (r lane : Nat) : List Nat :=
  if r < sizes (outerName params.axis) then
    portion params.fetch params.localSize1 (sizes (innerName params.axis)) lane
  else []

/-- An instruction that adds to the sum of a work item. -/
def Adds (instruction : Instruction) : Prop := ∃ value, instruction = .accumulate (.var "acc") value

instance (instruction : Instruction) : Decidable (Adds instruction) :=
  match instruction with
  | .accumulate (.var name) value =>
      decidable_of_iff (name = "acc") (by simp [Adds])
  | .accumulate (.element _ _) _ => isFalse (by simp [Adds])
  | .declareIndex _ _ => isFalse (by simp [Adds])
  | .declareValue _ _ _ => isFalse (by simp [Adds])
  | .declareArray _ _ _ _ => isFalse (by simp [Adds])
  | .assign _ _ => isFalse (by simp [Adds])
  | .store _ _ _ _ => isFalse (by simp [Adds])
  | .barrier => isFalse (by simp [Adds])

/-- The columns for which something is added to output `r` in these steps. -/
def visited (r : Nat) (steps : List Step) : List Nat :=
  steps.filterMap fun step =>
    if Adds step.instruction ∧ step.locals "r" = r then some (step.locals "c") else none

/-- A step that adds to an output adds a product of an element inside the matrix. -/
def Inside (params : MatrixVector) (sizes : Variables) (step : Step) : Prop :=
  Adds step.instruction → step.locals "r" < sizes (outerName params.axis) ∧
    step.locals "c" < sizes (innerName params.axis) ∧ step.locals "N" = sizes "N" ∧
      ∃ array index, array ≠ "A" ∧ step.instruction = addProduct params.axis array index

/-- What a work item knows in a round: its place in the group, its output, and the sizes. -/
structure Knows (sizes : Variables) (row lane r : Nat) (locals : Variables) : Prop where
  row : locals "lid0" = row
  lane : locals "lid1" = lane
  output : locals "r" = r
  rows : locals "M" = sizes "M"
  columns : locals "N" = sizes "N"

section Columns

variable {params : MatrixVector} {sizes locals : Variables} {row lane r : Nat}

theorem placeOf_lt {axis : Axis} {c rows columnCount : Nat}
    (output : r < (extents axis rows columnCount).1) (input : c < (extents axis rows columnCount).2) :
    placeOf axis columnCount r c < rows * columnCount := by
  cases axis with
  | rows => exact place_lt output input
  | columns => exact place_lt input output

theorem columns_allotment (wide : 0 < params.localSize1)
    (below : r < sizes (outerName params.axis)) :
    Allotment params.localSize1 (params.columns sizes r)
      (List.range (sizes (innerName params.axis))) := by
  have same : params.columns sizes r =
      portion params.fetch params.localSize1 (sizes (innerName params.axis)) :=
    funext fun _ => if_pos below
  rw [same]
  exact portion_allotment params.fetch _ wide

theorem column_lt (wide : 0 < params.localSize1) {c : Nat} (listed : c ∈ params.columns sizes r lane) :
    r < sizes (outerName params.axis) ∧ c < sizes (innerName params.axis) := by
  unfold columns at listed
  split at listed
  · next below => exact ⟨below, lt_of_mem_portion wide listed⟩
  · cases listed

namespace Knows

variable (knows : Knows sizes row lane r locals)
include knows

theorem update (name : String) (value : Nat) (apart : name ∉ ["lid0", "lid1", "r", "M", "N"]) :
    Knows sizes row lane r (Function.update locals name value) := by
  simp only [List.mem_cons, List.not_mem_nil, or_false, not_or] at apart
  obtain ⟨notRow, notLane, notOutput, notRows, notColumns⟩ := apart
  constructor
  · rw [Function.update_of_ne (Ne.symm notRow), knows.row]
  · rw [Function.update_of_ne (Ne.symm notLane), knows.lane]
  · rw [Function.update_of_ne (Ne.symm notOutput), knows.output]
  · rw [Function.update_of_ne (Ne.symm notRows), knows.rows]
  · rw [Function.update_of_ne (Ne.symm notColumns), knows.columns]

theorem outer (axis : Axis) : locals (outerName axis) = sizes (outerName axis) := by
  cases axis with
  | rows => exact knows.rows
  | columns => exact knows.columns

theorem inner (axis : Axis) : locals (innerName axis) = sizes (innerName axis) := by
  cases axis with
  | rows => exact knows.columns
  | columns => exact knows.rows

/-- The contribution of a column. -/
theorem matrixElement_eval (axis : Axis) (seat : Seat) {α : Type} {meaning : Meaning α}
    (memory : Memory α) (lane : Nat) :
    (matrixElement axis).inLane meaning seat locals memory lane =
      memory.elements ⟨"A", [placeOf axis (sizes "N") r (locals "c")]⟩ := by
  cases axis with
  | rows => simp [matrixElement, Value.inLane, Place.found, Index.eval, placeOf, knows.output,
      knows.columns]
  | columns => simp [matrixElement, Value.inLane, Place.found, Index.eval, placeOf, knows.output,
      knows.columns]

end Knows

/-! ### Visits -/

@[simp] theorem visited_nil : visited r [] = [] := rfl

theorem visited_append {front back : List Step} :
    visited r (front ++ back) = visited r front ++ visited r back := List.filterMap_append

theorem visited_flatMap {values : List Nat} {rounds : Nat → List Step} :
    visited r (values.flatMap rounds) = values.flatMap fun value => visited r (rounds value) := by
  induction values with
  | nil => rfl
  | cons value values inductionHypothesis =>
      rw [List.flatMap_cons, visited_append, inductionHypothesis, List.flatMap_cons]

theorem visited_eq_nil {steps : List Step} (none : ∀ step ∈ steps, ¬ Adds step.instruction) :
    visited r steps = [] :=
  List.filterMap_eq_nil_iff.2 fun step listed => if_neg fun both => none step listed both.1

theorem not_adds_of_idle {step : Step} (idle : step.Idle) : ¬ Adds step.instruction := by
  rintro ⟨value, isAdd⟩
  obtain ⟨name, index, isIndex⟩ := idle
  rw [isIndex] at isAdd
  cases isAdd

/-- Turns that add to one output visit their columns for it. -/
theorem visited_turns {turns : List Nat} {inner : Nat → Variables} {instruction : Instruction}
    {output : Nat} (adds : Adds instruction) (outputs : ∀ c ∈ turns, inner c "r" = output)
    (counts : ∀ c ∈ turns, inner c "c" = c) :
    visited r (turns.flatMap fun c => [⟨inner c, instruction⟩]) =
      if output = r then turns else [] := by
  induction turns with
  | nil => simp
  | cons c rest inductionHypothesis =>
      rw [List.forall_mem_cons] at outputs counts
      rw [List.flatMap_cons, visited_append, inductionHypothesis outputs.2 counts.2]
      by_cases same : output = r
      · simp [visited, adds, outputs.1, counts.1, same]
      · simp [visited, outputs.1, same]

end Columns

/-! ### Loops over columns -/

section Direct

variable {params : MatrixVector} {sizes locals : Variables} {seat : Seat} {row lane r : Nat}

/-- A loop over columns does nothing for an output that is not there. -/
theorem takes_columns (params : MatrixVector) (sizes : Variables) (r : Nat) (seat : Seat)
    (locals : Variables) (head : LoopHead) (bound : Nat) {step : Nat} (positive : 0 < step)
    (moves : ∀ value, head.next seat locals value = value + step)
    (below : ∀ value, head.condition.Holds seat (update locals head.counter value) ↔
      r < sizes (outerName params.axis) ∧ value < bound) :
    head.Takes seat locals (if r < sizes (outerName params.axis) then
      stepsBelow (head.start.eval seat locals) bound step else []) := by
  by_cases output : r < sizes (outerName params.axis)
  · rw [if_pos output]
    exact (LoopHead.takes_iff positive bound moves fun value => (below value).trans
      (and_iff_right output)).2 rfl
  · rw [if_neg output]
    exact .ends fun holds => output ((below _).1 holds).1

theorem exists_strided (strided : params.fetch = .strided) (wide : 0 < params.localSize1)
    (knows : Knows sizes row lane r locals) :
    ∃ inner : Variables, Knows sizes row lane r inner ∧ ∃ declared : List Step,
      (∀ step ∈ declared, step.Idle) ∧ blockUnrolls seat locals params.accumulation
        (declared ++ (params.columns sizes r lane).flatMap fun c =>
          [⟨update inner "c" c, addProduct params.axis "x" (.var "c")⟩]) := by
  have takes := takes_columns params sizes r seat locals (⟨"c", .var "lid1",
      .both (.less (.var "r") (.var (outerName params.axis)))
        (.less (.var "c") (.var (innerName params.axis))), .advance (.literal params.localSize1)⟩)
    (sizes (innerName params.axis)) wide (fun _ => rfl) fun value => by
      have known := knows.update "c" value (by decide)
      simp only [Condition.Holds, Index.eval, known.outer, known.inner, known.output,
        Function.update_self]
  refine ⟨locals, knows, [], List.forall_mem_nil _, ?_⟩
  rw [accumulation, strided, List.nil_append]
  refine blockUnrolls_singleton.2 (unrolls_loopOver.2 ((unrolls_loop_of_takes takes).2
    ⟨_, fun c _ => blockUnrolls_singleton.2 rfl, ?_⟩))
  rw [columns, strided]
  simp only [Index.eval, knows.lane]
  rfl

theorem exists_contiguous (contiguous : params.fetch = .contiguous)
    (knows : Knows sizes row lane r locals) :
    ∃ inner : Variables, Knows sizes row lane r inner ∧ ∃ declared : List Step,
      (∀ step ∈ declared, step.Idle) ∧ blockUnrolls seat locals params.accumulation
        (declared ++ (params.columns sizes r lane).flatMap fun c =>
          [⟨update inner "c" c, addProduct params.axis "x" (.var "c")⟩]) := by
  let count := sizes (innerName params.axis)
  let chunk := chunkSize count params.localSize1
  let bounded := update (update locals "chunk" chunk) "end" (min ((lane + 1) * chunk) count)
  have knowsEnd : Knows sizes row lane r bounded :=
    (knows.update _ _ (by decide)).update _ _ (by decide)
  let width : Index := .literal params.localSize1
  let declarations : List (String × Index) := [
    ("chunk", .div (.sub (.add (.var (innerName params.axis)) width) (.literal 1)) width),
    ("end", .minimum (.mul (.add (.var "lid1") (.literal 1)) (.var "chunk"))
      (.narrow (.var (innerName params.axis))))]
  have declares : blockBind seat locals
      (declarations.map fun declaration => .run (.declareIndex declaration.1 declaration.2)) =
        bounded := by
    have knowsChunk : Knows sizes row lane r (update locals "chunk" chunk) :=
      knows.update _ _ (by decide)
    have chunkEval : Index.eval seat locals
        (.div (.sub (.add (.var (innerName params.axis)) width) (.literal 1)) width) = chunk := by
      simp only [width, Index.eval, knows.inner]
      rfl
    simp only [declarations, blockBind, List.map_cons, List.map_nil, List.foldl_cons,
      List.foldl_nil, Statement.bind, chunkEval]
    simp only [Index.eval, knowsChunk.inner, knowsChunk.lane, Function.update_self]
    rfl
  have takes := takes_columns params sizes r seat bounded (⟨"c", .mul (.var "lid1") (.var "chunk"),
      .both (.less (.var "r") (.var (outerName params.axis))) (.less (.var "c") (.var "end")),
      .increment⟩) (min ((lane + 1) * chunk) count) Nat.one_pos (fun _ => rfl)
    fun value => by
      have known := knowsEnd.update "c" value (by decide)
      have limit : update bounded "c" value "end" = min ((lane + 1) * chunk) count := by
        simp [bounded]
      simp only [Condition.Holds, Index.eval, known.outer, known.output, limit,
        Function.update_self]
  obtain ⟨declared, idle, unrolls⟩ := exists_idle seat locals declarations
  refine ⟨bounded, knowsEnd, declared, idle, ?_⟩
  rw [accumulation, contiguous]
  refine blockUnrolls_append.2 ⟨_, _, rfl, unrolls, ?_⟩
  rw [declares]
  refine blockUnrolls_singleton.2 (unrolls_loopOver.2 ((unrolls_loop_of_takes takes).2
    ⟨_, fun c _ => blockUnrolls_singleton.2 rfl, ?_⟩))
  have starts : (Index.mul (.var "lid1") (.var "chunk")).eval seat bounded = lane * chunk := by
    simp only [Index.eval, knowsEnd.lane]
    simp [bounded]
  rw [columns, contiguous, portion, starts, Nat.succ_mul]

/-- The steps of a work item that reads the vector where it is. -/
theorem exists_direct (seat : Seat) (direct : params.fetch ≠ .staged) (wide : 0 < params.localSize1)
    (knows : Knows sizes row lane r locals) :
    ∃ inner : Variables, Knows sizes row lane r inner ∧ ∃ declared : List Step,
      (∀ step ∈ declared, step.Idle) ∧ blockUnrolls seat locals params.accumulation
        (declared ++ (params.columns sizes r lane).flatMap fun c =>
          [⟨update inner "c" c, addProduct params.axis "x" (.var "c")⟩]) := by
  cases fetched : params.fetch with
  | staged => exact absurd fetched direct
  | strided => exact exists_strided fetched wide knows
  | contiguous => exact exists_contiguous fetched knows

end Direct

end MatrixVector

end KernelTuner
