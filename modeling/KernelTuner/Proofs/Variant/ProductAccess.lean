import KernelTuner.Proofs.Kernel.RangeAccess
import KernelTuner.Variant.MatrixProduct

/-!
Contract: the elements that kernels of matrix products touch.

Owns: the places of the elements of both operands, transposed or not; and `kernel_subset`,
by which a work item stays inside the three matrices. The guarded kernel does so by its own
conditions, and the unguarded one because all tiles are full where it is launched.
-/

set_option autoImplicit false

namespace KernelTuner

open Kernel

variable {seat : Seat} {locals : Variables} {allowed : Set Touch}

namespace MatrixProduct

variable (params : MatrixProduct)

/-- Place in `A` of an element of `op(A)`. -/
def offsetA (m k row step : Nat) : Nat :=
  if params.transposedA then step * m + row else row * k + step

/-- Place in `B` of an element of `op(B)`. -/
def offsetB (n k step column : Nat) : Nat :=
  if params.transposedB then column * k + step else step * n + column

variable {params} in
theorem offsetA_lt {m k row step : Nat} (rowInside : row < m) (stepInside : step < k) :
    params.offsetA m k row step < m * k := by
  unfold offsetA
  split
  · rw [Nat.mul_comm m]
    exact place_lt stepInside rowInside
  · exact place_lt rowInside stepInside

variable {params} in
theorem offsetB_lt {n k step column : Nat} (stepInside : step < k) (columnInside : column < n) :
    params.offsetB n k step column < k * n := by
  unfold offsetB
  split
  · rw [Nat.mul_comm k]
    exact place_lt columnInside stepInside
  · exact place_lt stepInside columnInside

/-- The elements of the operands, by the sizes that a kernel is given, and the local
arrays may be touched. -/
structure Opens (outer : Variables) (allowed : Set Touch) : Prop where
  c : ∀ row < outer "M", ∀ column < outer "N", ⟨"C", [row * outer "N" + column]⟩ ∈ allowed
  a : ∀ row < outer "M", ∀ step < outer "K",
    ⟨"A", [params.offsetA (outer "M") (outer "K") row step]⟩ ∈ allowed
  b : ∀ step < outer "K", ∀ column < outer "N",
    ⟨"B", [params.offsetB (outer "N") (outer "K") step column]⟩ ∈ allowed
  tileA : ∀ indices, ⟨"As", indices⟩ ∈ allowed
  tileB : ∀ indices, ⟨"Bs", indices⟩ ∈ allowed
  accumulators : ∀ indices, ⟨"acc", indices⟩ ∈ allowed

variable {params} in
theorem Opens.of_sizes {outer inner : Variables} (opens : params.Opens outer allowed)
    (m : inner "M" = outer "M") (n : inner "N" = outer "N") (k : inner "K" = outer "K") :
    params.Opens inner allowed := by
  obtain ⟨c, a, b, tileA, tileB, accumulators⟩ := opens
  rw [← m, ← n] at c
  rw [← m, ← k] at a
  rw [← n, ← k] at b
  exact ⟨c, a, b, tileA, tileB, accumulators⟩

/-- The place of a work item in the output, where an unguarded kernel finds full tiles. -/
structure Placed (guarded : Bool) (outer : Variables) : Prop where
  lid0 : outer "lid0" < params.localSize0
  lid1 : outer "lid1" < params.localSize1
  rows : guarded = false → outer "row0" + params.tileM ≤ outer "M"
  columns : guarded = false → outer "col0" + params.tileN ≤ outer "N"

/-- The place of a work item in a step along `K`, where an unguarded kernel finds a full
tile. -/
structure Tiled (guarded : Bool) (outer : Variables) : Prop extends params.Placed guarded outer where
  steps : guarded = false → outer "k0" + params.tileK ≤ outer "K"

/-- The variables that stay as they are while a tile is worked on. -/
def frame : List String := ["M", "N", "K", "row0", "col0", "k0", "lid0", "lid1"]

def SameFrame (inner outer : Variables) : Prop := ∀ name ∈ frame, inner name = outer name

theorem SameFrame.refl (outer : Variables) : SameFrame outer outer := fun _ _ => rfl

theorem SameFrame.update {inner outer : Variables} (same : SameFrame inner outer) {name : String}
    (unframed : name ∉ frame) (value : Nat) :
    SameFrame (Function.update inner name value) outer := by
  intro other framed
  have apart : other ≠ name := fun equal => unframed (equal ▸ framed)
  rw [Function.update_of_ne apart]
  exact same other framed

variable {params} {guarded : Bool} {outer inner : Variables}

theorem strideLoop_subset {counter start : String} {count distance : Nat} {body : Statement}
    (inside : ∀ value < count,
      body.touched seat (Function.update locals counter value) ⊆ allowed) :
    (strideLoop counter start count distance body).touched seat locals ⊆ allowed := by
  unfold strideLoop
  rw [Statement.touched_loopOver_subset]
  intro value turn
  apply inside
  simpa [Condition.Holds, Index.eval] using turn.runs

@[simp] theorem countTo_counter (counter : String) (count : Nat) :
    (countTo counter count).counter = counter := rfl

theorem countTo_turn {counter : String} {count value : Nat}
    (turn : (countTo counter count).Turn seat locals value) : value < count := by
  simpa [countTo, Condition.Holds, Index.eval] using turn.runs

theorem guardedValue_subset {position step : Index} {extent : String} {value : Value}
    (full : guarded = false →
      position.eval seat inner < inner extent ∧ step.eval seat inner < inner "K")
    (inside : position.eval seat inner < inner extent → step.eval seat inner < inner "K" →
      value.touched seat inner ⊆ allowed) :
    (guardedValue guarded position extent step value).touched seat inner ⊆ allowed := by
  cases guarded with
  | true =>
      simp only [guardedValue, ↓reduceIte, Value.touched_group, Value.touched_orZero_subset]
      rintro ⟨within, below⟩
      exact inside within below
  | false =>
      obtain ⟨within, below⟩ := full rfl
      exact inside within below

theorem elementA_subset (opens : params.Opens outer allowed) (same : SameFrame inner outer)
    {row step : Index} (within : row.eval seat inner < inner "M")
    (below : step.eval seat inner < inner "K") :
    (params.elementA row step).touched seat inner ⊆ allowed := by
  have sizeM := same "M" (by decide)
  have sizeK := same "K" (by decide)
  rw [sizeM] at within
  rw [sizeK] at below
  have allows := opens.a _ within _ below
  unfold offsetA at allows
  unfold elementA
  by_cases transposed : params.transposedA
  · simpa [transposed, Index.eval, sizeM] using allows
  · simpa [transposed, Index.eval, sizeK] using allows

theorem elementB_subset (opens : params.Opens outer allowed) (same : SameFrame inner outer)
    {step column : Index} (within : column.eval seat inner < inner "N")
    (below : step.eval seat inner < inner "K") :
    (params.elementB step column).touched seat inner ⊆ allowed := by
  have sizeN := same "N" (by decide)
  have sizeK := same "K" (by decide)
  rw [sizeN] at within
  rw [sizeK] at below
  have allows := opens.b _ below _ within
  unfold offsetB at allows
  unfold elementB
  by_cases transposed : params.transposedB
  · simpa [transposed, Index.eval, sizeK] using allows
  · simpa [transposed, Index.eval, sizeN] using allows

/-- An element of `op(A)` in the tile, at a row and a step that are inside the tile. -/
theorem tileA_subset (opens : params.Opens outer allowed) (tiled : params.Tiled guarded outer)
    (same : SameFrame inner outer) {row step : String} (rowInside : inner row < params.tileM)
    (stepInside : inner step < params.tileK) :
    (guardedValue guarded (blockRow row) "M" (blockStep step)
      (params.elementA (blockRow row) (blockStep step))).touched seat inner ⊆ allowed := by
  apply guardedValue_subset
  · intro unguarded
    have fullRows := tiled.rows unguarded
    have fullSteps := tiled.steps unguarded
    simp only [blockRow, blockStep, Index.eval, same "row0" (by decide), same "M" (by decide),
      same "k0" (by decide), same "K" (by decide)]
    omega
  · exact elementA_subset opens same

theorem tileB_subset (opens : params.Opens outer allowed) (tiled : params.Tiled guarded outer)
    (same : SameFrame inner outer) {column step : String}
    (columnInside : inner column < params.tileN) (stepInside : inner step < params.tileK) :
    (guardedValue guarded (blockColumn column) "N" (blockStep step)
      (params.elementB (blockStep step) (blockColumn column))).touched seat inner ⊆ allowed := by
  apply guardedValue_subset
  · intro unguarded
    have fullColumns := tiled.columns unguarded
    have fullSteps := tiled.steps unguarded
    simp only [blockColumn, blockStep, Index.eval, same "col0" (by decide), same "N" (by decide),
      same "k0" (by decide), same "K" (by decide)]
    omega
  · exact elementB_subset opens same

theorem stageA_subset (opens : params.Opens outer allowed) (tiled : params.Tiled guarded outer)
    (same : SameFrame inner outer) : (params.stageA guarded).touched seat inner ⊆ allowed := by
  unfold stageA
  apply strideLoop_subset
  intro step stepInside
  apply strideLoop_subset
  intro row rowInside
  simp only [Statement.touched_run, Instruction.touched, Set.union_subset_iff,
    Place.touched_element_subset]
  refine ⟨opens.tileA _, tileA_subset opens tiled ?_ ?_ ?_⟩
  · exact (same.update (by decide) _).update (by decide) _
  · simpa using rowInside
  · simpa using stepInside

theorem stageB_subset (opens : params.Opens outer allowed) (tiled : params.Tiled guarded outer)
    (same : SameFrame inner outer) : (params.stageB guarded).touched seat inner ⊆ allowed := by
  unfold stageB
  apply strideLoop_subset
  intro step stepInside
  apply strideLoop_subset
  intro column columnInside
  simp only [Statement.touched_run, Instruction.touched, Set.union_subset_iff,
    Place.touched_element_subset]
  refine ⟨opens.tileB _, tileB_subset opens tiled ?_ ?_ ?_⟩
  · exact (same.update (by decide) _).update (by decide) _
  · simpa using columnInside
  · simpa using stepInside

/-- The rows of a work item are `localSize` apart and inside the tile. -/
theorem strided_lt {lane localSize turn perItem : Nat} (laneInside : lane < localSize)
    (turnInside : turn < perItem) : lane + turn * localSize < localSize * perItem := by
  have room := Nat.mul_le_mul_left localSize turnInside
  rw [Nat.mul_succ, Nat.mul_comm] at room
  omega

theorem factorA_subset (opens : params.Opens outer allowed) (tiled : params.Tiled guarded outer)
    (same : SameFrame inner outer) (rowInside : inner "lr" < params.tileM)
    (stepInside : inner "kk" < params.tileK) :
    (params.factorA guarded).touched seat inner ⊆ allowed := by
  unfold factorA
  by_cases staged : params.fetchA = .staged
  · simp [staged, opens.tileA]
  · rw [if_neg staged]
    exact tileA_subset opens tiled same rowInside stepInside

theorem factorB_subset (opens : params.Opens outer allowed) (tiled : params.Tiled guarded outer)
    (same : SameFrame inner outer) (columnInside : inner "lc" < params.tileN)
    (stepInside : inner "kk" < params.tileK) :
    (params.factorB guarded).touched seat inner ⊆ allowed := by
  unfold factorB
  by_cases staged : params.fetchB = .staged
  · simp [staged, opens.tileB]
  · rw [if_neg staged]
    exact tileB_subset opens tiled same columnInside stepInside

/-- One step along `K` stays inside the tile. -/
theorem tileProduct_subset (opens : params.Opens outer allowed)
    (tiled : params.Tiled guarded outer) (type : ElementType) :
    blockTouched seat outer (params.tileProduct guarded type) ⊆ allowed := by
  have same := SameFrame.refl outer
  have barrier : blockBind seat outer (if params.staged then [.run .barrier] else []) = outer :=
    blockBind_optional _ rfl
  have bindA : blockBind seat outer
      (if params.fetchA = .staged then [params.stageA guarded] else []) = outer :=
    blockBind_optional _ rfl
  have bindB : blockBind seat outer
      (if params.fetchB = .staged then [params.stageB guarded] else []) = outer :=
    blockBind_optional _ rfl
  simp only [tileProduct, blockTouched_append_subset, blockBind_append, barrier, bindA, bindB]
  refine ⟨⟨⟨⟨?_, ?_⟩, ?_⟩, ?_⟩, ?_⟩
  · apply blockTouched_optional_subset
    simp [Instruction.touched]
  · apply blockTouched_optional_subset
    simpa using stageA_subset opens tiled same
  · apply blockTouched_optional_subset
    simpa using stageB_subset opens tiled same
  · apply blockTouched_optional_subset
    simp [Instruction.touched]
  · simp only [blockTouched_cons_subset, Statement.touched_unroll, Set.empty_subset, true_and,
      Statement.touched_loop_subset, Statement.touched_run, Instruction.touched, Statement.bind,
      blockTouched_nil, and_true, Value.touched_binary, Value.touched_read, Place.touched_var,
      Set.union_subset_iff, countTo_counter]
    intro step stepTurn row rowTurn
    have stepInside := countTo_turn stepTurn
    have rowInside := strided_lt tiled.lid0 (countTo_turn rowTurn)
    have atRow (tileRow : Nat) : SameFrame (Function.update (Function.update
        (Function.update outer "kk" step) "mm" row) "lr" tileRow) outer :=
      ((same.update (by decide) _).update (by decide) _).update (by decide) _
    refine ⟨?_, fun column columnTurn => ?_⟩
    · apply factorA_subset opens tiled (atRow _)
      · simpa [Index.eval, tileM] using rowInside
      · simpa using stepInside
    · have columnInside := strided_lt tiled.lid1 (countTo_turn columnTurn)
      have atColumn (tileRow tileColumn : Nat) : SameFrame (Function.update (Function.update
          (Function.update (Function.update (Function.update outer "kk" step) "mm" row) "lr"
            tileRow) "nn" column) "lc" tileColumn) outer :=
        ((atRow tileRow).update (by decide) _).update (by decide) _
      refine ⟨?_, factorB_subset opens tiled (atColumn _ _) ?_ ?_⟩
      · simp [accumulator, opens.accumulators]
      · simpa [Index.eval, tileN] using columnInside
      · simpa using stepInside

/-- The accumulators are written to the block of the work item. -/
theorem store_subset (opens : params.Opens outer allowed) (placed : params.Placed guarded outer) :
    (params.store guarded).touched seat outer ⊆ allowed := by
  have same := SameFrame.refl outer
  unfold store
  simp only [blockTouched_cons_subset, Statement.touched_loopOver_subset, Set.empty_subset,
    true_and, Statement.touched_loop_subset, Statement.touched_run, Instruction.touched,
    Statement.bind, blockTouched_nil, and_true, countTo_counter]
  intro row rowTurn column columnTurn
  have rowInside := strided_lt placed.lid0 (countTo_turn rowTurn)
  have columnInside := strided_lt placed.lid1 (countTo_turn columnTurn)
  have atElement (tileRow tileColumn : Nat) : SameFrame (Function.update (Function.update
      (Function.update (Function.update outer "mm" row) "nn" column) "r" tileRow) "c"
        tileColumn) outer :=
    (((same.update (by decide) _).update (by decide) _).update (by decide) _).update (by decide) _
  have written (inner : Variables) (same : SameFrame inner outer)
      (rowBelow : inner "r" < outer "M") (columnBelow : inner "c" < outer "N") :
      (Instruction.assign (.element "C" [.add (.mul (.var "r") (.var "N")) (.var "c")])
        (.read accumulator)).touched seat inner ⊆ allowed := by
    simp [Instruction.touched, Index.eval, accumulator, opens.accumulators, same "N" (by decide),
      opens.c _ rowBelow _ columnBelow]
  cases guarded with
  | true =>
      simp only [↓reduceIte, Statement.touched_guarded_subset]
      rintro ⟨rowBelow, columnBelow⟩
      apply written _ (atElement _ _)
      · simpa [Condition.Holds, Index.eval, atElement _ _ "M" (by decide)] using rowBelow
      · simpa [Condition.Holds, Index.eval, atElement _ _ "N" (by decide)] using columnBelow
  | false =>
      have fullRows := placed.rows rfl
      have fullColumns := placed.columns rfl
      apply written _ (atElement _ _)
      · have rowBelow : outer "row0" + outer "lid0" + row * params.localSize0 < outer "M" := by
          unfold tileM at fullRows
          omega
        simpa [Index.eval] using rowBelow
      · have columnBelow : outer "col0" + outer "lid1" + column * params.localSize1 < outer "N" := by
          unfold tileN at fullColumns
          omega
        simpa [Index.eval] using columnBelow

/-- The variables that the preamble declares for a work item. -/
structure Started (params : MatrixProduct) (seat : Seat) (locals after : Variables) : Prop where
  m : after "M" = locals "M"
  n : after "N" = locals "N"
  k : after "K" = locals "K"
  row0 : after "row0" = seat .groupId 0 * params.tileM
  col0 : after "col0" = seat .groupId 1 * params.tileN
  lid0 : after "lid0" = seat .localId 0
  lid1 : after "lid1" = seat .localId 1

theorem preamble_started (type : ElementType) :
    params.Started seat locals (blockBind seat locals (params.preamble type)) := by
  have unbound (condition : Prop) [Decidable condition] (extents : List Index) (name : String)
      (inner : Variables) : blockBind seat inner
        (if condition then [.run (.declareArray true type name extents)] else []) = inner :=
    blockBind_optional condition rfl
  simp only [preamble, blockBind_append, unbound]
  by_cases staged : params.staged
  · constructor <;> simp [staged, blockBind, Statement.bind, Index.eval]
  · constructor <;> simp [staged, blockBind, Statement.bind, Index.eval]

theorem preamble_subset (type : ElementType) (accumulators : ∀ indices, ⟨"acc", indices⟩ ∈ allowed) :
    blockTouched seat locals (params.preamble type) ⊆ allowed := by
  simp only [preamble, blockTouched_append_subset]
  refine ⟨⟨⟨?_, ?_⟩, ?_⟩, ?_⟩
  · simp [Instruction.touched, accumulator, accumulators]
  · apply blockTouched_optional_subset
    simp [Instruction.touched]
  · apply blockTouched_optional_subset
    simp [Instruction.touched]
  · apply blockTouched_optional_subset
    simp [Instruction.touched]

/-- Below a size of full tiles, a step that begins a tile has room for it. -/
theorem step_le {tile step size : Nat} (stepTiled : tile ∣ step) (sizeTiled : tile ∣ size)
    (below : step < size) : step + tile ≤ size :=
  Nat.le_of_lt_add_of_dvd (Nat.add_lt_add_right below tile)
    (Nat.dvd_add stepTiled (Nat.dvd_refl tile)) sizeTiled

/-- A work item of the kernel stays inside the matrices. An unguarded kernel does when its
work group is among full tiles and all steps along `K` are full. -/
theorem kernel_subset (name : String) (type : ElementType)
    (opens : params.Opens locals allowed)
    (lid0 : seat .localId 0 < params.localSize0) (lid1 : seat .localId 1 < params.localSize1)
    (rows : guarded = false →
      seat .groupId 0 * params.tileM + params.tileM ≤ locals "M")
    (columns : guarded = false →
      seat .groupId 1 * params.tileN + params.tileN ≤ locals "N")
    (steps : guarded = false → params.tileK ∣ locals "K") :
    blockTouched seat locals (params.kernel name guarded type).body ⊆ allowed := by
  have started : params.Started seat locals
      (blockBind seat locals (params.preamble type)) := preamble_started type
  generalize reached : blockBind seat locals (params.preamble type) = after at started
  have opensAfter := opens.of_sizes started.m started.n started.k
  have placed : params.Placed guarded after := by
    constructor
    · rwa [started.lid0]
    · rwa [started.lid1]
    · rwa [started.row0, started.m]
    · rwa [started.col0, started.n]
  simp only [kernel, blockTouched_append_subset, blockTouched_cons_subset,
    Statement.touched_loop_subset, reached, blockTouched_nil, Set.empty_subset, and_true]
  refine ⟨preamble_subset type opens.accumulators, fun step turn => ?_,
    store_subset opensAfter placed⟩
  have reachedStep := (LoopHead.turn_iff params.tileK (after "K") (fun _ => rfl)
    (fun value => by simp [Condition.Holds, Index.eval])).1 turn
  obtain ⟨below, rounds, stepAt⟩ := reachedStep
  have stepTiled : params.tileK ∣ step := ⟨rounds, by
    simpa [Index.eval, Nat.mul_comm] using stepAt⟩
  have opensStep : params.Opens (Function.update after "k0" step) allowed :=
    opensAfter.of_sizes (by simp) (by simp) (by simp)
  have placedStep : params.Placed guarded (Function.update after "k0" step) := by
    obtain ⟨lid0, lid1, rows, columns⟩ := placed
    constructor <;> simpa
  have whole : guarded = false → step + params.tileK ≤ after "K" := by
    intro unguarded
    apply step_le stepTiled _ below
    rw [started.k]
    exact steps unguarded
  exact tileProduct_subset opensStep ⟨placedStep, by simpa using whole⟩ type

end MatrixProduct

end KernelTuner
