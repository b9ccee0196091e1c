import KernelTuner.Proofs.Kernel.Group
import KernelTuner.Proofs.Variant.ProductOutput

/-!
Contract: the tiles that matrix products keep in local memory.

Owns: the steps that copy a tile (`steps_of_stage`); that the work items of a group copy each cell
of it once (`writesOnce_of_copied`); what they copy there; and the cells that products read.
-/

set_option autoImplicit false

namespace KernelTuner

open Kernel
open Function (update)

namespace MatrixProduct

variable {params : MatrixProduct} {seat : Seat} {inner : Variables} {steps : List Step}
  {guarded : Bool} {type : ElementType} {touch : Touch} {fi fj : Nat}

/-! ### Copies -/

/-- A tile in local memory: its array, the counter of its lines, how many lines it has, and what
is copied to them. The steps along `K` have a counter of their own. -/
structure Tile where
  array : String
  counter : String
  width : Nat
  value : Value
  counter_ne : counter ≠ "sk"

variable (params) in
def tileA (guarded : Bool) : Tile where
  array := "As"
  counter := "sm"
  width := params.tileM
  value := guardedValue guarded (blockRow "sm") "M" (blockStep "sk")
    (params.elementA (blockRow "sm") (blockStep "sk"))
  counter_ne := by decide

variable (params) in
def tileB (guarded : Bool) : Tile where
  array := "Bs"
  counter := "sn"
  width := params.tileN
  value := guardedValue guarded (blockColumn "sn") "N" (blockStep "sk")
    (params.elementB (blockStep "sk") (blockColumn "sn"))
  counter_ne := by decide

variable (params) in
/-- The statement that copies a tile. -/
def stage (tile : Tile) : Statement :=
  strideLoop "sk" "fj" params.tileK params.localFetch1 <|
    strideLoop tile.counter "fi" tile.width params.localFetch0 <|
      .run (.assign (.element tile.array [.var "sk", .var tile.counter]) tile.value)

theorem stages_eq : params.stages guarded =
    (if params.fetchA = .staged then [params.stage (params.tileA guarded)] else []) ++
      (if params.fetchB = .staged then [params.stage (params.tileB guarded)] else []) := rfl

variable {tile : Tile}

/-- The copy of a cell. -/
def Tile.copy (tile : Tile) (inner : Variables) (step line : Nat) : Step :=
  ⟨update (update inner "sk" step) tile.counter line,
    .assign (.element tile.array [.var "sk", .var tile.counter]) tile.value⟩

variable (params) in
/-- The cells that a work item copies, from its place in the layout on. -/
def copied (tile : Tile) (fi fj : Nat) : List Touch :=
  (stepsBelow fj params.tileK params.localFetch1).flatMap fun step =>
    (stepsBelow fi tile.width params.localFetch0).map fun line => ⟨tile.array, [step, line]⟩

theorem steps_of_stage (fetches : params.Fetches)
    (unrolls : (params.stage tile).Unrolls seat inner steps) :
    steps = (stepsBelow (inner "fj") params.tileK params.localFetch1).flatMap fun step =>
      (stepsBelow (inner "fi") tile.width params.localFetch0).map (tile.copy inner step) := by
  rw [stage, unrolls_strideLoop fetches.localFetch1] at unrolls
  obtain ⟨rounds, each, rfl⟩ := unrolls
  refine List.flatMap_congr fun step member => ?_
  have inStep := each step member
  rw [unrolls_strideLoop fetches.localFetch0] at inStep
  obtain ⟨copies, eachCopy, same⟩ := inStep
  have start : update inner "sk" step "fi" = inner "fi" := Function.update_of_ne (by decide) ..
  rw [start] at eachCopy same
  rw [same, List.map_eq_flatMap]
  exact List.flatMap_congr eachCopy

theorem written_copy (step line : Nat) :
    (tile.copy inner step line).instruction.written seat (tile.copy inner step line).locals =
      [⟨tile.array, [step, line]⟩] := by
  simp [Tile.copy, Instruction.written, Index.eval, tile.counter_ne.symm]

theorem array_of_mem_copied (member : touch ∈ params.copied tile fi fj) :
    touch.array = tile.array := by
  obtain ⟨_, _, inStep⟩ := List.mem_flatMap.1 member
  obtain ⟨_, _, rfl⟩ := List.mem_map.1 inStep
  rfl

/-- The copies of a tile, as far as it is staged, go to its array. -/
theorem written_of_stage {condition : Prop} [Decidable condition] (fetches : params.Fetches)
    (unrolls : blockUnrolls seat inner (if condition then [params.stage tile] else []) steps)
    (array : String) :
    (written seat steps).filter (fun touch => touch.array = array) =
      if condition ∧ tile.array = array then params.copied tile (inner "fi") (inner "fj")
      else [] := by
  by_cases staged : condition
  · rw [if_pos staged, blockUnrolls_singleton] at unrolls
    have copies : written seat steps = params.copied tile (inner "fi") (inner "fj") := by
      rw [steps_of_stage fetches unrolls, copied, written_flatMap]
      refine List.flatMap_congr fun step _ => ?_
      rw [written, List.flatMap_map, List.map_eq_flatMap]
      exact List.flatMap_congr fun line _ => written_copy step line
    rw [copies]
    by_cases same : tile.array = array
    · rw [if_pos ⟨staged, same⟩, List.filter_eq_self]
      exact fun touch member => decide_eq_true ((array_of_mem_copied member).trans same)
    · rw [if_neg (mt And.right same), List.filter_eq_nil_iff]
      intro touch member isArray
      exact same ((array_of_mem_copied member).symm.trans (of_decide_eq_true isArray))
  · rw [if_neg staged, blockUnrolls_nil] at unrolls
    rw [if_neg (mt And.left staged), unrolls, written_nil, List.filter_nil]

theorem copy_of_mem_stage {condition : Prop} [Decidable condition] (fetches : params.Fetches)
    (unrolls : blockUnrolls seat inner (if condition then [params.stage tile] else []) steps)
    {copy : Step} (member : copy ∈ steps) : ∃ step line, copy = tile.copy inner step line := by
  split at unrolls
  · rw [steps_of_stage fetches (blockUnrolls_singleton.1 unrolls)] at member
    obtain ⟨step, _, inStep⟩ := List.mem_flatMap.1 member
    obtain ⟨line, _, rfl⟩ := List.mem_map.1 inStep
    exact ⟨step, line, rfl⟩
  · rw [unrolls] at member
    cases member

/-- The copies of the tile of `A` are in front of those of the tile of `B`. -/
theorem exists_copies (unrolls : blockUnrolls seat inner (params.stages guarded) steps) :
    ∃ copiesA copiesB, steps = copiesA ++ copiesB ∧
      blockUnrolls seat inner
        (if params.fetchA = .staged then [params.stage (params.tileA guarded)] else []) copiesA ∧
      blockUnrolls seat inner
        (if params.fetchB = .staged then [params.stage (params.tileB guarded)] else []) copiesB := by
  have bindA : blockBind seat inner
      (if params.fetchA = .staged then [params.stage (params.tileA guarded)] else []) = inner :=
    blockBind_optional _ rfl
  rw [stages_eq, blockUnrolls_append, bindA] at unrolls
  exact unrolls

theorem copy_of_mem_stages (fetches : params.Fetches)
    (unrolls : blockUnrolls seat inner (params.stages guarded) steps) {copy : Step}
    (member : copy ∈ steps) : ∃ step line, copy = (params.tileA guarded).copy inner step line ∨
      copy = (params.tileB guarded).copy inner step line := by
  obtain ⟨copiesA, copiesB, rfl, inA, inB⟩ := exists_copies unrolls
  rcases List.mem_append.1 member with ofA | ofB
  · obtain ⟨step, line, same⟩ := copy_of_mem_stage fetches inA ofA
    exact ⟨step, line, .inl same⟩
  · obtain ⟨step, line, same⟩ := copy_of_mem_stage fetches inB ofB
    exact ⟨step, line, .inr same⟩

/-- The cells of either tile that a work item copies. -/
theorem written_of_stages (fetches : params.Fetches)
    (unrolls : blockUnrolls seat inner (params.stages guarded) steps) :
    (params.fetchA = .staged → (written seat steps).filter (fun touch => touch.array = "As") =
        params.copied (params.tileA guarded) (inner "fi") (inner "fj")) ∧
      (params.fetchB = .staged → (written seat steps).filter (fun touch => touch.array = "Bs") =
        params.copied (params.tileB guarded) (inner "fi") (inner "fj")) := by
  obtain ⟨copiesA, copiesB, rfl, inA, inB⟩ := exists_copies unrolls
  simp only [written_append, List.filter_append, written_of_stage fetches inA,
    written_of_stage fetches inB]
  constructor
  · intro staged
    simp [staged, tileA, tileB]
  · intro staged
    simp [staged, tileA, tileB]

/-! ### Shares of a tile -/

/-- The cells of a tile. -/
def cellsOf (array : String) (depth width : Nat) : Set Touch :=
  {touch | ∃ step < depth, ∃ line < width, touch = ⟨array, [step, line]⟩}

theorem mem_cellsOf {array : String} {depth width step line : Nat} (stepInside : step < depth)
    (lineInside : line < width) : ⟨array, [step, line]⟩ ∈ cellsOf array depth width :=
  ⟨step, stepInside, line, lineInside, rfl⟩

/-- A cell is copied from the place in the layout that has its remainders. -/
theorem mem_copied (inLines : fi < params.localFetch0) (inSteps : fj < params.localFetch1) :
    touch ∈ params.copied tile fi fj ↔ ∃ step < params.tileK, ∃ line < tile.width,
      touch = ⟨tile.array, [step, line]⟩ ∧ step % params.localFetch1 = fj ∧
        line % params.localFetch0 = fi := by
  simp only [copied, List.mem_flatMap, List.mem_map, mem_stepsBelow_of_lt inLines,
    mem_stepsBelow_of_lt inSteps]
  constructor
  · rintro ⟨step, ⟨stepInside, stepOwned⟩, line, ⟨lineInside, lineOwned⟩, rfl⟩
    exact ⟨step, stepInside, line, lineInside, rfl, stepOwned, lineOwned⟩
  · rintro ⟨step, stepInside, line, lineInside, rfl, stepOwned, lineOwned⟩
    exact ⟨step, ⟨stepInside, stepOwned⟩, line, ⟨lineInside, lineOwned⟩, rfl⟩

theorem nodup_copied (fetches : params.Fetches) : (params.copied tile fi fj).Nodup := by
  refine List.nodup_flatMap.2 ⟨fun step _ => ?_, ?_⟩
  · refine (nodup_stepsBelow fetches.localFetch0).map fun left right same => ?_
    simpa using same
  · refine (nodup_stepsBelow fetches.localFetch1).imp fun apart touch inLeft inRight => ?_
    obtain ⟨_, _, rfl⟩ := List.mem_map.1 inLeft
    obtain ⟨_, _, same⟩ := List.mem_map.1 inRight
    have sameStep := congrArg (fun touch : Touch => touch.indices.headD 0) same
    exact apart sameStep.symm

/-- A work item of a group, by its place along both dimensions. -/
abbrev Member (params : MatrixProduct) : Type := Fin params.localSize0 × Fin params.localSize1

/-- The number of a work item in its group. -/
def Member.number (member : params.Member) : Nat := member.1 * params.localSize1 + member.2

/-- The layout has a place for each work item. -/
theorem Member.number_lt (member : params.Member) :
    member.number < params.localSize0 * params.localSize1 :=
  place_lt member.1.isLt member.2.isLt

/-- A number below their count is that of one work item. -/
theorem Member.existsUnique_number {number : Nat}
    (inside : number < params.localSize0 * params.localSize1) :
    ∃! member : params.Member, member.number = number := by
  have wide : 0 < params.localSize1 := Nat.pos_of_mul_pos_left (Nat.zero_lt_of_lt inside)
  have inRow : number / params.localSize1 < params.localSize0 :=
    Nat.div_lt_of_lt_mul (by rwa [Nat.mul_comm])
  refine ⟨(⟨_, inRow⟩, ⟨_, Nat.mod_lt number wide⟩), Nat.div_add_mod' .., fun other same => ?_⟩
  obtain ⟨first, second⟩ := (place_eq_iff other.2.isLt).1 same
  exact Prod.ext (Fin.ext first) (Fin.ext second)

/-- A place in the layout is that of one work item. -/
theorem Member.existsUnique_place (layout : params.localFetch0 * params.localFetch1 =
      params.localSize0 * params.localSize1)
    (inLines : fi < params.localFetch0) (inSteps : fj < params.localFetch1) :
    ∃! member : params.Member, member.number % params.localFetch0 = fi ∧
      member.number / params.localFetch0 = fj := by
  have inside : fj * params.localFetch0 + fi < params.localSize0 * params.localSize1 := by
    rw [← layout, Nat.mul_comm params.localFetch0]
    exact place_lt inSteps inLines
  obtain ⟨member, same, unique⟩ := Member.existsUnique_number inside
  refine ⟨member, ?_, fun other place => unique other ?_⟩
  · obtain ⟨quotient, remainder⟩ := (place_eq_iff inLines).1 same.symm
    exact ⟨remainder.symm, quotient.symm⟩
  · exact ((place_eq_iff inLines).2 ⟨place.2.symm, place.1.symm⟩).symm

section Shares

variable {crew : Crew params.Member} {number : Nat} (fetches : params.Fetches)
  (layout : params.localFetch0 * params.localFetch1 = params.localSize0 * params.localSize1)
  (copies : ∀ member, (written (crew.seat member) (crew.phase member number)).filter
      (fun touch => touch.array = tile.array) =
    params.copied tile (member.number % params.localFetch0) (member.number / params.localFetch0))
include fetches layout copies

/-- Of a tile, a work item writes the cells with the remainders of its place in the layout. -/
theorem mem_written_of_copied (member : params.Member) (inTile : touch.array = tile.array) :
    touch ∈ written (crew.seat member) (crew.phase member number) ↔
      ∃ step < params.tileK, ∃ line < tile.width, touch = ⟨tile.array, [step, line]⟩ ∧
        step % params.localFetch1 = member.number / params.localFetch0 ∧
          line % params.localFetch0 = member.number % params.localFetch0 := by
  have inLines : member.number % params.localFetch0 < params.localFetch0 :=
    Nat.mod_lt _ fetches.localFetch0
  have inSteps : member.number / params.localFetch0 < params.localFetch1 := by
    apply Nat.div_lt_of_lt_mul
    rw [layout]
    exact member.number_lt
  rw [← mem_copied inLines inSteps, ← copies member, List.mem_filter]
  exact (and_iff_left (decide_eq_true inTile)).symm

variable (tile) in
/-- Work items that copy their shares of a tile copy each cell once. -/
theorem writesOnce_of_copied :
    crew.WritesOnce number tile.array (cellsOf tile.array params.tileK tile.width) := by
  constructor
  · intro member touch listed inTile
    obtain ⟨step, stepInside, line, lineInside, rfl, _⟩ :=
      (mem_written_of_copied fetches layout copies member inTile).1 listed
    exact mem_cellsOf stepInside lineInside
  · intro member
    rw [copies member]
    exact nodup_copied fetches
  · rintro _ ⟨step, stepInside, line, lineInside, rfl⟩
    obtain ⟨member, place, unique⟩ := Member.existsUnique_place layout
      (Nat.mod_lt line fetches.localFetch0) (Nat.mod_lt step fetches.localFetch1)
    refine ⟨member, (mem_written_of_copied fetches layout copies member rfl).2
      ⟨step, stepInside, line, lineInside, rfl, place.2.symm, place.1.symm⟩, ?_⟩
    intro other listed
    obtain ⟨_, _, _, _, same, stepOwned, lineOwned⟩ :=
      (mem_written_of_copied fetches layout copies other rfl).1 listed
    simp only [Touch.mk.injEq, List.cons.injEq, and_true, true_and] at same
    obtain ⟨rfl, rfl⟩ := same
    exact unique other ⟨lineOwned.symm, stepOwned.symm⟩

end Shares

/-! ### Contents of a tile -/

section Contents

variable {α : Type} {meaning : Meaning α} {memory : Memory α} {lane : Nat}

variable (params) in
/-- The element of `op(A)` in a row, at a step along `K`, or zero where a guarded kernel is past
the edge. -/
def operandA (meaning : Meaning α) (guarded : Bool) (elements : Touch → α) (m k row step : Nat) :
    α :=
  if guarded = true ∧ ¬ (row < m ∧ step < k) then meaning.number 0
  else elements ⟨"A", [params.offsetA m k row step]⟩

variable (params) in
/-- The element of `op(B)` at a step along `K`, in a column, or zero where a guarded kernel is past
the edge. -/
def operandB (meaning : Meaning α) (guarded : Bool) (elements : Touch → α) (n k step column : Nat) :
    α :=
  if guarded = true ∧ ¬ (column < n ∧ step < k) then meaning.number 0
  else elements ⟨"B", [params.offsetB n k step column]⟩

theorem inLane_guardedValue {position step : Index} {extent : String} {value : Value} :
    (guardedValue guarded position extent step value).inLane meaning seat inner memory lane =
      if guarded = true ∧ ¬ (position.eval seat inner < inner extent ∧
          step.eval seat inner < inner "K") then meaning.number 0
      else value.inLane meaning seat inner memory lane := by
  cases guarded with
  | false => simp [guardedValue]
  | true =>
      have holds_iff : (Condition.both (.less position (.var extent))
          (.less step (.var "K"))).Holds seat inner ↔
            position.eval seat inner < inner extent ∧ step.eval seat inner < inner "K" := Iff.rfl
      simp only [guardedValue, ↓reduceIte, Value.inLane, holds_iff, true_and, ite_not]

theorem inLane_elementA {row step : Index} :
    (params.elementA row step).inLane meaning seat inner memory lane =
      memory.elements ⟨"A", [params.offsetA (inner "M") (inner "K") (row.eval seat inner)
        (step.eval seat inner)]⟩ := by
  unfold elementA offsetA
  split <;> rfl

theorem inLane_elementB {step column : Index} :
    (params.elementB step column).inLane meaning seat inner memory lane =
      memory.elements ⟨"B", [params.offsetB (inner "N") (inner "K") (step.eval seat inner)
        (column.eval seat inner)]⟩ := by
  unfold elementB offsetB
  split <;> rfl

/-- What the copy of a cell leaves there. -/
theorem elements_copy (step line : Nat) :
    ((tile.copy inner step line).instruction.perform meaning seat (tile.copy inner step line).locals
        memory).elements ⟨tile.array, [step, line]⟩ =
      tile.value.inLane meaning seat (tile.copy inner step line).locals memory 0 := by
  have place : [Index.var "sk", Index.var tile.counter].map
      (Index.eval seat (tile.copy inner step line).locals) = [step, line] := by
    simp [Tile.copy, Index.eval, tile.counter_ne.symm]
  rw [← place]
  exact Memory.elements_setElement_self

theorem inLane_copyA (step line : Nat) :
    (params.tileA guarded).value.inLane meaning seat
        ((params.tileA guarded).copy inner step line).locals memory lane =
      params.operandA meaning guarded memory.elements (inner "M") (inner "K") (inner "row0" + line)
        (inner "k0" + step) := by
  simp [tileA, Tile.copy, inLane_guardedValue, inLane_elementA, operandA, blockRow, blockStep,
    Index.eval]

theorem inLane_copyB (step line : Nat) :
    (params.tileB guarded).value.inLane meaning seat
        ((params.tileB guarded).copy inner step line).locals memory lane =
      params.operandB meaning guarded memory.elements (inner "N") (inner "K") (inner "k0" + step)
        (inner "col0" + line) := by
  simp [tileB, Tile.copy, inLane_guardedValue, inLane_elementB, operandB, blockColumn, blockStep,
    Index.eval]

end Contents

/-! ### Products -/

/-- Elements of other arrays than the tiles in local memory. -/
def outsideTiles : Set Touch := {touch | touch.array ∉ ["As", "Bs"]}

variable (params) in
/-- Of the tiles in local memory, their cells only. -/
def insideTiles : Set Touch :=
  outsideTiles ∪ (cellsOf "As" params.tileK params.tileM ∪ cellsOf "Bs" params.tileK params.tileN)

theorem guardedValue_touched_subset {position step : Index} {extent : String} {value : Value} :
    (guardedValue guarded position extent step value).touched seat inner ⊆
      value.touched seat inner := by
  cases guarded with
  | false => exact Set.Subset.rfl
  | true => exact fun _ touched => touched.2

/-- What is copied to a tile is found outside of the tiles. -/
theorem tileA_outside : (params.tileA guarded).value.touched seat inner ⊆ outsideTiles := by
  refine guardedValue_touched_subset.trans ?_
  simp [elementA, outsideTiles]

theorem tileB_outside : (params.tileB guarded).value.touched seat inner ⊆ outsideTiles := by
  refine guardedValue_touched_subset.trans ?_
  simp [elementB, outsideTiles]

theorem factorA_inside (rowInside : inner "lr" < params.tileM)
    (stepInside : inner "kk" < params.tileK) :
    (params.factorA guarded).touched seat inner ⊆ params.insideTiles := by
  unfold factorA
  split
  · refine Set.singleton_subset_iff.2 (.inr (.inl ?_))
    exact mem_cellsOf stepInside rowInside
  · refine guardedValue_touched_subset.trans (Set.subset_union_of_subset_left ?_ _)
    simp [elementA, outsideTiles]

theorem factorB_inside (columnInside : inner "lc" < params.tileN)
    (stepInside : inner "kk" < params.tileK) :
    (params.factorB guarded).touched seat inner ⊆ params.insideTiles := by
  unfold factorB
  split
  · refine Set.singleton_subset_iff.2 (.inr (.inr ?_))
    exact mem_cellsOf stepInside columnInside
  · refine guardedValue_touched_subset.trans (Set.subset_union_of_subset_left ?_ _)
    simp [elementB, outsideTiles]

theorem accumulator_outside : accumulator.touched seat inner ⊆ outsideTiles := by
  simp [accumulator, outsideTiles]

/-- The products of a turn touch cells of the tiles only. -/
theorem products_inside (lid0 : inner "lid0" < params.localSize0)
    (lid1 : inner "lid1" < params.localSize1) :
    blockTouched seat inner (params.products guarded type) ⊆ params.insideTiles := by
  simp only [products, blockTouched_cons_subset, Statement.touched_unroll, Set.empty_subset,
    true_and, Statement.touched_loop_subset, Statement.touched_run, Instruction.touched,
    Statement.bind, blockTouched_nil, and_true, Value.touched_binary, Value.touched_read,
    Place.touched_var, Set.union_subset_iff, countTo_counter]
  intro step stepTurn row rowTurn
  have stepInside := countTo_turn stepTurn
  have rowInside := strided_lt lid0 (countTo_turn rowTurn)
  refine ⟨?_, fun column columnTurn => ⟨?_, ?_⟩⟩
  · apply factorA_inside
    · simpa [Index.eval, tileM] using rowInside
    · simpa using stepInside
  · exact accumulator_outside.trans Set.subset_union_left
  · have columnInside := strided_lt lid1 (countTo_turn columnTurn)
    apply factorB_inside
    · simpa [Index.eval, tileN] using columnInside
    · simpa using stepInside

/-- What is in front of the turns along `K` and behind them touches no tile. -/
theorem preamble_outside : blockTouched seat inner (params.preamble type) ⊆ outsideTiles :=
  preamble_subset type fun indices => by simp [outsideTiles]

theorem store_outside : blockTouched seat inner [params.store guarded] ⊆ outsideTiles := by
  cases guarded with
  | false => simp [store, Instruction.touched, accumulator, outsideTiles]
  | true => simp [store, Instruction.touched, accumulator, outsideTiles]

end MatrixProduct

end KernelTuner
