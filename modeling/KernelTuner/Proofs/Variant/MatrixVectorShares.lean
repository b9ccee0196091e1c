import KernelTuner.Proofs.Kernel.Renaming
import KernelTuner.Proofs.Variant.MatrixVectorColumns

/-!
Contract: how a work group of a matrix-vector product adds up shares of its outputs.

Owns: the work items of a group, in rows; the segments in which they stage a vector, part by part;
and `MatrixVector.exists_accumulates`, by which the work items add the same products to their sums
under each fetch policy, and nobody races.

Does not own: how the sums of a row are folded (`Proofs.Variant.MatrixVectorRounds`).
-/

set_option autoImplicit false

namespace KernelTuner

open Kernel
open Function (update)

namespace MatrixVector

variable {ι α : Type}

/-- Work items that stand in rows. -/
structure Ranked (seat : ι → Seat) (rows width : Nat) (row lane : ι → Nat) : Prop where
  rowStands : ∀ item, seat item .localId 0 = row item
  laneStands : ∀ item, seat item .localId 1 = lane item
  rowInside : ∀ item, row item < rows
  laneInside : ∀ item, lane item < width
  only : ∀ item other, row item = row other → lane item = lane other → item = other
  whole : ∀ first < rows, ∀ second < width, ∃ item, row item = first ∧ lane item = second

/-- The product that column `c` adds to output `r`. -/
def productAt (meaning : Meaning α) (axis : Axis) (columnCount r : Nat) (elements : Touch → α)
    (c : Nat) : α :=
  meaning.operate .mul (elements ⟨"A", [placeOf axis columnCount r c]⟩) (elements ⟨"x", [c]⟩)

/-- A product is one of elements of the matrix and of the vector. -/
theorem productAt_congr {meaning : Meaning α} {axis : Axis} {columnCount r : Nat}
    {elements others : Touch → α}
    (same : ∀ touch : Touch, touch.array ∈ ["A", "x"] → elements touch = others touch) :
    productAt meaning axis columnCount r elements = productAt meaning axis columnCount r others := by
  funext c
  rw [productAt, same _ (by simp), same _ (by simp)]
  rfl

section Definitions

variable (params : MatrixVector) (sizes : Variables) (seat : ι → Seat) (locals : ι → Variables)
  (row lane output : ι → Nat)

/-- The elements of the vector, and those of the matrix that are multiplied for this output. -/
def sources (r : Nat) : Set Touch :=
  {touch | ∃ c < sizes (innerName params.axis), touch = ⟨"x", [c]⟩ ∨
    r < sizes (outerName params.axis) ∧ touch = ⟨"A", [placeOf params.axis (sizes "N") r c]⟩}

/-- What a group does to add up its shares of the outputs that it has in hand. Under any names, the
owners of elements that it does not deal with stay as they are. -/
structure Accumulates [AddCommMonoid α] (meaning : Meaning α) (segments : List (Segment ι)) :
    Prop where
  unrolls : GroupUnrolls seat locals params.accumulation segments
  plain : ∀ segment ∈ segments, segment.Plain
  finds : ∀ item, ∀ step ∈ stepsOf segments item,
    ∀ touch ∈ step.instruction.footprint (seat item) step.locals,
      touch.array ≠ "xs" → touch ∈ params.sources sizes (output item)
  orderly : ∀ (names : String → String) (owned : ι → Set Touch), Alone names "xs" →
    (∀ item touch, touch.rename names ∈ owned item →
      touch.array ≠ "xs" ∧ ∀ other, touch ∉ params.sources sizes (output other)) →
        Orderly seat owned (segments.map (Segment.rename names)) owned
  visits : ∀ item r, visited r (stepsOf segments item) =
    if output item = r then params.columns sizes r (lane item) else []
  inside : ∀ item, ∀ step ∈ stepsOf segments item, params.Inside sizes step
  adds : ∀ before after : View ι α, Runs meaning seat segments before after → ∀ item,
    after.registers item "acc" 0 = before.registers item "acc" 0 +
      ((params.columns sizes (output item) (lane item)).map
        (productAt meaning params.axis (sizes "N") (output item) before.shared)).sum

/-! ### Stages -/

/-- The statements of a stage. -/
def stageStatements : List Statement :=
  let column : Index := .var "c"
  let inside : Condition := .less column (.var (innerName params.axis))
  [.run (.declareIndex "c" (.add (.var "c0") (.var "lid1"))),
    .run .barrier,
    .guarded (.both (.equal (.var "lid0") (.literal 0)) inside)
      (.assign (.element "xs" [.var "lid1"]) (.read (.element "x" [column]))) false,
    .run .barrier,
    .guarded (.both (.less (.var "r") (.var (outerName params.axis))) inside)
      (addProduct params.axis "xs" (.var "lid1")) false]

/-- The variables of a work item in the stage from this column on. -/
def inStage (start : Nat) (item : ι) : Variables :=
  update (update (locals item) "c0" start) "c" (start + lane item)

/-- The column of a work item in a stage, if there is one. -/
def stageColumns (start : Nat) (item : ι) : List Nat :=
  if output item < sizes (outerName params.axis) ∧
      start + lane item < sizes (innerName params.axis) then [start + lane item] else []

/-- The first row of a group loads a part of the vector. -/
def loadSteps (start : Nat) (item : ι) : List Step :=
  if row item = 0 ∧ start + lane item < sizes (innerName params.axis) then
    [⟨inStage locals lane start item,
      .assign (.element "xs" [.var "lid1"]) (.read (.element "x" [.var "c"]))⟩]
  else []

/-- The steps by which a work item adds a product in a stage. -/
def stageAdds (start : Nat) (item : ι) : List Step :=
  (params.stageColumns sizes lane output start item).flatMap fun _ =>
    [⟨inStage locals lane start item, addProduct params.axis "xs" (.var "lid1")⟩]

/-- What a group does in a stage. -/
def stageSegments (start : Nat) : List (Segment ι) :=
  [.work fun item => [⟨update (locals item) "c0" start,
      .declareIndex "c" (.add (.var "c0") (.var "lid1"))⟩],
    .barrier (inStage locals lane start),
    .work (params.loadSteps sizes locals row lane start),
    .barrier (inStage locals lane start),
    .work (params.stageAdds sizes locals lane output start)]

end Definitions

section Adds

variable {params : MatrixVector} {sizes : Variables} {seat : Seat} {row lane r : Nat} {axis : Axis}

theorem adds_addProduct {array : String} {index : Index} : Adds (addProduct axis array index) :=
  ⟨_, rfl⟩

theorem addProduct_keeps {array : String} {index : Index} :
    (addProduct axis array index).Keeps ["A", array] := by
  simp [addProduct, matrixElement, Instruction.Keeps, Value.arrays]

/-- A work item finds an element of the matrix and an entry of the vector to add their product. -/
theorem Knows.sources_of_addProduct {locals : Variables} {array : String} {index : Index}
    {touch : Touch} (knows : Knows sizes row lane r locals)
    (output : r < sizes (outerName params.axis))
    (input : locals "c" < sizes (innerName params.axis)) (either : array ∈ ["x", "xs"])
    (entry : array = "x" → index.eval seat locals = locals "c")
    (inside : touch ∈ (addProduct params.axis array index).footprint seat locals)
    (apart : touch.array ≠ "xs") : touch ∈ params.sources sizes r := by
  refine ⟨locals "c", input, ?_⟩
  rcases inside with nothing | matrix | rfl
  · exact absurd nothing (Set.notMem_empty _)
  · refine .inr ⟨output, ?_⟩
    rw [← knows.columns, ← knows.output]
    cases axis : params.axis <;>
    · rw [axis] at matrix
      exact matrix
  · obtain rfl : array = "x" := by simpa [apart] using either
    exact .inl (congrArg (fun c => Touch.mk "x" [c]) (entry rfl))

theorem stage_targets : blockTargets params.stageStatements = ["xs"] := rfl

/-- Turns that add products, of which each finds its entry of the vector somewhere. -/
theorem performAll_adds [AddCommMonoid α] {meaning : Meaning α} (sums : meaning.Sums)
    {memory : Memory α} {turns : List Nat} {inner : Nat → Variables} {array : String} {index : Index}
    (knows : ∀ c ∈ turns, Knows sizes row lane r (inner c)) (counts : ∀ c ∈ turns, inner c "c" = c)
    (entries : ∀ c ∈ turns,
      memory.elements ⟨array, [index.eval seat (inner c)]⟩ = memory.elements ⟨"x", [c]⟩) :
    performAll meaning seat memory
        (turns.flatMap fun c => [⟨inner c, addProduct axis array index⟩]) =
      memory.setVariable "acc" fun own => memory.registers "acc" own +
        (turns.map (productAt meaning axis (sizes "N") r memory.elements)).sum := by
  refine performAll_turns sums
    (fun c _ => productAt meaning axis (sizes "N") r memory.elements c) ?_
  intro c listed found own
  show meaning.operate .mul _ (memory.elements ⟨array, [index.eval seat (inner c)]⟩) = _
  rw [(knows c listed).matrixElement_eval, entries c listed, counts c listed]
  rfl

theorem inside_of_adds {turns : List Nat} {inner : Nat → Variables} {array : String} {index : Index}
    (wide : 0 < params.localSize1) (knows : ∀ c ∈ turns, Knows sizes row lane r (inner c))
    (counts : ∀ c ∈ turns, inner c "c" = c) (listed : turns ⊆ params.columns sizes r lane)
    (apart : array ≠ "A") :
    ∀ step ∈ turns.flatMap fun c => [⟨inner c, addProduct params.axis array index⟩],
      params.Inside sizes step := by
  intro step among _
  obtain ⟨c, turn, isStep⟩ := List.mem_flatMap.1 among
  obtain rfl := List.mem_singleton.1 isStep
  obtain ⟨below, inside⟩ := column_lt wide (listed turn)
  exact ⟨(knows c turn).output.trans_lt below, (counts c turn).trans_lt inside,
    (knows c turn).columns, array, index, apart, rfl⟩

end Adds

section Groups

variable [AddCommMonoid α] {params : MatrixVector} {sizes : Variables} {seat : ι → Seat}
  {locals : ι → Variables} {row lane output : ι → Nat} {meaning : Meaning α} {rows start : Nat}

/-! ### Vectors in place -/

theorem exists_accumulates_direct (direct : params.fetch ≠ .staged) (wide : 0 < params.localSize1)
    (sums : meaning.Sums)
    (knows : ∀ item, Knows sizes (row item) (lane item) (output item) (locals item)) :
    ∃ segments,
      params.Accumulates sizes seat locals lane output meaning segments := by
  choose inner known declared idle unrolls using fun item =>
    exists_direct (seat item) direct wide (knows item)
  let turns (item : ι) : List Nat := params.columns sizes (output item) (lane item)
  let counted (item : ι) (c : Nat) : Variables := update (inner item) "c" c
  let adds (item : ι) : List Step := (turns item).flatMap fun c =>
    [⟨counted item c, addProduct params.axis "x" (.var "c")⟩]
  have counts (item : ι) (c : Nat) : counted item c "c" = c := by simp [counted]
  have knowsTurn (item : ι) (c : Nat) :
      Knows sizes (row item) (lane item) (output item) (counted item c) :=
    (known item).update "c" c (by decide)
  have keeps (item : ι) : ∀ step ∈ declared item ++ adds item,
      step.instruction.Keeps ["A", "x"] := by
    intro step listed
    rcases List.mem_append.1 listed with declares | among
    · exact (idle item step declares).keeps _
    · obtain ⟨c, _, isStep⟩ := List.mem_flatMap.1 among
      obtain rfl := List.mem_singleton.1 isStep
      exact addProduct_keeps
  have finds (item : ι) : ∀ step ∈ stepsOf [.work fun item => declared item ++ adds item] item,
      ∀ touch ∈ step.instruction.footprint (seat item) step.locals,
        touch.array ≠ "xs" → touch ∈ params.sources sizes (output item) := by
    intro step listed touch inside
    rw [stepsOf_work] at listed
    rcases List.mem_append.1 listed with declares | among
    · exact absurd ((idle item step declares).keeps [] |>.footprint_subset inside) List.not_mem_nil
    · obtain ⟨c, turn, isStep⟩ := List.mem_flatMap.1 among
      obtain rfl := List.mem_singleton.1 isStep
      obtain ⟨below, within⟩ := column_lt wide turn
      exact (knowsTurn item c).sources_of_addProduct below ((counts item c).trans_lt within)
        (by decide) (fun _ => rfl) inside
  refine ⟨[.work fun item => declared item ++ adds item], {
    unrolls := GroupUnrolls.work unrolls
    plain := ?plain
    finds := finds
    orderly := ?orderly
    visits := ?visits
    inside := ?inside
    adds := ?adds }⟩
  case plain =>
    intro segment listed
    obtain rfl := List.mem_singleton.1 listed
    exact fun item step among => (keeps item step among).ne_barrier
  case orderly =>
    intro names owned _ apart
    refine ⟨fun item => respects_rename.2 (Respects.of_unowned (keeps item) ?_), rfl⟩
    intro step listed touch inside other owns
    obtain ⟨notStaged, notSource⟩ := apart other touch owns
    exact notSource item (finds item step (by rwa [stepsOf_work]) touch inside notStaged)
  case visits =>
    intro item r
    rw [stepsOf_work]
    refine visited_append.trans ?_
    rw [visited_eq_nil fun step listed => not_adds_of_idle (idle item step listed), List.nil_append]
    refine (visited_turns adds_addProduct (fun c _ => (knowsTurn item c).output)
      fun c _ => counts item c).trans ?_
    split
    · next same => rw [← same]
    · rfl
  case inside =>
    intro item step listed
    rw [stepsOf_work] at listed
    rcases List.mem_append.1 listed with declares | among
    · exact fun isAdd => absurd isAdd (not_adds_of_idle (idle item step declares))
    · exact inside_of_adds wide (fun c _ => knowsTurn item c) (fun c _ => counts item c)
        (List.Subset.refl _) (by decide) step among
  case adds =>
    intro before after runs item
    rw [(runs_work.1 runs).registers item, performAll_append, performAll_idle (idle item),
      performAll_adds sums (fun c _ => knowsTurn item c) (fun c _ => counts item c)
        fun c _ => by simp [Index.eval, counts]]
    exact congrFun Memory.registers_setVariable_self 0

/-! ### Staged vectors -/

/-- The columns of the stages together are those of a stride. -/
theorem flatMap_shifted {bound step offset : Nat} (positive : 0 < step) (start : Nat) :
    ((stepsBelow start bound step).flatMap fun value =>
      if value + offset < bound then [value + offset] else []) =
        stepsBelow (start + offset) bound step := by
  refine (counting_stepsBelow positive bound (start + offset)).unique ?_
  have counting := counting_stepsBelow positive bound start
  generalize stepsBelow start bound step = values at counting
  induction counting with
  | ends stops => exact .ends (by omega)
  | @turn value later goes _ inductionHypothesis =>
      rw [List.flatMap_cons]
      rw [Nat.add_right_comm] at inductionHypothesis
      split
      · next inside => exact .turn inside inductionHypothesis
      · next outside =>
          obtain none := (Counting.ends (by omega)).unique inductionHypothesis
          rw [none]
          exact .ends outside

theorem columns_staged (staged : params.fetch = .staged) (wide : 0 < params.localSize1) (item : ι) :
    ((stepsBelow 0 (sizes (innerName params.axis)) params.localSize1).flatMap fun start =>
      params.stageColumns sizes lane output start item) =
        params.columns sizes (output item) (lane item) := by
  unfold columns stageColumns
  split
  · next below =>
      rw [staged, portion, ← Nat.zero_add (lane item), ← flatMap_shifted wide]
      simp [below]
  · next beyond => simp [beyond]

theorem stepsOf_stage (item : ι) :
    stepsOf (params.stageSegments sizes locals row lane output start) item =
      ⟨update (locals item) "c0" start, .declareIndex "c" (.add (.var "c0") (.var "lid1"))⟩ ::
        ⟨inStage locals lane start item, .barrier⟩ ::
          (params.loadSteps sizes locals row lane start item ++
            ⟨inStage locals lane start item, .barrier⟩ ::
              params.stageAdds sizes locals lane output start item) := by
  simp [stageSegments, Segment.steps]

section Stage

variable (knows : ∀ item, Knows sizes (row item) (lane item) (output item) (locals item))
include knows

omit [AddCommMonoid α] in
theorem knows_inStage (start : Nat) (item : ι) : Knows sizes (row item) (lane item) (output item)
    (inStage locals lane start item) :=
  ((knows item).update "c0" start (by decide)).update _ _ (by decide)

theorem stage_unrolls (start : Nat) :
    GroupUnrolls seat (fun item => update (locals item) "c0" start) params.stageStatements
      (params.stageSegments sizes locals row lane output start) := by
  intro item
  have known := knows_inStage knows start item
  have column : inStage locals lane start item "c" = start + lane item := by simp [inStage]
  have declares : (Statement.run (.declareIndex "c" (.add (.var "c0") (.var "lid1")))).bind (seat item)
      (update (locals item) "c0" start) = inStage locals lane start item := by
    have lane := ((knows item).update "c0" start (by decide)).lane
    simp only [Statement.bind, Index.eval, Function.update_self, lane]
    rfl
  rw [stepsOf_stage]
  refine blockUnrolls_run_cons.2 ⟨_, rfl, ?_⟩
  rw [declares]
  refine blockUnrolls_run_cons.2 ⟨_, rfl, blockUnrolls_cons.2 ⟨_, _, rfl, ?_,
    blockUnrolls_run_cons.2 ⟨_, rfl, blockUnrolls_singleton.2 ?_⟩⟩⟩
  · simp only [Statement.Unrolls, loadSteps, Condition.Holds, Index.eval, Statement.bind, known.row,
      known.inner, column]
  · simp only [Statement.Unrolls, stageAdds, stageColumns, Condition.Holds, Index.eval,
      Statement.bind, known.output, known.outer, known.inner, column]
    split <;> rfl

theorem stages_unroll (staged : params.fetch = .staged) (wide : 0 < params.localSize1) :
    GroupUnrolls seat locals params.accumulation
      ((stepsBelow 0 (sizes (innerName params.axis)) params.localSize1).flatMap
        (params.stageSegments sizes locals row lane output)) := by
  rw [accumulation, staged]
  refine GroupUnrolls.loop (fun item => ?_) fun start _ => stage_unrolls knows start
  refine (LoopHead.takes_iff wide (sizes (innerName params.axis)) (fun _ => rfl) fun value => ?_).2 rfl
  simp only [Condition.Holds, Index.eval, Function.update_self,
    ((knows item).update "c0" value (by decide)).inner]

theorem stage_visits (start : Nat) (item : ι) (r : Nat) :
    visited r (stepsOf (params.stageSegments sizes locals row lane output start) item) =
      if output item = r then params.stageColumns sizes lane output start item else [] := by
  have known := knows_inStage knows start item
  have still {step : Step} {rest : List Step} (none : ¬ Adds step.instruction) :
      visited r (step :: rest) = visited r rest := by
    simp [visited, none]
  have loads : visited r (params.loadSteps sizes locals row lane start item) = [] := by
    refine visited_eq_nil fun step listed => ?_
    unfold loadSteps at listed
    split at listed
    · obtain rfl := List.mem_singleton.1 listed
      simp [Adds]
    · cases listed
  rw [stepsOf_stage, still (by simp [Adds]), still (by simp [Adds]), visited_append, loads,
    List.nil_append, still (by simp [Adds])]
  refine visited_turns adds_addProduct (fun _ _ => known.output) fun c turn => ?_
  unfold stageColumns at turn
  split at turn
  · obtain rfl := List.mem_singleton.1 turn
    simp [inStage]
  · cases turn

/-! ### Order of a stage -/

/-- The entry of the staged part that a work item loads. -/
def loadOwned (row lane : ι → Nat) (item : ι) : Set Touch :=
  {touch | row item = 0 ∧ touch = ⟨"xs", [lane item]⟩}

theorem load_respects (ranked : Ranked seat rows params.localSize1 row lane) (start : Nat)
    (item : ι) : Respects seat (loadOwned row lane) item
      (params.loadSteps sizes locals row lane start item) := by
  have place : ([.var "lid1"] : List Index).map (Index.eval (seat item)
      (inStage locals lane start item)) = [lane item] :=
    congrArg (fun value => [value]) (knows_inStage knows start item).lane
  unfold loadSteps
  split
  · next first =>
      intro step listed
      obtain rfl := List.mem_singleton.1 listed
      constructor
      · intro touch writes
        obtain rfl := List.mem_singleton.1 writes
        rw [place]
        exact ⟨first.1, rfl⟩
      · rintro touch inside other ⟨alsoFirst, rfl⟩
        rcases inside with own | found
        · have same : (⟨"xs", [lane other]⟩ : Touch) = ⟨"xs", [lane item]⟩ := by rwa [← place]
          exact ranked.only other item (alsoFirst.trans first.1.symm) (by simpa using same)
        · exact absurd (congrArg Touch.array found) (by simp)
  · exact Respects.nil

omit knows in
theorem stageAdds_keep {start : Nat} {item : ι} {step : Step}
    (listed : step ∈ params.stageAdds sizes locals lane output start item) :
    step.instruction.Keeps ["A", "xs"] := by
  obtain ⟨_, _, isStep⟩ := List.mem_flatMap.1 listed
  obtain rfl := List.mem_singleton.1 isStep
  exact addProduct_keeps

omit knows in
/-- The first row finds entries of the vector to load them. -/
theorem sources_of_load {start : Nat} {item : ι} :
    ∀ step ∈ params.loadSteps sizes locals row lane start item,
      ∀ touch ∈ step.instruction.footprint (seat item) step.locals,
        touch.array ≠ "xs" → touch ∈ params.sources sizes (output item) := by
  unfold loadSteps
  split
  · next loads =>
      refine List.forall_mem_singleton.2 ?_
      rintro touch (rfl | rfl) apart
      · exact absurd rfl apart
      · have column : inStage locals lane start item "c" = start + lane item := by simp [inStage]
        exact ⟨start + lane item, loads.2, .inl (congrArg (fun c => Touch.mk "x" [c]) column)⟩
  · exact List.forall_mem_nil _

theorem sources_of_stageAdds {start : Nat} {item : ι} :
    ∀ step ∈ params.stageAdds sizes locals lane output start item,
      ∀ touch ∈ step.instruction.footprint (seat item) step.locals,
        touch.array ≠ "xs" → touch ∈ params.sources sizes (output item) := by
  intro step listed touch inside
  obtain ⟨c, turn, isStep⟩ := List.mem_flatMap.1 listed
  obtain rfl := List.mem_singleton.1 isStep
  have column : inStage locals lane start item "c" = start + lane item := by simp [inStage]
  unfold stageColumns at turn
  split at turn
  · next both =>
      exact (knows_inStage knows start item).sources_of_addProduct both.1
        (column.trans_lt both.2) (by decide) (fun isVector => absurd isVector (by decide))
        inside
  · cases turn

theorem stage_finds (start : Nat) (item : ι) :
    ∀ step ∈ stepsOf (params.stageSegments sizes locals row lane output start) item,
      ∀ touch ∈ step.instruction.footprint (seat item) step.locals,
        touch.array ≠ "xs" → touch ∈ params.sources sizes (output item) := by
  intro step listed touch inside
  rw [stepsOf_stage] at listed
  simp only [List.mem_cons, List.mem_append] at listed
  rcases listed with rfl | rfl | loads | rfl | adds
  · cases inside
  · cases inside
  · exact sources_of_load step loads touch inside
  · cases inside
  · exact sources_of_stageAdds knows step adds touch inside

theorem stage_orderly (ranked : Ranked seat rows params.localSize1 row lane)
    {names : String → String} {owned : ι → Set Touch} (alone : Alone names "xs")
    (apart : ∀ item touch, touch.rename names ∈ owned item →
      touch.array ≠ "xs" ∧ ∀ other, touch ∉ params.sources sizes (output other)) (start : Nat) :
    Orderly seat owned
      ((params.stageSegments sizes locals row lane output start).map (Segment.rename names))
        owned := by
  let loading (item : ι) : Set Touch := Touch.rename names '' loadOwned row lane item
  have loads : (fun item => {touch | touch.rename names ∈ loading item}) = loadOwned row lane := by
    funext item
    ext touch
    refine Touch.rename_mem_image ?_
    rintro _ ⟨_, rfl⟩
    exact alone
  refine ⟨fun item => respects_rename.2 (Respects.of_keeps ?_ fun _ _ _ => List.not_mem_nil),
    loading, fun item => respects_rename.2 ?_, owned,
    fun item => respects_rename.2 (Respects.of_unowned (fun _ listed => stageAdds_keep listed) ?_),
    rfl⟩
  · exact List.forall_mem_singleton.2 trivial
  · rw [loads]
    exact load_respects knows ranked start item
  · intro step listed touch inside other owns
    obtain ⟨notStaged, notSource⟩ := apart other touch owns
    exact notSource item (sources_of_stageAdds knows step listed touch inside notStaged)

omit knows in
theorem stage_plain (start : Nat) :
    ∀ segment ∈ params.stageSegments sizes locals row lane output start, segment.Plain := by
  intro segment listed
  simp only [stageSegments, List.mem_cons, List.not_mem_nil, or_false] at listed
  rcases listed with rfl | rfl | rfl | rfl | rfl
  · intro item step among
    obtain rfl := List.mem_singleton.1 among
    nofun
  · trivial
  · intro item step among
    unfold loadSteps at among
    split at among
    · obtain rfl := List.mem_singleton.1 among
      nofun
    · cases among
  · trivial
  · exact fun item step among => (stageAdds_keep among).ne_barrier

/-! ### Sums of a stage -/

omit [AddCommMonoid α] in
/-- Behind the load of a stage, the vector's part is staged. -/
theorem staged_of_load (ranked : Ranked seat rows params.localSize1 row lane) (some : 0 < rows)
    {before after : View ι α}
    (loads : Settles meaning seat (params.loadSteps sizes locals row lane start) before after)
    (item : ι) (inside : start + lane item < sizes (innerName params.axis)) :
    after.shared ⟨"xs", [lane item]⟩ = before.shared ⟨"x", [start + lane item]⟩ := by
  obtain ⟨loader, first, same⟩ := ranked.whole 0 some (lane item) (ranked.laneInside item)
  have steps : params.loadSteps sizes locals row lane start loader =
      [⟨inStage locals lane start loader,
        .assign (.element "xs" [.var "lid1"]) (.read (.element "x" [.var "c"]))⟩] :=
    if_pos ⟨first, same ▸ inside⟩
  have place : (⟨"xs", ([.var "lid1"] : List Index).map (Index.eval (seat loader)
      (inStage locals lane start loader))⟩ : Touch) = ⟨"xs", [lane item]⟩ :=
    congrArg (fun value => Touch.mk "xs" [value]) ((knows_inStage knows start loader).lane.trans same)
  rw [loads.shared_of_assign steps place]
  simp [Value.inLane, Place.found, Index.eval, inStage, same, View.memory]

omit [AddCommMonoid α] knows in
theorem kept_of_load {before after : View ι α}
    (settles : Settles meaning seat (params.loadSteps sizes locals row lane start) before after) :
    after.registers = before.registers ∧
      ∀ touch : Touch, touch.array ≠ "xs" → after.shared touch = before.shared touch := by
  constructor
  · funext item
    rw [settles.registers item]
    unfold loadSteps
    split <;> rfl
  · intro touch apart
    apply settles.kept
    intro item writes
    unfold loadSteps at writes
    split at writes
    · obtain rfl := List.mem_singleton.1 writes
      exact apart rfl
    · cases writes

/-- A stage adds the products of its columns. -/
theorem adds_of_stage (ranked : Ranked seat rows params.localSize1 row lane) (some : 0 < rows)
    (sums : meaning.Sums) {before after : View ι α}
    (runs : Runs meaning seat (params.stageSegments sizes locals row lane output start) before after) :
    ∀ item, after.registers item "acc" 0 = before.registers item "acc" 0 +
      ((params.stageColumns sizes lane output start item).map
        (productAt meaning params.axis (sizes "N") (output item) before.shared)).sum := by
  obtain ⟨declared, declares, loaded, loads, runs⟩ := runs
  have adds := runs_work.1 runs
  have registered : declared.registers = before.registers := by
    funext item
    rw [declares.registers item]
    rfl
  have unmoved : declared.shared = before.shared := by
    have keeps (item : ι) : ∀ step ∈ [Step.mk (update (locals item) "c0" start)
        (.declareIndex "c" (.add (.var "c0") (.var "lid1")))], step.instruction.Keeps [] :=
      List.forall_mem_singleton.2 trivial
    exact declares.shared_of_keeps keeps
  obtain ⟨registers, shared⟩ := kept_of_load loads
  have kept : ∀ touch : Touch, touch.array ∈ ["A", "x"] →
      loaded.shared touch = before.shared touch := by
    intro touch source
    rw [shared touch ((by decide : ∀ name ∈ ["A", "x"], name ≠ "xs") _ source), unmoved]
  intro item
  have turn {c : Nat} (listed : c ∈ params.stageColumns sizes lane output start item) :
      start + lane item < sizes (innerName params.axis) ∧ c = start + lane item := by
    unfold stageColumns at listed
    split at listed
    · next both => exact ⟨both.2, List.mem_singleton.1 listed⟩
    · cases listed
  have known := knows_inStage knows start item
  have column : inStage locals lane start item "c" = start + lane item := by simp [inStage]
  rw [adds.registers item, stageAdds, performAll_adds sums (fun _ _ => known)
    (fun c listed => column.trans (turn listed).2.symm) ?_, ← registered, ← registers,
    ← productAt_congr kept]
  · exact congrFun Memory.registers_setVariable_self 0
  · intro c listed
    obtain ⟨inside, rfl⟩ := turn listed
    have staged := staged_of_load knows ranked some loads item inside
    rw [← shared ⟨"x", [start + lane item]⟩ (by simp), ← known.lane] at staged
    rwa [← known.lane]

/-- Stages one behind another add the products of all their columns. -/
theorem adds_of_stages (ranked : Ranked seat rows params.localSize1 row lane) (some : 0 < rows)
    (sums : meaning.Sums) {values : List Nat} {before after : View ι α}
    (runs : Runs meaning seat
      (values.flatMap (params.stageSegments sizes locals row lane output)) before after) :
    (∀ item, after.registers item "acc" 0 = before.registers item "acc" 0 +
      ((values.flatMap fun start => params.stageColumns sizes lane output start item).map
        (productAt meaning params.axis (sizes "N") (output item) before.shared)).sum) ∧
      ∀ touch : Touch, touch.array ∈ ["A", "x"] → after.shared touch = before.shared touch := by
  refine runs.rounds (fun done view =>
    (∀ item, view.registers item "acc" 0 = before.registers item "acc" 0 +
      ((done.flatMap fun start => params.stageColumns sizes lane output start item).map
        (productAt meaning params.axis (sizes "N") (output item) before.shared)).sum) ∧
      ∀ touch : Touch, touch.array ∈ ["A", "x"] → view.shared touch = before.shared touch) ?_ ?_
  · exact ⟨fun item => by simp, fun _ _ => rfl⟩
  · rintro done start _ _ view next ⟨added, kept⟩ runs
    refine ⟨fun item => ?_, fun touch source => ?_⟩
    · rw [adds_of_stage knows ranked some sums runs item, added item, productAt_congr kept, add_assoc,
        ← List.sum_append, ← List.map_append, List.flatMap_append, List.flatMap_singleton]
    · refine ((stage_unrolls knows start).kept runs ?_).trans (kept touch source)
      rw [stage_targets]
      exact (by decide : ∀ name ∈ ["A", "x"], name ∉ ["xs"]) _ source

theorem stage_inside (start : Nat) (item : ι) :
    ∀ step ∈ stepsOf (params.stageSegments sizes locals row lane output start) item,
      params.Inside sizes step := by
  have known := knows_inStage knows start item
  intro step among isAdd
  rw [stepsOf_stage] at among
  simp only [List.mem_cons, List.mem_append] at among
  rcases among with rfl | rfl | loads | rfl | adds
  · simp [Adds] at isAdd
  · simp [Adds] at isAdd
  · unfold loadSteps at loads
    split at loads
    · obtain rfl := List.mem_singleton.1 loads
      simp [Adds] at isAdd
    · cases loads
  · simp [Adds] at isAdd
  · unfold stageAdds stageColumns at adds
    split at adds
    · next both =>
        obtain rfl := List.mem_singleton.1 adds
        have column : inStage locals lane start item "c" = start + lane item := by simp [inStage]
        exact ⟨known.output.trans_lt both.1, column.trans_lt both.2, known.columns, _, _,
          by decide, rfl⟩
    · cases adds

/-! ### Shares -/

theorem accumulates_staged (staged : params.fetch = .staged) (wide : 0 < params.localSize1)
    (ranked : Ranked seat rows params.localSize1 row lane) (some : 0 < rows) (sums : meaning.Sums) :
    params.Accumulates sizes seat locals lane output meaning
      ((stepsBelow 0 (sizes (innerName params.axis)) params.localSize1).flatMap
        (params.stageSegments sizes locals row lane output)) where
  unrolls := stages_unroll knows staged wide
  plain := by
    intro segment listed
    obtain ⟨start, _, among⟩ := List.mem_flatMap.1 listed
    exact stage_plain start segment among
  finds := by
    intro item step listed
    rw [stepsOf_flatMap] at listed
    obtain ⟨start, _, among⟩ := List.mem_flatMap.1 listed
    exact stage_finds knows start item step among
  orderly := by
    intro names owned alone apart
    rw [List.map_flatMap]
    exact Orderly.flatMap fun start _ => stage_orderly knows ranked alone apart start
  visits := by
    intro item r
    rw [stepsOf_flatMap, visited_flatMap]
    simp only [stage_visits knows]
    split
    · next same => rw [columns_staged staged wide, same]
    · simp
  inside := by
    intro item step listed
    rw [stepsOf_flatMap] at listed
    obtain ⟨start, _, among⟩ := List.mem_flatMap.1 listed
    exact stage_inside knows start item step among
  adds := by
    intro before after runs item
    rw [(adds_of_stages knows ranked some sums runs).1 item, columns_staged staged wide]

/-- Under each fetch policy, the work items of a group come to add the products of their columns. -/
theorem exists_accumulates (wide : 0 < params.localSize1)
    (ranked : Ranked seat rows params.localSize1 row lane) (some : 0 < rows) (sums : meaning.Sums) :
    ∃ segments, params.Accumulates sizes seat locals lane output meaning segments := by
  by_cases staged : params.fetch = .staged
  · exact ⟨_, accumulates_staged knows staged wide ranked some sums⟩
  · exact exists_accumulates_direct staged wide sums knows

end Stage

end Groups

end MatrixVector

end KernelTuner
