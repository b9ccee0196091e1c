import KernelTuner.Proofs.Kernel.Group
import KernelTuner.Proofs.Variant.ProductSteps
import KernelTuner.Proofs.Variant.Tiles

/-!
Contract: tiles in local memory hold what the products read.

Owns: that each turn along `K` is a round of two phases, one that copies tiles and one that
multiplies them (`exists_stretches`), and which steps are in a phase (`Stretches.mem_phase`);
work groups that run a kernel, with what their steps can be (`AtWork.step_cases`); and
`MatrixProduct.tiles_staged`, by which every cell of a tile is copied once in each turn along `K`
and holds the element of its operand where a product reads it.
-/

set_option autoImplicit false

namespace KernelTuner

open Kernel
open Function (update)

namespace MatrixProduct

variable {params : MatrixProduct} {seat : Seat} {locals inner : Variables} {steps : List Step}
  {guarded : Bool} {type : ElementType}

/-! ### Rounds -/

variable (params seat locals guarded type) in
/-- The stretches of a kernel that stages tiles: what is in front of the turns along `K`, the
copies and the products of each turn, and what is behind them. -/
structure Stretches (front : List Step) (copies sums : Nat → List Step) (last : List Step) :
    Prop where
  front : blockUnrolls seat locals (params.preamble type) front
  copies : ∀ step ∈ stepsBelow 0 (locals "K") params.tileK,
    blockUnrolls seat (update (blockBind seat locals (params.preamble type)) "k0" step)
      (params.stages guarded) (copies step)
  sums : ∀ step ∈ stepsBelow 0 (locals "K") params.tileK,
    blockUnrolls seat (update (blockBind seat locals (params.preamble type)) "k0" step)
      (params.products guarded type) (sums step)
  last : blockUnrolls seat (blockBind seat locals (params.preamble type)) [params.store guarded] last

theorem tileProduct_of_staged (staged : params.staged = true) :
    params.tileProduct guarded type =
      .run .barrier :: (params.stages guarded ++ .run .barrier :: params.products guarded type) := by
  rw [tileProduct_eq, if_pos staged, List.append_assoc, List.append_assoc]
  rfl

/-- Copies declare nothing. -/
theorem stages_bind : blockBind seat inner (params.stages guarded) = inner := by
  have bindA : blockBind seat inner
      (if params.fetchA = .staged then [params.stageA guarded] else []) = inner :=
    blockBind_optional _ rfl
  have bindB : blockBind seat inner
      (if params.fetchB = .staged then [params.stageB guarded] else []) = inner :=
    blockBind_optional _ rfl
  rw [stages, blockBind_append, bindA, bindB]

/-- A turn along `K` copies tiles in one phase, and multiplies them in the next. -/
theorem exists_phases_of_turn (staged : params.staged = true)
    (unrolls : blockUnrolls seat inner (params.tileProduct guarded type) steps) :
    ∃ copies sums, steps = ⟨inner, .barrier⟩ :: copies ++ ⟨inner, .barrier⟩ :: sums ∧
      blockUnrolls seat inner (params.stages guarded) copies ∧
        blockUnrolls seat inner (params.products guarded type) sums := by
  rw [tileProduct_of_staged staged, blockUnrolls_run_cons] at unrolls
  obtain ⟨_, rfl, unrolls⟩ := unrolls
  obtain ⟨copies, behind, rfl, inCopies, unrolls⟩ := blockUnrolls_append.1 unrolls
  rw [stages_bind, blockUnrolls_run_cons] at unrolls
  obtain ⟨sums, rfl, inSums⟩ := unrolls
  exact ⟨copies, sums, rfl, inCopies, inSums⟩

/-- The turns of a kernel that stages tiles are rounds of two phases. -/
theorem exists_stretches {name : String} (staged : params.staged = true)
    (positive : 0 < params.tileK)
    (unrolls : blockUnrolls seat locals (params.kernel name guarded type).body steps) :
    ∃ front copies sums last, params.Stretches seat locals guarded type front copies sums last ∧
      steps = front ++ rounds (update (blockBind seat locals (params.preamble type)) "k0") copies
        sums (stepsBelow 0 (locals "K") params.tileK) ++ last := by
  obtain ⟨front, _, rfl, inPreamble, turns, last, rfl, inTurns, inStore⟩ :=
    blockUnrolls_append.1 unrolls
  have started : params.Started seat locals (blockBind seat locals (params.preamble type)) :=
    preamble_started type
  have takes : LoopHead.Takes seat
      ⟨"k0", .literal 0, .less (.var "k0") (.var "K"), .advance (.literal params.tileK)⟩
      (blockBind seat locals (params.preamble type))
      (stepsBelow 0 (locals "K") params.tileK) :=
    (LoopHead.takes_iff positive (locals "K") (fun _ => rfl)
      fun value => by simp [Condition.Holds, Index.eval, started.k]).2 rfl
  obtain ⟨each, inEach, rfl⟩ := (unrolls_loop_of_takes takes).1 inTurns
  choose! copies sums split inCopies inSums using fun step member =>
    exists_phases_of_turn staged (inEach step member)
  refine ⟨front, copies, sums, last, ⟨inPreamble, inCopies, inSums, inStore⟩, ?_⟩
  rw [rounds, List.flatMap_congr split, List.append_assoc]

section Phases

variable {front last : List Step} {copies sums : Nat → List Step}
  (stretches : params.Stretches seat locals guarded type front copies sums last)
  (split : steps = front ++ rounds (update (blockBind seat locals (params.preamble type)) "k0")
    copies sums (stepsBelow 0 (locals "K") params.tileK) ++ last)
include stretches split

/-- Every work item has the same number of phases. -/
theorem Stretches.length_phases : (phases steps).length =
    2 * (stepsBelow 0 (locals "K") params.tileK).length + 1 := by
  rw [split]
  exact length_phases_rounds
    (fun step member => barrierFree_of_confined stages_confined (stretches.copies step member))
    (fun step member => barrierFree_of_confined products_confined (stretches.sums step member))
    (barrierFree_of_confined preamble_confined stretches.front)
    (barrierFree_of_confined store_confined stretches.last)

variable (positive : 0 < params.tileK)
include positive

theorem Stretches.copies_phase {turn : Nat} (inside : turn * params.tileK < locals "K") :
    (phases steps)[2 * turn + 1]? = some (copies (turn * params.tileK)) := by
  rw [split]
  exact phases_rounds_first
    (fun step member => barrierFree_of_confined stages_confined (stretches.copies step member))
    (fun step member => barrierFree_of_confined products_confined (stretches.sums step member))
    (barrierFree_of_confined preamble_confined stretches.front)
    ((getElem?_stepsBelow_zero positive).2 ⟨rfl, inside⟩)

theorem Stretches.mem_phase {number : Nat} {phase : List Step}
    (found : (phases steps)[number]? = some phase) {step : Step} (member : step ∈ phase) :
    (step ∈ front ∨ step ∈ last) ∨ ∃ turn, turn * params.tileK < locals "K" ∧
      (number = 2 * turn + 1 ∧ step ∈ copies (turn * params.tileK) ∨
        number = 2 * turn + 2 ∧ step ∈ sums (turn * params.tileK)) := by
  rw [split] at found
  have place := mem_phases_rounds
    (fun step member => barrierFree_of_confined stages_confined (stretches.copies step member))
    (fun step member => barrierFree_of_confined products_confined (stretches.sums step member))
    (barrierFree_of_confined preamble_confined stretches.front)
    (barrierFree_of_confined store_confined stretches.last) found member
  rcases place with ⟨_, inFront⟩ | inLast | ⟨turn, value, taken, place⟩
  · exact .inl (.inl inFront)
  · exact .inl (.inr inLast)
  · obtain ⟨rfl, inside⟩ := (getElem?_stepsBelow_zero positive).1 taken
    exact .inr ⟨turn, inside, place⟩

end Phases

end MatrixProduct

open Kernel
open Function (update)

namespace MatrixProduct

variable {params : MatrixProduct} {seat : Seat} {locals inner : Variables} {steps : List Step}
  {guarded : Bool} {type : ElementType} {touch : Touch}

/-! ### Work groups -/

/-- The places of a work item in the layout. -/
theorem preamble_layout (staged : params.staged = true) :
    blockBind seat locals (params.preamble type) "fi" =
        (seat .localId 0 * params.localSize1 + seat .localId 1) % params.localFetch0 ∧
      blockBind seat locals (params.preamble type) "fj" =
        (seat .localId 0 * params.localSize1 + seat .localId 1) / params.localFetch0 := by
  have unbound (condition : Prop) [Decidable condition] (extents : List Index) (name : String)
      (inner : Variables) : blockBind seat inner
        (if condition then [.run (.declareArray true type name extents)] else []) = inner :=
    blockBind_optional condition rfl
  simp only [preamble, blockBind_append, unbound]
  constructor <;> simp [staged, blockBind, Statement.bind, Index.eval]

/-- What the work items of a group are told about their places. -/
structure Seated (params : MatrixProduct) (seats : params.Member → Seat) (group0 group1 : Nat) :
    Prop where
  localId0 : ∀ member, seats member .localId 0 = member.1
  localId1 : ∀ member, seats member .localId 1 = member.2
  groupId0 : ∀ member, seats member .groupId 0 = group0
  groupId1 : ∀ member, seats member .groupId 1 = group1

variable (params locals guarded type) in
/-- A work group that runs a kernel with these sizes, at a place in the launch. -/
structure AtWork (crew : Crew params.Member) (name : String) (group0 group1 : Nat) : Prop
    extends params.Seated crew.seat group0 group1 where
  runs : ∀ member, blockUnrolls (crew.seat member) locals (params.kernel name guarded type).body
    (crew.steps member)

section Group

variable {crew : Crew params.Member} {name : String} {group0 group1 : Nat}

variable (params locals type crew) in
/-- The variables that a work item has in a turn along `K`. -/
def inTurn (member : params.Member) (turn : Nat) : Variables :=
  update (blockBind (crew.seat member) locals (params.preamble type)) "k0" (turn * params.tileK)

theorem inTurn_started (member : params.Member) (turn : Nat) :
    params.Started (crew.seat member) locals (params.inTurn locals type crew member turn) := by
  have started : params.Started (crew.seat member) locals
      (blockBind (crew.seat member) locals (params.preamble type)) := preamble_started type
  obtain ⟨m, n, k, row0, col0, lid0, lid1⟩ := started
  constructor <;> rwa [inTurn, Function.update_of_ne (by decide)]

variable (atWork : params.AtWork locals guarded type crew name group0 group1)
  (staged : params.staged = true) (sized : params.Sized)
include atWork staged sized

/-- The cells that a work item copies in a turn. -/
theorem AtWork.written_copies (fetches : params.Fetches) (member : params.Member) {turn : Nat}
    (inside : turn * params.tileK < locals "K") :
    (params.fetchA = .staged →
        (written (crew.seat member) (crew.phase member (2 * turn + 1))).filter
            (fun touch => touch.array = "As") =
          params.copied (params.tileA guarded) (member.number % params.localFetch0)
            (member.number / params.localFetch0)) ∧
      (params.fetchB = .staged →
        (written (crew.seat member) (crew.phase member (2 * turn + 1))).filter
            (fun touch => touch.array = "Bs") =
          params.copied (params.tileB guarded) (member.number % params.localFetch0)
            (member.number / params.localFetch0)) := by
  obtain ⟨front, copies, sums, last, stretches, split⟩ :=
    exists_stretches staged sized.tileK (atWork.runs member)
  have found := stretches.copies_phase split sized.tileK inside
  have layout : params.inTurn locals type crew member turn "fi" =
        member.number % params.localFetch0 ∧
      params.inTurn locals type crew member turn "fj" = member.number / params.localFetch0 := by
    obtain ⟨fi, fj⟩ := @preamble_layout params (crew.seat member) locals type staged
    rw [atWork.localId0, atWork.localId1] at fi fj
    exact ⟨fi, fj⟩
  have unrolls := stretches.copies _ (mul_mem_stepsBelow sized.tileK inside)
  have phase : crew.phase member (2 * turn + 1) = copies (turn * params.tileK) := by
    rw [Crew.phase, List.getD_eq_getElem?_getD, found]
    rfl
  rw [phase, ← layout.1, ← layout.2]
  exact written_of_stages fetches unrolls

/-- A step in a phase is a copy in the first phase of a turn, or assigns no tile. Then it touches
cells of tiles in the second phase of a turn only. -/
theorem AtWork.step_cases (fetches : params.Fetches) {member : params.Member} {number : Nat}
    {step : Step} (listed : step ∈ crew.phase member number) :
    (∃ turn, number = 2 * turn + 1 ∧ ∃ k line,
        step = (params.tileA guarded).copy (params.inTurn locals type crew member turn) k line ∨
          step = (params.tileB guarded).copy (params.inTurn locals type crew member turn) k line) ∨
      step.instruction.Confined ["acc", "C"] ["acc"] ∧
        (step.instruction.touched (crew.seat member) step.locals ⊆ outsideTiles ∨
          ∃ turn, turn * params.tileK < locals "K" ∧ number = 2 * turn + 2 ∧
            step.instruction.touched (crew.seat member) step.locals ⊆ params.insideTiles) := by
  obtain ⟨front, copies, sums, last, stretches, split⟩ :=
    exists_stretches staged sized.tileK (atWork.runs member)
  obtain ⟨phase, found, inPhase⟩ := Crew.exists_phase listed
  rcases stretches.mem_phase split sized.tileK found inPhase with
    (inFront | inLast) | ⟨turn, inside, ⟨rfl, isCopy⟩ | ⟨rfl, isSum⟩⟩
  · exact .inr ⟨(preamble_confined _ (instruction_of_step inFront _ stretches.front)).mono
      (by simp) (by simp), .inl ((touched_of_step inFront _ stretches.front).trans
        preamble_outside)⟩
  · exact .inr ⟨(store_confined _ (instruction_of_step inLast _ stretches.last)).mono
      (by simp) (by simp), .inl ((touched_of_step inLast _ stretches.last).trans store_outside)⟩
  · have unrolls := stretches.copies _ (mul_mem_stepsBelow sized.tileK inside)
    exact .inl ⟨turn, rfl, copy_of_mem_stages fetches unrolls isCopy⟩
  · have unrolls := stretches.sums _ (mul_mem_stepsBelow sized.tileK inside)
    have started : params.Started _ locals (params.inTurn locals type crew member turn) :=
      inTurn_started member turn
    refine .inr ⟨(products_confined _ (instruction_of_step isSum _ unrolls)).mono
      (by simp) (by simp), .inr ⟨turn, inside, rfl, (touched_of_step isSum _ unrolls).trans
        (products_inside ?_ ?_)⟩⟩
    · exact (started.lid0.trans (atWork.localId0 member)).trans_lt member.1.isLt
    · exact (started.lid1.trans (atWork.localId1 member)).trans_lt member.2.isLt

end Group

/-! ### Staged tiles -/

section Staged

variable {α : Type} {meaning : Meaning α} {shared : Touch → α} {crew : Crew params.Member}
  {name : String} {group0 group1 : Nat} {array : String} {given : Nat → Nat → α}

/-- The contents of a tile in the first phase of a turn, of elements that are given by their places
along `K` and their lines in the tile. -/
def contentOf (tileK : Nat) (given : Nat → Nat → α) (number : Nat) (touch : Touch) : α :=
  given ((number - 1) / 2 * tileK + touch.indices.getD 0 0) (touch.indices.getD 1 0)

theorem contentOf_turn {tileK turn step line : Nat} :
    contentOf tileK given (2 * turn + 1) ⟨array, [step, line]⟩ =
      given (turn * tileK + step) line := by
  rw [contentOf, Nat.add_sub_cancel, Nat.mul_div_cancel_left turn Nat.two_pos]
  rfl

/-- A tile that a work group stages. In each turn along `K` its work items copy every cell once,
and the cell that a work item finds in the turn has been given its element. -/
structure TileStaged (params : MatrixProduct) (crew : Crew params.Member) (meaning : Meaning α)
    (shared : Touch → α) (k : Nat) (array : String) (width : Nat) (given : Nat → Nat → α) :
    Prop where
  once : ∀ turn, turn * params.tileK < k →
    crew.WritesOnce (2 * turn + 1) array (cellsOf array params.tileK width)
  holds : ∀ own state, crew.Reaches meaning (crew.start own shared) state →
    ∀ member step behind, state.ahead member = step :: behind →
      ∀ touch ∈ step.instruction.reads (crew.seat member) step.locals, touch.array = array →
        ∃ turn, turn * params.tileK < k ∧ state.passed = 2 * turn + 2 ∧
          ∃ place < params.tileK, ∃ line < width, touch = ⟨array, [place, line]⟩ ∧
            state.shared touch = given (turn * params.tileK + place) line

/-- What assigns accumulators and the output only writes to no tile. -/
theorem not_written_of_confined {instruction : Instruction}
    (confined : instruction.Confined ["acc", "C"] ["acc"]) (isTile : touch.array ∈ ["As", "Bs"]) :
    touch ∉ instruction.written seat inner := by
  intro writes
  have assigned := confined.target_mem (Instruction.target_of_written writes)
  rw [List.mem_pair] at assigned isTile
  rcases isTile with tile | tile <;> simp [tile] at assigned

section Crew

variable (atWork : params.AtWork locals guarded type crew name group0 group1)
include atWork

/-- Of all arrays, a work item has the accumulators for itself. -/
theorem AtWork.eq_of_mem_ownArrays {member : params.Member} {own : String}
    (listed : own ∈ crew.ownArrays member) : own = "acc" := by
  obtain ⟨step, inSteps, declares⟩ := List.mem_filterMap.1 listed
  have inText := instruction_of_step inSteps _ (atWork.runs member)
  have confined := kernel_confined inText (Instruction.ne_barrier_of_own declares)
  exact List.mem_singleton.1 (confined.own_mem declares)

/-- The operands are not assigned. -/
theorem AtWork.target_ne {member : params.Member} {number : Nat} {step : Step}
    (listed : step ∈ crew.phase member number) {source : String} (isSource : source ∈ ["A", "B"]) :
    step.instruction.target? ≠ some source := by
  intro writes
  have inText := instruction_of_step (Crew.mem_steps_of_mem_phase listed) _ (atWork.runs member)
  have confined := kernel_confined inText (Instruction.ne_barrier_of_target writes)
  have assigned := confined.target_mem writes
  rw [List.mem_pair] at isSource
  rcases isSource with rfl | rfl <;> simp at assigned

variable (staged : params.staged = true) (sized : params.Sized)
include staged sized

/-- All work items come to the same number of barriers. -/
theorem AtWork.even (member other : params.Member) :
    (phases (crew.steps member)).length = (phases (crew.steps other)).length := by
  obtain ⟨_, _, _, _, stretches, split⟩ :=
    exists_stretches staged sized.tileK (atWork.runs member)
  obtain ⟨_, _, _, _, otherStretches, otherSplit⟩ :=
    exists_stretches staged sized.tileK (atWork.runs other)
  rw [stretches.length_phases split, otherStretches.length_phases otherSplit]

variable (fetches : params.Fetches)
include fetches

/-- A work group stages a tile when the copies of its cells leave there what is given for them. -/
theorem AtWork.stages (isTile : array ∈ ["As", "Bs"])
    (fills : ∀ member turn k line (tile : Tile) (memory : Memory α),
      tile = params.tileA guarded ∨ tile = params.tileB guarded → tile.array = array →
        (∀ other : Touch, other.array ∈ ["A", "B"] → memory.elements other = shared other) →
          tile.value.inLane meaning (crew.seat member)
              (tile.copy (params.inTurn locals type crew member turn) k line).locals memory 0 =
            given (turn * params.tileK + k) line) :
    crew.Stages meaning shared ["A", "B"] array (contentOf params.tileK given) := by
  constructor
  · intro member own listed isOwn
    obtain rfl := atWork.eq_of_mem_ownArrays isOwn
    rcases List.mem_cons.1 listed with rfl | isSource
    · simp at isTile
    · simp at isSource
  · exact fun member number step listed source isSource => atWork.target_ne listed isSource
  · intro member number step listed touch writes inArray memory agrees
    rcases atWork.step_cases staged sized fetches listed with
      ⟨turn, rfl, k, line, isCopy⟩ | ⟨confined, _⟩
    · obtain ⟨tile, isEither, rfl⟩ : ∃ tile : Tile,
          (tile = params.tileA guarded ∨ tile = params.tileB guarded) ∧
            step = tile.copy (params.inTurn locals type crew member turn) k line := by
        rcases isCopy with rfl | rfl
        · exact ⟨_, .inl rfl, rfl⟩
        · exact ⟨_, .inr rfl, rfl⟩
      rw [written_copy, List.mem_singleton] at writes
      subst writes
      rw [elements_copy, contentOf_turn]
      exact fills member turn k line tile memory isEither inArray agrees
    · exact absurd writes (not_written_of_confined confined (inArray ▸ isTile))

/-- In the second phase of a turn, nobody writes to a tile. -/
theorem AtWork.not_written (member : params.Member) (turn : Nat)
    (isTile : touch.array ∈ ["As", "Bs"]) :
    touch ∉ written (crew.seat member) (crew.phase member (2 * turn + 2)) := by
  intro wrote
  obtain ⟨step, listed, writes⟩ := List.mem_flatMap.1 wrote
  rcases atWork.step_cases staged sized fetches listed with ⟨other, number, _⟩ | ⟨confined, _⟩
  · omega
  · exact not_written_of_confined confined isTile writes

/-- Who reads a tile is in the second phase of a turn, and reads a cell of the tile. -/
theorem AtWork.turn_of_reads {member : params.Member} {number : Nat} {step : Step}
    (listed : step ∈ crew.phase member number)
    (reads : touch ∈ step.instruction.reads (crew.seat member) step.locals)
    (isTile : touch.array ∈ ["As", "Bs"]) :
    ∃ turn, turn * params.tileK < locals "K" ∧ number = 2 * turn + 2 ∧
      touch ∈ params.insideTiles := by
  have notOutside : touch ∉ outsideTiles := fun outside => outside isTile
  rcases atWork.step_cases staged sized fetches listed with
    ⟨turn, _, k, line, rfl | rfl⟩ | ⟨_, outside | ⟨turn, inside, isSecond, inTiles⟩⟩
  · exact absurd (tileA_outside reads) notOutside
  · exact absurd (tileB_outside reads) notOutside
  · exact absurd (outside (Instruction.reads_subset_touched _ reads)) notOutside
  · exact ⟨turn, inside, isSecond, inTiles (Instruction.reads_subset_touched _ reads)⟩

/-- What is copied to a tile once is found there. -/
theorem AtWork.tileStaged {width : Nat} (isTile : array ∈ ["As", "Bs"])
    (once : ∀ turn, turn * params.tileK < locals "K" →
      crew.WritesOnce (2 * turn + 1) array (cellsOf array params.tileK width))
    (inCells : ∀ touch ∈ params.insideTiles, touch.array = array →
      touch ∈ cellsOf array params.tileK width)
    (stages : crew.Stages meaning shared ["A", "B"] array (contentOf params.tileK given)) :
    params.TileStaged crew meaning shared (locals "K") array width given := by
  refine ⟨once, ?_⟩
  intro own state reached member step behind next touch reads inArray
  have listed : step ∈ crew.phase member state.passed := by
    refine ((stages.sound_of_reaches reached).inPhase member).mem ?_
    rw [next]
    exact List.mem_cons_self
  obtain ⟨turn, inside, isSecond, inTiles⟩ :=
    atWork.turn_of_reads staged sized fetches listed reads (inArray ▸ isTile)
  have isCell := inCells touch inTiles inArray
  have held : state.shared touch = contentOf params.tileK given (2 * turn + 1) touch := by
    refine stages.shared_eq reached isSecond.symm inArray ?_ fun other => ?_
    · exact ((once turn inside).writer touch isCell).exists
    · rw [isSecond]
      exact atWork.not_written staged sized fetches other turn (inArray ▸ isTile)
  obtain ⟨place, placeInside, line, lineInside, rfl⟩ := isCell
  rw [contentOf_turn] at held
  exact ⟨turn, inside, isSecond, place, placeInside, line, lineInside, rfl, held⟩

variable (layout : params.localFetch0 * params.localFetch1 = params.localSize0 * params.localSize1)
include layout

theorem AtWork.tileA_staged (stagedA : params.fetchA = .staged) :
    params.TileStaged crew meaning shared (locals "K") "As" params.tileM fun step line =>
      params.operandA meaning guarded shared (locals "M") (locals "K")
        (group0 * params.tileM + line) step := by
  refine atWork.tileStaged staged sized fetches (by decide) (fun turn inside => ?_)
    (fun touch inTiles inArray => ?_) (atWork.stages staged sized fetches (by decide) ?_)
  · have copies (member : params.Member) :=
      (atWork.written_copies staged sized fetches member inside).1 stagedA
    exact writesOnce_of_copied (params.tileA guarded) fetches layout copies
  · rcases inTiles with outside | isA | ⟨_, _, _, _, rfl⟩
    · exact absurd outside (by simp [outsideTiles, inArray])
    · exact isA
    · simp at inArray
  · rintro member turn k line tile memory (rfl | rfl) inArray agrees
    · have started : params.Started _ locals (params.inTurn locals type crew member turn) :=
        inTurn_started member turn
      have turnStep : params.inTurn locals type crew member turn "k0" = turn * params.tileK :=
        Function.update_self ..
      rw [inLane_copyA, started.m, started.k, started.row0, atWork.groupId0, turnStep, operandA,
        operandA, agrees _ List.mem_cons_self]
    · simp [tileB] at inArray

theorem AtWork.tileB_staged (stagedB : params.fetchB = .staged) :
    params.TileStaged crew meaning shared (locals "K") "Bs" params.tileN fun step line =>
      params.operandB meaning guarded shared (locals "N") (locals "K") step
        (group1 * params.tileN + line) := by
  refine atWork.tileStaged staged sized fetches (by decide) (fun turn inside => ?_)
    (fun touch inTiles inArray => ?_) (atWork.stages staged sized fetches (by decide) ?_)
  · have copies (member : params.Member) :=
      (atWork.written_copies staged sized fetches member inside).2 stagedB
    exact writesOnce_of_copied (params.tileB guarded) fetches layout copies
  · rcases inTiles with outside | ⟨_, _, _, _, rfl⟩ | isB
    · exact absurd outside (by simp [outsideTiles, inArray])
    · simp at inArray
    · exact isB
  · rintro member turn k line tile memory (rfl | rfl) inArray agrees
    · simp [tileA] at inArray
    · have started : params.Started _ locals (params.inTurn locals type crew member turn) :=
        inTurn_started member turn
      have turnStep : params.inTurn locals type crew member turn "k0" = turn * params.tileK :=
        Function.update_self ..
      rw [inLane_copyB, started.n, started.k, started.col0, atWork.groupId1, turnStep, operandB,
        operandB, agrees _ (List.mem_cons_of_mem "A" List.mem_cons_self)]

end Crew

/-- A work group comes to the end of a kernel, and in each turn along `K` its work items copy each
cell of the tiles that it stages once. Whoever reads a cell in the turn, in whatever order they all
take their steps between barriers, finds the element of the operand in its row or column and at
its step along `K`, or zero where a guarded kernel is past the edge. -/
theorem tiles_staged {operation : Operation} {profile : List Int}
    (accepted : Variant.ofProfile operation profile = .ok (.matrixProduct params))
    (staged : params.staged = true) {seats : params.Member → Seat}
    (seated : params.Seated seats group0 group1) (name : String) (guarded : Bool)
    (type : ElementType) (sizes : Variables) (meaning : Meaning α) (shared : Touch → α) :
    ∃ crew : Crew params.Member, crew.seat = seats ∧
      params.AtWork sizes guarded type crew name group0 group1 ∧
      (params.fetchA = .staged →
        params.TileStaged crew meaning shared (sizes "K") "As" params.tileM fun step line =>
          params.operandA meaning guarded shared (sizes "M") (sizes "K")
            (group0 * params.tileM + line) step) ∧
      (params.fetchB = .staged →
        params.TileStaged crew meaning shared (sizes "K") "Bs" params.tileN fun step line =>
          params.operandB meaning guarded shared (sizes "N") (sizes "K") step
            (group1 * params.tileN + line)) ∧
      ∀ state, (∃ next, crew.Advances meaning state next) ∨ ∀ member, state.ahead member = [] ∧
        (phases (crew.steps member)).length ≤ state.passed + 1 := by
  have sized : params.Sized := Variant.ofProfile_sized accepted
  have fetches := fetches_of_accepted accepted
  choose steps runs using fun member => @exists_blockSteps (seats member) sizes
    (params.kernel name guarded type).body (kernel_ascends sized fetches name guarded type)
  have atWork : params.AtWork sizes guarded type ⟨seats, steps⟩ name group0 group1 := ⟨seated, runs⟩
  exact ⟨⟨seats, steps⟩, rfl, atWork,
    atWork.tileA_staged staged sized fetches (fetches.layout staged),
    atWork.tileB_staged staged sized fetches (fetches.layout staged),
    fun _ => Crew.advances_or_through (atWork.even staged sized)⟩

/-- Tiles of thirty-two rows and columns, of which those of `B` are copied in a layout of sixteen by
four work items. -/
def copying : MatrixProduct where
  transposedA := true
  transposedB := false
  simdWidth := 1
  localSize0 := 8
  tileK := 8
  localSize1 := 8
  perItemM := 4
  perItemK := 1
  perItemN := 4
  fetchA := .strided
  fetchB := .staged
  localFetch0 := 16
  localFetch1 := 4

/-- A seat in a group, for a kernel that asks for these places only. -/
def seatAt (group0 group1 : Nat) (member : params.Member) : Seat
  | .localId, dimension => if dimension = 0 then member.1 else member.2
  | .groupId, dimension => if dimension = 0 then group0 else group1
  | _, _ => 0

/-- The third group of columns copies the last six of seventy, and zeros past the edge. -/
theorem copying_stages_edges :
    Variant.ofProfile .matrixProductTN [1, 8, 8, 8, 4, 1, 4, 1, 0, 16, 4] =
        .ok (.matrixProduct copying) ∧ copying.staged = true ∧
      copying.Seated (seatAt 0 2) 0 2 ∧
      ∃ crew : Crew copying.Member,
        copying.AtWork (fun name => if name = "N" then 70 else 20) true .f32 crew "gemm0_fb" 0 2 ∧
        copying.TileStaged crew (⟨fun _ left _ => left, id⟩ : Meaning Nat) (fun _ => 1) 20 "Bs" 32
          fun step line => if 64 + line < 70 ∧ step < 20 then 1 else 0 := by
  have accepted : Variant.ofProfile .matrixProductTN [1, 8, 8, 8, 4, 1, 4, 1, 0, 16, 4] =
      .ok (.matrixProduct copying) := rfl
  have seated : copying.Seated (seatAt 0 2) 0 2 :=
    ⟨fun _ => rfl, fun _ => rfl, fun _ => rfl, fun _ => rfl⟩
  obtain ⟨crew, _, atWork, _, stagedB, _⟩ := tiles_staged accepted rfl seated "gemm0_fb" true .f32
    (fun name => if name = "N" then 70 else 20) (⟨fun _ left _ => left, id⟩ : Meaning Nat) fun _ => 1
  refine ⟨accepted, rfl, seated, crew, atWork, ?_⟩
  have edges : (fun step line => copying.operandB (⟨fun _ left _ => left, id⟩ : Meaning Nat) true
      (fun _ => 1) 70 20 step (64 + line)) =
        fun step line => if 64 + line < 70 ∧ step < 20 then 1 else 0 := by
    funext step line
    simp only [operandB, true_and, ite_not, id_eq]
  rw [← edges]
  exact stagedB rfl

end Staged

end MatrixProduct

end KernelTuner
