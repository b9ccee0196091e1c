import KernelTuner.Proofs.Variant.MatrixVectorOrder

/-!
Contract: a work group of a matrix-vector product, from its declarations to its last round.

Owns: the outputs that fall to a group and to a row of it, in strides of the number of groups; what
a work item adds to which output, what it finds, and which outputs it writes; and the sums that the
group leaves, whichever arrays share their elements.

Does not own: the launch that the group belongs to (`Proofs.Variant.MatrixVectorLaunch`).
-/

set_option autoImplicit false

namespace KernelTuner

open Kernel
open Function (update)

/-- Of lists joined over distinct values, only one is left where all others are empty. -/
theorem Kernel.flatMap_single {α : Type} {values : List Nat} {value : Nat} {part : Nat → List α}
    (distinct : values.Nodup) (listed : value ∈ values)
    (others : ∀ other ∈ values, other ≠ value → part other = []) :
    values.flatMap part = part value := by
  obtain ⟨front, back, rfl⟩ := List.append_of_mem listed
  rw [List.nodup_middle, List.nodup_cons] at distinct
  have rest (other : Nat) (among : other ∈ front ++ back) : part other = [] := by
    refine others other ?_ fun same => distinct.1 (same ▸ among)
    rcases List.mem_append.1 among with inFront | inBack
    · exact List.mem_append_left _ inFront
    · exact List.mem_append_right _ (List.mem_cons_of_mem _ inBack)
  have empty : (front ++ back).flatMap part = [] := List.flatMap_eq_nil_iff.2 rest
  rw [List.flatMap_append, List.append_eq_nil_iff] at empty
  rw [List.flatMap_append, List.flatMap_cons, empty.1, empty.2, List.nil_append, List.append_nil]

namespace MatrixVector

variable {ι α : Type}

section Definitions

variable (params : MatrixVector) (type : ElementType) (sizes : Variables) (seat : ι → Seat)
  (row lane : ι → Nat)

/-- The outputs with which the rounds of a group begin. -/
def firsts (number count : Nat) : List Nat :=
  stepsBelow (number * params.localSize0) (sizes (outerName params.axis)) (count * params.localSize0)

/-- An output falls to a row of a group. -/
def FallsTo (number count own r : Nat) : Prop :=
  r % params.localSize0 = own ∧ r / params.localSize0 % count = number

instance (number count own r : Nat) : Decidable (params.FallsTo number count own r) :=
  inferInstanceAs (Decidable (_ ∧ _))

/-- The statements with which the kernel begins. -/
def openStatements : List Statement :=
  [.run (.declareArray true type "buf"
      [.literal params.localSize0, .add (.literal params.localSize1) (.literal 1)]),
    .run (.declareIndex "lid0" (.workItem .localId 0)),
    .run (.declareIndex "lid1" (.workItem .localId 1))] ++
  if params.fetch = .staged then
    [.run (.declareArray true type "xs" [.literal params.localSize1])] else []

/-- The steps of a work item through them. -/
def openSteps (item : ι) : List Step :=
  [⟨sizes, .declareArray true type "buf"
      [.literal params.localSize0, .add (.literal params.localSize1) (.literal 1)]⟩,
    ⟨sizes, .declareIndex "lid0" (.workItem .localId 0)⟩,
    ⟨update sizes "lid0" (row item), .declareIndex "lid1" (.workItem .localId 1)⟩] ++
  if params.fetch = .staged then
    [⟨seated sizes row lane item, .declareArray true type "xs" [.literal params.localSize1]⟩] else []

/-- What a group does. -/
def groupSegments (accumulating : Nat → List (Segment ι)) (strides : List Nat)
    (number count : Nat) : List (Segment ι) :=
  [.work (params.openSteps type sizes row lane)] ++ (params.firsts sizes number count).flatMap
    (params.roundSegments type sizes seat row lane accumulating strides)

end Definitions

/-! ### Outputs of a group -/

section Outputs

variable {params : MatrixVector} {sizes : Variables} {number count own r first : Nat}

theorem mem_firsts (sized : 0 < params.localSize0) (counted : number < count) :
    first ∈ params.firsts sizes number count ↔ first < sizes (outerName params.axis) ∧
      params.localSize0 ∣ first ∧ first / params.localSize0 % count = number := by
  rw [firsts, mem_stepsBelow (Nat.mul_pos (Nat.zero_lt_of_lt counted) sized)]
  refine and_congr_right fun _ => ⟨?_, ?_⟩
  · rintro ⟨rounds, rfl⟩
    have whole : number * params.localSize0 + rounds * (count * params.localSize0) =
        (number + rounds * count) * params.localSize0 := by ring
    rw [whole, Nat.mul_div_cancel _ sized, Nat.add_mul_mod_self_right, Nat.mod_eq_of_lt counted]
    exact ⟨Nat.dvd_mul_left _ _, rfl⟩
  · rintro ⟨⟨turns, rfl⟩, rfl⟩
    rw [Nat.mul_div_cancel_left _ sized]
    refine ⟨turns / count, ?_⟩
    calc params.localSize0 * turns
        = params.localSize0 * (turns % count + turns / count * count) := by
          rw [Nat.mod_add_div']
      _ = turns % count * params.localSize0 + turns / count * (count * params.localSize0) := by ring

/-- The round in which a group comes to an output, and the row that has it. -/
theorem first_iff (inside : own < params.localSize0) (counted : number < count)
    (below : r < sizes (outerName params.axis)) :
    (first ∈ params.firsts sizes number count ∧ first + own = r) ↔
      first = r / params.localSize0 * params.localSize0 ∧ params.FallsTo number count own r := by
  have sized := Nat.zero_lt_of_lt inside
  rw [mem_firsts sized counted]
  constructor
  · rintro ⟨⟨_, ⟨turns, rfl⟩, group⟩, rfl⟩
    rw [Nat.mul_div_cancel_left _ sized] at group
    have quotient : (params.localSize0 * turns + own) / params.localSize0 = turns := by
      rw [Nat.mul_add_div sized, Nat.div_eq_of_lt inside, Nat.add_zero]
    refine ⟨by rw [quotient, Nat.mul_comm], ?_, by rw [quotient, group]⟩
    rw [Nat.mul_add_mod, Nat.mod_eq_of_lt inside]
  · rintro ⟨rfl, rfl, rfl⟩
    have split := Nat.div_add_mod' r params.localSize0
    refine ⟨⟨by omega, Nat.dvd_mul_left _ _, ?_⟩, split⟩
    rw [Nat.mul_div_cancel _ sized]

end Outputs

section Groups

variable {params : MatrixVector} {type : ElementType} {sizes : Variables} {seat : ι → Seat}
  {row lane : ι → Nat} {accumulating : Nat → List (Segment ι)} {strides : List Nat}
  {number count index : Nat}

/-! ### Steps -/

theorem open_binds (ranked : Ranked seat params.localSize0 params.localSize1 row lane) (item : ι) :
    blockBind (seat item) sizes (params.openStatements type) = seated sizes row lane item := by
  rw [openStatements, blockBind_append, blockBind_optional _ rfl]
  show update (update sizes "lid0" (seat item .localId 0)) "lid1" (seat item .localId 1) = _
  rw [ranked.rowStands, ranked.laneStands]
  rfl

theorem open_unrolls (ranked : Ranked seat params.localSize0 params.localSize1 row lane) :
    GroupUnrolls seat (fun _ => sizes) (params.openStatements type)
      [.work (params.openSteps type sizes row lane)] := by
  refine GroupUnrolls.work fun item => blockUnrolls_append.2 ⟨_, _, rfl, ?_, ?_⟩
  · refine blockUnrolls_run_cons.2 ⟨_, rfl, blockUnrolls_run_cons.2 ⟨_, rfl,
      blockUnrolls_singleton.2 (congrArg (fun locals =>
        [Step.mk locals (.declareIndex "lid1" (.workItem .localId 1))]) ?_)⟩⟩
    exact congrArg (update sizes "lid0") (ranked.rowStands item).symm
  · split
    · refine blockUnrolls_singleton.2 (congrArg (fun locals =>
        [Step.mk locals (.declareArray true type "xs" [.literal params.localSize1])]) ?_)
      show _ = update (update sizes "lid0" (seat item .localId 0)) "lid1" (seat item .localId 1)
      rw [ranked.rowStands, ranked.laneStands]
      rfl
    · rfl

theorem openSteps_keep (item : ι) :
    ∀ step ∈ params.openSteps type sizes row lane item, step.instruction.Keeps [] := by
  unfold openSteps
  split <;> simp [Instruction.Keeps]

section Rounds

variable [AddCommMonoid α] {meaning : Meaning α}
  (ranked : Ranked seat params.localSize0 params.localSize1 row lane)
  (accumulates : ∀ first, params.Accumulates sizes seat (inRound sizes row lane first) lane
    (fun item => first + row item) meaning (accumulating first))
  (counting : Counting (fun value => value / 2) (fun value => 0 < value)
    (foldStart params.localSize1) strides)
  (sized : 0 < params.localSize0) (counted : number < count)

section Unrolling

include ranked accumulates counting sized counted

/-- The steps of a group through the kernel. -/
theorem group_unrolls (stands : ∀ item, seat item .groupId 0 = number)
    (counts : ∀ item, seat item .groupCount 0 = count) :
    GroupUnrolls seat (fun _ => sizes) (params.kernel index type).body
      (params.groupSegments type sizes seat row lane accumulating strides number count) := by
  refine (open_unrolls ranked).append ?_
  simp only [open_binds ranked]
  refine GroupUnrolls.loop (fun item => ?_) fun first _ => round_unrolls (accumulates first) counting
  have positive := Nat.mul_pos (Nat.zero_lt_of_lt counted) sized
  refine (LoopHead.takes_iff positive (sizes (outerName params.axis)) (fun value => ?_)
    fun value => ?_).2 ?_
  · simp [LoopHead.next, Index.eval, counts]
  · cases axis : params.axis <;> simp [Condition.Holds, Index.eval, seated, outerName]
  · simp [firsts, Index.eval, stands]

end Unrolling

theorem group_plain (accumulates : ∀ first, params.Accumulates sizes seat
    (inRound sizes row lane first) lane (fun item => first + row item) meaning (accumulating first)) :
    ∀ segment ∈ params.groupSegments type sizes seat row lane accumulating strides number count,
      segment.Plain := by
  intro segment listed
  rcases List.mem_append.1 listed with opens | rounds
  · obtain rfl := List.mem_singleton.1 opens
    exact fun item step among => (openSteps_keep item step among).ne_barrier
  · obtain ⟨first, _, among⟩ := List.mem_flatMap.1 rounds
    exact round_plain (accumulates first) segment among

theorem whole_of_firsts (sized : 0 < params.localSize0) (counted : number < count) :
    ∀ first ∈ params.firsts sizes number count,
      params.localSize0 ∣ first ∧ first < sizes (outerName params.axis) :=
  fun _ listed =>
    have turn := (mem_firsts sized counted).1 listed
    ⟨turn.2.1, turn.1⟩

theorem nodup_firsts (sized : 0 < params.localSize0) (counted : number < count) :
    (params.firsts sizes number count).Nodup :=
  nodup_stepsBelow (Nat.mul_pos (Nat.zero_lt_of_lt counted) sized)

include ranked accumulates sized counted in
/-- Nobody races in a group of which no round finds what another one stores. -/
theorem group_raceFree {names : String → String} (ownNames : OwnNames names)
    (undisturbed : params.Undisturbed sizes names) :
    ∀ stage ∈ stages ((params.groupSegments type sizes seat row lane accumulating strides number
      count).map (Segment.rename names)), RaceFree seat stage := by
  let own := params.ownElements sizes names row lane none
  have opens : Orderly seat own
      [.work fun item => (params.openSteps type sizes row lane item).map (Step.rename names)] own :=
    ⟨fun item => respects_rename.2 (Respects.of_keeps (openSteps_keep item)
      fun _ _ _ => List.not_mem_nil), rfl⟩
  have rounds : ∃ last, Orderly seat own (((params.firsts sizes number count).flatMap
      (params.roundSegments type sizes seat row lane accumulating strides)).map
        (Segment.rename names)) last :=
    exists_orderly ranked ownNames accumulates undisturbed (nodup_firsts sized counted)
      (whole_of_firsts sized counted)
  obtain ⟨last, inRounds⟩ := rounds
  rw [groupSegments, List.map_append]
  exact (opens.append inRounds).raceFree

/-! ### Visits and outputs of a work item -/

theorem open_adds_nothing (item : ι) :
    ∀ step ∈ params.openSteps type sizes row lane item, ¬ Adds step.instruction := by
  unfold openSteps
  split <;> simp [Adds]

section Falls

include ranked accumulates counting sized counted

/-- A work item adds its columns to the outputs that fall to its row, and nothing to others. -/
theorem group_visits (item : ι) (r : Nat) :
    visited r (stepsOf (params.groupSegments type sizes seat row lane accumulating strides number
      count) item) =
        if params.FallsTo number count (row item) r then params.columns sizes r (lane item) else [] := by
  have rounds : visited r (stepsOf (params.groupSegments type sizes seat row lane accumulating
      strides number count) item) = (params.firsts sizes number count).flatMap fun first =>
        if first + row item = r then params.columns sizes r (lane item) else [] := by
    rw [groupSegments, stepsOf_append, visited_append, stepsOf_work,
      visited_eq_nil (open_adds_nothing item), List.nil_append, stepsOf_flatMap, visited_flatMap]
    simp only [round_visits counting, (accumulates _).visits]
  have distinct : (params.firsts sizes number count).Nodup := nodup_firsts sized counted
  rw [rounds]
  by_cases below : r < sizes (outerName params.axis)
  · have turns {first : Nat} := @first_iff params sizes number count (row item) r first
      (ranked.rowInside item) counted below
    split
    · next falls =>
        obtain ⟨listed, same⟩ := turns.2 ⟨rfl, falls⟩
        rw [flatMap_single distinct listed fun other among apart => if_neg fun again =>
          apart (turns.1 ⟨among, again⟩).1, if_pos same]
    · next elsewhere =>
        exact List.flatMap_eq_nil_iff.2 fun first listed =>
          if_neg fun same => elsewhere (turns.1 ⟨listed, same⟩).2
  · simp [columns, below]

omit ranked sized counted in
theorem group_inside (item : ι) : ∀ step ∈ stepsOf (params.groupSegments type sizes seat row lane
    accumulating strides number count) item, params.Inside sizes step := by
  intro step listed
  rw [groupSegments, stepsOf_append, stepsOf_work, stepsOf_flatMap, List.mem_append] at listed
  rcases listed with opens | rounds
  · exact fun adds => absurd adds (open_adds_nothing item step opens)
  · obtain ⟨first, _, among⟩ := List.mem_flatMap.1 rounds
    exact inside_of_round (accumulates first) counting item step among

omit ranked sized counted in
/-- The first work item of a row writes an output in each round. -/
theorem written_of_group (item : ι) :
    (written (seat item) (stepsOf (params.groupSegments type sizes seat row lane accumulating strides
      number count) item)).filter (fun touch => touch.array = "y") =
        (params.firsts sizes number count).flatMap fun first =>
          if lane item = 0 ∧ first + row item < sizes (outerName params.axis) then
            [⟨"y", [first + row item]⟩] else [] := by
  rw [groupSegments, stepsOf_append, written_append, List.filter_append, stepsOf_work,
    written_eq_nil_of_keeps (openSteps_keep item), List.filter_nil, List.nil_append, stepsOf_flatMap,
    written_flatMap, List.filter_flatMap]
  simp only [written_of_round (accumulates _) counting]

omit sized in
/-- The first work item of a row writes the outputs that fall to it. -/
theorem mem_written_of_group (item : ι) (touch : Touch) :
    touch ∈ (written (seat item) (stepsOf (params.groupSegments type sizes seat row lane accumulating
      strides number count) item)).filter (fun touch => touch.array = "y") ↔
        lane item = 0 ∧ ∃ r < sizes (outerName params.axis),
          params.FallsTo number count (row item) r ∧ touch = ⟨"y", [r]⟩ := by
  rw [written_of_group accumulates counting, List.mem_flatMap]
  constructor
  · rintro ⟨first, listed, among⟩
    split at among
    · next stores =>
        refine ⟨stores.1, _, stores.2, ?_, List.mem_singleton.1 among⟩
        exact ((first_iff (ranked.rowInside item) counted stores.2).1 ⟨listed, rfl⟩).2
    · cases among
  · rintro ⟨leads, r, below, falls, rfl⟩
    obtain ⟨listed, same⟩ := (first_iff (ranked.rowInside item) counted below).2 ⟨rfl, falls⟩
    refine ⟨_, listed, ?_⟩
    rw [same, if_pos ⟨leads, below⟩]
    exact List.mem_singleton_self _

omit ranked in
theorem nodup_written_of_group (item : ι) :
    ((written (seat item) (stepsOf (params.groupSegments type sizes seat row lane accumulating strides
      number count) item)).filter (fun touch => touch.array = "y")).Nodup := by
  rw [written_of_group accumulates counting, List.nodup_flatMap]
  refine ⟨fun first _ => ?_, ?_⟩
  · split
    · exact List.nodup_singleton _
    · exact List.nodup_nil
  · have distinct : (params.firsts sizes number count).Nodup := nodup_firsts sized counted
    have only {first : Nat} {touch : Touch}
        (among : touch ∈ if lane item = 0 ∧ first + row item < sizes (outerName params.axis) then
          [(⟨"y", [first + row item]⟩ : Touch)] else []) : touch = ⟨"y", [first + row item]⟩ := by
      split at among
      · exact List.mem_singleton.1 among
      · cases among
    refine distinct.imp fun {first second} apart touch inFirst inSecond => apart ?_
    simpa using (only inFirst).symm.trans (only inSecond)

omit ranked sized counted in
/-- A work item finds elements of arrays of its group, its outputs, and what its outputs are summed up
from. -/
theorem group_finds (item : ι) : ∀ step ∈ stepsOf (params.groupSegments type sizes seat row lane
    accumulating strides number count) item,
      ∀ touch ∈ step.instruction.footprint (seat item) step.locals,
        touch.array ∈ ["xs", "buf", "y"] ∨ ∃ first ∈ params.firsts sizes number count,
          touch ∈ params.sources sizes (first + row item) := by
  intro step listed touch inside
  rw [groupSegments, stepsOf_append, stepsOf_work, stepsOf_flatMap, List.mem_append] at listed
  rcases listed with opens | rounds
  · exact absurd ((openSteps_keep item step opens).footprint_subset inside) List.not_mem_nil
  · obtain ⟨first, isFirst, among⟩ := List.mem_flatMap.1 rounds
    exact (round_finds (accumulates first) counting item step among touch inside).imp_right
      fun found => ⟨first, isFirst, found⟩

omit [AddCommMonoid α] ranked accumulates counting sized counted in
/-- What a group declares changes no element. -/
theorem rounds_of_group {names : String → String} {before after : View ι α}
    (runs : Runs meaning seat ((params.groupSegments type sizes seat row lane accumulating strides
      number count).map (Segment.rename names)) before after) :
    ∃ opened : View ι α, opened.shared = before.shared ∧
      Runs meaning seat (((params.firsts sizes number count).flatMap (params.roundSegments type sizes
        seat row lane accumulating strides)).map (Segment.rename names)) opened after := by
  rw [groupSegments, List.map_append] at runs
  obtain ⟨opened, opens, rounds⟩ := runs_append.1 runs
  have opens : Settles meaning seat (fun item =>
      (params.openSteps type sizes row lane item).map (Step.rename names)) before opened :=
    runs_work.1 opens
  refine ⟨opened, funext fun touch => opens.kept touch fun item => ?_, rounds⟩
  rw [written_rename, written_eq_nil_of_keeps (openSteps_keep item)]
  exact List.not_mem_nil

/-- A group leaves in each output that falls to one of its rows the sum of the output's products. -/
theorem shared_of_group {names : String → String} (ownNames : OwnNames names)
    (undisturbed : params.Undisturbed sizes names) (sums : meaning.Sums)
    (wide : 0 < params.localSize1) (small : params.localSize1 ≤ Size.kernelLimit)
    {before after : View ι α}
    (runs : Runs meaning seat ((params.groupSegments type sizes seat row lane accumulating strides
      number count).map (Segment.rename names)) before after) {item : ι} (leads : lane item = 0)
    {r : Nat} (below : r < sizes (outerName params.axis))
    (falls : params.FallsTo number count (row item) r) :
    after.shared ⟨names "y", [r]⟩ = params.total sizes meaning (before.under names).shared r := by
  obtain ⟨opened, unmoved, rounds⟩ := rounds_of_group runs
  obtain ⟨listed, same⟩ := (first_iff (ranked.rowInside item) counted below).2 ⟨rfl, falls⟩
  have left := shared_of_rounds ownNames accumulates counting ranked sums wide small undisturbed
    (nodup_firsts sized counted) (whole_of_firsts sized counted) rounds _ listed item leads
    (same.trans_lt below)
  rwa [same, View.under, unmoved] at left

end Falls

end Rounds

end Groups

end MatrixVector

end KernelTuner
