import KernelTuner.Proofs.Variant.MatrixVectorRounds

/-!
Contract: the rounds of a work group of a matrix-vector product, one behind another.

Owns: when what a round stores is found in no other round, even if the output shares its elements
with the matrix or the vector (`MatrixVector.Undisturbed`); that nobody races then
(`MatrixVector.exists_orderly`); and `MatrixVector.shared_of_rounds`, by which a group leaves in
each of its outputs the sum of the products of its row or column.

Does not own: which group has which outputs (`Proofs.Variant.MatrixVectorGroups`).
-/

set_option autoImplicit false

namespace KernelTuner

open Kernel
open Function (update)

namespace MatrixVector

variable {ι α : Type}

section Definitions

variable (params : MatrixVector) (sizes : Variables) (names : String → String) (row lane : ι → Nat)

/-- Under these names a group's own arrays share their elements with no others. -/
structure OwnNames : Prop where
  folded : names "buf" = "buf"
  foldedAlone : Alone names "buf"
  stagedAlone : Alone names "xs"

/-- No output that is stored in a round is found in another one, under these names. -/
def Undisturbed : Prop :=
  ∀ r other, r / params.localSize0 * params.localSize0 < sizes (outerName params.axis) →
    other < sizes (outerName params.axis) → r / params.localSize0 ≠ other / params.localSize0 →
      ∀ touch ∈ params.sources sizes r, touch.rename names ≠ ⟨names "y", [other]⟩

/-- The entry of the fold that a work item has for itself, and the output that it has stored last. -/
def ownElements (stored : Option Nat) (item : ι) : Set Touch :=
  {touch | touch = entryOf "buf" [row item] (lane item) ∨
    lane item = 0 ∧ ∃ first ∈ stored, first + row item < sizes (outerName params.axis) ∧
      touch = ⟨names "y", [first + row item]⟩}

end Definitions

variable {params : MatrixVector} {type : ElementType} {sizes : Variables} {seat : ι → Seat}
  {row lane : ι → Nat} {names : String → String} {first : Nat}
  {accumulating : Nat → List (Segment ι)} {strides values : List Nat}

/-- Outputs are found in no other round where the vector is not overwritten, or only in the one round
there is, and each element of the matrix is overwritten with the output that it alone adds to. -/
theorem undisturbed_of_shared
    (vector : names "x" = names "y" → sizes (outerName params.axis) ≤ params.localSize0)
    (matrix : names "A" = names "y" → ∀ r < sizes (outerName params.axis),
      ∀ c < sizes (innerName params.axis), placeOf params.axis (sizes "N") r c = r) :
    params.Undisturbed sizes names := by
  rintro r other begins below apart touch ⟨c, input, rfl | ⟨output, rfl⟩⟩ same
  · have few := vector (congrArg Touch.array same)
    have alone : r / params.localSize0 < 1 :=
      Nat.lt_of_mul_lt_mul_right ((lt_of_lt_of_le begins few).trans_eq (Nat.one_mul _).symm)
    have otherAlone : other / params.localSize0 = 0 := Nat.div_eq_of_lt (lt_of_lt_of_le below few)
    exact apart ((Nat.lt_one_iff.1 alone).trans otherAlone.symm)
  · have place := matrix (congrArg Touch.array same) r output c input
    obtain rfl : placeOf params.axis (sizes "N") r c = other :=
      List.singleton_inj.1 (congrArg Touch.indices same)
    rw [place] at apart
    exact apart rfl

theorem div_of_round (whole : params.localSize0 ∣ first) {own : Nat}
    (inside : own < params.localSize0) :
    (first + own) / params.localSize0 * params.localSize0 = first := by
  obtain ⟨turns, rfl⟩ := whole
  rw [Nat.mul_add_div (Nat.zero_lt_of_lt inside), Nat.div_eq_of_lt inside, Nat.add_zero, Nat.mul_comm]

/-- Outputs of two rounds are in different rounds. -/
theorem Undisturbed.apart (undisturbed : params.Undisturbed sizes names) {other own place : Nat}
    (whole : params.localSize0 ∣ first) (otherWhole : params.localSize0 ∣ other)
    (begins : first < sizes (outerName params.axis)) (apart : first ≠ other)
    (inside : own < params.localSize0) (otherInside : place < params.localSize0)
    (below : other + place < sizes (outerName params.axis)) {touch : Touch}
    (found : touch ∈ params.sources sizes (first + own)) :
    touch.rename names ≠ ⟨names "y", [other + place]⟩ := by
  have mine := div_of_round whole inside
  have theirs := div_of_round otherWhole otherInside
  refine undisturbed (first + own) (other + place) (mine.trans_lt begins) below (fun same => ?_) touch
    found
  rw [same, theirs] at mine
  exact apart mine.symm

/-! ### Owners -/

section Order

variable (ranked : Ranked seat params.localSize0 params.localSize1 row lane)
include ranked

theorem owner_unique {stored : Option Nat} {item other : ι} {touch : Touch}
    (mine : touch ∈ params.ownElements sizes names row lane stored item)
    (theirs : touch ∈ params.ownElements sizes names row lane stored other) : other = item := by
  rcases mine with rfl | ⟨leads, turn, isStored, _, rfl⟩
  · rcases theirs with same | ⟨_, _, _, _, same⟩
    · obtain ⟨sameRow, sameLane⟩ := entryOf_inj.1 same
      exact ranked.only other item (List.singleton_inj.1 sameRow).symm sameLane.symm
    · exact absurd (congrArg Touch.indices same) (by simp [entryOf])
  · rcases theirs with same | ⟨otherLeads, again, alsoStored, _, same⟩
    · exact absurd (congrArg Touch.indices same) (by simp [entryOf])
    · obtain rfl := Option.mem_unique isStored alsoStored
      have sameOutput := List.singleton_inj.1 (congrArg Touch.indices same)
      exact ranked.only other item (by omega) (otherLeads.trans leads.symm)

/-- Steps with own elements only respect those of others. -/
theorem respects_of_own {stored : Option Nat} {item : ι} {steps : List Step}
    (own : ∀ step ∈ steps, step.instruction.footprint (seat item) step.locals ⊆
      params.ownElements sizes names row lane stored item) :
    Respects seat (params.ownElements sizes names row lane stored) item steps :=
  fun step listed => ⟨fun _ writes => own step listed (Instruction.written_subset_footprint writes),
    fun _ inside _ owns => owner_unique ranked (own step listed inside) owns⟩

variable (ownNames : OwnNames names)
include ownNames

theorem hand_respects (stored : Option Nat) (item : ι) :
    Respects seat (params.ownElements sizes names row lane stored) item
      ((params.handSteps sizes seat row lane first item).map (Step.rename names)) := by
  have known : Knows sizes (row item) (lane item) (first + row item)
      (params.behindColumns sizes seat row lane first item) := knows_behind item
  refine respects_of_own ranked (List.forall_mem_singleton.2 ?_)
  rintro touch (rfl | absent)
  · refine .inl ?_
    simp [Step.rename, entryOf, Index.eval, known.row, known.lane, ownNames.folded]
  · cases absent

theorem store_respects (item : ι) :
    Respects seat (params.ownElements sizes names row lane (some first)) item
      ((params.storeSteps sizes seat row lane first item).map (Step.rename names)) := by
  have known : Knows sizes (row item) (lane item) (first + row item)
      (params.behindColumns sizes seat row lane first item) := knows_behind item
  refine respects_of_own ranked ?_
  unfold storeSteps
  split
  · next stores =>
      refine List.forall_mem_singleton.2 ?_
      rintro touch (rfl | rfl)
      · refine .inr ⟨stores.1, first, rfl, stores.2, ?_⟩
        simp [Step.rename, Index.eval, known.output]
      · refine .inl ?_
        simp [Step.rename, entryOf, Index.eval, known.row, stores.1, ownNames.folded]
  · exact List.forall_mem_nil _

omit ranked in
theorem foldSegments_rename {locals : ι → Variables} :
    (foldSegments seat locals "lid1" "buf" [.var "lid0"] params.localSize1 strides).map
      (Segment.rename names) =
        foldSegments seat locals "lid1" "buf" [.var "lid0"] params.localSize1 strides := by
  have same (stride : Nat) (item : ι) : (strideSteps seat locals "lid1" "buf" [.var "lid0"]
      params.localSize1 stride item).map (Step.rename names) =
        strideSteps seat locals "lid1" "buf" [.var "lid0"] params.localSize1 stride item := by
    unfold strideSteps
    simp only
    split
    · simp only [List.map_cons, List.map_nil, Step.rename, Instruction.rename, Place.rename,
        Value.rename, ownNames.folded]
    · rfl
  rw [foldSegments, List.map_cons, List.map_flatMap]
  refine congrArg (List.cons _) (List.flatMap_congr fun stride _ => ?_)
  show [_, _] = [_, _]
  rw [Segment.rename, funext (same stride)]
  rfl

/-- Nobody races in a round that does not find what was stored before it. Behind the round, the output
of each row is owned by the work item that has stored it. -/
theorem round_orderly [AddCommMonoid α] {meaning : Meaning α}
    (accumulates : params.Accumulates sizes seat (inRound sizes row lane first) lane
      (fun item => first + row item) meaning (accumulating first)) (stored : Option Nat)
    (apart : ∀ prior ∈ stored, ∀ item other, prior + row item < sizes (outerName params.axis) →
      ∀ touch ∈ params.sources sizes (first + row other),
        touch.rename names ≠ ⟨names "y", [prior + row item]⟩) :
    Orderly seat (params.ownElements sizes names row lane stored)
      ((params.roundSegments type sizes seat row lane accumulating strides first).map
        (Segment.rename names)) (params.ownElements sizes names row lane (some first)) := by
  let own := params.ownElements sizes names row lane stored
  let next := params.ownElements sizes names row lane (some first)
  have begins : Orderly seat own
      [.work fun item => (beginSteps type sizes row lane first item).map (Step.rename names)] own :=
    ⟨fun item => respects_rename.2 (Respects.of_keeps beginSteps_keep fun _ _ _ => List.not_mem_nil),
      rfl⟩
  have sums : Orderly seat own ((accumulating first).map (Segment.rename names)) own := by
    refine accumulates.orderly names own ownNames.stagedAlone fun item touch owns => ?_
    rcases owns with isEntry | ⟨_, prior, isStored, below, isOutput⟩
    · have isFolded : touch.array = "buf" :=
        ownNames.foldedAlone _ ((congrArg Touch.array isEntry).trans ownNames.folded.symm)
      refine ⟨by simp [isFolded], ?_⟩
      rintro other ⟨c, _, rfl | ⟨_, rfl⟩⟩ <;> simp at isFolded
    · refine ⟨fun isStaged => ?_, fun other found => apart prior isStored item other below touch found
        isOutput⟩
      have shares : names "y" = names "xs" :=
        (congrArg Touch.array isOutput).symm.trans (congrArg names isStaged)
      exact absurd (ownNames.stagedAlone "y" shares) (by decide)
  have hands : Orderly seat own
      [.work fun item => (params.handSteps sizes seat row lane first item).map (Step.rename names)]
        own := ⟨hand_respects ranked ownNames stored, rfl⟩
  have folds : Orderly seat own ((foldSegments seat
      (params.behindColumns sizes seat row lane first) "lid1" "buf" [.var "lid0"] params.localSize1
      strides).map (Segment.rename names)) next := by
    rw [foldSegments_rename ownNames]
    exact ranked.folds.orderly
  have stores : Orderly seat next
      [.work fun item => (params.storeSteps sizes seat row lane first item).map (Step.rename names)]
        next := ⟨store_respects ranked ownNames, rfl⟩
  simp only [roundSegments, sumSegments, List.map_append]
  exact (((begins.append sums).append hands).append folds).append stores

/-- Nobody races in rounds of which none finds what another one stores. -/
theorem exists_orderly [AddCommMonoid α] {meaning : Meaning α}
    (accumulates : ∀ first, params.Accumulates sizes seat (inRound sizes row lane first) lane
      (fun item => first + row item) meaning (accumulating first))
    (undisturbed : params.Undisturbed sizes names) (distinct : values.Nodup)
    (whole : ∀ first ∈ values, params.localSize0 ∣ first ∧ first < sizes (outerName params.axis)) :
    ∃ last, Orderly seat (params.ownElements sizes names row lane none)
      ((values.flatMap (params.roundSegments type sizes seat row lane accumulating strides)).map
        (Segment.rename names)) last := by
  have along (stored : Option Nat) (ahead : ∀ prior ∈ stored, params.localSize0 ∣ prior ∧
      prior ∉ values) : ∃ last, Orderly seat (params.ownElements sizes names row lane stored)
        ((values.flatMap (params.roundSegments type sizes seat row lane accumulating strides)).map
          (Segment.rename names)) last := by
    induction values generalizing stored with
    | nil => exact ⟨_, rfl⟩
    | cons first rest inductionHypothesis =>
        rw [List.forall_mem_cons] at whole
        rw [List.nodup_cons] at distinct
        obtain ⟨⟨isWhole, begins⟩, later⟩ := whole
        obtain ⟨last, inRest⟩ := inductionHypothesis distinct.2 later (some first)
          fun prior isFirst => by
            obtain rfl := Option.mem_some.1 isFirst
            exact ⟨isWhole, distinct.1⟩
        rw [List.flatMap_cons, List.map_append]
        refine ⟨last, (round_orderly ranked ownNames (accumulates first) stored ?_).append inRest⟩
        intro prior isStored item other below touch found
        obtain ⟨priorWhole, notListed⟩ := ahead prior isStored
        refine undisturbed.apart isWhole priorWhole begins ?_ (ranked.rowInside other)
          (ranked.rowInside item) below found
        rintro rfl
        exact notListed List.mem_cons_self
  exact along none fun _ absent => absurd absent (Option.not_mem_none _)

end Order

/-! ### Finds -/

/-- In a round a work item finds elements of arrays of its group, its output, and what its output is
summed up from. -/
theorem round_finds [AddCommMonoid α] {meaning : Meaning α}
    (accumulates : params.Accumulates sizes seat (inRound sizes row lane first) lane
      (fun item => first + row item) meaning (accumulating first))
    (counting : Counting (fun value => value / 2) (fun value => 0 < value)
      (foldStart params.localSize1) strides) (item : ι) :
    ∀ step ∈ stepsOf (params.roundSegments type sizes seat row lane accumulating strides first) item,
      ∀ touch ∈ step.instruction.footprint (seat item) step.locals,
        touch.array ∈ ["xs", "buf", "y"] ∨ touch ∈ params.sources sizes (first + row item) := by
  intro step listed touch inside
  simp only [roundSegments, sumSegments, stepsOf_append, stepsOf_work, List.mem_append] at listed
  rcases listed with (((begins | among) | hands) | folds) | stores
  · exact absurd ((beginSteps_keep step begins).footprint_subset inside) List.not_mem_nil
  · by_cases staged : touch.array = "xs"
    · exact .inl (staged ▸ List.mem_cons_self)
    · exact .inr (accumulates.finds item step among touch inside staged)
  · obtain rfl := List.mem_singleton.1 hands
    rcases inside with rfl | absent
    · exact .inl (by simp)
    · cases absent
  · have text := instruction_of_step folds _ (groupUnrolls_localFold counting item)
    simp only [localFold, blockInstructions, Statement.instructions, List.mem_append, List.mem_cons,
      List.not_mem_nil, or_false] at text
    rcases text with rest | rest | rest <;> rw [rest] at inside
    · cases inside
    · rcases inside with rfl | rfl <;> exact .inl (by simp)
    · cases inside
  · unfold storeSteps at stores
    split at stores
    · obtain rfl := List.mem_singleton.1 stores
      rcases inside with rfl | rfl <;> exact .inl (by simp)
    · cases stores

/-! ### Sums -/

section Sums

variable [AddCommMonoid α] {meaning : Meaning α} {before after : View ι α}

/-- A round leaves alone what is no element of a group's own arrays, and no output of its own. -/
theorem kept_of_round (ownNames : OwnNames names)
    (accumulates : params.Accumulates sizes seat (inRound sizes row lane first) lane
      (fun item => first + row item) meaning (accumulating first))
    (counting : Counting (fun value => value / 2) (fun value => 0 < value)
      (foldStart params.localSize1) strides)
    (runs : Runs meaning seat ((params.roundSegments type sizes seat row lane accumulating strides
      first).map (Segment.rename names)) before after) {touch : Touch}
    (shared : touch.array ∉ ["xs", "buf"])
    (apart : ∀ item, lane item = 0 → first + row item < sizes (outerName params.axis) →
      touch.rename names ≠ ⟨names "y", [first + row item]⟩) :
    after.shared (touch.rename names) = before.shared (touch.rename names) := by
  refine runs.kept fun item writes => ?_
  rw [stepsOf_rename, written_rename] at writes
  obtain ⟨wrote, writes, same⟩ := List.mem_map.1 writes
  have target := round_targets (target_of_written (round_unrolls accumulates counting item) writes)
  simp only [List.mem_cons, List.not_mem_nil, or_false] at target shared
  have sameName : names touch.array = names wrote.array := (congrArg Touch.array same).symm
  rcases target with staged | folded | output
  · exact shared (.inl (ownNames.stagedAlone _ (sameName.trans (congrArg names staged))))
  · exact shared (.inr (ownNames.foldedAlone _ (sameName.trans (congrArg names folded))))
  · have among : wrote ∈ (written (seat item) (stepsOf (params.roundSegments type sizes seat row lane
        accumulating strides first) item)).filter fun touch => touch.array = "y" :=
      List.mem_filter.2 ⟨writes, decide_eq_true output⟩
    rw [written_of_round accumulates counting] at among
    split at among
    · next stores =>
        obtain rfl := List.mem_singleton.1 among
        exact apart item stores.1 stores.2 same.symm
    · cases among

variable (ownNames : OwnNames names)
  (accumulates : ∀ first, params.Accumulates sizes seat (inRound sizes row lane first) lane
    (fun item => first + row item) meaning (accumulating first))
  (counting : Counting (fun value => value / 2) (fun value => 0 < value)
    (foldStart params.localSize1) strides)
  (ranked : Ranked seat params.localSize0 params.localSize1 row lane) (sums : meaning.Sums)
  (wide : 0 < params.localSize1) (small : params.localSize1 ≤ Size.kernelLimit)
include ownNames accumulates counting ranked sums wide small

/-- Behind a round, an output is the sum of the products of what was found in front of it. -/
theorem output_of_round
    (runs : Runs meaning seat ((params.roundSegments type sizes seat row lane accumulating strides
      first).map (Segment.rename names)) before after)
    {item : ι} (leads : lane item = 0) (below : first + row item < sizes (outerName params.axis)) :
    after.shared ⟨names "y", [first + row item]⟩ =
      params.total sizes meaning (before.under names).shared (first + row item) := by
  rw [roundSegments, List.map_append] at runs
  obtain ⟨folded, inSums, stores⟩ := runs_append.1 runs
  have stores : Settles meaning seat (fun item =>
      (params.storeSteps sizes seat row lane first item).map (Step.rename names)) folded after :=
    runs_work.1 stores
  have alone (item : ι) : TargetsAlone names
      (stepsOf (params.sumSegments type sizes seat row lane accumulating strides first) item) := by
    intro step listed target isTarget
    have among : target ∈ blockTargets (params.sumStatements type) := List.mem_filterMap.2
      ⟨_, instruction_of_step listed _ (sum_unrolls (accumulates first) counting item), isTarget⟩
    have own := sum_targets among
    simp only [List.mem_cons, List.not_mem_nil, or_false] at own
    rcases own with rfl | rfl
    · exact ownNames.stagedAlone
    · exact ownNames.foldedAlone
  have known : Knows sizes (row item) (lane item) (first + row item)
      (params.behindColumns sizes seat row lane first item) := knows_behind item
  have steps : (params.storeSteps sizes seat row lane first item).map (Step.rename names) =
      [⟨params.behindColumns sizes seat row lane first item, .assign (.element (names "y") [.var "r"])
        (.read (.element (names "buf") [.var "lid0", .literal 0]))⟩] := by
    rw [storeSteps, if_pos ⟨leads, below⟩]
    rfl
  rw [stores.shared_of_assign steps (by simp [Index.eval, known.output]),
    ← shared_of_sums (accumulates first) ranked sums wide small counting (inSums.under alone) item
      below]
  simp [Value.inLane, Place.found, Index.eval, known.row, View.memory, View.under, Touch.rename,
    entryOf]

omit accumulates counting ranked sums wide small ownNames in
/-- The sum of the products of an output is one of what they are found from. -/
theorem total_congr {elements others : Touch → α} {r : Nat}
    (below : r < sizes (outerName params.axis))
    (same : ∀ touch ∈ params.sources sizes r, elements touch = others touch) :
    params.total sizes meaning elements r = params.total sizes meaning others r := by
  refine Finset.sum_congr rfl fun c input => ?_
  have inside := Finset.mem_range.1 input
  rw [productAt, same _ ⟨c, inside, .inr ⟨below, rfl⟩⟩, same _ ⟨c, inside, .inl rfl⟩]
  rfl

/-- Behind its rounds, a group has left the sum of the products of each of its outputs. -/
theorem shared_of_rounds (undisturbed : params.Undisturbed sizes names) (distinct : values.Nodup)
    (whole : ∀ first ∈ values, params.localSize0 ∣ first ∧ first < sizes (outerName params.axis))
    (runs : Runs meaning seat ((values.flatMap (params.roundSegments type sizes seat row lane
      accumulating strides)).map (Segment.rename names)) before after) :
    ∀ first ∈ values, ∀ item, lane item = 0 → first + row item < sizes (outerName params.axis) →
      after.shared ⟨names "y", [first + row item]⟩ =
        params.total sizes meaning (before.under names).shared (first + row item) := by
  rw [List.map_flatMap] at runs
  -- What later rounds find is as it was, and the rounds so far have left their sums.
  refine (runs.rounds (fun done view =>
    (∀ first ∈ values, first ∉ done → ∀ item, ∀ touch ∈ params.sources sizes (first + row item),
      view.shared (touch.rename names) = before.shared (touch.rename names)) ∧
    ∀ first ∈ done, ∀ item, lane item = 0 → first + row item < sizes (outerName params.axis) →
      view.shared ⟨names "y", [first + row item]⟩ =
        params.total sizes meaning (before.under names).shared (first + row item)) ?_ ?_).2
  · exact ⟨fun _ _ _ _ _ _ => rfl, List.forall_mem_nil _⟩
  · rintro done first later isSplit view next ⟨kept, left⟩ inRound
    have listed : first ∈ values := by
      rw [isSplit]
      exact List.mem_append_right _ List.mem_cons_self
    obtain ⟨isWhole, begins⟩ := whole first listed
    have fresh : first ∉ done := by
      rw [isSplit, List.nodup_middle, List.nodup_cons, List.mem_append, not_or] at distinct
      exact distinct.1.1
    refine ⟨fun other among behind item touch found => ?_, fun earlier among item leads below => ?_⟩
    · rw [List.mem_append, List.mem_singleton, not_or] at behind
      obtain ⟨otherWhole, otherBegins⟩ := whole other among
      rw [← kept other among behind.1 item touch found]
      refine kept_of_round ownNames (accumulates first) counting inRound ?_
        fun owner _ below => undisturbed.apart otherWhole isWhole otherBegins behind.2
          (ranked.rowInside item) (ranked.rowInside owner) below found
      obtain ⟨c, _, rfl | ⟨_, rfl⟩⟩ := found <;> simp
    · rcases List.mem_append.1 among with former | now
      · rw [← left earlier former item leads below]
        have notOwn : (⟨"y", [earlier + row item]⟩ : Touch).array ∉ ["xs", "buf"] := by simp
        refine kept_of_round ownNames (accumulates first) counting inRound notOwn
          fun owner _ _ same => fresh ?_
        have sameOutput := List.singleton_inj.1 (congrArg Touch.indices same)
        have earlierWhole := (whole earlier (by
          rw [isSplit]
          exact List.mem_append_left _ former)).1
        rw [← div_of_round isWhole (ranked.rowInside owner), ← sameOutput,
          div_of_round earlierWhole (ranked.rowInside item)]
        exact former
      · obtain rfl := List.mem_singleton.1 now
        rw [output_of_round ownNames accumulates counting ranked sums wide small inRound leads below]
        exact total_congr below (kept earlier listed fresh item)

end Sums

end MatrixVector

end KernelTuner
