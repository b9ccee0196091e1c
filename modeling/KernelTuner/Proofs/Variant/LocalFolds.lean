import KernelTuner.Proofs.Kernel.Grid
import KernelTuner.Proofs.Variant.InnerProductExact
import KernelTuner.Proofs.Variant.Streams
import Mathlib.Data.Fintype.Prod

/-!
Contract: folds of local memory by themselves.

Owns: what a crew does from distance to distance when it folds rows of an array
(`Crew.FoldsRows`), whatever the order of its steps between barriers; and `localFold_sums`, by
which the work items of a group leave the sum of each row in its first entry, for every number of
entries.

Does not own: the kernels around a fold (`Proofs.Variant.InnerProductSums`,
`Proofs.Variant.MatrixVectorRounds`).
-/

set_option autoImplicit false

namespace KernelTuner.Kernel

open Function (update)

variable {ι α : Type}

/-! ### Crews that fold -/

/-- What a crew does that folds rows of an array, in which each work item has an entry.

Behind the first barrier there is a distance, and behind each further one half of it, down to one.
A work item below the distance adds the entry that is so far behind its own to its own, if the row
has such an entry. -/
structure Crew.FoldsRows [DecidableEq ι] [AddCommMonoid α] (crew : Crew ι) (meaning : Meaning α)
    (array : String) (size : Nat) (lane : ι → Nat) (row : ι → List Nat) : Prop where
  rounds : ∃ (strides : List Nat) (add : ι → Nat → Step),
    Counting (fun stride => stride / 2) (fun stride => 0 < stride) (Size.leastPowerOfTwo size / 2)
      strides ∧
    (∀ item, phases (crew.steps item) = [] :: (strides.map fun stride =>
      if lane item < stride ∧ lane item + stride < size then [add item stride] else []) ++ [[]]) ∧
    ∀ item stride (memory : Memory α),
      (add item stride).instruction.perform meaning (crew.seat item) (add item stride).locals
          memory =
        memory.setElement (entryOf array (row item) (lane item))
          (memory.elements (entryOf array (row item) (lane item)) +
            memory.elements (entryOf array (row item) (lane item + stride)))
  /-- No work item depends on an element that another one writes before the next barrier. -/
  apart : ∀ number, RaceFree crew.seat fun item => crew.phase item number
  ends : WellFounded fun next state : CrewState ι α => crew.Advances meaning state next
  /-- A crew that cannot go on is through, and the first entry of each row has the sum of those
  with which the crew began. -/
  leaves : ∀ own shared state, crew.Reaches meaning (crew.start own shared) state →
    (∃ next, crew.Advances meaning state next) ∨
      (∀ item, state.ahead item = [] ∧ (phases (crew.steps item)).length ≤ state.passed + 1) ∧
        ∀ item, state.shared (entryOf array (row item) 0) =
          ∑ entry ∈ Finset.range size, shared (entryOf array (row item) entry)

/-- The work items of a group come to steps of their own through a fold, one way only, and fold the
rows with them. A device comes to the same steps. -/
def FoldsLocally [DecidableEq ι] [AddCommMonoid α] (meaning : Meaning α) (seat : ι → Seat)
    (locals : ι → Variables) (name array : String) (front : List Index) (size : Nat)
    (lane : ι → Nat) (row : ι → List Nat) : Prop :=
  ∃ steps : ι → List Step,
    (∀ item other, blockUnrolls (seat item) (locals item) (foldFrom (Size.leastPowerOfTwo size / 2)
      name (fun index => .element array (front ++ [index])) size) other ↔ other = steps item) ∧
    (size ≤ Size.kernelLimit → ∀ item other, blockExecutes (seat item) (locals item)
      (localFold name (fun index => .element array (front ++ [index])) size) other ↔
        other = steps item) ∧
    (Crew.mk seat steps).FoldsRows meaning array size lane row

/-! ### Rounds of a fold -/

section Folds

variable {seat : ι → Seat} {locals : ι → Variables} {name array : String} {front : List Index}
  {size : Nat} {strides : List Nat} {lane : ι → Nat} {row : ι → List Nat}

/-- What a work item does for a distance, if it does anything. -/
def addStep (locals : ι → Variables) (name array : String) (front : List Index) (item : ι)
    (stride : Nat) : Step :=
  ⟨update (locals item) "stride" stride, .accumulate (.element array (front ++ [.var name]))
    (.read (.element array (front ++ [.add (.var name) (.var "stride")])))⟩

theorem stages_strides : stages (strides.flatMap (strideRound seat locals name array front size)) =
    strides.map (strideSteps seat locals name array front size) ++ [fun _ => []] := by
  induction strides with
  | nil => rfl
  | cons stride rest inductionHypothesis =>
      rw [List.flatMap_cons, strideRound, List.cons_append, List.singleton_append, stages, stages,
        inductionHypothesis, List.modifyHead_cons]
      simp only [List.append_nil]
      rfl

theorem own_of_foldSegments (item : ι) :
    ∀ step ∈ stepsOf (foldSegments seat locals name array front size strides) item,
      step.instruction.own? = none := by
  intro step listed
  obtain ⟨segment, among, inSegment⟩ := List.mem_flatMap.1 listed
  simp only [foldSegments, strideRound, List.mem_cons, List.mem_flatMap, List.not_mem_nil,
    or_false] at among
  rcases among with rfl | ⟨stride, _, rfl | rfl⟩
  · rw [List.mem_singleton.1 inSegment]
    rfl
  · simp only [Segment.steps, strideSteps] at inSegment
    split at inSegment
    · rw [List.mem_singleton.1 inSegment]
      rfl
    · cases inSegment
  · rw [List.mem_singleton.1 inSegment]
    rfl

namespace Folds

variable (folds : Folds seat locals name array front size lane row)
include folds

theorem follows : (Crew.mk seat
    (stepsOf (foldSegments seat locals name array front size strides))).Follows
      (foldSegments seat locals name array front size strides) where
  steps := fun _ => rfl
  plain := foldSegments_plain
  raceFree := by
    have orderly : Orderly seat (fun _ => ∅)
        (foldSegments seat locals name array front size strides) (fun _ => ∅) := folds.orderly
    exact orderly.raceFree
  bare := fun item => List.filterMap_eq_nil_iff.2 (own_of_foldSegments item)

theorem perform_addStep [AddCommMonoid α] {meaning : Meaning α} (sums : meaning.Sums) (item : ι)
    (stride : Nat) (memory : Memory α) :
    (addStep locals name array front item stride).instruction.perform meaning (seat item)
        (addStep locals name array front item stride).locals memory =
      memory.setElement (entryOf array (row item) (lane item))
        (memory.elements (entryOf array (row item) (lane item)) +
          memory.elements (entryOf array (row item) (lane item + stride))) := by
  simp only [addStep, Instruction.perform, Place.set, Place.found, Value.inLane, sums.add,
    folds.entry_eq, folds.eval_own, folds.eval_far]

variable [DecidableEq ι] [Finite ι] [Nonempty ι] [AddCommMonoid α] {meaning : Meaning α}
  (sums : meaning.Sums)
include sums

/-- Work items in rows fold them, from the least power of two on. -/
theorem foldsRows (counting : Counting (fun stride => stride / 2) (fun stride => 0 < stride)
    (Size.leastPowerOfTwo size / 2) strides) :
    (Crew.mk seat (stepsOf (foldSegments seat locals name array front size strides))).FoldsRows
      meaning array size lane row where
  rounds := by
    refine ⟨strides, addStep locals name array front, counting, fun item => ?_,
      folds.perform_addStep sums⟩
    rw [folds.follows.phases, foldSegments, stages, stages_strides, List.map_cons, List.map_append,
      List.map_map]
    exact congrArg (fun rounds => [] :: rounds ++ [[]])
      (List.map_congr_left fun stride _ => folds.strideSteps_eq item)
  apart := folds.follows.raceFree_phase
  ends := Crew.advances_wellFounded _ meaning
  leaves := by
    intro own shared state reached
    refine folds.follows.advances_or_through.imp_right fun through => ⟨through, fun item => ?_⟩
    obtain ⟨isStride, reaches⟩ := leastPowerOfTwo_half_reaches size
    have runs := folds.follows.runs_of_reaches reached through
    exact folds.shared_of_reaching sums isStride reaches counting runs item

theorem foldsLocally (plain : ∀ index ∈ front, ∀ seat inner, index.Exact seat inner)
    (apart : name ≠ "stride") :
    FoldsLocally meaning seat locals name array front size lane row := by
  obtain ⟨strides, counting⟩ := exists_halving (Size.leastPowerOfTwo size / 2)
  have own (item : ι) : blockUnrolls (seat item) (locals item)
      (foldFrom (Size.leastPowerOfTwo size / 2) name
        (fun index => .element array (front ++ [index])) size)
      (stepsOf (foldSegments seat locals name array front size strides) item) :=
    groupUnrolls_foldFrom counting item
  refine ⟨_, fun item other => ⟨blockUnrolls_unique _ (own item), fun same => same ▸ own item⟩,
    fun small item other => ?_, folds.foldsRows sums counting⟩
  have exact : blockExact (seat item) (locals item)
      (localFold name (fun index => .element array (front ++ [index])) size) :=
    localFold_exact front (fun index listed => plain index listed _) small apart
  rw [localFold_eq_foldFrom (le_trans small (by decide))] at exact ⊢
  rw [blockExecutes_iff exact ⟨_, own item⟩]
  exact ⟨blockUnrolls_unique _ (own item), fun same => same ▸ own item⟩

end Folds

end Folds

/-! ### Local memory -/

theorem isLeast_leastPowerOfTwo (size : Nat) :
    IsLeast {power | (∃ exponent, power = 2 ^ exponent) ∧ size ≤ power}
      (Size.leastPowerOfTwo size) := by
  refine ⟨⟨⟨_, leastPowerOfTwo_eq_two_pow_clog size⟩, ?_⟩, ?_⟩
  · rw [leastPowerOfTwo_eq_two_pow_clog]
    exact Nat.le_pow_clog Nat.one_lt_two size
  · rintro _ ⟨⟨exponent, rfl⟩, covers⟩
    exact leastPowerOfTwo_le covers

section Groups

variable {rows size : Nat}

/-- Work items in a line. -/
theorem line_folds {seat : Fin size → Seat} {locals : Fin size → Variables}
    (known : ∀ item, locals item "lid" = item) :
    Folds seat locals "lid" "buf" [] size (fun item => item) fun _ => [] where
  laneKnown := fun item stride => (Function.update_of_ne (by decide) ..).trans (known item)
  rowKnown := fun _ _ => rfl
  inside := Fin.isLt
  only := fun _ _ _ same => Fin.ext same
  whole := fun _ entry inside => ⟨⟨entry, inside⟩, rfl, rfl⟩

/-- Work items in a rectangle. -/
theorem rectangle_folds {seat : Fin rows × Fin size → Seat}
    {locals : Fin rows × Fin size → Variables}
    (known : ∀ item, locals item "lid0" = item.1 ∧ locals item "lid1" = item.2) :
    Folds seat locals "lid1" "buf" [.var "lid0"] size (fun item => item.2)
      fun item => [(item.1 : Nat)] where
  laneKnown := fun item stride => (Function.update_of_ne (by decide) ..).trans (known item).2
  rowKnown := fun item stride =>
    congrArg (fun row => [row]) ((Function.update_of_ne (by decide) ..).trans (known item).1)
  inside := fun item => item.2.isLt
  only := fun _ _ sameRow sameLane =>
    Prod.ext (Fin.ext (List.cons.inj sameRow).1) (Fin.ext sameLane)
  whole := fun item entry inside => ⟨(item.1, ⟨entry, inside⟩), rfl, rfl⟩

/-- Local memory is folded from half of the least power of two on that is not below its size, as
long as this power is a machine word. Of any number of entries, the work items of a line leave the
sum in the first one, and those of a rectangle leave the sums of their rows. No work item depends
on an entry that another one writes before the next barrier. -/
theorem localFold_sums [AddCommMonoid α] {meaning : Meaning α} (sums : meaning.Sums)
    (some : 0 < size) :
    IsLeast {power | (∃ exponent, power = 2 ^ exponent) ∧ size ≤ power}
        (Size.leastPowerOfTwo size) ∧
      (size ≤ 2 ^ 63 → ∀ lane place, localFold lane place size =
        foldFrom (Size.leastPowerOfTwo size / 2) lane place size) ∧
      (∀ (seat : Fin size → Seat) (locals : Fin size → Variables),
        (∀ item, locals item "lid" = item) →
          FoldsLocally meaning seat locals "lid" "buf" [] size (fun item => item) fun _ => []) ∧
      ∀ (rows : Nat) (seat : Fin rows × Fin size → Seat)
        (locals : Fin rows × Fin size → Variables), 0 < rows →
          (∀ item, locals item "lid0" = item.1 ∧ locals item "lid1" = item.2) →
            FoldsLocally meaning seat locals "lid1" "buf" [.var "lid0"] size (fun item => item.2)
              fun item => [(item.1 : Nat)] := by
  refine ⟨isLeast_leastPowerOfTwo size, fun small _ _ => localFold_eq_foldFrom small, ?line,
    ?rectangle⟩
  case line =>
    intro seat locals known
    have : Nonempty (Fin size) := ⟨⟨0, some⟩⟩
    exact (line_folds known).foldsLocally sums nofun (by decide)
  case rectangle =>
    intro rows seat locals someRows known
    have : Nonempty (Fin rows × Fin size) := ⟨(⟨0, someRows⟩, ⟨0, some⟩)⟩
    refine (rectangle_folds known).foldsLocally sums ?_ (by decide)
    intro index listed seat inner
    rw [List.mem_singleton.1 listed]
    rfl

/-- Five is no power of two. Its fold begins at a distance of four. -/
theorem localFold_sums_five :
    (Meaning.natural.Sums ∧ 0 < 5 ∧ 5 ≤ 2 ^ 63) ∧
      localFold "lid" (fun index => .element "buf" [index]) 5 =
        foldFrom 4 "lid" (fun index => .element "buf" [index]) 5 ∧
      FoldsLocally Meaning.natural (fun (_ : Fin 5) _ _ => 0)
        (fun item => update (fun _ => 0) "lid" item) "lid" "buf" [] 5 (fun item => item)
        (fun _ => []) ∧
      FoldsLocally Meaning.natural (fun (_ : Fin 2 × Fin 5) _ _ => 0)
        (fun item => update (update (fun _ => 0) "lid0" item.1) "lid1" item.2) "lid1" "buf"
        [.var "lid0"] 5 (fun item => item.2) fun item => [(item.1 : Nat)] := by
  have sums := Meaning.natural_sums
  have few : 5 ≤ 2 ^ 63 := by decide
  have some : 0 < 5 := by decide
  obtain ⟨_, starts, line, rectangle⟩ := localFold_sums sums some
  exact ⟨⟨sums, some, few⟩, starts few _ _, line _ _ fun _ => rfl,
    rectangle 2 _ _ (by decide) fun _ => ⟨rfl, rfl⟩⟩

end Groups

end KernelTuner.Kernel
