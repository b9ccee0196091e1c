import KernelTuner.Proofs.Variant.ProductSteps
import KernelTuner.Proofs.Variant.Streams
import Mathlib.Tactic.Ring

/-!
Contract: the elements of the output that a work item of a matrix product writes.

Owns: the rows and columns that a work item computes; that those of all work items are each row
and column once (`lines_cover`); and `written_of_kernel`, by which a work item writes the elements
in its rows and columns and no others.
-/

set_option autoImplicit false

namespace KernelTuner

open Kernel
open Function (update)

namespace MatrixProduct

/-! ### Rows and columns of a work item -/

/-- The rows, or the columns, that a work item computes: so many in the block of its group, as far
apart as there are work items beside each other. -/
def lines (localSize perItem group lane : Nat) : List Nat :=
  (List.range perItem).map fun turn => group * (localSize * perItem) + lane + turn * localSize

section Lines

variable {localSize perItem group lane line : Nat}

/-- A line belongs to the group that has its block, and there to one lane. -/
theorem mem_lines (laneInside : lane < localSize) (positive : 0 < perItem) :
    line ∈ lines localSize perItem group lane ↔
      line / (localSize * perItem) = group ∧ line % localSize = lane := by
  have someLanes : 0 < localSize := Nat.zero_lt_of_lt laneInside
  simp only [lines, List.mem_map, List.mem_range]
  constructor
  · rintro ⟨turn, turnInside, rfl⟩
    have within := strided_lt laneInside turnInside
    have next : (group + 1) * (localSize * perItem) =
        group * (localSize * perItem) + localSize * perItem := Nat.succ_mul _ _
    have regrouped : group * (localSize * perItem) + lane + turn * localSize =
        lane + (group * perItem + turn) * localSize := by ring
    constructor
    · exact Nat.div_eq_of_lt_le (by omega) (by omega)
    · rw [regrouped, Nat.add_mul_mod_self_right, Nat.mod_eq_of_lt laneInside]
  · rintro ⟨rfl, rfl⟩
    refine ⟨line / localSize % perItem, Nat.mod_lt _ positive, ?_⟩
    have turns := Nat.div_add_mod (line / localSize) perItem
    rw [Nat.div_div_eq_div_mul] at turns
    calc line / (localSize * perItem) * (localSize * perItem) + line % localSize +
          line / localSize % perItem * localSize
        = localSize * (perItem * (line / (localSize * perItem)) + line / localSize % perItem) +
          line % localSize := by ring
      _ = localSize * (line / localSize) + line % localSize := by rw [turns]
      _ = line := Nat.div_add_mod line localSize

theorem nodup_lines (someLanes : 0 < localSize) : (lines localSize perItem group lane).Nodup := by
  refine List.nodup_range.map fun left right same => ?_
  exact Nat.eq_of_mul_eq_mul_right someLanes (Nat.add_left_cancel same)

/-- The lanes of a group have each line of its block once. -/
theorem allotment_lines (someLanes : 0 < localSize) (positive : 0 < perItem) (group : Nat) :
    Allotment localSize (lines localSize perItem group)
      (List.range' (localSize * perItem * group) (localSize * perItem)) := by
  refine Allotment.of_owner (fun line => line % localSize) List.nodup_range'
    (fun lane _ => nodup_lines someLanes) (fun lane laneInside line => ?_)
    fun line _ => Nat.mod_lt line someLanes
  rw [mem_lines laneInside positive, List.mem_range'_1,
    Nat.div_eq_iff (Nat.mul_pos someLanes positive), Nat.mul_comm group]
  apply and_congr_left'
  have tile := Nat.mul_pos someLanes positive
  omega

/-- All groups together have each line once. -/
theorem lines_cover (someLanes : 0 < localSize) (positive : 0 < perItem) (groups : Nat) :
    ((List.range groups).flatMap fun group =>
        (List.range localSize).flatMap (lines localSize perItem group)).Perm
      (List.range (groups * (localSize * perItem))) := by
  rw [← Stream.flatMap_vectors (localSize * perItem) groups]
  exact List.Perm.flatMap_left _ fun group _ => allotment_lines someLanes positive group

end Lines

/-! ### Written elements -/

/-- The elements of an output of `m` rows and `n` columns in these rows and columns. -/
def cells (m n : Nat) (rows columns : List Nat) : List Touch :=
  rows.flatMap fun row => columns.flatMap fun column =>
    if row < m ∧ column < n then [⟨"C", [row * n + column]⟩] else []

theorem mem_cells {m n : Nat} {rows columns : List Nat} {touch : Touch} :
    touch ∈ cells m n rows columns ↔ ∃ row ∈ rows, ∃ column ∈ columns, row < m ∧ column < n ∧
      touch = ⟨"C", [row * n + column]⟩ := by
  simp [cells, and_assoc]

/-- A place in the output is one of a single row and column. -/
theorem place_eq_iff {n row column element : Nat} (columnInside : column < n) :
    row * n + column = element ↔ row = element / n ∧ column = element % n := by
  constructor
  · rintro rfl
    have positive : 0 < n := Nat.zero_lt_of_lt columnInside
    rw [Nat.mul_comm row, Nat.mul_add_div positive, Nat.mul_add_mod, Nat.div_eq_of_lt columnInside,
      Nat.mod_eq_of_lt columnInside]
    exact ⟨rfl, rfl⟩
  · rintro ⟨rfl, rfl⟩
    exact Nat.div_add_mod' element n

/-- Different rows and columns are different elements. -/
theorem nodup_cells {m n : Nat} {rows columns : List Nat} (distinctRows : rows.Nodup)
    (distinctColumns : columns.Nodup) : (cells m n rows columns).Nodup := by
  have same_place {row column otherRow otherColumn : Nat} {touch : Touch}
      (listed : touch ∈ (if row < m ∧ column < n then [(⟨"C", [row * n + column]⟩ : Touch)] else []))
      (again : touch ∈ (if otherRow < m ∧ otherColumn < n then
        [(⟨"C", [otherRow * n + otherColumn]⟩ : Touch)] else [])) :
      row = otherRow ∧ column = otherColumn := by
    split at listed
    · next inside =>
        split at again
        · next otherInside =>
            rw [List.mem_singleton] at listed again
            have place : row * n + column = otherRow * n + otherColumn := by
              simpa using listed.symm.trans again
            have own := (place_eq_iff inside.2).1 place
            have other : otherRow = (otherRow * n + otherColumn) / n ∧
                otherColumn = (otherRow * n + otherColumn) % n :=
              (place_eq_iff otherInside.2).1 rfl
            exact ⟨own.1.trans other.1.symm, own.2.trans other.2.symm⟩
        · cases again
    · cases listed
  refine List.nodup_flatMap.2 ⟨fun row _ => List.nodup_flatMap.2 ⟨fun column _ => ?_, ?_⟩, ?_⟩
  · split
    · exact List.pairwise_singleton _ _
    · exact List.nodup_nil
  · exact distinctColumns.imp fun apart touch listed again => apart (same_place listed again).2
  · refine distinctRows.imp fun apart touch listed again => ?_
    obtain ⟨column, _, inRow⟩ := List.mem_flatMap.1 listed
    obtain ⟨otherColumn, _, inOther⟩ := List.mem_flatMap.1 again
    exact apart (same_place inRow inOther).1

variable (params : MatrixProduct)

/-- The rows that a work item computes. -/
def rows (seat : Seat) : List Nat :=
  lines params.localSize0 params.perItemM (seat .groupId 0) (seat .localId 0)

/-- The columns that a work item computes. -/
def columns (seat : Seat) : List Nat :=
  lines params.localSize1 params.perItemN (seat .groupId 1) (seat .localId 1)

/-- An unguarded kernel computes rows and columns of the output only. -/
structure Full (guarded : Bool) (seat : Seat) (m n : Nat) : Prop where
  rows : guarded = false → ∀ row ∈ params.rows seat, row < m
  columns : guarded = false → ∀ column ∈ params.columns seat, column < n

variable {params} {guarded : Bool} {seat : Seat} {locals after : Variables} {steps : List Step}

/-- The write to an element of the output, guarded or not. -/
theorem written_of_write {inner : Variables}
    (full : guarded = false → inner "r" < inner "M" ∧ inner "c" < inner "N")
    (unrolls : (if guarded then
        Statement.guarded (.both (.less (.var "r") (.var "M")) (.less (.var "c") (.var "N")))
          (.assign (.element "C" [.add (.mul (.var "r") (.var "N")) (.var "c")])
            (.read accumulator)) true
      else .run (.assign (.element "C" [.add (.mul (.var "r") (.var "N")) (.var "c")])
        (.read accumulator))).Unrolls seat inner steps) :
    written seat steps = if inner "r" < inner "M" ∧ inner "c" < inner "N" then
      [⟨"C", [inner "r" * inner "N" + inner "c"]⟩] else [] := by
  cases guarded with
  | true =>
      have holds_iff : (Condition.both (.less (.var "r") (.var "M"))
          (.less (.var "c") (.var "N"))).Holds seat inner ↔
            inner "r" < inner "M" ∧ inner "c" < inner "N" := Iff.rfl
      rw [if_pos rfl, Statement.Unrolls] at unrolls
      by_cases inside : inner "r" < inner "M" ∧ inner "c" < inner "N"
      · rw [unrolls, if_pos inside, if_pos (holds_iff.2 inside)]
        rfl
      · rw [unrolls, if_neg inside, if_neg (mt holds_iff.1 inside)]
        rfl
  | false =>
      rw [if_neg Bool.false_ne_true, unrolls_run] at unrolls
      rw [unrolls, if_pos (full rfl)]
      rfl

/-- The accumulators go to the elements in the rows and columns of the work item. -/
theorem written_of_store (started : params.Started seat locals after)
    (full : params.Full guarded seat (locals "M") (locals "N"))
    (unrolls : (params.store guarded).Unrolls seat after steps) :
    written seat steps =
      cells (locals "M") (locals "N") (params.rows seat) (params.columns seat) := by
  rw [store, unrolls_loopOver, unrolls_countTo] at unrolls
  obtain ⟨rowRounds, eachRow, rfl⟩ := unrolls
  rw [written_flatMap, cells, rows, lines, List.flatMap_map]
  apply List.flatMap_congr
  intro row rowMember
  have atRow := eachRow row rowMember
  rw [blockUnrolls_singleton, unrolls_countTo] at atRow
  obtain ⟨rounds, eachColumn, same⟩ := atRow
  rw [same, written_flatMap, columns, lines, List.flatMap_map]
  apply List.flatMap_congr
  intro column columnMember
  have atColumn := eachColumn column columnMember
  rw [blockUnrolls_run_cons] at atColumn
  obtain ⟨behindRow, roundSteps, atColumn⟩ := atColumn
  rw [blockUnrolls_run_cons] at atColumn
  obtain ⟨write, rfl, atColumn⟩ := atColumn
  rw [blockUnrolls_singleton] at atColumn
  rw [roundSteps, written_cons, written_cons, written_of_write ?inside atColumn]
  case inside =>
    intro unguarded
    have rowInside := full.rows unguarded _ (List.mem_map_of_mem rowMember)
    have columnInside := full.columns unguarded _ (List.mem_map_of_mem columnMember)
    simpa [Statement.bind, Index.eval, started.row0, started.lid0, started.col0, started.lid1,
      started.m, started.n, tileM, tileN] using And.intro rowInside columnInside
  simp [Statement.bind, Index.eval, started.row0, started.lid0, started.col0, started.lid1,
    started.m, started.n, tileM, tileN, Instruction.written]

/-- What a work item writes of the output. -/
theorem written_of_kernel {name : String} {type : ElementType}
    (full : params.Full guarded seat (locals "M") (locals "N"))
    (unrolls : blockUnrolls seat locals (params.kernel name guarded type).body steps) :
    (written seat steps).filter (fun touch => touch.array = "C") =
      cells (locals "M") (locals "N") (params.rows seat) (params.columns seat) := by
  have started : params.Started seat locals
      (blockBind seat locals (params.preamble type)) := preamble_started type
  obtain ⟨front, behind, rfl, inPreamble, behindPreamble⟩ := blockUnrolls_append.1 unrolls
  rw [blockUnrolls_cons] at behindPreamble
  obtain ⟨sums, last, rfl, inSums, inStore⟩ := behindPreamble
  have stored : written seat last =
      cells (locals "M") (locals "N") (params.rows seat) (params.columns seat) :=
    written_of_store started full (blockUnrolls_singleton.1 inStore)
  have noneInPreamble : (written seat front).filter (fun touch => touch.array = "C") = [] := by
    apply filter_written_eq_nil _ inPreamble
    intro member
    exact absurd (preamble_targets member) (by decide)
  have noneInSums : (written seat sums).filter (fun touch => touch.array = "C") = [] := by
    apply filter_written_eq_nil _ (blockUnrolls_singleton.2 inSums)
    intro member
    rw [blockTargets_loop] at member
    exact absurd (tileProduct_targets member) (by decide)
  rw [written_append, written_append, List.filter_append, List.filter_append, noneInPreamble,
    noneInSums, stored, List.nil_append, List.nil_append, List.filter_eq_self]
  intro touch member
  obtain ⟨row, _, column, _, _, _, rfl⟩ := mem_cells.1 member
  rfl

/-- Of the elements of the output, a work item writes those in its rows and columns. -/
theorem mem_written_iff {name : String} {type : ElementType} {element : Nat}
    (full : params.Full guarded seat (locals "M") (locals "N"))
    (unrolls : blockUnrolls seat locals (params.kernel name guarded type).body steps)
    (inside : element < locals "M" * locals "N") :
    ⟨"C", [element]⟩ ∈ written seat steps ↔
      element / locals "N" ∈ params.rows seat ∧ element % locals "N" ∈ params.columns seat := by
  have wide : 0 < locals "N" := Nat.pos_of_mul_pos_left (Nat.zero_lt_of_lt inside)
  have listed : (⟨"C", [element]⟩ : Touch) ∈ written seat steps ↔
      ⟨"C", [element]⟩ ∈ (written seat steps).filter fun touch => touch.array = "C" := by simp
  rw [listed, written_of_kernel full unrolls, mem_cells]
  constructor
  · rintro ⟨row, rowListed, column, columnListed, _, columnInside, same⟩
    have place : row * locals "N" + column = element := by simpa using same.symm
    obtain ⟨rfl, rfl⟩ := (place_eq_iff columnInside).1 place
    exact ⟨rowListed, columnListed⟩
  · rintro ⟨rowListed, columnListed⟩
    have rowInside : element / locals "N" < locals "M" :=
      Nat.div_lt_of_lt_mul (by rwa [Nat.mul_comm])
    refine ⟨_, rowListed, _, columnListed, rowInside, Nat.mod_lt _ wide, ?_⟩
    rw [Nat.div_add_mod']

end MatrixProduct

end KernelTuner
