import KernelTuner.Proofs.Variant.LaunchRuns
import KernelTuner.Proofs.Variant.MatrixVectorGroups
import KernelTuner.Proofs.Variant.Operands

/-!
Contract: the launch of a matrix-vector product over its operands.

Owns: the launch, and the sums it is to leave; the arrays of its kernel, of which two share their
elements if they are one buffer, and when its rounds do not disturb each other then
(`MatrixVector.launch_undisturbed`); the work items of the launch, and how those along a row share
out an output that falls to them.

Does not own: what the launch leaves (`Proofs.Variant.MatrixVectorRuns`).
-/

set_option autoImplicit false

namespace KernelTuner

open Kernel

namespace MatrixVector

open PlannedLaunch (itemAt)

variable {α : Type}

section Definitions

variable (params : MatrixVector) (operands : Operands) (index : Nat)

/-- The launch of a product over these operands. -/
def launch : PlannedLaunch where
  kernel := entry index
  globalSize := [params.localSize0 * params.groups0, params.localSize1]
  localSize := [params.localSize0, params.localSize1]
  arguments := [.size operands.matrix.rows, .size operands.matrix.columns,
    .buffer operands.matrix.id, .buffer operands.x.id, .buffer operands.out.id]

/-- How many outputs there are. -/
def Operands.outputs (axis : Axis) : Nat :=
  (extents axis operands.matrix.rows operands.matrix.columns).1

/-- How many products each of them is the sum of. -/
def Operands.inputs (axis : Axis) : Nat :=
  (extents axis operands.matrix.rows operands.matrix.columns).2

/-- The sum of the products of an output, over what is stored. -/
def Operands.storedSum [AddCommMonoid α] (axis : Axis) (meaning : Meaning α) (store : Store α)
    (r : Nat) : α :=
  ∑ c ∈ Finset.range (operands.inputs axis), meaning.operate .mul
    (store (.buffer operands.matrix.id) (placeOf axis operands.matrix.columns r c))
    (store (.buffer operands.x.id) c)

end Definitions

section Launch

variable {params : MatrixVector} {operands : Operands} {index : Nat} {batch : Batch}
  {type : ElementType}

/-! ### The kernel -/

/-- The instructions in the text of the kernel. -/
theorem kernel_instructions : blockInstructions (params.kernel index type).body =
    blockInstructions (params.openStatements type) ++ blockInstructions (params.outputs type) := by
  show blockInstructions (params.openStatements type ++ [.loop _ (params.outputs type)]) = _
  rw [blockInstructions_append]
  simp [Statement.instructions]

theorem outputs_instructions : blockInstructions (params.outputs type) =
    [.declareIndex "r" (.add (.var "r0") (.var "lid0")), .declareValue ⟨type, 1⟩ "acc" (.literal 0)] ++
    blockInstructions params.accumulation ++
    [.assign (.element "buf" [.var "lid0", .var "lid1"]) (.read (.var "acc")),
      .barrier, .accumulate (.element "buf" [.var "lid0", .var "lid1"])
        (.read (.element "buf" [.var "lid0", .add (.var "lid1") (.var "stride")])), .barrier,
      .assign (.element "y" [.var "r"]) (.read (.element "buf" [.var "lid0", .literal 0]))] := by
  have hints : blockInstructions (if 1 < params.simdWidth then [.unroll params.simdWidth] else []) =
      [] := by
    split <;> rfl
  simp only [outputs, blockInstructions_append, hints]
  simp [localFold, Statement.instructions]

theorem kernel_scratch : (params.kernel index type).scratch =
    "buf" :: if params.fetch = .staged then ["xs"] else [] := by
  rw [scratch, kernel_instructions, outputs_instructions]
  cases fetched : params.fetch <;>
    simp [openStatements, accumulation, fetched, Statement.instructions, addProduct]

theorem scratch_subset : (params.kernel index type).scratch ⊆ ["buf", "xs"] := by
  rw [kernel_scratch]
  split
  · exact List.Subset.refl _
  · decide

theorem kernel_fills : (params.kernel index type).Fills "y" := by
  unfold Fills
  rw [kernel_instructions, outputs_instructions, kernel_scratch]
  cases fetched : params.fetch <;>
    simp [openStatements, accumulation, fetched, Statement.instructions, addProduct, matrixElement,
      Instruction.own?, Instruction.sources, Instruction.target?, Value.arrays]

/-- Elements of the matrix are found only where products are added. -/
theorem kernel_reads {seat : Seat} {locals : Variables} {indices : List Nat} :
    ∀ instruction ∈ blockInstructions (params.kernel index type).body,
      ⟨"A", indices⟩ ∈ instruction.reads seat locals → Adds instruction := by
  rw [kernel_instructions, outputs_instructions]
  cases fetched : params.fetch <;>
    simp [openStatements, accumulation, fetched, Statement.instructions, Instruction.reads,
      Place.touched, adds_addProduct]

theorem launch_storage? (array : String) :
    (params.launch operands index).storage? (params.kernel index type) array =
      if "A" = array then some (.buffer operands.matrix.id)
      else if "x" = array then some (.buffer operands.x.id)
      else if "y" = array then some (.buffer operands.out.id) else none := by
  simp only [PlannedLaunch.storage?, kernel, launch, List.zip_cons_cons, List.zip_nil_left,
    List.findSome?_cons, List.findSome?_nil, Argument.storage?]
  split_ifs <;> rfl

theorem launch_output : (params.launch operands index).storage? (params.kernel index type) "y" =
    some (.buffer operands.out.id) := launch_storage? "y"

theorem launch_scratch : ∀ own ∈ (params.kernel index type).scratch,
    (params.launch operands index).storage? (params.kernel index type) own = none := by
  intro own listed
  have among := scratch_subset listed
  simp only [List.mem_cons, List.not_mem_nil, or_false] at among
  rcases among with rfl | rfl <;> exact launch_storage? _

theorem launch_ownNames :
    OwnNames ((params.launch operands index).home (params.kernel index type)) where
  folded := PlannedLaunch.home_of_none (launch_storage? "buf")
  foldedAlone := PlannedLaunch.alone_of_none (launch_storage? "buf")
  stagedAlone := PlannedLaunch.alone_of_none (launch_storage? "xs")

/-- Parameters have one home if they are one buffer. -/
theorem id_of_home {array other : String} {first second : BufferId} (apart : array ≠ other)
    (stored : (params.launch operands index).storage? (params.kernel index type) array =
      some (.buffer first))
    (otherStored : (params.launch operands index).storage? (params.kernel index type) other =
      some (.buffer second))
    (same : (params.launch operands index).home (params.kernel index type) array =
      (params.launch operands index).home (params.kernel index type) other) : first = second := by
  obtain ⟨storage, here, there⟩ := (PlannedLaunch.home_eq_iff.1 same).resolve_left apart
  rw [stored] at here
  rw [otherStored] at there
  exact Storage.buffer.inj (Option.some.inj (here.trans there.symm))

/-- A matrix of which the output is a clone has one element for each output. -/
theorem placeOf_of_clone {axis : Axis} {batch : Batch} (checked : operands.Checked axis batch)
    (coherent : batch.Coherent) (clone : operands.matrix.id = operands.out.id) {r c : Nat}
    (output : r < operands.outputs axis) (input : c < operands.inputs axis) :
    placeOf axis operands.matrix.columns r c = r := by
  have sameExtent := coherent _ _ checked.matrix checked.out clone
  have whole : operands.matrix.rows * operands.matrix.columns = operands.outputs axis := by
    rw [← checked.elements, sameExtent, checked.outputs]
    rfl
  cases axis with
  | rows =>
      have one : operands.matrix.columns = 1 :=
        Nat.eq_of_mul_eq_mul_left (Nat.zero_lt_of_lt output) (whole.trans (Nat.mul_one _).symm)
      have first : c < operands.matrix.columns := input
      show r * operands.matrix.columns + c = r
      rw [one] at first ⊢
      omega
  | columns =>
      have one : operands.matrix.rows = 1 :=
        Nat.eq_of_mul_eq_mul_right (Nat.zero_lt_of_lt output) (whole.trans (Nat.one_mul _).symm)
      have first : c < operands.matrix.rows := input
      show c * operands.matrix.columns + r = r
      rw [one] at first
      obtain rfl : c = 0 := by omega
      rw [Nat.zero_mul, Nat.zero_add]

theorem launch_outer : (params.launch operands index).sizes (params.kernel index type)
    (outerName params.axis) = operands.outputs params.axis := by
  cases params.axis <;> rfl

theorem launch_inner : (params.launch operands index).sizes (params.kernel index type)
    (innerName params.axis) = operands.inputs params.axis := by
  cases params.axis <;> rfl

theorem launch_undisturbed {batch : Batch} (checked : operands.Checked params.axis batch)
    (coherent : batch.Coherent)
    (once : operands.out.id = operands.x.id → operands.outputs params.axis ≤ params.localSize0) :
    params.Undisturbed ((params.launch operands index).sizes (params.kernel index type))
      ((params.launch operands index).home (params.kernel index type)) := by
  refine undisturbed_of_shared (fun shares => ?_) fun shares r output c input => ?_
  · rw [launch_outer]
    exact once (id_of_home (by decide) (launch_storage? "x") launch_output shares).symm
  · rw [launch_outer] at output
    rw [launch_inner] at input
    exact placeOf_of_clone checked coherent
      (id_of_home (by decide) (launch_storage? "A") launch_output shares) output input

/-- The sums over what a group finds are those over what is stored. -/
theorem total_of_holds [AddCommMonoid α] {meaning : Meaning α} {store : Store α} {arrays : Touch → α}
    (holds : (params.launch operands index).Holds (params.kernel index type) store arrays) (r : Nat) :
    params.total ((params.launch operands index).sizes (params.kernel index type)) meaning arrays r =
      operands.storedSum params.axis meaning store r := by
  rw [total, launch_inner]
  refine Finset.sum_congr rfl fun c _ => ?_
  rw [productAt, holds "A" _ (launch_storage? "A"), holds "x" _ (launch_storage? "x")]
  rfl

/-! ### The grid -/

theorem launch_groups (sized : 0 < params.localSize0) :
    (params.launch operands index).groupsAlong 0 = params.groups0 :=
  Nat.mul_div_cancel_left _ sized

theorem launch_rows (sized : 0 < params.localSize1) :
    (params.launch operands index).groupsAlong 1 = 1 := Nat.div_self sized

theorem nonempty_place (sized : 0 < params.localSize0) (wide : 0 < params.localSize1)
    (grouped : 0 < params.groups0) : Nonempty (params.launch operands index).Place := by
  have groups : (params.launch operands index).groupsAlong 0 = params.groups0 := launch_groups sized
  have rows : (params.launch operands index).groupsAlong 1 = 1 := launch_rows wide
  obtain ⟨item, _⟩ : ∃ item : (params.launch operands index).Item,
      item.group 0 = 0 ∧ item.group 1 = 0 ∧ item.place 0 = 0 ∧ item.place 1 = 0 :=
    PlannedLaunch.exists_item_of_two (grouped.trans_eq groups.symm) (Nat.one_pos.trans_eq rows.symm)
      sized wide
  exact ⟨⟨item.place, item.place_lt⟩⟩

theorem launch_ranked (group : (params.launch operands index).Group) :
    Ranked (fun place => (itemAt group place).seat) params.localSize0 params.localSize1
      (fun place : (params.launch operands index).Place => place.1 0) (fun place => place.1 1) where
  rowStands := fun _ => rfl
  laneStands := fun _ => rfl
  rowInside := fun place => place.2 0
  laneInside := fun place => place.2 1
  only := fun place other sameRow sameLane => by
    have same : itemAt group place = itemAt group other :=
      PlannedLaunch.Item.eq_of_two rfl rfl sameRow sameLane
    exact Subtype.ext (congrArg PlannedLaunch.Item.place same)
  whole := fun first rowInside second laneInside => by
    obtain ⟨item, _, _, row, lane⟩ : ∃ item : (params.launch operands index).Item,
        item.group 0 = group.1 0 ∧ item.group 1 = group.1 1 ∧ item.place 0 = first ∧
          item.place 1 = second :=
      PlannedLaunch.exists_item_of_two (group.2 0) (group.2 1) rowInside laneInside
    exact ⟨⟨item.place, item.place_lt⟩, row, lane⟩

/-- A product is found at its place in the matrix. -/
theorem product_reads {axis : Axis} {array : String} {entry : Index} {seat : Seat}
    {locals : Variables} {indices : List Nat} (apart : array ≠ "A") :
    ⟨"A", indices⟩ ∈ (addProduct axis array entry).reads seat locals ↔
      indices = [placeOf axis (locals "N") (locals "r") (locals "c")] := by
  cases axis <;> simp [addProduct, matrixElement, Instruction.reads, Place.touched, Index.eval,
    placeOf, apart.symm]

end Launch

/-! ### Shares -/

section Shares

variable {params : MatrixVector} {operands : Operands} {index : Nat} {type : ElementType}
  {steps : (params.launch operands index).Item → List Step}

/-- An output falls to the row of a group in which a work item stands. -/
abbrev FallsToItem (item : (params.launch operands index).Item) (r : Nat) : Prop :=
  params.FallsTo (item.group 0) params.groups0 (item.place 0) r

theorem group_ext {item other : (params.launch operands index).Item} (wide : 0 < params.localSize1)
    (group : item.group 0 = other.group 0) : item.group = other.group := by
  have own := item.group_lt 1
  have theirs := other.group_lt 1
  rw [launch_rows wide] at own theirs
  exact PlannedLaunch.Item.group_eq_of_two group (by omega)

theorem item_ext {item other : (params.launch operands index).Item} (wide : 0 < params.localSize1)
    (group : item.group 0 = other.group 0) (row : item.place 0 = other.place 0)
    (lane : item.place 1 = other.place 1) : item = other :=
  PlannedLaunch.Item.eq_of_two group (congrFun (group_ext wide group) 1) row lane

/-- The work items along the row of a work item. -/
theorem exists_team (item : (params.launch operands index).Item) :
    ∃ team : Nat → (params.launch operands index).Item, ∀ lane < params.localSize1,
      (team lane).group = item.group ∧ (team lane).place 0 = item.place 0 ∧
        (team lane).place 1 = lane := by
  have along (lane : Nat) : ∃ mate : (params.launch operands index).Item, lane < params.localSize1 →
      mate.group = item.group ∧ mate.place 0 = item.place 0 ∧ mate.place 1 = lane := by
    by_cases inside : lane < params.localSize1
    · obtain ⟨place, row, own⟩ := (launch_ranked ⟨item.group, item.group_lt⟩).whole (item.place 0)
        (item.place_lt 0) lane inside
      exact ⟨itemAt ⟨item.group, item.group_lt⟩ place, fun _ => ⟨rfl, row, own⟩⟩
    · exact ⟨item, fun within => absurd within inside⟩
  choose team spec using along
  exact ⟨team, spec⟩

/-- The work items along a row share out the columns of an output that falls to it. -/
theorem exists_shares (wide : 0 < params.localSize1)
    (visits : ∀ item r, visited r (steps item) = if FallsToItem item r then
      params.columns ((params.launch operands index).sizes (params.kernel index type)) r (item.place 1)
        else []) (item : (params.launch operands index).Item) {r : Nat}
    (below : r < operands.outputs params.axis) (falls : FallsToItem item r) :
    ∃ team : Nat → (params.launch operands index).Item,
      (∀ lane < params.localSize1, (team lane).group = item.group ∧
        (team lane).place 0 = item.place 0 ∧ (team lane).place 1 = lane) ∧
      Allotment params.localSize1 (fun lane => visited r (steps (team lane)))
        (List.range (operands.inputs params.axis)) ∧
      ∀ other, visited r (steps other) ≠ [] → ∃ lane < params.localSize1, other = team lane := by
  obtain ⟨team, along⟩ := exists_team item
  have mates (lane : Nat) (inside : lane < params.localSize1) :
      visited r (steps (team lane)) = params.columns
        ((params.launch operands index).sizes (params.kernel index type)) r lane := by
    obtain ⟨group, row, own⟩ := along lane inside
    have here : FallsToItem (team lane) r := by
      show params.FallsTo ((team lane).group 0) params.groups0 ((team lane).place 0) r
      rwa [group, row]
    rw [visits, if_pos here, own]
  refine ⟨team, along, ?_, fun other some => ?_⟩
  · have outer : (params.launch operands index).sizes (params.kernel index type)
        (outerName params.axis) = operands.outputs params.axis := launch_outer
    have whole := columns_allotment wide (below.trans_eq outer.symm)
    rw [launch_inner] at whole
    refine (List.Perm.of_eq (List.flatMap_congr fun lane among => ?_)).trans whole
    exact mates lane (List.mem_range.1 among)
  · have theirs : FallsToItem other r := by
      by_contra elsewhere
      rw [visits, if_neg elsewhere] at some
      exact some rfl
    obtain ⟨group, row, own⟩ := along (other.place 1) (other.place_lt 1)
    refine ⟨other.place 1, other.place_lt 1, item_ext wide ?_ ?_ own.symm⟩
    · rw [group, ← theirs.2, falls.2]
    · rw [row, ← theirs.1, falls.1]

section Writes

variable (writes : ∀ item touch,
  touch ∈ (written item.seat (steps item)).filter (fun touch => touch.array = "y") ↔
    item.place 1 = 0 ∧ ∃ r < operands.outputs params.axis, FallsToItem item r ∧ touch = ⟨"y", [r]⟩)
include writes

theorem mem_written_iff (item : (params.launch operands index).Item) (r : Nat) :
    ⟨"y", [r]⟩ ∈ written item.seat (steps item) ↔
      item.place 1 = 0 ∧ r < operands.outputs params.axis ∧ FallsToItem item r := by
  have filtered : ⟨"y", [r]⟩ ∈ written item.seat (steps item) ↔
      ⟨"y", [r]⟩ ∈ (written item.seat (steps item)).filter fun touch => touch.array = "y" := by
    simp
  rw [filtered, writes]
  refine and_congr_right fun _ => ⟨?_, fun ⟨below, falls⟩ => ⟨r, below, falls, rfl⟩⟩
  rintro ⟨other, below, falls, same⟩
  obtain rfl : r = other := by simpa using same
  exact ⟨below, falls⟩

theorem writesOnce_of_writes (sized : 0 < params.localSize0) (wide : 0 < params.localSize1)
    (grouped : 0 < params.groups0)
    (comes : ∀ item, blockUnrolls item.seat
      ((params.launch operands index).sizes (params.kernel index type))
      (params.kernel index type).body (steps item))
    (distinct : ∀ item,
      ((written item.seat (steps item)).filter fun touch => touch.array = "y").Nodup) :
    (params.launch operands index).WritesOnce (params.kernel index type) "y"
      (operands.outputs params.axis) where
  ends := fun item => ⟨steps item, comes item⟩
  inside := by
    intro item others unrolls touch listed isOutput
    obtain rfl := blockUnrolls_unique _ (comes item) unrolls
    obtain ⟨_, r, below, _, rfl⟩ :=
      (writes item touch).1 (List.mem_filter.2 ⟨listed, decide_eq_true isOutput⟩)
    exact ⟨r, below, rfl⟩
  distinct := by
    intro item others unrolls
    obtain rfl := blockUnrolls_unique _ (comes item) unrolls
    exact distinct item
  writer := by
    intro r below
    have groups : (params.launch operands index).groupsAlong 0 = params.groups0 :=
      launch_groups sized
    have rows : (params.launch operands index).groupsAlong 1 = 1 := launch_rows wide
    obtain ⟨item, group, _, row, lane⟩ : ∃ item : (params.launch operands index).Item,
        item.group 0 = r / params.localSize0 % params.groups0 ∧ item.group 1 = 0 ∧
          item.place 0 = r % params.localSize0 ∧ item.place 1 = 0 :=
      PlannedLaunch.exists_item_of_two ((Nat.mod_lt _ grouped).trans_eq groups.symm)
        (Nat.one_pos.trans_eq rows.symm) (Nat.mod_lt _ sized) wide
    refine ⟨item, ⟨steps item, comes item,
      (mem_written_iff writes item r).2 ⟨lane, below, row.symm, group.symm⟩⟩, ?_⟩
    rintro other ⟨others, unrolls, listed⟩
    obtain rfl := blockUnrolls_unique _ (comes other) unrolls
    obtain ⟨otherLane, _, otherRow, otherGroup⟩ := (mem_written_iff writes other r).1 listed
    exact item_ext wide (otherGroup.symm.trans group.symm) (otherRow.symm.trans row.symm)
      (otherLane.trans lane.symm)

end Writes

end Shares

end MatrixVector

end KernelTuner
