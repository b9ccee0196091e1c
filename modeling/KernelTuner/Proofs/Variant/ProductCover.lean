import KernelTuner.Proofs.Variant.Limits
import KernelTuner.Proofs.Variant.ProductOutput
import KernelTuner.Proofs.Variant.TypedInside
import Mathlib.Order.Bounds.Basic

/-!
Contract: launches of matrix products cover their output.

Owns: launches that write each element of an array once; the least full tiles that hold an output;
and `MatrixProduct.launch_covers`, by which the kernel that is launched for a product writes each
element of the output once and stays inside the three matrices.
-/

set_option autoImplicit false

namespace KernelTuner

open Kernel

/-! ### Rounding -/

theorem Size.le_roundUp (value : Nat) {multiple : Nat} (positive : 0 < multiple) :
    value ≤ Size.roundUp value multiple := by
  have split := Nat.div_add_mod' value multiple
  have remainder := Nat.mod_lt value positive
  unfold Size.roundUp
  split
  · rw [Nat.add_zero]
    omega
  · rw [Nat.add_mul, Nat.one_mul]
    omega

/-- A size is rounded up to the least multiple that is not below it. -/
theorem Size.isLeast_roundUp (value : Nat) {multiple : Nat} (positive : 0 < multiple) :
    IsLeast {size | value ≤ size ∧ multiple ∣ size} (Size.roundUp value multiple) := by
  refine ⟨⟨le_roundUp value positive, dvd_roundUp value multiple⟩, ?_⟩
  rintro size ⟨covered, factor, rfl⟩
  rw [Nat.mul_comm] at covered ⊢
  exact roundUp_le covered

/-! ### Launches -/

/-- The work items of a launch come to the end of the kernel, and together write each of the
first `count` elements of an array once, and no others. -/
structure PlannedLaunch.WritesOnce (launch : PlannedLaunch) (kernel : Kernel) (array : String)
    (count : Nat) : Prop where
  ends : ∀ item : launch.Item, ∃ steps,
    blockUnrolls item.seat (launch.sizes kernel) kernel.body steps
  inside : ∀ (item : launch.Item) (steps : List Step),
    blockUnrolls item.seat (launch.sizes kernel) kernel.body steps →
      ∀ touch ∈ written item.seat steps, touch.array = array →
        ∃ element < count, touch.indices = [element]
  distinct : ∀ (item : launch.Item) (steps : List Step),
    blockUnrolls item.seat (launch.sizes kernel) kernel.body steps →
      ((written item.seat steps).filter fun touch => touch.array = array).Nodup
  writer : ∀ element < count, ∃! item : launch.Item, ∃ steps,
    blockUnrolls item.seat (launch.sizes kernel) kernel.body steps ∧
      ⟨array, [element]⟩ ∈ written item.seat steps

section Items

variable {name : String} {range0 range1 size0 size1 : Nat} {arguments : List Argument}

/-- A launch over two dimensions has one work group along any other. -/
theorem PlannedLaunch.groupsAlong_beyond (dimension : Nat) :
    (PlannedLaunch.mk name [range0, range1] [size0, size1] arguments).groupsAlong
      (dimension + 2) = 1 :=
  Nat.div_self Nat.one_pos

theorem PlannedLaunch.Item.group_eq_of_two
    {item other : (PlannedLaunch.mk name [range0, range1] [size0, size1] arguments).Item}
    (group0 : item.group 0 = other.group 0) (group1 : item.group 1 = other.group 1) :
    item.group = other.group := by
  funext dimension
  match dimension with
  | 0 => exact group0
  | 1 => exact group1
  | dimension + 2 =>
      have first := item.group_lt (dimension + 2)
      have second := other.group_lt (dimension + 2)
      rw [groupsAlong_beyond] at first second
      omega

/-- Its work items are told apart by their places in these dimensions. -/
theorem PlannedLaunch.Item.eq_of_two
    {item other : (PlannedLaunch.mk name [range0, range1] [size0, size1] arguments).Item}
    (group0 : item.group 0 = other.group 0) (group1 : item.group 1 = other.group 1)
    (place0 : item.place 0 = other.place 0) (place1 : item.place 1 = other.place 1) :
    item = other := by
  have groups : item.group = other.group := group_eq_of_two group0 group1
  have places : item.place = other.place := by
    funext dimension
    match dimension with
    | 0 => exact place0
    | 1 => exact place1
    | dimension + 2 =>
        have first : item.place (dimension + 2) < 1 := item.place_lt (dimension + 2)
        have second : other.place (dimension + 2) < 1 := other.place_lt (dimension + 2)
        omega
  cases item
  cases other
  cases groups
  cases places
  rfl

/-- It has a work item for each place in these dimensions. -/
theorem PlannedLaunch.exists_item_of_two {group0 group1 place0 place1 : Nat}
    (groupInside0 : group0 < range0 / size0) (groupInside1 : group1 < range1 / size1)
    (placeInside0 : place0 < size0) (placeInside1 : place1 < size1) :
    ∃ item : (PlannedLaunch.mk name [range0, range1] [size0, size1] arguments).Item,
      item.group 0 = group0 ∧ item.group 1 = group1 ∧ item.place 0 = place0 ∧
        item.place 1 = place1 := by
  refine ⟨{
    group := fun dimension => [group0, group1].getD dimension 0
    place := fun dimension => [place0, place1].getD dimension 0
    group_lt := fun dimension => ?_
    place_lt := fun dimension => ?_ }, rfl, rfl, rfl, rfl⟩
  · match dimension with
    | 0 => exact groupInside0
    | 1 => exact groupInside1
    | dimension + 2 =>
        rw [groupsAlong_beyond]
        exact Nat.one_pos
  · match dimension with
    | 0 => exact placeInside0
    | 1 => exact placeInside1
    | dimension + 2 => exact Nat.one_pos

end Items

namespace MatrixProduct

section Launches

variable {params : MatrixProduct} {operands : Operands} {name : String} {guarded : Bool}
  {type : ElementType} {rowCount columnCount : Nat}

/-- The launch of a product over so many rows and columns. -/
def launch (params : MatrixProduct) (operands : Operands) (name : String)
    (rowCount columnCount : Nat) : PlannedLaunch where
  kernel := name
  globalSize := [rowCount / params.perItemM, columnCount / params.perItemN]
  localSize := [params.localSize0, params.localSize1]
  arguments := [.size operands.m, .size operands.n, .size operands.k, .buffer operands.c.id,
    .buffer operands.a.id, .buffer operands.b.id]

theorem sizes_of_launch :
    (params.launch operands name rowCount columnCount).sizes (params.kernel name guarded type) "M" =
        operands.m ∧
      (params.launch operands name rowCount columnCount).sizes (params.kernel name guarded type)
        "N" = operands.n ∧
      (params.launch operands name rowCount columnCount).sizes (params.kernel name guarded type)
        "K" = operands.k := by
  simp [PlannedLaunch.sizes, kernel, launch]

theorem groupsAlong_of_launch :
    (params.launch operands name rowCount columnCount).groupsAlong 0 = rowCount / params.tileM ∧
      (params.launch operands name rowCount columnCount).groupsAlong 1 =
        columnCount / params.tileN := by
  constructor
  · rw [tileM, Nat.mul_comm, ← Nat.div_div_eq_div_mul]
    rfl
  · rw [tileN, Nat.mul_comm, ← Nat.div_div_eq_div_mul]
    rfl

/-- A launch over full tiles that hold the output, and over nothing else if it is unguarded. -/
structure Holds (params : MatrixProduct) (operands : Operands) (guarded : Bool)
    (rowCount columnCount : Nat) : Prop where
  rowsTiled : params.tileM ∣ rowCount
  columnsTiled : params.tileN ∣ columnCount
  rows : operands.m ≤ rowCount
  columns : operands.n ≤ columnCount
  exact : guarded = false → rowCount = operands.m ∧ columnCount = operands.n

/-- The groups of a launch have the lines of its range. -/
theorem lines_cover_of_dvd {localSize perItem range : Nat} (someLanes : 0 < localSize)
    (positive : 0 < perItem) (tiled : localSize * perItem ∣ range) :
    ((List.range (range / (localSize * perItem))).flatMap fun group =>
        (List.range localSize).flatMap (lines localSize perItem group)).Perm
      (List.range range) := by
  have whole : range / (localSize * perItem) * (localSize * perItem) = range :=
    Nat.div_mul_cancel tiled
  have covers := lines_cover someLanes positive (range / (localSize * perItem))
  rwa [whole] at covers

variable {item : (params.launch operands name rowCount columnCount).Item} {steps : List Step}

theorem mem_rows_iff (sized : params.Sized) {row : Nat} :
    row ∈ params.rows item.seat ↔
      row / params.tileM = item.group 0 ∧ row % params.localSize0 = item.place 0 :=
  mem_lines (item.place_lt 0) sized.perItemM

theorem mem_columns_iff (sized : params.Sized) {column : Nat} :
    column ∈ params.columns item.seat ↔
      column / params.tileN = item.group 1 ∧ column % params.localSize1 = item.place 1 :=
  mem_lines (item.place_lt 1) sized.perItemN

/-- The rows and columns of a work item are among those of the launch. -/
theorem row_lt (sized : params.Sized) {row : Nat} (listed : row ∈ params.rows item.seat) :
    row < rowCount := by
  have room := item.group_lt 0
  rw [groupsAlong_of_launch.1, ← ((mem_rows_iff sized).1 listed).1] at room
  exact Nat.lt_of_div_lt_div room

theorem column_lt (sized : params.Sized) {column : Nat}
    (listed : column ∈ params.columns item.seat) : column < columnCount := by
  have room := item.group_lt 1
  rw [groupsAlong_of_launch.2, ← ((mem_columns_iff sized).1 listed).1] at room
  exact Nat.lt_of_div_lt_div room

section Held

variable (sized : params.Sized) (held : params.Holds operands guarded rowCount columnCount)
include sized held

theorem full_of_holds : params.Full guarded item.seat operands.m operands.n where
  rows := fun unguarded _ listed =>
    Nat.lt_of_lt_of_eq (row_lt sized listed) (held.exact unguarded).1
  columns := fun unguarded _ listed =>
    Nat.lt_of_lt_of_eq (column_lt sized listed) (held.exact unguarded).2

/-- What a work item of the launch writes of the output. -/
theorem written_of_item
    (unrolls : blockUnrolls item.seat
      ((params.launch operands name rowCount columnCount).sizes (params.kernel name guarded type))
      (params.kernel name guarded type).body steps) :
    (written item.seat steps).filter (fun touch => touch.array = "C") =
      cells operands.m operands.n (params.rows item.seat) (params.columns item.seat) := by
  obtain ⟨sizeM, sizeN, _⟩ := @sizes_of_launch params operands name guarded type rowCount columnCount
  have full : params.Full guarded item.seat operands.m operands.n := full_of_holds sized held
  rw [← sizeM, ← sizeN] at full ⊢
  exact written_of_kernel full unrolls

/-- The owner of an element is the work item that has its row and its column. -/
theorem mem_written_of_item {element : Nat} (inside : element < operands.m * operands.n)
    (unrolls : blockUnrolls item.seat
      ((params.launch operands name rowCount columnCount).sizes (params.kernel name guarded type))
      (params.kernel name guarded type).body steps) :
    ⟨"C", [element]⟩ ∈ written item.seat steps ↔
      (element / operands.n / params.tileM = item.group 0 ∧
        element / operands.n % params.localSize0 = item.place 0) ∧
      element % operands.n / params.tileN = item.group 1 ∧
        element % operands.n % params.localSize1 = item.place 1 := by
  obtain ⟨sizeM, sizeN, _⟩ := @sizes_of_launch params operands name guarded type rowCount columnCount
  have full : params.Full guarded item.seat operands.m operands.n := full_of_holds sized held
  rw [← mem_rows_iff sized, ← mem_columns_iff sized]
  rw [← sizeM, ← sizeN] at full inside
  rw [← sizeN]
  exact mem_written_iff full unrolls inside

/-- Each element of the output is written once. -/
theorem writesOnce (fetches : params.Fetches) :
    (params.launch operands name rowCount columnCount).WritesOnce
      (params.kernel name guarded type) "C" (operands.m * operands.n) := by
  have ascends := kernel_ascends sized fetches name guarded type
  refine ⟨fun item => exists_blockSteps _ _ ascends,
    fun item steps unrolls touch listed isOutput => ?_, fun item steps unrolls => ?_,
    fun element inside => ?_⟩
  · have member : touch ∈ (written item.seat steps).filter fun touch => touch.array = "C" :=
      List.mem_filter.2 ⟨listed, decide_eq_true isOutput⟩
    rw [written_of_item sized held unrolls] at member
    obtain ⟨row, _, column, _, rowInside, columnInside, rfl⟩ := mem_cells.1 member
    exact ⟨_, place_lt rowInside columnInside, rfl⟩
  · rw [written_of_item sized held unrolls]
    exact nodup_cells (nodup_lines sized.localSize0) (nodup_lines sized.localSize1)
  · have wide : 0 < operands.n := Nat.pos_of_mul_pos_left (Nat.zero_lt_of_lt inside)
    have rowInside : element / operands.n < rowCount :=
      Nat.lt_of_lt_of_le (Nat.div_lt_of_lt_mul (by rwa [Nat.mul_comm])) held.rows
    have columnInside : element % operands.n < columnCount :=
      Nat.lt_of_lt_of_le (Nat.mod_lt _ wide) held.columns
    obtain ⟨groups0, groups1⟩ :=
      @groupsAlong_of_launch params operands name rowCount columnCount
    have room0 := Nat.div_lt_div_of_lt_of_dvd held.rowsTiled rowInside
    have room1 := Nat.div_lt_div_of_lt_of_dvd held.columnsTiled columnInside
    rw [← groups0] at room0
    rw [← groups1] at room1
    obtain ⟨item, group0, group1, place0, place1⟩ :=
      PlannedLaunch.exists_item_of_two room0 room1
        (Nat.mod_lt (element / operands.n) sized.localSize0)
        (Nat.mod_lt (element % operands.n) sized.localSize1)
    obtain ⟨steps, unrolls⟩ := exists_blockSteps _ _ ascends
    refine ⟨item, ⟨steps, unrolls, ?_⟩, ?_⟩
    · exact (mem_written_of_item sized held inside unrolls).2
        ⟨⟨group0.symm, place0.symm⟩, group1.symm, place1.symm⟩
    · rintro other ⟨otherSteps, otherUnrolls, listed⟩
      obtain ⟨⟨otherGroup0, otherPlace0⟩, otherGroup1, otherPlace1⟩ :=
        (mem_written_of_item sized held inside otherUnrolls).1 listed
      exact PlannedLaunch.Item.eq_of_two (otherGroup0.symm.trans group0.symm)
        (otherGroup1.symm.trans group1.symm) (otherPlace0.symm.trans place0.symm)
        (otherPlace1.symm.trans place1.symm)

end Held

/-- Elements that the three matrices have, by the names of their parameters. -/
def Operands.elements (operands : Operands) : Set Touch :=
  {touch | ∀ buffer,
    (touch.array, buffer) ∈ [("C", operands.c), ("A", operands.a), ("B", operands.b)] →
      ∃ element < buffer.extent.elements, touch.indices = [element]}

theorem opens_elements {batch : Batch} (checked : operands.Checked batch) :
    params.Opens ((params.launch operands name rowCount columnCount).sizes
      (params.kernel name guarded type)) operands.elements := by
  obtain ⟨sizeM, sizeN, sizeK⟩ :=
    @sizes_of_launch params operands name guarded type rowCount columnCount
  constructor
  · intro row rowInside column columnInside
    rw [sizeM] at rowInside
    rw [sizeN] at columnInside ⊢
    simpa [Operands.elements, checked.elementsC] using place_lt rowInside columnInside
  · intro row rowInside step stepInside
    rw [sizeM] at rowInside ⊢
    rw [sizeK] at stepInside ⊢
    have place : params.offsetA operands.m operands.k row step < operands.m * operands.k :=
      offsetA_lt rowInside stepInside
    simpa [Operands.elements, checked.elementsA] using place
  · intro step stepInside column columnInside
    rw [sizeK] at stepInside ⊢
    rw [sizeN] at columnInside ⊢
    have place : params.offsetB operands.n operands.k step column < operands.k * operands.n :=
      offsetB_lt stepInside columnInside
    simpa [Operands.elements, checked.elementsB] using place
  all_goals simp [Operands.elements]

/-- A work item touches elements only that the matrices have. The unguarded kernel does so where
the tiles divide all sizes. -/
theorem touched_subset_elements {batch : Batch} (checked : operands.Checked batch)
    (held : params.Holds operands guarded rowCount columnCount)
    (steps : guarded = false → params.tileK ∣ operands.k)
    (item : (params.launch operands name rowCount columnCount).Item) :
    blockTouched item.seat
        ((params.launch operands name rowCount columnCount).sizes
          (params.kernel name guarded type))
        (params.kernel name guarded type).body ⊆ operands.elements := by
  obtain ⟨sizeM, sizeN, sizeK⟩ :=
    @sizes_of_launch params operands name guarded type rowCount columnCount
  refine kernel_subset name type (opens_elements checked) (item.place_lt 0) (item.place_lt 1)
    (fun unguarded => ?_) (fun unguarded => ?_) fun unguarded => ?_
  · rw [sizeM]
    exact (group_le (item.group_lt 0)).trans_eq (held.exact unguarded).1
  · rw [sizeN]
    exact (group_le (item.group_lt 1)).trans_eq (held.exact unguarded).2
  · rw [sizeK]
    exact steps unguarded

/-- A launch over so many rows and columns: its work items have each of them once, and with the
kernel they write each element of the output once, of the rows and columns that they have, and
touch elements only that the matrices have. -/
structure Covers (params : MatrixProduct) (operands : Operands) (launch : PlannedLaunch)
    (kernel : Kernel) (rowCount columnCount : Nat) : Prop where
  rows : ((List.range (launch.groupsAlong 0)).flatMap fun group =>
    (List.range params.localSize0).flatMap (lines params.localSize0 params.perItemM group)).Perm
      (List.range rowCount)
  columns : ((List.range (launch.groupsAlong 1)).flatMap fun group =>
    (List.range params.localSize1).flatMap (lines params.localSize1 params.perItemN group)).Perm
      (List.range columnCount)
  cells : ∀ (item : launch.Item) (steps : List Step),
    blockUnrolls item.seat (launch.sizes kernel) kernel.body steps →
      (written item.seat steps).filter (fun touch => touch.array = "C") =
        cells operands.m operands.n (params.rows item.seat) (params.columns item.seat)
  writesOnce : launch.WritesOnce kernel "C" (operands.m * operands.n)
  inside : ∀ item : launch.Item,
    blockTouched item.seat (launch.sizes kernel) kernel.body ⊆ operands.elements

theorem covers_of_holds {batch : Batch} (sized : params.Sized) (fetches : params.Fetches)
    (checked : operands.Checked batch)
    (held : params.Holds operands guarded rowCount columnCount)
    (steps : guarded = false → params.tileK ∣ operands.k) :
    params.Covers operands (params.launch operands name rowCount columnCount)
      (params.kernel name guarded type) rowCount columnCount where
  rows := by
    rw [groupsAlong_of_launch.1]
    exact lines_cover_of_dvd sized.localSize0 sized.perItemM held.rowsTiled
  columns := by
    rw [groupsAlong_of_launch.2]
    exact lines_cover_of_dvd sized.localSize1 sized.perItemN held.columnsTiled
  cells := fun _ _ unrolls => written_of_item sized held unrolls
  writesOnce := writesOnce sized held fetches
  inside := touched_subset_elements checked held steps

end Launches

/-! ### Paths -/

/-- The kernel that is launched for a product covers its output. It is the unguarded one, over the
rows and columns of the output, exactly where the tiles divide all sizes, and otherwise the guarded
one over full tiles that hold them. -/
theorem launch_covers {operation : Operation} {profile : List Int} {params : MatrixProduct}
    {batch : Batch} {operands : Operands} (index : Nat)
    (accepted : Variant.ofProfile operation profile = .ok (.matrixProduct params))
    (found : params.operands batch = .ok operands)
    (rowsSmall : operands.m ≤ Size.kernelLimit) (columnsSmall : operands.n ≤ Size.kernelLimit) :
    ∃ (emission : Emission) (slot : Slot) (kernel : Kernel) (rowCount columnCount : Nat),
      (Variant.matrixProduct params).emit index batch = .ok emission ∧
      emission.kernels slot = [kernel] ∧
      kernel = params.kernel kernel.name (slot = .fallback) batch.elementType ∧
      (Variant.matrixProduct params).plan index batch =
        .ok ⟨slot, [params.launch operands kernel.name rowCount columnCount]⟩ ∧
      (slot = .primary ↔
        params.tileM ∣ operands.m ∧ params.tileN ∣ operands.n ∧ params.tileK ∣ operands.k) ∧
      (slot = .primary → rowCount = operands.m ∧ columnCount = operands.n) ∧
      (slot = .fallback →
        IsLeast {size | operands.m ≤ size ∧ params.tileM ∣ size} rowCount ∧
        IsLeast {size | operands.n ≤ size ∧ params.tileN ∣ size} columnCount) ∧
      params.Covers operands (params.launch operands kernel.name rowCount columnCount) kernel
        rowCount columnCount := by
  have sized : params.Sized := Variant.ofProfile_sized accepted
  have fetches := fetches_of_accepted accepted
  have checked := checked_of_operands found
  have emits : (Variant.matrixProduct params).emit index batch =
      .ok ((Variant.matrixProduct params).typedEmission index batch.elementType) :=
    bind_eq_ok_iff.2 ⟨operands, found, rfl⟩
  by_cases full : params.tileM ∣ operands.m ∧ params.tileN ∣ operands.n ∧ params.tileK ∣ operands.k
  · have path : params.path index operands.m operands.n operands.k =
        .ok (.primary, primaryEntry index, operands.m, operands.n) := by
      unfold path
      rw [needsFallback_eq sized]
      simp [bind, Except.bind, pure, Except.pure, full]
    have held : params.Holds operands false operands.m operands.n :=
      ⟨full.1, full.2.1, Nat.le_refl _, Nat.le_refl _, fun _ => ⟨rfl, rfl⟩⟩
    exact ⟨_, .primary, _, operands.m, operands.n, emits, rfl, rfl,
      bind_eq_ok_iff.2 ⟨operands, found, bind_eq_ok_iff.2 ⟨_, path, rfl⟩⟩, by simp [full],
      fun _ => ⟨rfl, rfl⟩, nofun, covers_of_holds sized fetches checked held fun _ => full.2.2⟩
  · have path : params.path index operands.m operands.n operands.k =
        .ok (.fallback, fallbackEntry index, Size.roundUp operands.m params.tileM,
          Size.roundUp operands.n params.tileN) := by
      unfold path
      rw [needsFallback_eq sized, checkedRoundUp_eq sized.tileM_pos rowsSmall sized.tileM_le,
        checkedRoundUp_eq sized.tileN_pos columnsSmall sized.tileN_le]
      simp [bind, Except.bind, pure, Except.pure, full]
    have leastRows := Size.isLeast_roundUp operands.m sized.tileM_pos
    have leastColumns := Size.isLeast_roundUp operands.n sized.tileN_pos
    have held : params.Holds operands true (Size.roundUp operands.m params.tileM)
        (Size.roundUp operands.n params.tileN) :=
      ⟨leastRows.1.2, leastColumns.1.2, leastRows.1.1, leastColumns.1.1, nofun⟩
    exact ⟨_, .fallback, _, _, _, emits, rfl, rfl,
      bind_eq_ok_iff.2 ⟨operands, found, bind_eq_ok_iff.2 ⟨_, path, rfl⟩⟩, by simp [full], nofun,
      fun _ => ⟨leastRows, leastColumns⟩, covers_of_holds sized fetches checked held nofun⟩

/-- Twelve rows and twenty columns are covered by tiles of eight, over sixteen rows and twenty-four
columns. -/
theorem tiling_covers_edges :
    Variant.ofProfile .matrixProductNN [1, 8, 8, 8, 1, 1, 1, 1, 1, 8, 8] =
        .ok (.matrixProduct tiling) ∧
      ∃ operands, tiling.operands (.product 12 20 5) = .ok operands ∧
        operands.m ≤ Size.kernelLimit ∧ operands.n ≤ Size.kernelLimit ∧
        ∃ emission kernel, (Variant.matrixProduct tiling).emit 0 (.product 12 20 5) = .ok emission ∧
          emission.kernels .fallback = [kernel] ∧
          tiling.Covers operands (tiling.launch operands kernel.name 16 24) kernel 16 24 := by
  have found := product_operands 12 20 5 (by decide) (by decide) (by decide)
  obtain ⟨emission, slot, kernel, rowCount, columnCount, emits, kernels, _, _, primary_iff, _,
    ragged, covers⟩ := launch_covers 0 Variant.tiling_accepted found (by decide) (by decide)
  have isFallback : slot = .fallback := by
    cases slot with
    | primary => exact absurd (primary_iff.1 rfl).1 (by decide)
    | fallback => rfl
  obtain ⟨leastRows, leastColumns⟩ := ragged isFallback
  obtain rfl : rowCount = 16 :=
    leastRows.unique (Size.isLeast_roundUp 12 (by decide : 0 < tiling.tileM))
  obtain rfl : columnCount = 24 :=
    leastColumns.unique (Size.isLeast_roundUp 20 (by decide : 0 < tiling.tileN))
  subst isFallback
  exact ⟨Variant.tiling_accepted, _, found, by decide, by decide, emission, kernel, emits, kernels,
    covers⟩

end MatrixProduct

end KernelTuner
