import KernelTuner.Proofs.Backend.Submissions
import KernelTuner.Proofs.Variant.Accepted
import KernelTuner.Proofs.Variant.Entries
import KernelTuner.Proofs.Variant.Operands

/-!
Contract: the launches of accepted variants.

Owns: launches whose work groups fill their range, which the reference queue accepts;
and `plan_launches`, by which a plan launches the entries of its slot in order and all
its launches fill their range, for every problem size.
-/

set_option autoImplicit false

namespace KernelTuner

/-! ### Ranges -/

/-- In every dimension the range is a multiple of a work group that is not empty. -/
def PlannedLaunch.Fills (launch : PlannedLaunch) : Prop :=
  launch.globalSize ≠ [] ∧ launch.globalSize.length ≤ 3 ∧
    List.Forall₂ (fun range group => 0 < group ∧ group ∣ range) launch.globalSize launch.localSize

namespace QueueState

theorem checkWorkSizes_ok {launch : PlannedLaunch} (fills : launch.Fills) :
    checkWorkSizes launch.kernel launch.globalSize launch.localSize = .ok () := by
  obtain ⟨nonempty, few, filled⟩ := fills
  refine checkWorkSizes_eq_ok_iff.2
    ⟨filled.length_eq, List.length_pos_iff.2 nonempty, few, fun range group member => ?_⟩
  obtain ⟨positive, divides⟩ := List.forall₂_zip filled member
  exact ⟨Nat.ne_of_gt positive, divides⟩

end QueueState

/-! ### Rounding -/

namespace Size

theorem dvd_roundUp (value multiple : Nat) : multiple ∣ roundUp value multiple :=
  Nat.dvd_mul_left multiple _

theorem roundUp_lt (value : Nat) {multiple : Nat} (positive : 0 < multiple) :
    roundUp value multiple < value + multiple := by
  have split := Nat.div_add_mod value multiple
  have remainder := Nat.mod_lt value positive
  rw [Nat.mul_comm] at split
  unfold roundUp
  split
  · rw [Nat.add_zero]
    omega
  · rw [Nat.add_mul, Nat.one_mul]
    omega

end Size

theorem checkedRemainder_eq {divisor : Nat} (positive : 0 < divisor) (value : Nat) :
    checkedRemainder value divisor = .ok (value % divisor) := by
  rw [checkedRemainder, if_neg (Nat.ne_of_gt positive)]

/-- Sizes that a kernel can count are rounded up within the machine word. -/
theorem checkedRoundUp_eq {value multiple : Nat} (positive : 0 < multiple)
    (valueSmall : value ≤ Size.kernelLimit) (multipleSmall : multiple ≤ Size.kernelLimit) :
    checkedRoundUp value multiple = .ok (Size.roundUp value multiple) := by
  have small : Size.roundUp value multiple < Size.wordCount := by
    have rounded := Size.roundUp_lt value positive
    have limit : 2 * Size.kernelLimit < Size.wordCount := by decide
    omega
  rw [checkedRoundUp, if_neg (Nat.ne_of_gt positive), Size.word_eq_self small]

/-! ### Extents -/

/-- No dimension is larger than a kernel can count. -/
def Buffer.Countable (buffer : Buffer) : Prop := ∀ dim ∈ buffer.dims, dim ≤ Size.kernelLimit

def Operand.Countable : Operand → Prop
  | .buffer handle => handle.Countable
  | _ => True

/-- All buffers of the batch are countable. -/
def Batch.Countable (batch : Batch) : Prop :=
  ∀ expression ∈ batch.expressions, ∀ node ∈ expression.nodes,
    node.lhs.Countable ∧ node.rhs.Countable

theorem Batch.Countable.of_holds {batch : Batch} {handle : Buffer} (countable : batch.Countable)
    (holds : batch.Holds handle) : handle.Countable := by
  obtain ⟨expression, listed, index, bound, stands⟩ := holds
  obtain ⟨lhs, rhs⟩ := countable expression listed _ (Array.getElem_mem bound)
  rcases stands with left | right
  · rwa [left] at lhs
  · rwa [right] at rhs

theorem Buffer.Countable.rows_le {buffer : Buffer} (countable : buffer.Countable) :
    buffer.rows ≤ Size.kernelLimit := by
  unfold Buffer.Countable Buffer.dims at countable
  unfold Buffer.rows Extent.rows
  cases extent : buffer.extent with
  | scalar => decide
  | vector length => exact countable _ (by rw [extent]; exact List.mem_cons_self)
  | matrix rows columns => exact countable _ (by rw [extent]; exact List.mem_cons_self)

theorem Buffer.Countable.columns_le {buffer : Buffer} (countable : buffer.Countable) :
    buffer.columns ≤ Size.kernelLimit := by
  unfold Buffer.Countable Buffer.dims at countable
  unfold Buffer.columns Extent.columns
  cases extent : buffer.extent with
  | scalar => decide
  | vector length => exact (by decide : 1 ≤ Size.kernelLimit)
  | matrix rows columns =>
      exact countable _ (by rw [extent]; exact List.mem_cons_of_mem _ List.mem_cons_self)

/-! ### Matrix products -/

namespace MatrixProduct

variable {params : MatrixProduct}

theorem Sized.tileM_pos (sized : params.Sized) : 0 < params.tileM :=
  Nat.mul_pos sized.localSize0 sized.perItemM

theorem Sized.tileN_pos (sized : params.Sized) : 0 < params.tileN :=
  Nat.mul_pos sized.localSize1 sized.perItemN

/-- Full tiles, divided among their work items, fill work groups. -/
theorem dvd_div_of_tile {localSize perItem size : Nat} (positive : 0 < perItem)
    (tiled : localSize * perItem ∣ size) : localSize ∣ size / perItem := by
  obtain ⟨tiles, rfl⟩ := tiled
  rw [Nat.mul_assoc, Nat.mul_comm perItem, ← Nat.mul_assoc, Nat.mul_div_cancel _ positive]
  exact Nat.dvd_mul_right localSize tiles

theorem needsFallback_eq (sized : params.Sized) (m n k : Nat) :
    params.needsFallback m n k =
      .ok (decide (¬ (params.tileM ∣ m ∧ params.tileN ∣ n ∧ params.tileK ∣ k))) := by
  unfold needsFallback
  rw [checkedRemainder_eq sized.tileM_pos, checkedRemainder_eq sized.tileN_pos,
    checkedRemainder_eq sized.tileK]
  by_cases fullM : m % params.tileM = 0
  · by_cases fullN : n % params.tileN = 0
    · simp [bind, Except.bind, pure, Except.pure, Nat.dvd_iff_mod_eq_zero, fullM, fullN]
    · simp [bind, Except.bind, pure, Except.pure, Nat.dvd_iff_mod_eq_zero, fullM, fullN]
  · simp [bind, Except.bind, pure, Except.pure, Nat.dvd_iff_mod_eq_zero, fullM]

/-- The path of a product is the primary kernel on full tiles, or the fallback kernel on
sizes rounded up to full tiles. -/
theorem path_full (sized : params.Sized) (index : Nat) {m n : Nat} (k : Nat)
    (rowsSmall : m ≤ Size.kernelLimit) (columnsSmall : n ≤ Size.kernelLimit) :
    ∃ slot entry rows columns, params.path index m n k = .ok (slot, entry, rows, columns) ∧
      (Variant.matrixProduct params).entries index slot = [entry] ∧
      params.tileM ∣ rows ∧ params.tileN ∣ columns := by
  unfold path
  rw [needsFallback_eq sized, checkedRoundUp_eq sized.tileM_pos rowsSmall sized.tileM_le,
    checkedRoundUp_eq sized.tileN_pos columnsSmall sized.tileN_le]
  by_cases full : params.tileM ∣ m ∧ params.tileN ∣ n ∧ params.tileK ∣ k
  · refine ⟨.primary, primaryEntry index, m, n, ?_, rfl, full.1, full.2.1⟩
    simp [bind, Except.bind, pure, Except.pure, full]
  · refine ⟨.fallback, fallbackEntry index, Size.roundUp m params.tileM,
      Size.roundUp n params.tileN, ?_, rfl, Size.dvd_roundUp _ _, Size.dvd_roundUp _ _⟩
    simp [bind, Except.bind, pure, Except.pure, full]

theorem dvd_of_checkedRemainder {value divisor : Nat}
    (checked : checkedRemainder value divisor = .ok 0) : divisor ∣ value := by
  unfold checkedRemainder at checked
  split at checked
  · cases checked
  · exact Nat.dvd_of_mod_eq_zero (Except.ok.inj checked)

/-- Without the fallback kernel all tiles are full. -/
theorem tiled_of_needsFallback {m n k : Nat} (checked : params.needsFallback m n k = .ok false) :
    params.tileM ∣ m ∧ params.tileN ∣ n ∧ params.tileK ∣ k := by
  obtain ⟨raggedM, checkedM, checked⟩ := bind_eq_ok_iff.1 checked
  by_cases fullM : raggedM = 0
  · subst fullM
    obtain ⟨raggedN, checkedN, checked⟩ := bind_eq_ok_iff.1 checked
    by_cases fullN : raggedN = 0
    · subst fullN
      obtain ⟨raggedK, checkedK, checked⟩ := bind_eq_ok_iff.1 checked
      have fullK : raggedK = 0 := by simpa [pure, Except.pure] using checked
      subst fullK
      exact ⟨dvd_of_checkedRemainder checkedM, dvd_of_checkedRemainder checkedN,
        dvd_of_checkedRemainder checkedK⟩
    · simp [fullN, pure, Except.pure] at checked
  · simp [fullM, pure, Except.pure] at checked

/-- A launch is of the primary kernel, on full tiles, or of the fallback kernel. -/
theorem path_cases {index m n k rows columns : Nat} {slot : Slot} {entry : String}
    (path : params.path index m n k = .ok (slot, entry, rows, columns)) :
    (slot = .primary ∧ entry = primaryEntry index ∧ rows = m ∧ columns = n ∧
        params.tileM ∣ m ∧ params.tileN ∣ n ∧ params.tileK ∣ k) ∨
      slot = .fallback ∧ entry = fallbackEntry index := by
  obtain ⟨ragged, checked, path⟩ := bind_eq_ok_iff.1 path
  cases ragged with
  | false =>
      cases path
      exact .inl ⟨rfl, rfl, rfl, rfl, tiled_of_needsFallback checked⟩
  | true =>
      obtain ⟨_, _, path⟩ := bind_eq_ok_iff.1 path
      obtain ⟨_, _, path⟩ := bind_eq_ok_iff.1 path
      cases path
      exact .inr ⟨rfl, rfl⟩

theorem operands_countable {batch : Batch} {operands : Operands} (countable : batch.Countable)
    (found : params.operands batch = .ok operands) :
    operands.m ≤ Size.kernelLimit ∧ operands.n ≤ Size.kernelLimit := by
  have checked := checked_of_operands found
  have target : operands.c.Countable := countable.of_holds checked.c
  rw [checked.rows, checked.columns]
  exact ⟨target.rows_le, target.columns_le⟩

end MatrixProduct

/-! ### Plans -/

namespace Variant

variable {variant : Variant} {index : Nat} {batch : Batch} {plan : LaunchPlan}

/-- A plan launches the entries of its slot, in order, and every launch fills its range. -/
structure Launches (variant : Variant) (index : Nat) (plan : LaunchPlan) : Prop where
  kernels : plan.launches.map PlannedLaunch.kernel = variant.entries index plan.slot
  fills : ∀ launch ∈ plan.launches, launch.Fills

theorem fills_one {kernel : String} {range group : Nat} {arguments : List Argument}
    (positive : 0 < group) (divides : group ∣ range) :
    (PlannedLaunch.mk kernel [range] [group] arguments).Fills :=
  ⟨List.cons_ne_nil _ _, (by decide : 1 ≤ 3), .cons ⟨positive, divides⟩ .nil⟩

theorem fills_two {kernel : String} {range0 range1 group0 group1 : Nat}
    {arguments : List Argument} (positive : 0 < group0 ∧ 0 < group1) (divides0 : group0 ∣ range0)
    (divides1 : group1 ∣ range1) :
    (PlannedLaunch.mk kernel [range0, range1] [group0, group1] arguments).Fills :=
  ⟨List.cons_ne_nil _ _, (by decide : 2 ≤ 3), .cons ⟨positive.1, divides0⟩
    (.cons ⟨positive.2, divides1⟩ .nil)⟩

theorem plan_launches (sized : variant.Sized) (countable : batch.Countable)
    (planned : variant.plan index batch = .ok plan) : variant.Launches index plan := by
  cases variant with
  | vectorUpdate params =>
      obtain ⟨length, _, planned⟩ := bind_eq_ok_iff.1 planned
      cases planned
      exact ⟨rfl, List.forall_mem_singleton.2 (fills_one sized (Nat.dvd_mul_right _ _))⟩
  | innerProduct params =>
      obtain ⟨operands, _, planned⟩ := bind_eq_ok_iff.1 planned
      cases planned
      refine ⟨rfl, List.forall_mem_cons.2 ⟨fills_one sized (Nat.dvd_mul_right _ _), ?_⟩⟩
      exact List.forall_mem_singleton.2 (fills_one sized (Nat.dvd_refl _))
  | matrixUpdate params =>
      obtain ⟨⟨rows, columns⟩, _, planned⟩ := bind_eq_ok_iff.1 planned
      cases planned
      exact ⟨rfl, List.forall_mem_singleton.2
        (fills_two sized (Nat.dvd_mul_right _ _) (Nat.dvd_mul_right _ _))⟩
  | matrixVector params =>
      obtain ⟨operands, _, planned⟩ := bind_eq_ok_iff.1 planned
      cases planned
      exact ⟨rfl, List.forall_mem_singleton.2
        (fills_two sized (Nat.dvd_mul_right _ _) (Nat.dvd_refl _))⟩
  | matrixProduct params =>
      obtain ⟨operands, found, planned⟩ := bind_eq_ok_iff.1 planned
      obtain ⟨rowsSmall, columnsSmall⟩ := MatrixProduct.operands_countable countable found
      obtain ⟨slot, entry, rows, columns, path, named, tiledM, tiledN⟩ :=
        MatrixProduct.path_full sized index operands.k rowsSmall columnsSmall
      rw [path] at planned
      cases planned
      refine ⟨named.symm, List.forall_mem_singleton.2 (fills_two ⟨sized.localSize0,
        sized.localSize1⟩ ?_ ?_)⟩
      · exact MatrixProduct.dvd_div_of_tile sized.perItemM tiledM
      · exact MatrixProduct.dvd_div_of_tile sized.perItemN tiledN

end Variant

end KernelTuner
