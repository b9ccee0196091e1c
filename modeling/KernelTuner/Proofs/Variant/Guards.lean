import KernelTuner.Proofs.Variant.Inside
import KernelTuner.Proofs.Variant.Limits
import KernelTuner.Proofs.Variant.Refusals

/-!
Contract: the divisions of a variant.

Owns: the parameters on which the check of a variant divides by zero; the sizes that no
check looks at; the numbers by which the launch of a matrix product divides; and `guards`, by
which a check, and a plan for a batch that has sizes, stop exactly where such a number is zero.

Does not own: parameters that a profile lists. All their sizes are positive, and nothing
stops for them.
-/

set_option autoImplicit false

namespace KernelTuner

theorem pos_of_mem_simdWidths {width : Nat} (known : width ∈ simdWidths) : 0 < width := by
  simp only [simdWidths, List.mem_cons, List.not_mem_nil, or_false] at known
  omega

@[simp] theorem checkedRemainder_zero (value : Nat) :
    checkedRemainder value 0 = .error (.fault .divisionByZero) := rfl

@[simp] theorem checkedRoundUp_zero (value : Nat) :
    checkedRoundUp value 0 = .error (.fault .divisionByZero) := rfl

theorem exists_checkedRoundUp {multiple : Nat} (positive : 0 < multiple) (value : Nat) :
    ∃ rounded, checkedRoundUp value multiple = .ok rounded :=
  ⟨_, if_neg (Nat.ne_of_gt positive)⟩

/-! ### Checks -/

namespace MatrixProduct

variable {params : MatrixProduct}

theorem check_of_stepless (known : params.simdWidth ∈ simdWidths) (stepless : params.perItemK = 0) :
    params.check = .error (.fault .divisionByZero) := by
  have width : checkSimdWidth params.simdWidth = .ok () := if_pos known
  unfold check
  rw [width, stepless, checkedRemainder_zero]
  rfl

end MatrixProduct

namespace Variant

variable {variant : Variant}

/-- A matrix product whose work items take no step along `K`. Behind the vector width, the check
divides the tile by that step. -/
def Stepless : Variant → Prop
  | matrixProduct params => params.simdWidth ∈ simdWidths ∧ params.perItemK = 0
  | _ => False

theorem check_of_stepless (stepless : variant.Stepless) :
    variant.check = .error (.fault .divisionByZero) := by
  cases variant with
  | matrixProduct params =>
      rw [check, MatrixProduct.check_of_stepless stepless.1 stepless.2]
      rfl
  | vectorUpdate params => exact stepless.elim
  | innerProduct params => exact stepless.elim
  | matrixUpdate params => exact stepless.elim
  | matrixVector params => exact stepless.elim

theorem check_onlyRefuses (stepped : ¬ variant.Stepless) : OnlyRefuses variant.check := by
  cases variant with
  | vectorUpdate params => exact .bind params.check_onlyRefuses fun _ _ => .pure _
  | innerProduct params => exact .bind params.check_onlyRefuses fun _ _ => .pure _
  | matrixUpdate params => exact .bind params.check_onlyRefuses fun _ _ => .pure _
  | matrixVector params => exact .bind params.check_onlyRefuses fun _ _ => .pure _
  | matrixProduct params =>
      by_cases known : params.simdWidth ∈ simdWidths
      · have positive : 0 < params.perItemK :=
          Nat.pos_of_ne_zero fun zero => stepped ⟨known, zero⟩
        exact .bind (MatrixProduct.check_onlyRefuses positive) fun _ _ => .pure _
      · have refused : checkSimdWidth params.simdWidth = refuse (.simdWidth params.simdWidth) :=
          if_neg known
        refine .bind ?_ fun _ _ => .pure _
        rw [MatrixProduct.check, refused]
        exact .bind (.refuse _) fun _ impossible => absurd impossible refuse_ne_ok

/-! ### Sizes that no check looks at -/

/-- The variant with all its sizes zero, but for the vector width and the step along `K`. -/
def emptied : Variant → Variant
  | vectorUpdate params => vectorUpdate { params with localSize0 := 0, groups0 := 0 }
  | innerProduct params => innerProduct { params with localSize0 := 0, groups0 := 0 }
  | matrixUpdate params =>
      matrixUpdate { params with localSize0 := 0, localSize1 := 0, groups0 := 0, groups1 := 0 }
  | matrixVector params =>
      matrixVector { params with localSize0 := 0, localSize1 := 0, groups0 := 0 }
  | matrixProduct params =>
      matrixProduct { params with
        localSize0 := 0, tileK := 0, localSize1 := 0, perItemM := 0, perItemN := 0,
        localFetch0 := 0, localFetch1 := 0 }

theorem Checked.emptied (checked : variant.Checked) : variant.emptied.Checked := by
  cases variant with
  | matrixProduct params =>
      exact {
        width := checked.width
        products := by simp [Variant.emptied, Variant.products, MatrixProduct.tileM, MatrixProduct.tileN]
        tiles := ⟨checked.tiles.1, Nat.dvd_zero _, fun _ => rfl⟩ }
  | vectorUpdate params => exact ⟨checked.width, by simp [Variant.emptied, Variant.products], trivial⟩
  | innerProduct params => exact ⟨checked.width, by simp [Variant.emptied, Variant.products], trivial⟩
  | matrixUpdate params => exact ⟨checked.width, by simp [Variant.emptied, Variant.products], trivial⟩
  | matrixVector params => exact ⟨checked.width, by simp [Variant.emptied, Variant.products], trivial⟩

end Variant

/-! ### Divisors -/

namespace MatrixProduct

variable {params : MatrixProduct} {m n k : Nat}

/-- No number is zero by which the launch of a product divides: the tiles, of which the one
along `K` matters when those of rows and columns are full, and the share of a work item. -/
structure Divides (params : MatrixProduct) (m n k : Nat) : Prop where
  tileM : 0 < params.tileM
  tileN : 0 < params.tileN
  tileK : params.tileM ∣ m → params.tileN ∣ n → 0 < params.tileK
  perItemM : 0 < params.perItemM
  perItemN : 0 < params.perItemN

theorem divides_iff : params.Divides m n k ↔
    0 < params.tileM ∧ 0 < params.tileN ∧
      (params.tileM ∣ m → params.tileN ∣ n → 0 < params.tileK) := by
  constructor
  · intro divides
    exact ⟨divides.tileM, divides.tileN, divides.tileK⟩
  · rintro ⟨tileM, tileN, tileK⟩
    exact ⟨tileM, tileN, tileK, Nat.pos_of_mul_pos_left tileM, Nat.pos_of_mul_pos_left tileN⟩

theorem exists_needsFallback (divides : params.Divides m n k) :
    ∃ ragged, params.needsFallback m n k = .ok ragged := by
  unfold needsFallback
  rw [checkedRemainder_eq divides.tileM, checkedRemainder_eq divides.tileN]
  by_cases fullM : m % params.tileM = 0
  · by_cases fullN : n % params.tileN = 0
    · have positive := divides.tileK (Nat.dvd_of_mod_eq_zero fullM) (Nat.dvd_of_mod_eq_zero fullN)
      rw [checkedRemainder_eq positive, fullM, fullN]
      exact ⟨_, rfl⟩
    · simp [bind, Except.bind, pure, Except.pure, fullM, fullN]
  · simp [bind, Except.bind, pure, Except.pure, fullM]

theorem Divides.exists_path (divides : params.Divides m n k) (index : Nat) :
    ∃ found, params.path index m n k = .ok found := by
  obtain ⟨ragged, checked⟩ := exists_needsFallback divides
  obtain ⟨rows, roundedRows⟩ := exists_checkedRoundUp divides.tileM m
  obtain ⟨columns, roundedColumns⟩ := exists_checkedRoundUp divides.tileN n
  unfold path
  rw [checked, roundedRows, roundedColumns]
  cases ragged with
  | true => exact ⟨_, rfl⟩
  | false => exact ⟨_, rfl⟩

/-- The remainders are taken in order, and a remainder that is not zero leads to the roundings,
which divide by the tiles of rows and columns again. -/
theorem path_of_not_divides (stuck : ¬ params.Divides m n k) (index : Nat) :
    params.path index m n k = .error (.fault .divisionByZero) := by
  unfold path needsFallback
  by_cases tileM : params.tileM = 0
  · rw [tileM, checkedRemainder_zero]
    rfl
  have positiveM := Nat.pos_of_ne_zero tileM
  obtain ⟨rows, rounded⟩ := exists_checkedRoundUp positiveM m
  rw [checkedRemainder_eq positiveM, rounded]
  by_cases tileN : params.tileN = 0
  · rw [tileN, checkedRemainder_zero, checkedRoundUp_zero]
    by_cases fullM : m % params.tileM = 0
    · simp [bind, Except.bind, fullM]
    · simp [bind, Except.bind, pure, Except.pure, fullM]
  have positiveN := Nat.pos_of_ne_zero tileN
  have full : m % params.tileM = 0 ∧ n % params.tileN = 0 ∧ params.tileK = 0 := by
    rw [divides_iff] at stuck
    simp only [Nat.dvd_iff_mod_eq_zero] at stuck
    grind
  rw [checkedRemainder_eq positiveN, full.2.2, checkedRemainder_zero]
  simp [bind, Except.bind, full.1, full.2.1]

end MatrixProduct

namespace Variant

variable {variant : Variant} {batch : Batch} {shape : Shape}

/-- No number is zero by which the launches for the batch divide. -/
def Divides : Variant → Batch → Prop
  | matrixProduct params, batch => ∀ operands, params.operands batch = .ok operands →
      params.Divides operands.m operands.n operands.k
  | _, _ => True

/-- The sizes of the work groups that a variant launches. -/
def localSizes : Variant → List Nat
  | vectorUpdate params => [params.localSize0]
  | innerProduct params => [params.localSize0]
  | matrixUpdate params => [params.localSize0, params.localSize1]
  | matrixVector params => [params.localSize0, params.localSize1]
  | matrixProduct params => [params.localSize0, params.localSize1]

theorem localSizes_subset : variant.localSizes ⊆ variant.listedSizes := by
  cases variant <;> simp [localSizes, listedSizes]

theorem divides_of_positive (positive : ∀ size ∈ variant.listedSizes, 0 < size) :
    variant.Divides batch := by
  cases variant with
  | matrixProduct params =>
      simp only [listedSizes, List.forall_mem_cons] at positive
      intro operands _
      apply MatrixProduct.divides_iff.2
      refine ⟨?tileM, ?tileN, fun _ _ => positive.2.2.1⟩
      case tileM => exact Nat.mul_pos positive.2.1 positive.2.2.2.2.1
      case tileN => exact Nat.mul_pos positive.2.2.2.1 positive.2.2.2.2.2.2.1
  | vectorUpdate params => trivial
  | innerProduct params => trivial
  | matrixUpdate params => trivial
  | matrixVector params => trivial

/-! ### Plans -/

/-- The launches of a variant, for a batch that has sizes. -/
structure Guards (variant : Variant) (batch : Batch) : Prop where
  plans : variant.Divides batch → ∀ index, ∃ plan, variant.plan index batch = .ok plan
  stops : ¬ variant.Divides batch →
    ∀ index, variant.plan index batch = .error (.fault .divisionByZero)
  groups : ∀ index plan, variant.plan index batch = .ok plan →
    plan.launches ≠ [] ∧ ∀ launch ∈ plan.launches, launch.localSize = variant.localSizes
  positive : (∀ size ∈ variant.listedSizes, 0 < size) →
    variant.Divides batch ∧ ∀ size ∈ variant.localSizes, 0 < size

theorem plan_groups {index : Nat} {plan : LaunchPlan}
    (planned : variant.plan index batch = .ok plan) :
    plan.launches ≠ [] ∧ ∀ launch ∈ plan.launches, launch.localSize = variant.localSizes := by
  cases variant with
  | vectorUpdate params =>
      obtain ⟨length, _, planned⟩ := bind_eq_ok_iff.1 planned
      cases planned
      simp [localSizes]
  | innerProduct params =>
      obtain ⟨operands, _, planned⟩ := bind_eq_ok_iff.1 planned
      cases planned
      simp [localSizes]
  | matrixUpdate params =>
      obtain ⟨dims, _, planned⟩ := bind_eq_ok_iff.1 planned
      cases planned
      simp [localSizes]
  | matrixVector params =>
      obtain ⟨operands, _, planned⟩ := bind_eq_ok_iff.1 planned
      cases planned
      simp [localSizes]
  | matrixProduct params =>
      obtain ⟨operands, _, planned⟩ := bind_eq_ok_iff.1 planned
      obtain ⟨found, _, planned⟩ := bind_eq_ok_iff.1 planned
      cases planned
      simp [localSizes]

theorem exists_plan (accepts : variant.sizes batch = .ok shape) (divides : variant.Divides batch)
    (index : Nat) : ∃ plan, variant.plan index batch = .ok plan := by
  cases variant with
  | vectorUpdate params =>
      obtain ⟨length, measured, _⟩ := bind_eq_ok_iff.1 accepts
      exact ⟨_, bind_eq_ok_iff.2 ⟨length, measured, rfl⟩⟩
  | innerProduct params =>
      obtain ⟨operands, found, _⟩ := bind_eq_ok_iff.1 accepts
      exact ⟨_, bind_eq_ok_iff.2 ⟨operands, found, rfl⟩⟩
  | matrixUpdate params =>
      obtain ⟨dims, measured, _⟩ := bind_eq_ok_iff.1 accepts
      exact ⟨_, bind_eq_ok_iff.2 ⟨dims, measured, rfl⟩⟩
  | matrixVector params =>
      obtain ⟨operands, found, _⟩ := bind_eq_ok_iff.1 accepts
      exact ⟨_, bind_eq_ok_iff.2 ⟨operands, found, rfl⟩⟩
  | matrixProduct params =>
      obtain ⟨operands, found, _⟩ := bind_eq_ok_iff.1 accepts
      obtain ⟨path, taken⟩ := (divides operands found).exists_path index
      exact ⟨_, bind_eq_ok_iff.2 ⟨operands, found, bind_eq_ok_iff.2 ⟨path, taken, rfl⟩⟩⟩

theorem plan_of_not_divides (accepts : variant.sizes batch = .ok shape)
    (stuck : ¬ variant.Divides batch) (index : Nat) :
    variant.plan index batch = .error (.fault .divisionByZero) := by
  cases variant with
  | matrixProduct params =>
      obtain ⟨operands, found, _⟩ := bind_eq_ok_iff.1 accepts
      have undivided : ¬ params.Divides operands.m operands.n operands.k := by
        intro divides
        apply stuck
        intro other same
        cases found.symm.trans same
        exact divides
      rw [plan, MatrixProduct.plan, found]
      show (params.path index operands.m operands.n operands.k >>= _) = _
      rw [MatrixProduct.path_of_not_divides undivided index]
      rfl
  | vectorUpdate params => exact absurd trivial stuck
  | innerProduct params => exact absurd trivial stuck
  | matrixUpdate params => exact absurd trivial stuck
  | matrixVector params => exact absurd trivial stuck

theorem guards_of_sizes (accepts : variant.sizes batch = .ok shape) : variant.Guards batch where
  plans := exists_plan accepts
  stops := plan_of_not_divides accepts
  groups := fun _ _ => plan_groups
  positive := fun positive =>
    ⟨divides_of_positive positive, fun size listed => positive size (localSizes_subset listed)⟩

/-- The check of a variant refuses an argument or accepts, but for a matrix product without a
step along `K`, on which it divides by zero. An accepted variant has a positive vector width,
and all other sizes but that step may be zero. Whatever they are, the plan for a batch that has
sizes is there exactly when no number is zero by which it divides, its work groups have the
local sizes of the variant, and positive sizes rule out both a division by zero and an empty
work group. A profile lists no other sizes. -/
theorem guards (variant : Variant) :
    (∀ cause, variant.check = .error cause → cause.isInvalidArgument = true ∨
      variant.Stepless ∧ cause = .fault .divisionByZero) ∧
      (variant.Stepless → variant.check = .error (.fault .divisionByZero)) ∧
      (∀ checked, variant.check = .ok checked →
        checked = variant ∧ 0 < variant.simdWidth ∧
          variant.emptied.check = .ok variant.emptied ∧
          ∀ batch shape, variant.sizes batch = .ok shape → variant.Guards batch) ∧
      (∀ operation profile, ofProfile operation profile = .ok variant →
        ∀ size ∈ variant.listedSizes, 0 < size) := by
  refine ⟨?refusals, check_of_stepless, ?accepted, ?profiles⟩
  case refusals =>
    intro cause failed
    by_cases stepless : variant.Stepless
    · rw [check_of_stepless stepless] at failed
      exact .inr ⟨stepless, (Except.error.inj failed).symm⟩
    · exact .inl (check_onlyRefuses stepless cause failed)
  case accepted =>
    intro checked accepted
    obtain ⟨passes, same⟩ := check_eq_ok_iff.1 accepted
    have emptied := check_eq_ok_iff.2 ⟨passes.emptied, rfl⟩
    exact ⟨same.symm, pos_of_mem_simdWidths passes.width, emptied,
      fun _ _ accepts => guards_of_sizes accepts⟩
  case profiles =>
    intro operation profile accepted size listed
    obtain ⟨_, valid, _⟩ := ofProfile_eq_ok_iff.1 accepted
    exact (valid.counted size listed).1

/-- A vector update is accepted without work items, and launched on empty work groups. A matrix
product is accepted without a tile along `K`, and its plan divides by zero. Without a step along
`K` its check does. -/
theorem empty_sizes_accepted :
    (Variant.vectorUpdate ⟨1, 0, 128, .strided⟩).check =
        .ok (.vectorUpdate ⟨1, 0, 128, .strided⟩) ∧
      (∃ plan, (Variant.vectorUpdate ⟨1, 0, 128, .strided⟩).plan 0 (.stretching 8) = .ok plan ∧
        ∃ launch ∈ plan.launches, launch.localSize = [0]) ∧
      (Variant.matrixProduct { MatrixProduct.tiling with tileK := 0 }).check =
        .ok (.matrixProduct { MatrixProduct.tiling with tileK := 0 }) ∧
      (∃ shape, (Variant.matrixProduct { MatrixProduct.tiling with tileK := 0 }).sizes
        (.product 8 8 8) = .ok shape) ∧
      (Variant.matrixProduct { MatrixProduct.tiling with tileK := 0 }).plan 0 (.product 8 8 8) =
        .error (.fault .divisionByZero) ∧
      (Variant.matrixProduct { MatrixProduct.tiling with perItemK := 0 }).check =
        .error (.fault .divisionByZero) := by
  have operands := MatrixProduct.product_operands 8 8 8 (by decide) (by decide) (by decide)
  obtain ⟨shape, accepts⟩ : ∃ shape,
      (Variant.matrixProduct { MatrixProduct.tiling with tileK := 0 }).sizes (.product 8 8 8) =
        .ok shape := ⟨_, bind_eq_ok_iff.2 ⟨_, operands, rfl⟩⟩
  have stuck : ¬ (Variant.matrixProduct { MatrixProduct.tiling with tileK := 0 }).Divides
      (.product 8 8 8) := by
    intro divides
    have positive := (divides _ operands).tileK (by decide) (by decide)
    exact absurd positive (by decide)
  obtain ⟨plan, planned⟩ : ∃ plan, (Variant.vectorUpdate ⟨1, 0, 128, .strided⟩).plan 0
      (.stretching 8) = .ok plan := ⟨_, bind_eq_ok_iff.2 ⟨8, stretching_length 8, rfl⟩⟩
  obtain ⟨nonempty, groups⟩ := plan_groups planned
  obtain ⟨launch, launched⟩ := List.exists_mem_of_ne_nil plan.launches nonempty
  exact ⟨rfl, ⟨plan, planned, launch, launched, groups launch launched⟩, rfl, ⟨shape, accepts⟩,
    plan_of_not_divides accepts stuck 0, rfl⟩

end Variant

end KernelTuner
