import KernelTuner.Proofs.Variant.Guards
import KernelTuner.Proofs.Model.Submitting

/-!
Contract: what the variants of one operation measure of a batch.

Owns: the extents that a variant finds in a batch, which are the same for all variants of an
operation; the shape that they make up; the launch that a plan begins with, whose leading
arguments are the extents; and `variants_share_shape`, by which what has been recorded or
predicted for the shape of the baseline holds for the variant that is selected.

An extent is a machine word. A shape holds it as a signed number, from which the word is read
back.
-/

set_option autoImplicit false

namespace KernelTuner

/-! ### Words -/

namespace Size

/-- The machine word that a signed number stands for. -/
def unsigned (value : Int) : Nat := (value % (wordCount : Int)).toNat

theorem unsigned_signed {value : Nat} (small : value < wordCount) :
    unsigned (signed value) = value := by
  unfold wordCount at small
  unfold unsigned signed wordCount
  rw [Int.bmod_emod]
  omega

end Size

/-- The shape of these extents. -/
def Shape.ofExtents (extents : List Nat) : Shape := ⟨extents.map Size.signed⟩

theorem Shape.ofExtents_unsigned {extents : List Nat}
    (small : ∀ extent ∈ extents, extent < Size.wordCount) :
    (Shape.ofExtents extents).sizes.map Size.unsigned = extents := by
  have same : extents.map (Size.unsigned ∘ Size.signed) = extents.map id := by
    refine List.map_congr_left fun extent member => ?_
    rw [Function.comp_apply, Size.unsigned_signed (small extent member)]
    rfl
  rw [ofExtents, List.map_map, same, List.map_id]

/-! ### Arguments -/

/-- The sizes that the arguments begin with. -/
def Argument.leadingSizes : List Argument → List Nat
  | .size value :: rest => value :: leadingSizes rest
  | _ => []

theorem Argument.leadingSizes_append (sizes : List Nat) {rest : List Argument}
    (others : leadingSizes rest = []) : leadingSizes (sizes.map .size ++ rest) = sizes := by
  induction sizes with
  | nil => exact others
  | cons value sizes inductionHypothesis =>
      exact congrArg (value :: ·) inductionHypothesis

/-- What is passed for the leaves of a batch are buffers and scalars. -/
theorem Bindings.leadingSizes_arguments (bindings : Bindings) :
    Argument.leadingSizes bindings.arguments = [] := by
  unfold arguments
  cases bindings.parameters with
  | nil => rfl
  | cons leaf rest => cases leaf <;> rfl

/-! ### Extents -/

/-- The dimensions of a batch, as the variant finds them. -/
def Variant.extents : Variant → Batch → Except Error (List Nat)
  | vectorUpdate _, batch => do return [← VectorUpdate.length batch]
  | innerProduct _, batch => do return [(← InnerProduct.operands batch).x.length]
  | matrixUpdate _, batch => do
      let (rows, columns) ← MatrixUpdate.dims batch
      return [rows, columns]
  | matrixVector params, batch => do
      let operands ← MatrixVector.operands params.axis batch
      return [operands.matrix.rows, operands.matrix.columns]
  | matrixProduct params, batch => do
      let operands ← params.operands batch
      return [operands.m, operands.n, operands.k]

namespace MatrixProduct

/-- The operands of a product depend on the transpositions alone. -/
theorem operands_congr {params other : MatrixProduct}
    (sameA : params.transposedA = other.transposedA)
    (sameB : params.transposedB = other.transposedB) (batch : Batch) :
    params.operands batch = other.operands batch := by
  unfold operands
  rw [sameA, sameB]

end MatrixProduct

theorem bind_of_unmeasured {α β γ : Type} {result : Except Error α} {image : α → β}
    {rest : α → Except Error γ} {cause : Error}
    (refused : (result >>= fun value => pure (image value)) = .error cause) :
    (result >>= rest) = .error cause := by
  cases result with
  | error other =>
      cases refused
      rfl
  | ok value => cases refused

theorem map_bind {α β γ : Type} (result : Except Error α) (rest : α → Except Error β)
    (image : β → γ) : (result >>= rest).map image = result >>= fun value => (rest value).map image := by
  cases result <;> rfl

namespace Variant

variable {operation : Operation} {profile otherProfile : List Int} {variant other : Variant}
  {batch : Batch} {extents : List Nat} {cause : Error}

/-- The shape of a batch is that of its extents. -/
theorem sizes_eq (variant : Variant) (batch : Batch) :
    variant.sizes batch = (variant.extents batch).map Shape.ofExtents := by
  cases variant <;> rw [sizes, extents, map_bind] <;> rfl

/-- All variants of an operation find the same extents. -/
theorem extents_congr (computes : variant.Computes operation)
    (otherComputes : other.Computes operation) (batch : Batch) :
    variant.extents batch = other.extents batch := by
  cases variant <;> cases other
  case vectorUpdate.vectorUpdate => rfl
  case innerProduct.innerProduct => rfl
  case matrixUpdate.matrixUpdate => rfl
  case matrixVector.matrixVector params others =>
      have sameAxis : params.axis = others.axis := Option.some.inj (computes.symm.trans otherComputes)
      rw [extents, extents, sameAxis]
  case matrixProduct.matrixProduct params others =>
      have same := Prod.mk.inj (Option.some.inj (computes.symm.trans otherComputes))
      rw [extents, extents, MatrixProduct.operands_congr same.1 same.2]
  all_goals
    simp only [Computes] at computes otherComputes
    cases operation <;> simp_all [Operation.axis?, Operation.transposition?]

theorem extents_lt (measured : variant.extents batch = .ok extents) :
    ∀ extent ∈ extents, extent < Size.wordCount := by
  cases variant with
  | vectorUpdate params =>
      obtain ⟨length, found, same⟩ := bind_eq_ok_iff.1 measured
      cases same
      have limit : Size.kernelLimit < Size.wordCount := by decide
      exact List.forall_mem_singleton.2 ((VectorUpdate.length_le found).trans_lt limit)
  | innerProduct params =>
      obtain ⟨operands, _, same⟩ := bind_eq_ok_iff.1 measured
      cases same
      exact List.forall_mem_singleton.2 (Nat.mod_lt _ (by decide))
  | matrixUpdate params =>
      obtain ⟨⟨rows, columns⟩, found, same⟩ := bind_eq_ok_iff.1 measured
      cases same
      obtain ⟨target, _, _, _, rfl, rfl⟩ := MatrixUpdate.measured_of_dims found
      simp [target.rows_lt, target.columns_lt]
  | matrixVector params =>
      obtain ⟨operands, _, same⟩ := bind_eq_ok_iff.1 measured
      cases same
      simp [operands.matrix.rows_lt, operands.matrix.columns_lt]
  | matrixProduct params =>
      obtain ⟨operands, found, same⟩ := bind_eq_ok_iff.1 measured
      cases same
      have checked := MatrixProduct.checked_of_operands found
      have rows : operands.m < Size.wordCount := checked.rows.trans_lt operands.c.rows_lt
      have columns : operands.n < Size.wordCount := checked.columns.trans_lt operands.c.columns_lt
      simp [rows, columns, checked.inner]

/-! ### Plans -/

/-- A batch without extents has no plan, for the same cause. -/
theorem plan_of_unmeasured (refused : variant.extents batch = .error cause) (index : Nat) :
    variant.plan index batch = .error cause := by
  cases variant with
  | vectorUpdate params => exact bind_of_unmeasured refused
  | innerProduct params => exact bind_of_unmeasured refused
  | matrixUpdate params => exact bind_of_unmeasured refused
  | matrixVector params => exact bind_of_unmeasured refused
  | matrixProduct params => exact bind_of_unmeasured refused

/-- A plan begins with a launch for the extents of the batch. -/
theorem opens_of_plan {index : Nat} {plan : LaunchPlan}
    (planned : variant.plan index batch = .ok plan) :
    ∃ extents launch later, variant.extents batch = .ok extents ∧
      plan.launches = launch :: later ∧ Argument.leadingSizes launch.arguments = extents := by
  cases variant with
  | vectorUpdate params =>
      obtain ⟨length, found, planned⟩ := bind_eq_ok_iff.1 planned
      cases planned
      exact ⟨[length], _, [], bind_eq_ok_iff.2 ⟨length, found, rfl⟩, rfl,
        Argument.leadingSizes_append [length] (Bindings.leadingSizes_arguments _)⟩
  | innerProduct params =>
      obtain ⟨operands, found, planned⟩ := bind_eq_ok_iff.1 planned
      cases planned
      exact ⟨_, _, _, bind_eq_ok_iff.2 ⟨operands, found, rfl⟩, rfl, rfl⟩
  | matrixUpdate params =>
      obtain ⟨⟨rows, columns⟩, found, planned⟩ := bind_eq_ok_iff.1 planned
      cases planned
      exact ⟨[rows, columns], _, [], bind_eq_ok_iff.2 ⟨(rows, columns), found, rfl⟩, rfl,
        Argument.leadingSizes_append [rows, columns] (Bindings.leadingSizes_arguments _)⟩
  | matrixVector params =>
      obtain ⟨operands, found, planned⟩ := bind_eq_ok_iff.1 planned
      cases planned
      exact ⟨_, _, _, bind_eq_ok_iff.2 ⟨operands, found, rfl⟩, rfl, rfl⟩
  | matrixProduct params =>
      obtain ⟨operands, found, planned⟩ := bind_eq_ok_iff.1 planned
      obtain ⟨path, _, planned⟩ := bind_eq_ok_iff.1 planned
      cases planned
      exact ⟨_, _, _, bind_eq_ok_iff.2 ⟨operands, found, rfl⟩, rfl, rfl⟩

theorem exists_plan_of_measured (accepted : ofProfile operation profile = .ok variant)
    (measured : variant.extents batch = .ok extents) (index : Nat) :
    ∃ plan, variant.plan index batch = .ok plan := by
  obtain ⟨-, valid, -⟩ := ofProfile_eq_ok_iff.1 accepted
  have positive : ∀ size ∈ variant.listedSizes, 0 < size := fun size listed =>
    (valid.counted size listed).1
  have accepts : variant.sizes batch = .ok (Shape.ofExtents extents) := by
    rw [sizes_eq, measured]
    rfl
  exact exists_plan accepts (divides_of_positive positive) index

/-- A variant that runs on what another one has measured of the batch: it stops for the cause
that the other has stopped for, and begins with a launch for the other's shape. -/
structure RunsOn (variant : Variant) (batch : Batch) (measured : Except Error Shape) : Prop where
  sizes : variant.sizes batch = measured
  stops : ∀ cause, measured = .error cause → ∀ index, variant.plan index batch = .error cause
  launches : ∀ shape, measured = .ok shape → ∀ index, ∃ plan launch later,
    variant.plan index batch = .ok plan ∧ plan.launches = launch :: later ∧
      Argument.leadingSizes launch.arguments = shape.sizes.map Size.unsigned

theorem runsOn_sizes (accepted : ofProfile operation profile = .ok variant) (batch : Batch) :
    variant.RunsOn batch (variant.sizes batch) := by
  cases measured : variant.extents batch with
  | error cause =>
      have refused : variant.sizes batch = .error cause := by
        rw [sizes_eq, measured]
        rfl
      refine ⟨rfl, fun other same index => ?_, fun shape same => nomatch refused.symm.trans same⟩
      cases refused.symm.trans same
      exact plan_of_unmeasured measured index
  | ok extents =>
      have shaped : variant.sizes batch = .ok (Shape.ofExtents extents) := by
        rw [sizes_eq, measured]
        rfl
      refine ⟨rfl, (fun cause same => nomatch shaped.symm.trans same), fun shape same index => ?_⟩
      cases shaped.symm.trans same
      obtain ⟨plan, planned⟩ := exists_plan_of_measured accepted measured index
      obtain ⟨found, launch, later, sameExtents, launches, leading⟩ := opens_of_plan planned
      cases measured.symm.trans sameExtents
      refine ⟨plan, launch, later, planned, launches, ?_⟩
      rw [leading, Shape.ofExtents_unsigned (extents_lt measured)]

/-- All variants of an operation run on the same shape. -/
theorem runsOn_of_accepted (accepted : ofProfile operation profile = .ok variant)
    (otherAccepted : ofProfile operation otherProfile = .ok other) (batch : Batch) :
    variant.RunsOn batch (other.sizes batch) := by
  obtain ⟨computes, -⟩ := ofProfile_eq_ok_iff.1 accepted
  obtain ⟨otherComputes, -⟩ := ofProfile_eq_ok_iff.1 otherAccepted
  have same : variant.sizes batch = other.sizes batch := by
    rw [sizes_eq, sizes_eq, extents_congr computes otherComputes]
  rw [← same]
  exact runsOn_sizes accepted batch

end Variant

/-! ### Models -/

variable {operation : Operation} {profile baselineProfile : List Int} {variant baseline : Variant}

/-- Two variants of one operation measure a batch alike, stop for the same cause, and begin
with a launch for the same shape. An execution that has selected one of them by the shape that
the other, the baseline, has measured, submits first a launch for that shape. -/
theorem variants_share_shape (accepted : Variant.ofProfile operation profile = .ok variant)
    (baselineAccepted : Variant.ofProfile operation baselineProfile = .ok baseline)
    (batch : Batch) :
    variant.RunsOn batch (baseline.sizes batch) ∧ baseline.RunsOn batch (variant.sizes batch) ∧
      ∀ (σ : Type) (run after : ModelRun σ) (bypassPredictor force : Bool) (selection : Selection),
        run.model.variants[0]? = some baseline →
          run.model.variants[selection.variant]? = some variant →
            Model.execute batch bypassPredictor force run = (.ok selection, after) →
              ∃ shape launch later, baseline.sizes batch = .ok shape ∧
                run.model.select shape bypassPredictor = .ok selection ∧
                (Call.execute batch bypassPredictor force).submissions run = launch :: later ∧
                launch.variant = selection.variant ∧
                Argument.leadingSizes launch.arguments = shape.sizes.map Size.unsigned := by
  have runsOn := Variant.runsOn_of_accepted accepted baselineAccepted batch
  refine ⟨runsOn, Variant.runsOn_of_accepted baselineAccepted accepted batch, ?executed⟩
  case executed =>
    intro σ run after bypassPredictor force selection first chosen executed
    obtain ⟨-, key, obtained, zeroth, shape, obtains, stillFirst, sized, selected, -⟩ :=
      Model.execute_succeeds_iff.1 executed
    obtain ⟨sameVariants, -⟩ := Model.of_setup (Model.setup_of_obtained obtains)
    have sameFirst : obtained.model.variants[0]? = some baseline :=
      (congrArg (·[0]?) sameVariants).trans first
    cases stillFirst.symm.trans sameFirst
    obtain ⟨found, plan, program, stands, planned, submitted⟩ :=
      Call.submissions_of_executed executed
    cases stands.symm.trans chosen
    obtain ⟨own, launch, later, ownPlanned, launches, leading⟩ :=
      runsOn.launches shape sized selection.variant
    cases planned.symm.trans ownPlanned
    rw [launches, List.map_cons] at submitted
    exact ⟨shape, _, _, sized, selected, submitted, rfl, leading⟩

/-- An update in vectors of four runs on the length that an update of single elements has
measured. -/
theorem stretchings_share_shape :
    ∃ narrow wide, Variant.ofProfile .vectorAxpy [1, 64, 128, 1] = .ok narrow ∧
      Variant.ofProfile .vectorAxpy [4, 32, 16, 2] = .ok wide ∧
      narrow.sizes (.stretching 8) = .ok ⟨[8]⟩ ∧ wide.sizes (.stretching 8) = .ok ⟨[8]⟩ ∧
      ∃ plan launch later, wide.plan 1 (.stretching 8) = .ok plan ∧
        plan.launches = launch :: later ∧ Argument.leadingSizes launch.arguments = [8] := by
  have narrowAccepted : Variant.ofProfile .vectorAxpy [1, 64, 128, 1] =
      .ok (.vectorUpdate ⟨1, 64, 128, .strided⟩) := rfl
  have wideAccepted : Variant.ofProfile .vectorAxpy [4, 32, 16, 2] =
      .ok (.vectorUpdate ⟨4, 32, 16, .contiguous⟩) := rfl
  have measured : (Variant.vectorUpdate ⟨1, 64, 128, .strided⟩).sizes (.stretching 8) =
      .ok ⟨[8]⟩ := bind_eq_ok_iff.2 ⟨8, Variant.stretching_length 8, rfl⟩
  obtain ⟨runsOn, -, -⟩ := variants_share_shape wideAccepted narrowAccepted (.stretching 8)
  exact ⟨_, _, narrowAccepted, wideAccepted, measured, runsOn.sizes.trans measured,
    runsOn.launches _ measured 1⟩

end KernelTuner
