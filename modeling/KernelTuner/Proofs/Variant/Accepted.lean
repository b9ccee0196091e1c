import KernelTuner.Proofs.Outcome
import KernelTuner.Variant.Profile
import Mathlib.Tactic.MkIffOfInductiveProp

/-!
Contract: what an accepted profile promises.

Owns: the parameters that a profile may set, for each kind of variant; and
`ofProfile_eq_ok_iff`, by which a profile is accepted exactly when it lists such parameters,
and then yields the variant that has them. Positive and bounded sizes of accepted variants
are read off from it.
-/

set_option autoImplicit false

namespace KernelTuner

/-! ### Checks -/

/-- A size that a profile may set. -/
def Size.Counted (size : Nat) : Prop := 1 ≤ size ∧ size ≤ kernelLimit

open Size (Counted)

section Checks

variable {α : Type} {result : α}

theorem profileSize_eq_ok_iff {quantity : String} {value : Int} {size : Nat} :
    profileSize quantity value = .ok size ↔ Counted size ∧ value = size := by
  unfold profileSize Counted
  split
  · simp only [Except.ok.injEq]
    omega
  · simp only [refuse_ne_ok, false_iff]
    omega

theorem profileSize_bind_iff {quantity : String} {value : Int} {rest : Nat → Except Error α} :
    (profileSize quantity value >>= rest) = .ok result ↔
      ∃ size : Nat, Counted size ∧ value = size ∧ rest size = .ok result := by
  simp only [bind_eq_ok_iff, profileSize_eq_ok_iff, and_assoc]

theorem ofIndex_bind_iff {index : Int} {rest : Fetch → Except Error α} :
    (Fetch.ofIndex index >>= rest) = .ok result ↔
      ∃ policy : Fetch, index = policy.index ∧ rest policy = .ok result := by
  simp only [bind_eq_ok_iff, Fetch.ofIndex_eq_ok_iff]

theorem checkSimdWidth_bind_iff {width : Nat} {rest : Unit → Except Error α} :
    (checkSimdWidth width >>= rest) = .ok result ↔ width ∈ simdWidths ∧ rest () = .ok result := by
  rw [bind_eq_ok_iff]
  unfold checkSimdWidth
  split
  · next known => simp [known, Unique.exists_iff]
  · next unknown => simp [unknown]

theorem checkedProduct_bind_iff {quantity : String} {left right : Nat}
    {rest : Nat → Except Error α} :
    (checkedProduct quantity [left, right] >>= rest) = .ok result ↔
      left * right ≤ Size.kernelLimit ∧ rest (left * right) = .ok result := by
  have factors : [left, right].foldl (· * ·) 1 = left * right := by simp
  rw [bind_eq_ok_iff]
  simp only [checkedProduct, factors]
  split
  · next small => simp [small]
  · next large => simp [large]

theorem checkedRemainder_bind_iff {value divisor : Nat} {rest : Nat → Except Error α} :
    (checkedRemainder value divisor >>= rest) = .ok result ↔
      divisor ≠ 0 ∧ rest (value % divisor) = .ok result := by
  rw [bind_eq_ok_iff]
  unfold checkedRemainder
  split
  · next zero => simp [zero]
  · next positive => simp [positive]

/-- What comes behind a guard is reached when its condition does not hold. -/
theorem guarded_eq_ok_iff {condition : Prop} [Decidable condition] {cause : InvalidArgument}
    {rest : Except Error α} :
    (if condition then (refuse cause : Except Error PUnit) >>= fun _ => rest else rest) =
        .ok result ↔
      ¬ condition ∧ rest = .ok result := by
  split
  · next holds => simp [holds, bind_eq_ok_iff]
  · next fails => simp [fails]

end Checks

/-! ### Sizes -/

/-- Sizes by which the launches of a matrix product divide. -/
structure MatrixProduct.Sized (params : MatrixProduct) : Prop where
  localSize0 : 0 < params.localSize0
  localSize1 : 0 < params.localSize1
  perItemM : 0 < params.perItemM
  perItemN : 0 < params.perItemN
  tileK : 0 < params.tileK
  tileM_le : params.tileM ≤ Size.kernelLimit
  tileN_le : params.tileN ≤ Size.kernelLimit

/-- A variant with work groups, and with tiles that a kernel can count. -/
def Variant.Sized : Variant → Prop
  | vectorUpdate params => 0 < params.localSize0
  | innerProduct params => 0 < params.localSize0
  | matrixUpdate params => 0 < params.localSize0 ∧ 0 < params.localSize1
  | matrixVector params => 0 < params.localSize0 ∧ 0 < params.localSize1
  | matrixProduct params => params.Sized

/-- A variant that sets a number of work groups has some, and an inner product as few as a
kernel can count. -/
def Variant.Grouped : Variant → Prop
  | vectorUpdate params => 0 < params.groups0
  | innerProduct params => 0 < params.groups0 ∧ params.groups0 ≤ Size.kernelLimit
  | matrixUpdate params => 0 < params.groups0 ∧ 0 < params.groups1
  | matrixVector params => 0 < params.groups0
  | matrixProduct _ => True

/-! ### Parameters -/

namespace Variant

def simdWidth : Variant → Nat
  | vectorUpdate params => params.simdWidth
  | innerProduct params => params.simdWidth
  | matrixUpdate params => params.simdWidth
  | matrixVector params => params.simdWidth
  | matrixProduct params => params.simdWidth

/-- The sizes among the parameters, in profile order. -/
def listedSizes : Variant → List Nat
  | vectorUpdate params => [params.simdWidth, params.localSize0, params.groups0]
  | innerProduct params => [params.simdWidth, params.localSize0, params.groups0]
  | matrixUpdate params =>
      [params.simdWidth, params.localSize0, params.localSize1, params.groups0, params.groups1]
  | matrixVector params => [params.simdWidth, params.localSize0, params.localSize1, params.groups0]
  | matrixProduct params =>
      [params.simdWidth, params.localSize0, params.tileK, params.localSize1, params.perItemM,
        params.perItemK, params.perItemN, params.localFetch0, params.localFetch1]

/-- Products of the sizes that have to be sizes of the kernel, in the order of the checks. -/
def products : Variant → List Nat
  | vectorUpdate params => [params.localSize0 * params.groups0]
  | innerProduct params => [params.localSize0 * params.groups0]
  | matrixUpdate params =>
      [params.localSize0 * params.localSize1, params.localSize0 * params.groups0,
        params.localSize1 * params.groups1]
  | matrixVector params =>
      [params.localSize0 * params.localSize1, params.localSize0 * params.groups0]
  | matrixProduct params =>
      [params.tileM, params.tileN, params.localSize0 * params.localSize1,
        params.localFetch0 * params.localFetch1]

/-- A matrix product walks its tiles in whole steps, and stages them with all its work items. -/
def Tiles : Variant → Prop
  | matrixProduct params =>
      params.perItemK ≠ 0 ∧ params.perItemK ∣ params.tileK ∧
        (params.staged = true →
          params.localFetch0 * params.localFetch1 = params.localSize0 * params.localSize1)
  | _ => True

/-- Parameters that pass the checks. -/
@[mk_iff] structure Checked (variant : Variant) : Prop where
  width : variant.simdWidth ∈ simdWidths
  products : ∀ product ∈ variant.products, product ≤ Size.kernelLimit
  tiles : variant.Tiles

theorem check_eq_ok_iff {variant checked : Variant} :
    variant.check = .ok checked ↔ variant.Checked ∧ variant = checked := by
  rw [checked_iff]
  cases variant with
  | vectorUpdate params =>
      simp only [check, VectorUpdate.check, bind_assoc, pure_bind, checkSimdWidth_bind_iff,
        checkedProduct_bind_iff, pure_eq_ok_iff, simdWidth, products, Tiles, List.forall_mem_cons,
        List.not_mem_nil, false_implies, implies_true, and_true, and_assoc]
  | innerProduct params =>
      simp only [check, InnerProduct.check, bind_assoc, pure_bind, checkSimdWidth_bind_iff,
        checkedProduct_bind_iff, pure_eq_ok_iff, simdWidth, products, Tiles, List.forall_mem_cons,
        List.not_mem_nil, false_implies, implies_true, and_true, and_assoc]
  | matrixUpdate params =>
      simp only [check, MatrixUpdate.check, bind_assoc, pure_bind, checkSimdWidth_bind_iff,
        checkedProduct_bind_iff, pure_eq_ok_iff, simdWidth, products, Tiles, List.forall_mem_cons,
        List.not_mem_nil, false_implies, implies_true, and_true, and_assoc]
  | matrixVector params =>
      simp only [check, MatrixVector.check, bind_assoc, pure_bind, checkSimdWidth_bind_iff,
        checkedProduct_bind_iff, pure_eq_ok_iff, simdWidth, products, Tiles, List.forall_mem_cons,
        List.not_mem_nil, false_implies, implies_true, and_true, and_assoc]
  | matrixProduct params =>
      rw [check, bind_eq_ok_iff]
      simp only [MatrixProduct.check, checkSimdWidth_bind_iff, checkedRemainder_bind_iff,
        checkedProduct_bind_iff, guarded_eq_ok_iff, pure_eq_ok_iff, not_not, not_and,
        ← Nat.dvd_iff_mod_eq_zero, simdWidth, products, Tiles, MatrixProduct.tileM,
        MatrixProduct.tileN, List.forall_mem_cons]
      grind

/-- Parameters that a profile may set. -/
structure Valid (variant : Variant) : Prop extends variant.Checked where
  counted : ∀ size ∈ variant.listedSizes, Counted size

end Variant

/-- The axis along which a matrix-vector product reduces its matrix. -/
def Operation.axis? : Operation → Option Axis
  | rowWiseReduction => some .rows
  | colWiseReduction => some .columns
  | _ => none

namespace Variant

/-- The variant is of the kind, and has the axis or the transpositions, of the operation. -/
def Computes : Variant → Operation → Prop
  | vectorUpdate _, operation => operation = .scalarAxpy ∨ operation = .vectorAxpy
  | innerProduct _, operation => operation = .reduction
  | matrixUpdate _, operation => operation = .matrixAxpy
  | matrixVector params, operation => operation.axis? = some params.axis
  | matrixProduct params, operation =>
      operation.transposition? = some (params.transposedA, params.transposedB)

/-! ### Profiles -/

variable {operation : Operation} {variant : Variant} {profile : List Int}

theorem ofProfile_of_axis? {axis : Axis} (along : operation.axis? = some axis) :
    ofProfile operation profile = ofMatrixVectorProfile operation axis profile := by
  cases operation <;> cases along <;> rfl

theorem ofProfile_of_transposition? {transposedA transposedB : Bool}
    (transposed : operation.transposition? = some (transposedA, transposedB)) :
    ofProfile operation profile =
      ofMatrixProductProfile operation transposedA transposedB profile := by
  cases operation <;> cases transposed <;> rfl

theorem valid_of_ofLinearProfile
    (linear : operation = .scalarAxpy ∨ operation = .vectorAxpy ∨ operation = .reduction)
    (accepted : ofLinearProfile operation profile = .ok variant) :
    variant.Computes operation ∧ variant.Valid ∧ variant.profile = profile := by
  unfold ofLinearProfile at accepted
  split at accepted
  · simp only [profileSize_bind_iff, ofIndex_bind_iff] at accepted
    obtain ⟨_, width, rfl, _, localSize0, rfl, _, groups0, rfl, _, rfl, accepted⟩ := accepted
    split at accepted
    · obtain ⟨passes, rfl⟩ := check_eq_ok_iff.1 accepted
      exact ⟨rfl, ⟨passes, by simp [listedSizes, width, localSize0, groups0]⟩, rfl⟩
    · next other =>
        obtain ⟨passes, rfl⟩ := check_eq_ok_iff.1 accepted
        have update : operation = .scalarAxpy ∨ operation = .vectorAxpy := by tauto
        exact ⟨update, ⟨passes, by simp [listedSizes, width, localSize0, groups0]⟩, rfl⟩
  · simp at accepted

theorem valid_of_ofMatrixUpdateProfile
    (accepted : ofMatrixUpdateProfile operation profile = .ok variant) :
    variant.Computes .matrixAxpy ∧ variant.Valid ∧ variant.profile = profile := by
  unfold ofMatrixUpdateProfile at accepted
  split at accepted
  · simp only [profileSize_bind_iff, ofIndex_bind_iff] at accepted
    obtain ⟨_, width, rfl, _, localSize0, rfl, _, localSize1, rfl, _, groups0, rfl, _, groups1,
      rfl, _, rfl, accepted⟩ := accepted
    obtain ⟨passes, rfl⟩ := check_eq_ok_iff.1 accepted
    exact ⟨rfl, ⟨passes, by simp [listedSizes, width, localSize0, localSize1, groups0, groups1]⟩,
      rfl⟩
  · simp at accepted

theorem valid_of_ofMatrixVectorProfile {axis : Axis} (along : operation.axis? = some axis)
    (accepted : ofMatrixVectorProfile operation axis profile = .ok variant) :
    variant.Computes operation ∧ variant.Valid ∧ variant.profile = profile := by
  unfold ofMatrixVectorProfile at accepted
  split at accepted
  · simp only [profileSize_bind_iff, ofIndex_bind_iff] at accepted
    obtain ⟨_, width, rfl, _, localSize0, rfl, _, localSize1, rfl, _, groups0, rfl, _, rfl,
      accepted⟩ := accepted
    obtain ⟨passes, rfl⟩ := check_eq_ok_iff.1 accepted
    exact ⟨along, ⟨passes, by simp [listedSizes, width, localSize0, localSize1, groups0]⟩, rfl⟩
  · simp at accepted

theorem valid_of_ofMatrixProductProfile {transposedA transposedB : Bool}
    (transposed : operation.transposition? = some (transposedA, transposedB))
    (accepted : ofMatrixProductProfile operation transposedA transposedB profile = .ok variant) :
    variant.Computes operation ∧ variant.Valid ∧ variant.profile = profile := by
  unfold ofMatrixProductProfile at accepted
  split at accepted
  · simp only [profileSize_bind_iff, ofIndex_bind_iff] at accepted
    obtain ⟨_, width, rfl, _, localSize0, rfl, _, tileK, rfl, _, localSize1, rfl, _, perItemM, rfl,
      _, perItemK, rfl, _, perItemN, rfl, _, rfl, _, rfl, _, localFetch0, rfl, _, localFetch1, rfl,
      accepted⟩ := accepted
    obtain ⟨passes, rfl⟩ := check_eq_ok_iff.1 accepted
    exact ⟨transposed, ⟨passes, by simp [listedSizes, width, localSize0, tileK, localSize1,
      perItemM, perItemK, perItemN, localFetch0, localFetch1]⟩, rfl⟩
  · simp at accepted

/-- What is accepted is a valid variant for the operation, and the profile lists it. -/
theorem valid_of_ofProfile (accepted : ofProfile operation profile = .ok variant) :
    variant.Computes operation ∧ variant.Valid ∧ variant.profile = profile := by
  unfold ofProfile at accepted
  split at accepted
  · exact valid_of_ofLinearProfile (.inl rfl) accepted
  · exact valid_of_ofLinearProfile (.inr (.inl rfl)) accepted
  · exact valid_of_ofLinearProfile (.inr (.inr rfl)) accepted
  · exact valid_of_ofMatrixUpdateProfile accepted
  · exact valid_of_ofMatrixVectorProfile rfl accepted
  · exact valid_of_ofMatrixVectorProfile rfl accepted
  all_goals exact valid_of_ofMatrixProductProfile rfl accepted

/-- A valid variant is read back from its profile. -/
theorem ofProfile_of_valid (computes : variant.Computes operation) (valid : variant.Valid) :
    ofProfile operation variant.profile = .ok variant := by
  have counted := valid.counted
  have checked : variant.check = .ok variant := check_eq_ok_iff.2 ⟨valid.toChecked, rfl⟩
  cases variant with
  | vectorUpdate params =>
      simp only [listedSizes, List.forall_mem_cons] at counted
      obtain rfl | rfl := computes
      all_goals
        simp only [Variant.profile, ofProfile, ofLinearProfile, profileSize_bind_iff,
          ofIndex_bind_iff]
        exact ⟨_, counted.1, rfl, _, counted.2.1, rfl, _, counted.2.2.1, rfl, _, rfl, checked⟩
  | innerProduct params =>
      simp only [listedSizes, List.forall_mem_cons] at counted
      obtain rfl := computes
      simp only [Variant.profile, ofProfile, ofLinearProfile, profileSize_bind_iff,
        ofIndex_bind_iff]
      exact ⟨_, counted.1, rfl, _, counted.2.1, rfl, _, counted.2.2.1, rfl, _, rfl, checked⟩
  | matrixUpdate params =>
      simp only [listedSizes, List.forall_mem_cons] at counted
      obtain rfl := computes
      simp only [Variant.profile, ofProfile, ofMatrixUpdateProfile, profileSize_bind_iff,
        ofIndex_bind_iff]
      obtain ⟨width, local0, local1, groups0, groups1, -⟩ := counted
      exact ⟨_, width, rfl, _, local0, rfl, _, local1, rfl, _, groups0, rfl, _, groups1, rfl, _,
        rfl, checked⟩
  | matrixVector params =>
      simp only [listedSizes, List.forall_mem_cons] at counted
      simp only [Variant.profile, ofProfile_of_axis? computes, ofMatrixVectorProfile,
        profileSize_bind_iff, ofIndex_bind_iff]
      obtain ⟨width, local0, local1, groups0, -⟩ := counted
      exact ⟨_, width, rfl, _, local0, rfl, _, local1, rfl, _, groups0, rfl, _, rfl, checked⟩
  | matrixProduct params =>
      simp only [listedSizes, List.forall_mem_cons] at counted
      simp only [Variant.profile, ofProfile_of_transposition? computes, ofMatrixProductProfile,
        profileSize_bind_iff, ofIndex_bind_iff]
      obtain ⟨width, local0, tileK, local1, itemM, itemK, itemN, fetch0, fetch1, -⟩ := counted
      exact ⟨_, width, rfl, _, local0, rfl, _, tileK, rfl, _, local1, rfl, _, itemM, rfl, _, itemK,
        rfl, _, itemN, rfl, _, rfl, _, rfl, _, fetch0, rfl, _, fetch1, rfl, checked⟩

/-- A profile is accepted when it lists a valid variant for the operation. -/
theorem ofProfile_eq_ok_iff :
    ofProfile operation profile = .ok variant ↔
      variant.Computes operation ∧ variant.Valid ∧ variant.profile = profile := by
  constructor
  · exact valid_of_ofProfile
  · rintro ⟨computes, valid, rfl⟩
    exact ofProfile_of_valid computes valid

/-- Every variant that a description can list is sized. -/
theorem ofProfile_sized (accepted : ofProfile operation profile = .ok variant) :
    variant.Sized := by
  obtain ⟨-, ⟨passes, counted⟩, -⟩ := ofProfile_eq_ok_iff.1 accepted
  cases variant <;> simp only [listedSizes, List.forall_mem_cons, Counted] at counted
  case matrixProduct params =>
    have tileM := passes.products params.tileM (by simp [products])
    have tileN := passes.products params.tileN (by simp [products])
    exact {
      localSize0 := by omega
      localSize1 := by omega
      perItemM := by omega
      perItemN := by omega
      tileK := by omega
      tileM_le := tileM
      tileN_le := tileN }
  all_goals simp only [Sized]; omega

/-- Every variant that a description can list has work groups. -/
theorem ofProfile_grouped (accepted : ofProfile operation profile = .ok variant) :
    variant.Grouped := by
  obtain ⟨-, ⟨-, counted⟩, -⟩ := ofProfile_eq_ok_iff.1 accepted
  cases variant <;> simp only [listedSizes, List.forall_mem_cons, Counted] at counted
  case matrixProduct => trivial
  all_goals simp only [Grouped]; omega

end Variant

end KernelTuner
