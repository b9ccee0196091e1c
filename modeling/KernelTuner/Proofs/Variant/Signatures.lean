import KernelTuner.Proofs.Variant.Planning
import Mathlib.Algebra.Group.Nat.Defs

/-!
Contract: launch arguments against the signatures of kernels.

Owns: when an argument fits a parameter, and when it also meets the element type there;
and `plan_passes`, by which the launches of a plan fit the kernels that were emitted from
any batch of the same name, and which of them meet the types of these kernels.
-/

set_option autoImplicit false

namespace KernelTuner

open Kernel (Parameter)

/-! ### Arguments and parameters -/

/-- The batch has a buffer of this identity, with elements of this type. -/
def Batch.BufferOf (batch : Batch) (id : BufferId) (type : ElementType) : Prop :=
  ∃ handle, batch.Holds handle ∧ handle.id = id ∧ handle.elementType = type

namespace Argument

/-- Whether a parameter takes arguments of this kind: sizes by value, buffers and the
workspace through pointers, host scalars by value. -/
def Fits : Argument → Parameter → Prop
  | .size _, .size _ => True
  | .buffer _, .pointer _ _ _ => True
  | .workspace _ _, .pointer _ _ _ => True
  | .scalar _, .scalar _ _ => True
  | _, _ => False

/-- Whether the argument consists of elements of this type: those of the buffer of the
batch, or one for each of the work groups that the workspace is for. -/
def ConsistsOf (batch : Batch) (groups : Nat) (type : ElementType) : Argument → Prop
  | .buffer id => batch.BufferOf id type
  | .workspace _ bytes => type.bytes * groups = bytes
  | _ => True

/-- Whether the argument is, for a kernel of this type, what it is for the batch: a buffer
of that type, or a workspace whose elements are as large as those of the batch. -/
def OfType (batch : Batch) (type : ElementType) : Argument → Prop
  | .buffer id => batch.BufferOf id type
  | .workspace _ _ => type.bytes = batch.elementType.bytes
  | _ => True

/-- Whether a pointer is to the elements that its argument consists of. -/
def Typed (batch : Batch) (groups : Nat) (argument : Argument) : Parameter → Prop
  | .pointer _ type _ => argument.ConsistsOf batch groups type
  | _ => True

/-- An argument that a parameter takes, of the elements that it expects. -/
def Meets (batch : Batch) (groups : Nat) (argument : Argument) (parameter : Parameter) : Prop :=
  argument.Fits parameter ∧ argument.Typed batch groups parameter

end Argument

/-- The work groups of a launch. -/
def PlannedLaunch.groups (launch : PlannedLaunch) : Nat :=
  (List.zipWith (· / ·) launch.globalSize launch.localSize).prod

/-- The work groups of the first launch, each of which leaves one element in the
workspace. -/
def LaunchPlan.groups (plan : LaunchPlan) : Nat :=
  ((plan.launches.head?).map PlannedLaunch.groups).getD 0

/-- The launch names the kernel and has an argument for each of its parameters. -/
structure PlannedLaunch.FitsKernel (launch : PlannedLaunch) (kernel : Kernel) : Prop where
  name : kernel.name = launch.kernel
  fits : List.Forall₂ Argument.Fits launch.arguments kernel.parameters

/-- Whether a parameter is a pointer to this type, or no pointer. -/
def Kernel.Parameter.PointsTo (type : ElementType) : Parameter → Prop
  | .pointer _ element _ => element = type
  | _ => True

/-- Where all pointers are to one type, this type decides whether the arguments meet the
parameters. -/
theorem Argument.forall₂_meets_iff {batch : Batch} {groups : Nat} {type : ElementType}
    {arguments : List Argument} {parameters : List Parameter}
    (fits : List.Forall₂ Fits arguments parameters)
    (pointers : ∀ parameter ∈ parameters, parameter.PointsTo type) :
    List.Forall₂ (Meets batch groups) arguments parameters ↔
      ∀ argument ∈ arguments, argument.ConsistsOf batch groups type := by
  induction fits with
  | nil => simp
  | @cons argument parameter arguments parameters fitsFirst _ inductionHypothesis =>
      obtain ⟨pointsFirst, pointsOthers⟩ := List.forall_mem_cons.1 pointers
      have first : argument.Meets batch groups parameter ↔
          argument.ConsistsOf batch groups type := by
        cases parameter with
        | pointer readOnly element name =>
            cases pointsFirst
            exact and_iff_right fitsFirst
        | size name =>
            cases argument <;> first | exact fitsFirst.elim | exact and_iff_right fitsFirst
        | scalar element name =>
            cases argument <;> first | exact fitsFirst.elim | exact and_iff_right fitsFirst
      rw [List.forall₂_cons, List.forall_mem_cons, first, inductionHypothesis pointsOthers]

/-! ### Element-wise kernels -/

/-- Each leaf is passed where the parameter for it is declared. -/
theorem Bindings.arguments_meet {batch : Batch} {groups : Nat} (bindings : Bindings)
    (held : ∀ handle, .buffer handle ∈ bindings.parameters → batch.Holds handle) :
    List.Forall₂ (Argument.Meets batch groups) bindings.arguments bindings.declarations := by
  obtain ⟨parameters⟩ := bindings
  unfold arguments declarations
  generalize 0 = start
  induction parameters generalizing start with
  | nil => exact .nil
  | cons leaf rest inductionHypothesis =>
      have others := inductionHypothesis
        (fun handle member => held handle (List.mem_cons_of_mem _ member)) (start + 1)
      rw [List.zipIdx_cons]
      refine .cons ?_ others
      cases leaf with
      | buffer handle => exact ⟨trivial, handle, held handle List.mem_cons_self, rfl, rfl⟩
      | scalar elementType value => exact ⟨trivial, trivial⟩

namespace Variant

variable {variant : Variant} {index : Nat} {emitted launched : Batch} {name : Fingerprint}
  {emission : Emission} {plan : LaunchPlan}

theorem sizes_of_plan (elementWise : variant.IsElementWise)
    (planned : variant.plan index launched = .ok plan) :
    ∃ shape, variant.sizes launched = .ok shape := by
  cases variant with
  | vectorUpdate params =>
      obtain ⟨length, checked, _⟩ := bind_eq_ok_iff.1 planned
      exact ⟨_, bind_eq_ok_iff.2 ⟨length, checked, rfl⟩⟩
  | matrixUpdate params =>
      obtain ⟨dims, checked, _⟩ := bind_eq_ok_iff.1 planned
      exact ⟨_, bind_eq_ok_iff.2 ⟨dims, checked, rfl⟩⟩
  | innerProduct params => exact elementWise.elim
  | matrixVector params => exact elementWise.elim
  | matrixProduct params => exact elementWise.elim

theorem sizes_meet (elementWise : variant.IsElementWise) {counts : List Nat} {groups : Nat}
    (counted : counts.length = variant.sizeParameters.length) :
    List.Forall₂ (Argument.Meets launched groups) (counts.map .size) variant.sizeParameters := by
  have meets (value : Nat) (name : String) :
      Argument.Meets launched groups (.size value) (.size name) := ⟨trivial, trivial⟩
  cases variant with
  | vectorUpdate params =>
      obtain ⟨length, rfl⟩ := List.length_eq_one_iff.1 counted
      exact .cons (meets _ _) .nil
  | matrixUpdate params =>
      obtain ⟨rows, columns, rfl⟩ := List.length_eq_two.1 counted
      exact .cons (meets _ _) (.cons (meets _ _) .nil)
  | innerProduct params => exact elementWise.elim
  | matrixVector params => exact elementWise.elim
  | matrixProduct params => exact elementWise.elim

/-- Element-wise kernels meet the launches of every batch of their name, because a name
shows the element type of every leaf. -/
theorem plan_meets (elementWise : variant.IsElementWise)
    (emittedName : emitted.programName = .ok name) (launchedName : launched.programName = .ok name)
    (emits : variant.emit index emitted = .ok emission)
    (planned : variant.plan index launched = .ok plan) :
    List.Forall₂ (fun launch kernel => kernel.name = launch.kernel ∧
        List.Forall₂ (Argument.Meets launched plan.groups) launch.arguments kernel.parameters)
      plan.launches (emission.kernels plan.slot) := by
  obtain ⟨shape, accepts⟩ := sizes_of_plan elementWise planned
  obtain ⟨_, _, ⟨kernel, primary, _, kernelName, serves⟩, launch, counts, ownPlan, launchName,
    counted, passed⟩ := emit_serves_launch elementWise emittedName launchedName emits accepts
  rw [ownPlan] at planned
  cases planned
  have kernels : emission.kernels .primary = [kernel] := primary
  rw [kernels]
  refine .cons ⟨kernelName.trans launchName.symm, ?_⟩ .nil
  rw [passed, serves.parameters]
  refine List.rel_append (sizes_meet elementWise counted) (Bindings.arguments_meet _ ?_)
  intro handle member
  exact Batch.holds_of_leaf (Batch.leaf_of_parameter member)

/-! ### Kernels of one type -/

theorem fits_size (value : Nat) (name : String) : (Argument.size value).Fits (.size name) := trivial

theorem fits_buffer (id : BufferId) (readOnly : Bool) (type : ElementType) (name : String) :
    (Argument.buffer id).Fits (.pointer readOnly type name) := trivial

theorem fits_workspace (slot bytes : Nat) (readOnly : Bool) (type : ElementType) (name : String) :
    (Argument.workspace slot bytes).Fits (.pointer readOnly type name) := trivial

/-- A plan fits the kernels of its slot, whatever type they are for. -/
theorem typed_plan_fits (typed : ¬ variant.IsElementWise) (type : ElementType)
    (planned : variant.plan index launched = .ok plan) :
    List.Forall₂ PlannedLaunch.FitsKernel plan.launches
      ((variant.typedEmission index type).kernels plan.slot) := by
  cases variant with
  | vectorUpdate params => exact absurd trivial typed
  | matrixUpdate params => exact absurd trivial typed
  | innerProduct params =>
      obtain ⟨operands, _, planned⟩ := bind_eq_ok_iff.1 planned
      cases planned
      exact .cons ⟨rfl, .cons (fits_size _ _) (.cons (fits_buffer _ _ _ _)
          (.cons (fits_buffer _ _ _ _) (.cons (fits_workspace _ _ _ _ _) .nil)))⟩
        (.cons ⟨rfl, .cons (fits_size _ _) (.cons (fits_workspace _ _ _ _ _)
          (.cons (fits_buffer _ _ _ _) .nil))⟩ .nil)
  | matrixVector params =>
      obtain ⟨operands, _, planned⟩ := bind_eq_ok_iff.1 planned
      cases planned
      exact .cons ⟨rfl, .cons (fits_size _ _) (.cons (fits_size _ _) (.cons (fits_buffer _ _ _ _)
        (.cons (fits_buffer _ _ _ _) (.cons (fits_buffer _ _ _ _) .nil))))⟩ .nil
  | matrixProduct params =>
      obtain ⟨operands, _, planned⟩ := bind_eq_ok_iff.1 planned
      obtain ⟨⟨slot, entry, rows, columns⟩, path, planned⟩ := bind_eq_ok_iff.1 planned
      cases planned
      have fits (name : String) (guarded : Bool) : List.Forall₂ Argument.Fits
          [.size operands.m, .size operands.n, .size operands.k, .buffer operands.c.id,
            .buffer operands.a.id, .buffer operands.b.id]
          (params.kernel name guarded type).parameters :=
        .cons (fits_size _ _) (.cons (fits_size _ _) (.cons (fits_size _ _)
          (.cons (fits_buffer _ _ _ _) (.cons (fits_buffer _ _ _ _)
            (.cons (fits_buffer _ _ _ _) .nil)))))
      rcases MatrixProduct.path_cases path with ⟨rfl, rfl, _⟩ | ⟨rfl, rfl⟩
      · exact .cons ⟨rfl, fits _ _⟩ .nil
      · exact .cons ⟨rfl, fits _ _⟩ .nil

/-- All pointers of a kernel that is not element-wise are to one type. -/
theorem typed_pointers (typed : ¬ variant.IsElementWise) (index : Nat) (type : ElementType)
    (slot : Slot) :
    ∀ kernel ∈ (variant.typedEmission index type).kernels slot,
      ∀ parameter ∈ kernel.parameters, parameter.PointsTo type := by
  cases variant with
  | vectorUpdate params => exact absurd trivial typed
  | matrixUpdate params => exact absurd trivial typed
  | innerProduct params =>
      cases slot with
      | primary =>
          simp [typedEmission, Emission.kernels, InnerProduct.firstPass, InnerProduct.secondPass,
            Parameter.PointsTo]
      | fallback => exact List.forall_mem_nil _
  | matrixVector params =>
      cases slot with
      | primary =>
          simp [typedEmission, Emission.kernels, MatrixVector.kernel, Parameter.PointsTo]
      | fallback => exact List.forall_mem_nil _
  | matrixProduct params =>
      cases slot <;>
        simp [typedEmission, Emission.kernels, MatrixProduct.kernel, Parameter.PointsTo]

theorem no_workspace_of_update (elementWise : variant.IsElementWise)
    (planned : variant.plan index launched = .ok plan) {launch : PlannedLaunch}
    (member : launch ∈ plan.launches) (slot bytes : Nat) :
    .workspace slot bytes ∉ launch.arguments := by
  obtain ⟨shape, accepts⟩ := sizes_of_plan elementWise planned
  obtain ⟨only, counts, ownPlan, _, _, passed⟩ := plan_elementWise elementWise accepts
  rw [ownPlan] at planned
  cases planned
  cases List.mem_singleton.1 member
  rw [passed, List.mem_append, List.mem_map]
  rintro (⟨count, _, size⟩ | leaf)
  · cases size
  · obtain ⟨leaf, _, same⟩ := List.mem_map.1 leaf
    cases leaf <;> cases same

/-- The partial sums of as many groups as a kernel can count fit a machine word. -/
theorem partialsBytes_eq {params : InnerProduct} (few : params.groups0 ≤ Size.kernelLimit)
    (type : ElementType) : params.partialsBytes type = type.bytes * params.groups0 := by
  have limit : Size.kernelLimit * 8 < Size.wordCount := by decide
  have eight : type.bytes ≤ 8 := by cases type <;> decide
  have small := Nat.lt_of_le_of_lt (Nat.mul_le_mul few eight) limit
  rw [InnerProduct.partialsBytes, Size.word_eq_self small, Nat.mul_comm]

/-- The workspace of an inner product has room for one element of the batch in every group,
and no other plan has a workspace. -/
theorem workspace_of_plan (sized : variant.Sized) (grouped : variant.Grouped)
    (planned : variant.plan index launched = .ok plan) {launch : PlannedLaunch}
    (member : launch ∈ plan.launches) {slot bytes : Nat}
    (workspace : .workspace slot bytes ∈ launch.arguments) :
    0 < plan.groups ∧ bytes = launched.elementType.bytes * plan.groups := by
  cases variant with
  | vectorUpdate params =>
      have elementWise : (Variant.vectorUpdate params).IsElementWise := trivial
      exact absurd workspace (no_workspace_of_update elementWise planned member slot bytes)
  | matrixUpdate params =>
      have elementWise : (Variant.matrixUpdate params).IsElementWise := trivial
      exact absurd workspace (no_workspace_of_update elementWise planned member slot bytes)
  | matrixVector params =>
      obtain ⟨operands, _, planned⟩ := bind_eq_ok_iff.1 planned
      cases planned
      cases List.mem_singleton.1 member
      simp at workspace
  | matrixProduct params =>
      obtain ⟨operands, _, planned⟩ := bind_eq_ok_iff.1 planned
      obtain ⟨path, _, planned⟩ := bind_eq_ok_iff.1 planned
      cases planned
      cases List.mem_singleton.1 member
      simp at workspace
  | innerProduct params =>
      obtain ⟨operands, _, planned⟩ := bind_eq_ok_iff.1 planned
      cases planned
      have positive : 0 < params.localSize0 := sized
      obtain ⟨some, few⟩ := grouped
      have groups : params.localSize0 * params.groups0 / params.localSize0 = params.groups0 :=
        Nat.mul_div_cancel_left _ positive
      have bytesOf : bytes = params.partialsBytes launched.elementType := by
        rcases List.mem_cons.1 member with rfl | second
        · simp at workspace
          exact workspace.2
        · cases List.mem_singleton.1 second
          simp at workspace
          exact workspace.2
      simp only [LaunchPlan.groups, PlannedLaunch.groups, List.head?_cons, Option.map_some,
        Option.getD_some, List.zipWith_cons_cons, List.zipWith_nil_left, List.prod_singleton, groups]
      exact ⟨some, bytesOf.trans (partialsBytes_eq few _)⟩

theorem consistsOf_iff_ofType (sized : variant.Sized) (grouped : variant.Grouped)
    (planned : variant.plan index launched = .ok plan) {launch : PlannedLaunch}
    (member : launch ∈ plan.launches) {argument : Argument} (passed : argument ∈ launch.arguments)
    (type : ElementType) :
    argument.ConsistsOf launched plan.groups type ↔ argument.OfType launched type := by
  cases argument with
  | size value => exact Iff.rfl
  | scalar value => exact Iff.rfl
  | buffer id => exact Iff.rfl
  | workspace slot bytes =>
      obtain ⟨some, room⟩ := workspace_of_plan sized grouped planned member passed
      rw [Argument.ConsistsOf, Argument.OfType, room]
      exact Nat.mul_left_inj (Nat.ne_of_gt some)

/-- What a launch of a batch has of the kernel that was emitted for a batch of `type`: it
fits, and it meets the types of the kernel exactly when the variant is element-wise or the
launch is of that type itself. -/
structure Passes (variant : Variant) (launched : Batch) (groups : Nat) (type : ElementType)
    (launch : PlannedLaunch) (kernel : Kernel) : Prop extends launch.FitsKernel kernel where
  meets_iff : List.Forall₂ (Argument.Meets launched groups) launch.arguments kernel.parameters ↔
    variant.IsElementWise ∨ ∀ argument ∈ launch.arguments, argument.OfType launched type

/-- The launches of a plan are passed, one by one, to the kernels that were emitted for
its slot from any batch of the same name. -/
theorem plan_passes (sized : variant.Sized) (grouped : variant.Grouped)
    (emittedName : emitted.programName = .ok name) (launchedName : launched.programName = .ok name)
    (emits : variant.emit index emitted = .ok emission)
    (planned : variant.plan index launched = .ok plan) :
    List.Forall₂ (variant.Passes launched plan.groups emitted.elementType) plan.launches
      (emission.kernels plan.slot) := by
  by_cases elementWise : variant.IsElementWise
  · refine (plan_meets elementWise emittedName launchedName emits planned).imp ?_
    rintro launch kernel ⟨sameName, meets⟩
    exact ⟨⟨sameName, meets.imp fun _ _ both => both.1⟩, iff_of_true meets (.inl elementWise)⟩
  · rw [emit_typed elementWise emits]
    have fit := typed_plan_fits elementWise emitted.elementType planned
    have pointers := typed_pointers elementWise index emitted.elementType plan.slot
    rw [List.forall₂_iff_get] at fit ⊢
    refine ⟨fit.1, fun place inside within => ?_⟩
    have fitsKernel := fit.2 place inside within
    refine ⟨fitsKernel, ?_⟩
    rw [Argument.forall₂_meets_iff fitsKernel.fits (pointers _ (List.get_mem _ _)),
      or_iff_right elementWise]
    exact forall₂_congr fun argument passed =>
      consistsOf_iff_ofType sized grouped planned (List.get_mem _ _) passed _

end Variant

end KernelTuner
