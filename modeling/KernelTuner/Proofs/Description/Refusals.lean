import KernelTuner.Description
import KernelTuner.Proofs.Outcome
import KernelTuner.Proofs.Variant.Accepted
import KernelTuner.Proofs.Variant.Refusals

/-!
Contract: how the reading of a description fails.

Owns: that whatever a document holds, its reading ends in models or in a refused
argument. In particular the arithmetic on the integers of a profile always has a
result, because every size is checked before it is used.
-/

set_option autoImplicit false

namespace KernelTuner

/-! ### Profiles -/

theorem profileSize_onlyRefuses (quantity : String) (value : Int) :
    OnlyRefuses (profileSize quantity value) := by
  unfold profileSize
  split
  · exact .ok _
  · exact .refuse _

theorem Fetch.ofIndex_onlyRefuses (index : Int) : OnlyRefuses (Fetch.ofIndex index) := by
  unfold Fetch.ofIndex
  split
  · exact .ok _
  · exact .ok _
  · exact .ok _
  · exact .refuse _

namespace Variant

theorem ofLinearProfile_onlyRefuses (operation : Operation) (profile : List Int) :
    OnlyRefuses (ofLinearProfile operation profile) := by
  unfold ofLinearProfile
  split
  · refine .bind (profileSize_onlyRefuses _ _) fun _ _ => ?_
    refine .bind (profileSize_onlyRefuses _ _) fun _ _ => ?_
    refine .bind (profileSize_onlyRefuses _ _) fun _ _ => ?_
    refine .bind (Fetch.ofIndex_onlyRefuses _) fun _ _ => ?_
    split
    · exact .bind (InnerProduct.check_onlyRefuses _) fun _ _ => .pure _
    · exact .bind (VectorUpdate.check_onlyRefuses _) fun _ _ => .pure _
  · exact .refuse _

theorem ofMatrixUpdateProfile_onlyRefuses (operation : Operation) (profile : List Int) :
    OnlyRefuses (ofMatrixUpdateProfile operation profile) := by
  unfold ofMatrixUpdateProfile
  split
  · refine .bind (profileSize_onlyRefuses _ _) fun _ _ => ?_
    refine .bind (profileSize_onlyRefuses _ _) fun _ _ => ?_
    refine .bind (profileSize_onlyRefuses _ _) fun _ _ => ?_
    refine .bind (profileSize_onlyRefuses _ _) fun _ _ => ?_
    refine .bind (profileSize_onlyRefuses _ _) fun _ _ => ?_
    refine .bind (Fetch.ofIndex_onlyRefuses _) fun _ _ => ?_
    exact .bind (MatrixUpdate.check_onlyRefuses _) fun _ _ => .pure _
  · exact .refuse _

theorem ofMatrixVectorProfile_onlyRefuses (operation : Operation) (axis : Axis)
    (profile : List Int) : OnlyRefuses (ofMatrixVectorProfile operation axis profile) := by
  unfold ofMatrixVectorProfile
  split
  · refine .bind (profileSize_onlyRefuses _ _) fun _ _ => ?_
    refine .bind (profileSize_onlyRefuses _ _) fun _ _ => ?_
    refine .bind (profileSize_onlyRefuses _ _) fun _ _ => ?_
    refine .bind (profileSize_onlyRefuses _ _) fun _ _ => ?_
    refine .bind (Fetch.ofIndex_onlyRefuses _) fun _ _ => ?_
    exact .bind (MatrixVector.check_onlyRefuses _) fun _ _ => .pure _
  · exact .refuse _

theorem ofMatrixProductProfile_onlyRefuses (operation : Operation) (transposedA transposedB : Bool)
    (profile : List Int) :
    OnlyRefuses (ofMatrixProductProfile operation transposedA transposedB profile) := by
  unfold ofMatrixProductProfile
  split
  · refine .bind (profileSize_onlyRefuses _ _) fun _ _ => ?_
    refine .bind (profileSize_onlyRefuses _ _) fun _ _ => ?_
    refine .bind (profileSize_onlyRefuses _ _) fun _ _ => ?_
    refine .bind (profileSize_onlyRefuses _ _) fun _ _ => ?_
    refine .bind (profileSize_onlyRefuses _ _) fun _ _ => ?_
    refine .bind (profileSize_onlyRefuses _ _) fun perItemK accepted => ?_
    refine .bind (profileSize_onlyRefuses _ _) fun _ _ => ?_
    refine .bind (Fetch.ofIndex_onlyRefuses _) fun _ _ => ?_
    refine .bind (Fetch.ofIndex_onlyRefuses _) fun _ _ => ?_
    refine .bind (profileSize_onlyRefuses _ _) fun _ _ => ?_
    refine .bind (profileSize_onlyRefuses _ _) fun _ _ => ?_
    have positive : 0 < perItemK := (profileSize_eq_ok_iff.1 accepted).1.1
    exact .bind (MatrixProduct.check_onlyRefuses positive) fun _ _ => .pure _
  · exact .refuse _

theorem ofProfile_onlyRefuses (operation : Operation) (profile : List Int) :
    OnlyRefuses (ofProfile operation profile) := by
  cases operation with
  | scalarAxpy => exact ofLinearProfile_onlyRefuses .scalarAxpy profile
  | vectorAxpy => exact ofLinearProfile_onlyRefuses .vectorAxpy profile
  | reduction => exact ofLinearProfile_onlyRefuses .reduction profile
  | matrixAxpy => exact ofMatrixUpdateProfile_onlyRefuses .matrixAxpy profile
  | rowWiseReduction => exact ofMatrixVectorProfile_onlyRefuses .rowWiseReduction .rows profile
  | colWiseReduction => exact ofMatrixVectorProfile_onlyRefuses .colWiseReduction .columns profile
  | matrixProductNN => exact ofMatrixProductProfile_onlyRefuses .matrixProductNN false false profile
  | matrixProductNT => exact ofMatrixProductProfile_onlyRefuses .matrixProductNT false true profile
  | matrixProductTN => exact ofMatrixProductProfile_onlyRefuses .matrixProductTN true false profile
  | matrixProductTT => exact ofMatrixProductProfile_onlyRefuses .matrixProductTT true true profile

end Variant

/-! ### Predictors and models -/

namespace Forest

theorem ofTrees_onlyRefuses (trees : List RegressionTree) : OnlyRefuses (ofTrees trees) := by
  unfold ofTrees
  split
  · exact .refuse _
  · split
    · exact .refuse _
    · exact .ok _

theorem readTrees_onlyRefuses (position : Nat) (descriptions : List TreeDescription) :
    OnlyRefuses (readTrees position descriptions) := by
  induction descriptions generalizing position with
  | nil => exact .ok []
  | cons description rest inductionHypothesis =>
      unfold readTrees
      split
      · exact .refuse _
      · exact .bind (inductionHypothesis (position + 1)) fun _ _ => .pure _

theorem ofDescription_onlyRefuses (description : Json.Value) :
    OnlyRefuses (ofDescription description) := by
  unfold ofDescription
  split
  · exact .refuse _
  · exact .bind (readTrees_onlyRefuses 0 _) fun trees _ => ofTrees_onlyRefuses trees

end Forest

variable {σ : Type}

theorem Model.create_onlyRefuses (variants : List Variant) (predictor : Option CostPredictor)
    (queue : CommandQueue σ) : OnlyRefuses (create variants predictor queue) := by
  unfold create
  split
  · exact .refuse _
  · split
    · exact .ok _
    · split
      · exact .refuse _
      · split
        · exact .refuse _
        · exact .ok _

theorem DescriptionEntry.model_onlyRefuses (operation : Operation) (queue : CommandQueue σ)
    (entry : DescriptionEntry) : OnlyRefuses (entry.model operation queue) := by
  refine .bind (.mapM fun profile _ => Variant.ofProfile_onlyRefuses operation profile) ?_
  intro variants _
  split
  · exact .refuse _
  · exact .pure _
  · split
    · exact .refuse _
    · exact .bind (Forest.ofDescription_onlyRefuses _) fun forest _ =>
        Model.create_onlyRefuses _ _ queue

/-! ### Documents -/

namespace Description

theorem within_onlyRefuses {α : Type} (entry : String) {outcome : Except Error α}
    (refuses : OnlyRefuses outcome) : OnlyRefuses (within entry outcome) := by
  unfold within
  split
  · exact .refuse _
  · exact refuses

theorem leaf_onlyRefuses (queue : CommandQueue σ) (operationName : String) (operation : Operation)
    (member : String × Json.Value) :
    OnlyRefuses (leaf queue operationName operation member) := by
  unfold leaf
  split
  · exact .refuse _
  · dsimp only
    split
    · exact .bind (.pure _) fun entry _ =>
        .bind (within_onlyRefuses _ (entry.model_onlyRefuses operation queue)) fun _ _ => .pure _
    · exact .bind (.refuse _) fun _ impossible => absurd impossible refuse_ne_ok

theorem operationModels_onlyRefuses (queue : CommandQueue σ) (member : String × Json.Value) :
    OnlyRefuses (operationModels queue member) := by
  unfold operationModels
  split
  · exact .refuse _
  · split
    · exact .mapM fun type _ => leaf_onlyRefuses queue _ _ type
    · exact .refuse _

theorem documentModels_onlyRefuses (queue : CommandQueue σ) (document : Json.Value) :
    OnlyRefuses (documentModels queue document) := by
  unfold documentModels
  split
  · exact .bind (.mapM fun member _ => operationModels_onlyRefuses queue member) fun _ _ => .pure _
  · exact .refuse _

/-- A text is not JSON, or its models are read or refused. -/
theorem models_fails {queue : CommandQueue σ} {text : String} {cause : Error}
    (failed : models queue text = .error cause) :
    cause = .malformedJson ∨ cause.isInvalidArgument = true := by
  unfold models at failed
  split at failed
  · exact .inl (Except.error.inj failed).symm
  · exact .inr (documentModels_onlyRefuses queue _ cause failed)

end Description

end KernelTuner
