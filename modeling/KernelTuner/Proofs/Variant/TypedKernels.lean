import KernelTuner.Proofs.Outcome
import KernelTuner.Proofs.Variant.ElementWise

/-!
Contract: kernels that depend on the element type of a batch.

Owns: the emission of the variants that are not element-wise, which reads nothing off a
batch but its element type; and `typed_text_injective`, by which the text of such an
emission tells the element type, whatever follows it.
-/

set_option autoImplicit false

namespace KernelTuner

theorem ElementType.kernelName_injective {left right : ElementType}
    (same : left.kernelName = right.kernelName) : left = right := by
  revert same
  cases left <;> cases right <;> decide

/-- The name of a type ends where the star of a pointer stands. -/
theorem ElementType.eq_of_pointer_text {left right : ElementType} {leftRest rightRest : String}
    (same : left.kernelName ++ ("* " ++ leftRest) = right.kernelName ++ ("* " ++ rightRest)) :
    left = right := by
  have upToStar (type : ElementType) (rest : String) :
      (type.kernelName ++ ("* " ++ rest)).toList.takeWhile (· ≠ '*') =
        type.kernelName.toList := by
    have starless : type.kernelName.toList.all (· ≠ '*') = true := by
      cases type <;> decide
    have noStar := List.all_eq_true.1 starless
    have star : ("* " ++ rest).toList = '*' :: ' ' :: rest.toList := by
      rw [String.toList_append]
      rfl
    rw [String.toList_append, List.takeWhile_append_of_pos noStar, star]
    simp
  have names := (upToStar left leftRest).symm.trans (same ▸ upToStar right rightRest)
  exact kernelName_injective (String.toList_injective names)

namespace Variant

/-- The emission of a variant that is not element-wise, for one element type. -/
def typedEmission : Variant → Nat → ElementType → Emission
  | innerProduct params, index, type =>
      { primary := [params.firstPass index type, params.secondPass index type] }
  | matrixVector params, index, type => { primary := [params.kernel index type] }
  | matrixProduct params, index, type => {
      primary := [params.kernel (MatrixProduct.primaryEntry index) false type]
      fallback := some [params.kernel (MatrixProduct.fallbackEntry index) true type] }
  | _, _, _ => { primary := [] }

variable {variant : Variant} {index : Nat} {batch : Batch} {emission : Emission}

theorem emit_typed (typed : ¬ variant.IsElementWise)
    (emits : variant.emit index batch = .ok emission) :
    emission = variant.typedEmission index batch.elementType := by
  cases variant with
  | vectorUpdate params => exact absurd trivial typed
  | matrixUpdate params => exact absurd trivial typed
  | innerProduct params =>
      obtain ⟨_, _, same⟩ := bind_eq_ok_iff.1 emits
      exact (pure_eq_ok_iff.1 same).symm
  | matrixVector params =>
      obtain ⟨_, _, same⟩ := bind_eq_ok_iff.1 emits
      exact (pure_eq_ok_iff.1 same).symm
  | matrixProduct params =>
      obtain ⟨_, _, same⟩ := bind_eq_ok_iff.1 emits
      exact (pure_eq_ok_iff.1 same).symm

end Variant

/-! ### Headers -/

namespace Kernel

/-- A fragment begins with the header of its first kernel. -/
theorem fragmentText_header (kernel : Kernel) (others : List Kernel) :
    ∃ rest, fragmentText (kernel :: others) = kernel.header ++ rest := by
  have text : kernel.text = kernel.header ++
      ("\n" ++ String.join ((openBrace :: (blockLines 1 kernel.body ++ [closeBrace])).map
        (· ++ "\n"))) := by
    rw [Kernel.text, lines, List.map_cons, String.join_cons, String.append_assoc]
  refine ⟨"\n".intercalate (("\n" ++ String.join ((openBrace :: (blockLines 1 kernel.body ++
    [closeBrace])).map (· ++ "\n"))) :: others.map Kernel.text), ?_⟩
  rw [fragmentText, List.map_cons, text, String.intercalate_cons_append]

/-- What stands in front of the type of the first pointer parameter. -/
def typedFront (name : String) (sizes : List Parameter) : String :=
  entryMark ++ name ++ "(" ++ (", ".intercalate (sizes.map Parameter.text) ++ ", " ++ "__global ")

/-- Behind sizes, the type of the first pointer can be read off a fragment. -/
theorem fragmentText_typed {kernel : Kernel} {sizes others : List Parameter} {type : ElementType}
    {array : String} (nonempty : sizes ≠ [])
    (parameters : kernel.parameters = sizes ++ .pointer false type array :: others)
    (kernels : List Kernel) :
    ∃ rest, fragmentText (kernel :: kernels) =
      typedFront kernel.name sizes ++ (type.kernelName ++ ("* " ++ rest)) := by
  obtain ⟨behind, text⟩ := fragmentText_header kernel kernels
  have sizesNonempty : sizes.map Parameter.text ≠ [] := by simpa using nonempty
  have pointer : (Parameter.pointer false type array).text =
      "__global " ++ (type.kernelName ++ ("* " ++ array)) := by
    simp only [Parameter.text, Bool.false_eq_true, ↓reduceIte, String.append_empty,
      String.append_assoc]
  refine ⟨", ".intercalate (array :: others.map Parameter.text) ++ (")" ++ behind), ?_⟩
  rw [text, header, parameters, List.map_append, List.map_cons,
    String.intercalate_append_of_ne_nil sizesNonempty (List.cons_ne_nil _ _), pointer,
    String.intercalate_cons_append, String.intercalate_cons_append,
    String.intercalate_cons_append]
  simp only [typedFront, String.append_assoc]

end Kernel

namespace Variant

variable {variant : Variant} {index : Nat}

/-- The text of a typed emission shows the element type behind a front that does not
depend on it. -/
theorem typed_text (typed : ¬ variant.IsElementWise) (index : Nat) :
    ∃ front, ∀ type, ∃ rest, (variant.typedEmission index type).primaryText =
      front ++ (type.kernelName ++ ("* " ++ rest)) := by
  cases variant with
  | vectorUpdate params => exact absurd trivial typed
  | matrixUpdate params => exact absurd trivial typed
  | innerProduct params =>
      refine ⟨Kernel.typedFront (InnerProduct.firstEntry index) [.size "N"], fun type => ?_⟩
      exact Kernel.fragmentText_typed (List.cons_ne_nil _ _) rfl _
  | matrixVector params =>
      refine ⟨Kernel.typedFront (MatrixVector.entry index) [.size "M", .size "N"], fun type => ?_⟩
      exact Kernel.fragmentText_typed (List.cons_ne_nil _ _) rfl _
  | matrixProduct params =>
      refine ⟨Kernel.typedFront (MatrixProduct.primaryEntry index)
        [.size "M", .size "N", .size "K"], fun type => ?_⟩
      exact Kernel.fragmentText_typed (List.cons_ne_nil _ _) rfl _

theorem typed_text_injective (typed : ¬ variant.IsElementWise) {left right : ElementType}
    {leftRest rightRest : String}
    (same : (variant.typedEmission index left).primaryText ++ leftRest =
      (variant.typedEmission index right).primaryText ++ rightRest) : left = right := by
  obtain ⟨front, shown⟩ := typed_text typed index
  obtain ⟨leftText, leftShown⟩ := shown left
  obtain ⟨rightText, rightShown⟩ := shown right
  rw [leftShown, rightShown] at same
  simp only [String.append_assoc] at same
  exact ElementType.eq_of_pointer_text ((String.append_right_inj front).1 same)

end Variant

end KernelTuner
