/-!
Contract: the numeric operations that selection models serve.

Owns: the ten operations, their display and description names, the number of
integers in one variant profile and the transposition flags of matrix products.
-/

set_option autoImplicit false

namespace KernelTuner

/-- Kind of numeric operation. The two letters of a matrix product say for its
left and right operand whether it is read as stored (`N`) or transposed (`T`). -/
inductive Operation where
  | scalarAxpy
  | vectorAxpy
  | reduction
  | matrixAxpy
  | rowWiseReduction
  | colWiseReduction
  | matrixProductNN
  | matrixProductNT
  | matrixProductTN
  | matrixProductTT
deriving DecidableEq, Repr, Inhabited

namespace Operation

def all : List Operation :=
  [scalarAxpy, vectorAxpy, reduction, matrixAxpy, rowWiseReduction, colWiseReduction,
    matrixProductNN, matrixProductNT, matrixProductTN, matrixProductTT]

/-- Place of the operation in `all`; keys are ordered by it. -/
def rank : Operation → Nat
  | scalarAxpy => 0 | vectorAxpy => 1 | reduction => 2 | matrixAxpy => 3
  | rowWiseReduction => 4 | colWiseReduction => 5 | matrixProductNN => 6
  | matrixProductNT => 7 | matrixProductTN => 8 | matrixProductTT => 9

/-- Tag by which a caller names the operation. -/
def label : Operation → String
  | scalarAxpy => "ScalarAxpy"
  | vectorAxpy => "VectorAxpy"
  | reduction => "Reduction"
  | matrixAxpy => "MatrixAxpy"
  | rowWiseReduction => "RowWiseReduction"
  | colWiseReduction => "ColWiseReduction"
  | matrixProductNN => "MatrixProductNN"
  | matrixProductNT => "MatrixProductNT"
  | matrixProductTN => "MatrixProductTN"
  | matrixProductTT => "MatrixProductTT"

def ofLabel? (label : String) : Option Operation :=
  all.find? (fun operation => operation.label = label)

/-- Name used in messages. -/
def display : Operation → String
  | scalarAxpy => "scalar-axpy"
  | vectorAxpy => "vector-axpy"
  | reduction => "reduction"
  | matrixAxpy => "matrix-axpy"
  | rowWiseReduction => "row-reduction"
  | colWiseReduction => "col-reduction"
  | matrixProductNN => "matrix-product-nn"
  | matrixProductNT => "matrix-product-nt"
  | matrixProductTN => "matrix-product-tn"
  | matrixProductTT => "matrix-product-tt"

/-- Key of the operation in a model description. A scalar update has none: it
always runs the built-in variant. -/
def descriptionName? : Operation → Option String
  | scalarAxpy => none
  | vectorAxpy => some "vaxpy"
  | reduction => some "dot"
  | matrixAxpy => some "maxpy"
  | rowWiseReduction => some "gemvN"
  | colWiseReduction => some "gemvT"
  | matrixProductNN => some "gemmNN"
  | matrixProductNT => some "gemmNT"
  | matrixProductTN => some "gemmTN"
  | matrixProductTT => some "gemmTT"

def ofDescriptionName? (name : String) : Option Operation :=
  all.find? (fun operation => operation.descriptionName? = some name)

/-- Number of integers in one profile of the operation. -/
def profileArity : Operation → Nat
  | scalarAxpy | vectorAxpy | reduction => 4
  | matrixAxpy => 6
  | rowWiseReduction | colWiseReduction => 5
  | matrixProductNN | matrixProductNT | matrixProductTN | matrixProductTT => 11

/-- Whether the left and the right operand of a matrix product are transposed. -/
def transposition? : Operation → Option (Bool × Bool)
  | matrixProductNN => some (false, false)
  | matrixProductNT => some (false, true)
  | matrixProductTN => some (true, false)
  | matrixProductTT => some (true, true)
  | _ => none

theorem mem_all (operation : Operation) : operation ∈ all := by
  cases operation <;> decide

theorem descriptionName?_injective {left right : Operation} {name : String}
    (leftName : left.descriptionName? = some name)
    (rightName : right.descriptionName? = some name) : left = right := by
  cases left <;> cases right <;> simp_all [descriptionName?] <;> subst leftName <;>
    exact absurd rightName (by decide)

theorem ofDescriptionName?_eq_some_iff {name : String} {operation : Operation} :
    ofDescriptionName? name = some operation ↔ operation.descriptionName? = some name := by
  unfold ofDescriptionName?
  constructor
  · intro found
    simpa using List.find?_some found
  · intro named
    cases found : all.find? (fun candidate => candidate.descriptionName? = some name) with
    | none =>
        have absent := List.find?_eq_none.1 found operation (mem_all operation)
        simp [named] at absent
    | some candidate =>
        have candidateNamed : candidate.descriptionName? = some name := by
          simpa using List.find?_some found
        rw [descriptionName?_injective candidateNamed named]

end Operation

end KernelTuner
