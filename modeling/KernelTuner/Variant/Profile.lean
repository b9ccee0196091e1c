import KernelTuner.Operation
import KernelTuner.Variant.Basic

/-!
Contract: variants as rows of integers.

Owns: the reading of a profile, the writing of a variant's parameters back in
profile order, and the built-in variant of every operation.
-/

set_option autoImplicit false

namespace KernelTuner.Variant

/-- A vector update or an inner product, which share their profile. -/
def ofLinearProfile (operation : Operation) : List Int → Except Error Variant
  | [simdWidth, localSize0, groups0, fetch] => do
      let simdWidth ← profileSize "simd width" simdWidth
      let localSize0 ← profileSize "local size 0" localSize0
      let groups0 ← profileSize "group count 0" groups0
      let fetch ← Fetch.ofIndex fetch
      match operation with
      | .reduction => check (.innerProduct ⟨simdWidth, localSize0, groups0, fetch⟩)
      | _ => check (.vectorUpdate ⟨simdWidth, localSize0, groups0, fetch⟩)
  | profile => refuse (.profileLength operation profile.length)

def ofMatrixUpdateProfile (operation : Operation) : List Int → Except Error Variant
  | [simdWidth, localSize0, localSize1, groups0, groups1, fetch] => do
      let simdWidth ← profileSize "simd width" simdWidth
      let localSize0 ← profileSize "local size 0" localSize0
      let localSize1 ← profileSize "local size 1" localSize1
      let groups0 ← profileSize "group count 0" groups0
      let groups1 ← profileSize "group count 1" groups1
      let fetch ← Fetch.ofIndex fetch
      check (.matrixUpdate ⟨simdWidth, localSize0, localSize1, groups0, groups1, fetch⟩)
  | profile => refuse (.profileLength operation profile.length)

def ofMatrixVectorProfile (operation : Operation) (axis : Axis) :
    List Int → Except Error Variant
  | [simdWidth, localSize0, localSize1, groups0, fetch] => do
      let simdWidth ← profileSize "simd width" simdWidth
      let localSize0 ← profileSize "local size 0" localSize0
      let localSize1 ← profileSize "local size 1" localSize1
      let groups0 ← profileSize "group count 0" groups0
      let fetch ← Fetch.ofIndex fetch
      check (.matrixVector ⟨axis, simdWidth, localSize0, localSize1, groups0, fetch⟩)
  | profile => refuse (.profileLength operation profile.length)

def ofMatrixProductProfile (operation : Operation) (transposedA transposedB : Bool) :
    List Int → Except Error Variant
  | [simdWidth, localSize0, tileK, localSize1, perItemM, perItemK, perItemN, fetchA, fetchB,
      localFetch0, localFetch1] => do
      let simdWidth ← profileSize "simd width" simdWidth
      let localSize0 ← profileSize "local size 0" localSize0
      let tileK ← profileSize "k tile" tileK
      let localSize1 ← profileSize "local size 1" localSize1
      let perItemM ← profileSize "m per item" perItemM
      let perItemK ← profileSize "k per item" perItemK
      let perItemN ← profileSize "n per item" perItemN
      let fetchA ← Fetch.ofIndex fetchA
      let fetchB ← Fetch.ofIndex fetchB
      let localFetch0 ← profileSize "local fetch 0" localFetch0
      let localFetch1 ← profileSize "local fetch 1" localFetch1
      check (.matrixProduct {
        transposedA, transposedB, simdWidth, localSize0, tileK, localSize1, perItemM, perItemK,
        perItemN, fetchA, fetchB, localFetch0, localFetch1 })
  | profile => refuse (.profileLength operation profile.length)

/-- The variant that one profile of a model description stands for. -/
def ofProfile (operation : Operation) (profile : List Int) : Except Error Variant :=
  match operation with
  | .scalarAxpy | .vectorAxpy | .reduction => ofLinearProfile operation profile
  | .matrixAxpy => ofMatrixUpdateProfile operation profile
  | .rowWiseReduction => ofMatrixVectorProfile operation .rows profile
  | .colWiseReduction => ofMatrixVectorProfile operation .columns profile
  | .matrixProductNN => ofMatrixProductProfile operation false false profile
  | .matrixProductNT => ofMatrixProductProfile operation false true profile
  | .matrixProductTN => ofMatrixProductProfile operation true false profile
  | .matrixProductTT => ofMatrixProductProfile operation true true profile

/-- The parameters in profile order. -/
def profile : Variant → List Int
  | vectorUpdate params =>
      [params.simdWidth, params.localSize0, params.groups0, params.fetch.index]
  | innerProduct params =>
      [params.simdWidth, params.localSize0, params.groups0, params.fetch.index]
  | matrixUpdate params =>
      [params.simdWidth, params.localSize0, params.localSize1, params.groups0, params.groups1,
        params.fetch.index]
  | matrixVector params =>
      [params.simdWidth, params.localSize0, params.localSize1, params.groups0,
        params.fetch.index]
  | matrixProduct params =>
      [params.simdWidth, params.localSize0, params.tileK, params.localSize1, params.perItemM,
        params.perItemK, params.perItemN, params.fetchA.index, params.fetchB.index,
        params.localFetch0, params.localFetch1]

/-- Tiling of the built-in matrix products. -/
def baselineProduct (transposedA transposedB : Bool) : Variant :=
  .matrixProduct {
    transposedA, transposedB
    simdWidth := 1
    localSize0 := 8
    tileK := 8
    localSize1 := 8
    perItemM := 4
    perItemK := 1
    perItemN := 4
    fetchA := .staged
    fetchB := .staged
    localFetch0 := 8
    localFetch1 := 8 }

/-- The built-in variant of an operation, used where no description says otherwise. -/
def baseline : Operation → Variant
  | .scalarAxpy | .vectorAxpy => .vectorUpdate ⟨1, 64, 128, .strided⟩
  | .reduction => .innerProduct ⟨1, 64, 128, .strided⟩
  | .matrixAxpy => .matrixUpdate ⟨1, 8, 8, 8, 8, .strided⟩
  | .rowWiseReduction => .matrixVector ⟨.rows, 1, 8, 8, 16, .strided⟩
  | .colWiseReduction => .matrixVector ⟨.columns, 1, 8, 8, 16, .strided⟩
  | .matrixProductNN => baselineProduct false false
  | .matrixProductNT => baselineProduct false true
  | .matrixProductTN => baselineProduct true false
  | .matrixProductTT => baselineProduct true true

/-- The built-in variants are ones that a description could list. -/
theorem ofProfile_profile_baseline (operation : Operation) :
    ofProfile operation (baseline operation).profile = .ok (baseline operation) := by
  cases operation <;> rfl

end KernelTuner.Variant
