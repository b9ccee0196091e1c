import KernelTuner.Proofs.Description.Refusals
import KernelTuner.Proofs.Variant.Accepted

/-!
Contract: the grammar of profiles.

Owns: which places of a profile hold policies, which pairs of sizes multiply to a size of the
kernel, and what an operation demands of a profile, all by position. `ofProfile_grammar` states
that the reader accepts exactly what is demanded, that it loses nothing, and that it refuses
everything else.
-/

set_option autoImplicit false

namespace KernelTuner

/-! ### Places -/

namespace Operation

/-- Places of a profile that hold fetch policies. -/
def fetchPlaces : Operation → List Nat
  | scalarAxpy | vectorAxpy | reduction => [3]
  | matrixAxpy => [5]
  | rowWiseReduction | colWiseReduction => [4]
  | matrixProductNN | matrixProductNT | matrixProductTN | matrixProductTT => [7, 8]

/-- All other places, which hold sizes. -/
def sizePlaces (operation : Operation) : List Nat :=
  (List.range operation.profileArity).filter (· ∉ operation.fetchPlaces)

/-- Pairs of places whose sizes the kernel multiplies. -/
def productPlaces : Operation → List (Nat × Nat)
  | scalarAxpy | vectorAxpy | reduction => [(1, 2)]
  | matrixAxpy => [(1, 2), (1, 3), (2, 4)]
  | rowWiseReduction | colWiseReduction => [(1, 2), (1, 3)]
  | matrixProductNN | matrixProductNT | matrixProductTN | matrixProductTT =>
      [(1, 4), (3, 6), (1, 3), (9, 10)]

/-- An entry that is a size of the kernel. -/
def InRange (entry : Int) : Prop := 1 ≤ entry ∧ entry ≤ Size.kernelLimit

/-- What an operation demands of the entries of a profile. -/
structure Demands (operation : Operation) (entry : Nat → Int) : Prop where
  width : entry 0 ∈ [1, 2, 4, 8, 16]
  sizes : ∀ place ∈ operation.sizePlaces, InRange (entry place)
  policies : ∀ place ∈ operation.fetchPlaces, entry place ∈ [0, 1, 2]
  products : ∀ pair ∈ operation.productPlaces, entry pair.1 * entry pair.2 ≤ Size.kernelLimit
  /-- A tile of a matrix product is walked in whole steps. -/
  steps : operation.transposition? ≠ none → entry 5 ∣ entry 2
  /-- While it stages an operand, a work group is laid out anew but keeps its size. -/
  layout : operation.transposition? ≠ none → entry 7 = 0 ∨ entry 8 = 0 →
    entry 9 * entry 10 = entry 1 * entry 3

/-- A profile of the operation's length with the entries that it demands. -/
structure Admits (operation : Operation) (profile : List Int) : Prop where
  arity : profile.length = operation.profileArity
  demands : operation.Demands (profile.getD · 0)

end Operation

theorem Fetch.index_eq_zero_iff {policy : Fetch} : policy.index = 0 ↔ policy = .staged := by
  cases policy <;> decide

theorem Fetch.exists_index_eq_iff {index : Int} :
    (∃ policy : Fetch, index = policy.index) ↔ index ∈ [0, 1, 2] := by
  constructor
  · rintro ⟨policy, rfl⟩
    cases policy <;> decide
  · intro listed
    simp only [List.mem_cons, List.not_mem_nil, or_false] at listed
    obtain rfl | rfl | rfl := listed
    · exact ⟨.staged, rfl⟩
    · exact ⟨.strided, rfl⟩
    · exact ⟨.contiguous, rfl⟩

/-! ### Parameters at their places -/

namespace Variant

/-- The policies among the parameters, in profile order. -/
def policies : Variant → List Fetch
  | vectorUpdate params => [params.fetch]
  | innerProduct params => [params.fetch]
  | matrixUpdate params => [params.fetch]
  | matrixVector params => [params.fetch]
  | matrixProduct params => [params.fetchA, params.fetchB]

/-- Where the parameters of a variant stand in its profile. -/
structure Placed (variant : Variant) (operation : Operation) (entry : Nat → Int) : Prop where
  width : entry 0 = variant.simdWidth
  sizes : operation.sizePlaces.map entry = variant.listedSizes.map Nat.cast
  policies : operation.fetchPlaces.map entry = variant.policies.map Fetch.index
  products : operation.productPlaces.map (fun places => entry places.1 * entry places.2) =
    variant.products.map Nat.cast

variable {operation : Operation} {variant : Variant} {profile : List Int}

theorem length_profile (computes : variant.Computes operation) :
    variant.profile.length = operation.profileArity := by
  cases variant with
  | vectorUpdate params => obtain rfl | rfl := computes <;> rfl
  | innerProduct params => obtain rfl := computes; rfl
  | matrixUpdate params => obtain rfl := computes; rfl
  | matrixVector params =>
      cases operation <;> simp [Computes, Operation.axis?] at computes <;> rfl
  | matrixProduct params =>
      cases operation <;> simp [Computes, Operation.transposition?] at computes <;> rfl

theorem Placed.forall_sizes {entry : Nat → Int} (placed : variant.Placed operation entry)
    (holds : Int → Prop) :
    (∀ place ∈ operation.sizePlaces, holds (entry place)) ↔
      ∀ size ∈ variant.listedSizes, holds (size : Nat) := by
  rw [← List.forall_mem_map, placed.sizes, List.forall_mem_map]

theorem Placed.forall_policies {entry : Nat → Int} (placed : variant.Placed operation entry)
    (holds : Int → Prop) :
    (∀ place ∈ operation.fetchPlaces, holds (entry place)) ↔
      ∀ policy ∈ variant.policies, holds (policy : Fetch).index := by
  rw [← List.forall_mem_map, placed.policies, List.forall_mem_map]

theorem Placed.forall_products {entry : Nat → Int} (placed : variant.Placed operation entry)
    (holds : Int → Prop) :
    (∀ places ∈ operation.productPlaces, holds (entry places.1 * entry places.2)) ↔
      ∀ product ∈ variant.products, holds (product : Nat) := by
  have read : (∀ value ∈ operation.productPlaces.map fun places =>
      entry places.1 * entry places.2, holds value) ↔ _ := List.forall_mem_map
  rw [← read, placed.products, List.forall_mem_map]

theorem placed (computes : variant.Computes operation) :
    variant.Placed operation (variant.profile.getD · 0) := by
  cases variant with
  | vectorUpdate params => obtain rfl | rfl := computes <;> exact ⟨rfl, rfl, rfl, rfl⟩
  | innerProduct params => obtain rfl := computes; exact ⟨rfl, rfl, rfl, rfl⟩
  | matrixUpdate params => obtain rfl := computes; exact ⟨rfl, rfl, rfl, rfl⟩
  | matrixVector params =>
      cases operation <;> simp [Computes, Operation.axis?] at computes <;>
        exact ⟨rfl, rfl, rfl, rfl⟩
  | matrixProduct params =>
      cases operation <;> simp [Computes, Operation.transposition?] at computes <;>
        exact ⟨rfl, rfl, rfl, rfl⟩

/-- The tiles of a matrix product, by position. -/
theorem tiles_iff (computes : variant.Computes operation)
    (counted : ∀ size ∈ variant.listedSizes, Size.Counted size) :
    variant.Tiles ↔ operation.transposition? ≠ none →
      variant.profile.getD 5 0 ∣ variant.profile.getD 2 0 ∧
        (variant.profile.getD 7 0 = 0 ∨ variant.profile.getD 8 0 = 0 →
          variant.profile.getD 9 0 * variant.profile.getD 10 0 =
            variant.profile.getD 1 0 * variant.profile.getD 3 0) := by
  cases variant with
  | vectorUpdate params => obtain rfl | rfl := computes <;> simp [Tiles, Operation.transposition?]
  | innerProduct params => obtain rfl := computes; simp [Tiles, Operation.transposition?]
  | matrixUpdate params => obtain rfl := computes; simp [Tiles, Operation.transposition?]
  | matrixVector params =>
      cases operation <;> simp [Computes, Operation.axis?] at computes <;>
        simp [Tiles, Operation.transposition?]
  | matrixProduct params =>
      have positive : params.perItemK ≠ 0 := by
        have := (counted params.perItemK (by simp [listedSizes])).1
        omega
      rw [Computes] at computes
      simp [Tiles, computes, positive, Variant.profile, MatrixProduct.staged,
        Fetch.index_eq_zero_iff]
      norm_cast

/-- What an operation demands by position is what makes its variants valid. -/
theorem demands_profile_iff (computes : variant.Computes operation) :
    operation.Demands (variant.profile.getD · 0) ↔ variant.Valid := by
  have placed := placed computes
  have width : variant.profile.getD 0 0 ∈ [1, 2, 4, 8, 16] ↔ variant.simdWidth ∈ simdWidths := by
    rw [placed.width]
    simp only [simdWidths, List.mem_cons, List.not_mem_nil, or_false]
    norm_cast
  have sizes := placed.forall_sizes Operation.InRange
  have policies := placed.forall_policies (· ∈ [0, 1, 2])
  have products := placed.forall_products (· ≤ Size.kernelLimit)
  simp only [Operation.InRange] at sizes
  norm_cast at sizes products
  constructor
  · intro demands
    have counted := sizes.1 demands.sizes
    exact {
      width := width.1 demands.width
      products := products.1 demands.products
      tiles := (tiles_iff computes counted).2 fun transposed =>
        ⟨demands.steps transposed, demands.layout transposed⟩
      counted }
  · intro valid
    have tiles := (tiles_iff computes valid.counted).1 valid.tiles
    exact {
      width := width.2 valid.width
      sizes := sizes.2 valid.counted
      policies := policies.2 fun policy _ => Fetch.exists_index_eq_iff.1 ⟨policy, rfl⟩
      products := products.2 valid.products
      steps := fun transposed => (tiles transposed).1
      layout := fun transposed => (tiles transposed).2 }

/-- The variant for an operation that has these sizes and policies at their places. -/
def ofPlaces (operation : Operation) (size : Nat → Nat) (policy : Nat → Fetch) : Variant :=
  match operation with
  | .scalarAxpy | .vectorAxpy => .vectorUpdate ⟨size 0, size 1, size 2, policy 3⟩
  | .reduction => .innerProduct ⟨size 0, size 1, size 2, policy 3⟩
  | .matrixAxpy => .matrixUpdate ⟨size 0, size 1, size 2, size 3, size 4, policy 5⟩
  | .rowWiseReduction => .matrixVector ⟨.rows, size 0, size 1, size 2, size 3, policy 4⟩
  | .colWiseReduction => .matrixVector ⟨.columns, size 0, size 1, size 2, size 3, policy 4⟩
  | .matrixProductNN => product false false
  | .matrixProductNT => product false true
  | .matrixProductTN => product true false
  | .matrixProductTT => product true true
where
  product (transposedA transposedB : Bool) : Variant :=
    .matrixProduct ⟨transposedA, transposedB, size 0, size 1, size 2, size 3, size 4, size 5,
      size 6, policy 7, policy 8, size 9, size 10⟩

theorem computes_ofPlaces (operation : Operation) (size : Nat → Nat) (policy : Nat → Fetch) :
    (ofPlaces operation size policy).Computes operation := by
  cases operation with
  | scalarAxpy => exact .inl rfl
  | vectorAxpy => exact .inr rfl
  | _ => rfl

theorem profile_ofPlaces {size : Nat → Nat} {policy : Nat → Fetch}
    (arity : profile.length = operation.profileArity)
    (sizes : ∀ place ∈ operation.sizePlaces, profile.getD place 0 = size place)
    (policies : ∀ place ∈ operation.fetchPlaces, profile.getD place 0 = (policy place).index) :
    (ofPlaces operation size policy).profile = profile := by
  have listed : (List.range operation.profileArity).map (profile.getD · 0) = profile := by
    rw [← arity]
    exact List.ext_getElem (by simp) (by simp +contextual)
  rw [← listed]
  -- Each operation's own places turn the hypotheses into one equation for every entry.
  cases operation
  all_goals
    simp [Operation.sizePlaces, Operation.fetchPlaces, Operation.profileArity,
      List.range_succ] at sizes policies
    simp [ofPlaces, ofPlaces.product, Operation.profileArity, List.range_succ, Variant.profile,
      sizes, policies]

/-- An admitted profile lists a variant for the operation. -/
theorem exists_profile_eq (admits : operation.Admits profile) :
    ∃ variant : Variant, variant.Computes operation ∧ variant.profile = profile := by
  have sizes (place : Nat) (listed : place ∈ operation.sizePlaces) :
      profile.getD place 0 = (profile.getD place 0).toNat := by
    have := (admits.demands.sizes place listed).1
    omega
  have policies (place : Nat) :
      ∃ policy : Fetch, place ∈ operation.fetchPlaces → profile.getD place 0 = policy.index := by
    by_cases listed : place ∈ operation.fetchPlaces
    · obtain ⟨policy, same⟩ := Fetch.exists_index_eq_iff.2 (admits.demands.policies place listed)
      exact ⟨policy, fun _ => same⟩
    · exact ⟨default, fun other => absurd other listed⟩
  choose policy policies using policies
  exact ⟨ofPlaces operation _ policy, computes_ofPlaces operation _ policy,
    profile_ofPlaces admits.arity sizes policies⟩

theorem admits_profile_iff (computes : variant.Computes operation) :
    operation.Admits variant.profile ↔ variant.Valid := by
  rw [← demands_profile_iff computes]
  constructor
  · exact Operation.Admits.demands
  · intro demands
    exact ⟨length_profile computes, demands⟩

/-- A profile is accepted when the operation admits it. -/
theorem exists_ofProfile_iff :
    (∃ variant, ofProfile operation profile = .ok variant) ↔ operation.Admits profile := by
  simp only [ofProfile_eq_ok_iff]
  constructor
  · rintro ⟨variant, computes, valid, rfl⟩
    exact (admits_profile_iff computes).2 valid
  · intro admits
    obtain ⟨variant, computes, rfl⟩ := exists_profile_eq admits
    exact ⟨variant, computes, (admits_profile_iff computes).1 admits, rfl⟩

/-- What the reader accepts is what the operation admits, of any integers at all: the variant
has the profile back and computes the operation. Everything else is an invalid argument, never
a division by zero, and no product of two sizes leaves a machine word. -/
theorem ofProfile_grammar (operation : Operation) (profile : List Int) :
    (match ofProfile operation profile with
      | .ok variant =>
          operation.Admits profile ∧ variant.profile = profile ∧ variant.Computes operation
      | .error cause => ¬ operation.Admits profile ∧ cause.isInvalidArgument = true) ∧
    ∀ places ∈ operation.productPlaces,
      Operation.InRange (profile.getD places.1 0) → Operation.InRange (profile.getD places.2 0) →
        profile.getD places.1 0 * profile.getD places.2 0 < Size.wordCount := by
  constructor
  · cases read : ofProfile operation profile with
    | ok variant =>
        obtain ⟨computes, -, listed⟩ := ofProfile_eq_ok_iff.1 read
        exact ⟨exists_ofProfile_iff.1 ⟨variant, read⟩, listed, computes⟩
    | error cause =>
        refine ⟨?_, ofProfile_onlyRefuses operation profile cause read⟩
        intro admits
        obtain ⟨variant, accepted⟩ := exists_ofProfile_iff.2 admits
        simp [read] at accepted
  · intro places _ left right
    have bound := Int.mul_le_mul left.2 right.2 (by have := right.1; omega) (by decide)
    exact lt_of_le_of_lt bound (by decide)

end Variant

end KernelTuner
