import KernelTuner.Proofs.Expression.Drafts
import KernelTuner.Proofs.Expression.Transposing
import KernelTuner.Proofs.Variant.Limits
import Mathlib.Algebra.Group.Nat.Defs

/-!
Contract: the operands that a matrix product finds in a batch.

Owns: the batches that assign a product of two buffers, each behind a chain of transpositions;
matrices that conform; and `resolution`, by which a variant accepts a batch exactly when it
assigns a product of conforming matrices behind chains of the variant's parities, and then
measures and launches that product.

A size is measured as a signed number of 64 bits. A dimension from `2 ^ 63` on, which the checks
let pass beside a dimension that is zero, is measured as a negative size.
-/

set_option autoImplicit false

namespace KernelTuner

/-! ### Batches of one product -/

/-- The batch has one expression. It assigns to `c` a product whose operands lead to `a` and `b`
through these numbers of transpositions. -/
structure Batch.Multiplies (batch : Batch) (c a b : Buffer) (chainA chainB : Nat) : Prop where
  alone : batch.rest = []
  assigns : batch.first.root.operator = .assign
  target : batch.first.root.lhs = .buffer c
  product : ∃ index node, batch.first.root.rhs = .node index ∧
    batch.first.node? index = some node ∧ node.operator = .matrixProduct ∧
      batch.first.LeadsTo a node.lhs chainA ∧ batch.first.LeadsTo b node.rhs chainB

/-- The chains of a product have one length each, whatever the matrices are. -/
theorem Batch.Multiplies.chains_eq {batch : Batch} {c a b otherC otherA otherB : Buffer}
    {chainA chainB otherChainA otherChainB : Nat} (multiplies : batch.Multiplies c a b chainA chainB)
    (other : batch.Multiplies otherC otherA otherB otherChainA otherChainB) :
    otherChainA = chainA ∧ otherChainB = chainB := by
  obtain ⟨index, node, stands, found, _, leadsA, leadsB⟩ := multiplies.product
  obtain ⟨otherIndex, otherNode, otherStands, otherFound, _, otherLeadsA, otherLeadsB⟩ :=
    other.product
  cases stands.symm.trans otherStands
  cases Option.some.inj (found.symm.trans otherFound)
  exact ⟨(leadsA.unique otherLeadsA).2, (leadsB.unique otherLeadsB).2⟩

theorem Batch.onlyExpression_eq_ok_iff {batch : Batch} {kernels : String}
    {expression : Expression} :
    batch.onlyExpression kernels = .ok expression ↔
      batch.rest = [] ∧ batch.first = expression := by
  unfold onlyExpression
  split
  · next alone => simp [alone]
  · next several => exact ⟨nofun, fun alone => absurd alone.1 several⟩

theorem Buffer.checkExtent_bind_iff {α : Type} {buffer : Buffer} {rest : Unit → Except Error α}
    {result : α} :
    (checkExtent buffer >>= rest) = .ok result ↔ buffer.Reachable ∧ rest () = .ok result := by
  rw [bind_eq_ok_iff]
  constructor
  · rintro ⟨⟨⟩, checked, accepted⟩
    exact ⟨reachable_of_checkExtent checked, accepted⟩
  · rintro ⟨reachable, accepted⟩
    have product : checkedProduct "buffer dims" buffer.dims = .ok buffer.extent.elements :=
      if_pos reachable
    exact ⟨(), bind_eq_ok_iff.2 ⟨_, product, rfl⟩, accepted⟩

namespace MatrixProduct

/-! ### Conforming matrices -/

/-- The dimensions of a matrix that is read with these rows and columns. -/
def storedDims (rows columns : Nat) (transposed : Bool) : List Nat :=
  if transposed then [columns, rows] else [rows, columns]

/-- Matrices whose elements a kernel can count, and whose dimensions fit a product of `m` rows
and `n` columns along `k`. -/
structure Operands.Conforming (operands : Operands) (transposedA transposedB : Bool) : Prop where
  dimsC : operands.c.dims = [operands.m, operands.n]
  dimsA : operands.a.dims = storedDims operands.m operands.k transposedA
  dimsB : operands.b.dims = storedDims operands.k operands.n transposedB
  reachableC : operands.c.Reachable
  reachableA : operands.a.Reachable
  reachableB : operands.b.Reachable

theorem dims_eq_storedDims_iff {buffer : Buffer} {rows columns : Nat} {transposed : Bool} :
    buffer.dims = storedDims rows columns transposed ↔
      buffer.rank = 2 ∧ readDims buffer transposed = (rows, columns) := by
  unfold storedDims readDims Buffer.dims Buffer.rank Buffer.rows Buffer.columns
  cases buffer.extent with
  | scalar => cases transposed <;> simp [Extent.dims, Extent.rank]
  | vector length => cases transposed <;> simp [Extent.dims, Extent.rank]
  | matrix rows columns =>
      cases transposed with
      | false => simp [Extent.dims, Extent.rank, Extent.rows, Extent.columns]
      | true => simp [Extent.dims, Extent.rank, Extent.rows, Extent.columns, and_comm]

theorem conforming_eq_ok_iff {c a b : Buffer} {transposedA transposedB : Bool}
    {operands : Operands} :
    conforming c a b transposedA transposedB = .ok operands ↔
      (operands.c = c ∧ operands.a = a ∧ operands.b = b) ∧
        operands.Conforming transposedA transposedB := by
  unfold conforming
  rw [guarded_eq_ok_iff]
  simp only [Buffer.checkExtent_bind_iff]
  constructor
  · rintro ⟨shaped, reachableC, reachableA, reachableB, accepted⟩
    split at accepted
    · next sizes =>
        cases accepted
        obtain ⟨rowsA, columnsB, rowsB⟩ := sizes
        have matrixC : c.rank = 2 := by omega
        have matrixA : a.rank = 2 := by omega
        have matrixB : b.rank = 2 := by omega
        have dimsC : c.dims = storedDims c.rows c.columns false :=
          dims_eq_storedDims_iff.2 ⟨matrixC, rfl⟩
        exact ⟨⟨rfl, rfl, rfl⟩, {
          dimsC
          dimsA := dims_eq_storedDims_iff.2 ⟨matrixA, Prod.ext rowsA rfl⟩
          dimsB := dims_eq_storedDims_iff.2 ⟨matrixB, Prod.ext rowsB columnsB⟩
          reachableC
          reachableA
          reachableB }⟩
    · simp at accepted
  · rintro ⟨⟨rfl, rfl, rfl⟩, conforms⟩
    have dimsC : operands.c.dims = storedDims operands.m operands.n false := conforms.dimsC
    obtain ⟨matrixC, sizesC⟩ := dims_eq_storedDims_iff.1 dimsC
    obtain ⟨matrixA, sizesA⟩ := dims_eq_storedDims_iff.1 conforms.dimsA
    obtain ⟨matrixB, sizesB⟩ := dims_eq_storedDims_iff.1 conforms.dimsB
    refine ⟨by omega, conforms.reachableC, conforms.reachableA, conforms.reachableB, ?_⟩
    obtain ⟨rowsC, columnsC⟩ := Prod.mk.inj sizesC
    rw [sizesA, sizesB, rowsC, columnsC]
    exact if_pos ⟨rfl, rfl, rfl⟩

/-! ### Accepted batches -/

/-- The batch assigns the product of these operands, each behind a chain of the parity that the
variant reads it with. -/
structure Accepts (params : MatrixProduct) (batch : Batch) (operands : Operands) : Prop where
  product : ∃ chainA chainB, batch.Multiplies operands.c operands.a operands.b chainA chainB ∧
    chainA.bodd = params.transposedA ∧ chainB.bodd = params.transposedB
  conforming : operands.Conforming params.transposedA params.transposedB

variable {params : MatrixProduct} {batch : Batch} {operands : Operands}

theorem accepts_of_operands (found : params.operands batch = .ok operands) :
    params.Accepts batch operands := by
  obtain ⟨expression, only, found⟩ := bind_eq_ok_iff.1 found
  obtain ⟨alone, rfl⟩ := Batch.onlyExpression_eq_ok_iff.1 only
  split at found
  · next assigns target stands =>
      split at found
      · next product =>
          split at found
          · simp at found
          · next a turnedA left =>
              split at found
              · simp at found
              · next b turnedB right =>
                  split at found
                  · next flags =>
                      obtain ⟨rfl, rfl⟩ := Prod.mk.inj flags
                      obtain ⟨⟨rfl, rfl, rfl⟩, conforms⟩ := conforming_eq_ok_iff.1 found
                      obtain ⟨chainA, leadsA, parityA⟩ :=
                        Expression.bufferOperand?_eq_some_iff.1 left
                      obtain ⟨chainB, leadsB, parityB⟩ :=
                        Expression.bufferOperand?_eq_some_iff.1 right
                      have multiplies : batch.Multiplies operands.c operands.a operands.b
                          chainA chainB :=
                        ⟨alone, assigns, target, _, _, stands, product, rfl, leadsA, leadsB⟩
                      exact ⟨⟨chainA, chainB, multiplies, parityA, parityB⟩, conforms⟩
                  · simp at found
      · simp at found
  · simp at found

theorem operands_eq_ok_iff :
    params.operands batch = .ok operands ↔ params.Accepts batch operands := by
  constructor
  · exact accepts_of_operands
  · rintro ⟨⟨chainA, chainB, multiplies, parityA, parityB⟩, conforms⟩
    obtain ⟨index, ⟨lhs, operator, rhs⟩, stands, found, rfl, leadsA, leadsB⟩ := multiplies.product
    have left := Expression.bufferOperand?_eq_some_iff.2 ⟨chainA, leadsA, parityA⟩
    have right := Expression.bufferOperand?_eq_some_iff.2 ⟨chainB, leadsB, parityB⟩
    have fits := conforming_eq_ok_iff.2 ⟨⟨rfl, rfl, rfl⟩, conforms⟩
    refine bind_eq_ok_iff.2
      ⟨batch.first, Batch.onlyExpression_eq_ok_iff.2 ⟨multiplies.alone, rfl⟩, ?_⟩
    simp only [multiplies.assigns, multiplies.target, stands, found, left, right, ↓reduceIte, fits]

/-- A batch is measured by the operands that are accepted. -/
theorem sizes_eq_ok_iff {shape : Shape} :
    params.sizes batch = .ok shape ↔ ∃ operands, params.Accepts batch operands ∧
      shape = ⟨[Size.signed operands.m, Size.signed operands.n, Size.signed operands.k]⟩ := by
  rw [sizes, bind_eq_ok_iff]
  exact exists_congr fun operands =>
    and_congr operands_eq_ok_iff (pure_eq_ok_iff.trans eq_comm)

/-- A plan for accepted operands launches one kernel, and passes it the three matrices. -/
theorem plan_passes_operands {index : Nat} {plan : LaunchPlan}
    (accepts : params.Accepts batch operands) (planned : params.plan index batch = .ok plan) :
    ∃ launch, plan.launches = [launch] ∧
      launch.arguments = [.size operands.m, .size operands.n, .size operands.k,
        .buffer operands.c.id, .buffer operands.a.id, .buffer operands.b.id] := by
  obtain ⟨found, accepted, planned⟩ := bind_eq_ok_iff.1 planned
  cases (operands_eq_ok_iff.2 accepts).symm.trans accepted
  obtain ⟨⟨slot, entry, rows, columns⟩, _, planned⟩ := bind_eq_ok_iff.1 planned
  cases planned
  exact ⟨_, rfl, rfl⟩

theorem exists_path (sized : params.Sized) (index m n k : Nat) :
    ∃ path, params.path index m n k = .ok path := by
  unfold path
  rw [needsFallback_eq sized, checkedRoundUp, checkedRoundUp, if_neg sized.tileM_pos.ne',
    if_neg sized.tileN_pos.ne']
  by_cases full : params.tileM ∣ m ∧ params.tileN ∣ n ∧ params.tileK ∣ k
  · exact ⟨(.primary, primaryEntry index, m, n), by
      simp [bind, Except.bind, pure, Except.pure, full]⟩
  · exact ⟨(.fallback, fallbackEntry index, Size.word (Size.roundUp m params.tileM),
      Size.word (Size.roundUp n params.tileN)), by
      simp [bind, Except.bind, pure, Except.pure, full]⟩

/-- A variant that a profile lists plans for every batch that it accepts. -/
theorem exists_plan (sized : params.Sized) (accepts : params.Accepts batch operands)
    (index : Nat) : ∃ plan, params.plan index batch = .ok plan := by
  obtain ⟨path, chosen⟩ := exists_path sized index operands.m operands.n operands.k
  exact ⟨_, bind_eq_ok_iff.2 ⟨operands, operands_eq_ok_iff.2 accepts,
    bind_eq_ok_iff.2 ⟨path, chosen, rfl⟩⟩⟩

end MatrixProduct

/-! ### Constructed products -/

namespace Builder

/-- All nodes so far may stand where they are. -/
def Sound (builder : Builder) : Prop :=
  ∀ (index : Nat) (bound : index < builder.nodes.size),
    builder.nodes[index].Admissible builder.context index

variable {builder : Builder} {lhs rhs : Operand} {operator : Operator}

theorem Sound.push (sound : builder.Sound)
    (allowed : (Node.mk lhs operator rhs).Admissible builder.context builder.nodes.size) :
    (builder.push lhs operator rhs).1.Sound := by
  intro index bound
  simp only [Builder.push, Array.size_push] at bound
  simp only [Builder.push, Array.getElem_push]
  split
  · next earlier => exact sound index earlier
  · next last =>
      obtain rfl : index = builder.nodes.size := by omega
      exact allowed

/-- A sound builder is finished by its last node. -/
theorem Sound.exists_finish (sound : builder.Sound) {last : Nat}
    (isLast : last + 1 = builder.nodes.size) :
    ∃ expression, builder.finish (.node last) = .ok expression ∧
      expression.nodes = builder.nodes := by
  let expression : Expression := {
    nodes := builder.nodes
    context := builder.context
    elementType := builder.elementType
    nonempty := by omega
    admissible := sound }
  exact ⟨expression, finish_eq_ok_iff.2 ⟨⟨last, rfl, isLast⟩, rfl, rfl, rfl⟩, rfl⟩

/-- The nodes of the expression begin with those of the builder. -/
def Begins (builder : Builder) (expression : Expression) : Prop :=
  ∀ index < builder.nodes.size, expression.node? index = builder.nodes[index]?

variable {expression : Expression}

theorem Begins.last (begins : (builder.push lhs operator rhs).1.Begins expression) :
    expression.node? builder.nodes.size = some ⟨lhs, operator, rhs⟩ := by
  rw [begins _ (by simp [push])]
  exact Array.getElem?_push_size

theorem Begins.earlier (begins : (builder.push lhs operator rhs).1.Begins expression) :
    builder.Begins expression := by
  intro index bound
  rw [begins index (by simp only [push, Array.size_push]; omega)]
  exact (Array.getElem?_push_lt bound).trans (Array.getElem?_eq_getElem bound).symm

end Builder

namespace Expression

variable {builder : Builder} {handle : Buffer} {transposed : Bool} {expression : Expression}

theorem pushOperand_sound (sound : builder.Sound) (home : handle.context = builder.context) :
    (pushOperand builder handle transposed).1.Sound := by
  cases transposed with
  | false => exact sound
  | true => exact sound.push ⟨home, trivial⟩

@[simp] theorem pushOperand_context :
    (pushOperand builder handle transposed).1.context = builder.context := by
  cases transposed <;> rfl

/-- Behind what has been pushed for it, the operand may stand anywhere in its context. -/
theorem pushOperand_admissible {context : ContextId} (home : handle.context = context)
    {index : Nat} (behind : (pushOperand builder handle transposed).1.nodes.size ≤ index) :
    (pushOperand builder handle transposed).2.Admissible context index := by
  cases transposed with
  | false => exact home
  | true =>
      simp only [pushOperand, ↓reduceIte, Builder.push, Array.size_push] at behind
      exact behind

theorem pushOperand_size_le :
    builder.nodes.size ≤ (pushOperand builder handle transposed).1.nodes.size := by
  cases transposed with
  | false => exact Nat.le_refl _
  | true => simp [pushOperand, Builder.push]

theorem begins_of_pushOperand
    (begins : (pushOperand builder handle transposed).1.Begins expression) :
    builder.Begins expression := by
  cases transposed with
  | false => exact begins
  | true => exact begins.earlier

/-- The operand leads to the buffer, through a transposition when asked. -/
theorem leadsTo_pushOperand
    (begins : (pushOperand builder handle transposed).1.Begins expression) :
    expression.LeadsTo handle (pushOperand builder handle transposed).2 transposed.toNat := by
  cases transposed with
  | false => exact .buffer
  | true => exact .transpose begins.last rfl .buffer

theorem node?_rootIndex (expression : Expression) :
    expression.node? expression.rootIndex = some expression.root :=
  Array.getElem?_eq_getElem expression.rootIndex_lt

/-- The product of matrices of one context can be constructed, and a batch of it assigns the
product behind a transposition for every flag that is set. -/
theorem exists_matrixProduct {c a b : Buffer} (homeA : a.context = c.context)
    (homeB : b.context = c.context) (transposedA transposedB : Bool) :
    ∃ expression, matrixProduct c a b transposedA transposedB = .ok expression ∧
      ∀ batch : Batch, batch.expressions = [expression] →
        batch.Multiplies c a b transposedA.toNat transposedB.toNat := by
  let first := pushOperand ⟨c.context, c.elementType, #[]⟩ a transposedA
  let second := pushOperand first.1 b transposedB
  let third := second.1.push first.2 .matrixProduct second.2
  let last := third.1.push (.buffer c) .assign third.2
  have home : second.1.context = c.context := by simp [second, first]
  have firstSound : first.1.Sound := pushOperand_sound nofun homeA
  have secondSound : second.1.Sound := pushOperand_sound firstSound (by simpa [first] using homeB)
  have thirdSound : third.1.Sound := by
    apply secondSound.push
    rw [home]
    exact ⟨pushOperand_admissible homeA pushOperand_size_le,
      pushOperand_admissible homeB (Nat.le_refl _)⟩
  have lastSound : last.1.Sound := by
    apply thirdSound.push
    have earlier : second.1.nodes.size < third.1.nodes.size := by simp [third, Builder.push]
    exact ⟨home.symm, earlier⟩
  have size : third.1.nodes.size + 1 = last.1.nodes.size := by simp [last, Builder.push]
  obtain ⟨expression, finished, nodes⟩ := lastSound.exists_finish size
  refine ⟨expression, finished, fun batch only => ?_⟩
  obtain ⟨rfl, alone⟩ : batch.first = expression ∧ batch.rest = [] := List.cons.inj only
  have lastBegins : last.1.Begins batch.first := fun index _ =>
    congrArg (fun nodes : Array Node => nodes[index]?) nodes
  have thirdBegins : third.1.Begins batch.first := lastBegins.earlier
  have secondBegins : second.1.Begins batch.first := thirdBegins.earlier
  have firstBegins : first.1.Begins batch.first := begins_of_pushOperand secondBegins
  have rootAt : batch.first.rootIndex = third.1.nodes.size := by
    rw [rootIndex, nodes, ← size, Nat.add_sub_cancel]
  have root : batch.first.root = ⟨.buffer c, .assign, third.2⟩ := by
    have found := node?_rootIndex batch.first
    rw [rootAt, lastBegins.last] at found
    exact (Option.some.inj found).symm
  exact {
    alone
    assigns := congrArg Node.operator root
    target := congrArg Node.lhs root
    product := ⟨second.1.nodes.size, ⟨first.2, .matrixProduct, second.2⟩, congrArg Node.rhs root,
      thirdBegins.last, rfl, leadsTo_pushOperand firstBegins, leadsTo_pushOperand secondBegins⟩ }

end Expression

/-! ### Shapes -/

/-- A machine word keeps its value as a signed number when it is less than half of the words. -/
theorem Size.signed_eq_self_iff {value : Nat} (isWord : value < wordCount) :
    signed value = value ↔ value < 2 ^ 63 := by
  constructor
  · intro same
    unfold signed at same
    unfold wordCount at same isWord
    rw [Int.bmod_def] at same
    split at same <;> omega
  · intro small
    apply signed_eq_self
    unfold wordCount
    omega

namespace MatrixProduct

/-- The sizes as they are, without regard to how they are measured. -/
def Operands.shape (operands : Operands) : Shape := ⟨[operands.m, operands.n, operands.k]⟩

theorem shape_eq_iff {params : MatrixProduct} {batch : Batch} {operands : Operands}
    (accepts : params.Accepts batch operands) :
    params.sizes batch = .ok operands.shape ↔
      operands.m < 2 ^ 63 ∧ operands.n < 2 ^ 63 ∧ operands.k < 2 ^ 63 := by
  have found := operands_eq_ok_iff.2 accepts
  have checked := checked_of_operands found
  have wordM : operands.m < Size.wordCount := checked.rows ▸ operands.c.rows_lt
  have wordN : operands.n < Size.wordCount := checked.columns ▸ operands.c.columns_lt
  have measured : params.sizes batch =
      .ok ⟨[Size.signed operands.m, Size.signed operands.n, Size.signed operands.k]⟩ :=
    sizes_eq_ok_iff.2 ⟨operands, accepts, rfl⟩
  rw [measured, ← Size.signed_eq_self_iff wordM, ← Size.signed_eq_self_iff wordN,
    ← Size.signed_eq_self_iff checked.inner]
  simp [Operands.shape]

/-- A product that is constructed with flags is accepted by the variants of these flags. -/
theorem sizes_of_constructed {params : MatrixProduct} {operands : Operands}
    {transposedA transposedB : Bool} {batch : Batch}
    (conforms : operands.Conforming transposedA transposedB)
    (multiplies : batch.Multiplies operands.c operands.a operands.b transposedA.toNat
      transposedB.toNat) :
    (∃ shape, params.sizes batch = .ok shape) ↔
      params.transposedA = transposedA ∧ params.transposedB = transposedB := by
  have parity (flag : Bool) : flag.toNat.bodd = flag := by cases flag <;> rfl
  constructor
  · rintro ⟨shape, measured⟩
    obtain ⟨found, ⟨⟨chainA, chainB, other, parityA, parityB⟩, _⟩, _⟩ :=
      sizes_eq_ok_iff.1 measured
    obtain ⟨rfl, rfl⟩ := multiplies.chains_eq other
    exact ⟨parityA.symm.trans (parity transposedA), parityB.symm.trans (parity transposedB)⟩
  · rintro ⟨rfl, rfl⟩
    have accepts : params.Accepts batch operands :=
      ⟨⟨_, _, multiplies, parity params.transposedA, parity params.transposedB⟩, conforms⟩
    exact ⟨_, sizes_eq_ok_iff.2 ⟨operands, accepts, rfl⟩⟩

/-- A batch is measured exactly when it assigns the product of conforming matrices behind chains
of the variant's parities. The shape is `[M, N, K]` exactly when all three are signed numbers
of 64 bits, and a launch passes `C`, `A` and `B` in this order. Conforming matrices of one
context have a product for every pair of flags, and the variants of these flags accept it. -/
theorem resolution (params : MatrixProduct) (batch : Batch) :
    ((∃ shape, params.sizes batch = .ok shape) ↔ ∃ operands, params.Accepts batch operands) ∧
      (∀ operands, params.Accepts batch operands →
        (params.sizes batch = .ok operands.shape ↔
          operands.m < 2 ^ 63 ∧ operands.n < 2 ^ 63 ∧ operands.k < 2 ^ 63) ∧
        (∀ index plan, params.plan index batch = .ok plan →
          ∃ launch, plan.launches = [launch] ∧
            launch.arguments = [.size operands.m, .size operands.n, .size operands.k,
              .buffer operands.c.id, .buffer operands.a.id, .buffer operands.b.id]) ∧
        (params.Sized → ∀ index, ∃ plan, params.plan index batch = .ok plan)) ∧
      ∀ (operands : Operands) (transposedA transposedB : Bool),
        operands.Conforming transposedA transposedB →
        operands.a.context = operands.c.context → operands.b.context = operands.c.context →
        ∃ expression, Expression.matrixProduct operands.c operands.a operands.b transposedA
            transposedB = .ok expression ∧
          ∀ constructed : Batch, constructed.expressions = [expression] →
            ((∃ shape, params.sizes constructed = .ok shape) ↔
              params.transposedA = transposedA ∧ params.transposedB = transposedB) := by
  refine ⟨?measured, ?accepted, ?constructed⟩
  case measured =>
    constructor
    · rintro ⟨shape, measured⟩
      obtain ⟨operands, accepts, _⟩ := sizes_eq_ok_iff.1 measured
      exact ⟨operands, accepts⟩
    · rintro ⟨operands, accepts⟩
      exact ⟨_, sizes_eq_ok_iff.2 ⟨operands, accepts, rfl⟩⟩
  case accepted =>
    intro operands accepts
    exact ⟨shape_eq_iff accepts, fun _ _ planned => plan_passes_operands accepts planned,
      fun sized index => exists_plan sized accepts index⟩
  case constructed =>
    intro operands transposedA transposedB conforms homeA homeB
    obtain ⟨expression, made, assigned⟩ :=
      Expression.exists_matrixProduct homeA homeB transposedA transposedB
    exact ⟨expression, made, fun constructed only =>
      sizes_of_constructed conforms (assigned constructed only)⟩

/-! ### A transposed and an empty product -/

/-- A matrix of 5 rows and 12 columns, read transposed, times one of 5 rows and 20 columns. -/
def turned : Operands where
  c := ⟨⟨0⟩, .f32, .matrix 12 20, ⟨1⟩⟩
  a := ⟨⟨1⟩, .f32, .matrix 5 12, ⟨1⟩⟩
  b := ⟨⟨2⟩, .f32, .matrix 5 20, ⟨1⟩⟩
  m := 12
  n := 20
  k := 5

theorem turned_conforming : turned.Conforming true false where
  dimsC := rfl
  dimsA := rfl
  dimsB := rfl
  reachableC := (by decide : 12 * 20 ≤ Size.kernelLimit)
  reachableA := (by decide : 5 * 12 ≤ Size.kernelLimit)
  reachableB := (by decide : 5 * 20 ≤ Size.kernelLimit)

/-- A product of matrices as they are is measured by its sizes, and that of the transposed matrix
is accepted for tiles that transpose it. -/
theorem turned_resolved :
    (∃ operands, tiling.Accepts (.product 12 20 5) operands ∧
      tiling.sizes (.product 12 20 5) = .ok ⟨[12, 20, 5]⟩) ∧
    turned.Conforming true false ∧
      ∃ expression, Expression.matrixProduct turned.c turned.a turned.b true false =
          .ok expression ∧
        ∃ shape, { tiling with transposedA := true }.sizes (.single expression) = .ok shape := by
  refine ⟨?measured, turned_conforming, ?constructed⟩
  case measured =>
    have accepts := operands_eq_ok_iff.1
      (product_operands 12 20 5 (by decide) (by decide) (by decide))
    obtain ⟨_, accepted, _⟩ := resolution tiling (.product 12 20 5)
    exact ⟨_, accepts, (accepted _ accepts).1.2 (by decide)⟩
  case constructed =>
    obtain ⟨_, _, constructed⟩ :=
      resolution { tiling with transposedA := true } (.product 12 20 5)
    obtain ⟨expression, made, accepted_iff⟩ :=
      constructed turned true false turned_conforming rfl rfl
    exact ⟨expression, made, (accepted_iff (.single expression) rfl).2 ⟨rfl, rfl⟩⟩

/-- A product of `2 ^ 63` empty rows is accepted, and is not measured with that many rows. -/
theorem empty_rows_mismeasured :
    ∃ operands, tiling.Accepts (.product 0x8000000000000000 0 0) operands ∧
      operands.shape = ⟨[0x8000000000000000, 0, 0]⟩ ∧
      tiling.sizes (.product 0x8000000000000000 0 0) = .ok ⟨[-0x8000000000000000, 0, 0]⟩ ∧
      tiling.sizes (.product 0x8000000000000000 0 0) ≠ .ok operands.shape := by
  have operands := product_operands 0x8000000000000000 0 0 (by decide) (by decide) (by decide)
  have accepts := operands_eq_ok_iff.1 operands
  have negative : Size.signed (0x8000000000000000 : UInt64).toNat = -0x8000000000000000 := by decide
  have empty : Size.signed (0 : UInt64).toNat = 0 := by decide
  have measured : tiling.sizes (.product 0x8000000000000000 0 0) =
      .ok ⟨[-0x8000000000000000, 0, 0]⟩ := by
    rw [← negative, ← empty]
    exact sizes_eq_ok_iff.2 ⟨_, accepts, rfl⟩
  refine ⟨_, accepts, rfl, measured, ?_⟩
  rw [Ne, shape_eq_iff accepts]
  decide

end MatrixProduct

end KernelTuner
