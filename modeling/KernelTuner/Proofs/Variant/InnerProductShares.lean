import KernelTuner.Proofs.Kernel.Folding
import KernelTuner.Proofs.Variant.Streams

/-!
Contract: the products that a work item of an inner product adds up.

Owns: the elements that a work item of a stream has, with arithmetic taken as exact; and
`InnerProduct.exists_accumulation`, by which a work item adds up the products of its elements,
whether it takes vectors or not.

Does not own: the sum of the work group (`Proofs.Variant.InnerProductSums`).
-/

set_option autoImplicit false

namespace KernelTuner

open Kernel
open Function (update)

/-! ### Shares -/

namespace Stream

/-- The elements that a work item of the stream has of `count`, with arithmetic taken as exact. -/
def share (stream : Stream) (count position : Nat) : List Nat :=
  stream.elements (portion stream.fetch stream.items (count / stream.width) position)
    (if 1 < stream.width then
      stepsBelow (count / stream.width * stream.width + position) count stream.items
    else portion stream.fetch stream.items count position)

variable {stream : Stream}

/-- The work items share out all elements. -/
theorem share_allotment (working : 0 < stream.items) (count : Nat) :
    Allotment stream.items (stream.share count) (List.range count) := by
  unfold share
  split
  · next wide =>
      have covered := Nat.div_mul_le_self count stream.width
      have left : count - count / stream.width * stream.width = count % stream.width := by
        have split := Nat.div_add_mod' count stream.width
        omega
      have scalars := strides_allotment covered working
      rw [left] at scalars
      exact allotment_elements wide (portion_allotment _ _ working) scalars
  · next narrow =>
      have alone : stream.Shared count (portion stream.fetch stream.items (count / stream.width))
          (portion stream.fetch stream.items count) :=
        shared_of_alone narrow (portion_allotment _ _ working)
      exact alone.elements

section Sums

variable {α : Type} [AddCommMonoid α] {term : Nat → α} {vector scalar : List Nat}

/-- A sum over vectors, lane by lane. -/
theorem sum_elements (wide : 1 < stream.width) :
    ((stream.elements vector scalar).map term).sum =
      ∑ lane ∈ Finset.range stream.width,
          (vector.map fun index => term (stream.width * index + lane)).sum +
        (scalar.map term).sum := by
  rw [elements, if_pos wide, List.map_append, List.sum_append]
  refine congrArg (· + (scalar.map term).sum) ?_
  induction vector with
  | nil => simp
  | cons index rest inductionHypothesis =>
      rw [List.flatMap_cons, List.map_append, List.sum_append, inductionHypothesis, sum_map_range',
        ← Finset.sum_add_distrib]
      simp only [List.map_cons, List.sum_cons]

end Sums

end Stream

/-! ### Products -/

namespace InnerProduct

variable {α : Type} {meaning : Meaning α} {seat : Seat} {locals : Variables} {memory : Memory α}
  {params : InnerProduct} {type : ElementType}

/-- The product of two elements that a work item finds. -/
def productAt (meaning : Meaning α) (memory : Memory α) (i : Nat) : α :=
  meaning.operate .mul (memory.elements ⟨"x", [i]⟩) (memory.elements ⟨"y", [i]⟩)

/-- Adds the product of two elements. -/
def addProduct : Instruction :=
  .accumulate (.var "acc") (.binary .mul (element "x" (.var "i")) (element "y" (.var "i")))

/-- Adds the products of two vectors. -/
def addVectors (width : Nat) : Instruction :=
  .accumulate (.var "vacc")
    (.binary .mul (.load width (.var "i") "x") (.load width (.var "i") "y"))

/-- The steps of a work item that takes vectors first: it adds up their products lane by lane, then
the lanes, and then the products of the elements behind the vectors. -/
def wideSteps (params : InnerProduct) (type : ElementType) (locals : Variables) (declared : List Step)
    (inner : Nat → Variables) (vectors tail : List Nat) : List Step :=
  ⟨locals, .declareValue ⟨type, params.simdWidth⟩ "vacc" (.literal 0)⟩ ::
    (declared ++ vectors.flatMap fun turn => [⟨inner turn, addVectors params.simdWidth⟩]) ++
  ⟨locals, .accumulate (.var "acc") (laneSum params.simdWidth)⟩ ::
    tail.flatMap fun turn => [⟨update locals "i" turn, addProduct⟩]

variable [AddCommMonoid α] (sums : meaning.Sums)
include sums

/-- The sum of the lanes is taken from the first on. -/
theorem laneSum_inLane {width : Nat} (some : 0 < width) (lane : Nat) :
    (laneSum width).inLane meaning seat locals memory lane =
      ∑ own ∈ Finset.range width, memory.registers "vacc" own := by
  have added (lanes : List Nat) (sum : Value) :
      (lanes.foldl (fun sum own => .binary .add sum (.lane "vacc" own)) sum).inLane meaning seat
          locals memory lane =
        sum.inLane meaning seat locals memory lane +
          (lanes.map fun own => memory.registers "vacc" own).sum := by
    induction lanes generalizing sum with
    | nil => exact (add_zero _).symm
    | cons own rest inductionHypothesis =>
        rw [List.foldl_cons, inductionHypothesis, List.map_cons, List.sum_cons, ← add_assoc]
        exact congrArg (· + _) (sums.add _ _)
  obtain ⟨rest, rfl⟩ := Nat.exists_eq_add_one.2 some
  rw [laneSum, added, Nat.add_sub_cancel, sum_map_range', Finset.sum_range_succ', add_comm]
  simp only [Nat.add_comm 1]
  rfl

theorem performAll_products {turns : List Nat} {inner : Nat → Variables}
    (counts : ∀ turn, inner turn "i" = turn) :
    performAll meaning seat memory (turns.flatMap fun turn => [⟨inner turn, addProduct⟩]) =
      memory.setVariable "acc" fun lane =>
        memory.registers "acc" lane + (turns.map (productAt meaning memory)).sum := by
  refine performAll_turns sums _ fun turn _ found lane => ?_
  simp [element, Value.inLane, Place.found, Index.eval, counts, productAt]

theorem performAll_vectors {turns : List Nat} {inner : Nat → Variables} {width : Nat}
    (counts : ∀ turn, inner turn "i" = turn) :
    performAll meaning seat memory (turns.flatMap fun turn => [⟨inner turn, addVectors width⟩]) =
      memory.setVariable "vacc" fun lane => memory.registers "vacc" lane +
        (turns.map fun turn => productAt meaning memory (width * turn + lane)).sum := by
  refine performAll_turns sums _ fun turn _ found lane => ?_
  simp [Value.inLane, Index.eval, counts, productAt]

theorem performAll_wideSteps (wide : 1 < params.simdWidth) {declared : List Step}
    (idle : ∀ step ∈ declared, step.Idle) {inner : Nat → Variables} {vectors tail : List Nat}
    (counts : ∀ turn, inner turn "i" = turn) :
    (performAll meaning seat memory
        (params.wideSteps type locals declared inner vectors tail)).registers "acc" 0 =
      memory.registers "acc" 0 +
        ((params.stream.elements vectors tail).map (productAt meaning memory)).sum := by
  let zeroed := memory.setVariable "vacc" fun _ => meaning.number 0
  let lanes := memory.setVariable "vacc" fun lane =>
    (vectors.map fun turn => productAt meaning memory (params.simdWidth * turn + lane)).sum
  have behindVectors : performAll meaning seat zeroed
      (vectors.flatMap fun turn => [⟨inner turn, addVectors params.simdWidth⟩]) = lanes := by
    rw [performAll_vectors sums counts, Memory.setVariable_setVariable]
    refine congrArg (memory.setVariable "vacc") (funext fun lane => ?_)
    rw [Memory.registers_setVariable_self, sums.zero, zero_add]
    rfl
  have behindLanes : Instruction.perform meaning seat locals lanes
      (.accumulate (.var "acc") (laneSum params.simdWidth)) =
        lanes.setVariable "acc" fun lane => memory.registers "acc" lane +
          ∑ own ∈ Finset.range params.simdWidth, lanes.registers "vacc" own := by
    simp only [Instruction.perform, sums.add, laneSum_inLane sums (Nat.zero_lt_of_lt wide)]
    rfl
  rw [wideSteps, List.cons_append, performAll_cons, List.append_assoc, performAll_append,
    performAll_idle idle, performAll_append, performAll_cons]
  show (performAll meaning seat (Instruction.perform meaning seat locals (performAll meaning seat
    zeroed _) (.accumulate (.var "acc") (laneSum params.simdWidth))) _).registers "acc" 0 = _
  rw [behindVectors, behindLanes, performAll_products sums fun turn => Function.update_self ..,
    Memory.registers_setVariable_self, Memory.registers_setVariable_self, add_assoc,
    Stream.sum_elements wide]
  simp only [lanes, Memory.registers_setVariable_self]
  rfl

variable (positive : 0 < seat .globalSize 0) (sized : seat .globalSize 0 = params.stream.items)
include positive sized

theorem exists_accumulation_of_narrow (narrow : ¬ 1 < params.simdWidth) :
    ∃ adds, blockUnrolls seat locals (params.accumulation type) adds ∧
      ∀ memory : Memory α, memory.registers "acc" 0 = 0 →
        (performAll meaning seat memory adds).registers "acc" 0 =
          ((params.stream.share (locals "N") (seat .globalId 0)).map
            (productAt meaning memory)).sum := by
  have shares : params.stream.share (locals "N") (seat .globalId 0) =
      portion params.fetch (seat .globalSize 0) (locals "N") (seat .globalId 0) := by
    rw [sized]
    exact (if_neg narrow).trans (if_neg narrow)
  obtain ⟨declared, idle, unrolls⟩ := @exists_unrolls_rangeLoop seat locals "i" (.var "N")
    (locals "N") [.run addProduct] (fun turn => [⟨rangeVariables params.fetch "i"
      (seat .globalSize 0) (locals "N") (seat .globalId 0) locals turn, addProduct⟩]) params.fetch 0
    positive (fun inner same => same "N" (by decide)) fun turn _ => blockUnrolls_singleton.2 rfl
  rw [accumulation, if_neg narrow]
  refine ⟨_, blockUnrolls_singleton.2 unrolls, fun memory start => ?_⟩
  rw [performAll_append, performAll_idle idle, performAll_products sums
    fun turn => rangeVariables_counter _ _ _ _ _ _, shares]
  rw [Memory.registers_setVariable_self, start, zero_add]

theorem exists_accumulation_of_wide (wide : 1 < params.simdWidth) :
    ∃ adds, blockUnrolls seat locals (params.accumulation type) adds ∧
      ∀ memory : Memory α, memory.registers "acc" 0 = 0 →
        (performAll meaning seat memory adds).registers "acc" 0 =
          ((params.stream.share (locals "N") (seat .globalId 0)).map
            (productAt meaning memory)).sum := by
  let vectors := portion params.fetch (seat .globalSize 0) (locals "N" / params.simdWidth)
    (seat .globalId 0)
  let tail := stepsBelow (locals "N" / params.simdWidth * params.simdWidth + seat .globalId 0)
    (locals "N") (seat .globalSize 0)
  have shares : params.stream.share (locals "N") (seat .globalId 0) =
      params.stream.elements vectors tail := by
    simp only [vectors, tail, sized]
    exact congrArg (params.stream.elements _) (if_pos wide)
  let inner := rangeVariables params.fetch "i" (seat .globalSize 0) (locals "N" / params.simdWidth)
    (seat .globalId 0) locals
  obtain ⟨declared, idle, unrolls⟩ := @exists_unrolls_rangeLoop seat locals "i"
    (.div (.var "N") (.literal params.simdWidth)) (locals "N" / params.simdWidth)
    [.run (addVectors params.simdWidth)] (fun turn => [⟨inner turn, addVectors params.simdWidth⟩])
    params.fetch 0 positive (fun inner same => by simp [Index.eval, same "N" (by decide)])
    fun turn _ => blockUnrolls_singleton.2 rfl
  have unrollsTail := @unrolls_tailLoop seat locals [.run addProduct]
    (fun turn => [⟨update locals "i" turn, addProduct⟩]) params.simdWidth positive
    fun turn _ => blockUnrolls_singleton.2 rfl
  rw [accumulation, if_pos wide]
  refine ⟨params.wideSteps type locals declared inner vectors tail, ?_, fun memory start => ?_⟩
  · refine blockUnrolls_run_cons.2 ⟨_, rfl, blockUnrolls_cons.2 ⟨_, _, rfl, unrolls, ?_⟩⟩
    rw [rangeLoop_bind]
    exact blockUnrolls_run_cons.2 ⟨_, rfl, blockUnrolls_singleton.2 unrollsTail⟩
  · rw [performAll_wideSteps sums wide idle fun turn => rangeVariables_counter _ _ _ _ _ _, start,
      zero_add, shares]

variable (params type seat locals) in
/-- A work item adds up the products of the elements that it has. -/
theorem exists_accumulation :
    ∃ adds, blockUnrolls seat locals (params.accumulation type) adds ∧
      ∀ memory : Memory α, memory.registers "acc" 0 = 0 →
        (performAll meaning seat memory adds).registers "acc" 0 =
          ((params.stream.share (locals "N") (seat .globalId 0)).map
            (productAt meaning memory)).sum := by
  by_cases wide : 1 < params.simdWidth
  · exact exists_accumulation_of_wide sums positive sized wide
  · exact exists_accumulation_of_narrow sums positive sized wide

end InnerProduct

end KernelTuner
