import KernelTuner.Proofs.Kernel.Folding
import KernelTuner.Variant.InnerProduct

/-!
Contract: the work group of a pass of an inner product.

Owns: the segments of a group that sums up what its work items have, in which nobody races; and
`InnerProduct.shared_of_pass`, by which it leaves the sum of what they have in the one element that
it writes.

Does not own: what the work items have (`Proofs.Variant.InnerProductRuns`).
-/

set_option autoImplicit false

namespace KernelTuner

open Kernel
open Function (update)

namespace InnerProduct

variable {ι α : Type}

/-- Work items that are told apart by their places along the first dimension. -/
structure Teamed (seat : ι → Seat) (lane : ι → Nat) (size : Nat) : Prop where
  stands : ∀ item, seat item .localId 0 = lane item
  inside : ∀ item, lane item < size
  only : ∀ item other, lane item = lane other → item = other
  whole : ∀ entry < size, ∃ item, lane item = entry

section Definitions

variable (seat : ι → Seat) (sizes : Variables) (lane : ι → Nat) (type : ElementType) (size : Nat)
  (array : String) (index : Index) (adds : ι → List Step)

/-- The variables of a work item behind its declarations. -/
def declared (item : ι) : Variables := update sizes "lid" (lane item)

/-- The steps of a work item up to the fold. -/
def ownSteps (item : ι) : List Step :=
  [⟨sizes, .declareArray true type "buf" [.literal size]⟩,
    ⟨sizes, .declareIndex "lid" (.workItem .localId 0)⟩,
    ⟨declared sizes lane item, .declareValue ⟨type, 1⟩ "acc" (.literal 0)⟩] ++ adds item ++
    [⟨declared sizes lane item, .assign (.element "buf" [.var "lid"]) (read "acc")⟩]

/-- The steps of a work item behind the fold. -/
def storeSteps (item : ι) : List Step :=
  if lane item = 0 then
    [⟨declared sizes lane item, .assign (.element array [index]) (element "buf" (.literal 0))⟩]
  else []

/-- What a group does in a pass. -/
def passSegments (strides : List Nat) : List (Segment ι) :=
  [.work (ownSteps sizes lane type size adds)] ++
    (foldSegments seat (declared sizes lane) "lid" "buf" [] size strides ++
      [.work (storeSteps sizes lane array index)])

end Definitions

section Pass

variable {seat : ι → Seat} {sizes : Variables} {lane : ι → Nat} {type : ElementType} {size : Nat}
  {array : String} {index : Index} {adds : ι → List Step} {added : List Statement}
  {strides : List Nat} {sources : List String}

theorem Teamed.folds (teamed : Teamed seat lane size) :
    Folds seat (declared sizes lane) "lid" "buf" [] size lane fun _ => [] where
  laneKnown := fun item stride => by
    rw [Function.update_of_ne (by decide)]
    exact Function.update_self ..
  rowKnown := fun _ _ => rfl
  inside := teamed.inside
  only := fun item other _ => teamed.only item other
  whole := fun _ entry inside => (teamed.whole entry inside).imp fun _ same => ⟨rfl, same⟩

/-- The steps of a group through a pass. -/
theorem Teamed.unrolls (teamed : Teamed seat lane size)
    (counting : Counting (fun value => value / 2) (fun value => 0 < value) (foldStart size) strides)
    (inAdds : ∀ item, blockUnrolls (seat item) (declared sizes lane item) added (adds item))
    (inert : ∀ seat locals, blockBind seat locals added = locals) :
    GroupUnrolls seat (fun _ => sizes)
      (preamble type size ++ added ++ groupSum size (.element array [index]))
      (passSegments seat sizes lane type size array index adds strides) := by
  have behind (item : ι) : blockBind (seat item) sizes (preamble type size) =
      declared sizes lane item := by
    show update sizes "lid" (seat item .localId 0) = _
    rw [teamed.stands]
    rfl
  have front : GroupUnrolls seat (fun _ => sizes) (preamble type size ++ added ++
      [.run (.assign (.element "buf" [.var "lid"]) (read "acc"))])
        [.work (ownSteps sizes lane type size adds)] := by
    refine GroupUnrolls.work fun item => ?_
    refine blockUnrolls_append.2 ⟨_, _, rfl, blockUnrolls_append.2 ⟨_, _, rfl, ?_, ?_⟩, ?_⟩
    · exact blockUnrolls_run_cons.2 ⟨_, rfl, blockUnrolls_run_cons.2 ⟨_, rfl,
        blockUnrolls_singleton.2 (congrArg (fun locals =>
          [Step.mk locals (.declareValue ⟨type, 1⟩ "acc" (.literal 0))]) (behind item).symm)⟩⟩
    · rw [behind]
      exact inAdds item
    · rw [blockBind_append, inert, behind]
      exact blockUnrolls_singleton.2 rfl
  have bound (item : ι) : blockBind (seat item) sizes (preamble type size ++ added ++
      [.run (.assign (.element "buf" [.var "lid"]) (read "acc"))]) = declared sizes lane item := by
    rw [blockBind_append, blockBind_append, inert, behind]
    rfl
  have split : preamble type size ++ added ++ groupSum size (.element array [index]) =
      (preamble type size ++ added ++
        [.run (.assign (.element "buf" [.var "lid"]) (read "acc"))]) ++
        (localFold "lid" (fun index => .element "buf" ([] ++ [index])) size ++
          [.guarded (.equal (.var "lid") (.literal 0))
            (.assign (.element array [index]) (element "buf" (.literal 0))) false]) := by
    simp only [groupSum, List.append_assoc, List.nil_append]
  rw [split]
  refine front.append ?_
  simp only [bound]
  refine (groupUnrolls_localFold counting).append (.work fun item => blockUnrolls_singleton.2 ?_)
  have holds_iff : Condition.Holds (seat item) (declared sizes lane item)
      (.equal (.var "lid") (.literal 0)) ↔ lane item = 0 := by
    simp [Condition.Holds, Index.eval, declared]
  simp only [Statement.Unrolls, storeSteps, ← holds_iff]
  rfl

variable (keeps : ∀ item, ∀ step ∈ adds item, step.instruction.Keeps sources)

/-! ### Order -/

/-- The entry of the fold that a work item has for itself. -/
def ownEntry (lane : ι → Nat) (item : ι) : Set Touch := {entryOf "buf" [] (lane item)}

/-- The elements with which the first work item ends a pass. -/
def lastElements (seat : ι → Seat) (sizes : Variables) (lane : ι → Nat) (array : String)
    (index : Index) (item : ι) : Set Touch :=
  {touch | lane item = 0 ∧ (touch = entryOf "buf" [] 0 ∨
    touch = ⟨array, [index.eval (seat item) (declared sizes lane item)]⟩)}

theorem eval_lid (item : ι) :
    (Index.var "lid").eval (seat item) (declared sizes lane item) = lane item := by
  simp [Index.eval, declared]

theorem store_respects (teamed : Teamed seat lane size) (item : ι) :
    Respects seat (lastElements seat sizes lane array index) item
      (storeSteps sizes lane array index item) := by
  unfold storeSteps
  split
  · next first =>
      intro step listed
      obtain rfl := List.mem_singleton.1 listed
      constructor
      · intro touch writes
        obtain rfl := List.mem_singleton.1 writes
        exact ⟨first, .inr rfl⟩
      · intro touch inside other owns
        exact teamed.only other item (owns.1.trans first.symm)
  · exact Respects.nil

include keeps

theorem own_respects (teamed : Teamed seat lane size) (apart : "buf" ∉ sources) (item : ι) :
    Respects seat (ownEntry lane) item (ownSteps sizes lane type size adds item) := by
  have others : ∀ item, ∀ touch ∈ ownEntry lane item, touch.array ∉ sources := by
    rintro item touch rfl
    exact apart
  refine ((Respects.of_keeps ?_ others).append (.of_keeps (keeps item) others)).append ?_
  · simp [Instruction.Keeps, Value.arrays]
  · intro step listed
    obtain rfl := List.mem_singleton.1 listed
    have own : (⟨"buf", [(Index.var "lid").eval (seat item) (declared sizes lane item)]⟩ : Touch) =
        entryOf "buf" [] (lane item) := by
      rw [eval_lid]
      rfl
    constructor
    · intro touch writes
      obtain rfl := List.mem_singleton.1 writes
      exact own
    · intro touch inside other owns
      rcases inside with rfl | absent
      · have same := entryOf_inj.1 (own.symm.trans owns)
        exact teamed.only other item same.2.symm
      · cases absent

theorem pass_orderly (teamed : Teamed seat lane size) (apart : "buf" ∉ sources) :
    Orderly seat (ownEntry lane) (passSegments seat sizes lane type size array index adds strides)
      (lastElements seat sizes lane array index) :=
  ⟨own_respects keeps teamed apart, teamed.folds.orderly.append ⟨store_respects teamed, rfl⟩⟩

theorem pass_plain : ∀ segment ∈ passSegments seat sizes lane type size array index adds strides,
    segment.Plain := by
  intro segment listed
  simp only [passSegments, List.mem_append, List.mem_singleton] at listed
  rcases listed with rfl | folds | rfl
  · intro item step member
    rcases List.mem_append.1 member with (member | last)
    · rcases List.mem_append.1 member with (first | adding)
      · simp only [List.mem_cons, List.not_mem_nil, or_false] at first
        rcases first with rfl | rfl | rfl <;> nofun
      · exact (keeps item step adding).ne_barrier
    · obtain rfl := List.mem_singleton.1 last
      nofun
  · exact foldSegments_plain segment folds
  · intro item step member
    unfold storeSteps at member
    split at member
    · obtain rfl := List.mem_singleton.1 member
      nofun
    · cases member

omit keeps

/-! ### Sums -/

section Sums

variable [AddCommMonoid α] {meaning : Meaning α} {before after : View ι α} {value : Nat → α}

/-- What a work item has summed up is in its entry in front of the fold. -/
theorem entry_of_own (sums : meaning.Sums)
    (adding : ∀ item (memory : Memory α), memory.elements = before.shared →
      memory.registers "acc" 0 = 0 →
        (performAll meaning (seat item) memory (adds item)).registers "acc" 0 = value (lane item))
    (settles : Settles meaning seat (ownSteps sizes lane type size adds) before after) (item : ι) :
    after.shared (entryOf "buf" [] (lane item)) = value (lane item) := by
  have own : (⟨"buf", [(Index.var "lid").eval (seat item) (declared sizes lane item)]⟩ : Touch) =
      entryOf "buf" [] (lane item) := by
    rw [eval_lid]
    rfl
  have isWritten : entryOf "buf" [] (lane item) ∈
      written (seat item) (ownSteps sizes lane type size adds item) := by
    rw [ownSteps, written_append, ← own]
    exact List.mem_append_right _ (List.mem_singleton_self _)
  rw [settles.written item _ isWritten, ownSteps, performAll_append, performAll_append,
    performAll_cons, performAll_nil, ← own]
  refine Memory.elements_setElement_self.trans (adding item _ rfl ?_)
  refine (congrFun (Function.update_self "acc" _ (before.memory item).registers) 0).trans ?_
  exact sums.zero

theorem shared_of_pass (teamed : Teamed seat lane size) (sums : meaning.Sums)
    (small : size ≤ Size.kernelLimit)
    (counting : Counting (fun value => value / 2) (fun value => 0 < value) (foldStart size) strides)
    (adding : ∀ item (memory : Memory α), memory.elements = before.shared →
      memory.registers "acc" 0 = 0 →
        (performAll meaning (seat item) memory (adds item)).registers "acc" 0 = value (lane item))
    (runs : Runs meaning seat (passSegments seat sizes lane type size array index adds strides) before
      after) {item : ι} (first : lane item = 0) :
    after.shared ⟨array, [index.eval (seat item) (declared sizes lane item)]⟩ =
      ∑ entry ∈ Finset.range size, value entry := by
  obtain ⟨folding, settles, runs⟩ := runs_append.1 runs
  obtain ⟨folded, runs, stores⟩ := runs_append.1 runs
  rw [runs_work] at settles stores
  have steps : storeSteps sizes lane array index item =
      [⟨declared sizes lane item, .assign (.element array [index]) (element "buf" (.literal 0))⟩] :=
    if_pos first
  refine (stores.shared_of_assign steps rfl).trans ?_
  refine (teamed.folds.shared_of_runs sums small counting runs item).trans ?_
  refine Finset.sum_congr rfl fun entry inside => ?_
  obtain ⟨owner, rfl⟩ := teamed.whole entry (Finset.mem_range.1 inside)
  exact entry_of_own sums adding settles owner

end Sums

end Pass

end InnerProduct

end KernelTuner
