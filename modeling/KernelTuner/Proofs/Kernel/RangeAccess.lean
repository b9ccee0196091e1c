import KernelTuner.Proofs.Kernel.Access
import KernelTuner.Variant.RangeLoop

/-!
Contract: the turns of the loops that several kernels share.

Owns: that the loop over a range and the tail behind a vector loop run for indices of the
range only; that some work item runs for every index of the range; and the folds of local
memory.
-/

set_option autoImplicit false

namespace KernelTuner.Kernel

open Function (update)

variable {seat : Seat} {locals : Variables} {allowed : Set Touch}

/-- The place of an element of a row-major matrix. -/
theorem place_lt {row column rows columns : Nat} (rowInside : row < rows)
    (columnInside : column < columns) : row * columns + column < rows * columns := by
  have room := Nat.mul_le_mul_right columns rowInside
  rw [Nat.succ_mul] at room
  omega

/-- The lanes of a vector that lies among the whole vectors of a range lie in the range. -/
theorem lane_lt {count width vector lane : Nat} (whole : vector < count / width)
    (within : lane < width) : width * vector + lane < count := by
  have room := Nat.mul_le_mul_left width whole
  have covered := Nat.mul_div_le count width
  rw [Nat.mul_succ] at room
  omega

/-- The variables that the loop over a range declares. -/
def rangeNames (counter : String) : List String :=
  [counter, "chunk_" ++ counter, "start_" ++ counter, "end_" ++ counter]

/-- Variables that differ at most in the names that the loop over a range declares. -/
def SameOutside (counter : String) (inner outer : Variables) : Prop :=
  ∀ name ∉ rangeNames counter, inner name = outer name

theorem SameOutside.update {counter : String} {inner outer : Variables}
    (same : SameOutside counter inner outer) {name : String} (declared : name ∈ rangeNames counter)
    (value : Nat) : SameOutside counter (Function.update inner name value) outer := by
  intro other undeclared
  have apart : other ≠ name := fun equal => undeclared (by rwa [equal])
  rw [Function.update_of_ne apart]
  exact same other undeclared

@[simp] theorem rangeLoop_bind (fetch : Fetch) (counter : String) (count : Index)
    (dimension : Nat) (body : List Statement) :
    (rangeLoop fetch counter count dimension body).bind seat locals = locals := by
  cases fetch <;> rfl

/-- The indices of a range of `count` for which a work item runs, by its position among
`items`. -/
def share (fetch : Fetch) (items count position : Nat) : Set Nat :=
  let chunk := (count + items - 1) / items
  match fetch with
  | .contiguous => {index | position * chunk ≤ index ∧ index < min (position * chunk + chunk) count}
  | .staged | .strided => {index | index < count ∧ ∃ rounds, index = position + rounds * items}

/-- The variables in the body of the loop over a range. -/
def rangeVariables (fetch : Fetch) (counter : String) (items count position : Nat)
    (locals : Variables) (index : Nat) : Variables :=
  let chunk := (count + items - 1) / items
  match fetch with
  | .contiguous =>
      update (update (update (update locals ("chunk_" ++ counter) chunk)
        ("start_" ++ counter) (position * chunk))
        ("end_" ++ counter) (min (position * chunk + chunk) count)) counter index
  | .staged | .strided => update locals counter index

theorem share_lt {fetch : Fetch} {items count position index : Nat}
    (mine : index ∈ share fetch items count position) : index < count := by
  cases fetch with
  | staged => exact mine.1
  | strided => exact mine.1
  | contiguous => exact Nat.lt_of_lt_of_le mine.2 (Nat.min_le_right _ _)

/-- The work items together cover the range. -/
theorem share_covers (fetch : Fetch) {items count index : Nat} (nonempty : 0 < items)
    (below : index < count) : ∃ position < items, index ∈ share fetch items count position := by
  have strides : ∃ position < items, index < count ∧ ∃ rounds, index = position + rounds * items :=
    ⟨index % items, Nat.mod_lt _ nonempty, below, index / items, by
      rw [Nat.mul_comm, Nat.mod_add_div]⟩
  cases fetch with
  | staged => exact strides
  | strided => exact strides
  | contiguous =>
      let chunk := (count + items - 1) / items
      have wide : count ≤ items * chunk := by
        have remainder := Nat.mod_lt (count + items - 1) nonempty
        have split := Nat.div_add_mod (count + items - 1) items
        show count ≤ items * ((count + items - 1) / items)
        omega
      have positive : 0 < chunk := Nat.pos_of_mul_pos_left (Nat.lt_of_lt_of_le (by omega) wide)
      have split := Nat.div_add_mod index chunk
      have remainder := Nat.mod_lt index positive
      have start : index / chunk * chunk ≤ index := Nat.div_mul_le_self _ _
      refine ⟨index / chunk, ?_, start, ?_⟩
      · exact (Nat.div_lt_iff_lt_mul positive).2 (Nat.lt_of_lt_of_le below wide)
      · show index < min (index / chunk * chunk + chunk) count
        rw [Nat.mul_comm] at split
        omega

theorem rangeVariables_same (fetch : Fetch) (counter : String) (items count position : Nat)
    (index : Nat) : SameOutside counter
      (rangeVariables fetch counter items count position locals index) locals := by
  have start : SameOutside counter locals locals := fun _ _ => rfl
  have strides : SameOutside counter (update locals counter index) locals :=
    start.update List.mem_cons_self index
  cases fetch with
  | staged => exact strides
  | strided => exact strides
  | contiguous =>
      exact (((start.update (by simp [rangeNames]) _).update (by simp [rangeNames]) _).update
        (by simp [rangeNames]) _).update List.mem_cons_self _

theorem rangeVariables_counter (fetch : Fetch) (counter : String) (items count position : Nat)
    (index : Nat) :
    rangeVariables fetch counter items count position locals index counter = index := by
  cases fetch <;> exact Function.update_self _ _ _

/-- A work item runs the body of the loop over a range for the indices of its share. -/
theorem mem_touched_rangeLoop {fetch : Fetch} {counter : String} {count : Index}
    {dimension : Nat} {body : List Statement} {touch : Touch}
    (stable : ∀ inner, SameOutside counter inner locals →
      count.eval seat inner = count.eval seat locals) :
    touch ∈ (rangeLoop fetch counter count dimension body).touched seat locals ↔
      ∃ index ∈ share fetch (seat .globalSize dimension) (count.eval seat locals)
          (seat .globalId dimension),
        touch ∈ blockTouched seat (rangeVariables fetch counter (seat .globalSize dimension)
          (count.eval seat locals) (seat .globalId dimension) locals index) body := by
  have start : SameOutside counter locals locals := fun _ _ => rfl
  have strides : touch ∈ (Statement.loop ⟨counter, .workItem .globalId dimension,
      .less (.var counter) count, .advance (.workItem .globalSize dimension)⟩ body).touched seat
        locals ↔
      ∃ index ∈ share .strided (seat .globalSize dimension) (count.eval seat locals)
          (seat .globalId dimension),
        touch ∈ blockTouched seat (update locals counter index) body := by
    rw [mem_touched_loop]
    refine exists_congr fun index => and_congr_left fun _ => ?_
    apply LoopHead.turn_iff _ _ fun _ => rfl
    intro value
    have bound := stable (update locals counter value)
      (start.update List.mem_cons_self value)
    simp [Condition.Holds, Index.eval, bound]
  cases fetch with
  | staged => exact strides
  | strided => exact strides
  | contiguous =>
      have chunkApart : "chunk_" ++ counter ≠ "start_" ++ counter := by simp
      have startApart : "start_" ++ counter ≠ "end_" ++ counter := by simp
      have counterApart : "end_" ++ counter ≠ counter := by simp
      have bound (chunk position : Nat) := stable (update (update locals
        ("chunk_" ++ counter) chunk) ("start_" ++ counter) position)
          ((start.update (by simp [rangeNames]) _).update (by simp [rangeNames]) _)
      simp only [rangeLoop, Statement.touched_scope, mem_blockTouched_cons, Statement.touched_run,
        Instruction.touched, Statement.bind, Set.mem_empty_iff_false, false_or, mem_touched_loop,
        blockTouched_nil, or_false, Index.eval, Function.update_self, bound,
        Function.update_of_ne chunkApart]
      refine exists_congr fun index => and_congr_left fun _ => ?_
      generalize count.eval seat locals = length
      generalize seat .globalId dimension = position
      let chunk := (length + seat .globalSize dimension - 1) / seat .globalSize dimension
      rw [LoopHead.turn_iff 1 (min (position * chunk + chunk) length) (fun _ => rfl)
        (fun value => by simp [Condition.Holds, Index.eval, counterApart, chunk])]
      simp only [Index.eval, Function.update_of_ne startApart, Function.update_self, Nat.mul_one]
      have behind : (∃ rounds, index = position * chunk + rounds) ↔ position * chunk ≤ index := by
        constructor
        · rintro ⟨rounds, rfl⟩
          exact Nat.le_add_right _ _
        · exact Nat.exists_eq_add_of_le
      exact and_comm.trans (and_congr_left fun _ => behind)

/-- The body of the loop over a range runs for counters inside the range only. -/
theorem rangeLoop_subset {fetch : Fetch} {counter : String} {count : Index} {dimension : Nat}
    {body : List Statement}
    (stable : ∀ inner, SameOutside counter inner locals →
      count.eval seat inner = count.eval seat locals)
    (inside : ∀ inner, SameOutside counter inner locals →
      inner counter < count.eval seat locals → blockTouched seat inner body ⊆ allowed) :
    (rangeLoop fetch counter count dimension body).touched seat locals ⊆ allowed := by
  intro touch touched
  obtain ⟨index, mine, touched⟩ := (mem_touched_rangeLoop stable).1 touched
  refine inside _ (rangeVariables_same _ _ _ _ _ _) ?_ touched
  rw [rangeVariables_counter]
  exact share_lt mine

/-- For every index of a range a work item runs the body of the loop. -/
theorem rangeLoop_covers (fetch : Fetch) {items length index : Nat} (nonempty : 0 < items)
    (below : index < length) :
    ∃ position < items, ∀ {seat : Seat} {locals : Variables} {counter : String} {count : Index}
      {dimension : Nat} {body : List Statement} {touch : Touch},
      seat .globalId dimension = position → seat .globalSize dimension = items →
      (∀ inner, SameOutside counter inner locals → count.eval seat inner = length) →
      (∀ inner, SameOutside counter inner locals → inner counter = index →
        touch ∈ blockTouched seat inner body) →
      touch ∈ (rangeLoop fetch counter count dimension body).touched seat locals := by
  obtain ⟨position, inside, mine⟩ := share_covers fetch nonempty below
  refine ⟨position, inside, ?_⟩
  intro seat locals counter count dimension body touch stands sized stable touched
  have counted : count.eval seat locals = length := stable locals fun _ _ => rfl
  rw [mem_touched_rangeLoop fun inner same => (stable inner same).trans counted.symm]
  refine ⟨index, ?_,
    touched _ (rangeVariables_same _ _ _ _ _ _) (rangeVariables_counter _ _ _ _ _ _)⟩
  rw [stands, sized, counted]
  exact mine

/-- The scalar tail of a vector loop runs below `N`, behind the whole vectors. -/
theorem mem_touched_tailLoop {width : Nat} {body : List Statement} {touch : Touch} :
    touch ∈ (tailLoop width body).touched seat locals ↔
      ∃ index, (index < locals "N" ∧ ∃ rounds, index =
          locals "N" / width * width + seat .globalId 0 + rounds * seat .globalSize 0) ∧
        touch ∈ blockTouched seat (update locals "i" index) body := by
  unfold tailLoop
  rw [mem_touched_loop]
  refine exists_congr fun index => and_congr_left fun _ => ?_
  apply LoopHead.turn_iff _ _ fun _ => rfl
  intro value
  simp [Condition.Holds, Index.eval]

/-- For every index behind the whole vectors a work item runs the tail. -/
theorem tailLoop_covers {width items index : Nat} (nonempty : 0 < items)
    (below : index < locals "N") (behind : locals "N" / width ≤ index / width) :
    ∃ position < items, ∀ {seat : Seat} {body : List Statement} {touch : Touch},
      seat .globalId 0 = position → seat .globalSize 0 = items →
      touch ∈ blockTouched seat (update locals "i" index) body →
      touch ∈ (tailLoop width body).touched seat locals := by
  have start : locals "N" / width * width ≤ index :=
    Nat.le_trans (Nat.mul_le_mul_right width behind) (Nat.div_mul_le_self index width)
  have split := Nat.mod_add_div' (index - locals "N" / width * width) items
  refine ⟨_, Nat.mod_lt (index - locals "N" / width * width) nonempty, ?_⟩
  intro seat body touch stands sized touched
  refine mem_touched_tailLoop.2 ⟨index, ⟨below, ?_⟩, touched⟩
  rw [stands, sized]
  exact ⟨(index - locals "N" / width * width) / items, by omega⟩

theorem tailLoop_subset {width : Nat} {body : List Statement}
    (inside : ∀ inner, SameOutside "i" inner locals → inner "i" < locals "N" →
      blockTouched seat inner body ⊆ allowed) :
    (tailLoop width body).touched seat locals ⊆ allowed := by
  have start : SameOutside "i" locals locals := fun _ _ => rfl
  intro touch touched
  obtain ⟨index, ⟨below, _⟩, touched⟩ := mem_touched_tailLoop.1 touched
  apply inside _ (start.update List.mem_cons_self index) _ touched
  simpa using below

/-- A fold touches nothing but the entries that it folds. -/
theorem localFold_subset {lane : String} {place : Index → Place} {size : Nat}
    (scratch : ∀ inner index, (place index).touched seat inner ⊆ allowed) :
    blockTouched seat locals (localFold lane place size) ⊆ allowed := by
  simp [localFold, Instruction.touched, scratch]

end KernelTuner.Kernel
