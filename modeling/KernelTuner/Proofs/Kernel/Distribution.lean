import KernelTuner.Proofs.Kernel.Counters
import KernelTuner.Proofs.Kernel.RangeAccess
import Mathlib.Data.List.Nodup

/-!
Contract: how the loops over a range share it out.

Owns: lists that allot a range to work items; the counters of a strided and of a chunked
loop in 32 bits; and the exact conditions under which such loops end and allot their range.

A strided counter that steps over the last element of its range must not wrap: where it does,
it comes back to an element with which a work item starts. A chunk must not wrap where it
starts, and the last one must not where it ends.
-/

set_option autoImplicit false

namespace KernelTuner.Kernel

open Function (update)

/-! ### Allotments -/

/-- The lists of work items that together have each value of `whole` once. -/
def Allotment (items : Nat) (values : Nat → List Nat) (whole : List Nat) : Prop :=
  ((List.range items).flatMap values).Perm whole

namespace Allotment

variable {items value : Nat} {values : Nat → List Nat} {whole : List Nat}

/-- Lists that each have the values of one owner. -/
theorem of_owner (owner : Nat → Nat) (distinct : whole.Nodup)
    (nodup : ∀ position < items, (values position).Nodup)
    (owned : ∀ position < items, ∀ value,
      value ∈ values position ↔ value ∈ whole ∧ owner value = position)
    (inside : ∀ value ∈ whole, owner value < items) : Allotment items values whole := by
  have disjoint : ((List.range items).flatMap values).Nodup := by
    refine List.nodup_flatMap.2
      ⟨fun position member => nodup position (List.mem_range.1 member), ?_⟩
    refine List.nodup_range.imp_of_mem fun {left right} leftMember rightMember apart => ?_
    intro value inLeft inRight
    have leftOwned := ((owned left (List.mem_range.1 leftMember) value).1 inLeft).2
    have rightOwned := ((owned right (List.mem_range.1 rightMember) value).1 inRight).2
    exact apart (leftOwned.symm.trans rightOwned)
  refine (List.perm_ext_iff_of_nodup disjoint distinct).2 fun value => ?_
  rw [List.mem_flatMap]
  constructor
  · rintro ⟨position, member, listed⟩
    exact ((owned position (List.mem_range.1 member) value).1 listed).1
  · intro member
    have position := inside value member
    exact ⟨owner value, List.mem_range.2 position, (owned _ position value).2 ⟨member, rfl⟩⟩

variable (allotment : Allotment items values whole)
include allotment

theorem exists_position (member : value ∈ whole) : ∃ position < items, value ∈ values position := by
  obtain ⟨position, inside, listed⟩ := List.mem_flatMap.1 ((List.Perm.mem_iff allotment).2 member)
  exact ⟨position, List.mem_range.1 inside, listed⟩

theorem mem_whole {position : Nat} (inside : position < items) (listed : value ∈ values position) :
    value ∈ whole :=
  (List.Perm.mem_iff allotment).1
    (List.mem_flatMap.2 ⟨position, List.mem_range.2 inside, listed⟩)

theorem nodup (distinct : whole.Nodup) {position : Nat} (inside : position < items) :
    (values position).Nodup :=
  (List.nodup_flatMap.1 ((List.Perm.nodup_iff allotment).2 distinct)).1 position
    (List.mem_range.2 inside)

theorem position_eq (distinct : whole.Nodup) {left right : Nat} (leftInside : left < items)
    (rightInside : right < items) (inLeft : value ∈ values left) (inRight : value ∈ values right) :
    left = right := by
  have separate := (List.nodup_flatMap.1 ((List.Perm.nodup_iff allotment).2 distinct)).2
  have disjoint (first second : Nat) (ordered : first < second) (bound : second < items) :
      (values first).Disjoint (values second) := by
    have places := List.pairwise_iff_getElem.1 separate first second
      (by rw [List.length_range]; omega) (by rwa [List.length_range]) ordered
    simpa only [Function.onFun, List.getElem_range] using places
  rcases Nat.lt_trichotomy left right with before | same | behind
  · exact (disjoint left right before rightInside inLeft inRight).elim
  · exact same
  · exact (disjoint right left behind leftInside inRight inLeft).elim

end Allotment

/-! ### Strided loops -/

/-- The counters of a work item that strides over the range from `base` up to `bound`. -/
def Strides (base bound items position : Nat) (values : List Nat) : Prop :=
  Counting (fun value => (value + items) % uintCount) (fun value => value < bound)
    ((base + position) % uintCount) values

section Strides

variable {base bound items : Nat} {values : Nat → List Nat}

/-- Strides that do not wrap share out the range. -/
theorem exists_strides_allotment (ordered : base ≤ bound) (nonempty : 0 < items)
    (room : bound + items ≤ uintCount) :
    ∃ values, (∀ position < items, Strides base bound items position (values position)) ∧
      Allotment items values (List.range' base (bound - base)) := by
  have each (position : Nat) (inside : position < items) :
      ∃ values, Strides base bound items position values ∧ values.Nodup ∧
        ∀ value, value ∈ values ↔
          value < bound ∧ ∃ rounds, value = base + position + rounds * items := by
    have start : (base + position) % uintCount = base + position := Nat.mod_eq_of_lt (by omega)
    simp only [Strides, start]
    refine Counting.exists_ascending nonempty (fun _ => Iff.rfl) (fun value below => ?_) _
    exact Nat.mod_eq_of_lt (by omega)
  choose! values counts nodup members using each
  refine ⟨values, counts, Allotment.of_owner (fun value => (value - base) % items)
    List.nodup_range' nodup ?_ fun value _ => Nat.mod_lt _ nonempty⟩
  intro position inside value
  rw [members position inside, List.mem_range'_1]
  constructor
  · rintro ⟨below, rounds, rfl⟩
    have offset : base + position + rounds * items - base = position + rounds * items := by omega
    rw [offset, Nat.add_mul_mod_self_right, Nat.mod_eq_of_lt inside]
    exact ⟨by omega, rfl⟩
  · rintro ⟨⟨behind, below⟩, rfl⟩
    have split := Nat.mod_add_div' (value - base) items
    exact ⟨by omega, (value - base) / items, by omega⟩

/-- A counter that starts inside the range takes its start. -/
theorem Strides.start_mem {position : Nat} {values : List Nat}
    (counts : Strides base bound items position values)
    (starts : (base + position) % uintCount < bound) : (base + position) % uintCount ∈ values := by
  obtain ⟨later, rfl, _⟩ := counts.eq_cons starts
  exact List.mem_cons_self

/-- A stride from the last element that wraps into the range comes to where a work item starts. -/
theorem room_of_strides_allotment_of_some (some : base < bound) (boundSmall : bound < uintCount)
    (itemsSmall : items < uintCount)
    (counts : ∀ position < items, Strides base bound items position (values position))
    (allotment : Allotment items values (List.range' base (bound - base))) :
    bound + items ≤ uintCount := by
  by_contra wraps
  have distinct : (List.range' base (bound - base)).Nodup := List.nodup_range'
  have last : bound - 1 ∈ List.range' base (bound - base) := by
    rw [List.mem_range'_1]
    omega
  obtain ⟨position, inside, listed⟩ := allotment.exists_position last
  have moved : (bound - 1 + items) % uintCount = bound + items - 1 - uintCount := by
    rw [Nat.mod_eq_sub_mod (by omega), Nat.mod_eq_of_lt (by omega)]
    omega
  have again := (counts position inside).moved_mem_tail listed
    (show (bound - 1 + items) % uintCount < bound by omega)
  rw [moved] at again
  have within := allotment.mem_whole inside (List.mem_of_mem_tail again)
  rw [List.mem_range'_1] at within
  have starts := counts (bound + items - 1 - uintCount - base) (by omega)
  have start : (base + (bound + items - 1 - uintCount - base)) % uintCount =
      bound + items - 1 - uintCount := by
    rw [Nat.mod_eq_of_lt (by omega)]
    omega
  have shared := starts.start_mem (by omega)
  rw [start] at shared
  have same :=
    allotment.position_eq distinct (by omega) inside shared (List.mem_of_mem_tail again)
  -- the element would stand twice in one list: first, and behind the last element
  rw [Strides, start] at starts
  obtain ⟨later, first, _⟩ := starts.eq_cons (by omega)
  have nodup := allotment.nodup distinct inside
  rw [← same, first] at nodup again
  exact (List.nodup_cons.1 nodup).1 again

/-- Where strides share out the range, the one over its last element does not wrap. -/
theorem room_of_strides_allotment (ordered : base ≤ bound) (boundSmall : bound < uintCount)
    (itemsSmall : items < uintCount)
    (counts : ∀ position < items, Strides base bound items position (values position))
    (allotment : Allotment items values (List.range' base (bound - base))) :
    bound + items ≤ uintCount := by
  rcases Nat.lt_or_ge base bound with some | none
  · exact room_of_strides_allotment_of_some some boundSmall itemsSmall counts allotment
  · by_contra wraps
    have inside : uintCount - bound < items := by omega
    have start : (base + (uintCount - bound)) % uintCount = 0 := by
      rw [show base + (uintCount - bound) = uintCount by omega, Nat.mod_self]
    have started := (counts (uintCount - bound) inside).start_mem (by omega)
    have within := allotment.mem_whole inside started
    rw [start, List.mem_range'_1] at within
    omega

end Strides

/-! ### Chunks -/

/-- The size of the chunks of a range. -/
def chunkSize (bound items : Nat) : Nat := (bound + items - 1) / items

/-- The counters of a work item that has a chunk of the range up to `bound`. -/
def Chunks (bound items position : Nat) (values : List Nat) : Prop :=
  Counting (fun value => (value + 1) % uintCount)
    (fun value => value <
      min ((position * chunkSize bound items % uintCount + chunkSize bound items) % uintCount)
        bound)
    (position * chunkSize bound items % uintCount) values

section Chunks

variable {bound items : Nat} {values : Nat → List Nat}

theorem le_items_mul_chunkSize (nonempty : 0 < items) : bound ≤ items * chunkSize bound items := by
  have remainder := Nat.mod_lt (bound + items - 1) nonempty
  have split := Nat.div_add_mod (bound + items - 1) items
  show bound ≤ items * ((bound + items - 1) / items)
  omega

theorem items_mul_chunkSize_le (bound items : Nat) :
    items * chunkSize bound items ≤ bound + items - 1 := Nat.mul_div_le _ _

theorem chunkSize_pos (nonempty : 0 < items) (some : 0 < bound) : 0 < chunkSize bound items :=
  Nat.div_pos (by omega) nonempty

theorem chunkSize_le (nonempty : 0 < items) (some : 0 < bound) : chunkSize bound items ≤ bound := by
  refine Nat.div_le_of_le_mul ?_
  obtain ⟨others, rfl⟩ : ∃ others, items = others + 1 := ⟨items - 1, by omega⟩
  have product := Nat.mul_le_mul_left others some
  rw [Nat.succ_mul]
  omega

/-- No multiple that covers a value is below the value rounded up. -/
theorem roundUp_le {value multiple factor : Nat} (covered : value ≤ factor * multiple) :
    Size.roundUp value multiple ≤ factor * multiple := by
  rcases Nat.eq_zero_or_pos multiple with rfl | positive
  · simp [Size.roundUp]
  refine Nat.mul_le_mul_right multiple ?_
  rw [Nat.mul_comm] at covered
  split
  · exact Nat.div_le_of_le_mul covered
  · next ragged =>
      refine Nat.div_lt_of_lt_mul (Nat.lt_of_le_of_ne covered ?_)
      rintro rfl
      exact ragged (Nat.mul_mod_right _ _)

/-- A value rounded up reaches the end of every multiple that begins below the value. -/
theorem add_le_roundUp {value multiple factor : Nat} (begins : factor * multiple < value) :
    factor * multiple + multiple ≤ Size.roundUp value multiple := by
  rcases Nat.eq_zero_or_pos multiple with rfl | positive
  · exact Nat.zero_le _
  rw [← Nat.succ_mul]
  refine Nat.mul_le_mul_right multiple (?_ : factor < _)
  split
  · next whole =>
      rw [Nat.add_zero]
      exact (Nat.lt_div_iff_mul_lt' (Nat.dvd_of_mod_eq_zero whole) factor).2 (by rwa [Nat.mul_comm])
  · exact Nat.lt_succ_of_le ((Nat.le_div_iff_mul_le positive).2 begins.le)

/-- The first multiple that is not below a value. -/
theorem exists_first_multiple (value : Nat) {multiple : Nat} (positive : 0 < multiple) :
    ∃ factor, value ≤ factor * multiple ∧ factor * multiple < value + multiple := by
  have remainder := Nat.mod_lt (value + multiple - 1) positive
  have split := Nat.div_add_mod' (value + multiple - 1) multiple
  exact ⟨(value + multiple - 1) / multiple, by omega, by omega⟩

/-- A counter below `finish` takes each value from its start on, once. -/
theorem exists_counting_up {finish : Nat} (small : finish < uintCount) (start : Nat) :
    ∃ values, Counting (fun value => (value + 1) % uintCount) (fun value => value < finish) start
        values ∧ values.Nodup ∧ ∀ value, value ∈ values ↔ start ≤ value ∧ value < finish := by
  obtain ⟨values, counts, nodup, members⟩ := Counting.exists_ascending Nat.one_pos
    (fun value => Iff.rfl) (fun value (below : value < finish) =>
      Nat.mod_eq_of_lt (show value + 1 < uintCount by omega)) start
  refine ⟨values, counts, nodup, fun value => (members value).trans ?_⟩
  constructor
  · rintro ⟨below, rounds, rfl⟩
    exact ⟨Nat.le_add_right _ _, below⟩
  · rintro ⟨behind, below⟩
    exact ⟨below, value - start, by omega⟩

/-- What a work item counts through is what lies in its chunk, as the device bounds it. -/
theorem Chunks.mem_iff {position value : Nat} {values : List Nat} (small : bound < uintCount)
    (counts : Chunks bound items position values) :
    value ∈ values ↔ position * chunkSize bound items % uintCount ≤ value ∧
      value < min
        ((position * chunkSize bound items % uintCount + chunkSize bound items) % uintCount)
        bound := by
  obtain ⟨others, other, _, members⟩ :=
    exists_counting_up (Nat.lt_of_le_of_lt (Nat.min_le_right _ bound) small) _
  rw [← members value, other.unique counts]

/-- Chunks of which none wraps at its start and the last not at its end share out the range. -/
theorem exists_chunks_allotment (nonempty : 0 < items) (small : bound < uintCount)
    (starts : (items - 1) * chunkSize bound items < uintCount)
    (ends : Size.roundUp bound (chunkSize bound items) < uintCount) :
    ∃ values, (∀ position < items, Chunks bound items position (values position)) ∧
      Allotment items values (List.range bound) := by
  have covers : bound ≤ items * chunkSize bound items := le_items_mul_chunkSize nonempty
  have each (position : Nat) (_ : position < items) :
      ∃ values, Chunks bound items position values ∧ values.Nodup := by
    obtain ⟨values, counts, nodup, _⟩ :=
      exists_counting_up (Nat.lt_of_le_of_lt (Nat.min_le_right _ bound) small) _
    exact ⟨values, counts, nodup⟩
  choose! values counts nodup using each
  refine ⟨values, counts, Allotment.of_owner (fun value => value / chunkSize bound items)
    List.nodup_range nodup ?owned ?inside⟩
  case inside =>
    intro value member
    refine Nat.div_lt_of_lt_mul ?_
    rw [Nat.mul_comm]
    exact Nat.lt_of_lt_of_le (List.mem_range.1 member) covers
  case owned =>
    intro position inside value
    have before : position * chunkSize bound items ≤ (items - 1) * chunkSize bound items :=
      Nat.mul_le_mul_right _ (by omega)
    rw [(counts position inside).mem_iff small, Nat.mod_eq_of_lt (by omega), List.mem_range]
    rcases Nat.lt_or_ge (position * chunkSize bound items) bound with begins | beyond
    · have ending := add_le_roundUp begins
      have positive : 0 < chunkSize bound items := Nat.pos_of_ne_zero fun absent => by
        rw [absent] at covers
        omega
      rw [Nat.mod_eq_of_lt (by omega), Nat.lt_min, Nat.div_eq_iff positive]
      omega
    · constructor
      · rintro ⟨behind, below⟩
        omega
      · rintro ⟨below, rfl⟩
        have start := Nat.div_mul_le_self value (chunkSize bound items)
        omega

/-- Where chunks share out the range, none wraps at its start: the first that does begins inside
the first chunk of all. -/
theorem starts_of_chunks_allotment (some : 0 < bound) (boundSmall : bound < uintCount)
    (nonempty : 0 < items)
    (counts : ∀ position < items, Chunks bound items position (values position))
    (allotment : Allotment items values (List.range bound)) :
    (items - 1) * chunkSize bound items < uintCount := by
  have positive := chunkSize_pos nonempty some
  have short := chunkSize_le nonempty some
  have total := items_mul_chunkSize_le bound items
  have large : 8 ≤ uintCount := by decide
  have members {position value : Nat} (inside : position < items) :=
    @Chunks.mem_iff bound items position value (values position) boundSmall (counts position inside)
  generalize chunkSize bound items = chunk at *
  generalize uintCount = limit at *
  by_contra far
  obtain ⟨wrapped, reaches, first⟩ := exists_first_multiple limit positive
  have whole : items * chunk = (items - 1) * chunk + chunk := by
    rw [← Nat.succ_mul, Nat.succ_eq_add_one, Nat.sub_add_cancel nonempty]
  have inside : wrapped < items :=
    Nat.lt_of_mul_lt_mul_right (show wrapped * chunk < items * chunk by omega)
  have several : 3 ≤ items := by
    by_contra few
    have alone : (items - 1) * chunk ≤ 1 * chunk := Nat.mul_le_mul_right _ (by omega)
    omega
  have thin : 3 * (chunk - 1) ≤ bound - 1 := by
    have spread := Nat.mul_le_mul_right (chunk - 1) several
    rw [Nat.mul_sub_one items chunk] at spread
    omega
  have begins : wrapped * chunk % limit = wrapped * chunk - limit := by
    rw [Nat.mod_eq_sub_mod (by omega), Nat.mod_eq_of_lt (by omega)]
  have own : wrapped * chunk - limit ∈ values wrapped := by
    rw [members inside, begins, Nat.mod_eq_of_lt (by omega)]
    omega
  have foreign : wrapped * chunk - limit ∈ values 0 := by
    rw [members nonempty, Nat.zero_mul, Nat.zero_mod, Nat.zero_add, Nat.mod_eq_of_lt (by omega)]
    omega
  have same := allotment.position_eq List.nodup_range inside nonempty own foreign
  rw [same, Nat.zero_mul] at reaches
  omega

/-- Then the chunk with the last element does not wrap at its end. -/
theorem ends_of_chunks_allotment (some : 0 < bound) (boundSmall : bound < uintCount)
    (counts : ∀ position < items, Chunks bound items position (values position))
    (allotment : Allotment items values (List.range bound))
    (starts : (items - 1) * chunkSize bound items < uintCount) :
    Size.roundUp bound (chunkSize bound items) < uintCount := by
  obtain ⟨position, inside, listed⟩ :=
    allotment.exists_position (List.mem_range.2 (show bound - 1 < bound by omega))
  have nonempty : 0 < items := Nat.zero_lt_of_lt inside
  have short := chunkSize_le nonempty some
  rw [(counts position inside).mem_iff boundSmall] at listed
  generalize chunkSize bound items = chunk at *
  generalize uintCount = limit at *
  have before : position * chunk ≤ (items - 1) * chunk := Nat.mul_le_mul_right _ (by omega)
  rw [Nat.mod_eq_of_lt (by omega)] at listed
  obtain ⟨begins, ends⟩ := listed
  have ending : position * chunk + chunk < limit := by
    by_contra wraps
    rw [Nat.mod_eq_sub_mod (by omega), Nat.mod_eq_of_lt (by omega)] at ends
    omega
  rw [Nat.mod_eq_of_lt ending] at ends
  rw [← Nat.succ_mul] at ending ends
  exact Nat.lt_of_le_of_lt (roundUp_le (by omega)) ending

end Chunks

/-! ### Loops -/

/-- The counters of the loop over a range up to `bound`. -/
def Ranges (fetch : Fetch) (bound items position : Nat) (values : List Nat) : Prop :=
  match fetch with
  | .contiguous => Chunks bound items position values
  | .staged | .strided => Strides 0 bound items position values

/-- The loop over a range up to `bound` does not wrap before it is done. -/
def RangeFits (fetch : Fetch) (bound items : Nat) : Prop :=
  match fetch with
  | .contiguous => (items - 1) * chunkSize bound items < uintCount ∧
      Size.roundUp bound (chunkSize bound items) < uintCount
  | .staged | .strided => bound + items ≤ uintCount

instance (fetch : Fetch) (bound items : Nat) : Decidable (RangeFits fetch bound items) :=
  match fetch with
  | .contiguous => inferInstanceAs (Decidable ((items - 1) * chunkSize bound items < uintCount ∧
      Size.roundUp bound (chunkSize bound items) < uintCount))
  | .staged | .strided => inferInstanceAs (Decidable (bound + items ≤ uintCount))

theorem rangeFits_of_room (fetch : Fetch) {bound items : Nat} (nonempty : 0 < items)
    (room : bound + items ≤ uintCount) : RangeFits fetch bound items := by
  have total := items_mul_chunkSize_le bound items
  cases fetch with
  | staged => exact room
  | strided => exact room
  | contiguous =>
      have fewer : (items - 1) * chunkSize bound items ≤ items * chunkSize bound items :=
        Nat.mul_le_mul_right _ (Nat.sub_le items 1)
      have covers : bound ≤ items * chunkSize bound items := le_items_mul_chunkSize nonempty
      have rounded := roundUp_le covers
      exact ⟨by omega, by omega⟩

/-- The loop over a range ends for all work items and shares the range out among them exactly
when it does not wrap before it is done. -/
theorem ranges_allotment_iff (fetch : Fetch) {bound items : Nat} (nonempty : 0 < items)
    (small : bound < uintCount) (itemsSmall : items < uintCount) :
    (∃ values, (∀ position < items, Ranges fetch bound items position (values position)) ∧
        Allotment items values (List.range bound)) ↔ RangeFits fetch bound items := by
  have strides : (∃ values, (∀ position < items, Strides 0 bound items position (values position)) ∧
      Allotment items values (List.range bound)) ↔ bound + items ≤ uintCount := by
    rw [List.range_eq_range']
    constructor
    · rintro ⟨values, counts, allotment⟩
      exact room_of_strides_allotment (Nat.zero_le _) small itemsSmall counts allotment
    · exact exists_strides_allotment (Nat.zero_le _) nonempty
  cases fetch with
  | staged => exact strides
  | strided => exact strides
  | contiguous =>
      constructor
      · rintro ⟨values, counts, allotment⟩
        rcases Nat.eq_zero_or_pos bound with rfl | some
        · exact rangeFits_of_room .contiguous nonempty (by omega)
        · have starts := starts_of_chunks_allotment some small nonempty counts allotment
          exact ⟨starts, ends_of_chunks_allotment some small counts allotment starts⟩
      · rintro ⟨starts, ends⟩
        exact exists_chunks_allotment nonempty small starts ends

section Loops

variable {seat : Seat} {locals : Variables} {counters : List (List Nat)} {body : List Statement}
  {bound items position : Nat}

theorem operandCount_of_wide {left right : Index} (wide : left.isWide || right.isWide) :
    operandCount left right = Size.wordCount := if_pos wide

theorem mod_operandCount {value : Nat} {left right : Index} (small : value < uintCount) :
    value % operandCount left right = value := by
  refine Nat.mod_eq_of_lt (Nat.lt_of_lt_of_le small ?_)
  unfold operandCount
  split <;> decide

/-- The size of a chunk does not leave 32 bits on its way. -/
theorem chunkSize_computed (nonempty : 0 < items) (small : bound < uintCount)
    (itemsSmall : items < uintCount) :
    ((bound + items) % Size.wordCount + Size.wordCount - 1) % Size.wordCount / items % uintCount =
      chunkSize bound items := by
  have word : 2 * uintCount ≤ Size.wordCount := by decide
  have sum : (bound + items) % Size.wordCount = bound + items := Nat.mod_eq_of_lt (by omega)
  have pred : (bound + items + Size.wordCount - 1) % Size.wordCount = bound + items - 1 := by
    rw [show bound + items + Size.wordCount - 1 = bound + items - 1 + Size.wordCount by omega,
      Nat.add_mod_right, Nat.mod_eq_of_lt (by omega)]
  rw [sum, pred]
  refine Nat.mod_eq_of_lt ?_
  rcases Nat.eq_zero_or_pos bound with rfl | some
  · exact Nat.lt_of_le_of_lt (Nat.div_le_self _ _) (by omega)
  · exact Nat.lt_of_le_of_lt (chunkSize_le nonempty some) small

theorem counts_stridedLoop_iff {counter : String} {count : Index} {dimension : Nat}
    (ends : ∀ inner, blockCounts seat inner body [])
    (stable : ∀ inner, SameOutside counter inner locals → count.computed seat inner = bound)
    (stands : seat .globalId dimension = position) (sized : seat .globalSize dimension = items) :
    (rangeLoop .strided counter count dimension body).Counts seat locals counters ↔
      ∃ values, counters = [values] ∧ Strides 0 bound items position values := by
  rw [rangeLoop, counts_loop_iff ends]
  refine exists_congr fun values => and_congr_right fun _ => LoopHead.counts_iff ?_ ?_ ?_
  · intro value
    simp only [LoopHead.moved, Index.computed, sized]
  · intro value
    have start : SameOutside counter locals locals := fun _ _ => rfl
    have bounded := stable (update locals counter value) (start.update List.mem_cons_self value)
    simp only [Condition.Met, Index.computed, Function.update_self, bounded]
  · simp only [Index.computed, stands, Nat.zero_add]

theorem counts_chunkedLoop_iff {counter : String} {count : Index} {dimension : Nat}
    (ends : ∀ inner, blockCounts seat inner body [])
    (stable : ∀ inner, SameOutside counter inner locals → count.computed seat inner = bound)
    (stands : seat .globalId dimension = position) (sized : seat .globalSize dimension = items)
    (nonempty : 0 < items) (small : bound < uintCount) (itemsSmall : items < uintCount) :
    (rangeLoop .contiguous counter count dimension body).Counts seat locals counters ↔
      ∃ values, counters = [values] ∧ Chunks bound items position values := by
  have start : SameOutside counter locals locals := fun _ _ => rfl
  have chunkApart : "chunk_" ++ counter ≠ "start_" ++ counter := by simp
  have startApart : "start_" ++ counter ≠ "end_" ++ counter := by simp
  have counterApart : "end_" ++ counter ≠ counter := by simp
  have bounded (chunk first : Nat) := stable (update (update locals
    ("chunk_" ++ counter) chunk) ("start_" ++ counter) first)
      ((start.update (by simp [rangeNames]) _).update (by simp [rangeNames]) _)
  have own := stable locals start
  rw [rangeLoop, counts_scope, blockCounts_run_cons, blockCounts_run_cons,
    blockCounts_run_cons, blockCounts_singleton, counts_loop_iff ends]
  have sumWide : operandCount count (.workItem .globalSize dimension) = Size.wordCount :=
    operandCount_of_wide (Bool.or_true _)
  have differenceWide :
      operandCount (.add count (.workItem .globalSize dimension)) (.literal 1) =
        Size.wordCount := operandCount_of_wide (by simp [Index.isWide])
  have productWide : operandCount (.workItem .globalId dimension) (.var ("chunk_" ++ counter)) =
      Size.wordCount := operandCount_of_wide rfl
  have sumNarrow : operandCount (.var ("start_" ++ counter)) (.var ("chunk_" ++ counter)) =
      uintCount := rfl
  have chunk := chunkSize_computed nonempty small itemsSmall
  have cut (value : Nat) : value % Size.wordCount % uintCount = value % uintCount :=
    Nat.mod_mod_of_dvd value (by decide)
  simp only [Statement.declares, Index.computed, own, sized, stands, sumWide, differenceWide,
    productWide, sumNarrow, chunk, cut, Function.update_self, Function.update_of_ne chunkApart,
    bounded]
  refine exists_congr fun values => and_congr_right fun _ => LoopHead.counts_iff ?_ ?_ ?_
  · intro value
    rfl
  · intro value
    simp only [Condition.Met, Index.computed, Function.update_self,
      Function.update_of_ne counterApart, Nat.mod_eq_of_lt small]
    rw [Nat.mod_eq_of_lt]
    exact Nat.lt_of_le_of_lt (Nat.min_le_right _ _) small
  · simp only [Index.computed, Function.update_self, Function.update_of_ne startApart,
      Nat.mod_mod]

theorem counts_rangeLoop_iff {fetch : Fetch} {counter : String} {count : Index} {dimension : Nat}
    (ends : ∀ inner, blockCounts seat inner body [])
    (stable : ∀ inner, SameOutside counter inner locals → count.computed seat inner = bound)
    (stands : seat .globalId dimension = position) (sized : seat .globalSize dimension = items)
    (inside : position < items) (small : bound < uintCount) (itemsSmall : items < uintCount) :
    (rangeLoop fetch counter count dimension body).Counts seat locals counters ↔
      ∃ values, counters = [values] ∧ Ranges fetch bound items position values := by
  cases fetch with
  | staged => exact counts_stridedLoop_iff ends stable stands sized
  | strided => exact counts_stridedLoop_iff ends stable stands sized
  | contiguous =>
      exact counts_chunkedLoop_iff ends stable stands sized (Nat.zero_lt_of_lt inside) small
        itemsSmall

theorem counts_tailLoop_iff {width count : Nat} (ends : ∀ inner, blockCounts seat inner body [])
    (counted : locals "N" = count) (small : count < uintCount)
    (stands : seat .globalId 0 = position) (sized : seat .globalSize 0 = items) :
    (tailLoop width body).Counts seat locals counters ↔
      ∃ values, counters = [values] ∧
        Strides (count / width * width) count items position values := by
  rw [tailLoop, counts_loop_iff ends]
  refine exists_congr fun values => and_congr_right fun _ => LoopHead.counts_iff ?_ ?_ ?_
  · intro value
    simp only [LoopHead.moved, Index.computed, sized]
  · intro value
    simp [Condition.Met, Index.computed, counted]
  · have sumWide : operandCount (.mul (.div (.var "N") (.literal width)) (.literal width))
        (.workItem .globalId 0) = Size.wordCount := operandCount_of_wide (Bool.or_true _)
    have whole : count / width * width < uintCount :=
      Nat.lt_of_le_of_lt (Nat.div_mul_le_self count width) small
    simp only [Index.computed, counted, mod_operandCount whole, sumWide, stands]
    exact Nat.mod_mod_of_dvd _ (by decide)

end Loops

end KernelTuner.Kernel
