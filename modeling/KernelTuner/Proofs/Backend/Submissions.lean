import Mathlib.Data.List.DropRight
import KernelTuner.Proofs.Backend.Platform
import KernelTuner.Proofs.Table

/-!
Contract: the launches that a queue of the reference platform keeps.

Owns: what a queue asks of a launch; the calls on one queue since it was made, with
whatever else happens on its platform in between; and `lists_of_served`, by which the
history holds the launches accepted since it was cleared and the pending list those
accepted since the queue was finished, each in the order of submission.
-/

set_option autoImplicit false

namespace KernelTuner

/-! ### What a queue asks of a launch -/

/-- A kernel that the program has, and one to three dimensions, in each of which work
groups that are not empty fill the range. -/
structure Launch.Fits (launch : Launch) : Prop where
  exported : launch.kernel ∈ launch.program.kernels
  dimensions : launch.globalSize.length = launch.localSize.length
  nonempty : 1 ≤ launch.globalSize.length
  few : launch.globalSize.length ≤ 3
  whole : ∀ range group, (range, group) ∈ launch.globalSize.zip launch.localSize →
    group ≠ 0 ∧ group ∣ range

theorem Program.hasKernel_iff {program : Program} {entry : String} :
    program.hasKernel entry = true ↔ entry ∈ program.kernels :=
  List.contains_iff_mem

namespace QueueState

theorem unevenDimension?_eq_none_iff {sizes : List (Nat × Nat)} (dimension : Nat) :
    unevenDimension? dimension sizes = none ↔
      ∀ range group, (range, group) ∈ sizes → group ≠ 0 ∧ group ∣ range := by
  induction sizes generalizing dimension with
  | nil => simp [unevenDimension?]
  | cons head rest inductionHypothesis =>
      obtain ⟨range, group⟩ := head
      by_cases uneven : group = 0 ∨ range % group ≠ 0
      · rw [unevenDimension?, if_pos uneven]
        refine iff_of_false (Option.some_ne_none _) fun whole => ?_
        obtain ⟨positive, divides⟩ := whole range group List.mem_cons_self
        rcases uneven with empty | ragged
        · exact positive empty
        · exact ragged (Nat.mod_eq_zero_of_dvd divides)
      · obtain ⟨positive, remainder⟩ := not_or.1 uneven
        have divides : group ∣ range := Nat.dvd_of_mod_eq_zero (not_not.1 remainder)
        rw [unevenDimension?, if_neg uneven, inductionHypothesis (dimension + 1)]
        constructor
        · rintro whole later width member
          rcases List.mem_cons.1 member with same | member
          · cases same
            exact ⟨positive, divides⟩
          · exact whole later width member
        · intro whole later width member
          exact whole later width (List.mem_cons_of_mem _ member)

theorem checkWorkSizes_eq_ok_iff {kernel : String} {globalSize localSize : List Nat} :
    checkWorkSizes kernel globalSize localSize = .ok () ↔
      globalSize.length = localSize.length ∧ 1 ≤ globalSize.length ∧ globalSize.length ≤ 3 ∧
        ∀ range group, (range, group) ∈ globalSize.zip localSize → group ≠ 0 ∧ group ∣ range := by
  rw [← unevenDimension?_eq_none_iff 0]
  by_cases disagree : globalSize.isEmpty ∨ 3 < globalSize.length ∨
      globalSize.length ≠ localSize.length
  · rw [checkWorkSizes, if_pos disagree]
    refine iff_of_false nofun ?_
    rintro ⟨same, nonempty, few, -⟩
    rcases disagree with empty | many | differ
    · rw [List.isEmpty_iff.1 empty] at nonempty
      exact absurd nonempty (by decide)
    · omega
    · exact differ same
  · rw [checkWorkSizes, if_neg disagree]
    obtain ⟨filled, many, differ⟩ := by simpa only [not_or] using disagree
    have nonempty : 1 ≤ globalSize.length :=
      List.length_pos_iff.2 fun empty => filled (List.isEmpty_iff.2 empty)
    cases uneven : unevenDimension? 0 (globalSize.zip localSize) with
    | none => exact iff_of_true rfl ⟨not_not.1 differ, nonempty, not_lt.1 many, rfl⟩
    | some found => exact iff_of_false nofun fun whole => nomatch whole.2.2.2

theorem checkLaunch_eq_ok_iff {launch : Launch} : checkLaunch launch = .ok () ↔ launch.Fits := by
  unfold checkLaunch
  by_cases exported : launch.program.hasKernel launch.kernel
  · rw [if_pos exported, checkWorkSizes_eq_ok_iff]
    constructor
    · rintro ⟨dimensions, nonempty, few, whole⟩
      exact ⟨Program.hasKernel_iff.1 exported, dimensions, nonempty, few, whole⟩
    · rintro ⟨-, dimensions, nonempty, few, whole⟩
      exact ⟨dimensions, nonempty, few, whole⟩
  · rw [if_neg exported]
    exact iff_of_false nofun fun fits => exported (Program.hasKernel_iff.2 fits.exported)

theorem submit_eq_ok_iff {launch : Launch} {queue : QueueState} :
    (queue.submit launch).1 = .ok () ↔ launch.Fits := by
  rw [← checkLaunch_eq_ok_iff]
  cases checked : checkLaunch launch with
  | ok => simp only [submit, checked]
  | error cause => simp only [submit, checked]

theorem submit_of_refused {launch : Launch} (queue : QueueState) (refused : ¬ launch.Fits) :
    (queue.submit launch).2 = queue := by
  cases checked : checkLaunch launch with
  | ok => exact absurd (checkLaunch_eq_ok_iff.1 checked) refused
  | error cause => rw [submit, checked]

theorem submit_of_fits {launch : Launch} (queue : QueueState) (fits : launch.Fits) :
    (queue.submit launch).2 = { queue with
      pending := queue.pending ++ [recordOf launch]
      history := queue.history ++ [recordOf launch] } := by
  rw [submit, checkLaunch_eq_ok_iff.2 fits]

end QueueState

/-! ### The calls on a queue -/

/-- A call on a queue, and the answer to it where it may be refused. -/
inductive QueueCall where
  | submit (launch : Launch) (answer : Except BackendError Unit)
  | finish
  | clearLaunches

namespace QueueCall

/-- The launch that a call has brought in. -/
def record? : QueueCall → Option LaunchRecord
  | submit launch (.ok ()) => some (QueueState.recordOf launch)
  | _ => none

def isFinish : QueueCall → Bool
  | finish => true
  | _ => false

def isClear : QueueCall → Bool
  | clearLaunches => true
  | _ => false

/-- The accepted launches, in the order of their submission. -/
def accepted (calls : List QueueCall) : List LaunchRecord := calls.filterMap record?

/-- The calls behind the last one that `ends` a section. -/
def since (ends : QueueCall → Bool) (calls : List QueueCall) : List QueueCall :=
  calls.rtakeWhile fun call => !ends call

variable {ends : QueueCall → Bool} {calls : List QueueCall} {call : QueueCall}

theorem since_append_of_ends (ended : ends call = true) : since ends (calls ++ [call]) = [] := by
  rw [since, List.rtakeWhile_concat, ended]
  rfl

theorem since_append_of_not_ends (goesOn : ends call = false) :
    since ends (calls ++ [call]) = since ends calls ++ [call] := by
  rw [since, List.rtakeWhile_concat, goesOn]
  rfl

theorem accepted_append (calls : List QueueCall) (call : QueueCall) :
    accepted (calls ++ [call]) = accepted calls ++ call.record?.toList := by
  rw [accepted, List.filterMap_append]
  cases called : call.record? <;> simp [accepted, called]

/-- What came in since some call is the last part of what came in. -/
theorem accepted_since_suffix (ends : QueueCall → Bool) (calls : List QueueCall) :
    accepted (since ends calls) <:+ accepted calls :=
  (List.rtakeWhile_suffix _ _).filterMap record?

end QueueCall

open QueueCall

/-- The lists and the counter of a queue are what its calls tell. -/
structure QueueState.Reflects (queue : QueueState) (calls : List QueueCall) : Prop where
  history : queue.history = accepted (since isClear calls)
  pending : queue.pending = accepted (since isFinish calls)
  finishes : queue.finishes = calls.countP isFinish

namespace QueueState.Reflects

variable {queue : QueueState} {calls : List QueueCall}

theorem submit (reflects : queue.Reflects calls) (launch : Launch) :
    (queue.submit launch).2.Reflects (calls ++ [.submit launch (queue.submit launch).1]) := by
  have counted : (calls ++ [QueueCall.submit launch (queue.submit launch).1]).countP isFinish =
      calls.countP isFinish := by
    rw [List.countP_append]
    rfl
  have joined (ends : QueueCall → Bool)
      (goesOn : ends (.submit launch (queue.submit launch).1) = false) :
      accepted (since ends (calls ++ [.submit launch (queue.submit launch).1])) =
        accepted (since ends calls) ++
          (QueueCall.submit launch (queue.submit launch).1).record?.toList := by
    rw [since_append_of_not_ends goesOn, accepted_append]
  by_cases fits : launch.Fits
  · have answer : (queue.submit launch).1 = .ok () := submit_eq_ok_iff.2 fits
    rw [answer] at counted joined ⊢
    rw [submit_of_fits queue fits]
    refine ⟨?_, ?_, ?_⟩
    · rw [joined isClear rfl, ← reflects.history]
      rfl
    · rw [joined isFinish rfl, ← reflects.pending]
      rfl
    · rw [counted, ← reflects.finishes]
  · have unrecorded : (QueueCall.submit launch (queue.submit launch).1).record? = none := by
      cases answer : (queue.submit launch).1 with
      | ok => exact absurd (submit_eq_ok_iff.1 answer) fits
      | error cause => rfl
    rw [unrecorded, Option.toList_none] at joined
    rw [submit_of_refused queue fits]
    refine ⟨?_, ?_, ?_⟩
    · rw [joined isClear rfl, List.append_nil, reflects.history]
    · rw [joined isFinish rfl, List.append_nil, reflects.pending]
    · rw [counted, reflects.finishes]

theorem finish (reflects : queue.Reflects calls) : queue.finish.Reflects (calls ++ [.finish]) where
  history := by
    rw [since_append_of_not_ends rfl, accepted_append, ← reflects.history]
    exact (List.append_nil _).symm
  pending := by
    rw [since_append_of_ends rfl]
    rfl
  finishes := by
    rw [List.countP_append, ← reflects.finishes]
    rfl

theorem clearLaunches (reflects : queue.Reflects calls) :
    queue.clearLaunches.Reflects (calls ++ [.clearLaunches]) where
  history := by
    rw [since_append_of_ends rfl]
    rfl
  pending := by
    rw [since_append_of_not_ends rfl, accepted_append, ← reflects.pending]
    exact (List.append_nil _).symm
  finishes := by
    rw [List.countP_append, ← reflects.finishes]
    rfl

end QueueState.Reflects

/-! ### A queue on its platform -/

namespace Platform

variable {platform after : Platform} {id other : QueueId} {calls : List QueueCall}

/-- No queue has a number that is still to be given. -/
def Numbered (platform : Platform) : Prop :=
  ∀ id, platform.queues.get? id ≠ none → id.number ≤ platform.queues.size

theorem Numbered.next_absent (numbered : platform.Numbered) :
    platform.queues.get? ⟨platform.queues.size + 1⟩ = none := by
  by_contra present
  have counted : platform.queues.size + 1 ≤ platform.queues.size := numbered _ present
  omega

theorem Numbered.modifyQueue (numbered : platform.Numbered) (id : QueueId)
    (update : QueueState → QueueState) : (platform.modifyQueue id update).Numbered := by
  intro other present
  have held : platform.queues.get? other ≠ none := by
    rw [Platform.modifyQueue, Table.get?_modify] at present
    split at present
    · simpa using present
    · exact present
  exact Nat.le_trans (numbered other held) (Table.size_modify_le _ _ _)

theorem Step.numbered (step : platform.Step after) (numbered : platform.Numbered) :
    after.Numbered := by
  cases step with
  | @addQueue context known latency =>
      intro id present
      have size : (platform.addQueue context latency).1.queues.size = platform.queues.size + 1 :=
        Table.size_insert_of_absent numbered.next_absent
      rw [size]
      rw [Platform.addQueue, Table.get?_insert] at present
      split at present
      · next same => rw [← same]
      · exact Nat.le_succ_of_le (numbered id present)
  | setLatency other variant time => exact numbered.modifyQueue other _
  | clearLaunches other => exact numbered.modifyQueue other _
  | submit other launch => exact numbered.modifyQueue other _
  | finish other => exact numbered.modifyQueue other _
  | _ => exact numbered

theorem reachable_numbered (reachable : platform.Reachable) : platform.Numbered := by
  induction reachable with
  | refl => exact fun _ present => absurd rfl present
  | tail _ step numbered => exact step.numbered numbered

theorem queue_modifyQueue_of_ne (apart : other ≠ id) (update : QueueState → QueueState) :
    (platform.modifyQueue other update).queue id = platform.queue id := by
  unfold queue modifyQueue
  rw [Table.get?_modify, if_neg apart]

theorem queue_addQueue (platform : Platform) (context : ContextId) (latency : Nat) :
    (platform.addQueue context latency).1.queue id =
      if (platform.addQueue context latency).2 = id then { latency } else platform.queue id := by
  unfold queue addQueue
  rw [Table.get?_insert]
  split <;> rfl

/-- A step that asks nothing of queue `id`. -/
inductive Aside (id : QueueId) (platform : Platform) : Platform → Prop where
  | addContext (device : Device) : Aside id platform (platform.addContext device).1
  | addQueue {context : ContextId} (known : platform.compilers.get? context ≠ none)
      (latency : Nat) : Aside id platform (platform.addQueue context latency).1
  | reject (context : ContextId) (marker : String) :
      Aside id platform (platform.modifyCompiler context (Compiler.reject · marker))
  | setLatency (other : QueueId) (variant time : Nat) :
      Aside id platform (platform.modifyQueue other fun held =>
        { held with variantLatency := held.variantLatency.insert variant time })
  | compile (owner : ContextId) (request : CompileRequest) :
      Aside id platform (platform.compile owner request).2
  | submit {other : QueueId} (apart : other ≠ id) (launch : Launch) :
      Aside id platform (platform.submit other launch).2
  | finish {other : QueueId} (apart : other ≠ id) : Aside id platform (platform.finish other).2
  | clearLaunches {other : QueueId} (apart : other ≠ id) :
      Aside id platform (platform.modifyQueue other QueueState.clearLaunches)

theorem Aside.step (aside : platform.Aside id after) : platform.Step after := by
  cases aside with
  | addContext device => exact .addContext device
  | addQueue known latency => exact .addQueue known latency
  | reject context marker => exact .reject context marker
  | setLatency other variant time => exact .setLatency other variant time
  | compile owner request => exact .compile owner request
  | @submit other _ launch => exact .submit other launch
  | @finish other _ => exact .finish other
  | @clearLaunches other _ => exact .clearLaunches other

theorem Aside.reflects (aside : platform.Aside id after) (numbered : platform.Numbered)
    (registered : platform.queues.get? id ≠ none)
    (reflects : (platform.queue id).Reflects calls) : (after.queue id).Reflects calls := by
  cases aside with
  | @addQueue context known latency =>
      have apart : (platform.addQueue context latency).2 ≠ id := by
        rintro rfl
        exact registered numbered.next_absent
      rwa [queue_addQueue, if_neg apart]
  | setLatency other variant time =>
      by_cases same : other = id
      · subst same
        rw [queue_modifyQueue _ registered]
        exact ⟨reflects.history, reflects.pending, reflects.finishes⟩
      · rwa [queue_modifyQueue_of_ne same]
  | submit apart launch => rwa [Platform.submit, queue_modifyQueue_of_ne apart]
  | @finish other apart =>
      have same : (platform.finish other).2.queue id = platform.queue id :=
        queue_modifyQueue_of_ne apart _
      rwa [same]
  | clearLaunches apart => rwa [queue_modifyQueue_of_ne apart]
  | _ => exact reflects

/-- Queue `id` was made on the platform and got the calls since, with anything else
between them. -/
inductive Served (id : QueueId) : List QueueCall → Platform → Prop where
  | made {platform : Platform} (reachable : platform.Reachable) {context : ContextId}
      (known : platform.compilers.get? context ≠ none) (latency : Nat)
      (numbered : (platform.addQueue context latency).2 = id) :
      Served id [] (platform.addQueue context latency).1
  | submit {calls : List QueueCall} {platform : Platform} (served : Served id calls platform)
      (launch : Launch) :
      Served id (calls ++ [.submit launch (platform.submit id launch).1])
        (platform.submit id launch).2
  | finish {calls : List QueueCall} {platform : Platform} (served : Served id calls platform) :
      Served id (calls ++ [.finish]) (platform.finish id).2
  | clearLaunches {calls : List QueueCall} {platform : Platform}
      (served : Served id calls platform) :
      Served id (calls ++ [.clearLaunches]) (platform.modifyQueue id QueueState.clearLaunches)
  | aside {calls : List QueueCall} {platform after : Platform} (served : Served id calls platform)
      (aside : platform.Aside id after) : Served id calls after

namespace Served

theorem reachable (served : Served id calls platform) : platform.Reachable := by
  induction served with
  | made reachable known latency _ => exact reachable.tail (.addQueue known latency)
  | submit _ launch reachable => exact reachable.tail (.submit id launch)
  | finish _ reachable => exact reachable.tail (.finish id)
  | clearLaunches _ reachable => exact reachable.tail (.clearLaunches id)
  | aside _ aside reachable => exact reachable.tail aside.step

theorem registered (served : Served id calls platform) : platform.queues.get? id ≠ none := by
  induction served with
  | @made platform _ context _ latency numbered =>
      rw [← numbered]
      show (platform.queues.insert ⟨platform.queues.size + 1⟩ { latency }).get?
        ⟨platform.queues.size + 1⟩ ≠ none
      rw [Table.get?_insert, if_pos rfl]
      exact Option.some_ne_none _
  | @submit _ _ _ launch registered => exact (Step.submit id launch).registered registered
  | finish _ registered => exact (Step.finish id).registered registered
  | clearLaunches _ registered => exact (Step.clearLaunches id).registered registered
  | aside _ aside registered => exact aside.step.registered registered

theorem reflects (served : Served id calls platform) : (platform.queue id).Reflects calls := by
  induction served with
  | made _ _ latency numbered =>
      rw [queue_addQueue, if_pos numbered]
      exact ⟨rfl, rfl, rfl⟩
  | @submit calls platform served launch reflects =>
      rw [Platform.submit, queue_modifyQueue _ served.registered]
      exact reflects.submit launch
  | finish served reflects =>
      rw [queue_finish served.registered]
      exact reflects.finish
  | clearLaunches served reflects =>
      rw [queue_modifyQueue _ served.registered]
      exact reflects.clearLaunches
  | aside served aside reflects =>
      exact aside.reflects (reachable_numbered served.reachable) served.registered reflects

end Served

theorem submit_eq_ok_iff {launch : Launch} :
    (platform.submit id launch).1 = .ok () ↔ launch.Fits :=
  QueueState.submit_eq_ok_iff

/-- A submission that is refused leaves the whole platform as it was. -/
theorem submit_of_refused {launch : Launch} (refused : ¬ launch.Fits) :
    (platform.submit id launch).2 = platform := by
  have unchanged : platform.queues.modify id (fun _ => ((platform.queue id).submit launch).2) =
      platform.queues := by
    refine Table.modify_of_same fun held found => ?_
    rw [QueueState.submit_of_refused _ refused, queue, found]
    rfl
  have whole : (platform.submit id launch).2 = { platform with
      queues := platform.queues.modify id fun _ => ((platform.queue id).submit launch).2 } := rfl
  rw [whole, unchanged]

/-- A queue neither loses nor repeats launches, whatever is asked of it and of the rest of
its platform: the accepted ones stay in both lists until the call that empties the list. -/
theorem lists_of_served (served : Served id calls platform) (launch : Launch) :
    ((platform.submit id launch).1 = .ok () ↔ launch.Fits) ∧
      (¬ launch.Fits → (platform.submit id launch).2 = platform) ∧
      (platform.queue id).history = accepted (since isClear calls) ∧
      (platform.queue id).pending = accepted (since isFinish calls) ∧
      (platform.queue id).history <:+ accepted calls ∧
      (platform.queue id).pending <:+ accepted calls ∧
      (platform.queue id).finishes = calls.countP isFinish := by
  have reflects := served.reflects
  refine ⟨submit_eq_ok_iff, submit_of_refused, reflects.history, reflects.pending, ?_, ?_,
    reflects.finishes⟩
  · rw [reflects.history]
    exact accepted_since_suffix isClear calls
  · rw [reflects.pending]
    exact accepted_since_suffix isFinish calls

end Platform

/-- A launch of eight work items in groups of the given size. -/
def Launch.ofEight (group : Nat) : Launch where
  program := { id := ⟨⟨1⟩, 1⟩, name := "copying", kernels := ["copy"] }
  kernel := "copy"
  globalSize := [8]
  localSize := [group]
  arguments := []
  variant := 0

/-- Groups of three are refused; the finish and the clearing split what is accepted. -/
theorem Platform.lists_of_served_in_turns :
    ∃ calls platform, Served ⟨1⟩ calls platform ∧
      (platform.submit ⟨1⟩ (.ofEight 3)).2 = platform ∧
      (platform.queue ⟨1⟩).history = [QueueState.recordOf (.ofEight 8)] ∧
      (platform.queue ⟨1⟩).pending =
        [QueueState.recordOf (.ofEight 2), QueueState.recordOf (.ofEight 8)] ∧
      (platform.queue ⟨1⟩).finishes = 1 := by
  have made : Served ⟨1⟩ [] single :=
    .made (context_reachable .reference) (by decide) 0 rfl
  have served := ((((made.submit (.ofEight 4)).finish.submit (.ofEight 3)).submit
    (.ofEight 2)).clearLaunches).submit (.ofEight 8)
  have refused : ¬ (Launch.ofEight 3).Fits := fun fits =>
    absurd (fits.whole 8 3 List.mem_cons_self).2 (by decide)
  obtain ⟨-, unchanged, history, pending, -, -, finishes⟩ :=
    Platform.lists_of_served served (.ofEight 3)
  exact ⟨_, _, served, unchanged refused, history.trans rfl, pending.trans rfl,
    finishes.trans rfl⟩

end KernelTuner
