import KernelTuner.Error
import Mathlib.Data.List.Forall2

/-!
Contract: computations that may fail, taken apart.

Owns: the inversion of a sequence and of a traversal that succeed, lists whose elements are
related in order, and the causes by which a sequence may fail.
-/

set_option autoImplicit false

namespace KernelTuner

variable {ε α β : Type}

theorem bind_eq_ok_iff {first : Except ε α} {continuation : α → Except ε β} {result : β} :
    (first >>= continuation) = .ok result ↔
      ∃ value, first = .ok value ∧ continuation value = .ok result := by
  cases first with
  | error cause =>
      constructor
      · intro impossible
        cases impossible
      · rintro ⟨value, impossible, _⟩
        simp at impossible
  | ok value =>
      constructor
      · intro rest
        exact ⟨value, rfl, rest⟩
      · rintro ⟨other, same, rest⟩
        cases same
        exact rest

theorem bind_eq_error_iff {first : Except ε α} {continuation : α → Except ε β} {cause : ε} :
    (first >>= continuation) = .error cause ↔
      first = .error cause ∨ ∃ value, first = .ok value ∧ continuation value = .error cause := by
  cases first with
  | error found =>
      constructor
      · intro same
        cases same
        exact .inl rfl
      · rintro (same | ⟨_, impossible, _⟩)
        · cases same
          rfl
        · cases impossible
  | ok value =>
      constructor
      · intro rest
        exact .inr ⟨value, rfl, rest⟩
      · rintro (impossible | ⟨_, same, rest⟩)
        · cases impossible
        · cases same
          exact rest

theorem pure_eq_ok_iff {value result : α} :
    (pure value : Except ε α) = .ok result ↔ value = result :=
  ⟨Except.ok.inj, congrArg Except.ok⟩

theorem toOption_eq_some_iff {outcome : Except ε α} {value : α} :
    outcome.toOption = some value ↔ outcome = .ok value := by
  cases outcome with
  | ok found => exact ⟨fun same => congrArg Except.ok (Option.some.inj same),
      fun same => congrArg some (Except.ok.inj same)⟩
  | error cause => exact ⟨nofun, nofun⟩

/-- A traversal succeeds when its step does on every element. -/
theorem mapM_eq_ok_iff {step : α → Except ε β} {arguments : List α} {results : List β} :
    arguments.mapM step = .ok results ↔
      List.Forall₂ (fun argument result => step argument = .ok result) arguments results := by
  induction arguments generalizing results with
  | nil => rw [List.mapM_nil, pure_eq_ok_iff, List.forall₂_nil_left_iff, eq_comm]
  | cons first rest inductionHypothesis =>
      simp only [List.mapM_cons, bind_eq_ok_iff, pure_eq_ok_iff, inductionHypothesis,
        List.forall₂_cons_left_iff]
      constructor
      · rintro ⟨result, firstDone, results, restDone, rfl⟩
        exact ⟨result, results, firstDone, restDone, rfl⟩
      · rintro ⟨result, results, firstDone, restDone, rfl⟩
        exact ⟨result, firstDone, results, restDone, rfl⟩

theorem exists_of_forall₂_left {related : α → β → Prop} {arguments : List α} {results : List β}
    (each : List.Forall₂ related arguments results) {argument : α} (member : argument ∈ arguments) :
    ∃ result ∈ results, related argument result := by
  induction each with
  | nil => cases member
  | cons first _ inductionHypothesis =>
      rcases List.mem_cons.1 member with rfl | later
      · exact ⟨_, List.mem_cons_self, first⟩
      · obtain ⟨result, present, same⟩ := inductionHypothesis later
        exact ⟨result, List.mem_cons_of_mem _ present, same⟩

theorem exists_of_forall₂_right {related : α → β → Prop} {arguments : List α} {results : List β}
    (each : List.Forall₂ related arguments results) {result : β} (member : result ∈ results) :
    ∃ argument ∈ arguments, related argument result :=
  exists_of_forall₂_left (List.Forall₂.flip (R := flip related) each) member

theorem exists_forall₂ {related : α → β → Prop} {arguments : List α}
    (each : ∀ argument ∈ arguments, ∃ result, related argument result) :
    ∃ results, List.Forall₂ related arguments results := by
  induction arguments with
  | nil => exact ⟨[], .nil⟩
  | cons argument rest inductionHypothesis =>
      obtain ⟨⟨result, first⟩, others⟩ := List.forall_mem_cons.1 each
      obtain ⟨results, later⟩ := inductionHypothesis others
      exact ⟨result :: results, .cons first later⟩

theorem exists_mapM_eq_ok_iff {step : α → Except ε β} {arguments : List α} :
    (∃ results, arguments.mapM step = .ok results) ↔
      ∀ argument ∈ arguments, ∃ result, step argument = .ok result := by
  simp only [mapM_eq_ok_iff]
  constructor
  · rintro ⟨results, each⟩ argument member
    obtain ⟨result, _, done⟩ := exists_of_forall₂_left each member
    exact ⟨result, done⟩
  · exact exists_forall₂

@[simp] theorem refuse_ne_ok {cause : InvalidArgument} {result : α} :
    refuse cause ≠ .ok result := nofun

/-- Whatever goes wrong is an argument that is refused. -/
def OnlyRefuses (outcome : Except Error α) : Prop :=
  ∀ cause, outcome = .error cause → cause.isInvalidArgument = true

namespace OnlyRefuses

theorem ok (value : α) : OnlyRefuses (.ok value) := nofun

theorem pure (value : α) : OnlyRefuses (Pure.pure value) := nofun

theorem refuse (cause : InvalidArgument) : OnlyRefuses (refuse cause : Except Error α) := by
  intro found same
  cases same
  rfl

theorem bind {first : Except Error α} {continuation : α → Except Error β}
    (firstRefuses : OnlyRefuses first)
    (restRefuses : ∀ value, first = .ok value → OnlyRefuses (continuation value)) :
    OnlyRefuses (first >>= continuation) := by
  cases first with
  | error cause =>
      intro found same
      cases same
      exact firstRefuses cause rfl
  | ok value => exact restRefuses value rfl

theorem mapM {step : α → Except Error β} {arguments : List α}
    (stepRefuses : ∀ argument ∈ arguments, OnlyRefuses (step argument)) :
    OnlyRefuses (arguments.mapM step) := by
  induction arguments with
  | nil => exact .pure []
  | cons first rest inductionHypothesis =>
      rw [List.mapM_cons]
      refine .bind (stepRefuses first List.mem_cons_self) fun _ _ => ?_
      refine .bind (inductionHypothesis ?_) fun _ _ => .pure _
      exact fun argument later => stepRefuses argument (List.mem_cons_of_mem first later)

end OnlyRefuses

end KernelTuner
