import KernelTuner.Program.Set
import KernelTuner.Proofs.Outcome
import KernelTuner.Proofs.Program.Cache

/-!
Contract: what the shells of a program set hold.

Owns: the emissions of all variants for one batch; `build_eq_ok_iff`, by which a set
is assembled from them; and the sources of its shells, which are a preamble and the
texts of the emissions in order.
-/

set_option autoImplicit false

namespace KernelTuner

/-! ### Fragments -/

namespace Shell

/-- Appends fragments one after another. -/
def addAll (shell : Shell) (fragments : List String) : Shell := fragments.foldl add shell

@[simp] theorem addAll_nil (shell : Shell) : shell.addAll [] = shell := rfl

@[simp] theorem addAll_cons (shell : Shell) (fragment : String) (rest : List String) :
    shell.addAll (fragment :: rest) = (shell.add fragment).addAll rest := rfl

theorem add_source (shell : Shell) (fragment : String) :
    (shell.add fragment).source = shell.source ++ fragment := by
  unfold add
  split
  · next blank =>
      rw [String.isEmpty_iff] at blank
      rw [blank, String.append_empty]
  · rfl

theorem addAll_source (shell : Shell) (fragments : List String) :
    (shell.addAll fragments).source = shell.source ++ String.join fragments := by
  induction fragments generalizing shell with
  | nil => simp [String.join]
  | cons fragment rest inductionHypothesis =>
      rw [addAll_cons, inductionHypothesis, add_source, String.join_cons, String.append_assoc]

/-- What is compiled with the shell, apart from its source, and what has been. -/
def stamp (shell : Shell) : ContextId × String × Bool × Option Program :=
  (shell.context, shell.name, shell.force, shell.compiled)

theorem add_stamp (shell : Shell) (fragment : String) :
    (shell.add fragment).stamp = shell.stamp := by
  unfold add
  split <;> rfl

theorem addAll_stamp (shell : Shell) (fragments : List String) :
    (shell.addAll fragments).stamp = shell.stamp := by
  induction fragments generalizing shell with
  | nil => rfl
  | cons fragment rest inductionHypothesis =>
      rw [addAll_cons, inductionHypothesis, add_stamp]

end Shell

/-! ### Emissions -/

namespace ProgramSet

/-- The emissions of variants, the first of which has number `index`. -/
def emissionsFrom (batch : Batch) (index : Nat) : List Variant → Except Error (List Emission)
  | [] => .ok []
  | variant :: rest => do
      let emission ← variant.emit index batch
      return emission :: (← emissionsFrom batch (index + 1) rest)

variable {batch : Batch} {index : Nat}

theorem emissionsFrom_cons_eq_ok_iff {variant : Variant} {rest : List Variant}
    {emissions : List Emission} :
    emissionsFrom batch index (variant :: rest) = .ok emissions ↔
      ∃ emission others, variant.emit index batch = .ok emission ∧
        emissionsFrom batch (index + 1) rest = .ok others ∧ emissions = emission :: others := by
  constructor
  · intro emitted
    obtain ⟨emission, first, emitted⟩ := bind_eq_ok_iff.1 emitted
    obtain ⟨others, rest, same⟩ := bind_eq_ok_iff.1 emitted
    exact ⟨emission, others, first, rest, (pure_eq_ok_iff.1 same).symm⟩
  · rintro ⟨emission, others, first, rest, rfl⟩
    exact bind_eq_ok_iff.2 ⟨emission, first, bind_eq_ok_iff.2 ⟨others, rest, rfl⟩⟩

variable {variants : List Variant} {emissions : List Emission}

/-- Variants are emitted one by one, each under its number. -/
theorem emissionsFrom_eq_ok_iff :
    emissionsFrom batch index variants = .ok emissions ↔
      List.Forall₂ (fun numbered emission => numbered.1.emit numbered.2 batch = .ok emission)
        (variants.zipIdx index) emissions := by
  induction variants generalizing index emissions with
  | nil =>
      rw [List.zipIdx_nil, List.forall₂_nil_left_iff, emissionsFrom, Except.ok.injEq, eq_comm]
  | cons variant rest inductionHypothesis =>
      simp only [emissionsFrom_cons_eq_ok_iff, inductionHypothesis, List.zipIdx_cons,
        List.forall₂_cons_left_iff, exists_and_left]

theorem length_emissionsFrom (emitted : emissionsFrom batch index variants = .ok emissions) :
    emissions.length = variants.length := by
  rw [← (emissionsFrom_eq_ok_iff.1 emitted).length_eq, List.length_zipIdx]

/-- Every variant has its emission, at its own number. -/
theorem emission_at (emitted : emissionsFrom batch index variants = .ok emissions) {place : Nat}
    {variant : Variant} (found : variants[place]? = some variant) :
    ∃ emission, emissions[place]? = some emission ∧
      variant.emit (index + place) batch = .ok emission := by
  obtain ⟨inside, rfl⟩ := List.getElem?_eq_some_iff.1 found
  have emissionInside : place < emissions.length := by rwa [length_emissionsFrom emitted]
  have emits := (emissionsFrom_eq_ok_iff.1 emitted).get (by rwa [List.length_zipIdx]) emissionInside
  simp only [List.get_eq_getElem, List.getElem_zipIdx] at emits
  exact ⟨_, List.getElem?_eq_getElem emissionInside, emits⟩

/-- Every emission is that of the variant at its place. -/
theorem variant_at (emitted : emissionsFrom batch index variants = .ok emissions) {place : Nat}
    {emission : Emission} (found : emissions[place]? = some emission) :
    ∃ variant, variants[place]? = some variant ∧
      variant.emit (index + place) batch = .ok emission := by
  have inside := (List.getElem?_eq_some_iff.1 found).1
  rw [length_emissionsFrom emitted] at inside
  have variantFound := List.getElem?_eq_getElem inside
  obtain ⟨own, ownFound, emits⟩ := emission_at emitted variantFound
  rw [found] at ownFound
  cases ownFound
  exact ⟨_, variantFound, emits⟩

theorem emitFrom_eq_ok_iff {primary fallback : Shell} {shells : Shell × Shell} :
    emitFrom batch index variants (primary, fallback) = .ok shells ↔
      ∃ emissions, emissionsFrom batch index variants = .ok emissions ∧
        shells = (primary.addAll (emissions.map Emission.primaryText),
          fallback.addAll (emissions.map Emission.fallbackText)) := by
  induction variants generalizing index primary fallback with
  | nil =>
      constructor
      · intro same
        cases same
        exact ⟨[], rfl, rfl⟩
      · rintro ⟨emissions, emitted, rfl⟩
        cases emitted
        rfl
  | cons variant rest inductionHypothesis =>
      constructor
      · intro emitted
        obtain ⟨emission, first, emitted⟩ := bind_eq_ok_iff.1 emitted
        obtain ⟨others, restEmitted, rfl⟩ := inductionHypothesis.1 emitted
        exact ⟨emission :: others,
          emissionsFrom_cons_eq_ok_iff.2 ⟨emission, others, first, restEmitted, rfl⟩, rfl⟩
      · rintro ⟨emissions, emitted, rfl⟩
        obtain ⟨emission, others, first, restEmitted, rfl⟩ :=
          emissionsFrom_cons_eq_ok_iff.1 emitted
        exact bind_eq_ok_iff.2
          ⟨emission, first, inductionHypothesis.2 ⟨others, restEmitted, rfl⟩⟩

/-! ### Assembly -/

/-- The shell that takes the texts of emissions. -/
def blankShell (context : ContextId) (name : String) (device : Device) (force : Bool) : Shell where
  context := context
  name := name
  force := force
  source := device.defineExtension "cl_khr_fp64"

/-- The set that emissions make up. -/
def assemble (context : ContextId) (fingerprint : Fingerprint) (device : Device) (force : Bool)
    (emissions : List Emission) : ProgramSet where
  fingerprint := fingerprint
  primary := (blankShell context fingerprint.text device force).addAll
    (emissions.map Emission.primaryText)
  fallback := (blankShell context fingerprint.fallbackName device force).addAll
    (emissions.map Emission.fallbackText)
  variantCount := emissions.length

variable {context : ContextId} {fingerprint : Fingerprint} {device : Device} {force : Bool}

/-- A set is built exactly when every variant can be emitted, and then consists of
the emissions. -/
theorem build_eq_ok_iff {set : ProgramSet} :
    build context fingerprint device variants batch force = .ok set ↔
      ∃ emissions, emissionsFrom batch 0 variants = .ok emissions ∧
        set = assemble context fingerprint device force emissions := by
  constructor
  · intro built
    obtain ⟨shells, filled, same⟩ := bind_eq_ok_iff.1 built
    obtain ⟨emissions, emitted, rfl⟩ := emitFrom_eq_ok_iff.1 filled
    refine ⟨emissions, emitted, ?_⟩
    rw [← pure_eq_ok_iff.1 same, assemble, length_emissionsFrom emitted]
    rfl
  · rintro ⟨emissions, emitted, rfl⟩
    refine bind_eq_ok_iff.2 ⟨_, emitFrom_eq_ok_iff.2 ⟨emissions, emitted, rfl⟩, ?_⟩
    rw [assemble, length_emissionsFrom emitted]
    rfl

theorem assemble_primary_source :
    (assemble context fingerprint device force emissions).primary.source =
      device.defineExtension "cl_khr_fp64" ++
        String.join (emissions.map Emission.primaryText) :=
  Shell.addAll_source _ _

theorem assemble_fallback_source :
    (assemble context fingerprint device force emissions).fallback.source =
      device.defineExtension "cl_khr_fp64" ++
        String.join (emissions.map Emission.fallbackText) :=
  Shell.addAll_source _ _

/-- Nothing of an assembled set has been compiled. -/
theorem assemble_compiled (slot : Slot) :
    ((assemble context fingerprint device force emissions).shell slot).compiled = none := by
  have fresh (shell : Shell) (fragments : List String) (uncompiled : shell.compiled = none) :
      (shell.addAll fragments).compiled = none := by
    have kept := Shell.addAll_stamp shell fragments
    simp only [Shell.stamp, Prod.mk.injEq] at kept
    rw [kept.2.2.2, uncompiled]
  cases slot with
  | primary => exact fresh _ _ rfl
  | fallback => exact fresh _ _ rfl

theorem assemble_uncompiled :
    (assemble context fingerprint device force emissions).uncompiled =
      assemble context fingerprint device force emissions :=
  uncompiled_eq_self (assemble_compiled .primary) (assemble_compiled .fallback)

end ProgramSet

end KernelTuner
