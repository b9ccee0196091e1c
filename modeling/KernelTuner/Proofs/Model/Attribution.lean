import KernelTuner.Proofs.Model.Executions
import KernelTuner.Proofs.Model.Records
import KernelTuner.Proofs.Model.Succeeding
import KernelTuner.Proofs.Model.Traces

/-!
Contract: the names under which launches are recorded.

Owns: `records_name_builders`, by which every record of an execution carries the name of
the batch whose execution has built the program; and the inner product of a vector with
itself, which is recorded under the name of another batch.

Does not own: launches of programs that were compiled otherwise.
-/

set_option autoImplicit false

namespace KernelTuner

variable {home : ContextId} {start : ModelStore Platform × Bench Platform}
  {executions : List Execution} {execution : Execution}

/-! ### Records -/

/-- The record of a launch of an execution for a batch of the name `name`. The program in
the slot of its set was built in an execution for a batch of the name `builder`. -/
structure RecordedUnder (home : ContextId) (start : ModelStore Platform × Bench Platform)
    (executions : List Execution) (execution : Execution) (name builder : Fingerprint)
    (slot : Slot) (record : LaunchRecord) : Prop where
  launched : ∃ model set program,
    (executed start (executions ++ [execution])).1.get? execution.model = some model ∧
      LaunchedFor execution.batch model name set slot program record ∧
      BuiltBy home start (executions ++ [execution]) (set.shell slot).source slot builder program ∧
      -- A set that passes artifacts over has a program of its own, and so has one that
      -- finds none.
      ((set.shell slot).force = true ∨
        ((executed start executions).2.backend.compiler home).artifacts.get?
          (home, (set.shell slot).source) = none → builder = name)
  named : record.program = builder.slotName slot
  own : record.program = name.slotName slot ↔ builder = name

/-- After any run of executions from a fresh context, the next one adds records only of
programs that an execution of the run has built, under the name of the batch of that
execution, and the queues keep all that they have. -/
theorem records_name_builders (fresh : Fresh home start) (executions : List Execution)
    (execution : Execution) :
    (executed start executions).2.backend.Gains
      (fun record => ∃ name builder slot,
        RecordedUnder home start executions execution name builder slot record)
      (executed start (executions ++ [execution])).2.backend := by
  have attributed := Attributed.of_fresh fresh executions
  have attributedNext := Attributed.of_fresh fresh (executions ++ [execution])
  cases held : (executed start executions).1.get? execution.model with
  | none =>
      rw [executed_concat, Execution.perform_of_absent held]
      exact .of_queues rfl
  | some model =>
      obtain ⟨onPlatform, _⟩ := attributed.onHome _ model held
      have ran := executed_concat_of_held held
      have started : (⟨model, (executed start executions).2⟩ : ModelRun Platform).model.queue.OnPlatform :=
        onPlatform
      have gains := Model.execute_records started execution.batch execution.bypassPredictor
        execution.force
      have stored : (executed start (executions ++ [execution])).1.get? execution.model =
          some (execution.run model (executed start executions).2).model := by
        rw [ran]
        exact ModelStore.get?_put_of_held _ held
      have sameBench : (executed start (executions ++ [execution])).2 =
          (execution.run model (executed start executions).2).bench := by rw [ran]
      rw [sameBench]
      refine gains.imp ?_
      rintro record ⟨name, set, slot, program, launched⟩
      obtain ⟨place, variant, plan, found, planned, rfl, _, _, recorded⟩ := launched.planned
      have models := attributedNext.models _ _ stored
      obtain ⟨builtSlot, builder, built, forced⟩ :=
        models.compiled _ set _ program launched.held launched.compiled
      obtain ⟨_, assembled⟩ := models.assembled _ set launched.held
      obtain rfl : builtSlot = plan.slot :=
        Attributed.slot_eq fresh assembled found (Variant.plan_slot_used planned) built
      obtain ⟨programNamed, builderBatch, builderNamed⟩ := built.batch
      have recordNamed : record.program = builder.slotName plan.slot := by
        rw [recorded]
        exact programNamed
      refine ⟨name, builder, plan.slot, ⟨_, set, program, stored, launched, built, ?_⟩,
        recordNamed, ?_⟩
      · rintro (force | absent)
        · exact forced force
        · rcases builtBy_concat_iff.1 built with earlier | ⟨lastNamed, -⟩
          · exact absurd absent (attributed.left _ _ _ _ earlier)
          · exact Except.ok.inj (lastNamed.symm.trans launched.named)
      · rw [recordNamed]
        refine ⟨fun same => ?_, fun same => by rw [same]⟩
        exact (Fingerprint.slotName_injective builderNamed launched.named same).1

/-! ### An inner product of two vectors and one of a vector with itself -/

theorem Batch.square_allowed :
    (Node.mk (.buffer ⟨⟨1⟩, .f32, .vector 8, ⟨1⟩⟩) .innerProduct
      (.buffer ⟨⟨1⟩, .f32, .vector 8, ⟨1⟩⟩)).Admissible ⟨1⟩ 0 := ⟨rfl, rfl⟩

/-- The inner product of a vector of single precision with itself. -/
def Batch.square : Batch :=
  .single (.assignment .f32 ⟨⟨0⟩, .f32, .scalar, ⟨1⟩⟩ .innerProduct
    (.buffer ⟨⟨1⟩, .f32, .vector 8, ⟨1⟩⟩) (.buffer ⟨⟨1⟩, .f32, .vector 8, ⟨1⟩⟩) square_allowed)

namespace Batch

theorem square_programName : square.programName = .ok ⟨"sassf0ipvf1vf1"⟩ := by
  have symbols : square.symbols = square.first.tree.symbols ++ [] := rfl
  have tree : square.first.tree = .node .assign (.buffer ⟨⟨0⟩, .f32, .scalar, ⟨1⟩⟩)
      (.node .innerProduct (.buffer ⟨⟨1⟩, .f32, .vector 8, ⟨1⟩⟩)
        (.buffer ⟨⟨1⟩, .f32, .vector 8, ⟨1⟩⟩)) := Expression.assignment_tree square_allowed
  have tokens : square.tokens =
      [.operator .assign, .buffer .scalar .f32 0, .operator .innerProduct, .buffer .vector .f32 1,
        .buffer .vector .f32 1] := by
    simp only [Batch.tokens, ids, symbols, tree]
    rfl
  rw [programName_eq, tokens]
  rfl

/-- Whether both operands are one vector does not show in the kernels. -/
theorem square_emissions :
    ProgramSet.emissionsFrom square 0 [.folding] =
      ProgramSet.emissionsFrom (dot .f32) 0 [.folding] := rfl

theorem square_countable : square.Countable := by
  have small : ∀ node ∈ square.first.nodes.toList,
      node.lhs.Countable ∧ node.rhs.Countable := by
    simp [square, Batch.single, Expression.assignment, Operand.Countable, Buffer.Countable,
      Buffer.dims, Extent.dims, Size.kernelLimit]
  intro expression member node nodeMember
  obtain rfl : expression = square.first := List.mem_singleton.1 member
  exact small node nodeMember.val

end Batch

/-- The store of the model that folds, on its platform. -/
def foldingStart : ModelStore Platform × Bench Platform :=
  (⟨#[ModelRun.folding.model]⟩, ModelRun.folding.bench)

theorem foldingStart_fresh : Fresh ⟨1⟩ foldingStart where
  known := Option.some_ne_none _
  unused := fun _ => rfl
  made := by
    intro id model held
    obtain ⟨place⟩ := id
    cases place with
    | zero =>
        cases held
        exact ⟨_, _, _, folding_created, Platform.single.commandQueue_onPlatform ⟨1⟩, rfl⟩
    | succ place => cases held

namespace Execution

def dot : Execution := ⟨⟨0⟩, .dot .f32, false, false⟩

def square : Execution := ⟨⟨0⟩, .square, false, false⟩

end Execution

/-- An inner product of two vectors, and after it one of a vector with itself. -/
theorem squared_record_names_its_builder :
    Fresh ⟨1⟩ foldingStart ∧
      (executed foldingStart [.dot]).2.backend.Gains
        (fun record => ∃ name builder slot,
          RecordedUnder ⟨1⟩ foldingStart [.dot] .square name builder slot record)
        (executed foldingStart [.dot, .square]).2.backend :=
  ⟨foldingStart_fresh, records_name_builders foldingStart_fresh [.dot] .square⟩

/-! ### A record under the name of another batch -/

/-- Where no tuning has chosen a variant, inner products are launched. -/
theorem Working.folding_launched {run : ModelRun Platform} {batch : Batch} {name : Fingerprint}
    {emissions : List Emission} {shape : Shape} {plan : LaunchPlan}
    (working : Working (Platform.single.commandQueue ⟨1⟩) [.folding] run)
    (untuned : run.model.setup = ModelRun.folding.model.setup) (countable : batch.Countable)
    (home : batch.context = ⟨1⟩) (named : batch.programName = .ok name)
    (emitted : ProgramSet.emissionsFrom batch 0 [.folding] = .ok emissions)
    (measured : Variant.folding.sizes batch = .ok shape)
    (planned : Variant.folding.plan 0 batch = .ok plan) :
    ∃ program, Launched (Platform.single.commandQueue ⟨1⟩) batch run
      ((Call.execute batch false false).perform run) 0 .folding plan program := by
  have selected : run.model.select shape false = .ok ⟨0, .baseline⟩ :=
    congrArg (fun setup => setup.select shape false) untuned
  have onPlatform := Platform.single.commandQueue_onPlatform ⟨1⟩
  have first : [Variant.folding][0]? = some .folding := rfl
  obtain ⟨after, executed⟩ := working.execute_ok onPlatform folding_sized countable home named
    emitted first measured false selected first planned
  have ends := working.execute_ends onPlatform Nat.one_pos folding_sized countable false false
  unfold Action.Ends at ends
  rw [executed] at ends
  obtain ⟨variant, otherPlan, program, launched⟩ := ends
  have chosen := launched.chosen
  rw [working.ofVariants] at chosen
  cases chosen
  cases planned.symm.trans launched.planned
  have performed : (Call.execute batch false false).perform run = after :=
    congrArg Prod.snd executed
  rw [performed]
  exact ⟨program, launched⟩

/-- The model that folds has performed all executions of the run. -/
structure Folds (start : ModelStore Platform × Bench Platform) (executions : List Execution)
    (run : ModelRun Platform) : Prop where
  reached : Reaches (Platform.Accepting ⟨1⟩) .folding (executions.map Execution.call) run
  stored : (executed start executions).1.get? ⟨0⟩ = some run.model
  benched : (executed start executions).2 = run.bench
  untuned : run.model.setup = ModelRun.folding.model.setup

namespace Folds

variable {run : ModelRun Platform}

theorem step (folds : Folds start executions run) (own : execution.model = ⟨0⟩) :
    Folds start (executions ++ [execution]) (execution.call.perform run) := by
  have held := folds.stored
  rw [← own] at held
  have ran := executed_concat_of_held held
  rw [folds.benched] at ran
  have reached := folds.reached.call execution.call
  rw [← List.map_singleton (f := Execution.call), ← List.map_append] at reached
  refine ⟨reached, ?_, ?_, ?_⟩
  · rw [ran, ← own]
    exact ModelStore.get?_put_of_held _ held
  · rw [ran]
    rfl
  · exact (Call.setup_of_execute _ _ _ run).trans folds.untuned

theorem working (folds : Folds start executions run) :
    Working (Platform.single.commandQueue ⟨1⟩) [.folding] run := by
  have nonempty : 0 < [Variant.folding].length := Nat.one_pos
  exact (Working.initial folding_created folding_ready).of_reaches
    (Platform.single.commandQueue_onPlatform ⟨1⟩) nonempty folds.reached

/-- Where all calls are without the flag and emit what the inner product does, every stored
set has its sources and serves itself from artifacts. -/
theorem shell_of_held {name : Fingerprint} {set : ProgramSet} {emissions : List Emission}
    (folds : Folds start executions run)
    (alike : ∀ execution ∈ executions, execution.force = false ∧
      ProgramSet.emissionsFrom execution.batch 0 [.folding] = .ok emissions)
    (held : run.model.programs.get? (⟨1⟩, name) = some set) (slot : Slot) :
    (set.shell slot).force = false ∧ (set.shell slot).source =
      Device.reference.defineExtension "cl_khr_fp64" ++
        String.join (emissions.map fun emission => emission.text slot) := by
  obtain ⟨events, traced⟩ := folds.reached.traced
  have tallied := ((Accounted.initial folding_created).of_traced traced).tallied
  obtain ⟨_, builder, known, flagged⟩ := tallied.commissioned _ set held
  obtain ⟨found, sameHeld, built⟩ := tallied.built known
  cases held.symm.trans sameHeld
  obtain ⟨execution, member, rfl⟩ := List.mem_map.1 (List.mem_of_find?_eq_some known)
  obtain ⟨unforced, alikeEmitted⟩ := alike execution member
  obtain ⟨others, emitted, assembled⟩ := ProgramSet.build_eq_ok_iff.1 built
  cases emitted.symm.trans alikeEmitted
  refine ⟨(flagged slot).trans unforced, ?_⟩
  rw [← ProgramSet.uncompiled_source, assembled, ProgramSet.assemble_source]
  rfl

end Folds

/-- Both inner products emit the same. -/
theorem dot_square_alike {emissions : List Emission}
    (emitted : ProgramSet.emissionsFrom (.dot .f32) 0 [.folding] = .ok emissions) :
    ∀ execution ∈ [Execution.dot, Execution.square], execution.force = false ∧
      ProgramSet.emissionsFrom execution.batch 0 [.folding] = .ok emissions :=
  List.forall_mem_cons.2 ⟨⟨rfl, emitted⟩,
    List.forall_mem_singleton.2 ⟨rfl, Batch.square_emissions.trans emitted⟩⟩

/-- Behind the inner product of two vectors, the program of one of a vector with itself is
the artifact that the former has left. -/
theorem square_built_by_dot {run : ModelRun Platform} {set : ProgramSet} {slot : Slot}
    {program : Program} (fresh : Fresh ⟨1⟩ start)
    (twice : Folds start [.dot, .square] run)
    (held : run.model.programs.get? (⟨1⟩, ⟨"sassf0ipvf1vf1"⟩) = some set)
    (compiled : (set.shell slot).compiled = some program)
    (left : ((executed start [.dot]).2.backend.compiler ⟨1⟩).artifacts.get?
      (⟨1⟩, (set.shell slot).source) ≠ none) :
    ∃ builtSlot, BuiltBy ⟨1⟩ start [.dot, .square] (set.shell slot).source builtSlot
      ⟨"sassf0ipvf1vf2"⟩ program := by
  obtain ⟨emissions, emitted⟩ := Batch.dot_emitted .f32
  have models := (Attributed.of_fresh fresh [.dot, .square]).models _ _ twice.stored
  obtain ⟨builtSlot, builder, built, -⟩ := models.compiled _ set slot program held compiled
  have split : BuiltBy ⟨1⟩ start ([.dot] ++ [.square]) (set.shell slot).source builtSlot builder
    program := built
  rcases builtBy_concat_iff.1 split with first | ⟨named, model, stored, now⟩
  · have splitFirst : BuiltBy ⟨1⟩ start ([] ++ [.dot]) (set.shell slot).source builtSlot builder
      program := first
    rcases builtBy_concat_iff.1 splitFirst with nothing | ⟨named, -⟩
    · exact absurd nothing not_builtBy_nil
    · cases Batch.dot_programName.symm.trans named
      exact ⟨builtSlot, built⟩
  · cases Batch.square_programName.symm.trans named
    cases twice.stored.symm.trans stored
    obtain ⟨other, otherHeld, same, due⟩ := now.due
    cases held.symm.trans otherHeld
    have unforced := (twice.shell_of_held (dot_square_alike emitted) held builtSlot).1
    rcases due with forced | absent
    · cases unforced.symm.trans forced
    · exact absurd absent left

/-- Behind the inner product of two vectors, one of a vector with itself is launched under
the name of the former. -/
theorem square_named_as_dot {run : ModelRun Platform} (fresh : Fresh ⟨1⟩ start)
    (folds : Folds start [] run) :
    ∃ record records,
      ((executed start [.dot, .square]).2.backend.queue ⟨1⟩).history =
        ((executed start [.dot]).2.backend.queue ⟨1⟩).history ++ record :: records ∧
      record.program = "sassf0ipvf1vf2" := by
  have once : Folds start [.dot] _ := folds.step rfl
  have twice : Folds start [.dot, .square] _ := once.step rfl
  obtain ⟨emissions, emitted⟩ := Batch.dot_emitted .f32
  have alike := dot_square_alike emitted
  obtain ⟨dotPlan, dotPlanned, dotSlot⟩ : ∃ plan, Variant.folding.plan 0 (.dot .f32) = .ok plan ∧
      plan.slot = .primary := ⟨_, rfl, rfl⟩
  obtain ⟨plan, planned, slot, first, rest, launches⟩ : ∃ plan,
      Variant.folding.plan 0 .square = .ok plan ∧ plan.slot = .primary ∧
        ∃ first rest, plan.launches = first :: rest := ⟨_, rfl, rfl, _, _, rfl⟩
  obtain ⟨dotProgram, dotLaunched⟩ := folds.working.folding_launched folds.untuned
    Batch.dot_countable rfl Batch.dot_programName emitted rfl dotPlanned
  obtain ⟨program, launched⟩ := once.working.folding_launched once.untuned
    Batch.square_countable rfl Batch.square_programName (Batch.square_emissions.trans emitted) rfl
    planned
  obtain ⟨_, dotSet, dotNamed, dotHeld, dotCompiled⟩ := dotLaunched.compiled
  obtain ⟨_, set, named, held, compiled⟩ := launched.compiled
  cases Batch.square_programName.symm.trans named
  rw [slot] at compiled
  rw [dotSlot] at dotCompiled
  have left := ((Attributed.of_fresh fresh [.dot]).models _ _ once.stored).kept _ dotSet .primary _
    dotHeld dotCompiled
  have dotSource := (once.shell_of_held (fun execution member =>
    alike execution (List.mem_cons.2 (.inl (List.mem_singleton.1 member)))) dotHeld .primary).2
  rw [dotSource, ← (twice.shell_of_held alike held .primary).2] at left
  obtain ⟨builtSlot, built⟩ := square_built_by_dot fresh twice held compiled left
  have found : (Execution.square.call.perform (Execution.dot.call.perform run)).model.variants[0]? =
      some .folding := by
    rw [twice.working.ofVariants]
    rfl
  have used := Variant.plan_slot_used planned
  rw [slot] at used
  have models := (Attributed.of_fresh fresh [.dot, .square]).models _ _ twice.stored
  obtain ⟨_, assembled⟩ := models.assembled _ set held
  obtain rfl : builtSlot = .primary := Attributed.slot_eq fresh assembled found used built
  have appended := launched.appended.history
  rw [launches, List.map_cons] at appended
  rw [twice.benched, once.benched]
  exact ⟨_, _, appended, built.batch.1⟩

/-- The inner product of a vector with itself is recorded under the name of another batch. -/
theorem square_recorded_under_other_name :
    Fresh ⟨1⟩ foldingStart ∧ Batch.square.programName = .ok ⟨"sassf0ipvf1vf1"⟩ ∧
      ∃ record records,
        ((executed foldingStart [.dot, .square]).2.backend.queue ⟨1⟩).history =
          ((executed foldingStart [.dot]).2.backend.queue ⟨1⟩).history ++ record :: records ∧
        ∀ slot, record.program ≠ Fingerprint.slotName ⟨"sassf0ipvf1vf1"⟩ slot := by
  obtain ⟨record, records, gained, named⟩ :=
    square_named_as_dot foldingStart_fresh ⟨.start, rfl, rfl, rfl⟩
  refine ⟨foldingStart_fresh, Batch.square_programName, record, records, gained, fun slot => ?_⟩
  rw [named]
  cases slot <;> decide

end KernelTuner
