import KernelTuner.Proofs.Kernel.Braces
import KernelTuner.Proofs.Variant.TypedKernels

/-!
Contract: the entries of a variant.

Owns: the names of the kernels that a variant emits into each slot, which depend on
neither the batch nor the element type; and that no name in these kernels has a brace or makes
up a header.
-/

set_option autoImplicit false

namespace KernelTuner

open Source (Plain)

/-! ### Element-wise kernels -/

@[simp] def Access.NamesPlain : Access → Prop
  | .element index => index.NamesPlain
  | .vector _ => True

theorem Access.index_plain : Access.index.NamesPlain :=
  show Plain "i" by decide

theorem Access.read_plain {access : Access} (names : access.NamesPlain) (buffer : Buffer)
    {name : String} (plain : Plain name) : (access.read buffer name).NamesPlain := by
  unfold read
  split
  · simpa [first] using plain
  · cases access with
    | element index => simpa using ⟨plain, names⟩
    | vector width => exact ⟨index_plain, plain⟩

theorem Access.write_plain {access : Access} (names : access.NamesPlain) (buffer : Buffer)
    {name : String} {value : Kernel.Value} (plain : Plain name) (valuePlain : value.NamesPlain) :
    (access.write buffer name value).NamesPlain := by
  unfold write
  split
  · simpa [first] using ⟨plain, valuePlain⟩
  · cases access with
    | element index => simpa using ⟨⟨plain, names⟩, valuePlain⟩
    | vector width => exact ⟨valuePlain, index_plain, plain⟩

namespace Bindings

variable {bindings : Bindings} {access : Access}

theorem name_plain (position : Nat) : Plain (name position) :=
  Plain.append (by decide) (Plain.number position)

theorem nameOf_plain {buffer : Buffer} {found : String}
    (named : bindings.nameOf buffer = .ok found) : Plain found := by
  unfold nameOf at named
  split at named
  · cases named
    exact name_plain _
  · simp at named

theorem render_plain (names : access.NamesPlain) {tree : Tree} {scalars remaining : List Nat}
    {value : Kernel.Value}
    (rendered : bindings.render access tree scalars = .ok (value, remaining)) :
    value.NamesPlain := by
  induction tree generalizing scalars remaining value with
  | empty => cases rendered
  | buffer handle =>
      obtain ⟨found, named, same⟩ := bind_eq_ok_iff.1 rendered
      cases same
      exact Access.read_plain names handle (nameOf_plain named)
  | scalar elementType number =>
      cases scalars with
      | nil => cases rendered
      | cons position rest =>
          cases rendered
          exact name_plain position
  | node operator lhs rhs lhsHypothesis rhsHypothesis =>
      obtain ⟨arithmetic, left, right, between, _, leftRendered, rightRendered, rfl⟩ :=
        operands_of_render rendered
      exact ⟨lhsHypothesis leftRendered, rhsHypothesis rightRendered⟩

theorem statement_plain (names : access.NamesPlain) {tree : Tree} {scalars remaining : List Nat}
    {store : Kernel.Instruction}
    (stated : bindings.statement access tree scalars = .ok (store, remaining)) :
    store.NamesPlain := by
  obtain ⟨target, rhs, name, value, rfl, named, rendered, rfl⟩ := assignment_of_statement stated
  exact Access.write_plain names target (nameOf_plain named) (render_plain names rendered)

theorem statementsFrom_plain (names : access.NamesPlain) {trees : List Tree} {scalars : List Nat}
    {stores : List Kernel.Instruction}
    (stated : bindings.statementsFrom access trees scalars = .ok stores) :
    Kernel.BlockPlain (stores.map .run) := by
  induction trees generalizing scalars stores with
  | nil =>
      cases stated
      trivial
  | cons tree trees inductionHypothesis =>
      obtain ⟨⟨store, rest⟩, first, stated⟩ := bind_eq_ok_iff.1 stated
      obtain ⟨others, later, same⟩ := bind_eq_ok_iff.1 stated
      cases same
      exact ⟨statement_plain names first, inductionHypothesis later⟩

theorem statements_plain (names : access.NamesPlain) {batch : Batch}
    {statements : List Kernel.Statement}
    (stated : bindings.statements batch access = .ok statements) :
    Kernel.BlockPlain statements := by
  obtain ⟨stores, collected, same⟩ := bind_eq_ok_iff.1 stated
  cases same
  exact statementsFrom_plain names collected

theorem declarations_plain : ∀ parameter ∈ bindings.declarations, parameter.NamesPlain := by
  intro parameter member
  obtain ⟨⟨leaf, position⟩, _, rfl⟩ := List.mem_map.1 member
  cases leaf with
  | buffer handle => exact name_plain position
  | scalar elementType value => exact name_plain position

end Bindings

/-! ### Shared loops -/

namespace Kernel

/-- Names that a loop makes up from its counter. -/
def CounterPlain (counter : String) : Prop :=
  Plain counter ∧ Plain ("chunk_" ++ counter) ∧ Plain ("start_" ++ counter) ∧
    Plain ("end_" ++ counter)

instance (counter : String) : Decidable (CounterPlain counter) :=
  inferInstanceAs (Decidable (_ ∧ _))

theorem rangeLoop_plain (fetch : Fetch) {counter : String} {count : Index} (dimension : Nat)
    {body : List Statement} (counterPlain : CounterPlain counter) (countPlain : count.NamesPlain)
    (bodyPlain : BlockPlain body) : (rangeLoop fetch counter count dimension body).NamesPlain := by
  obtain ⟨counterPlain, chunk, start, finish⟩ := counterPlain
  cases fetch <;> simp [rangeLoop, chunk, start, finish, counterPlain, countPlain, bodyPlain]

theorem tailLoop_plain (width : Nat) {body : List Statement} (bodyPlain : BlockPlain body) :
    (tailLoop width body).NamesPlain := by
  simp +decide [tailLoop, bodyPlain]

theorem localFold_plain {lane : String} {place : Index → Place} (size : Nat)
    (lanePlain : Plain lane)
    (placePlain : ∀ index, index.NamesPlain → (place index).NamesPlain) :
    BlockPlain (localFold lane place size) := by
  have own : (place (.var lane)).NamesPlain := placePlain _ lanePlain
  have distance : Plain "stride" := by decide
  have other : (place (.add (.var lane) (.var "stride"))).NamesPlain :=
    placePlain _ ⟨lanePlain, distance⟩
  simp [localFold, lanePlain, distance, own, other]

end Kernel

/-! ### Kernels of one element type -/

namespace InnerProduct

open Kernel

theorem laneSum_plain (width : Nat) : (laneSum width).NamesPlain := by
  have vacc : Plain "vacc" := by decide
  have folded (lanes : List Nat) {sum : Value} (sumPlain : sum.NamesPlain) :
      (lanes.foldl (fun sum lane => Value.binary .add sum (.lane "vacc" lane)) sum).NamesPlain := by
    induction lanes generalizing sum with
    | nil => exact sumPlain
    | cons lane rest inductionHypothesis => exact inductionHypothesis ⟨sumPlain, vacc⟩
  exact folded _ vacc

theorem preamble_plain (type : ElementType) (localSize : Nat) :
    BlockPlain (preamble type localSize) := by
  simp +decide [preamble]

theorem groupSum_plain (localSize : Nat) {target : Place} (targetPlain : target.NamesPlain) :
    BlockPlain (groupSum localSize target) := by
  have fold : BlockPlain (localFold "lid" (fun index => .element "buf" [index]) localSize) :=
    localFold_plain localSize (by decide) fun index plain => by simpa +decide using plain
  simp +decide [groupSum, read, element, fold, targetPlain]

theorem accumulation_plain (params : InnerProduct) (type : ElementType) :
    BlockPlain (params.accumulation type) := by
  have loop {count : Index} {body : List Statement} (countPlain : count.NamesPlain)
      (bodyPlain : BlockPlain body) : (rangeLoop params.fetch "i" count 0 body).NamesPlain :=
    rangeLoop_plain params.fetch 0 (by decide) countPlain bodyPlain
  have count : Plain "N" := by decide
  have product : BlockPlain [.run (.accumulate (.var "acc")
      (.binary .mul (element "x" (.var "i")) (element "y" (.var "i"))))] := by
    simp +decide [element]
  unfold accumulation
  split
  · have vector : BlockPlain [.run (.accumulate (.var "vacc") (.binary .mul
        (.load params.simdWidth (.var "i") "x") (.load params.simdWidth (.var "i") "y")))] := by
      simp +decide
    have lanes : BlockPlain [.run (.accumulate (.var "acc") (laneSum params.simdWidth))] := by
      simp +decide [laneSum_plain]
    exact ⟨by simp +decide, loop ⟨count, trivial⟩ vector, lanes.1,
      tailLoop_plain params.simdWidth product, trivial⟩
  · exact ⟨loop count product, trivial⟩

theorem firstPass_plain (params : InnerProduct) (index : Nat) (type : ElementType) :
    (params.firstPass index type).NamesPlain where
  name := (Plain.append (by decide) (Plain.number index)).append (by decide)
  parameters := by simp +decide [firstPass]
  body := by
    have target : (Place.element "partials" [.workItem .groupId 0]).NamesPlain := by
      simp +decide
    simp [firstPass, preamble_plain, accumulation_plain, groupSum_plain, target]

theorem secondPass_plain (params : InnerProduct) (index : Nat) (type : ElementType) :
    (params.secondPass index type).NamesPlain where
  name := (Plain.append (by decide) (Plain.number index)).append (by decide)
  parameters := by simp +decide [secondPass]
  body := by
    have target : (Place.element "out" [.literal 0]).NamesPlain := by simp +decide
    simp +decide [secondPass, preamble_plain, groupSum_plain, target, element]

end InnerProduct

namespace MatrixVector

open Kernel

theorem accumulation_plain (params : MatrixVector) : BlockPlain params.accumulation := by
  have inner : Plain (innerName params.axis) := by cases params.axis <;> decide
  have outer : Plain (outerName params.axis) := by cases params.axis <;> decide
  have factor : (matrixElement params.axis).NamesPlain := by
    cases params.axis <;> simp +decide [matrixElement]
  unfold accumulation
  cases params.fetch <;> simp +decide [addProduct, inner, outer, factor]

theorem outputs_plain (params : MatrixVector) (type : ElementType) :
    BlockPlain (params.outputs type) := by
  have outer : Plain (outerName params.axis) := by cases params.axis <;> decide
  have fold : BlockPlain (localFold "lid1" (fun index => .element "buf" [.var "lid0", index])
      params.localSize1) :=
    localFold_plain params.localSize1 (by decide) fun index plain => by simpa +decide using plain
  have hints : BlockPlain (if 1 < params.simdWidth then [.unroll params.simdWidth] else []) := by
    split <;> simp
  simp +decide [outputs, outer, fold, hints, accumulation_plain]

theorem kernel_plain (params : MatrixVector) (index : Nat) (type : ElementType) :
    (params.kernel index type).NamesPlain where
  name := Plain.append (by decide) (Plain.number index)
  parameters := by simp +decide [kernel]
  body := by
    have outer : Plain (outerName params.axis) := by cases params.axis <;> decide
    have staging : BlockPlain (if params.fetch = .staged then
        [.run (.declareArray true type "xs" [.literal params.localSize1])] else []) := by
      split <;> simp +decide
    simp +decide [kernel, outer, staging, outputs_plain]

end MatrixVector

namespace MatrixProduct

open Kernel

variable (params : MatrixProduct) (guarded : Bool) (type : ElementType)

theorem elementA_plain {row step : Index} (rowPlain : row.NamesPlain) (stepPlain : step.NamesPlain) :
    (params.elementA row step).NamesPlain := by
  unfold elementA
  cases params.transposedA <;> simp +decide [rowPlain, stepPlain]

theorem elementB_plain {step column : Index} (stepPlain : step.NamesPlain)
    (columnPlain : column.NamesPlain) : (params.elementB step column).NamesPlain := by
  unfold elementB
  cases params.transposedB <;> simp +decide [stepPlain, columnPlain]

theorem guardedValue_plain {position step : Index} {extent : String} {value : Value}
    (positionPlain : position.NamesPlain) (extentPlain : Plain extent)
    (stepPlain : step.NamesPlain) (valuePlain : value.NamesPlain) :
    (guardedValue guarded position extent step value).NamesPlain := by
  cases guarded <;>
    simp +decide [guardedValue, positionPlain, extentPlain, stepPlain, valuePlain]

theorem blockRow_plain {row : String} (plain : Plain row) : (blockRow row).NamesPlain :=
  ⟨show Plain "row0" by decide, plain⟩

theorem blockColumn_plain {column : String} (plain : Plain column) :
    (blockColumn column).NamesPlain :=
  ⟨show Plain "col0" by decide, plain⟩

theorem blockStep_plain {step : String} (plain : Plain step) : (blockStep step).NamesPlain :=
  ⟨show Plain "k0" by decide, plain⟩

theorem guardedA_plain {row step : String} (rowPlain : Plain row) (stepPlain : Plain step) :
    (guardedValue guarded (blockRow row) "M" (blockStep step)
      (params.elementA (blockRow row) (blockStep step))).NamesPlain :=
  guardedValue_plain guarded (blockRow_plain rowPlain) (by decide) (blockStep_plain stepPlain)
    (params.elementA_plain (blockRow_plain rowPlain) (blockStep_plain stepPlain))

theorem guardedB_plain {step column : String} (stepPlain : Plain step)
    (columnPlain : Plain column) :
    (guardedValue guarded (blockColumn column) "N" (blockStep step)
      (params.elementB (blockStep step) (blockColumn column))).NamesPlain :=
  guardedValue_plain guarded (blockColumn_plain columnPlain) (by decide)
    (blockStep_plain stepPlain)
    (params.elementB_plain (blockStep_plain stepPlain) (blockColumn_plain columnPlain))

theorem stageA_plain : (params.stageA guarded).NamesPlain := by
  have value := params.guardedA_plain guarded (by decide : Plain "sm") (by decide : Plain "sk")
  simp +decide [stageA, strideLoop, value]

theorem stageB_plain : (params.stageB guarded).NamesPlain := by
  have value := params.guardedB_plain guarded (by decide : Plain "sk") (by decide : Plain "sn")
  simp +decide [stageB, strideLoop, value]

theorem factorA_plain : (params.factorA guarded).NamesPlain := by
  unfold factorA
  split
  · simp +decide
  · exact params.guardedA_plain guarded (by decide) (by decide)

theorem factorB_plain : (params.factorB guarded).NamesPlain := by
  unfold factorB
  split
  · simp +decide
  · exact params.guardedB_plain guarded (by decide) (by decide)

theorem preamble_plain : BlockPlain (params.preamble type) := by
  have tileA : BlockPlain (if params.fetchA = .staged then [.run (.declareArray true type "As"
      [.literal params.tileK, .add (.literal params.tileM) (.literal 1)])] else []) := by
    split <;> simp +decide
  have tileB : BlockPlain (if params.fetchB = .staged then [.run (.declareArray true type "Bs"
      [.literal params.tileK, .add (.literal params.tileN) (.literal 1)])] else []) := by
    split <;> simp +decide
  have layout : BlockPlain (if params.staged then
      [.run (.declareIndex "fi" (.mod (.add (.mul (.var "lid0") (.literal params.localSize1))
          (.var "lid1")) (.literal params.localFetch0))),
        .run (.declareIndex "fj" (.div (.add (.mul (.var "lid0") (.literal params.localSize1))
          (.var "lid1")) (.literal params.localFetch0)))] else []) := by
    split <;> simp +decide
  simp +decide [preamble, countTo, accumulator, tileA, tileB, layout]

theorem tileProduct_plain : BlockPlain (params.tileProduct guarded type) := by
  have barrier : BlockPlain (if params.staged then [.run .barrier] else []) := by
    split <;> simp
  have stageA : BlockPlain (if params.fetchA = .staged then [params.stageA guarded] else []) := by
    split <;> simp [stageA_plain]
  have stageB : BlockPlain (if params.fetchB = .staged then [params.stageB guarded] else []) := by
    split <;> simp [stageB_plain]
  simp +decide [tileProduct, countTo, accumulator, barrier, stageA, stageB, factorA_plain,
    factorB_plain]

theorem store_plain : (params.store guarded).NamesPlain := by
  cases guarded <;> simp +decide [store, countTo, accumulator]

theorem kernel_plain {name : String} (namePlain : Plain name) :
    (params.kernel name guarded type).NamesPlain where
  name := namePlain
  parameters := by simp +decide [kernel]
  body := by
    simp +decide [kernel, preamble_plain, tileProduct_plain, store_plain]

end MatrixProduct

/-! ### Emissions -/

/-- The kernels that an emission has for a slot. -/
def Emission.kernels (emission : Emission) : Slot → List Kernel
  | .primary => emission.primary
  | .fallback => emission.fallback.getD []

/-- The text that an emission has for a slot. -/
def Emission.text (emission : Emission) : Slot → String
  | .primary => emission.primaryText
  | .fallback => emission.fallbackText

theorem Emission.text_eq (emission : Emission) (slot : Slot) :
    emission.text slot = Kernel.fragmentText (emission.kernels slot) := by
  cases slot with
  | primary => rfl
  | fallback =>
      cases held : emission.fallback with
      | none => simp [text, kernels, fallbackText, held, Kernel.fragmentText]
      | some kernels => simp [text, Emission.kernels, fallbackText, held]

namespace Variant

/-- Names of the kernels for a slot, as variant number `index` of a model. -/
def entries : Variant → Nat → Slot → List String
  | vectorUpdate _, index, .primary => [VectorUpdate.entry index]
  | innerProduct _, index, .primary =>
      [InnerProduct.firstEntry index, InnerProduct.secondEntry index]
  | matrixUpdate _, index, .primary => [MatrixUpdate.entry index]
  | matrixVector _, index, .primary => [MatrixVector.entry index]
  | matrixProduct _, index, .primary => [MatrixProduct.primaryEntry index]
  | matrixProduct _, index, .fallback => [MatrixProduct.fallbackEntry index]
  | _, _, .fallback => []

variable {variant : Variant} {index : Nat} {batch : Batch} {emission : Emission}

/-- A variant emits its entries, whatever the batch. -/
theorem emit_entries (emits : variant.emit index batch = .ok emission) (slot : Slot) :
    (emission.kernels slot).map Kernel.name = variant.entries index slot := by
  by_cases elementWise : variant.IsElementWise
  · obtain ⟨kernel, _, primary, fallback, name, _⟩ := emit_elementWise elementWise emits
    cases slot with
    | primary =>
        have own : variant.entries index .primary = [variant.updateEntry index] := by
          cases variant <;> first | rfl | exact elementWise.elim
        simp [Emission.kernels, primary, name, own]
    | fallback =>
        have none : variant.entries index .fallback = [] := by
          cases variant <;> first | rfl | exact elementWise.elim
        simp [Emission.kernels, fallback, none]
  · rw [emit_typed elementWise emits]
    cases variant <;> cases slot <;> first | rfl | exact absurd trivial elementWise

theorem entry_identifier {name : String} {slot : Slot}
    (member : name ∈ variant.entries index slot) : Source.Identifier name := by
  have numbered {front back : String} (frontNamed : Source.Identifier front)
      (backNamed : Source.Identifier back) :
      Source.Identifier (front ++ toString index ++ back) :=
    (frontNamed.append (Source.Identifier.number index)).append backNamed
  have ending {front : String} (frontNamed : Source.Identifier front) :
      Source.Identifier (front ++ toString index) :=
    frontNamed.append (Source.Identifier.number index)
  cases slot with
  | primary =>
      cases variant with
      | vectorUpdate params =>
          rw [List.mem_singleton.1 member]
          exact ending (by decide)
      | innerProduct params =>
          rcases List.mem_cons.1 member with rfl | second
          · exact numbered (by decide) (by decide)
          · rw [List.mem_singleton.1 second]
            exact numbered (by decide) (by decide)
      | matrixUpdate params =>
          rw [List.mem_singleton.1 member]
          exact ending (by decide)
      | matrixVector params =>
          rw [List.mem_singleton.1 member]
          exact ending (by decide)
      | matrixProduct params =>
          rw [List.mem_singleton.1 member]
          exact ending (by decide)
  | fallback =>
      cases variant with
      | matrixProduct params =>
          rw [List.mem_singleton.1 member]
          exact numbered (by decide) (by decide)
      | _ => cases member

end Variant

/-! ### Names in emitted kernels -/

open Kernel (BlockPlain rangeLoop_plain tailLoop_plain)

theorem VectorUpdate.emit_plain {params : VectorUpdate} {index : Nat} {batch : Batch}
    {emission : Emission} (emits : params.emit index batch = .ok emission) :
    ∃ kernel, emission = { primary := [kernel] } ∧ kernel.NamesPlain := by
  have counter : Kernel.CounterPlain "i" := by decide
  have count : Plain "N" := by decide
  have name : Plain (entry index) := Plain.append (by decide) (Plain.number index)
  obtain ⟨scalar, scalarStated, emits⟩ := bind_eq_ok_iff.1 emits
  have scalarAccess : (Access.element (.var "i")).NamesPlain := counter.1
  have scalarPlain : BlockPlain scalar := Bindings.statements_plain scalarAccess scalarStated
  have parameters : ∀ parameter ∈ .size "N" :: (Bindings.collect batch).declarations,
      parameter.NamesPlain :=
    List.forall_mem_cons.2 ⟨count, Bindings.declarations_plain⟩
  by_cases wide : 1 < params.simdWidth
  · rw [if_pos wide] at emits
    obtain ⟨vector, vectorStated, emits⟩ := bind_eq_ok_iff.1 emits
    cases emits
    have vectorAccess : (Access.vector params.simdWidth).NamesPlain := trivial
    have vectorPlain : BlockPlain vector := Bindings.statements_plain vectorAccess vectorStated
    exact ⟨_, rfl, name, parameters,
      rangeLoop_plain params.fetch 0 counter ⟨count, trivial⟩ vectorPlain,
      tailLoop_plain params.simdWidth scalarPlain, trivial⟩
  · rw [if_neg wide] at emits
    cases emits
    exact ⟨_, rfl, name, parameters, rangeLoop_plain params.fetch 0 counter count scalarPlain,
      trivial⟩

theorem MatrixUpdate.emit_plain {params : MatrixUpdate} {index : Nat} {batch : Batch}
    {emission : Emission} (emits : params.emit index batch = .ok emission) :
    ∃ kernel, emission = { primary := [kernel] } ∧ kernel.NamesPlain := by
  have row : Kernel.CounterPlain "i" := by decide
  have column : Kernel.CounterPlain "j" := by decide
  have rows : Plain "M" := by decide
  have columns : Plain "N" := by decide
  have name : Plain (entry index) := Plain.append (by decide) (Plain.number index)
  obtain ⟨statements, stated, emits⟩ := bind_eq_ok_iff.1 emits
  have access : (Access.element (.add (.mul (.var "i") (.var "N")) (.var "j"))).NamesPlain :=
    ⟨⟨row.1, columns⟩, column.1⟩
  have statementsPlain : BlockPlain statements := Bindings.statements_plain access stated
  have parameters : ∀ parameter ∈ .size "M" :: .size "N" :: (Bindings.collect batch).declarations,
      parameter.NamesPlain :=
    List.forall_mem_cons.2 ⟨rows, List.forall_mem_cons.2 ⟨columns, Bindings.declarations_plain⟩⟩
  cases emits
  refine ⟨_, rfl, name, parameters, rangeLoop_plain params.fetch 0 row rows ?_, trivial⟩
  rw [Kernel.blockPlain_append]
  refine ⟨?_, rangeLoop_plain params.fetch 1 column columns statementsPlain, trivial⟩
  split <;> simp

namespace Variant

variable {variant : Variant} {index : Nat} {batch : Batch} {emission : Emission}

theorem typedEmission_plain (type : ElementType) (slot : Slot) :
    ∀ kernel ∈ (variant.typedEmission index type).kernels slot, kernel.NamesPlain := by
  intro kernel member
  cases variant with
  | innerProduct params =>
      cases slot with
      | primary =>
          rcases List.mem_cons.1 member with rfl | second
          · exact params.firstPass_plain index type
          · rw [List.mem_singleton.1 second]
            exact params.secondPass_plain index type
      | fallback => cases member
  | matrixVector params =>
      cases slot with
      | primary =>
          rw [List.mem_singleton.1 member]
          exact params.kernel_plain index type
      | fallback => cases member
  | matrixProduct params =>
      cases slot with
      | primary =>
          rw [List.mem_singleton.1 member]
          exact params.kernel_plain false type (Plain.append (by decide) (Plain.number index))
      | fallback =>
          rw [List.mem_singleton.1 member]
          exact params.kernel_plain true type
            ((Plain.append (by decide) (Plain.number index)).append (by decide))
  | _ => cases slot <;> cases member

/-- No name in an emitted kernel has a brace or makes up a header. -/
theorem emit_namesPlain (emits : variant.emit index batch = .ok emission) (slot : Slot) :
    ∀ kernel ∈ emission.kernels slot, kernel.NamesPlain := by
  have single {kernel : Kernel} (names : kernel.NamesPlain) :
      ∀ other ∈ ({ primary := [kernel] } : Emission).kernels slot, other.NamesPlain := by
    cases slot with
    | primary => exact List.forall_mem_singleton.2 names
    | fallback => exact List.forall_mem_nil _
  by_cases elementWise : variant.IsElementWise
  · cases variant with
    | vectorUpdate params =>
        obtain ⟨kernel, rfl, names⟩ := VectorUpdate.emit_plain emits
        exact single names
    | matrixUpdate params =>
        obtain ⟨kernel, rfl, names⟩ := MatrixUpdate.emit_plain emits
        exact single names
    | _ => exact elementWise.elim
  · rw [emit_typed elementWise emits]
    exact typedEmission_plain batch.elementType slot

end Variant

end KernelTuner
