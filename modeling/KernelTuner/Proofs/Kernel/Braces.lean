import KernelTuner.Kernel.Text
import KernelTuner.Proofs.Backend.Source

/-!
Contract: braces and headers in the text of kernels.

Owns: kernels whose names are plain, by recursion on the syntax; `Kernel.text_balanced`, by
which the only braces in the text of such a kernel are those that its blocks open and close;
`Kernel.interior_enclosed`, by which its only header is its own; and texts that hold kernels
one after another, in which a compiler finds the names of these kernels and, behind every
header, the text of one of them.
-/

set_option autoImplicit false

namespace KernelTuner

namespace Kernel

open Source (Plain Balanced Enclosed)

/-! ### Expressions -/

@[simp] def Index.NamesPlain : Index → Prop
  | .literal _ | .workItem _ _ => True
  | .var name => Plain name
  | .add left right | .sub left right | .mul left right | .div left right | .mod left right
  | .minimum left right => left.NamesPlain ∧ right.NamesPlain
  | .narrow index => index.NamesPlain

@[simp] def Condition.NamesPlain : Condition → Prop
  | .less left right | .greater left right | .equal left right =>
      left.NamesPlain ∧ right.NamesPlain
  | .both left right => left.NamesPlain ∧ right.NamesPlain

def Place.NamesPlain : Place → Prop
  | .var name => Plain name
  | .element array indices => Plain array ∧ ∀ index ∈ indices, index.NamesPlain

@[simp] theorem Place.namesPlain_var {name : String} : (Place.var name).NamesPlain ↔ Plain name :=
  Iff.rfl

@[simp] theorem Place.namesPlain_element {array : String} {indices : List Index} :
    (Place.element array indices).NamesPlain ↔
      Plain array ∧ ∀ index ∈ indices, index.NamesPlain :=
  Iff.rfl

@[simp] def Value.NamesPlain : Value → Prop
  | .literal _ => True
  | .read place => place.NamesPlain
  | .load _ index array => index.NamesPlain ∧ Plain array
  | .lane vector _ => Plain vector
  | .binary _ left right => left.NamesPlain ∧ right.NamesPlain
  | .orZero condition value => condition.NamesPlain ∧ value.NamesPlain
  | .group value => value.NamesPlain

theorem enclose_plain {needed : Bool} {text : String} (plain : Plain text) :
    Plain (enclose needed text) := by
  unfold enclose
  split
  · exact (Plain.append (by decide) plain).append (by decide)
  · exact plain

theorem Index.text_plain {index : Index} (names : index.NamesPlain) : Plain index.text := by
  have operation {left right : Index} {leftEnclosed rightEnclosed : Bool} {symbol : String}
      (symbolPlain : Plain symbol) (leftPlain : Plain left.text) (rightPlain : Plain right.text) :
      Plain (enclose leftEnclosed left.text ++ symbol ++ enclose rightEnclosed right.text) :=
    ((enclose_plain leftPlain).append symbolPlain).append (enclose_plain rightPlain)
  induction index with
  | literal value => exact Plain.number value
  | var name => exact names
  | workItem query dimension =>
      have function : Plain query.function := by cases query <;> decide
      exact ((function.append (by decide)).append (Plain.number dimension)).append (by decide)
  | add left right leftPlain rightPlain =>
      exact operation (by decide) (leftPlain names.1) (rightPlain names.2)
  | sub left right leftPlain rightPlain =>
      exact operation (by decide) (leftPlain names.1) (rightPlain names.2)
  | mul left right leftPlain rightPlain =>
      exact operation (by decide) (leftPlain names.1) (rightPlain names.2)
  | div left right leftPlain rightPlain =>
      exact operation (by decide) (leftPlain names.1) (rightPlain names.2)
  | mod left right leftPlain rightPlain =>
      exact operation (by decide) (leftPlain names.1) (rightPlain names.2)
  | minimum left right leftPlain rightPlain =>
      exact ((((Plain.append (by decide) (leftPlain names.1)).append (by decide)).append
        (rightPlain names.2)).append (by decide))
  | narrow index plain =>
      exact (Plain.append (by decide) (plain names)).append (by decide)

theorem Condition.text_plain {condition : Condition} (names : condition.NamesPlain) :
    Plain condition.text := by
  induction condition with
  | less left right =>
      exact ((Index.text_plain names.1).append (by decide)).append (Index.text_plain names.2)
  | greater left right =>
      exact ((Index.text_plain names.1).append (by decide)).append (Index.text_plain names.2)
  | equal left right =>
      exact ((Index.text_plain names.1).append (by decide)).append (Index.text_plain names.2)
  | both left right leftPlain rightPlain =>
      exact ((leftPlain names.1).append (by decide)).append (rightPlain names.2)

theorem Place.text_plain {place : Place} (names : place.NamesPlain) : Plain place.text := by
  cases place with
  | var name => exact names
  | element array indices =>
      refine names.1.append (Plain.join fun text member => ?_)
      obtain ⟨index, indexMember, rfl⟩ := List.mem_map.1 member
      exact (Plain.append (by decide) (Index.text_plain (names.2 index indexMember))).append
        (by decide)

theorem Value.text_plain {value : Value} (names : value.NamesPlain) : Plain value.text := by
  induction value with
  | literal value => exact Plain.number value
  | read place => exact Place.text_plain names
  | load width index array =>
      have function : Plain s!"vload{width}(" :=
        ((Plain.append (by decide) (Plain.number width)).append (by decide))
      exact (((function.append (Index.text_plain names.1)).append (by decide)).append
        names.2).append (by decide)
  | lane vector number => exact (Plain.append names (by decide)).append (Plain.digits 16 number)
  | binary operator left right leftPlain rightPlain =>
      have symbol : Plain operator.symbol := by cases operator <;> decide
      exact ((((enclose_plain (leftPlain names.1)).append (by decide)).append symbol).append
        (by decide)).append (enclose_plain (rightPlain names.2))
  | orZero condition value plain =>
      exact (((Plain.append (by decide) (Condition.text_plain names.1)).append (by decide)).append
        (enclose_plain (plain names.2))).append (by decide)
  | group value plain => exact (Plain.append (by decide) (plain names)).append (by decide)

/-! ### Statements -/

@[simp] def Instruction.NamesPlain : Instruction → Prop
  | .declareIndex name value => Plain name ∧ value.NamesPlain
  | .declareValue _ name value => Plain name ∧ value.NamesPlain
  | .declareArray _ _ name extents => (Place.element name extents).NamesPlain
  | .assign place value | .accumulate place value => place.NamesPlain ∧ value.NamesPlain
  | .store _ value index array => value.NamesPlain ∧ index.NamesPlain ∧ Plain array
  | .barrier => True

@[simp] def Stride.NamesPlain : Stride → Prop
  | .increment | .halve => True
  | .advance distance => distance.NamesPlain

@[simp] def LoopHead.NamesPlain (head : LoopHead) : Prop :=
  Plain head.counter ∧ head.start.NamesPlain ∧ head.condition.NamesPlain ∧ head.stride.NamesPlain

mutual

@[simp] def Statement.NamesPlain : Statement → Prop
  | .run instruction => instruction.NamesPlain
  | .guarded condition instruction _ => condition.NamesPlain ∧ instruction.NamesPlain
  | .scope body => BlockPlain body
  | .loop head body => head.NamesPlain ∧ BlockPlain body
  | .loopOver head body => head.NamesPlain ∧ body.NamesPlain
  | .unroll _ => True

@[simp] def BlockPlain : List Statement → Prop
  | [] => True
  | statement :: rest => statement.NamesPlain ∧ BlockPlain rest

end

@[simp] theorem blockPlain_append {left right : List Statement} :
    BlockPlain (left ++ right) ↔ BlockPlain left ∧ BlockPlain right := by
  induction left with
  | nil => simp
  | cons statement rest inductionHypothesis =>
      rw [List.cons_append, BlockPlain, BlockPlain, inductionHypothesis, and_assoc]

@[simp] def Parameter.NamesPlain : Parameter → Prop
  | .size name | .pointer _ _ name | .scalar _ name => Plain name

theorem kernelName_plain (type : ElementType) : Plain type.kernelName := by
  cases type <;> decide

theorem ValueType.text_plain (type : ValueType) : Plain type.text := by
  refine (kernelName_plain type.element).append ?_
  split
  · decide
  · exact Plain.number type.lanes

theorem Instruction.text_plain {instruction : Instruction} (names : instruction.NamesPlain) :
    Plain instruction.text := by
  cases instruction with
  | declareIndex name value =>
      exact (((Plain.append (by decide) names.1).append (by decide)).append
        (Index.text_plain names.2)).append (by decide)
  | declareValue type name value =>
      exact (((((ValueType.text_plain type).append (by decide)).append names.1).append
        (by decide)).append (Value.text_plain names.2)).append (by decide)
  | declareArray shared element name extents =>
      have array : (Place.element name extents).NamesPlain := names
      have front : Plain (if shared then "__local " else "") := by
        cases shared <;> decide
      exact (((front.append (kernelName_plain element)).append (by decide)).append
        (Place.text_plain array)).append (by decide)
  | assign place value =>
      exact (((Place.text_plain names.1).append (by decide)).append
        (Value.text_plain names.2)).append (by decide)
  | accumulate place value =>
      exact (((Place.text_plain names.1).append (by decide)).append
        (Value.text_plain names.2)).append (by decide)
  | store width value index array =>
      have function : Plain s!"vstore{width}(" :=
        (Plain.append (by decide) (Plain.number width)).append (by decide)
      exact (((((function.append (Value.text_plain names.1)).append (by decide)).append
        (Index.text_plain names.2.1)).append (by decide)).append names.2.2).append (by decide)
  | barrier => decide

theorem LoopHead.text_plain {head : LoopHead} (names : head.NamesPlain) : Plain head.text := by
  obtain ⟨counter, start, condition, stride⟩ := names
  have strideText : Plain (head.stride.text head.counter) := by
    cases moved : head.stride with
    | increment => exact Plain.append (by decide) counter
    | advance distance =>
        rw [moved] at stride
        exact (Plain.append counter (by decide)).append (Index.text_plain stride)
    | halve => exact Plain.append counter (by decide)
  exact (((((((Plain.append (by decide) counter).append (by decide)).append
    (Index.text_plain start)).append (by decide)).append (Condition.text_plain condition)).append
      (by decide)).append strideText).append (by decide)

theorem Parameter.text_plain {parameter : Parameter} (names : parameter.NamesPlain) :
    Plain parameter.text := by
  cases parameter with
  | size name => exact Plain.append (by decide) names
  | pointer readOnly element name =>
      have constness : Plain (if readOnly then "const " else "") := by
        cases readOnly <;> decide
      exact (((Plain.append (by decide) constness).append (kernelName_plain element)).append
        (by decide)).append names
  | scalar element name =>
      exact ((kernelName_plain element).append (by decide)).append names

/-! ### Lines -/

/-- Lines, each with the line feed that ends it. -/
def linesText (lines : List String) : String := String.join (lines.map (· ++ "\n"))

theorem linesText_append (left right : List String) :
    linesText (left ++ right) = linesText left ++ linesText right := by
  rw [linesText, List.map_append, String.join_append]
  rfl

theorem indented_plain {line : String} (depth : Nat) (plain : Plain line) :
    Plain (indented depth line) := by
  refine Plain.append (.of_ordinary fun character member => ?_) plain
  rw [String.toList_ofList] at member
  rw [List.eq_of_mem_replicate member]
  decide

theorem linesText_plain {lines : List String} (plain : ∀ line ∈ lines, Plain line) :
    Enclosed (linesText lines) := by
  refine (Plain.join fun text member => ?_).enclosed
  obtain ⟨line, lineMember, rfl⟩ := List.mem_map.1 member
  exact (plain line lineMember).append (by decide)

/-- Enclosed lines between two lines with a brace. -/
theorem linesText_block {lines : List String} (depth : Nat) (enclosed : Enclosed (linesText lines)) :
    Enclosed (linesText (indented depth openBrace :: (lines ++ [indented depth closeBrace]))) := by
  have space : Plain (indented depth "") := indented_plain depth (by decide)
  have text : linesText (indented depth openBrace :: (lines ++ [indented depth closeBrace])) =
      indented depth "" ++ ("\x7b" ++ ("\n" ++ linesText lines ++ indented depth "") ++ "\x7d") ++
        "\n" := by
    rw [← List.singleton_append, linesText_append, linesText_append]
    apply String.toList_injective
    simp [linesText, indented, openBrace, closeBrace]
  have lineFeed : Enclosed "\n" := Plain.enclosed (by decide)
  rw [text]
  exact (space.enclosed.append
    ((lineFeed.append enclosed).append space.enclosed).block).append lineFeed

mutual

theorem Statement.lines_enclosed (depth : Nat) :
    (statement : Statement) → statement.NamesPlain → Enclosed (linesText (statement.lines depth))
  | .run instruction, names =>
      linesText_plain (List.forall_mem_singleton.2
        (indented_plain depth (Instruction.text_plain names)))
  | .guarded condition instruction sameLine, names => by
      have test : Plain ("if (" ++ condition.text ++ ")") :=
        (Plain.append (by decide) (Condition.text_plain names.1)).append (by decide)
      have action : Plain instruction.text := Instruction.text_plain names.2
      have line : Plain ("if (" ++ condition.text ++ ") " ++ instruction.text) :=
        ((Plain.append (by decide) (Condition.text_plain names.1)).append (by decide)).append action
      cases sameLine with
      | true => exact linesText_plain (List.forall_mem_singleton.2 (indented_plain depth line))
      | false =>
          exact linesText_plain (List.forall_mem_cons.2 ⟨indented_plain depth test,
            List.forall_mem_singleton.2 (indented_plain (depth + 1) action)⟩)
  | .scope body, names => linesText_block depth (blockLines_enclosed (depth + 1) body names)
  | .loop head body, names => by
      have headLine := linesText_plain (List.forall_mem_singleton.2
        (indented_plain depth (LoopHead.text_plain names.1)))
      have block := linesText_block depth (blockLines_enclosed (depth + 1) body names.2)
      have whole := headLine.append block
      rw [← linesText_append] at whole
      exact whole
  | .loopOver head body, names => by
      have headLine := linesText_plain (List.forall_mem_singleton.2
        (indented_plain depth (LoopHead.text_plain names.1)))
      have whole := headLine.append (Statement.lines_enclosed (depth + 1) body names.2)
      rw [← linesText_append] at whole
      exact whole
  | .unroll factor, _ => by
      have hint : Plain s!"#pragma unroll {factor}" :=
        Plain.append (by decide) (Plain.number factor)
      exact linesText_plain (List.forall_mem_singleton.2 (indented_plain depth hint))

theorem blockLines_enclosed (depth : Nat) :
    (body : List Statement) → BlockPlain body → Enclosed (linesText (blockLines depth body))
  | [], _ => linesText_plain (List.forall_mem_nil _)
  | statement :: rest, names => by
      have whole := (Statement.lines_enclosed depth statement names.1).append
        (blockLines_enclosed depth rest names.2)
      rw [← linesText_append] at whole
      exact whole

end

/-! ### Kernels -/

/-- A kernel in which no name has a brace or makes up a header. -/
structure NamesPlain (kernel : Kernel) : Prop where
  name : Plain kernel.name
  parameters : ∀ parameter ∈ kernel.parameters, parameter.NamesPlain
  body : BlockPlain kernel.body

/-- The text of a kernel behind the mark of its header. -/
def interior (kernel : Kernel) : String :=
  kernel.name ++ ("(" ++ ", ".intercalate (kernel.parameters.map Parameter.text) ++ ")\n" ++
    linesText (indented 0 openBrace :: (blockLines 1 kernel.body ++ [indented 0 closeBrace])))

theorem text_eq (kernel : Kernel) : kernel.text = entryMark ++ kernel.interior := by
  apply String.toList_injective
  simp [Kernel.text, lines, header, interior, linesText, indented]

theorem interior_enclosed {kernel : Kernel} (names : kernel.NamesPlain) :
    Enclosed kernel.interior := by
  have parameters : Plain (", ".intercalate (kernel.parameters.map Parameter.text)) := by
    refine Plain.intercalate (by decide) ?_
    intro text member
    obtain ⟨parameter, parameterMember, rfl⟩ := List.mem_map.1 member
    exact Parameter.text_plain (names.parameters parameter parameterMember)
  have signature : Plain ("(" ++ ", ".intercalate (kernel.parameters.map Parameter.text) ++ ")\n") :=
    (Plain.append (by decide) parameters).append (by decide)
  exact names.name.enclosed.append (signature.enclosed.append
    (linesText_block 0 (blockLines_enclosed 1 kernel.body names.body)))

theorem text_balanced {kernel : Kernel} (names : kernel.NamesPlain) : Balanced kernel.text := by
  have mark : Balanced entryMark := fun line _ _ => ⟨line, rfl⟩
  rw [text_eq]
  exact mark.append (interior_enclosed names).balanced

theorem fragmentText_balanced {kernels : List Kernel}
    (names : ∀ kernel ∈ kernels, kernel.NamesPlain) : Balanced (fragmentText kernels) := by
  refine Balanced.intercalate (by decide) ?_
  intro text member
  obtain ⟨kernel, kernelMember, rfl⟩ := List.mem_map.1 member
  exact text_balanced (names kernel kernelMember)

/-- The header of every kernel stands in the text of its fragment. -/
theorem header_infix_fragmentText {kernels : List Kernel} {kernel : Kernel}
    (member : kernel ∈ kernels) : kernel.header.toList <:+: (fragmentText kernels).toList := by
  have inText : kernel.header.toList <:+: kernel.text.toList := by
    rw [Kernel.text, lines, List.map_cons, String.join_cons, String.append_assoc,
      String.toList_append]
    exact List.infix_append_left
  exact inText.trans (Source.infix_intercalate (List.mem_map_of_mem member))

end Kernel

/-! ### Kernels that are found by their names -/

/-- A kernel that can be found by its name, and in which no other one is found. -/
structure Kernel.Legible (kernel : Kernel) : Prop where
  named : Source.Identifier kernel.name
  interior : Source.Unheaded kernel.interior.toList

namespace Kernel

variable {kernel : Kernel}

theorem interior_toList (kernel : Kernel) :
    ∃ rest, kernel.interior.toList = kernel.name.toList ++ '(' :: rest := by
  refine ⟨?_, ?_⟩
  case refine_2 =>
    simp only [interior, String.toList_append, List.append_assoc]
    rfl

theorem text_toList (kernel : Kernel) :
    kernel.text.toList = '_' :: ("_kernel void ".toList ++ kernel.interior.toList) := by
  rw [text_eq, String.toList_append]
  rfl

/-- Behind the first character of a kernel no header begins. -/
theorem Legible.tail (legible : kernel.Legible) :
    Source.Unheaded ("_kernel void ".toList ++ kernel.interior.toList) :=
  .append (by decide) legible.interior

end Kernel

namespace Source

variable {kernel : Kernel} {kernels : List Kernel} {characters : List Char}

/-- The scan reads the name of a kernel and goes on behind its text. -/
theorem entriesFrom_text (legible : kernel.Legible) (rest : List Char) :
    entriesFrom (kernel.text.toList ++ rest) = kernel.name :: entriesFrom rest := by
  obtain ⟨body, interior⟩ := kernel.interior_toList
  have marked : Kernel.entryMark.toList.isPrefixOf (kernel.text.toList ++ rest) = true := by
    rw [List.isPrefixOf_iff_prefix, Kernel.text_eq, String.toList_append, List.append_assoc]
    exact List.prefix_append ..
  have behind : (kernel.text.toList ++ rest).drop Kernel.entryMark.toList.length =
      kernel.name.toList ++ '(' :: (body ++ rest) := by
    rw [Kernel.text_eq, String.toList_append, List.append_assoc, List.drop_left, interior]
    simp
  rw [Kernel.text_toList] at marked behind ⊢
  rw [List.cons_append] at marked behind ⊢
  rw [entriesFrom]
  simp only [marked, ↓reduceIte]
  rw [behind, entryName?_eq legible.named, legible.tail.entriesFrom_append]
  rfl

/-! ### Texts that hold kernels -/

/-- Characters that are the texts of kernels one after another, with nothing between them in
which a header begins. -/
inductive Holds : List Kernel → List Char → Prop where
  | none {characters : List Char} (unheaded : Unheaded characters) : Holds [] characters
  | cons {kernel : Kernel} {kernels : List Kernel} {gap rest : List Char} (between : Unheaded gap)
      (legible : kernel.Legible) (others : Holds kernels rest) :
      Holds (kernel :: kernels) (gap ++ (kernel.text.toList ++ rest))

namespace Holds

theorem behind {front : List Char} (unheaded : Unheaded front) (holds : Holds kernels characters) :
    Holds kernels (front ++ characters) := by
  cases holds with
  | none others => exact .none (unheaded.append others)
  | cons between legible others =>
      rw [← List.append_assoc]
      exact .cons (unheaded.append between) legible others

theorem append {others : List Kernel} {later : List Char} (first : Holds kernels characters)
    (second : Holds others later) : Holds (kernels ++ others) (characters ++ later) := by
  induction first with
  | none unheaded => exact second.behind unheaded
  | cons between legible _ inductionHypothesis =>
      rw [List.append_assoc, List.append_assoc]
      exact .cons between legible inductionHypothesis

theorem single (legible : kernel.Legible) : Holds [kernel] kernel.text.toList := by
  have held : Holds [kernel] ([] ++ (kernel.text.toList ++ [])) :=
    .cons .nil legible (.none .nil)
  simpa using held

theorem fragmentText (legible : ∀ kernel ∈ kernels, kernel.Legible) :
    Holds kernels (Kernel.fragmentText kernels).toList := by
  induction kernels with
  | nil => exact .none .nil
  | cons kernel others inductionHypothesis =>
      obtain ⟨first, later⟩ := List.forall_mem_cons.1 legible
      by_cases last : others = []
      · subst last
        simpa [Kernel.fragmentText] using single first
      · have more : others.map Kernel.text ≠ [] := mt List.map_eq_nil_iff.1 last
        have lineFeed : Unheaded "\n".toList := by decide
        rw [Kernel.fragmentText, List.map_cons, String.intercalate_cons_of_ne_nil more,
          String.toList_append, String.toList_append, List.append_assoc]
        exact (single first).append ((inductionHypothesis later).behind lineFeed)

/-- The compiler finds the names of the kernels that a text holds, in their order. -/
theorem entries (holds : Holds kernels characters) :
    entriesFrom characters = kernels.map Kernel.name := by
  induction holds with
  | none unheaded => simpa [entriesFrom] using unheaded.entriesFrom_append []
  | cons between legible _ inductionHypothesis =>
      rw [between.entriesFrom_append, entriesFrom_text legible, inductionHypothesis, List.map_cons]

theorem text_infix (holds : Holds kernels characters) (member : kernel ∈ kernels) :
    kernel.text.toList <:+: characters := by
  induction holds with
  | none => cases member
  | @cons own others gap rest between legible _ inductionHypothesis =>
      rcases List.mem_cons.1 member with rfl | later
      · exact ⟨gap, rest, List.append_assoc ..⟩
      · exact ((inductionHypothesis later).trans List.infix_append_right).trans
          List.infix_append_right

/-- Behind every header stands what one of the kernels has behind its own. -/
theorem interior_of_header {front back : List Char} (holds : Holds kernels characters)
    (text : characters = front ++ (Kernel.entryMark.toList ++ back)) :
    ∃ kernel ∈ kernels, kernel.Legible ∧ kernel.interior.toList <+: back := by
  induction holds generalizing front with
  | @none characters unheaded =>
      rw [← List.append_nil characters] at text
      obtain ⟨between, -, nothing⟩ := unheaded.behind text
      simp at nothing
      exact absurd nothing.2.1 (by decide)
  | @cons own others gap rest between legible _ inductionHypothesis =>
      obtain ⟨inner, -, text⟩ := between.behind text
      cases inner with
      | nil =>
          rw [Kernel.text_eq, String.toList_append, List.append_assoc, List.nil_append] at text
          exact ⟨own, List.mem_cons_self, legible, ⟨rest, List.append_cancel_left text⟩⟩
      | cons first inner =>
          rw [Kernel.text_toList, List.cons_append, List.cons_append, List.cons.injEq] at text
          obtain ⟨beyond, -, text⟩ := legible.tail.behind text.2
          obtain ⟨kernel, member, found⟩ := inductionHypothesis text
          exact ⟨kernel, List.mem_cons_of_mem own member, found⟩

end Holds

/-- The text of the kernel stands in the source, and behind every header with its name. -/
structure Shows (source : String) (kernel : Kernel) : Prop where
  standing : kernel.text.toList <:+: source.toList
  found : ∀ front back, source.toList =
      front ++ ((Kernel.entryMark ++ kernel.name ++ "(").toList ++ back) →
    kernel.text.toList <+: (Kernel.entryMark ++ kernel.name ++ "(").toList ++ back

theorem Holds.shows {source : String} (holds : Holds kernels source.toList)
    (named : Identifier kernel.name) (member : kernel ∈ kernels)
    (unique : ∀ other ∈ kernels, other.name = kernel.name → other = kernel) :
    Shows source kernel where
  standing := holds.text_infix member
  found := by
    intro front back text
    have header : (Kernel.entryMark ++ kernel.name ++ "(").toList ++ back =
        Kernel.entryMark.toList ++ (kernel.name.toList ++ '(' :: back) := by simp
    rw [header] at text ⊢
    obtain ⟨other, otherMember, legible, rest, read⟩ := holds.interior_of_header text
    obtain ⟨body, interior⟩ := other.interior_toList
    have sameName : other.name = kernel.name := by
      have own := entryName?_eq named back
      rw [← read, interior, List.append_assoc, List.cons_append,
        entryName?_eq legible.named] at own
      exact Option.some.inj own
    rw [unique other otherMember sameName] at read
    rw [Kernel.text_eq, String.toList_append, ← read]
    exact ⟨rest, List.append_assoc ..⟩

end Source

end KernelTuner
