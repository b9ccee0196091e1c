import KernelTuner.Kernel.Basic

/-!
Contract: the source text of kernels.

Owns: the text of every part of a kernel. Parentheses are written where the
grouping of operators needs them and where the kernel asks for them. A block is
indented by two spaces, its braces stand on lines of their own, and every line
ends with a line feed.
-/

set_option autoImplicit false

namespace KernelTuner.Kernel

def WorkItem.function : WorkItem → String
  | globalId => "get_global_id"
  | globalSize => "get_global_size"
  | localId => "get_local_id"
  | groupId => "get_group_id"
  | groupCount => "get_num_groups"

/-- `text`, in parentheses when `needed`. -/
def enclose (needed : Bool) (text : String) : String :=
  if needed then "(" ++ text ++ ")" else text

/-- How tightly the outermost operator of an index binds: sums 1, products 2,
anything else 3. -/
def Index.level : Index → Nat
  | .add _ _ | .sub _ _ => 1
  | .mul _ _ | .div _ _ | .mod _ _ => 2
  | _ => 3

/-- Operators associate to the left: a right operand of equal level is enclosed. -/
def Index.text : Index → String
  | .literal value => toString value
  | .var name => name
  | .workItem query dimension => query.function ++ "(" ++ toString dimension ++ ")"
  | .add left right =>
      enclose (left.level < 1) left.text ++ " + " ++ enclose (right.level < 2) right.text
  | .sub left right =>
      enclose (left.level < 1) left.text ++ " - " ++ enclose (right.level < 2) right.text
  | .mul left right =>
      enclose (left.level < 2) left.text ++ " * " ++ enclose (right.level < 3) right.text
  | .div left right =>
      enclose (left.level < 2) left.text ++ " / " ++ enclose (right.level < 3) right.text
  | .mod left right =>
      enclose (left.level < 2) left.text ++ " % " ++ enclose (right.level < 3) right.text
  | .minimum left right => "min(" ++ left.text ++ ", " ++ right.text ++ ")"
  | .narrow index => "(unsigned int)(" ++ index.text ++ ")"

def Condition.text : Condition → String
  | .less left right => left.text ++ " < " ++ right.text
  | .greater left right => left.text ++ " > " ++ right.text
  | .equal left right => left.text ++ " == " ++ right.text
  | .both left right => left.text ++ " && " ++ right.text

def Place.text : Place → String
  | .var name => name
  | .element array indices =>
      array ++ String.join (indices.map (fun index => "[" ++ index.text ++ "]"))

/-- How tightly arithmetic binds: sums 1, products 2. -/
def arithmeticLevel : Arithmetic → Nat
  | .add | .sub => 1
  | .mul | .div => 2

/-- How tightly the outermost operator of a value binds: conditionals 0, sums 1,
products 2, anything else 3. -/
def Value.level : Value → Nat
  | .orZero _ _ => 0
  | .binary operator _ _ => arithmeticLevel operator
  | _ => 3

/-- Digits of a lane number. -/
def hexDigits (value : Nat) : String := String.ofList (Nat.toDigits 16 value)

def Value.text : Value → String
  | .literal value => toString value
  | .read place => place.text
  | .load width index array => s!"vload{width}(" ++ index.text ++ ", " ++ array ++ ")"
  | .lane vector number => vector ++ ".s" ++ hexDigits number
  | .binary operator left right =>
      enclose (left.level < arithmeticLevel operator) left.text ++ " " ++ operator.symbol ++ " " ++
        enclose (right.level < arithmeticLevel operator + 1) right.text
  | .orZero condition value =>
      "(" ++ condition.text ++ ") ? " ++ enclose (value.level < 1) value.text ++ " : 0"
  | .group value => "(" ++ value.text ++ ")"

def ValueType.text (type : ValueType) : String :=
  type.element.kernelName ++ (if type.lanes = 1 then "" else toString type.lanes)

def Instruction.text : Instruction → String
  | .declareIndex name value => "unsigned int " ++ name ++ " = " ++ value.text ++ ";"
  | .declareValue type name value => type.text ++ " " ++ name ++ " = " ++ value.text ++ ";"
  | .declareArray shared element name extents =>
      (if shared then "__local " else "") ++ element.kernelName ++ " " ++
        (Place.element name extents).text ++ ";"
  | .assign place value => place.text ++ " = " ++ value.text ++ ";"
  | .accumulate place value => place.text ++ " += " ++ value.text ++ ";"
  | .store width value index array =>
      s!"vstore{width}(" ++ value.text ++ ", " ++ index.text ++ ", " ++ array ++ ");"
  | .barrier => "barrier(CLK_LOCAL_MEM_FENCE);"

def Stride.text (counter : String) : Stride → String
  | .increment => "++" ++ counter
  | .advance distance => counter ++ " += " ++ distance.text
  | .halve => counter ++ " >>= 1"

def LoopHead.text (head : LoopHead) : String :=
  "for (unsigned int " ++ head.counter ++ " = " ++ head.start.text ++ "; " ++
    head.condition.text ++ "; " ++ head.stride.text head.counter ++ ")"

/-- A line at nesting depth `depth`. -/
def indented (depth : Nat) (line : String) : String :=
  String.ofList (List.replicate (2 * depth) ' ') ++ line

def openBrace : String := "\x7b"

def closeBrace : String := "\x7d"

mutual

/-- The lines of a statement at nesting depth `depth`. -/
def Statement.lines (depth : Nat) : Statement → List String
  | .run instruction => [indented depth instruction.text]
  | .guarded condition instruction sameLine =>
      if sameLine then [indented depth ("if (" ++ condition.text ++ ") " ++ instruction.text)]
      else
        [indented depth ("if (" ++ condition.text ++ ")"), indented (depth + 1) instruction.text]
  | .scope body =>
      indented depth openBrace :: (blockLines (depth + 1) body ++ [indented depth closeBrace])
  | .loop head body =>
      indented depth head.text :: indented depth openBrace ::
        (blockLines (depth + 1) body ++ [indented depth closeBrace])
  | .loopOver head body => indented depth head.text :: body.lines (depth + 1)
  | .unroll factor => [indented depth s!"#pragma unroll {factor}"]

/-- The lines of statements one after another. -/
def blockLines (depth : Nat) : List Statement → List String
  | [] => []
  | statement :: rest => statement.lines depth ++ blockLines depth rest

end

def Parameter.text : Parameter → String
  | .size name => "unsigned int " ++ name
  | .pointer readOnly element name =>
      "__global " ++ (if readOnly then "const " else "") ++ element.kernelName ++ "* " ++ name
  | .scalar element name => element.kernelName ++ " " ++ name

/-- What every kernel header starts with. -/
def entryMark : String := "__kernel void "

end Kernel

namespace Kernel

def header (kernel : Kernel) : String :=
  entryMark ++ kernel.name ++ "(" ++ ", ".intercalate (kernel.parameters.map Parameter.text) ++ ")"

def lines (kernel : Kernel) : List String :=
  kernel.header :: openBrace :: (blockLines 1 kernel.body ++ [closeBrace])

def text (kernel : Kernel) : String :=
  String.join (kernel.lines.map (· ++ "\n"))

/-- Kernels one after another, with an empty line between two of them. -/
def fragmentText (kernels : List Kernel) : String :=
  "\n".intercalate (kernels.map text)

end Kernel

end KernelTuner
