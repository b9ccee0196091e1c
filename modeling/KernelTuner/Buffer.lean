import KernelTuner.ElementType
import KernelTuner.Identity
import KernelTuner.Size

/-!
Contract: device buffers as the expression layer sees them.

Owns: extents (a single value, a vector or a row-major matrix), element counts
and the handle of a buffer. Extents are machine words.
-/

set_option autoImplicit false

namespace KernelTuner

/-- Dimensions of a buffer. -/
inductive Extent where
  | scalar
  | vector (length : UInt64)
  | matrix (rows columns : UInt64)
deriving DecidableEq, Repr, Inhabited

namespace Extent

def dims : Extent → List Nat
  | scalar => []
  | vector length => [length.toNat]
  | matrix rows columns => [rows.toNat, columns.toNat]

def rank (extent : Extent) : Nat := extent.dims.length

/-- Exact number of elements; one for a single value. -/
def elements (extent : Extent) : Nat := extent.dims.foldl (· * ·) 1

def rows (extent : Extent) : Nat := extent.dims.getD 0 1

def columns (extent : Extent) : Nat := extent.dims.getD 1 1

/-- `s`calar, `v`ector or `m`atrix. -/
def kindCode : Extent → Char
  | scalar => 's'
  | vector _ => 'v'
  | matrix _ _ => 'm'

end Extent

/-- Handle of a device buffer. -/
structure Buffer where
  id : BufferId
  elementType : ElementType
  extent : Extent
  context : ContextId
deriving DecidableEq, Repr, Inhabited

namespace Buffer

def dims (buffer : Buffer) : List Nat := buffer.extent.dims

def rank (buffer : Buffer) : Nat := buffer.extent.rank

def rows (buffer : Buffer) : Nat := buffer.extent.rows

def columns (buffer : Buffer) : Nat := buffer.extent.columns

/-- Element count as a machine word holds it. -/
def length (buffer : Buffer) : Nat := Size.word buffer.extent.elements

def isEmpty (buffer : Buffer) : Bool := buffer.length = 0

def kindCode (buffer : Buffer) : Char := buffer.extent.kindCode

/-- `[8, 4]` -/
def listed (numbers : List Nat) : String :=
  "[" ++ ", ".intercalate (numbers.map toString) ++ "]"

/-- The handle with all its fields, as diagnostics show it. -/
def shown (buffer : Buffer) : String :=
  "BufferHandle \x7b id: " ++ buffer.id.field ++ ", dtype: " ++ buffer.elementType.label ++
    ", dims: " ++ listed buffer.dims ++ ", context: " ++ buffer.context.field ++ " \x7d"

end Buffer

end KernelTuner
