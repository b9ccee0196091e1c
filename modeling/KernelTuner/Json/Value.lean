import KernelTuner.Table

/-!
Contract: JSON values.

Owns: the value type and the construction of objects. A number is an integer of
at most 64 bits, signed or unsigned, or a float. The members of an object have
distinct keys and stand in ascending key order.
-/

set_option autoImplicit false

namespace KernelTuner.Json

/-- A JSON number. -/
inductive Number where
  /-- From `-2 ^ 63` up to `2 ^ 64 - 1`. -/
  | integer (value : Int)
  | float (value : Float)
deriving Inhabited

/-- A JSON value. -/
inductive Value where
  | null
  | boolean (value : Bool)
  | number (value : Number)
  | text (value : String)
  | array (elements : List Value)
  | object (members : List (String × Value))
deriving Inhabited

/-- The object with these members: the last of equal keys wins, and keys ascend. -/
def Value.ofMembers (members : List (String × Value)) : Value :=
  .object ((Table.insertAll {} members).entries.mergeSort (fun left right => left.1 ≤ right.1))

/-- The float nearest to the number. -/
def Number.toFloat : Number → Float
  | .integer value =>
      if 0 ≤ value then (UInt64.ofNat value.toNat).toFloat else (Int64.ofInt value).toFloat
  | .float value => value

/-- The binary32 value nearest to the number. -/
def Number.toFloat32 : Number → Float32
  | .integer value =>
      if 0 ≤ value then (UInt64.ofNat value.toNat).toFloat32 else (Int64.ofInt value).toFloat32
  | .float value => value.toFloat32

end KernelTuner.Json
