import KernelTuner.Json.Value

/-!
Contract: the reading of typed data from JSON values.

Owns: decoders for integers, floats, lists and records, and the reason why a
value is refused. A record is given as an object, whose members are visited in
key order and whose unknown members are ignored, or as an array of its fields in
declaration order.
-/

set_option autoImplicit false

namespace KernelTuner.Json

/-- Why a value does not have the expected form. -/
inductive DecodeError where
  | invalidType
  | invalidValue
  | missingField (name : String)
  | invalidLength (length : Nat)
deriving DecidableEq, Repr

def DecodeError.message : DecodeError → String
  | .invalidType => "invalid type"
  | .invalidValue => "invalid value"
  | .missingField name => s!"missing field `{name}`"
  | .invalidLength length => s!"invalid length {length}"

abbrev Decoder (α : Type) := Value → Except DecodeError α

/-- A signed 64-bit integer; a float is refused even when it is whole. -/
def integer : Decoder Int
  | .number (.integer value) =>
      if value < 0x8000000000000000 then .ok value else .error .invalidValue
  | _ => .error .invalidType

def float : Decoder Float
  | .number value => .ok value.toFloat
  | _ => .error .invalidType

def float32 : Decoder Float32
  | .number value => .ok value.toFloat32
  | _ => .error .invalidType

/-- A list whose elements are read from first to last. -/
def list {α : Type} (element : Decoder α) : Decoder (List α)
  | .array values => values.mapM element
  | _ => .error .invalidType

/-- A value in which `null` stands for absence. -/
def optional : Decoder (Option Value)
  | .null => .ok none
  | value => .ok (some value)

/-- How a record is read: `store` adds the field of that name to what has been
read so far. -/
structure Record (π : Type) where
  names : List String
  /-- Fields that may be absent. -/
  defaulted : List String
  store : String → Value → π → Except DecodeError π

namespace Record

variable {π : Type}

/-- The first field that an object must have and does not. -/
def missing? (format : Record π) (members : List (String × Value)) : Option String :=
  format.names.find? fun name =>
    !format.defaulted.contains name && !(members.map Prod.fst).contains name

/-- The first field that an array of `length` values must have and does not. -/
def missingPlace? (format : Record π) (length : Nat) : Option Nat :=
  (List.range format.names.length).find? fun place =>
    length ≤ place && !format.defaulted.contains (format.names.getD place "")

/-- Reads the fields of `value` into `empty`. Every present field is read before
an absent one or a surplus one is reported. -/
def read (format : Record π) (empty : π) : Decoder π
  | .object members => do
      let filled ← members.foldlM (fun filled member =>
        if format.names.contains member.1 then format.store member.1 member.2 filled
        else .ok filled) empty
      match format.missing? members with
      | some name => .error (.missingField name)
      | none => .ok filled
  | .array values => do
      let filled ← (format.names.zip values).foldlM (fun filled field =>
        format.store field.1 field.2 filled) empty
      match format.missingPlace? values.length with
      | some place => .error (.invalidLength place)
      | none =>
          if format.names.length < values.length then .error (.invalidLength values.length)
          else .ok filled
  | _ => .error .invalidType

end Record

end KernelTuner.Json
