/-!
Contract: the element types that device buffers and host scalars may have.

Owns: the ten types, their size, their name in kernel source, their one-letter
code in fingerprints and their name in model descriptions.
-/

set_option autoImplicit false

namespace KernelTuner

/-- Type of one element of a device buffer. -/
inductive ElementType where
  | i8 | u8 | i16 | u16 | i32 | u32 | i64 | u64 | f32 | f64
deriving DecidableEq, Repr, Inhabited

namespace ElementType

def all : List ElementType :=
  [i8, u8, i16, u16, i32, u32, i64, u64, f32, f64]

/-- Place of the type in `all`; keys are ordered by it. -/
def rank : ElementType → Nat
  | i8 => 0 | u8 => 1 | i16 => 2 | u16 => 3 | i32 => 4
  | u32 => 5 | i64 => 6 | u64 => 7 | f32 => 8 | f64 => 9

/-- Tag by which diagnostics name the type. -/
def label : ElementType → String
  | i8 => "I8" | u8 => "U8" | i16 => "I16" | u16 => "U16" | i32 => "I32"
  | u32 => "U32" | i64 => "I64" | u64 => "U64" | f32 => "F32" | f64 => "F64"

def ofLabel? (label : String) : Option ElementType :=
  all.find? (fun type => type.label = label)

def isFloat : ElementType → Bool
  | f32 | f64 => true
  | _ => false

/-- Bytes of one element. -/
def bytes : ElementType → Nat
  | i8 | u8 => 1
  | i16 | u16 => 2
  | i32 | u32 | f32 => 4
  | i64 | u64 | f64 => 8

/-- Name of the scalar type in kernel source. -/
def kernelName : ElementType → String
  | i8 => "char" | u8 => "uchar" | i16 => "short" | u16 => "ushort" | i32 => "int"
  | u32 => "uint" | i64 => "long" | u64 => "ulong" | f32 => "float" | f64 => "double"

/-- The letter that stands for the type in a fingerprint; no two types share one. -/
def code : ElementType → Char
  | i8 => 'c' | u8 => 'C' | i16 => 's' | u16 => 'S' | i32 => 'i'
  | u32 => 'I' | i64 => 'l' | u64 => 'L' | f32 => 'f' | f64 => 'd'

/-- Name in model descriptions, which configure floating-point kernels only. -/
def descriptionName? : ElementType → Option String
  | f32 => some "float32"
  | f64 => some "float64"
  | _ => none

def ofDescriptionName? (name : String) : Option ElementType :=
  if name = "float32" then some f32
  else if name = "float64" then some f64
  else none

theorem mem_all (type : ElementType) : type ∈ all := by
  cases type <;> decide

theorem code_injective {left right : ElementType} (same : left.code = right.code) :
    left = right := by
  revert same
  cases left <;> cases right <;> decide

theorem ofDescriptionName?_eq_some_iff {name : String} {type : ElementType} :
    ofDescriptionName? name = some type ↔ type.descriptionName? = some name := by
  unfold ofDescriptionName?
  constructor
  · intro found
    split at found
    · cases found; simp_all [descriptionName?]
    · split at found
      · cases found; simp_all [descriptionName?]
      · simp at found
  · cases type <;> simp [descriptionName?] <;> rintro rfl <;> simp

end ElementType

end KernelTuner
