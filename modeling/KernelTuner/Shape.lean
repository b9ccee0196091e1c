/-!
Contract: size parameters of one operation instance.

Owns: shapes, their display, the features a predictor reads from them and their
order. A shape is the exact-match key of an override table, so equality is
element by element and order-sensitive.
-/

set_option autoImplicit false

namespace KernelTuner

/-- Sizes of one operation instance, such as `[N]` for a vector update or
`[M, N, K]` for a matrix product. -/
structure Shape where
  sizes : List Int
deriving DecidableEq, Repr, Inhabited

namespace Shape

def length (shape : Shape) : Nat := shape.sizes.length

def isEmpty (shape : Shape) : Bool := shape.sizes.isEmpty

/-- Size number `index`; sizes past the end read as zero. -/
def feature (shape : Shape) (index : Nat) : Int := shape.sizes.getD index 0

def display (shape : Shape) : String :=
  "[" ++ ", ".intercalate (shape.sizes.map toString) ++ "]"

/-- Lexicographic order; a proper initial part comes first. -/
def compareSizes : List Int → List Int → Ordering
  | [], [] => .eq
  | [], _ :: _ => .lt
  | _ :: _, [] => .gt
  | left :: lefts, right :: rights =>
      match compare left right with
      | .eq => compareSizes lefts rights
      | decided => decided

def compare (left right : Shape) : Ordering := compareSizes left.sizes right.sizes

end Shape

end KernelTuner
