import KernelTuner.Decimal.Shortest

/-!
Contract: how a float is written in a diagnostic.

Owns: the layout. A magnitude from `10 ^ -4` up to but not including `10 ^ 16`
is written positionally and keeps one place after the point; any other has an
exponent without plus sign or leading zeros.
-/

set_option autoImplicit false

namespace KernelTuner.Decimal

/-- Which decimal exponents of the leading digit are written positionally. -/
structure Layout where
  leastPositional : Int
  greatestPositional : Int
deriving Repr

/-- Layout of the floats that diagnostics show. -/
def diagnostic : Layout := ⟨-4, 15⟩

def zeros (count : Nat) : String := String.ofList (List.replicate count '0')

/-- `digits` with the point after the first `whole` of them, filled up with
zeros on either side. -/
def positional (digits : String) (whole : Int) : String :=
  if whole ≤ 0 then "0." ++ zeros (-whole).toNat ++ digits
  else if digits.length ≤ whole.toNat then
    digits ++ zeros (whole.toNat - digits.length) ++ ".0"
  else
    String.ofList (digits.toList.take whole.toNat) ++ "." ++
      String.ofList (digits.toList.drop whole.toNat)

def exponential (digits : String) (leading : Int) : String :=
  let tail := digits.toList.drop 1
  String.ofList (digits.toList.take 1) ++
    (if tail.isEmpty then "" else "." ++ String.ofList tail) ++ "e" ++ toString leading

/-- Text of a positive decimal. -/
def Layout.write (layout : Layout) (decimal : Scaled) : String :=
  let digits := toString decimal.coefficient
  let leading := decimal.exponent + digits.length - 1
  if layout.leastPositional ≤ leading ∧ leading ≤ layout.greatestPositional then
    positional digits (leading + 1)
  else exponential digits leading

/-- Text of the value with these bits. -/
def Layout.render (layout : Layout) (bits : UInt64) : String :=
  let sign := if bits.toNat / Nat.pow 2 63 = 1 then "-" else ""
  let magnitude := bits.toNat % Nat.pow 2 63
  if magnitude = 0 then sign ++ "0.0"
  else if 0x7FF0000000000000 < magnitude then "NaN"
  else if magnitude = 0x7FF0000000000000 then sign ++ "inf"
  else sign ++ layout.write (Binary.ofBits (UInt64.ofNat magnitude)).shortest

end KernelTuner.Decimal
