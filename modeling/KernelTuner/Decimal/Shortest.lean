/-!
Contract: the fewest decimal digits that identify a binary64 value.

Owns: the exact value of a finite float, the test whether a decimal reads back
to it, and the search for the shortest such decimal. All arithmetic is on
natural numbers; no float operation is used.

Of two decimals of the same length the nearer one is taken, and of two equally
near ones the greater one.
-/

set_option autoImplicit false

namespace KernelTuner.Decimal

/-- The finite non-negative value `significand * 2 ^ exponent`. -/
structure Binary where
  significand : Nat
  exponent : Int
  /-- The next value below is half as far away as the next value above. -/
  narrowBelow : Bool
deriving DecidableEq, Repr

/-- Magnitude of the finite value with these bits. -/
def Binary.ofBits (bits : UInt64) : Binary :=
  let biased : Nat := (bits.toNat / Nat.pow 2 52) % Nat.pow 2 11
  let fraction : Nat := bits.toNat % Nat.pow 2 52
  if biased = 0 then ⟨fraction, -1074, false⟩
  else ⟨Nat.pow 2 52 + fraction, (biased : Int) - 1075, fraction = 0 && 1 < biased⟩

/-- The decimal `coefficient * 10 ^ exponent`. -/
structure Scaled where
  coefficient : Nat
  exponent : Int
deriving DecidableEq, Repr

/-- Exact comparison of `coefficient * 10 ^ ten` with `count * 2 ^ two`. -/
def compareScaled (coefficient : Nat) (ten : Int) (count : Nat) (two : Int) : Ordering :=
  compare (coefficient * Nat.pow 10 ten.toNat * Nat.pow 2 (-two).toNat)
    (count * Nat.pow 2 two.toNat * Nat.pow 10 (-ten).toNat)

/-- `decimal` lies among the reals that round to `value`: between the midpoints
to its two neighbours, ends included exactly when the significand is even. -/
def Binary.readsBack (value : Binary) (decimal : Scaled) : Bool :=
  let low := if value.narrowBelow then 4 * value.significand - 1 else 4 * value.significand - 2
  let high := 4 * value.significand + 2
  let closed := value.significand % 2 == 0
  let fromLow := compareScaled decimal.coefficient decimal.exponent low (value.exponent - 2)
  let fromHigh := compareScaled decimal.coefficient decimal.exponent high (value.exponent - 2)
  (fromLow == .gt || (closed && fromLow == .eq)) &&
    (fromHigh == .lt || (closed && fromHigh == .eq))

/-- `⌊value / 10 ^ ten⌋`. -/
def Binary.floorAt (value : Binary) (ten : Int) : Nat :=
  (value.significand * Nat.pow 2 value.exponent.toNat * Nat.pow 10 (-ten).toNat) /
    (Nat.pow 2 (-value.exponent).toNat * Nat.pow 10 ten.toNat)

/-- The least `k` from `estimate` on, at most `tries` steps away, with
`value < 10 ^ k`. -/
def Binary.magnitudeFrom (value : Binary) (estimate : Int) : Nat → Int
  | 0 => estimate
  | tries + 1 =>
      if compareScaled 1 estimate value.significand value.exponent == .gt then estimate
      else value.magnitudeFrom (estimate + 1) tries

/-- The least `k` with `value < 10 ^ k`, for a positive value. The binary
logarithm gives it up to two steps. -/
def Binary.magnitude (value : Binary) : Int :=
  let binaryLog := (Nat.log2 value.significand : Int) + value.exponent
  value.magnitudeFrom (binaryLog * 30103 / 100000) 3

/-- The nearer neighbour of `value` on the grid of `10 ^ ten` that reads back,
if one of the two does. -/
def Binary.onGrid? (value : Binary) (ten : Int) : Option Scaled :=
  let below : Scaled := ⟨value.floorAt ten, ten⟩
  let above : Scaled := ⟨value.floorAt ten + 1, ten⟩
  match value.readsBack below, value.readsBack above with
  | false, false => none
  | true, false => some below
  | false, true => some above
  | true, true =>
      if compareScaled (below.coefficient + above.coefficient) ten value.significand
          (value.exponent + 1) == .gt
      then some below else some above

/-- The coefficient without its final zeros. Each step moves one zero into the
exponent; a coefficient has at most `steps` of them. -/
def Scaled.strip (decimal : Scaled) : Nat → Scaled
  | 0 => decimal
  | steps + 1 =>
      if decimal.coefficient ≠ 0 ∧ decimal.coefficient % 10 = 0 then
        Scaled.strip ⟨decimal.coefficient / 10, decimal.exponent + 1⟩ steps
      else decimal

/-- The shortest decimal that reads back to a positive value. Seventeen digits
always suffice. -/
def Binary.shortest (value : Binary) : Scaled :=
  let magnitude := value.magnitude
  let grids := (List.range 17).map (fun (count : Nat) => magnitude - 1 - (count : Int))
  ((grids.findSome? value.onGrid?).getD ⟨value.floorAt (magnitude - 17), magnitude - 17⟩).strip 17

end KernelTuner.Decimal
