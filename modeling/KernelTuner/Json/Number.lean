import KernelTuner.Json.Value

/-!
Contract: JSON number literals.

Owns: the grammar of a literal and its value. A literal without fraction and
exponent that fits 64 bits is an integer. Any other is a float, computed from as
many leading digits as fit an unsigned 64-bit significand and one multiplication
or division by a power of ten. Negative zero is a float, and a literal beyond the
greatest finite float has no value.
-/

set_option autoImplicit false

namespace KernelTuner.Json

/-- The parts of a number literal, digits as numbers below ten. -/
structure Literal where
  negative : Bool
  whole : List Nat
  fraction : Option (List Nat)
  /-- Whether the exponent is negative, and its digits. -/
  exponent : Option (Bool × List Nat)
deriving DecidableEq, Repr

def digit? (character : Char) : Option Nat :=
  if '0' ≤ character ∧ character ≤ '9' then some (character.toNat - '0'.toNat) else none

/-- The longest initial run of digits, and what follows it. -/
def digits : List Char → List Nat × List Char
  | [] => ([], [])
  | character :: rest =>
      match digit? character with
      | some digit => (digit :: (digits rest).1, (digits rest).2)
      | none => ([], character :: rest)

/-- A run of at least one digit. -/
def someDigits (characters : List Char) : Option (List Nat × List Char) :=
  match digits characters with
  | ([], _) => none
  | run => some run

/-- The whole part: no leading zero unless it is the only digit. -/
def wholePart (characters : List Char) : Option (List Nat × List Char) :=
  match digits characters with
  | ([], _) => none
  | (0 :: _ :: _, _) => none
  | run => some run

def fractionPart : List Char → Option (Option (List Nat) × List Char)
  | '.' :: rest => (someDigits rest).map (fun run => (some run.1, run.2))
  | characters => some (none, characters)

/-- The digits of an exponent behind its optional sign. -/
def exponentDigits : List Char → Option ((Bool × List Nat) × List Char)
  | '+' :: rest => (someDigits rest).map (fun run => ((false, run.1), run.2))
  | '-' :: rest => (someDigits rest).map (fun run => ((true, run.1), run.2))
  | characters => (someDigits characters).map (fun run => ((false, run.1), run.2))

def exponentPart : List Char → Option (Option (Bool × List Nat) × List Char)
  | 'e' :: rest => (exponentDigits rest).map (fun part => (some part.1, part.2))
  | 'E' :: rest => (exponentDigits rest).map (fun part => (some part.1, part.2))
  | characters => some (none, characters)

/-- Reads a literal from the front of `characters`. -/
def Literal.read (characters : List Char) : Option (Literal × List Char) := do
  let (negative, characters) :=
    match characters with
    | '-' :: rest => (true, rest)
    | _ => (false, characters)
  let (whole, characters) ← wholePart characters
  let (fraction, characters) ← fractionPart characters
  let (exponent, characters) ← exponentPart characters
  return (⟨negative, whole, fraction, exponent⟩, characters)

/-- Appends digits to `value` up to the first that would carry it past `limit`.
Gives the result and how many digits were taken. -/
def absorb (limit value : Nat) : List Nat → Nat × Nat
  | [] => (value, 0)
  | digit :: rest =>
      if value * 10 + digit ≤ limit then
        let (result, taken) := absorb limit (value * 10 + digit) rest
        (result, taken + 1)
      else (value, 0)

def significandLimit : Nat := 0xFFFFFFFFFFFFFFFF

def exponentLimit : Nat := 0x7FFFFFFF

/-- `value * 10 ^ exponent`, by one multiplication or division. An exponent below
`-308` is taken in steps of 308; two such steps leave zero. -/
def scaleByTen (value : Float) (exponent : Int) : Nat → Option Float
  | 0 => some value
  | steps + 1 =>
      if exponent.natAbs ≤ 308 then
        let power := Float.ofScientific 1 false exponent.natAbs
        if 0 ≤ exponent then
          let product := value * power
          if product.isInf then none else some product
        else some (value / power)
      else if value == 0.0 then some value
      else if 0 ≤ exponent then none
      else scaleByTen (value / Float.ofScientific 1 false 308) (exponent + 308) steps

/-- Restricts `value` to the range of a signed 32-bit number. -/
def saturate (value : Int) : Int := max (-0x80000000) (min 0x7FFFFFFF value)

def signedFloat (negative : Bool) (value : Float) : Float :=
  if negative then -value else value

/-- The float that a significand, a decimal exponent and an explicit exponent
part stand for. -/
def Literal.floatValue (literal : Literal) (significand : Nat) (exponent : Int) :
    Option Float :=
  let magnitude := (UInt64.ofNat significand).toFloat
  match literal.exponent with
  | none => (scaleByTen magnitude exponent 4).map (signedFloat literal.negative)
  | some (negative, digits) =>
      let (written, taken) := absorb exponentLimit 0 digits
      if taken < digits.length then
        if significand ≠ 0 ∧ !negative then none else some (signedFloat literal.negative 0.0)
      else
        let total := saturate (if negative then exponent - written else exponent + written)
        (scaleByTen magnitude total 4).map (signedFloat literal.negative)

/-- The value of a literal. -/
def Literal.value? (literal : Literal) : Option Number :=
  let (whole, taken) := absorb significandLimit 0 literal.whole
  let dropped : Int := (literal.whole.length : Int) - taken
  match literal.fraction with
  | some fraction =>
      let (significand, places) := absorb significandLimit whole fraction
      (literal.floatValue significand (dropped - places)).map .float
  | none =>
      if literal.exponent.isSome || dropped ≠ 0 then
        (literal.floatValue whole dropped).map .float
      else if !literal.negative then some (.integer whole)
      else if whole = 0 ∨ 0x8000000000000000 < whole then
        some (.float (-(UInt64.ofNat whole).toFloat))
      else some (.integer (-whole))

end KernelTuner.Json
