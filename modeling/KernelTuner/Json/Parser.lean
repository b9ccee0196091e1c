import KernelTuner.Json.Number

/-!
Contract: the reading of JSON texts.

Owns: the strict grammar. Only white space may follow the value, at most 127
arrays and objects are open at once, an escaped surrogate must be one half of a
pair, and control characters do not stand in strings unescaped.
-/

set_option autoImplicit false

namespace KernelTuner.Json

def isSpace (character : Char) : Bool :=
  character = ' ' || character = '\n' || character = '\t' || character = '\r'

def skipSpace (characters : List Char) : List Char := characters.dropWhile isSpace

def hexDigit? (character : Char) : Option Nat :=
  if '0' ≤ character ∧ character ≤ '9' then some (character.toNat - '0'.toNat)
  else if 'a' ≤ character ∧ character ≤ 'f' then some (character.toNat - 'a'.toNat + 10)
  else if 'A' ≤ character ∧ character ≤ 'F' then some (character.toNat - 'A'.toNat + 10)
  else none

/-- The 16-bit unit that four hexadecimal digits stand for. -/
def hexUnit? (first second third fourth : Char) : Option Nat := do
  let first ← hexDigit? first
  let second ← hexDigit? second
  let third ← hexDigit? third
  let fourth ← hexDigit? fourth
  return ((first * 16 + second) * 16 + third) * 16 + fourth

def isHighSurrogate (unit : Nat) : Bool := 0xD800 ≤ unit && unit ≤ 0xDBFF

def isLowSurrogate (unit : Nat) : Bool := 0xDC00 ≤ unit && unit ≤ 0xDFFF

/-- The character that a surrogate pair stands for. -/
def surrogatePair (high low : Nat) : Char :=
  Char.ofNat (0x10000 + (high - 0xD800) * 0x400 + (low - 0xDC00))

def escaped? : Char → Option Char
  | '"' => some '"'
  | '\\' => some '\\'
  | '/' => some '/'
  | 'b' => some '\x08'
  | 'f' => some '\x0c'
  | 'n' => some '\n'
  | 'r' => some '\r'
  | 't' => some '\t'
  | _ => none

/-- The rest of a string behind its opening quote. `reversed` holds the
characters read so far, last one first. -/
def stringBody (reversed : List Char) : List Char → Option (String × List Char)
  | [] => none
  | '"' :: rest => some (String.ofList reversed.reverse, rest)
  | '\\' :: 'u' :: a :: b :: c :: d :: '\\' :: 'u' :: e :: f :: g :: h :: rest =>
      match hexUnit? a b c d with
      | none => none
      | some unit =>
          if isHighSurrogate unit then
            match hexUnit? e f g h with
            | none => none
            | some low =>
                if isLowSurrogate low then stringBody (surrogatePair unit low :: reversed) rest
                else none
          else if isLowSurrogate unit then none
          else stringBody (Char.ofNat unit :: reversed) ('\\' :: 'u' :: e :: f :: g :: h :: rest)
  | '\\' :: 'u' :: a :: b :: c :: d :: rest =>
      match hexUnit? a b c d with
      | none => none
      | some unit =>
          if isHighSurrogate unit || isLowSurrogate unit then none
          else stringBody (Char.ofNat unit :: reversed) rest
  | '\\' :: mark :: rest =>
      match escaped? mark with
      | none => none
      | some character => stringBody (character :: reversed) rest
  | character :: rest =>
      if character = '\\' || character.toNat < 0x20 then none
      else stringBody (character :: reversed) rest

/-- Reads one value from the front of a text. -/
abbrev Reader := List Char → Option (Value × List Char)

/-- Removes `word` from the front of the text. -/
def expect : List Char → List Char → Option (List Char)
  | [], characters => some characters
  | _ :: _, [] => none
  | expected :: word, character :: rest =>
      if character = expected then expect word rest else none

/-- Elements up to the closing bracket; `reversed` holds those read so far.
Every element takes at least one character, so the text's length is fuel enough. -/
def elements (read : Reader) (reversed : List Value) : Nat → Reader
  | 0, _ => none
  | fuel + 1, characters => do
      let (element, characters) ← read (skipSpace characters)
      match skipSpace characters with
      | ',' :: rest => elements read (element :: reversed) fuel rest
      | ']' :: rest => return (.array (element :: reversed).reverse, rest)
      | _ => none

/-- Members up to the closing brace, as `elements`. -/
def members (read : Reader) (reversed : List (String × Value)) : Nat → Reader
  | 0, _ => none
  | fuel + 1, characters =>
      match skipSpace characters with
      | '"' :: rest => do
          let (key, characters) ← stringBody [] rest
          let characters ← expect [':'] (skipSpace characters)
          let (member, characters) ← read (skipSpace characters)
          match skipSpace characters with
          | ',' :: rest => members read ((key, member) :: reversed) fuel rest
          | '\x7d' :: rest => return (.ofMembers ((key, member) :: reversed).reverse, rest)
          | _ => none
      | _ => none

/-- A value that is neither array nor object. -/
def scalar : Reader
  | 'n' :: rest => do return (.null, ← expect ['u', 'l', 'l'] rest)
  | 't' :: rest => do return (.boolean true, ← expect ['r', 'u', 'e'] rest)
  | 'f' :: rest => do return (.boolean false, ← expect ['a', 'l', 's', 'e'] rest)
  | '"' :: rest => do
      let (text, characters) ← stringBody [] rest
      return (.text text, characters)
  | characters => do
      let (literal, characters) ← Literal.read characters
      return (.number (← literal.value?), characters)

/-- A value with at most `depth` arrays and objects open at once. -/
def value : Nat → Reader
  | 0, characters =>
      match characters with
      | '[' :: _ => none
      | '\x7b' :: _ => none
      | _ => scalar characters
  | depth + 1, characters =>
      match characters with
      | '[' :: rest =>
          match skipSpace rest with
          | ']' :: rest => some (.array [], rest)
          | inner => elements (value depth) [] rest.length inner
      | '\x7b' :: rest =>
          match skipSpace rest with
          | '\x7d' :: rest => some (.object [], rest)
          | inner => members (value depth) [] rest.length inner
      | _ => scalar characters

/-- Most arrays and objects that may be open at once. -/
def depthLimit : Nat := 127

/-- The value that the whole text stands for. -/
def parse? (text : String) : Option Value :=
  match value depthLimit (skipSpace text.toList) with
  | some (result, rest) => if (skipSpace rest).isEmpty then some result else none
  | none => none

end KernelTuner.Json
