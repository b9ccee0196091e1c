import KernelTuner.Error
import KernelTuner.Kernel.Text
import KernelTuner.Text.Blank

/-!
Contract: what a compiler reads off a source text.

Owns: the balance of braces, the search for a marker and the kernel entry points.
-/

set_option autoImplicit false

namespace KernelTuner.Source

/-- The depth at the end of the text, or the number of the first line that closes
a block that is not open. -/
def depthFrom (line depth : Nat) : List Char → Except Nat Nat
  | [] => .ok depth
  | '\n' :: rest => depthFrom (line + 1) depth rest
  | '\x7b' :: rest => depthFrom line (depth + 1) rest
  | '\x7d' :: rest =>
      match depth with
      | 0 => .error line
      | outer + 1 => depthFrom line outer rest
  | _ :: rest => depthFrom line depth rest

/-- Whether `marker` occurs in the text. -/
def occurs (marker : List Char) : List Char → Bool
  | [] => marker.isEmpty
  | character :: rest => marker.isPrefixOf (character :: rest) || occurs marker rest

/-- The entry name in front of the next opening parenthesis, if it is not blank. -/
def entryName? (characters : List Char) : Option String :=
  if characters.contains '(' then
    let name := Text.trimBlank (characters.takeWhile (· ≠ '('))
    if name.isEmpty then none else some (String.ofList name)
  else none

/-- The entry names behind every kernel header of the text. -/
def entriesFrom : List Char → List String
  | [] => []
  | character :: rest =>
      let mark := Kernel.entryMark.toList
      if mark.isPrefixOf (character :: rest) then
        (entryName? ((character :: rest).drop mark.length)).toList ++ entriesFrom rest
      else entriesFrom rest

def entries (source : String) : List String := entriesFrom source.toList

/-- Why a source does not compile. -/
inductive Rejection where
  | marker (text : String)
  | unmatched (line : Nat)
  | unclosed (depth : Nat)
deriving DecidableEq, Repr

def Rejection.log : Rejection → String
  | .marker text => "source contains rejected marker \"" ++ text ++ "\""
  | .unmatched line => s!"line {line}: unmatched '\x7d'"
  | .unclosed depth => s!"{depth} unclosed block(s)"

/-- The first of `markers` that the source contains, else the fault in its braces. -/
def rejection? (markers : List String) (source : String) : Option Rejection :=
  match markers.find? (fun marker => occurs marker.toList source.toList) with
  | some marker => some (.marker marker)
  | none =>
      match depthFrom 1 0 source.toList with
      | .error line => some (.unmatched line)
      | .ok 0 => none
      | .ok (depth + 1) => some (.unclosed (depth + 1))

end KernelTuner.Source
