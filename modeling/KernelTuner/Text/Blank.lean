/-!
Contract: white space in texts that users and devices write.

Owns: the characters with the Unicode property White_Space, trimming, and the
split of a text into its blank-separated words.
-/

set_option autoImplicit false

namespace KernelTuner.Text

/-- Ranges of code points with the property White_Space, in ascending order. -/
def blankRanges : List (Nat × Nat) :=
  [(0x09, 0x0D), (0x20, 0x20), (0x85, 0x85), (0xA0, 0xA0), (0x1680, 0x1680),
    (0x2000, 0x200A), (0x2028, 0x2029), (0x202F, 0x202F), (0x205F, 0x205F), (0x3000, 0x3000)]

def isBlank (character : Char) : Bool :=
  blankRanges.any (fun range => range.1 ≤ character.toNat && character.toNat ≤ range.2)

/-- `characters` without the blanks at its two ends. -/
def trimBlank (characters : List Char) : List Char :=
  ((characters.dropWhile isBlank).reverse.dropWhile isBlank).reverse

def trim (text : String) : String :=
  String.ofList (trimBlank text.toList)

/-- The maximal runs of characters that are not blank. `current` holds the
characters of the open run, last one first. -/
def wordsFrom (current : List Char) : List Char → List String
  | [] => if current.isEmpty then [] else [String.ofList current.reverse]
  | character :: rest =>
      if isBlank character then
        if current.isEmpty then wordsFrom [] rest
        else String.ofList current.reverse :: wordsFrom [] rest
      else wordsFrom (character :: current) rest

/-- The blank-separated words of `text`, in order. -/
def words (text : String) : List String := wordsFrom [] text.toList

example : (blankRanges.map (fun range => range.2 + 1 - range.1)).sum = 25 := by decide

end KernelTuner.Text
